import Schnitzeljagd.News.Overview

/-!
# The text of an article

`util.c` reads the lines of an article and joins the lines of a folded header field, and
`database.c` stores an article without those fields that its overview holds. A text is a
string in C, whose terminator is not written here. A function has no value if it reads or
writes outside of what it is given.
-/

namespace Schnitzeljagd.News

open Foundations.CArithmetic Foundations.CString Foundations.LineFile Foundations.PerlText
open Foundations.Scanning

/-! ## Lines -/

/-- The loop of `Utl_getLn` with what it has read so far. The inner option is a null pointer: the
text ends before the line does. One byte behind a line that is too long is left out. -/
def getLine : Text → Text → Option (Option (Text × Text))
  | _, [] => some none
  | read, byte :: rest =>
    if byte = newline then some (some (read, rest))
    else if read.length + 1 ≥ maxChar - 1 then
      match rest with
      | [] => none
      | _ :: rest => some (some (read ++ [byte], rest))
    else getLine (read ++ [byte]) rest

/-- `Utl_getLn`, which reads a line of a text in memory. -/
def utlGetLn (pos : Text) : Option (Option (Text × Text)) := getLine [] pos

/-- A line that has been read is gone from the text, so reading lines comes to an end. -/
theorem getLine_shorter {read text line rest : Text}
    (got : getLine read text = some (some (line, rest))) : rest.length < text.length := by
  induction text generalizing read with
  | nil => cases got
  | cons byte text inductionHypothesis =>
    rw [getLine.eq_def] at got
    simp only at got
    split at got
    · obtain ⟨-, rfl⟩ := Prod.mk.inj (Option.some.inj (Option.some.inj got))
      exact Nat.lt_succ_self _
    · split at got
      · split at got
        · contradiction
        · obtain ⟨-, rfl⟩ := Prod.mk.inj (Option.some.inj (Option.some.inj got))
          simp only [List.length_cons]
          omega
      · have shorter := inductionHypothesis got
        rw [List.length_cons]
        omega

/-- `Utl_catStr`, whose bound leaves no room for the end of the string: a text that is cut off
ends behind the buffer, and then there is no result. -/
def catStr (dst src : Text) : Option Text :=
  let result := dst ++ src.take (maxChar - dst.length)
  if result.length < maxChar then some result else none

/-- A line that belongs to the header line before it begins here. -/
def followsOn (res : Text) : Bool := res.head?.any fun byte => byte ≠ newline && isSpace byte

/-- The loop of `Utl_getHeaderLn`, which puts a blank and the stripped line behind what it has. -/
def followOn (result res : Text) : Option (Text × Text) :=
  if followsOn res then
    match _got : utlGetLn res with
    | some (some (nextLine, rest)) =>
      let next := stripWhiteSpace nextLine
      if next ≠ [] then do
        let result ← catStr result [0x20]
        let result ← catStr result next
        followOn result rest
      else some (result, res)
    | _ => none
  else some (result, res)
termination_by res.length
decreasing_by exact getLine_shorter _got

/-- `Utl_getHeaderLn`: a field with the lines that it goes on over, joined to one line. -/
def getHeaderLn (p : Text) : Option (Option (Text × Text)) :=
  match utlGetLn p with
  | some (some (result, res)) =>
    if result.head?.all isSpace then some (some (result, res))
    else (followOn result res).map some
  | other => other

/-- Joining lines only uses text up. -/
theorem followOn_rest {result res joined rest : Text}
    (followed : followOn result res = some (joined, rest)) : rest.length ≤ res.length := by
  fun_induction followOn result res with
  | case1 result res follows nextLine rest' got next more inductionHypothesis =>
    obtain ⟨result', -, followed⟩ := Option.bind_eq_some_iff.mp followed
    obtain ⟨result'', -, followed⟩ := Option.bind_eq_some_iff.mp followed
    have shorter := getLine_shorter got
    have further := inductionHypothesis result'' followed
    omega
  | case2 result res follows nextLine rest' got next blank =>
    obtain ⟨-, rfl⟩ := Prod.mk.inj (Option.some.inj followed)
    exact Nat.le_refl _
  | case3 => contradiction
  | case4 result res plain =>
    obtain ⟨-, rfl⟩ := Prod.mk.inj (Option.some.inj followed)
    exact Nat.le_refl _

/-- A field that has been read is gone from the text. -/
theorem getHeaderLn_shorter {p line rest : Text}
    (got : getHeaderLn p = some (some (line, rest))) : rest.length < p.length := by
  rw [getHeaderLn] at got
  split at got
  · next result res read =>
    have shorter := getLine_shorter read
    split at got
    · obtain ⟨-, rfl⟩ := Prod.mk.inj (Option.some.inj (Option.some.inj got))
      exact shorter
    · obtain ⟨joined, followed, same⟩ := Option.map_eq_some_iff.mp got
      have further := followOn_rest (followed.trans (congrArg some (Option.some.inj same)))
      omega
  · next other =>
    exact absurd got (other line rest)

/-- `Prt_getField`: the name of the field up to the colon, and its value. A line without a colon
has none. -/
def getField (line : Text) : Option (Text × Text) :=
  let lineLower := line.map tolower
  let p := stripWhiteSpace lineLower
  let field := p.takeWhile fun byte => !isSpace byte && byte ≠ 0x3a
  let spaces := (p.drop field.length).takeWhile isSpace
  let front := (lineLower.takeWhile isSpace).length + field.length + spaces.length
  if p[field.length + spaces.length]? = some 0x3a then
    some (field, stripWhiteSpace (line.drop (front + 1)))
  else none

/-! ## Storing an article -/

/-- `DB_NOT_DOWNLOADED`, set as long as only the overview of an article is there. -/
def notDownloaded : BitVec 32 := 2

/-- `DB_RETRIEVING_FAILED`, set when the body could not be fetched. -/
def retrievingFailed : BitVec 32 := 4

/-- The fields that the overview holds, and those that the server makes itself. -/
def droppedFields : List Text :=
  [latin1 "message-id", latin1 "xref", latin1 "references", latin1 "subject", latin1 "from",
    latin1 "date", latin1 "bytes", latin1 "lines", latin1 "x-noffle-lastaccess"]

/-- The loop of `Db_storeArt` over the header: the status, the text, and where the body begins
unless the pointer is null. -/
def storeHeader (status : BitVec 32) (txt artTxt : Text) :
    Option (BitVec 32 × Text × Option Text) :=
  match _got : getHeaderLn artTxt with
  | none => none
  | some none => some (status, txt, none)
  | some (some (lineEx, rest)) =>
    if lineEx = [] then some (status, txt ++ [newline], some rest)
    else
      match getField lineEx with
      | none => storeHeader status txt rest
      | some (field, value) =>
        if field = latin1 "x-noffle-status" then
          storeHeader (if latin1 "NOT_DOWNLOADED" <:+: value then status ||| notDownloaded
            else status) txt rest
        else if field ∈ droppedFields then storeHeader status txt rest
        else storeHeader status (txt ++ (lineEx ++ [newline])) rest
termination_by artTxt.length
decreasing_by all_goals exact getHeaderLn_shorter _got

/-- The loop of `Db_storeArt` over the body. The lines of an article that came without its body
are read and dropped. -/
def storeBody (status : BitVec 32) (txt artTxt : Text) : Option Text :=
  match _got : utlGetLn artTxt with
  | none => none
  | some none => some txt
  | some (some (line, rest)) =>
    storeBody status (if status &&& notDownloaded = 0 then txt ++ (line ++ [newline]) else txt) rest
termination_by artTxt.length
decreasing_by exact getLine_shorter _got

/-- What the database keeps of an article: the fields of its overview, each by itself, and the
text of everything else. -/
structure Article where
  status : BitVec 32
  lastAccess : BitVec 32
  subj : Text
  sender : Text
  date : Text
  ref : Text
  xref : Text
  bytes : BitVec 32
  lines : BitVec 32
  txt : Text

/-- `Db_storeArt` with the article that it has loaded, at the time `now`: the article is saved if
it has been stored. -/
def Article.storeArt (article : Article) (now : BitVec 32) (artTxt : Text) :
    Option (Bool × Article) :=
  if article.status &&& notDownloaded = 0 then some (false, article)
  else do
    let status := article.status &&& ~~~notDownloaded &&& ~~~retrievingFailed
    let (status, txt, body) ← storeHeader status [] artTxt
    let article := { article with status, lastAccess := now, txt }
    match body with
    | none => some (false, article)
    | some body =>
      let txt ← storeBody status txt body
      some (true, { article with txt })

/-- `Db_body` of this text: what is behind the first two newlines in a row. -/
def dbBody : Text → Text
  | byte :: next :: rest =>
    if byte = newline ∧ next = newline then rest else dbBody (next :: rest)
  | _ => []

/-! ## Saving and loading -/

/-- `saveArt`: a line for each field, and then the text. -/
def saveArt (article : Article) : Text :=
  printHex article.status.toNat ++ newline :: (decimal article.lastAccess.toNat ++ newline ::
    (article.subj ++ newline :: (article.sender ++ newline :: (article.date ++ newline ::
      (article.ref ++ newline :: (article.xref ++ newline ::
        (decimal article.bytes.toNat ++ newline :: (decimal article.lines.toNat ++ newline ::
          article.txt))))))))

/-- A line of a record with a number on it, as `loadArt` reads it. -/
def loadNumber (scan : Text → Option (Int × Text)) (p : Text) : Option (BitVec 32 × Text) := do
  let (t, p) ← (utlGetLn p).join
  let (number, _) ← scan t
  some (.ofInt 32 number, p)

/-- The lines of a record from the subject to `db.xref`. -/
def loadFields (p : Text) : Option (Text × Text × Text × Text × Text × Text) := do
  let (subj, p) ← (utlGetLn p).join
  let (sender, p) ← (utlGetLn p).join
  let (date, p) ← (utlGetLn p).join
  let (ref, p) ← (utlGetLn p).join
  let (xref, p) ← (utlGetLn p).join
  some (subj, sender, date, ref, xref, p)

/-- `loadArt` of what is in the database, if it is not corrupt. -/
def loadArt (val : Text) : Option Article := do
  let (status, p) ← loadNumber scanHex val
  let (lastAccess, p) ← loadNumber scanDecimal p
  let (subj, sender, date, ref, xref, p) ← loadFields p
  let (bytes, p) ← loadNumber scanDecimal p
  let (lines, p) ← loadNumber scanDecimal p
  some ⟨status, lastAccess, subj, sender, date, ref, xref, bytes, lines, p⟩

/-! ## Reading a header -/

/-- A header field on one or more lines. The further ones are those that begin with white space.
-/
structure HeaderField where
  first : Text
  more : List Text

/-- The field as it was sent. -/
def HeaderField.text (field : HeaderField) : Text :=
  field.first ++ newline :: written field.more

/-- The field on a line of its own, as the server stores it. -/
def HeaderField.unfolded (field : HeaderField) : Text :=
  field.first ++ field.more.flatMap fun line => 0x20 :: stripWhiteSpace line

/-- A field that fits into the buffers, each of its lines and all of them together, and none of
whose lines could be taken for something else. -/
structure HeaderField.Fine (field : HeaderField) : Prop where
  nonempty : field.first ≠ []
  begins : ∀ byte ∈ field.first.head?, isSpace byte = false
  oneLine : newline ∉ field.first
  continued : ∀ line ∈ field.more, newline ∉ line ∧ line.length < maxChar ∧
    line.head?.any isSpace ∧ stripWhiteSpace line ≠ []
  room : field.unfolded.length < maxChar

/-- The loop reads a line up to its end, if there is room for it. -/
theorem getLine_line (read line rest : Text) (oneLine : newline ∉ line)
    (short : read.length + line.length < maxChar) :
    getLine read (line ++ newline :: rest) = some (some (read ++ line, rest)) := by
  induction line generalizing read with
  | nil =>
    rw [List.nil_append, getLine.eq_def, List.append_nil]
    exact if_pos rfl
  | cons byte line inductionHypothesis =>
    obtain ⟨other, oneLine'⟩ := not_or.mp (mt List.mem_cons.mpr oneLine)
    rw [List.length_cons] at short
    rw [List.cons_append, getLine.eq_def]
    simp only [if_neg (Ne.symm other)]
    by_cases full : read.length + 1 ≥ maxChar - 1
    · obtain rfl : line = [] := List.length_eq_zero_iff.mp (by omega)
      rw [if_pos full]
      rfl
    · rw [if_neg full, inductionHypothesis (read ++ [byte]) oneLine' (by simp; omega),
        List.append_assoc, List.singleton_append]

/-- A line in front of a text is read, and the text is left. -/
theorem utlGetLn_line (line rest : Text) (oneLine : newline ∉ line) (short : line.length < maxChar) :
    utlGetLn (line ++ newline :: rest) = some (some (line, rest)) :=
  getLine_line [] line rest oneLine (by simpa using short)

/-- Nothing is cut off where there is room. -/
theorem catStr_room (dst src : Text) (room : dst.length + src.length < maxChar) :
    catStr dst src = some (dst ++ src) := by
  have whole : src.take (maxChar - dst.length) = src := List.take_of_length_le (by omega)
  rw [catStr, whole]
  exact if_pos (by simpa using room)

/-- The lines that follow are joined with single spaces.

By induction on the lines. Each begins with white space, so that it is taken for a continuation,
and what is left of it when it is stripped fits into the buffer behind the lines before. -/
theorem followOn_lines (result : Text) (more : List Text) (rest : Text)
    (continued : ∀ line ∈ more, newline ∉ line ∧ line.length < maxChar ∧ line.head?.any isSpace ∧
      stripWhiteSpace line ≠ [])
    (room : (result ++ more.flatMap fun line => 0x20 :: stripWhiteSpace line).length < maxChar)
    (ends : followsOn rest = false) :
    followOn result (written more ++ rest) =
      some (result ++ more.flatMap (fun line => 0x20 :: stripWhiteSpace line), rest) := by
  induction more generalizing result with
  | nil =>
    rw [followOn.eq_def, written, List.map_nil, List.flatten_nil, List.nil_append,
      if_neg (by simp [ends]), List.flatMap_nil, List.append_nil]
  | cons line more inductionHypothesis =>
    obtain ⟨⟨oneLine, short, space, solid⟩, continued'⟩ := List.forall_mem_cons.mp continued
    rw [List.flatMap_cons] at room ⊢
    simp only [List.length_append, List.length_cons] at room
    have shape : written (line :: more) ++ rest = line ++ newline :: (written more ++ rest) := by
      rw [written_cons, List.append_assoc, List.cons_append]
    have follows : followsOn (line ++ newline :: (written more ++ rest)) = true := by
      cases line with
      | nil => contradiction
      | cons byte line =>
        have other : byte ≠ newline := fun same => oneLine (by simp [same])
        have space' : isSpace byte = true := by simpa using space
        simp [followsOn, other, space']
    rw [shape, followOn.eq_def, if_pos follows]
    split
    · next nextLine rest' got =>
      rw [utlGetLn_line line _ oneLine short] at got
      obtain ⟨rfl, rfl⟩ := Prod.mk.inj (Option.some.inj (Option.some.inj got))
      rw [if_pos solid, catStr_room result [0x20] (by simp; omega)]
      simp only [Option.bind_eq_bind, Option.bind_some]
      rw [catStr_room _ _ (by simp; omega)]
      simp only [Option.bind_some]
      rw [inductionHypothesis _ continued'
        (by simp only [List.length_append, List.length_cons, List.length_nil]; omega)]
      simp only [List.append_assoc, List.cons_append, List.nil_append]
    · next other =>
      exact absurd (utlGetLn_line line _ oneLine short) (other line _)

/-- A header line is read whole, up to where the next field or the end of the header begins. By
induction over the lines that go on with it. -/
theorem getHeaderLn_field (field : HeaderField) (fine : field.Fine) (rest : Text)
    (ends : followsOn rest = false) :
    getHeaderLn (field.text ++ rest) = some (some (field.unfolded, rest)) := by
  obtain ⟨nonempty, begins, oneLine, continued, room⟩ := fine
  have shape : field.text ++ rest = field.first ++ newline :: (written field.more ++ rest) := by
    simp [HeaderField.text]
  have short : field.first.length < maxChar := by
    rw [HeaderField.unfolded, List.length_append] at room
    omega
  rw [getHeaderLn, shape, utlGetLn_line field.first _ oneLine short]
  cases first : field.first with
  | nil => exact absurd first nonempty
  | cons byte later =>
    have real : isSpace byte = false := begins byte (by rw [first]; rfl)
    have folded := followOn_lines field.first field.more rest continued room ends
    rw [first] at folded
    simp only [List.head?_cons, Option.all_some, real, folded]
    rw [HeaderField.unfolded, first]
    rfl

/-! ## A record is read as it was written -/

/-- A text that fits on a line of a record: no newline in it, and not too long for the buffer. -/
def OneLine (text : Text) : Prop := newline ∉ text ∧ text.length < maxChar

instance (text : Text) : Decidable (OneLine text) :=
  inferInstanceAs (Decidable (newline ∉ text ∧ text.length < maxChar))

/-- Every field that is saved on a line of its own fits on one. -/
structure Article.Storable (article : Article) : Prop where
  subj : OneLine article.subj
  sender : OneLine article.sender
  date : OneLine article.date
  ref : OneLine article.ref
  xref : OneLine article.xref

/-- A number fits on a line. -/
theorem decimal_oneLine (number : BitVec 32) : OneLine (decimal number.toNat) := by
  constructor
  · intro member
    exact absurd (decimal_isDigit _ _ member) (by decide)
  · have short := decimal_length number.toNat 10 (by decide) (by omega)
    rw [maxChar]
    omega

/-- So does the status, which is saved in hexadecimal digits. -/
theorem printHex_oneLine (number : BitVec 32) : OneLine (printHex number.toNat) := by
  constructor
  · intro member
    exact absurd (printHex_bytes _ _ member).1 (by decide)
  · have short := printHex_length number.toNat 8 (by decide) (by omega)
    rw [maxChar]
    omega

/-- A line that was written is read back, with the rest of the record behind it. -/
theorem getLn_oneLine {text : Text} (oneLine : OneLine text) (rest : Text) :
    (utlGetLn (text ++ newline :: rest)).join = some (text, rest) := by
  rw [utlGetLn_line text rest oneLine.1 oneLine.2]
  rfl

/-- A number that was written on a line is read back. -/
theorem loadNumber_written {scan : Text → Option (Int × Text)} {text : Text} {number : BitVec 32}
    (oneLine : OneLine text) (scanned : scan text = some ((number.toNat : Int), [])) (rest : Text) :
    loadNumber scan (text ++ newline :: rest) = some (number, rest) := by
  simp only [loadNumber, getLn_oneLine oneLine, scanned, Option.bind_eq_bind, Option.bind_some]
  simp

/-- Printing and scanning a number cancel out. -/
theorem scanDecimal_decimal (number : Nat) :
    scanDecimal (decimal number) = some ((number : Int), []) := by
  have printed := scanDecimal_printInt number
  rwa [printInt, if_neg (by omega), Int.toNat_natCast] at printed

/-- What is saved is loaded again, field by field. The text at the end has no length: it is all
that is left of the record. -/
theorem loadArt_saveArt (article : Article) (storable : article.Storable) :
    loadArt (saveArt article) = some article := by
  obtain ⟨subj, sender, date, ref, xref⟩ := storable
  have number : ∀ (number : BitVec 32) rest,
      loadNumber scanDecimal (decimal number.toNat ++ newline :: rest) = some (number, rest) :=
    fun number => loadNumber_written (decimal_oneLine number) (scanDecimal_decimal _)
  have fields : ∀ rest, loadFields (article.subj ++ newline :: (article.sender ++ newline ::
      (article.date ++ newline :: (article.ref ++ newline :: (article.xref ++ newline :: rest))))) =
        some (article.subj, article.sender, article.date, article.ref, article.xref, rest) := by
    intro rest
    simp only [loadFields, getLn_oneLine subj, getLn_oneLine sender, getLn_oneLine date,
      getLn_oneLine ref, getLn_oneLine xref, Option.bind_eq_bind, Option.bind_some]
  rw [loadArt, saveArt, loadNumber_written (printHex_oneLine _) (scanHex_printHex _)]
  simp only [number, fields, Option.bind_eq_bind, Option.bind_some]

/-! ## The body of a stored article -/

/-- The field stays with the text of the article, since it is neither in the overview nor made by
the server. -/
def HeaderField.kept (field : HeaderField) : Bool :=
  match getField field.unfolded with
  | some (name, _) => name ≠ latin1 "x-noffle-status" && name ∉ droppedFields
  | none => false

/-- The field says that the article comes without its body. -/
def HeaderField.withoutBody (field : HeaderField) : Bool :=
  match getField field.unfolded with
  | some (name, value) => name = latin1 "x-noffle-status" && latin1 "NOT_DOWNLOADED" <:+: value
  | none => false

/-- A field is no empty line, so it does not end the header. -/
theorem HeaderField.Fine.unfolded_nonempty {field : HeaderField} (fine : field.Fine) :
    field.unfolded ≠ [] := by
  rw [HeaderField.unfolded]
  exact List.append_ne_nil_of_left_ne_nil fine.nonempty _

/-- At the empty line the loop ends, and the empty line is part of the text. -/
theorem storeHeader_end {artTxt rest : Text} (got : getHeaderLn artTxt = some (some ([], rest)))
    (status : BitVec 32) (txt : Text) :
    storeHeader status txt artTxt = some (status, txt ++ [newline], some rest) := by
  rw [storeHeader.eq_def]
  split
  · simp_all
  · simp_all
  · next lineEx rest' got' =>
    obtain ⟨rfl, rfl⟩ := Prod.mk.inj (Option.some.inj (Option.some.inj (got.symm.trans got')))
    exact if_pos rfl

/-- A field goes to the text or not, and the loop goes on with the next one. -/
theorem storeHeader_field {artTxt rest : Text} {field : HeaderField}
    (got : getHeaderLn artTxt = some (some (field.unfolded, rest))) (nonempty : field.unfolded ≠ [])
    (whole : field.withoutBody = false) (status : BitVec 32) (txt : Text) :
    storeHeader status txt artTxt =
      storeHeader status (if field.kept then txt ++ (field.unfolded ++ [newline]) else txt) rest := by
  rw [storeHeader.eq_def]
  split
  · simp_all
  · simp_all
  · next lineEx rest' got' =>
    obtain ⟨rfl, rfl⟩ := Prod.mk.inj (Option.some.inj (Option.some.inj (got.symm.trans got')))
    rw [if_neg nonempty]
    rw [HeaderField.withoutBody] at whole
    rw [HeaderField.kept]
    cases parsed : getField field.unfolded with
    | none => rfl
    | some entry =>
      obtain ⟨name, value⟩ := entry
      rw [parsed] at whole
      simp only [Bool.and_eq_false_iff, decide_eq_false_iff_not] at whole
      by_cases status' : name = latin1 "x-noffle-status"
      · have unmarked : ¬ latin1 "NOT_DOWNLOADED" <:+: value := whole.resolve_left (not_not.mpr status')
        simp only [status', if_true, if_neg unmarked, ne_eq, not_true_eq_false, decide_false,
          Bool.false_and, Bool.false_eq_true, if_false]
      · by_cases dropped : name ∈ droppedFields
        · simp [status', dropped]
        · simp [status', dropped]

/-- The loop over a whole header: what is left of it are the fields that are kept, each on one
line. -/
theorem storeHeader_fields (fields : List HeaderField) (fine : ∀ field ∈ fields, field.Fine)
    (whole : ∀ field ∈ fields, field.withoutBody = false) (status : BitVec 32) (txt body : Text) :
    storeHeader status txt (fields.flatMap HeaderField.text ++ newline :: body) =
      some (status, txt ++ written ((fields.filter HeaderField.kept).map HeaderField.unfolded) ++
        [newline], some body) := by
  induction fields generalizing txt with
  | nil =>
    have got : getHeaderLn (newline :: body) = some (some ([], body)) := rfl
    rw [List.flatMap_nil, List.nil_append, storeHeader_end got, List.filter_nil, List.map_nil]
    simp [written]
  | cons field fields inductionHypothesis =>
    obtain ⟨here, later⟩ := List.forall_mem_cons.mp fine
    obtain ⟨here', later'⟩ := List.forall_mem_cons.mp whole
    have ends : followsOn (fields.flatMap HeaderField.text ++ newline :: body) = false := by
      cases fields with
      | nil => rfl
      | cons next fields =>
        have fine' := later next List.mem_cons_self
        cases first : next.first with
        | nil => exact absurd first fine'.nonempty
        | cons byte rest =>
          have real := fine'.begins byte (by rw [first]; rfl)
          simp [followsOn, HeaderField.text, first, real]
    have got := getHeaderLn_field field here _ ends
    rw [List.flatMap_cons, List.append_assoc,
      storeHeader_field got here.unfolded_nonempty here', inductionHypothesis later later']
    by_cases kept : field.kept = true
    · rw [if_pos kept, List.filter_cons_of_pos kept, List.map_cons, written_cons]
      simp
    · rw [if_neg kept, List.filter_cons_of_neg kept]

/-- The loop over the body takes every line as it is. -/
theorem storeBody_lines (lines : List Text) (clean : ∀ line ∈ lines, OneLine line)
    (status : BitVec 32) (downloaded : status &&& notDownloaded = 0) (txt : Text) :
    storeBody status txt (written lines) = some (txt ++ written lines) := by
  induction lines generalizing txt with
  | nil =>
    have got : utlGetLn (written []) = some none := rfl
    rw [storeBody.eq_def]
    split
    · simp_all
    · simp [written]
    · simp_all
  | cons line lines inductionHypothesis =>
    obtain ⟨⟨oneLine, short⟩, later⟩ := List.forall_mem_cons.mp clean
    have got := utlGetLn_line line (written lines) oneLine short
    rw [written_cons, storeBody.eq_def]
    split
    · simp_all
    · simp_all
    · next line' rest got' =>
      obtain ⟨rfl, rfl⟩ := Prod.mk.inj (Option.some.inj (Option.some.inj (got.symm.trans got')))
      rw [if_pos downloaded, inductionHypothesis later]
      simp

/-- The search for two newlines passes over a line with something on it. -/
theorem dbBody_skip (line rest : Text) (oneLine : newline ∉ line) :
    dbBody (line ++ newline :: rest) = dbBody (newline :: rest) := by
  induction line with
  | nil => rfl
  | cons byte line inductionHypothesis =>
    obtain ⟨other, oneLine'⟩ := not_or.mp (mt List.mem_cons.mpr oneLine)
    rw [← inductionHypothesis oneLine']
    cases line with
    | nil => exact if_neg fun both => other both.1.symm
    | cons next line => exact if_neg fun both => other both.1.symm

/-- The body begins behind the first empty line other than the very first line, of which no
newline stands in front. -/
theorem dbBody_written (first : Text) (oneLine : newline ∉ first) (lines : List Text)
    (clean : ∀ line ∈ lines, newline ∉ line) :
    dbBody (written (first :: lines)) = written (lines.dropWhile (· ≠ [])).tail := by
  induction lines generalizing first with
  | nil =>
    rw [written_cons, dbBody_skip first _ oneLine]
    rfl
  | cons line lines inductionHypothesis =>
    obtain ⟨oneLine', later⟩ := List.forall_mem_cons.mp clean
    rw [written_cons, dbBody_skip first _ oneLine]
    cases line with
    | nil =>
      rw [written_cons, List.dropWhile_cons_of_neg (by simp)]
      exact if_pos ⟨rfl, rfl⟩
    | cons byte line =>
      have other : byte ≠ newline := fun same => oneLine' (by simp [same])
      rw [List.dropWhile_cons_of_pos (by simp), ← inductionHypothesis (byte :: line) oneLine' later,
        written_cons]
      exact if_neg fun both => other both.2

/-- Stripping adds no bytes. -/
theorem stripWhiteSpace_bytes {line : Text} {byte : BitVec 8} (member : byte ∈ stripWhiteSpace line) :
    byte ∈ line :=
  List.dropWhile_subset _ ((List.rdropWhile_prefix isSpace _).subset member)

/-- An unfolded field is a single line. -/
theorem HeaderField.Fine.unfolded_oneLine {field : HeaderField} (fine : field.Fine) :
    newline ∉ field.unfolded := by
  rw [HeaderField.unfolded, List.mem_append, List.mem_flatMap]
  rintro (front | ⟨line, member, inside⟩)
  · exact fine.oneLine front
  · rcases List.mem_cons.mp inside with space | inside
    · exact absurd space (by decide)
    · exact (fine.continued line member).1 (stripWhiteSpace_bytes inside)

/-- Once both flags are cleared the article counts as downloaded. -/
theorem downloaded_status (status : BitVec 32) :
    (status &&& ~~~notDownloaded &&& ~~~retrievingFailed) &&& notDownloaded = 0 := by
  ext i inside
  simp only [BitVec.getElem_and, BitVec.getElem_not]
  cases notDownloaded[i] <;> simp

/-- What the body of the stored text is: the body that came with the article, unless no field
stands in front of it. -/
theorem dbBody_stored (kept body : List Text) (fine : ∀ line ∈ kept, line ≠ [] ∧ newline ∉ line)
    (clean : ∀ line ∈ body, newline ∉ line) :
    dbBody (written kept ++ newline :: written body) =
      written (if kept = [] then (body.dropWhile (· ≠ [])).tail else body) := by
  have shape : written kept ++ newline :: written body = written (kept ++ [] :: body) := by
    rw [written_append, written_cons]
    rfl
  rw [shape]
  cases kept with
  | nil => exact dbBody_written [] (by simp) body clean
  | cons first kept =>
    obtain ⟨⟨-, oneLine⟩, others⟩ := List.forall_mem_cons.mp fine
    rw [List.cons_append, dbBody_written first oneLine, List.dropWhile_append_of_pos,
      List.dropWhile_cons_of_neg (by simp)]
    · rfl
    · intro line member
      simpa using (others line member).1
    · intro line member
      rcases List.mem_append.mp member with front | back
      · exact (others line front).2
      · rcases List.mem_cons.mp back with rfl | back
        · simp
        · exact clean line back

/-- An article that has been waited for is stored with the fields that are kept, and its body. The
flags that say that it is missing are cleared. -/
theorem storeArt_fields (article : Article) (awaited : article.status &&& notDownloaded ≠ 0)
    (now : BitVec 32) (fields : List HeaderField) (fine : ∀ field ∈ fields, field.Fine)
    (whole : ∀ field ∈ fields, field.withoutBody = false) (body : List Text)
    (clean : ∀ line ∈ body, OneLine line) :
    article.storeArt now (fields.flatMap HeaderField.text ++ newline :: written body) =
      some (true, { article with
        status := article.status &&& ~~~notDownloaded &&& ~~~retrievingFailed
        lastAccess := now
        txt := written ((fields.filter HeaderField.kept).map HeaderField.unfolded) ++
          newline :: written body }) := by
  let kept := (fields.filter HeaderField.kept).map HeaderField.unfolded
  let status := article.status &&& ~~~notDownloaded &&& ~~~retrievingFailed
  have header := storeHeader_fields fields fine whole status [] (written body)
  have stored := storeBody_lines body clean status (downloaded_status article.status)
    (written kept ++ [newline])
  rw [Article.storeArt, if_neg awaited]
  show (storeHeader status [] _ >>= _) = _
  rw [header, List.nil_append]
  show (storeBody status _ (written body) >>= _) = _
  rw [stored, List.append_assoc]
  rfl

/-- The fields in front of the body are lines that are not empty. -/
theorem kept_lines {fields : List HeaderField} (fine : ∀ field ∈ fields, field.Fine) :
    ∀ line ∈ (fields.filter HeaderField.kept).map HeaderField.unfolded,
      line ≠ [] ∧ newline ∉ line := by
  intro line member
  obtain ⟨field, member', rfl⟩ := List.mem_map.mp member
  have fine' := fine field (List.mem_of_mem_filter member')
  exact ⟨fine'.unfolded_nonempty, fine'.unfolded_oneLine⟩

/-- A line that can be sent can be stored. -/
theorem Fits.oneLine {line : Text} (fits : Fits line) : OneLine line := by
  have short := fits.short
  exact ⟨fits.1, by simp only [maxChar] at short ⊢; omega⟩

/-- What is read of a body whose beginning is not found begins behind its first empty line. Such
a reading is the body only if there is nothing in it that could be lost. -/
theorem tail_behind_blank (body : List Text) (same : (body.dropWhile (· ≠ [])).tail = body) :
    body = [] := by
  have length := congrArg List.length same
  have shorter : (body.dropWhile (· ≠ [])).length ≤ body.length :=
    (List.dropWhile_sublist _).length_le
  rw [List.length_tail] at length
  exact List.length_eq_zero_iff.mp (by omega)

/-- A stored article is delivered to a reader with the body that it came with, unless none of its
fields was worth keeping. Then the text in the database begins with the empty line in front of the
body, which is not found as the end of a header, and the reader gets only what is behind the first
empty line of the body itself.

The article is followed through four functions: `storeHeader_fields` and `storeBody_lines` say
what is saved, `loadArt_saveArt` that it is loaded again, `dbBody_stored` where the body is taken
to begin, and `getTxt_fits` that the reader receives these lines. Only the third can lose
anything. -/
theorem body_delivered_iff (article : Article) (storable : article.Storable)
    (awaited : article.status &&& notDownloaded ≠ 0) (now : BitVec 32) (fields : List HeaderField)
    (fine : ∀ field ∈ fields, field.Fine) (whole : ∀ field ∈ fields, field.withoutBody = false)
    (body : List Text) (fits : ∀ line ∈ body, Fits line) :
    ∃ stored, article.storeArt now (fields.flatMap HeaderField.text ++ newline :: written body) =
        some (true, stored) ∧ loadArt (saveArt stored) = some stored ∧
      ((∀ more, getTxt (putTxtBuf (dbBody stored.txt) ++ putEndOfTxt ++ more) = some (body, more)) ↔
        fields.any HeaderField.kept ∨ body = []) ∧
      (¬ fields.any HeaderField.kept →
        ∀ more, getTxt (putTxtBuf (dbBody stored.txt) ++ putEndOfTxt ++ more) =
          some ((body.dropWhile (· ≠ [])).tail, more)) := by
  let kept := (fields.filter HeaderField.kept).map HeaderField.unfolded
  have nothing : kept = [] ↔ ¬ fields.any HeaderField.kept = true := by
    simp [kept, List.filter_eq_nil_iff]
  have clean : ∀ line ∈ body, OneLine line := fun line member => (fits line member).oneLine
  have saved := loadArt_saveArt { article with
    status := article.status &&& ~~~notDownloaded &&& ~~~retrievingFailed
    lastAccess := now
    txt := written kept ++ newline :: written body }
    ⟨storable.subj, storable.sender, storable.date, storable.ref, storable.xref⟩
  have read := dbBody_stored kept body (kept_lines fine) fun line member => (clean line member).1
  have lost (none : ¬ fields.any HeaderField.kept = true) (more : List Byte) :
      getTxt (putTxtBuf (dbBody (written kept ++ newline :: written body)) ++ putEndOfTxt ++
        more) = some ((body.dropWhile (· ≠ [])).tail, more) := by
    rw [read, if_pos (nothing.mpr none)]
    exact getTxt_fits _ (fun line member =>
      fits line (List.dropWhile_subset _ (List.mem_of_mem_tail member))) more
  refine ⟨_, storeArt_fields article awaited now fields fine whole body clean, saved, ?_, lost⟩
  show (∀ more, getTxt (putTxtBuf (dbBody (written kept ++ newline :: written body)) ++
    putEndOfTxt ++ more) = some (body, more)) ↔ _
  by_cases some : fields.any HeaderField.kept = true
  · rw [read, if_neg fun none => nothing.mp none some]
    exact iff_of_true (getTxt_fits body fits) (Or.inl some)
  · constructor
    · intro delivered
      have same := (lost some []).symm.trans (delivered [])
      exact Or.inr (tail_behind_blank body (Prod.mk.inj (Option.some.inj same)).1)
    · rintro (any | rfl)
      · exact absurd any some
      · exact lost some

/-! ## An article of a newsgroup -/

/-- An article of which only the overview is there. -/
def trollArticle : Article :=
  ⟨notDownloaded, 0, latin1 "Hallo", latin1 "a <b@c.invalid>", [], [], latin1 "de.org.troll:1", 90,
    2, []⟩

/-- A header of two fields. The second one is kept, and goes on over a line of its own. -/
def trollFields : List HeaderField :=
  [⟨latin1 "Subject: Hallo", []⟩, ⟨latin1 "Newsgroups: de.org.troll,", [latin1 " de.test"]⟩]

/-- All of them fit. -/
theorem trollFields_fine : ∀ field ∈ trollFields, field.Fine := by
  intro field member
  rcases List.mem_pair.mp member with rfl | rfl
  · exact ⟨by decide, by decide, by decide, by decide, by decide⟩
  · exact ⟨by decide, by decide, by decide, by decide, by decide⟩

/-- A body that begins with an empty line, behind fields one of which is kept. -/
theorem body_delivered_iff_troll :
    ∃ stored, trollArticle.storeArt 7 (trollFields.flatMap HeaderField.text ++
        newline :: written [[], latin1 ".sig"]) = some (true, stored) ∧
      loadArt (saveArt stored) = some stored ∧
      ((∀ more, getTxt (putTxtBuf (dbBody stored.txt) ++ putEndOfTxt ++ more) =
          some ([[], latin1 ".sig"], more)) ↔
        trollFields.any HeaderField.kept ∨ [[], latin1 ".sig"] = []) ∧
      (¬ trollFields.any HeaderField.kept →
        ∀ more, getTxt (putTxtBuf (dbBody stored.txt) ++ putEndOfTxt ++ more) =
          some (([[], latin1 ".sig"].dropWhile (· ≠ [])).tail, more)) :=
  body_delivered_iff trollArticle ⟨by decide, by decide, by decide, by decide, by decide⟩ (by decide) 7
    trollFields trollFields_fine (by decide +kernel) [[], latin1 ".sig"] (by decide)

end Schnitzeljagd.News
