import Schnitzeljagd.News.ArticleBase

/-!
# Delivering an article

For ARTICLE, `server.c` sends the header that `Db_header` makes of a stored article, an empty
line and its body. A client that reads the answer up to its end gets the lines of the server,
the header fields that came with the article and were kept, each on one line, and behind the
first empty line the body as it came.

There is no other server here that an article could be fetched from. What stands in the place
of a body that is missing is a parameter, and the articles to which this one refers are left out.
-/

namespace Schnitzeljagd.News

open Foundations.CArithmetic Foundations.CString Foundations.LineFile Foundations.PerlText

/-! ## Sending an article -/

/-- `touchArticle` at the time `now`, which marks an article as of interest. -/
def touchArticle (now : BitVec 32) (article : Article) : Article :=
  { article with status := article.status ||| 1, lastAccess := now }

/-- `doHeadInDb`, the header as a text of its own. -/
def doHeadInDb (stamp : BitVec 32 → Text) (xrefHost msgId : Text) (article : Article) :
    List Byte :=
  putTxtBuf (article.header stamp xrefHost msgId)

/-- `doBodyInDb` at the time `now`, and what becomes of the article. One without its body is sent
another text in its place. -/
def doBodyInDb (pseudoBody : Text) (now : BitVec 32) (article : Article) : List Byte × Article :=
  let article := touchArticle now article
  if article.status &&& retrievingFailed ≠ 0 then
    (putTxtBuf (dbBody article.txt),
      { article with status := article.status &&& ~~~retrievingFailed })
  else if article.status &&& notDownloaded ≠ 0 then (putTxtBuf pseudoBody, article)
  else (putTxtBuf (dbBody article.txt), article)

/-- `doArtInDb`, header and body as one text with an empty line between them. -/
def doArtInDb (stamp : BitVec 32 → Text) (xrefHost msgId pseudoBody : Text) (now : BitVec 32)
    (article : Article) : List Byte × Article :=
  let body := doBodyInDb pseudoBody now article
  (doHeadInDb stamp xrefHost msgId article ++ (putTxtLn [] ++ body.1), body.2)

/-! ## Lines of a header -/

/-- A text without a newline and a NUL that is not longer than this. -/
structure Printable (most : Nat) (text : Text) : Prop where
  oneLine : newline ∉ text
  clean : 0 ∉ text
  short : text.length ≤ most

variable {most most' : Nat} {text text' line : Text}

/-- Two such texts one behind the other. -/
theorem Printable.append (front : Printable most text) (back : Printable most' text') :
    Printable (most + most') (text ++ text') where
  oneLine := by
    rw [List.mem_append, not_or]
    exact ⟨front.oneLine, back.oneLine⟩
  clean := by
    rw [List.mem_append, not_or]
    exact ⟨front.clean, back.clean⟩
  short := by
    rw [List.length_append]
    exact Nat.add_le_add front.short back.short

/-- What is short enough is short enough for a larger bound. -/
theorem Printable.mono (printable : Printable most text) (less : most ≤ most') :
    Printable most' text :=
  ⟨printable.oneLine, printable.clean, printable.short.trans less⟩

/-- Such a line fits into the buffer of the reader. -/
theorem Printable.fits (printable : Printable 2000 line) : Fits line := by
  have length := stuffed_length line
  have short := printable.short
  refine ⟨printable.oneLine, printable.clean, ?_⟩
  simp only [maxChar]
  omega

/-- A number of 32 bits has at most ten digits. -/
theorem printable_decimal (number : BitVec 32) : Printable 10 (decimal number.toNat) := by
  have digits := decimal_isDigit number.toNat
  have small := number.isLt
  refine ⟨fun member => ?_, fun member => ?_, decimal_length _ 10 (by decide) (by omega)⟩
  · exact absurd (digits _ member) (by decide)
  · exact absurd (digits _ member) (by decide)

/-- The words for the status fit on a line. -/
theorem printable_statusWords (status : BitVec 32) : Printable 64 (statusWords status) := by
  rw [statusWords]
  split <;> split <;> split <;> exact ⟨by decide, by decide, by decide⟩

/-- The text consists of lines that are not empty and fit into the buffer of a reader. Headers
must not have empty lines in them. -/
def Shown (text : Text) : Prop :=
  ∃ lines : List Text, text = written lines ∧ ∀ line ∈ lines, line ≠ [] ∧ Fits line

/-- Lines followed by lines. -/
theorem Shown.append (front : Shown text) (back : Shown text') : Shown (text ++ text') := by
  obtain ⟨lines, rfl, fine⟩ := front
  obtain ⟨lines', rfl, fine'⟩ := back
  exact ⟨lines ++ lines', (written_append lines lines').symm,
    List.forall_mem_append.mpr ⟨fine, fine'⟩⟩

/-- A single line. -/
theorem shown_line (some : line ≠ []) (printable : Printable 2000 line) :
    Shown (line ++ [newline]) := by
  refine ⟨[line], by simp [written], ?_⟩
  rw [List.forall_mem_singleton]
  exact ⟨some, printable.fits⟩

/-- A piece is no longer than the value that it comes from. -/
theorem Broken.piece_length {wantedLength : Int} {value piece : Text} {pieces : List Text}
    (broken : Broken wantedLength value pieces) (member : piece ∈ pieces) :
    piece.length ≤ value.length := by
  have whole := broken.length
  have shorter := (List.dropWhile_sublist isSpace (l := value)).length_le
  obtain ⟨before, after, rfl⟩ := List.append_of_mem member
  rw [List.map_append, List.map_cons, List.sum_append, List.sum_cons] at whole
  omega

/-- A value that can be folded: one line of at most 1024 characters, without white space at its
end. -/
structure Foldable (value : Text) : Prop where
  printable : Printable 1024 value
  solid : ∀ byte ∈ value.getLast?, isSpace byte = false

/-- The lines of a long header are lines of a header. -/
theorem appendLongHeader_shown {field value : Text} (named : field ≠ [])
    (printable : Printable 512 field) (foldable : Foldable value) :
    Shown (appendLongHeader field value) := by
  obtain ⟨first, others, shape, folded⟩ := appendLongHeader_pieces field value
  have broken := pieces_broken (78 - field.length - 1) value foldable.solid
  rw [shape] at broken
  have piece : ∀ piece ∈ first :: others, Printable 1024 piece := fun piece member =>
    { oneLine := fun inside => foldable.printable.oneLine (broken.bytes piece member _ inside)
      clean := fun inside => foldable.printable.clean (broken.bytes piece member _ inside)
      short := (broken.piece_length member).trans foldable.printable.short }
  have space : Printable 1 [0x20] := ⟨by decide, by decide, by decide⟩
  obtain ⟨first', others'⟩ := List.forall_mem_cons.mp piece
  refine ⟨(field ++ 0x20 :: first) :: others.map fun piece => 0x20 :: piece, ?_, ?_⟩
  · rw [folded, HeaderField.text, written_cons]
  · rw [List.forall_mem_cons]
    refine ⟨⟨List.append_ne_nil_of_left_ne_nil named _, ?_⟩, fun line member => ?_⟩
    · exact ((printable.append (space.append first')).mono (by decide)).fits
    · obtain ⟨piece, member', rfl⟩ := List.mem_map.mp member
      exact ⟨by simp, ((space.append (others' piece member')).mono (by decide)).fits⟩

/-! ## The header of a stored article -/

/-- A line is part of the header as long as no empty line has come. -/
theorem headerPart_line (line rest : Text) (oneLine : newline ∉ line) :
    headerPart (line ++ rest) = line ++ headerPart rest := by
  induction line with
  | nil => rfl
  | cons byte line inductionHypothesis =>
    obtain ⟨other, later⟩ := not_or.mp (List.mem_cons.not.mp oneLine)
    have rest' := inductionHypothesis later
    rw [List.cons_append, List.cons_append, ← rest']
    cases line ++ rest with
    | nil => rfl
    | cons next text => exact if_neg fun both => other both.1.symm

/-- The header of a stored text is what stands in front of the empty line, if there is anything.
-/
theorem headerPart_kept (kept : List Text) (rest : Text) (some : kept ≠ [])
    (fine : ∀ line ∈ kept, line ≠ [] ∧ newline ∉ line) :
    headerPart (written kept ++ newline :: rest) = written kept := by
  induction kept with
  | nil => contradiction
  | cons line kept inductionHypothesis =>
    obtain ⟨⟨-, oneLine⟩, later⟩ := List.forall_mem_cons.mp fine
    rw [written_cons, List.append_assoc, headerPart_line line _ oneLine]
    congr 1
    cases kept with
    | nil => exact if_pos ⟨rfl, rfl⟩
    | cons next kept =>
      have whole := inductionHypothesis (by simp) later
      obtain ⟨⟨filled, oneLine'⟩, -⟩ := List.forall_mem_cons.mp later
      obtain ⟨byte, next, rfl⟩ := List.exists_cons_of_ne_nil filled
      have other : byte ≠ newline := fun same => oneLine' (same ▸ List.mem_cons_self)
      have apart : ¬ (newline = newline ∧ byte = newline) := fun both => other both.2
      have turn : headerPart (newline :: (written ((byte :: next) :: kept) ++ newline :: rest)) =
          newline :: headerPart (written ((byte :: next) :: kept) ++ newline :: rest) := by
        rw [written_cons]
        exact if_neg apart
      exact turn.trans (congrArg (List.cons newline) whole)

/-- What the server puts into a header can be shown on lines. -/
structure Article.Presentable (article : Article) (stamp : BitVec 32 → Text)
    (xrefHost msgId : Text) : Prop where
  subj : Foldable article.subj
  sender : Foldable article.sender
  date : Foldable article.date
  ref : Foldable article.ref
  xref : Foldable article.xref
  named : xrefHost ≠ []
  host : Printable 512 xrefHost
  msgId : Printable 512 msgId
  stamp : ∀ time, Printable 64 (stamp time)

/-- The lines that the server makes, followed by those that it has kept.

Each of the lines is put together from a name and a value whose lengths are bounded, and the
folded ones come from `appendLongHeader`. The first three are printed into one buffer, and the
bounds keep them from being cut there. -/
theorem header_shown {article : Article} {stamp : BitVec 32 → Text} {xrefHost msgId : Text}
    (presentable : article.Presentable stamp xrefHost msgId) :
    ∃ front, article.header stamp xrefHost msgId = front ++ headerPart article.txt ∧
      Shown front := by
  have words := printable_statusWords article.status
  have time := presentable.stamp article.lastAccess
  have first : Printable 524 (latin1 "Message-ID: " ++ msgId) :=
    (Printable.mk (by decide) (by decide) (by decide) :
      Printable 12 (latin1 "Message-ID: ")).append presentable.msgId
  have second : Printable 80 (latin1 "X-NOFFLE-Status:" ++ statusWords article.status) :=
    (Printable.mk (by decide) (by decide) (by decide) :
      Printable 16 (latin1 "X-NOFFLE-Status:")).append words
  have third : Printable 86 (latin1 "X-NOFFLE-LastAccess: " ++ stamp article.lastAccess) :=
    (Printable.mk (by decide) (by decide) (by decide) :
      Printable 22 (latin1 "X-NOFFLE-LastAccess: ")).append time
  have bytes : Printable 20 (latin1 "Bytes: " ++ decimal article.bytes.toNat) :=
    (Printable.mk (by decide) (by decide) (by decide) :
      Printable 10 (latin1 "Bytes: ")).append (printable_decimal article.bytes)
  have lines : Printable 20 (latin1 "Lines: " ++ decimal article.lines.toNat) :=
    (Printable.mk (by decide) (by decide) (by decide) :
      Printable 10 (latin1 "Lines: ")).append (printable_decimal article.lines)
  have top := ((shown_line (by simp [latin1]) (first.mono (by decide))).append
    (shown_line (by simp [latin1]) (second.mono (by decide)))).append
    (shown_line (by simp [latin1]) (third.mono (by decide)))
  have middle (name : Text) (some : name ≠ []) (printable : Printable 512 name) {value : Text}
      (foldable : Foldable value) := appendLongHeader_shown some printable foldable
  have folded := (((middle (latin1 "Subject:") (by decide) ⟨by decide, by decide, by decide⟩
    presentable.subj).append (middle (latin1 "From:") (by decide)
      ⟨by decide, by decide, by decide⟩ presentable.sender)).append
    (middle (latin1 "Date:") (by decide) ⟨by decide, by decide, by decide⟩
      presentable.date)).append (middle (latin1 "References:") (by decide)
      ⟨by decide, by decide, by decide⟩ presentable.ref)
  have counts := (shown_line (by simp [latin1]) (bytes.mono (by decide))).append
    (shown_line (by simp [latin1]) (lines.mono (by decide)))
  have last := middle xrefHost presentable.named presentable.host presentable.xref
  refine ⟨_, ?_, ((top.append folded).append counts).append last⟩
  have whole : clipped (latin1 "Message-ID: " ++ (msgId ++ (latin1 "\nX-NOFFLE-Status:" ++
      (statusWords article.status ++ (latin1 "\nX-NOFFLE-LastAccess: " ++
        (stamp article.lastAccess ++ [newline])))))) =
      latin1 "Message-ID: " ++ msgId ++ [newline] ++
        (latin1 "X-NOFFLE-Status:" ++ statusWords article.status ++ [newline]) ++
        (latin1 "X-NOFFLE-LastAccess: " ++ stamp article.lastAccess ++ [newline]) := by
    have breaks : latin1 "\nX-NOFFLE-Status:" = newline :: latin1 "X-NOFFLE-Status:" := by decide
    have breaks' : latin1 "\nX-NOFFLE-LastAccess: " = newline :: latin1 "X-NOFFLE-LastAccess: " := by
      decide
    have room := presentable.msgId.short
    have room' := words.short
    have room'' := time.short
    have named : (latin1 "Message-ID: ").length = 12 := by decide
    have named' : (latin1 "\nX-NOFFLE-Status:").length = 17 := by decide
    have named'' : (latin1 "\nX-NOFFLE-LastAccess: ").length = 22 := by decide
    rw [clipped, List.take_of_length_le]
    · rw [breaks, breaks']
      simp only [List.append_assoc, List.cons_append, List.nil_append]
    · simp only [List.length_append, List.length_singleton, named, named', named'', maxChar]
      omega
  rw [Article.header, whole]
  simp only [List.append_assoc, List.cons_append, List.nil_append]

/-! ## What a client reads -/

/-- The status of an article that has been stored and is asked for. -/
theorem touched_status (status : BitVec 32) :
    (status &&& ~~~notDownloaded &&& ~~~retrievingFailed ||| 1) &&& retrievingFailed = 0 ∧
      (status &&& ~~~notDownloaded &&& ~~~retrievingFailed ||| 1) &&& notDownloaded = 0 := by
  have failed : (1 : BitVec 32) &&& retrievingFailed = 0 := by decide
  have missing : (1 : BitVec 32) &&& notDownloaded = 0 := by decide
  constructor
  · ext i inside
    have bit := congrArg (fun bits : BitVec 32 => bits[i]) failed
    simp only [BitVec.getElem_and, BitVec.getElem_or, BitVec.getElem_not] at bit ⊢
    rw [Bool.and_or_distrib_right, bit]
    cases retrievingFailed[i] <;> simp
  · ext i inside
    have bit := congrArg (fun bits : BitVec 32 => bits[i]) missing
    simp only [BitVec.getElem_and, BitVec.getElem_or, BitVec.getElem_not] at bit ⊢
    rw [Bool.and_or_distrib_right, bit]
    cases notDownloaded[i] <;> simp

/-- A stored article is sent with its own body, since its flags say that it has one. -/
theorem doBodyInDb_stored (pseudoBody txt : Text) (now later : BitVec 32) (article : Article) :
    (doBodyInDb pseudoBody later { article with
      status := article.status &&& ~~~notDownloaded &&& ~~~retrievingFailed
      lastAccess := now
      txt := txt }).1 = putTxtBuf (dbBody txt) := by
  obtain ⟨failed, missing⟩ := touched_status article.status
  simp only [doBodyInDb, touchArticle, failed, missing, ne_eq, not_true_eq_false, if_false]

/-- The whole article is sent as the lines of its header, an empty line, and those of its body. -/
theorem doArtInDb_lines {stamp : BitVec 32 → Text} {xrefHost msgId : Text} (pseudoBody : Text)
    {now : BitVec 32} {article : Article} {top body : List Text}
    (header : article.header stamp xrefHost msgId = written top)
    (sent : (doBodyInDb pseudoBody now article).1 = putTxtBuf (written body))
    (oneLine : ∀ line ∈ top ++ [] :: body, newline ∉ line) :
    (doArtInDb stamp xrefHost msgId pseudoBody now article).1 =
      putTxtBuf (written (top ++ [] :: body)) := by
  have blank : wireLine [] = putTxtLn [] := by
    rw [wireLine.eq_def]
    exact dif_neg (by decide)
  obtain ⟨front, behind⟩ := List.forall_mem_append.mp oneLine
  obtain ⟨-, back⟩ := List.forall_mem_cons.mp behind
  rw [doArtInDb, doHeadInDb, sent, header, putTxtBuf_written _ front, putTxtBuf_written _ back,
    putTxtBuf_written _ oneLine, List.flatMap_append, List.flatMap_cons, blank]

/-- An article that is stored and then asked for is read as the lines of the server, the fields
that were kept, an empty line, and the body that it came with; the first empty line is the one in
front of the body.

The header that is sent is made anew from the fields of the overview, which `appendLongHeader`
folds (`header_shown`), and goes on with the stored text up to its first empty line
(`headerPart_kept`). The body is what is behind that line (`dbBody_stored`). All lines fit, so the
reader receives them as they are (`getTxt_fits`). -/
theorem article_delivered (article : Article) (awaited : article.status &&& notDownloaded ≠ 0)
    (stamp : BitVec 32 → Text) (xrefHost msgId : Text)
    (presentable : article.Presentable stamp xrefHost msgId) (now later : BitVec 32)
    (fields : List HeaderField) (fine : ∀ field ∈ fields, field.Fine)
    (whole : ∀ field ∈ fields, field.withoutBody = false)
    (short : ∀ field ∈ fields, Fits field.unfolded) (keeps : fields.any HeaderField.kept = true)
    (body : List Text) (fits : ∀ line ∈ body, Fits line) (pseudoBody : Text) :
    ∃ stored made, article.storeArt now
        (fields.flatMap HeaderField.text ++ newline :: written body) = some (true, stored) ∧
      (∀ line ∈ made, line ≠ []) ∧
      stored.header stamp xrefHost msgId =
        written (made ++ (fields.filter HeaderField.kept).map HeaderField.unfolded) ∧
      ∀ more, getTxt ((doArtInDb stamp xrefHost msgId pseudoBody later stored).1 ++
          putEndOfTxt ++ more) =
        some (made ++ ((fields.filter HeaderField.kept).map HeaderField.unfolded ++ [] :: body),
          more) := by
  let kept := (fields.filter HeaderField.kept).map HeaderField.unfolded
  have kept' := kept_lines fine
  have filled : kept ≠ [] := by
    intro none
    simp only [kept, List.map_eq_nil_iff, List.filter_eq_nil_iff] at none
    obtain ⟨field, member, stays⟩ := List.any_eq_true.mp keeps
    exact none field member stays
  have keptFits : ∀ line ∈ kept, Fits line := by
    intro line member
    obtain ⟨field, member', rfl⟩ := List.mem_map.mp member
    exact short field (List.mem_of_mem_filter member')
  let stored : Article := { article with
    status := article.status &&& ~~~notDownloaded &&& ~~~retrievingFailed
    lastAccess := now
    txt := written kept ++ newline :: written body }
  have presentable' : stored.Presentable stamp xrefHost msgId :=
    ⟨presentable.subj, presentable.sender, presentable.date, presentable.ref, presentable.xref,
      presentable.named, presentable.host, presentable.msgId, presentable.stamp⟩
  obtain ⟨front, header, made, rfl, fineMade⟩ := header_shown presentable'
  have header' : stored.header stamp xrefHost msgId = written (made ++ kept) := by
    rw [header, headerPart_kept kept (written body) filled kept', written_append]
  refine ⟨stored, made, storeArt_fields article awaited now fields fine whole body
    (fun line member => (fits line member).oneLine), fun line member => (fineMade line member).1,
    header', fun more => ?_⟩
  have all : ∀ line ∈ made ++ (kept ++ [] :: body), Fits line := by
    rw [List.forall_mem_append, List.forall_mem_append, List.forall_mem_cons]
    exact ⟨fun line member => (fineMade line member).2, keptFits, by decide, fits⟩
  have read := getTxt_fits (made ++ (kept ++ [] :: body)) all more
  have bodyText : dbBody (written kept ++ newline :: written body) = written body := by
    rw [dbBody_stored kept body kept' fun line member => (fits line member).1, if_neg filled]
  have sent := doArtInDb_lines pseudoBody header'
    ((doBodyInDb_stored pseudoBody _ now later article).trans (congrArg putTxtBuf bodyText))
    fun line member => (all line (List.append_assoc made kept _ ▸ member)).1
  rw [sent, List.append_assoc made kept]
  exact read

/-- The article of the trolls, asked for after it was stored seven seconds into the year 1970. -/
theorem article_delivered_troll : ∃ stored made, trollArticle.storeArt 7
      (trollFields.flatMap HeaderField.text ++ newline :: written [[], latin1 ".sig"]) =
        some (true, stored) ∧ (∀ line ∈ made, line ≠ []) ∧
    stored.header (fun _ => latin1 "1970-01-01 00:00:07") (latin1 "Xref: polizei")
        (latin1 "<1@a.invalid>") =
      written (made ++ (trollFields.filter HeaderField.kept).map HeaderField.unfolded) ∧
    ∀ more, getTxt ((doArtInDb (fun _ => latin1 "1970-01-01 00:00:07") (latin1 "Xref: polizei")
        (latin1 "<1@a.invalid>") [] 8 stored).1 ++ putEndOfTxt ++ more) =
      some (made ++ ((trollFields.filter HeaderField.kept).map HeaderField.unfolded ++
        [] :: [[], latin1 ".sig"]), more) := by
  refine article_delivered trollArticle (by decide) (fun _ => latin1 "1970-01-01 00:00:07")
    (latin1 "Xref: polizei") (latin1 "<1@a.invalid>") ?_ 7 8 trollFields trollFields_fine
    (by decide +kernel) (by decide +kernel) (by decide +kernel) [[], latin1 ".sig"] (by decide) []
  exact
    { subj := ⟨⟨by decide, by decide, by decide⟩, by decide⟩
      sender := ⟨⟨by decide, by decide, by decide⟩, by decide⟩
      date := ⟨⟨by decide, by decide, by decide⟩, by decide⟩
      ref := ⟨⟨by decide, by decide, by decide⟩, by decide⟩
      xref := ⟨⟨by decide, by decide, by decide⟩, by decide⟩
      named := by decide
      host := ⟨by decide, by decide, by decide⟩
      msgId := ⟨by decide, by decide, by decide⟩
      stamp := fun _ => ⟨by decide, by decide, by decide⟩ }

end Schnitzeljagd.News
