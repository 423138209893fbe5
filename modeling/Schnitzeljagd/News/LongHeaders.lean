import Schnitzeljagd.News.ArticleText
import Schnitzeljagd.News.ItemList

/-!
# Folding long header lines

`database.c` breaks a header field that is too long for a line between two words. The fields
come from the database, where they have neither a newline nor white space at their end.
-/

namespace Schnitzeljagd.News

open Foundations.CArithmetic Foundations.CString Foundations.LineFile Foundations.PerlText

/-- The loop of `searchBreakPos`, from where it is up to the end of the line. -/
def breakLoop (wantedLength : Int) (lastSpace : Option Nat) (lastWasSpace : Bool) (len : Nat) :
    Text → Nat
  | [] => if len > wantedLength then lastSpace.getD len else len
  | byte :: line =>
    if isSpace byte then
      if len > wantedLength ∧ lastSpace.isSome then lastSpace.getD len
      else breakLoop wantedLength (if lastWasSpace then lastSpace else some len) true (len + 1) line
    else breakLoop wantedLength lastSpace false (len + 1) line

/-- `searchBreakPos`, as the number of characters in front of the position. It looks for white
space not too far to the right, and takes the first one if all are too far. -/
def searchBreakPos (line : Text) (wantedLength : Int) : Nat :=
  breakLoop wantedLength none false 0 line

/-- The position is never at the very front, so breaking a line makes progress. -/
theorem breakLoop_positive (wantedLength : Int) (lastSpace : Option Nat) (lastWasSpace : Bool)
    (len : Nat) (line : Text) (positive : 0 < len) (seen : ∀ pos, lastSpace = some pos → 0 < pos) :
    0 < breakLoop wantedLength lastSpace lastWasSpace len line := by
  have either : 0 < lastSpace.getD len := by
    cases lastSpace with
    | none => exact positive
    | some pos => exact seen pos rfl
  induction line generalizing lastSpace lastWasSpace len with
  | nil =>
    rw [breakLoop]
    split
    · exact either
    · exact positive
  | cons byte line inductionHypothesis =>
    rw [breakLoop]
    split
    · split
      · exact either
      · apply inductionHypothesis _ _ _ (Nat.succ_pos len)
        · intro pos same
          split at same
          · exact seen pos same
          · obtain rfl := Option.some.inj same
            exact positive
        · split
          · cases lastSpace with
            | none => exact Nat.succ_pos len
            | some pos => exact seen pos rfl
          · exact positive
    · apply inductionHypothesis _ _ _ (Nat.succ_pos len) seen
      cases lastSpace with
      | none => exact Nat.succ_pos len
      | some pos => exact seen pos rfl

/-- The line gets shorter in front of a position behind which there is more, which lets the
endless loop end. -/
theorem drop_searchBreakPos {old : Text} {wantedLength : Int}
    (more : ((old.dropWhile isSpace).drop
      (searchBreakPos (old.dropWhile isSpace) wantedLength)) ≠ []) :
    ((old.dropWhile isSpace).drop
      (searchBreakPos (old.dropWhile isSpace) wantedLength)).length < old.length := by
  have whole := (List.dropWhile_sublist isSpace (l := old)).length_le
  cases shape : old.dropWhile isSpace with
  | nil => simp [shape] at more
  | cons byte line =>
    rw [shape] at whole
    have real : isSpace byte = false := by
      have first := List.head?_dropWhile_not isSpace old
      rwa [shape] at first
    have positive : 0 < searchBreakPos (byte :: line) wantedLength := by
      rw [searchBreakPos, breakLoop, if_neg (by simp [real])]
      exact breakLoop_positive _ _ _ _ _ Nat.one_pos (by simp)
    rw [List.length_cons] at whole
    rw [List.length_drop, List.length_cons]
    omega

/-- The endless loop of `appendLongHeader`, which is left when nothing is left of the value. -/
def appendRest (old : Text) : Text :=
  let line := old.dropWhile isSpace
  let breakPos := searchBreakPos line 77
  if _more : line.drop breakPos = [] then line.take breakPos ++ [newline]
  else line.take breakPos ++ newline :: 0x20 :: appendRest (line.drop breakPos)
termination_by old.length
decreasing_by exact drop_searchBreakPos _more

/-- `appendLongHeader`: the field with the first piece behind its name, and the others on lines of
their own that begin with a space. -/
def appendLongHeader (field value : Text) : Text :=
  let line := value.dropWhile isSpace
  let breakPos := searchBreakPos line (78 - field.length - 1)
  field ++ 0x20 :: (line.take breakPos ++
    if line.drop breakPos = [] then [newline] else newline :: 0x20 :: appendRest (line.drop breakPos))

/-- Where a line may be broken: between a word and white space, and not behind the wanted length
unless there is only one word in front. -/
structure Breaks (wantedLength : Int) (line : Text) (pos : Nat) : Prop where
  positive : 0 < pos
  inside : pos ≤ line.length
  solid : ∀ byte ∈ (line.take pos).getLast?, isSpace byte = false
  short : pos ≤ wantedLength ∨ ∀ byte ∈ line.take pos, isSpace byte = false
  behind : ∀ byte ∈ (line.drop pos).head?, isSpace byte = true

/-- A line that goes on with white space can be broken at its old end. -/
theorem Breaks.append {wantedLength : Int} {before : Text} {byte : BitVec 8}
    (space : isSpace byte = true) (breaks : Breaks wantedLength before before.length) (rest : Text) :
    Breaks wantedLength (before ++ byte :: rest) before.length := by
  obtain ⟨positive, -, solid, short, -⟩ := breaks
  rw [List.take_length] at solid short
  refine ⟨positive, by simp, ?_, ?_, ?_⟩
  · rwa [List.take_left]
  · rwa [List.take_left]
  · rw [List.drop_left]
    intro other head
    obtain rfl := Option.some.inj head
    exact space

/-- What the loop knows when it has passed some characters. -/
structure Passed (wantedLength : Int) (passed : Text) (lastSpace : Option Nat)
    (lastWasSpace : Bool) : Prop where
  nonempty : passed ≠ []
  solid : lastWasSpace = false → ∀ byte ∈ passed.getLast?, isSpace byte = false
  word : lastSpace = none → ∀ byte ∈ passed, isSpace byte = false
  breaks : ∀ pos, lastSpace = some pos → ∀ rest, Breaks wantedLength (passed ++ rest) pos
  seen : lastWasSpace = true → lastSpace.isSome

/-- The end of what has been passed, as long as it is not too far, is a place where the line may
be broken. -/
theorem Passed.here {wantedLength : Int} {passed : Text} {lastSpace : Option Nat}
    {lastWasSpace : Bool} (known : Passed wantedLength passed lastSpace lastWasSpace)
    (near : ¬(passed.length > wantedLength ∧ lastSpace.isSome))
    (solid : ∀ byte ∈ passed.getLast?, isSpace byte = false) :
    Breaks wantedLength passed passed.length := by
  refine ⟨List.length_pos_of_ne_nil known.nonempty, Nat.le_refl _, ?_, ?_, ?_⟩
  · rwa [List.take_length]
  · rw [List.take_length]
    cases lastSpace with
    | none => exact Or.inr (known.word rfl)
    | some pos =>
      have within : ¬ passed.length > wantedLength := fun far => near ⟨far, rfl⟩
      exact Or.inl (by omega)
  · rw [List.drop_length]
    intro byte head
    contradiction

/-- The loop ends at a place where the line may be broken.

By induction on what it has not passed yet. What is known of the part behind it is that the last
white space is a good place, if there has been any, and that otherwise there was one single word.
-/
theorem breakLoop_breaks (wantedLength : Int) (rest passed : Text) (lastSpace : Option Nat)
    (lastWasSpace : Bool) (known : Passed wantedLength passed lastSpace lastWasSpace)
    (solid : ∀ byte ∈ (passed ++ rest).getLast?, isSpace byte = false) :
    Breaks wantedLength (passed ++ rest)
      (breakLoop wantedLength lastSpace lastWasSpace passed.length rest) := by
  induction rest generalizing passed lastSpace lastWasSpace with
  | nil =>
    rw [List.append_nil] at solid
    rw [breakLoop]
    by_cases far : passed.length > wantedLength
    · rw [if_pos far]
      cases lastSpace with
      | some pos => exact known.breaks pos rfl []
      | none =>
        rw [List.append_nil]
        exact known.here (by simp) solid
    · rw [if_neg far, List.append_nil]
      exact known.here (fun both => far both.1) solid
  | cons byte rest inductionHypothesis =>
    have shape : passed ++ byte :: rest = passed ++ [byte] ++ rest := by simp
    have length : passed.length + 1 = (passed ++ [byte]).length := by simp
    have earlier : ∀ pos, lastSpace = some pos → ∀ rest,
        Breaks wantedLength (passed ++ [byte] ++ rest) pos := by
      intro pos same rest
      rw [List.append_assoc]
      exact known.breaks pos same _
    rw [breakLoop]
    by_cases space : isSpace byte = true
    · rw [if_pos space]
      by_cases far : passed.length > wantedLength ∧ lastSpace.isSome
      · obtain ⟨pos, rfl⟩ := Option.isSome_iff_exists.mp far.2
        rw [if_pos far]
        exact known.breaks pos rfl _
      · rw [if_neg far, shape, length]
        apply inductionHypothesis
        · cases lastWasSpace with
          | true =>
            refine ⟨by simp, by simp, fun none => ?_, earlier, fun _ => known.seen rfl⟩
            rw [if_pos rfl] at none
            exact absurd (known.seen rfl) (by simp [none])
          | false =>
            refine ⟨by simp, by simp, by simp, fun pos same rest => ?_, by simp⟩
            obtain rfl := Option.some.inj same
            rw [List.append_assoc, List.singleton_append]
            exact (known.here far (known.solid rfl)).append space rest
        · rwa [← shape]
    · rw [if_neg space, shape, length]
      have real : isSpace byte = false := by simpa using space
      apply inductionHypothesis
      · refine ⟨by simp, fun _ => ?_, fun none => ?_, earlier, by simp⟩
        · rw [List.getLast?_concat]
          intro other last
          obtain rfl := Option.some.inj last
          exact real
        · intro other member
          rcases List.mem_append.mp member with front | last
          · exact known.word none other front
          · rwa [List.mem_singleton.mp last]
      · rwa [← shape]

/-- A line that begins and ends with a word is broken where it may be. -/
theorem searchBreakPos_breaks (wantedLength : Int) (byte : BitVec 8) (line : Text)
    (real : isSpace byte = false)
    (solid : ∀ last ∈ (byte :: line).getLast?, isSpace last = false) :
    Breaks wantedLength (byte :: line) (searchBreakPos (byte :: line) wantedLength) := by
  rw [searchBreakPos, breakLoop, if_neg (by simp [real])]
  refine breakLoop_breaks wantedLength line [byte] none false ⟨by simp, fun _ => ?_, fun _ => ?_,
    by simp, by simp⟩ solid
  · intro other last
    obtain rfl := Option.some.inj last
    exact real
  · intro other member
    rwa [List.mem_singleton.mp member]

/-! ## The lines of a header field -/

/-- The pieces that a value is broken into, without the white space between them. -/
def pieces (wantedLength : Int) (value : Text) : List Text :=
  let line := value.dropWhile isSpace
  let breakPos := searchBreakPos line wantedLength
  line.take breakPos :: if _more : line.drop breakPos = [] then [] else pieces 77 (line.drop breakPos)
termination_by value.length
decreasing_by exact drop_searchBreakPos _more

/-- The lines of the loop are the pieces, each behind a space. -/
theorem appendRest_pieces (old : Text) :
    0x20 :: appendRest old = written ((pieces 77 old).map fun piece => 0x20 :: piece) := by
  fun_induction appendRest old with
  | case1 old line breakPos nothing =>
    rw [pieces]
    simp only [line, breakPos] at nothing
    rw [dif_pos nothing, List.map_singleton, written_cons]
    rfl
  | case2 old line breakPos more inductionHypothesis =>
    rw [pieces]
    simp only [line, breakPos] at more inductionHypothesis
    rw [dif_neg more, List.map_cons, written_cons, ← inductionHypothesis]
    rfl

/-- The first piece stands behind the name of the field, the others behind a space. -/
theorem appendLongHeader_pieces (field value : Text) :
    ∃ first others, pieces (78 - field.length - 1) value = first :: others ∧
      appendLongHeader field value = (⟨field ++ 0x20 :: first,
        others.map fun piece => 0x20 :: piece⟩ : HeaderField).text := by
  rw [pieces, appendLongHeader]
  refine ⟨_, _, rfl, ?_⟩
  rw [HeaderField.text]
  split
  · simp [written]
  · rw [← appendRest_pieces]
    simp

/-- A piece of a value begins and ends with a word, and is not too long if it has more than one. A
single word is never broken. -/
structure Piece (wantedLength : Int) (piece : Text) : Prop where
  begins : ∀ byte ∈ piece.head?, isSpace byte = false
  ends : ∀ byte ∈ piece.getLast?, isSpace byte = false
  short : piece.length ≤ wantedLength ∨ ∀ byte ∈ piece, isSpace byte = false

/-- What the pieces make of a value. -/
structure Broken (wantedLength : Int) (value : Text) (pieces : List Text) : Prop where
  first : ∀ piece ∈ pieces.head?, Piece wantedLength piece
  filled : value.dropWhile isSpace ≠ [] → ∀ piece ∈ pieces.head?, piece ≠ []
  others : ∀ piece ∈ pieces.tail, Piece 77 piece ∧ piece ≠ []
  words : pieces.flatMap (runs isSpace) = runs isSpace value
  length : (pieces.map fun piece => piece.length + 1).sum ≤ (value.dropWhile isSpace).length + 1
  bytes : ∀ piece ∈ pieces, ∀ byte ∈ piece, byte ∈ value

/-- Words are those before a break and those behind it. -/
theorem runs_break {isSep : Byte → Bool} (before rest : Text)
    (separated : ∀ byte ∈ rest.head?, isSep byte = true) :
    runs isSep (before ++ rest) = runs isSep before ++ runs isSep rest := by
  cases rest with
  | nil => simp [runs, List.splitOnP_nil]
  | cons byte rest =>
    have separates : isSep byte = true := separated byte rfl
    have gap := runs_gap [byte] rest (by simpa using separates)
    rw [runs_separator separates, ← gap]
    rfl

/-- White space at the front has no words in it. -/
theorem runs_dropWhile (isSep : Byte → Bool) (text : Text) :
    runs isSep (text.dropWhile isSep) = runs isSep text := by
  conv => rhs; rw [← List.takeWhile_append_dropWhile (p := isSep) (l := text)]
  exact (runs_gap _ _ fun byte member => List.mem_takeWhile_imp member).symm

/-- The end of a text ends like the text. -/
theorem getLast?_suffix {rest text : Text} (suffix : rest <:+ text) (nonempty : rest ≠ []) :
    rest.getLast? = text.getLast? := by
  obtain ⟨before, rfl⟩ := suffix
  rw [List.getLast?_append_of_ne_nil _ nonempty]

/-- The piece in front of a break is a piece as it should be. -/
theorem Breaks.piece {wantedLength : Int} {line : Text} {pos : Nat}
    (breaks : Breaks wantedLength line pos) (real : ∀ byte ∈ line.head?, isSpace byte = false) :
    Piece wantedLength (line.take pos) := by
  obtain ⟨positive, inside, solid, short, -⟩ := breaks
  refine ⟨?_, solid, ?_⟩
  · rwa [List.head?_take, if_neg (by omega)]
  · rwa [List.length_take, Nat.min_eq_left inside]

/-- A line that begins and ends with a word is broken where it may be, whatever its length. -/
theorem searchBreakPos_line (wantedLength : Int) (line : Text) (nonempty : line ≠ [])
    (begins : ∀ byte ∈ line.head?, isSpace byte = false)
    (ends : ∀ byte ∈ line.getLast?, isSpace byte = false) :
    Breaks wantedLength line (searchBreakPos line wantedLength) := by
  obtain ⟨byte, later, rfl⟩ := List.exists_cons_of_ne_nil nonempty
  exact searchBreakPos_breaks wantedLength byte later (begins byte rfl) ends

/-- White space in front of the rest makes what is left of it shorter. -/
theorem dropWhile_shorter {rest : Text} (nonempty : rest ≠ [])
    (begins : ∀ byte ∈ rest.head?, isSpace byte = true) :
    (rest.dropWhile isSpace).length + 1 ≤ rest.length := by
  obtain ⟨byte, later, rfl⟩ := List.exists_cons_of_ne_nil nonempty
  have sublist := (List.dropWhile_sublist isSpace (l := later)).length_le
  rw [List.dropWhile_cons_of_pos (begins byte rfl), List.length_cons]
  omega

/-- A rest that ends with a word is not all white space. -/
theorem dropWhile_word {rest : Text} (nonempty : rest ≠ [])
    (ends : ∀ byte ∈ rest.getLast?, isSpace byte = false) : rest.dropWhile isSpace ≠ [] := by
  intro none
  have space := List.dropWhile_eq_nil_iff.mp none _ (List.getLast_mem nonempty)
  have real := ends _ (List.getLast?_eq_some_getLast nonempty)
  exact absurd (space.symm.trans real) (by decide)

/-- If a word follows, all pieces have one. -/
theorem Broken.all {value : Text} {pieces : List Text} (broken : Broken 77 value pieces)
    (word : value.dropWhile isSpace ≠ []) : ∀ piece ∈ pieces, Piece 77 piece ∧ piece ≠ [] := by
  obtain ⟨first, filled, others, -, -, -⟩ := broken
  cases pieces with
  | nil => simp
  | cons next rest =>
    intro piece member
    rcases List.mem_cons.mp member with rfl | member
    · exact ⟨first piece rfl, filled word piece rfl⟩
    · exact others piece member

/-- A value is broken as it should be.

By induction on what is left of it. White space in front is dropped, which loses no word. The
position found for the next break is neither at the front nor within a word, so that the piece
before it is not empty, the words of the two parts are the words of the value, and what is left is
shorter. -/
theorem pieces_broken (wantedLength : Int) (value : Text)
    (solid : ∀ byte ∈ value.getLast?, isSpace byte = false) :
    Broken wantedLength value (pieces wantedLength value) := by
  fun_induction pieces wantedLength value with
  | case1 wantedLength value line breakPos inductionHypothesis =>
    have words : runs isSpace line = runs isSpace value := runs_dropWhile isSpace value
    have suffix : line <:+ value := List.dropWhile_suffix isSpace
    have begins : ∀ byte ∈ line.head?, isSpace byte = false := by
      intro byte head
      have first := List.head?_dropWhile_not isSpace value
      rwa [show (value.dropWhile isSpace).head? = some byte from head] at first
    by_cases empty : line = []
    · rw [dif_pos (by rw [empty, List.drop_nil]), empty, List.take_nil]
      refine ⟨?_, fun some => absurd empty some, by simp, ?_, by simp, by simp⟩
      · intro piece head
        obtain rfl := Option.some.inj head
        exact ⟨by simp, by simp, Or.inr (by simp)⟩
      · rw [List.flatMap_singleton, ← words, empty]
    · have ends : ∀ byte ∈ line.getLast?, isSpace byte = false := by
        rwa [getLast?_suffix suffix empty]
      have breaks : Breaks wantedLength line breakPos :=
        searchBreakPos_line wantedLength line empty begins ends
      have piece := breaks.piece begins
      have filled : line.take breakPos ≠ [] := by
        intro none
        rw [List.take_eq_nil_iff] at none
        exact none.elim breaks.positive.ne' empty
      have words' : runs isSpace (line.take breakPos) ++ runs isSpace (line.drop breakPos) =
          runs isSpace value := by
        rw [← words, ← runs_break _ _ breaks.behind, List.take_append_drop]
      have whole : (line.take breakPos).length + (line.drop breakPos).length = line.length := by
        rw [← List.length_append, List.take_append_drop]
      have bytes : ∀ byte ∈ line.take breakPos, byte ∈ value := fun byte member =>
        suffix.subset (List.mem_of_mem_take member)
      by_cases nothing : line.drop breakPos = []
      · rw [dif_pos nothing]
        refine ⟨by simpa using piece, fun _ => by simpa using filled, by simp, ?_, ?_,
          by simpa using bytes⟩
        · rw [List.flatMap_singleton, ← words', nothing]
          simp [runs, List.splitOnP_nil]
        · show (line.take breakPos).length + 1 + 0 ≤ line.length + 1
          omega
      · rw [dif_neg nothing]
        have suffix' := (List.drop_suffix breakPos line).trans suffix
        have solid' : ∀ byte ∈ (line.drop breakPos).getLast?, isSpace byte = false := by
          rwa [getLast?_suffix suffix' nothing]
        have later := inductionHypothesis nothing solid'
        have shorter := dropWhile_shorter nothing breaks.behind
        refine ⟨by simpa using piece, fun _ => by simpa using filled, ?_, ?_, ?_, ?_⟩
        · exact later.all (dropWhile_word nothing solid')
        · rw [List.flatMap_cons, later.words, words']
        · have total := later.length
          rw [List.map_cons, List.sum_cons]
          show _ ≤ line.length + 1
          omega
        · intro other member
          rcases List.mem_cons.mp member with rfl | member
          · exact bytes
          · exact fun byte inside => suffix'.subset (later.bytes other member byte inside)

/-! ## Folding and unfolding -/

/-- A reader who strips the line of a piece gets the piece. -/
theorem stripWhiteSpace_piece {wantedLength : Int} {piece : Text}
    (whole : Piece wantedLength piece) : stripWhiteSpace (0x20 :: piece) = piece := by
  have front : piece.dropWhile isSpace = piece := by
    cases piece with
    | nil => rfl
    | cons byte piece => exact List.dropWhile_cons_of_neg (by simp [whole.begins byte rfl])
  rw [stripWhiteSpace, List.dropWhile_cons_of_pos rfl, front, stripTrailing,
    List.rdropWhile_eq_self_iff]
  intro nonempty
  simp [whole.ends _ (List.getLast?_eq_some_getLast nonempty)]

/-- Words that are joined by single spaces are the words of what was joined. -/
theorem runs_joined (front : Text) (others : List Text) :
    runs isSpace (front ++ others.flatMap fun piece => 0x20 :: piece) =
      runs isSpace front ++ others.flatMap (runs isSpace) := by
  induction others generalizing front with
  | nil => simp
  | cons piece others inductionHypothesis =>
    rw [List.flatMap_cons, List.flatMap_cons, List.cons_append,
      runs_separator (by decide : isSpace 0x20 = true), inductionHypothesis]

/-- A header field is folded into lines that are not too long unless they have to be, and when
they are read again, its words are the same.

A line is only ever broken in front of white space, behind a word (`Breaks`), which the loop that
looks for the position keeps in view from one candidate to the next (`Passed`). So a value falls
into pieces that have its words in their order (`pieces_broken`), and the reader, who strips the
lines and joins them by single spaces, gets the words back. -/
theorem appendLongHeader_folds (field value rest : Text) (named : field ≠ [])
    (word : ∀ byte ∈ field, isSpace byte = false) (oneLine : newline ∉ value)
    (solid : ∀ byte ∈ value.getLast?, isSpace byte = false)
    (room : field.length + 1 + value.length < maxChar) (ends : followsOn rest = false) :
    ∃ lines unfolded, appendLongHeader field value = written lines ∧
      (∀ line ∈ lines, line.length ≤ 78 ∨ ∃ word, (∀ byte ∈ word, isSpace byte = false) ∧
        (line = field ++ 0x20 :: word ∨ line = 0x20 :: word)) ∧
      getHeaderLn (appendLongHeader field value ++ rest) = some (some (unfolded, rest)) ∧
      runs isSpace unfolded = field :: runs isSpace value := by
  obtain ⟨first, others, shape, text⟩ := appendLongHeader_pieces field value
  have broken := pieces_broken (78 - field.length - 1) value solid
  rw [shape] at broken
  obtain ⟨first', -, others', words, length, bytes⟩ := broken
  have first'' := first' first rfl
  have strip : ∀ piece ∈ others, stripWhiteSpace (0x20 :: piece) = piece := fun piece member =>
    stripWhiteSpace_piece (others' piece member).1
  have unfolded : (⟨field ++ 0x20 :: first, others.map fun piece => 0x20 :: piece⟩ :
      HeaderField).unfolded = field ++ 0x20 :: first ++ others.flatMap fun piece => 0x20 :: piece := by
    rw [HeaderField.unfolded, List.flatMap_map]
    congr 1
    exact List.flatMap_congr fun piece member => congrArg (List.cons _) (strip piece member)
  have shorter := (List.dropWhile_sublist isSpace (l := value)).length_le
  rw [List.map_cons, List.sum_cons] at length
  have fine : (⟨field ++ 0x20 :: first, others.map fun piece => 0x20 :: piece⟩ :
      HeaderField).Fine := by
    have solid' : newline ∉ field := fun member => absurd (word _ member) (by decide)
    refine ⟨by simp, ?_, ?_, ?_, ?_⟩
    · rw [List.head?_append_of_ne_nil _ named]
      exact fun byte head => word byte (List.mem_of_head? head)
    · rw [List.mem_append, List.mem_cons, not_or, not_or]
      exact ⟨solid', by decide, fun member => oneLine (bytes first List.mem_cons_self _ member)⟩
    · intro line member
      obtain ⟨piece, member', rfl⟩ := List.mem_map.mp member
      have part : piece.length + 1 ≤ (others.map fun piece => piece.length + 1).sum := by
        obtain ⟨before, after, same⟩ := List.append_of_mem member'
        rw [same, List.map_append, List.map_cons, List.sum_append, List.sum_cons]
        omega
      refine ⟨?_, ?_, rfl, ?_⟩
      · rw [List.mem_cons, not_or]
        exact ⟨by decide, fun inside => oneLine (bytes piece (List.mem_cons_of_mem _ member') _ inside)⟩
      · rw [List.length_cons]
        omega
      · rw [strip piece member']
        exact (others' piece member').2
    · have total : (others.flatMap fun piece => 0x20 :: piece).length =
          (others.map fun piece => piece.length + 1).sum := List.length_flatMap
      rw [unfolded, List.length_append, List.length_append, List.length_cons, total]
      omega
  refine ⟨(field ++ 0x20 :: first) :: others.map fun piece => 0x20 :: piece, _, ?_, ?_,
    text ▸ getHeaderLn_field _ fine rest ends, ?_⟩
  · rw [text, HeaderField.text, written_cons]
  · intro line member
    rcases List.mem_cons.mp member with rfl | member
    · rcases first''.short with short | single
      · left
        rw [List.length_append, List.length_cons]
        omega
      · exact Or.inr ⟨first, single, Or.inl rfl⟩
    · obtain ⟨piece, member', rfl⟩ := List.mem_map.mp member
      rcases (others' piece member').1.short with short | single
      · left
        rw [List.length_cons]
        omega
      · exact Or.inr ⟨piece, single, Or.inr rfl⟩
  · rw [unfolded, runs_joined, runs_separator (by decide : isSpace 0x20 = true),
      runs_item field named word, ← words]
    rfl

/-- Two identifiers that fit on one line. -/
theorem appendLongHeader_folds_references : ∃ lines unfolded,
    appendLongHeader (latin1 "References:") (latin1 "<1@a.invalid>  <2@b.invalid>") = written lines ∧
      (∀ line ∈ lines, line.length ≤ 78 ∨ ∃ word, (∀ byte ∈ word, isSpace byte = false) ∧
        (line = latin1 "References:" ++ 0x20 :: word ∨ line = 0x20 :: word)) ∧
      getHeaderLn (appendLongHeader (latin1 "References:")
        (latin1 "<1@a.invalid>  <2@b.invalid>") ++ [newline]) = some (some (unfolded, [newline])) ∧
      runs isSpace unfolded = latin1 "References:" ::
        runs isSpace (latin1 "<1@a.invalid>  <2@b.invalid>") :=
  appendLongHeader_folds (latin1 "References:") _ [newline] (by decide) (by decide) (by decide)
    (by decide) (by decide) rfl

end Schnitzeljagd.News
