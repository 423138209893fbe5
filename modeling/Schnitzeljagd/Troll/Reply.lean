import Schnitzeljagd.Foundations.LineFile
import Schnitzeljagd.Foundations.Paragraphs

/-!
# Replies of the troll

`newstroll.pl` answers an article line by line. Lines that somebody quoted and lines that
introduce quotes are left out, other lines are quoted, and an empty line behind quoted text
is the place of a comment. A reply without any comment gets one at its end.

The text of a comment is put together by chance and formatted by a module. So each line
comes with the troll texts that are chosen if there is a comment at it, and the formatter
is any function.
-/

namespace Schnitzeljagd.Troll

open Foundations.PerlText Foundations.LineFile Foundations.Paragraphs

/-! ## Patterns -/

/-- `/^$/`, where `$` also matches before a newline at the end. Such lines separate paragraphs. -/
def isEmpty (text : Text) : Bool := text = [] || text = [newline]

/-- `/^> (.*)/`, a line that was quoted before. -/
def isQuote (text : Text) : Bool := (latin1 "> ").isPrefixOf text

/-- `/^.*<.*> schrieb:/`. The dot does not match a newline, and where there is a match there
is one at the first `<`. -/
def isEinleitung (text : Text) : Bool :=
  latin1 "> schrieb:" <:+: ((text.takeWhile (· ≠ newline)).dropWhile (· ≠ 0x3c)).drop 1

/-- A word behind some `<` is behind the first one too, so it is enough to look there. -/
theorem infix_behind {word rest : Text} (inside : word <:+: rest) (before : Text) :
    word <:+: ((before ++ 0x3c :: rest).dropWhile (· ≠ 0x3c)).drop 1 := by
  induction before with
  | nil => simpa using inside
  | cons byte before inductionHypothesis =>
    rw [List.cons_append, List.dropWhile_cons]
    split
    · exact inductionHypothesis
    · rw [List.drop_succ_cons, List.drop_zero]
      exact inside.trans ((List.suffix_cons _ rest).trans (List.suffix_append before _)).isInfix

/-- What the pattern of the introducing lines asks for: an address in angle brackets, with the
word for writing behind it.

The dot of the pattern does not match a newline, so that only the first line matters. In it the
first opening bracket may be taken, since any other that fits comes behind it. -/
theorem isEinleitung_iff (text : Text) :
    isEinleitung text = true ↔ ∃ before between behind,
      text = before ++ 0x3c :: (between ++ latin1 "> schrieb:" ++ behind) ∧
        newline ∉ before ∧ newline ∉ between := by
  rw [isEinleitung, decide_eq_true_eq]
  constructor
  · intro inside
    have oneLine : ∀ byte ∈ text.takeWhile (· ≠ newline), byte ≠ newline := by
      intro byte member
      simpa using List.mem_takeWhile_imp member
    cases found : (text.takeWhile (· ≠ newline)).dropWhile (· ≠ 0x3c) with
    | nil =>
      rw [found, List.drop_nil, List.infix_nil] at inside
      exact absurd inside (by decide)
    | cons bracket rest =>
      have isBracket : bracket = 0x3c := by
        have stops := List.head?_dropWhile_not (· ≠ 0x3c) (text.takeWhile (· ≠ newline))
        rw [found] at stops
        simpa using stops
      rw [found, List.drop_succ_cons, List.drop_zero] at inside
      obtain ⟨between, behind, rfl⟩ := inside
      subst isBracket
      have whole : (text.takeWhile (· ≠ newline)).takeWhile (· ≠ 0x3c) ++
          (text.takeWhile (· ≠ newline)).dropWhile (· ≠ 0x3c) = text.takeWhile (· ≠ newline) :=
        List.takeWhile_append_dropWhile
      have all : text.takeWhile (· ≠ newline) ++ text.dropWhile (· ≠ newline) = text :=
        List.takeWhile_append_dropWhile
      rw [found] at whole
      rw [← whole] at all oneLine
      generalize (text.takeWhile (· ≠ newline)).takeWhile (· ≠ 0x3c) = before at all oneLine
      refine ⟨before, between, behind ++ text.dropWhile (· ≠ newline), ?_, ?_, ?_⟩
      · rw [← List.append_assoc, ← List.cons_append, ← List.append_assoc]
        exact all.symm
      · intro member
        exact oneLine newline (List.mem_append_left _ member) rfl
      · intro member
        exact oneLine newline (by simp [member]) rfl
  · rintro ⟨before, between, behind, rfl, beforeLine, betweenLine⟩
    have wordLine : newline ∉ latin1 "> schrieb:" := by decide
    have front : ∀ byte ∈ before ++ 0x3c :: (between ++ latin1 "> schrieb:"),
        decide (byte ≠ newline) = true := by
      intro byte member
      rw [decide_eq_true_eq]
      rintro rfl
      simp only [List.mem_append, List.mem_cons] at member
      obtain first | bracket | second | third := member
      · exact beforeLine first
      · exact absurd bracket (by decide)
      · exact betweenLine second
      · exact wordLine third
    have split : before ++ 0x3c :: (between ++ latin1 "> schrieb:" ++ behind) =
        before ++ 0x3c :: (between ++ latin1 "> schrieb:") ++ behind := by simp
    rw [split, List.takeWhile_append_of_pos front, List.append_assoc, List.cons_append]
    apply infix_behind
    exact ⟨between, behind.takeWhile (· ≠ newline), by simp⟩

/-! ## The loop over the body -/

/-- A line of the body, and the troll texts that `muell` would choose at it. -/
structure Line where
  text : Text
  chosen : List Text

/-- The variables of the loop: the lines so far, whether there is text since the last comment, and
whether there is a comment at all. -/
structure Building where
  replybody : List Text
  hadtext : Bool
  madecomment : Bool

section Loop

variable (format : Text → Text)

/-- The lines of one comment, formatted from the texts that are chosen for it. -/
def muell (chosen : List Text) : List Text :=
  (chompedLines (format (chosen.flatMap fun text => text ++ latin1 " "))).rdropWhile
    fun line => line = []

/-- A turn of the loop. Text that is worth it is quoted, and an empty line behind quoted text gets
a comment. -/
def turn (state : Building) (line : Line) : Building :=
  let text := chomp line.text
  if isEmpty text && state.hadtext then
    { replybody := state.replybody ++ [[]] ++ muell format line.chosen ++ [[]]
      hadtext := false
      madecomment := true }
  else if isQuote text then state
  else if isEinleitung text then state
  else if text.length ≥ 2 then
    { state with replybody := state.replybody ++ [latin1 "> " ++ text], hadtext := true }
  else state

/-- The first lines of a reply, which name the sender of the article. -/
def heading (sender : Text) : List Text := [sender ++ latin1 " schrieb: ", []]

/-- `@replybody` at the end, with the texts that are chosen behind the loop. -/
def replybody (sender : Text) (lines : List Line) (last : List Text) : List Text :=
  let built := lines.foldl (turn format) ⟨heading sender, false, false⟩
  if !built.madecomment then built.replybody ++ [[]] ++ muell format last
  else built.replybody

end Loop

/-! ## Parts of a reply -/

/-- A quoted line, or the lines of a comment with the empty lines around it. -/
inductive Part where
  | quote (text : Text)
  | comment (lines : List Text)

/-- The lines of a part, as they are in the reply. -/
def Part.lines : Part → List Text
  | quote text => [latin1 "> " ++ text]
  | comment lines => lines

/-- What a part quotes, if it is a quote. -/
def Part.quote? : Part → Option Text
  | quote text => some text
  | comment _ => none

/-- The part is a comment. -/
def Part.isComment : Part → Bool
  | quote _ => false
  | comment _ => true

/-- Text that is worth a quote: two characters or more, not quoted before, and no introducing
line. -/
def isFresh (text : Text) : Bool := 2 ≤ text.length && !isQuote text && !isEinleitung text

/-- The line has text that is worth a quote. -/
def Line.isFresh (line : Line) : Bool := Troll.isFresh (chomp line.text)

/-- The line separates paragraphs. -/
def Line.isEmpty (line : Line) : Bool := Troll.isEmpty (chomp line.text)

/-- The line is empty, and there is quoted text since the last comment. So it gets a comment. -/
def isCommented (earlier : List Line) (line : Line) : Bool :=
  closes Line.isFresh Line.isEmpty earlier line

/-- A line with text does not separate paragraphs. -/
theorem isFresh_isEmpty (line : Line) (fresh : line.isFresh = true) : line.isEmpty = false := by
  rw [Line.isFresh, isFresh, Bool.and_eq_true, Bool.and_eq_true, decide_eq_true_eq] at fresh
  rw [Line.isEmpty, isEmpty, Bool.or_eq_false_iff, decide_eq_false_iff_not, decide_eq_false_iff_not]
  constructor
  · intro empty
    simp [empty] at fresh
  · intro empty
    simp [empty] at fresh

section Parts

variable (format : Text → Text)

/-- The part of the reply that a mark in the text stands for. -/
def partOf : Mark Line → Part
  | .content line => .quote (chomp line.text)
  | .closing line => .comment ([] :: muell format line.chosen ++ [[]])

/-- The parts that the lines give, and a comment behind them if there is none yet. Nobody is
answered without a comment. -/
def parts (lines : List Line) (last : List Text) : List Part :=
  (marks Line.isFresh Line.isEmpty lines).map (partOf format) ++
    if (marks Line.isFresh Line.isEmpty lines).any Mark.isClosing then []
    else [.comment ([] :: muell format last)]

section Turn

variable {state : Building} {line : Line}

/-- A line with text is quoted. -/
theorem turn_fresh (fresh : line.isFresh = true) :
    turn format state line =
      { state with
        replybody := state.replybody ++ [latin1 "> " ++ chomp line.text]
        hadtext := true } := by
  have full : isEmpty (chomp line.text) = false := isFresh_isEmpty line fresh
  rw [Line.isFresh, isFresh, Bool.and_eq_true, Bool.and_eq_true, Bool.not_eq_true',
    Bool.not_eq_true', decide_eq_true_eq] at fresh
  obtain ⟨⟨long, noQuote⟩, noEinleitung⟩ := fresh
  simp [turn, full, noQuote, noEinleitung, long]

/-- An empty line behind quoted text gets a comment, with empty lines around it. -/
theorem turn_comment (empty : line.isEmpty = true) (had : state.hadtext = true) :
    turn format state line =
      ⟨state.replybody ++ [[]] ++ muell format line.chosen ++ [[]], false, true⟩ := by
  rw [Line.isEmpty] at empty
  rw [turn, empty, had]
  rfl

/-- Any other line is passed over. -/
theorem turn_other (stale : line.isFresh = false)
    (calm : line.isEmpty = true → state.hadtext = false) :
    turn format state line = state := by
  have noComment : ¬(isEmpty (chomp line.text) && state.hadtext) = true := by
    intro both
    obtain ⟨empty, had⟩ := (Bool.and_eq_true _ _).mp both
    rw [calm empty] at had
    cases had
  rw [turn]
  simp only [if_neg noComment]
  split
  · rfl
  · next noQuote =>
    split
    · rfl
    · next noEinleitung =>
      split
      · next long =>
        rw [Line.isFresh, isFresh, eq_false_of_ne_true noQuote, eq_false_of_ne_true noEinleitung,
          decide_eq_true long] at stale
        cases stale
      · rfl

end Turn

/-- The loop after some lines: their marks are written, and the flags say whether there is text to
be commented and whether there was a comment. By induction on the lines from the back. -/
theorem foldl_turn (start : List Text) (lines : List Line) :
    lines.foldl (turn format) ⟨start, false, false⟩ =
      ⟨start ++ ((marks Line.isFresh Line.isEmpty lines).map (partOf format)).flatMap Part.lines,
        pending Line.isFresh Line.isEmpty lines,
        (marks Line.isFresh Line.isEmpty lines).any Mark.isClosing⟩ := by
  induction lines using List.reverseRecOn with
  | nil => simp [marks_nil, pending_nil]
  | append_singleton lines line inductionHypothesis =>
    rw [List.foldl_concat, inductionHypothesis, marks_concat, pending_concat, mark]
    by_cases fresh : line.isFresh = true
    · rw [turn_fresh format fresh, if_pos fresh, isFresh_isEmpty line fresh, fresh]
      simp [partOf, Part.lines, Mark.isClosing]
    · rw [if_neg fresh, eq_false_of_ne_true fresh, Bool.false_or]
      by_cases closed : closes Line.isFresh Line.isEmpty lines line = true
      · obtain ⟨empty, open_⟩ := (Bool.and_eq_true _ _).mp closed
        rw [turn_comment format empty open_, if_pos closed, empty]
        simp [partOf, Part.lines, Mark.isClosing]
      · have calm : line.isEmpty = true → pending Line.isFresh Line.isEmpty lines = false := by
          intro empty
          rw [closes, empty, Bool.true_and] at closed
          exact eq_false_of_ne_true closed
        rw [turn_other format (eq_false_of_ne_true fresh) calm, if_neg closed]
        cases empty : line.isEmpty with
        | false => simp
        | true => simp [calm empty]

/-- The reply is its heading and its parts, in the order of the lines that they come from. -/
theorem replybody_parts (sender : Text) (lines : List Line) (last : List Text) :
    replybody format sender lines last =
      heading sender ++ (parts format lines last).flatMap Part.lines := by
  rw [replybody, foldl_turn, parts]
  cases (marks Line.isFresh Line.isEmpty lines).any Mark.isClosing with
  | false => simp [Part.lines]
  | true => simp

/-- The quotes of a reply are the fresh lines of the body, each once and in their order. Comments
quote nothing. -/
theorem parts_quotes (lines : List Line) (last : List Text) :
    (parts format lines last).filterMap Part.quote? =
      (lines.map fun line => chomp line.text).filter isFresh := by
  have quoteOf : (fun marked => (partOf format marked).quote?) =
      fun marked => marked.content?.map fun line => chomp line.text := by
    funext marked
    cases marked with
    | content line => rfl
    | closing line => rfl
  have content : (parts format lines last).filterMap Part.quote? =
      ((marks Line.isFresh Line.isEmpty lines).filterMap Mark.content?).map
        fun line => chomp line.text := by
    rw [parts, List.filterMap_append, List.filterMap_map, Function.comp_def, quoteOf,
      List.map_filterMap]
    split
    · simp
    · simp [Part.quote?]
  rw [content, marks_content, List.filter_map]
  rfl

/-- The part that a line gives, with the lines before it in view but none of those behind it. -/
def partAt (earlier : List Line) (line : Line) : Option Part :=
  if line.isFresh then some (.quote (chomp line.text))
  else if isCommented earlier line then some (.comment ([] :: muell format line.chosen ++ [[]]))
  else none

/-- The part of a line is that of its mark. -/
theorem partAt_mark (earlier : List Line) (line : Line) :
    partAt format earlier line =
      (mark Line.isFresh Line.isEmpty earlier line).map (partOf format) := by
  rw [partAt, mark, isCommented]
  split
  · rfl
  · split
    · rfl
    · rfl

/-- The parts line by line: each at the place of its line, and a comment at the end where no line
has given one. -/
theorem parts_lines (lines : List Line) (last : List Text) :
    parts format lines last =
      (lines.mapIdx fun index line => partAt format (lines.take index) line).reduceOption ++
        if (marks Line.isFresh Line.isEmpty lines).any Mark.isClosing then []
        else [.comment ([] :: muell format last)] := by
  have own : (lines.mapIdx fun index line => partAt format (lines.take index) line) =
      (lines.mapIdx fun index line =>
        mark Line.isFresh Line.isEmpty (lines.take index) line).map (Option.map (partOf format)) := by
    simp only [List.mapIdx_eq_zipIdx_map, List.map_map, Function.comp_def, partAt_mark]
  rw [parts, own, List.reduceOption_map, marks]

/-- Comments come from the ends of paragraphs. -/
theorem partOf_isComment (marked : Mark Line) :
    (partOf format marked).isComment = marked.isClosing := by
  cases marked with
  | content line => rfl
  | closing line => rfl

/-- Each reply has a comment, even one to an empty body. -/
theorem parts_comment (lines : List Line) (last : List Text) :
    ∃ part ∈ parts format lines last, part.isComment = true := by
  rw [parts]
  by_cases closed : (marks Line.isFresh Line.isEmpty lines).any Mark.isClosing = true
  · obtain ⟨marked, member, isClosing⟩ := List.any_eq_true.mp closed
    refine ⟨partOf format marked, ?_, (partOf_isComment format marked).trans isClosing⟩
    exact List.mem_append_left _ (List.mem_map_of_mem member)
  · rw [if_neg closed]
    exact ⟨_, List.mem_append_right _ (List.mem_singleton_self _), rfl⟩

/-- No comment follows another one, since there is quoted text between any two. -/
theorem parts_chain (lines : List Line) (last : List Text) :
    (parts format lines last).IsChain
      fun first second => second.isComment = true → first.isComment = false := by
  have chain : ((marks Line.isFresh Line.isEmpty lines).map (partOf format)).IsChain
      fun first second => second.isComment = true → first.isComment = false := by
    rw [List.isChain_map]
    simp only [partOf_isComment]
    exact (marks_chain lines).1
  rw [parts]
  by_cases closed : (marks Line.isFresh Line.isEmpty lines).any Mark.isClosing = true
  · rwa [if_pos closed, List.append_nil]
  · rw [if_neg closed]
    apply chain_concat chain
    intro part isLast _
    obtain ⟨marked, member, rfl⟩ := List.mem_map.mp (List.mem_of_getLast? isLast)
    rw [partOf_isComment]
    apply eq_false_of_ne_true
    intro isClosing
    exact closed (List.any_eq_true.mpr ⟨marked, member, isClosing⟩)

end Parts

/-! ## The whole reply -/

/-- The parts of a reply to some lines. -/
structure Exact (format : Text → Text) (lines : List Line) (last : List Text)
    (parts : List Part) : Prop where
  /-- The quotes are the fresh lines, each once and in their order. -/
  quotes : parts.filterMap Part.quote? = (lines.map fun line => chomp line.text).filter isFresh
  /-- Every line gives its part at its place, and behind them there is a comment exactly if
  no line has given one. -/
  places : ∃ ending, parts =
      (lines.mapIdx fun index line => partAt format (lines.take index) line).reduceOption ++ ending ∧
    ((∃ earlier line later, lines = earlier ++ line :: later ∧ isCommented earlier line = true) ∧
        ending = [] ∨
      (¬∃ earlier line later, lines = earlier ++ line :: later ∧ isCommented earlier line = true) ∧
        ending = [.comment ([] :: muell format last)])
  /-- A line gives a comment exactly if it is empty and there is a quoted line before it
  with no comment between them. -/
  comments : ∀ earlier line, isCommented earlier line = true ↔ line.isEmpty = true ∧
    ∃ before quoted between, earlier = before ++ quoted :: between ∧ quoted.isFresh = true ∧
      ∀ front other back, between = front ++ other :: back →
        isCommented (before ++ quoted :: front) other = false
  /-- There is a comment, and none follows another. -/
  comment : ∃ part ∈ parts, part.isComment = true
  chain : parts.IsChain fun first second => second.isComment = true → first.isComment = false

/-- Every reply is its heading and parts that answer the lines of the body exactly, for any texts
that the trolls choose.

The loop has two flags; what they mean is said once, by the marks of a text with paragraphs
(`foldl_turn`). From then on the reply is a list of parts, and each of the properties is one of
marks in general: what is quoted, where comments stand, that there is one, and that no two of them
meet. -/
theorem reply_exact (format : Text → Text) (sender : Text) (lines : List Line) (last : List Text) :
    ∃ parts, replybody format sender lines last = heading sender ++ parts.flatMap Part.lines ∧
      Exact format lines last parts := by
  refine ⟨parts format lines last, replybody_parts format sender lines last, ?_⟩
  constructor
  · exact parts_quotes format lines last
  · refine ⟨_, parts_lines format lines last, ?_⟩
    by_cases closed : (marks Line.isFresh Line.isEmpty lines).any Mark.isClosing = true
    · exact .inl ⟨(marks_closing_iff isFresh_isEmpty lines).mp closed, if_pos closed⟩
    · refine .inr ⟨?_, if_neg closed⟩
      exact fun some => closed ((marks_closing_iff isFresh_isEmpty lines).mpr some)
  · exact closes_iff_since isFresh_isEmpty
  · exact parts_comment format lines last
  · exact parts_chain format lines last

end Schnitzeljagd.Troll
