import Schnitzeljagd.Foundations.Loops
import Schnitzeljagd.Troll.Article

/-!
# Trolls answering trolls

The answer to an article is an article that may be answered again. What the first answer
quoted begins with `> ` there and is left out of the second one. The line that introduced
the quotes is left out if it names the sender with an address in angle brackets. The
names of the troll do; the sender of the first article may be written in another way, and
then the line is quoted as if it were fresh text.
-/

namespace Schnitzeljagd.Troll

open Foundations.PerlText Foundations.LineFile

/-! ## The introducing line -/

/-- A sender whose introducing line is recognised: with an address in angle brackets at the
end, or by chance. -/
def NamesAddress (sender : Text) : Prop :=
  (∃ before between, sender = before ++ 0x3c :: (between ++ [0x3e])) ∨ isEinleitung sender = true ∨
    isQuote sender = true ∨ sender = [0x3e]

/-- Of the ends of the word only the one behind the bracket, and the empty one, begin the rest
of an introducing line. -/
theorem word_ends : ∀ count < 11, (latin1 "> schrieb:").drop count <+: latin1 " schrieb: " →
    count = 1 ∨ count = 10 := by
  decide

/-- Where the word stands in an introducing line it stands in the sender, or the sender ends
with its bracket. -/
theorem word_in_heading {front sender behind : Text}
    (same : front ++ (latin1 "> schrieb:" ++ behind) = sender ++ latin1 " schrieb: ") :
    (∃ more, sender = front ++ (latin1 "> schrieb:" ++ more)) ∨ sender = front ++ [0x3e] := by
  obtain ⟨start, rfl, rest⟩ | ⟨start, _, rest⟩ := List.append_eq_append_iff.mp same
  · obtain ⟨more, rfl, _⟩ | ⟨ending, word, begins⟩ := List.append_eq_append_iff.mp rest
    · exact .inl ⟨more, rfl⟩
    · have short : start.length < 11 := by
        have lengths := congrArg List.length word
        rw [List.length_append, show (latin1 "> schrieb:").length = 10 by decide] at lengths
        omega
      have isStart : start = (latin1 "> schrieb:").take start.length := by
        rw [word, List.take_left]
      have isEnding : (latin1 "> schrieb:").drop start.length <+: latin1 " schrieb: " := by
        rw [word, List.drop_left]
        exact ⟨behind, begins.symm⟩
      obtain one | ten := word_ends start.length short isEnding
      · rw [one] at isStart
        exact .inr (congrArg (front ++ ·) isStart)
      · rw [ten] at isStart
        exact .inl ⟨[], congrArg (front ++ ·) isStart⟩
  · have noBracket : (0x3e : BitVec 8) ∉ latin1 " schrieb: " := by decide
    have bracket : (0x3e : BitVec 8) ∈ latin1 "> schrieb:" := by decide
    refine absurd ?_ noBracket
    rw [rest]
    exact List.mem_append_right _ (List.mem_append_left _ bracket)

/-- The introducing line of an answer is recognised by the ending of the sender, or because the
sender itself looks like such a line. -/
theorem isEinleitung_heading (sender : Text) (oneLine : newline ∉ sender) :
    isEinleitung (sender ++ latin1 " schrieb: ") = true ↔
      (∃ before between, sender = before ++ 0x3c :: (between ++ [0x3e])) ∨
        isEinleitung sender = true := by
  rw [isEinleitung_iff, isEinleitung_iff]
  constructor
  · rintro ⟨before, between, behind, same, beforeLine, betweenLine⟩
    have word : (before ++ 0x3c :: between) ++ (latin1 "> schrieb:" ++ behind) =
        sender ++ latin1 " schrieb: " := by
      rw [same]
      simp
    obtain ⟨more, rfl⟩ | rfl := word_in_heading word
    · exact .inr ⟨before, between, more, by simp, beforeLine, betweenLine⟩
    · exact .inl ⟨before, between, by simp⟩
  · rintro (⟨before, between, rfl⟩ | ⟨before, between, behind, rfl, beforeLine, betweenLine⟩)
    · simp only [List.mem_append, List.mem_cons, not_or] at oneLine
      refine ⟨before, between, latin1 " ", ?_, oneLine.1, oneLine.2.2.1⟩
      rw [List.append_assoc, List.cons_append, List.append_assoc, List.append_assoc]
      rfl
    · exact ⟨before, between, behind ++ latin1 " schrieb: ", by simp, beforeLine, betweenLine⟩

/-- The introducing line looks like a quote if the sender does. -/
theorem isQuote_heading (sender : Text) :
    isQuote (sender ++ latin1 " schrieb: ") = true ↔ isQuote sender = true ∨ sender = [0x3e] := by
  have sign : latin1 "> " = [0x3e, 0x20] := by decide
  have rest : latin1 " schrieb: " = 0x20 :: latin1 "schrieb: " := by decide
  rw [isQuote, isQuote, sign, rest]
  match sender with
  | [] => simp
  | [byte] =>
    constructor
    · intro begins
      obtain rfl : 0x3e = byte := by simpa using begins
      exact .inr rfl
    · rintro (begins | same)
      · simp at begins
      · obtain rfl := List.head_eq_of_cons_eq same
        rfl
  | byte :: next :: others => simp

/-- The introducing line is worth a quote unless the sender is recognised. -/
theorem isFresh_heading (sender : Text) (oneLine : newline ∉ sender) :
    isFresh (sender ++ latin1 " schrieb: ") = false ↔ NamesAddress sender := by
  have long : 2 ≤ (sender ++ latin1 " schrieb: ").length := by
    have length : (latin1 " schrieb: ").length = 10 := by decide
    rw [List.length_append, length]
    omega
  have whole : isFresh (sender ++ latin1 " schrieb: ") = false ↔
      isEinleitung (sender ++ latin1 " schrieb: ") = true ∨
        isQuote (sender ++ latin1 " schrieb: ") = true := by
    rw [isFresh, decide_eq_true long, Bool.true_and]
    cases isQuote (sender ++ latin1 " schrieb: ") with
    | false => simp
    | true => simp
  rw [whole, isEinleitung_heading sender oneLine, isQuote_heading, NamesAddress, or_assoc]

/-- The names of the trolls have an address in angle brackets. -/
theorem namesAddress_funnyname (name : Name) : NamesAddress (funnyname name) := by
  have address : latin1 " <entropia@harhar.invalid>" =
      latin1 " " ++ 0x3c :: (latin1 "entropia@harhar.invalid" ++ [0x3e]) := by decide
  refine .inl ⟨name.vorname ++ latin1 " " ++ name.nachname ++ latin1 " ",
    latin1 "entropia@harhar.invalid", ?_⟩
  rw [funnyname, address, ← List.append_assoc]

/-! ## Two rounds -/

section Rounds

variable (format : Text → Text)

/-- The parts of the answer to an article. -/
def Round.parts (round : Round) (article : Text) : List Part :=
  Troll.parts format (round.lines (parse (articleLines article)).body) round.last

/-- The lines of the article that the answer quotes. -/
def Round.quotes (round : Round) (article : Text) : List Text :=
  (round.parts format article).filterMap Part.quote?

/-- The line that introduces the quotes of an answer. -/
def introduction (article : Text) : Text :=
  (parse (articleLines article)).field "from" ++ latin1 " schrieb: "

/-- The lines of a part that are no quotes. -/
def Part.trollLines : Part → List Text
  | quote _ => []
  | comment lines => lines

/-- The answer to the answer quotes nothing that the first one had quoted and not its
introducing line: what it quotes are lines of the comments. -/
structure QuotesFresh (first second : Round) (article next : Text) : Prop where
  quotes : ∀ text ∈ first.quotes format article, latin1 "> " ++ text ∉ second.quotes format next
  introduction : introduction article ∉ second.quotes format next
  comments : second.quotes format next =
    ((first.parts format article).flatMap Part.trollLines).filter isFresh

/-- The last article of a chain of answers, each of them to the one before. -/
def chain (article : Text) (rounds : List Round) : Option Text :=
  rounds.foldlM (fun article round => respond format round article) article

/-- In every chain of answers that begins with the article, each answer to an answer quotes
fresh text only. -/
def ChainFresh (article : Text) : Prop :=
  ∀ rounds first second reached next answered, chain format article rounds = some reached →
    respond format first reached = some next → respond format second next = some answered →
      QuotesFresh format first second reached next

variable {format} {first : Round} (second : Round) {article next : Text}

/-- A quoted line is not quoted again. -/
theorem isFresh_quote (text : Text) : isFresh (latin1 "> " ++ text) = false := by
  have quoted : isQuote (latin1 "> " ++ text) = true :=
    List.isPrefixOf_iff_prefix.mpr (List.prefix_append _ _)
  rw [isFresh, quoted, Bool.not_true, Bool.and_false, Bool.false_and]

/-- The fresh lines of some parts are those of the comments. -/
theorem fresh_lines (parts : List Part) :
    (parts.flatMap Part.lines).filter isFresh = (parts.flatMap Part.trollLines).filter isFresh := by
  induction parts with
  | nil => rfl
  | cons part parts inductionHypothesis =>
    rw [List.flatMap_cons, List.flatMap_cons, List.filter_append, List.filter_append,
      inductionHypothesis]
    cases part with
    | quote text => simp [Part.lines, Part.trollLines, isFresh_quote]
    | comment lines => rfl

/-- What the second answer quotes. -/
theorem quotes_next (responded : respond format first article = some next) :
    second.quotes format next = [introduction article].filter isFresh ++
      ((first.parts format article).flatMap Part.trollLines).filter isFresh := by
  have texts (lines : List Text) :
      (second.lines (lines.map fun line => line ++ [newline])).map (fun line => chomp line.text) =
        lines := by
    apply List.ext_getElem
    · simp [Round.lines]
    · intro index _ _
      simp [Round.lines, chomp_concat_newline]
  have empty : isFresh [] = false := by decide
  rw [Round.quotes, Round.parts, parts_quotes, respond_parse responded, texts, replybody_parts,
    List.filter_append, fresh_lines, heading, ← introduction, Round.parts]
  simp [List.filter_cons, empty]

/-- The second answer quotes fresh text exactly if the introducing line of the first one is
recognised. -/
theorem quotesFresh_iff (responded : respond format first article = some next) :
    QuotesFresh format first second article next ↔ isFresh (introduction article) = false := by
  have quoted := quotes_next second responded
  constructor
  · intro fresh
    apply eq_false_of_ne_true
    intro present
    apply fresh.introduction
    rw [quoted, List.filter_cons, if_pos present]
    exact List.mem_cons_self
  · intro stale
    rw [List.filter_cons, stale, if_neg Bool.false_ne_true, List.filter_nil,
      List.nil_append] at quoted
    constructor
    · intro text _ member
      rw [quoted] at member
      have present := List.of_mem_filter member
      rw [isFresh_quote] at present
      cases present
    · intro member
      rw [quoted] at member
      have present := List.of_mem_filter member
      rw [stale] at present
      cases present
    · exact quoted

end Rounds

/-! ## Chains -/

section Chains

variable {format : Text → Text} {round : Round} {article next : Text}

/-- The date line that the server gives to an answer. -/
def answerDate : Text := latin1 "Date: Thu, 28 Mar 2002 18:02:11 +0100"

/-- A round that answers every article with a date and whose answers get one. -/
def answering : Round where
  alter := 0
  chance := 1
  name := ⟨[], [], by decide⟩
  chosen _ := []
  last := []
  relay :=
    { before := [answerDate]
      behind := []
      added := by
        intro line member
        obtain rfl := List.mem_singleton.mp member
        refine ⟨by decide, by decide, ?_⟩
        intro header read
        have own : headerLine (answerDate ++ [newline]) =
            some (latin1 "Date", latin1 "Thu, 28 Mar 2002 18:02:11 +0100") := by
          decide +kernel
        obtain rfl := Option.some.inj (own.symm.trans read)
        decide }

/-- An article with a date is answered in this round. -/
theorem respond_answering (format : Text → Text)
    (dated : (parse (articleLines article)).header "date" ≠ none) :
    ∃ next, respond format answering article = some next := by
  have answers : answering.skips (parse (articleLines article)) = false := by
    have noDate : decide ((parse (articleLines article)).header "date" = none) = false :=
      decide_eq_false dated
    rw [Round.skips, noDate]
    decide +kernel
  rw [respond, answers]
  exact ⟨_, rfl⟩

/-- The answer has a date, so it can be answered in turn. -/
theorem answering_dated (responded : respond format answering article = some next) :
    (parse (articleLines next)).header "date" ≠ none := by
  have read : entry (answerDate ++ [newline]) =
      some (latin1 "date", latin1 "Thu, 28 Mar 2002 18:02:11 +0100") := by
    decide +kernel
  rw [Parsed.header, respond_parse responded]
  intro none
  have absent := List.lookup_eq_none_iff.mp none _
    (List.mem_reverse.mpr (List.mem_filterMap.mpr ⟨answerDate, by simp [answering], read⟩))
  simp at absent

/-- The sender of an answer is recognised. -/
theorem respond_recognised (responded : respond format round article = some next) :
    isFresh (introduction next) = false := by
  rw [introduction, respond_sender responded]
  exact (isFresh_heading _ (funnyname_oneLine round.name)).mpr (namesAddress_funnyname round.name)

end Chains

/-- Trolls that answer trolls quote fresh text only, in every chain that begins with an article,
exactly if the article has no date, so that nobody answers it, or its sender is recognised in the
line that introduces an answer.

A second answer quotes the lines of the first one that are neither quotes nor introducing lines
(`quotes_next`). Quotes are recognised by their sign; the introducing line only if the sender ends
with an address in angle brackets. From the second answer on the senders are trolls, whose names
do (`respond_recognised`), so only the first article of a chain matters. If it is not recognised,
a chain of two answers shows it. -/
theorem chainFresh_iff (format : Text → Text) (article : Text) :
    ChainFresh format article ↔ (parse (articleLines article)).header "date" = none ∨
      NamesAddress ((parse (articleLines article)).field "from") := by
  have sender : isFresh (introduction article) = false ↔
      NamesAddress ((parse (articleLines article)).field "from") :=
    isFresh_heading _ (field_oneLine (articleLines article) "from")
  constructor
  · intro fresh
    by_cases dated : (parse (articleLines article)).header "date" = none
    · exact .inl dated
    · obtain ⟨next, responded⟩ := respond_answering format dated
      obtain ⟨answered, again⟩ := respond_answering format (answering_dated responded)
      have link := fresh [] answering answering article next answered rfl responded again
      exact .inr (sender.mp ((quotesFresh_iff answering responded).mp link))
  · rintro condition rounds first second reached next answered ran responded _
    apply (quotesFresh_iff second responded).mpr
    obtain rfl | ⟨others, round, rfl⟩ := List.eq_nil_or_concat rounds
    · obtain rfl : article = reached := Option.some.inj ran
      obtain undated | recognised := condition
      · have skipped : first.skips (parse (articleLines article)) = true := by
          rw [Round.skips, decide_eq_true undated, Bool.true_or, Bool.true_or]
        rw [respond, skipped] at responded
        cases responded
      · exact sender.mpr recognised
    · rw [List.concat_eq_append] at ran
      obtain ⟨before, _, last⟩ := Foundations.Loops.foldlM_concat.mp ran
      exact respond_recognised last

/-- An article whose sender gives his address without angle brackets. -/
def barePost : Text :=
  latin1 "From: a@b (Name)\nDate: Thu, 28 Mar 2002 17:41:25 +0100\n\nHallo\n"

/-- A sender with an address that is not in angle brackets: the second answer quotes the line
that introduced the quotes of the first. -/
theorem introduction_quoted :
    ¬ChainFresh id barePost ∧
      ((respond id answering barePost).bind (respond id answering)).map
          (fun answered => decide (latin1 "> a@b (Name) schrieb: " ∈ chompedLines answered)) =
        some true := by
  constructor
  · intro fresh
    have dated : (parse (articleLines barePost)).header "date" ≠ none := by decide +kernel
    have quotable : isFresh (introduction barePost) = true := by decide +kernel
    obtain ⟨next, responded⟩ := respond_answering id dated
    obtain ⟨answered, again⟩ := respond_answering id (answering_dated responded)
    have link := fresh [] answering answering _ next answered rfl responded again
    rw [(quotesFresh_iff answering responded).mp link] at quotable
    cases quotable
  · decide +kernel

end Schnitzeljagd.Troll
