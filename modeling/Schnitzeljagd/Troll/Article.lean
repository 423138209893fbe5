import Schnitzeljagd.Troll.Reply

/-!
# Articles of the troll

An article is read from the news server line by line: headers up to the first empty line,
then the body. If its date is recent and chance agrees, it is answered. The posted answer
comes back from the server as an article of its own, to which the server may have added
headers.

The clock, chance and the server contribute to a round of this as the fields of `Round`.
-/

namespace Schnitzeljagd.Troll

open Foundations.PerlText Foundations.LineFile

/-! ## Reading an article -/

/-- `/^([^:]+): (.*)$/` with `$1` and `$2`. The name ends at the first colon, and the value ends
at a newline or the end. -/
def headerLine (line : Text) : Option (Text × Text) :=
  let name := line.takeWhile (· ≠ 0x3a)
  let rest := line.dropWhile (· ≠ 0x3a)
  let value := (rest.drop 2).takeWhile (· ≠ newline)
  if name ≠ [] ∧ (latin1 ": ").isPrefixOf rest ∧
      (rest.drop 2 = value ∨ rest.drop 2 = value ++ [newline]) then some (name, value)
  else none

/-- The variables of the loop over the lines. The headers are in the order in which they were
set, the latest first. -/
structure Parsed where
  inbody : Bool
  headers : List (Text × Text)
  body : List Text

/-- A turn of the loop over the lines: in the header a line is a field, the empty line, or is
passed over. -/
def parseLine (parsed : Parsed) (line : Text) : Parsed :=
  if !parsed.inbody then
    match headerLine line with
    | some (name, value) => { parsed with headers := (lc name, value) :: parsed.headers }
    | none => if isEmpty line then { parsed with inbody := true } else parsed
  else { parsed with body := parsed.body ++ [line] }

/-- The loop over all lines, which begins in the header with nothing read. -/
def parse (article : List Text) : Parsed := article.foldl parseLine ⟨false, [], []⟩

/-- `$headers{...}`, the value that was set last under this name, which is in lower case. -/
def Parsed.header (parsed : Parsed) (name : String) : Option Text :=
  parsed.headers.lookup (latin1 name)

/-- A header in a string, where one that is not defined is empty, as it is in Perl. -/
def Parsed.field (parsed : Parsed) (name : String) : Text := (parsed.header name).getD []

/-- `$c->article(...)`: the lines of an article, each with its newline. -/
def articleLines (article : Text) : List Text :=
  (chompedLines article).map fun line => line ++ [newline]

/-! ## Answering it -/

/-- The class `[a-zA-ZüöäüÜÖÄ]`, in the encoding of the source, where an umlaut is one byte. -/
def isLetter (byte : BitVec 8) : Bool :=
  (0x61 ≤ byte.toNat && byte.toNat ≤ 0x7a) || (0x41 ≤ byte.toNat && byte.toNat ≤ 0x5a) ||
    (latin1 "üöäüÜÖÄ").contains byte

/-- A first and a last name of the file of names. -/
structure Name where
  vorname : Text
  nachname : Text
  letters : ∀ byte ∈ vorname ++ nachname, isLetter byte = true

/-- `funnyname`, a first and a last name, with the address that all trolls share. -/
def funnyname (name : Name) : Text :=
  name.vorname ++ latin1 " " ++ name.nachname ++ latin1 " <entropia@harhar.invalid>"

/-- Header lines that the server adds before and behind those of a posted article. -/
structure Relay where
  before : List Text
  behind : List Text
  /-- They are lines with some text, and not another sender. -/
  added : ∀ line ∈ before ++ behind, line ≠ [] ∧ newline ∉ line ∧
    ∀ header, headerLine (line ++ [newline]) = some header → lc header.1 ≠ latin1 "from"

/-- What decides about an answer and its text: the age of the article and the result of
`rand`, the name, the texts chosen by `muell` at each line of the body and behind it, and
the lines that the server adds. -/
structure Round where
  alter : Rat
  chance : Rat
  name : Name
  chosen : Nat → List Text
  last : List Text
  relay : Relay

/-- The conditions of the three lines with `next`: articles without a date, articles that are not
from the last quarter of an hour, and one half of the others. -/
def Round.skips (round : Round) (parsed : Parsed) : Bool :=
  parsed.header "date" = none || (round.alter < 0 || round.alter > 60 * 15) ||
    round.chance < 1 / 2

/-- `replyheader`, the fields of the answer. -/
def replyheader (parsed : Parsed) (name : Name) : List Text :=
  [latin1 "Subject: Re: " ++ parsed.field "subject",
    latin1 "From: " ++ funnyname name,
    latin1 "Newsgroups: " ++ parsed.field "newsgroups",
    latin1 "References: " ++ parsed.field "message-id",
    latin1 "X-MSMail-Priority: Normal",
    latin1 "X-Newsreader: Microsoft Outlook Express 5.00.2919.6700",
    latin1 "X-MimeOLE: Produced By Microsoft MimeOLE V5.00.2919.6700"]

/-- The lines of the body in this round, each with the texts that are chosen for it. -/
def Round.lines (round : Round) (body : List Text) : List Line :=
  body.mapIdx fun index text => ⟨text, round.chosen index⟩

/-- The article that the server has after the answer to this one has been posted. -/
def respond (format : Text → Text) (round : Round) (article : Text) : Option Text :=
  let parsed := parse (articleLines article)
  if round.skips parsed then none
  else some (written
    (round.relay.before ++ replyheader parsed round.name ++ round.relay.behind ++ [[]] ++
      replybody format (parsed.field "from") (round.lines parsed.body) round.last))

/-! ## Reading headers -/

/-- A header line is read as it is written, if its name has no colon in it. -/
theorem headerLine_line (name value : Text) (nonempty : name ≠ []) (noColon : 0x3a ∉ name)
    (oneLine : newline ∉ value) :
    headerLine (name ++ latin1 ": " ++ value ++ [newline]) = some (name, value) := by
  have whole : name ++ latin1 ": " ++ value ++ [newline] =
      name ++ 0x3a :: (0x20 :: (value ++ [newline])) := by
    rw [show latin1 ": " = [0x3a, 0x20] by decide]
    simp
  have starts : (latin1 ": ").isPrefixOf (0x3a :: 0x20 :: (value ++ [newline])) = true := rfl
  have rest : (0x3a :: 0x20 :: (value ++ [newline])).drop 2 = value ++ [newline] := rfl
  rw [headerLine, whole]
  simp only [takeWhile_until noColon, dropWhile_until noColon, rest, takeWhile_until oneLine]
  exact if_pos ⟨nonempty, starts, .inr trivial⟩

/-- The value of a header ends at the newline, so that there is none in it. -/
theorem headerLine_oneLine {line name value : Text} (read : headerLine line = some (name, value)) :
    newline ∉ value := by
  simp only [headerLine] at read
  split at read
  · obtain ⟨_, rfl⟩ := Prod.mk.inj (Option.some.inj read)
    intro member
    simpa using List.mem_takeWhile_imp member
  · cases read

/-- The header that a line sets, with its name in lower case, if it is a header line. -/
def entry (line : Text) : Option (Text × Text) :=
  (headerLine line).map fun header => (lc header.1, header.2)

/-- Up to the empty line every line is a header or is left out, and the body does not begin. -/
theorem foldl_headers (lines : List Text) (headers : List (Text × Text))
    (text : ∀ line ∈ lines, isEmpty line = false) :
    lines.foldl parseLine ⟨false, headers, []⟩ =
      ⟨false, (lines.filterMap entry).reverse ++ headers, []⟩ := by
  induction lines generalizing headers with
  | nil => rfl
  | cons line lines inductionHypothesis =>
    have turn : parseLine ⟨false, headers, []⟩ line =
        ⟨false, (entry line).toList ++ headers, []⟩ := by
      rw [parseLine, entry]
      cases headerLine line with
      | none => simp [text line List.mem_cons_self]
      | some header => simp
    rw [List.foldl_cons, turn, inductionHypothesis _ fun other member =>
      text other (List.mem_cons_of_mem _ member), List.filterMap_cons]
    cases entry line with
    | none => simp
    | some header => simp

/-- Behind the empty line every line belongs to the body. -/
theorem foldl_body (lines body : List Text) (headers : List (Text × Text)) :
    lines.foldl parseLine ⟨true, headers, body⟩ = ⟨true, headers, body ++ lines⟩ := by
  induction lines generalizing body with
  | nil => simp
  | cons line lines inductionHypothesis =>
    rw [List.foldl_cons, parseLine]
    simp [inductionHypothesis]

/-- An article is read as it is written: what its header lines set, and the lines of its body. -/
theorem parse_written (header body : List Text) (text : ∀ line ∈ header, line ≠ [])
    (oneLine : ∀ line ∈ header ++ [[]] ++ body, newline ∉ line) :
    parse (articleLines (written (header ++ [[]] ++ body))) =
      ⟨true, (header.filterMap fun line => entry (line ++ [newline])).reverse,
        body.map fun line => line ++ [newline]⟩ := by
  have full : ∀ line ∈ header.map (fun line => line ++ [newline]), isEmpty line = false := by
    intro line member
    obtain ⟨bare, inside, rfl⟩ := List.mem_map.mp member
    simpa [isEmpty] using text bare inside
  have ends (headers : List (Text × Text)) :
      parseLine ⟨false, headers, []⟩ ([] ++ [newline]) = ⟨true, headers, []⟩ := rfl
  rw [articleLines, chompedLines_written _ oneLine, parse]
  simp only [List.map_append, List.map_singleton, List.foldl_append, List.foldl_cons,
    List.foldl_nil]
  rw [foldl_headers _ [] full, ends, foldl_body, List.append_nil, List.nil_append,
    List.filterMap_map]
  rfl

/-- What a line can change: the headers, the body, or whether the body has begun. -/
theorem parseLine_cases (parsed : Parsed) (line : Text) :
    (∃ header, entry line = some header ∧
      parseLine parsed line = { parsed with headers := header :: parsed.headers }) ∨
    parseLine parsed line = { parsed with inbody := true } ∨
    parseLine parsed line = parsed ∨
    parseLine parsed line = { parsed with body := parsed.body ++ [line] } := by
  rw [parseLine]
  split
  · split
    · next name value read =>
      exact .inl ⟨(lc name, value), by rw [entry, read]; rfl, rfl⟩
    · split
      · exact .inr (.inl rfl)
      · exact .inr (.inr (.inl rfl))
  · exact .inr (.inr (.inr rfl))

/-- What every line of an article keeps holds of all that is read. So properties of what is read
need one look at a line. -/
theorem parse_keeps (article : List Text) (holds : Parsed → Prop) (start : holds ⟨false, [], []⟩)
    (keeps : ∀ parsed, holds parsed → ∀ line ∈ article, holds (parseLine parsed line)) :
    holds (parse article) :=
  List.foldlRecOn article parseLine start keeps

/-- No value of a header has a newline, so that it can be written into another header. -/
theorem field_oneLine (article : List Text) (name : String) :
    newline ∉ (parse article).field name := by
  have values : ∀ header ∈ (parse article).headers, newline ∉ header.2 := by
    apply parse_keeps article fun parsed => ∀ header ∈ parsed.headers, newline ∉ header.2
    · exact List.forall_mem_nil _
    · intro parsed before line _
      obtain ⟨first, read, turned⟩ | turned | turned | turned := parseLine_cases parsed line
      · rw [turned]
        intro header member
        obtain rfl | inside := List.mem_cons.mp member
        · obtain ⟨bare, readBare, rfl⟩ := Option.map_eq_some_iff.mp read
          exact headerLine_oneLine readBare
        · exact before header inside
      all_goals
        rw [turned]
        exact before
  rw [Parsed.field, Parsed.header]
  cases found : (parse article).headers.lookup (latin1 name) with
  | none => exact List.not_mem_nil
  | some value =>
    obtain ⟨front, back, split, _⟩ := List.lookup_eq_some_iff.mp found
    exact values (latin1 name, value) (by rw [split]; simp)

/-- The lines of the body are lines of the article, unchanged and with their newlines. -/
theorem parse_body (article : List Text) : ∀ line ∈ (parse article).body, line ∈ article := by
  apply parse_keeps article fun parsed => ∀ line ∈ parsed.body, line ∈ article
  · exact List.forall_mem_nil _
  · intro parsed before line isLine
    obtain ⟨first, _, turned⟩ | turned | turned | turned := parseLine_cases parsed line
    · rw [turned]
      exact before
    · rw [turned]
      exact before
    · rw [turned]
      exact before
    · rw [turned]
      exact List.forall_mem_append.mpr ⟨before, List.forall_mem_singleton.mpr isLine⟩

/-! ## Lines of a reply -/

section Lines

variable (format : Text → Text)

/-- A comment is given out line by line, and no newline is left within a line. -/
theorem muell_oneLine (chosen : List Text) : ∀ line ∈ muell format chosen, newline ∉ line := by
  intro line member
  exact chompedLines_oneLine _ line ((List.rdropWhile_prefix _ _).subset member)

/-- The lines of a comment are those of one call of `muell` and empty ones. -/
theorem parts_comment_lines (lines : List Line) (last block : List Text)
    (member : .comment block ∈ parts format lines last) :
    ∃ chosen, ∀ line ∈ block, line = [] ∨ line ∈ muell format chosen := by
  rw [parts] at member
  obtain own | ending := List.mem_append.mp member
  · obtain ⟨marked, _, same⟩ := List.mem_map.mp own
    cases marked with
    | content line => cases same
    | closing line =>
      obtain rfl := Part.comment.inj same
      refine ⟨line.chosen, ?_⟩
      intro text inside
      simp only [List.cons_append, List.mem_cons, List.mem_append, List.not_mem_nil,
        or_false] at inside
      obtain empty | drawn | empty := inside
      · exact .inl empty
      · exact .inr drawn
      · exact .inl empty
  · split at ending
    · exact absurd ending List.not_mem_nil
    · obtain rfl := Part.comment.inj (List.mem_singleton.mp ending)
      refine ⟨last, ?_⟩
      intro text inside
      exact List.mem_cons.mp inside

/-- No line of a reply has a newline, neither a quoted one nor one of a comment. -/
theorem replybody_oneLine (sender : Text) (lines : List Line) (last : List Text)
    (senderLine : newline ∉ sender) (oneLine : ∀ line ∈ lines, newline ∉ chomp line.text) :
    ∀ line ∈ replybody format sender lines last, newline ∉ line := by
  intro line member
  rw [replybody_parts, List.mem_append] at member
  obtain head | inside := member
  · have literal : newline ∉ latin1 " schrieb: " := by decide
    rw [heading, List.mem_cons, List.mem_singleton] at head
    obtain rfl | rfl := head
    · rw [List.mem_append]
      rintro (first | second)
      · exact senderLine first
      · exact literal second
    · exact List.not_mem_nil
  · obtain ⟨part, isPart, isLine⟩ := List.mem_flatMap.mp inside
    cases part with
    | quote text =>
      have quoted : text ∈ (parts format lines last).filterMap Part.quote? :=
        List.mem_filterMap.mpr ⟨.quote text, isPart, rfl⟩
      rw [parts_quotes] at quoted
      obtain ⟨origin, isOrigin, rfl⟩ := List.mem_map.mp (List.mem_of_mem_filter quoted)
      have literal : newline ∉ latin1 "> " := by decide
      obtain rfl := List.mem_singleton.mp isLine
      rw [List.mem_append]
      rintro (first | second)
      · exact literal first
      · exact oneLine origin isOrigin second
    | comment block =>
      obtain ⟨chosen, shape⟩ := parts_comment_lines format lines last block isPart
      obtain rfl | drawn := shape line isLine
      · exact List.not_mem_nil
      · exact muell_oneLine format chosen line drawn

end Lines

/-! ## The answer as an article -/

/-- A name has no newline in it, since it is made of letters and a fixed address. -/
theorem funnyname_oneLine (name : Name) : newline ∉ funnyname name := by
  have noLetter : isLetter newline = false := by decide
  have letters : newline ∉ name.vorname ++ name.nachname := by
    intro member
    rw [name.letters newline member] at noLetter
    cases noLetter
  have space : newline ∉ latin1 " " := by decide
  have address : newline ∉ latin1 " <entropia@harhar.invalid>" := by decide
  simp only [funnyname, List.mem_append, not_or] at letters ⊢
  exact ⟨⟨⟨letters.1, space⟩, letters.2⟩, address⟩

/-- What a header line of an answer sets: the name in lower case and the value. -/
theorem entry_line (line title value : Text) (shape : line = title ++ latin1 ": " ++ value)
    (nonempty : title ≠ []) (noColon : 0x3a ∉ title) (oneLine : newline ∉ value) :
    entry (line ++ [newline]) = some (lc title, value) := by
  rw [entry, shape, headerLine_line title value nonempty noColon oneLine]
  rfl

/-- What the lines of the header of an answer set, field by field. -/
theorem replyheader_entries (parsed : Parsed) (name : Name)
    (fields : ∀ field, newline ∉ parsed.field field) :
    ((replyheader parsed name).filterMap fun line => entry (line ++ [newline])).reverse =
      [(lc (latin1 "X-MimeOLE"), latin1 "Produced By Microsoft MimeOLE V5.00.2919.6700"),
        (lc (latin1 "X-Newsreader"), latin1 "Microsoft Outlook Express 5.00.2919.6700"),
        (lc (latin1 "X-MSMail-Priority"), latin1 "Normal"),
        (lc (latin1 "References"), parsed.field "message-id"),
        (lc (latin1 "Newsgroups"), parsed.field "newsgroups"),
        (lc (latin1 "From"), funnyname name),
        (lc (latin1 "Subject"), latin1 "Re: " ++ parsed.field "subject")] := by
  have subjectLine : newline ∉ latin1 "Re: " ++ parsed.field "subject" := by
    have literal : newline ∉ latin1 "Re: " := by decide
    rw [List.mem_append, not_or]
    exact ⟨literal, fields "subject"⟩
  have subject := entry_line (latin1 "Subject: Re: " ++ parsed.field "subject")
    (latin1 "Subject") (latin1 "Re: " ++ parsed.field "subject")
    (by rw [← List.append_assoc]; rfl) (by decide) (by decide) subjectLine
  have sender := entry_line (latin1 "From: " ++ funnyname name) (latin1 "From")
    (funnyname name) rfl (by decide) (by decide) (funnyname_oneLine name)
  have newsgroups := entry_line (latin1 "Newsgroups: " ++ parsed.field "newsgroups")
    (latin1 "Newsgroups") (parsed.field "newsgroups") rfl (by decide) (by decide)
    (fields "newsgroups")
  have references := entry_line (latin1 "References: " ++ parsed.field "message-id")
    (latin1 "References") (parsed.field "message-id") rfl (by decide) (by decide)
    (fields "message-id")
  have priority := entry_line (latin1 "X-MSMail-Priority: Normal")
    (latin1 "X-MSMail-Priority") (latin1 "Normal") (by decide) (by decide) (by decide) (by decide)
  have newsreader := entry_line (latin1 "X-Newsreader: Microsoft Outlook Express 5.00.2919.6700")
    (latin1 "X-Newsreader") (latin1 "Microsoft Outlook Express 5.00.2919.6700")
    (by decide) (by decide) (by decide) (by decide)
  have mimeOLE := entry_line (latin1 "X-MimeOLE: Produced By Microsoft MimeOLE V5.00.2919.6700")
    (latin1 "X-MimeOLE") (latin1 "Produced By Microsoft MimeOLE V5.00.2919.6700")
    (by decide) (by decide) (by decide) (by decide)
  simp only [replyheader, List.filterMap_cons, List.filterMap_nil, subject, sender, newsgroups,
    references, priority, newsreader, mimeOLE]
  rfl

/-- The sender of an answer is the name that was chosen, not that of the article. -/
theorem replyheader_sender (parsed : Parsed) (name : Name)
    (fields : ∀ field, newline ∉ parsed.field field) :
    ((replyheader parsed name).filterMap fun line => entry (line ++ [newline])).reverse.lookup
      (latin1 "from") = some (funnyname name) := by
  rw [replyheader_entries parsed name fields]
  rfl

/-- Every field of an answer stands on a line of its own. -/
theorem replyheader_lines (parsed : Parsed) (name : Name)
    (fields : ∀ field, newline ∉ parsed.field field) :
    ∀ line ∈ replyheader parsed name, line ≠ [] ∧ newline ∉ line := by
  have titled : ∀ line ∈ replyheader parsed name, ∃ title value, line = title ++ value ∧
      title ≠ [] ∧ newline ∉ title ∧ newline ∉ value := by
    intro line member
    simp only [replyheader, List.mem_cons, List.not_mem_nil, or_false] at member
    obtain rfl | rfl | rfl | rfl | rfl | rfl | rfl := member
    · exact ⟨_, _, rfl, by decide, by decide, fields "subject"⟩
    · exact ⟨_, _, rfl, by decide, by decide, funnyname_oneLine name⟩
    · exact ⟨_, _, rfl, by decide, by decide, fields "newsgroups"⟩
    · exact ⟨_, _, rfl, by decide, by decide, fields "message-id"⟩
    · exact ⟨_, [], (List.append_nil _).symm, by decide, by decide, List.not_mem_nil⟩
    · exact ⟨_, [], (List.append_nil _).symm, by decide, by decide, List.not_mem_nil⟩
    · exact ⟨_, [], (List.append_nil _).symm, by decide, by decide, List.not_mem_nil⟩
  intro line member
  obtain ⟨title, value, rfl, nonempty, titleLine, valueLine⟩ := titled line member
  refine ⟨List.append_ne_nil_of_left_ne_nil nonempty value, ?_⟩
  rw [List.mem_append, not_or]
  exact ⟨titleLine, valueLine⟩

section Respond

variable {format : Text → Text} {round : Round} {article next : Text}

/-- What reading an answer gives: the header that was written, with what the server has added, and
the lines of the reply.

The answer is written line by line and read back so, provided that no line has a newline in it and
none of the header is empty. The fields come from the article, whose values have no newline
either. -/
theorem respond_parse (responded : respond format round article = some next) :
    parse (articleLines next) =
      ⟨true, ((round.relay.before ++ replyheader (parse (articleLines article)) round.name ++
          round.relay.behind).filterMap fun line => entry (line ++ [newline])).reverse,
        (replybody format ((parse (articleLines article)).field "from")
          (round.lines (parse (articleLines article)).body) round.last).map
            fun line => line ++ [newline]⟩ := by
  have fields := field_oneLine (articleLines article)
  rw [respond] at responded
  split at responded
  · cases responded
  · obtain rfl := Option.some.inj responded
    have headerLines : ∀ line ∈ round.relay.before ++
        replyheader (parse (articleLines article)) round.name ++ round.relay.behind,
          line ≠ [] ∧ newline ∉ line := by
      intro line member
      simp only [List.mem_append] at member
      obtain (before | own) | behind := member
      · obtain ⟨nonempty, oneLine, _⟩ := round.relay.added line (List.mem_append_left _ before)
        exact ⟨nonempty, oneLine⟩
      · exact replyheader_lines _ round.name fields line own
      · obtain ⟨nonempty, oneLine, _⟩ := round.relay.added line (List.mem_append_right _ behind)
        exact ⟨nonempty, oneLine⟩
    apply parse_written
    · exact fun line member => (headerLines line member).1
    · intro line member
      rw [List.mem_append, List.mem_append, List.mem_singleton] at member
      obtain (header | rfl) | body := member
      · exact (headerLines line header).2
      · exact List.not_mem_nil
      · apply replybody_oneLine format _ _ _ (fields "from") _ line body
        intro origin isOrigin
        obtain ⟨index, inside, rfl⟩ := List.mem_mapIdx.mp isOrigin
        obtain ⟨bare, isBare, same⟩ := List.mem_map.mp (parse_body _ _ (List.getElem_mem inside))
        rw [← same, chomp_concat_newline]
        exact chompedLines_oneLine article bare isBare

/-- Its sender is the name of the round, whatever lines the server has added. -/
theorem respond_sender (responded : respond format round article = some next) :
    (parse (articleLines next)).field "from" = funnyname round.name := by
  have fields := field_oneLine (articleLines article)
  have noSender (lines : List Text)
      (added : ∀ line ∈ lines, line ∈ round.relay.before ++ round.relay.behind) :
      (lines.filterMap fun line => entry (line ++ [newline])).reverse.lookup (latin1 "from") =
        none := by
    rw [List.lookup_eq_none_iff]
    intro header member
    obtain ⟨line, isLine, read⟩ := List.mem_filterMap.mp (List.mem_reverse.mp member)
    obtain ⟨bare, readBare, rfl⟩ := Option.map_eq_some_iff.mp read
    have other := (round.relay.added line (added line isLine)).2.2 bare readBare
    simpa using other.symm
  have behind := noSender round.relay.behind fun line member => List.mem_append_right _ member
  rw [Parsed.field, Parsed.header, respond_parse responded]
  simp only [List.filterMap_append, List.reverse_append]
  rw [List.lookup_append, behind, Option.none_or, List.lookup_append,
    replyheader_sender _ round.name fields]
  rfl

end Respond

end Schnitzeljagd.Troll
