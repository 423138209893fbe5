import Schnitzeljagd.Foundations.CString
import Schnitzeljagd.Foundations.Globs

/-!
# The patterns of the news server

`wildmat.c` compares names of groups and header fields with patterns in the manner of a
shell. A pointer is modelled as the bytes that it still has in front of it, the terminator
included, and reading behind the terminator has no value. The letters of a class are compared
as plain `char`s, whose sign the platform chooses.

The comment at the head of the file counts the calls of `DoMatch`, so the model counts them.
-/

namespace Schnitzeljagd.News

open Foundations.CArithmetic Foundations.Globs

/-- `'\\'`, which takes the meaning from the next byte -/
def backslash : Byte := 0x5c

/-- `'?'`, which stands for one byte -/
def questionMark : Byte := 0x3f

/-- `'*'`, which stands for any number of bytes -/
def asterisk : Byte := 0x2a

/-- `'['`, which opens a class -/
def leftBracket : Byte := 0x5b

/-- `']'`, which closes a class -/
def rightBracket : Byte := 0x5d

/-- `'-'`, between the ends of a range in a class -/
def hyphen : Byte := 0x2d

/-- `NEGATE_CLASS`, which inverts a class when it stands behind the bracket. -/
def negateClass : Byte := 0x5e

/-- `*text <= high && *text >= last`, a comparison of two `char`, which may have a sign. -/
def inRange (abi : Abi) (last high letter : Byte) : Bool :=
  (abi.charValue letter).toInt ≤ (abi.charValue high).toInt &&
    (abi.charValue letter).toInt ≥ (abi.charValue last).toInt

/-- The loop over the members of a class, with `p` behind the character `last`. It leaves `p`
behind the character that ends it, even if that is the end of the pattern. -/
def classLoop (abi : Abi) (letter last : Byte) (matched : Bool) :
    List Byte → Option (Bool × List Byte)
  | [] => none
  | byte :: after =>
    if byte = 0 ∨ byte = rightBracket then some (matched, after)
    else if byte = hyphen ∧ after.head? ≠ some rightBracket then
      match after with
      | [] => none
      | next :: behind =>
        classLoop abi letter next (matched || inRange abi last next letter) behind
    else classLoop abi letter byte (matched || letter = byte) after

/-- The case `'['`, with `p` behind the bracket or the sign of an inverted class: a `]` or `-`
at the front stands for itself. -/
def classBody (abi : Abi) (letter before : Byte) : List Byte → Option (Bool × List Byte)
  | [] => none
  | first :: after =>
    if first = rightBracket ∨ first = hyphen then classLoop abi letter first (letter = first) after
    else classLoop abi letter before false (first :: after)

/-- The whole case `'['`: whether the class matches, whether it is inverted, and where `p` is
after it. -/
def charClass (abi : Abi) (letter : Byte) : List Byte → Option (Bool × Bool × List Byte)
  | [] => none
  | first :: after =>
    if first = negateClass then
      (classBody abi letter negateClass after).map fun found => (found.1, true, found.2)
    else (classBody abi letter leftBracket (first :: after)).map fun found =>
      (found.1, false, found.2)

/-- Reading members of a class never goes back in the pattern. -/
theorem classLoop_shorter (abi : Abi) (letter last : Byte) (matched : Bool) (p : List Byte)
    (found : Bool × List Byte) (ran : classLoop abi letter last matched p = some found) :
    found.2.length ≤ p.length := by
  fun_induction classLoop abi letter last matched p with
  | case1 => simp at ran
  | case2 _ _ byte after ends =>
    obtain rfl := Option.some.inj ran
    exact Nat.le_succ after.length
  | case3 => simp at ran
  | case4 _ _ _ _ next behind _ inductionHypothesis =>
    have shorter := inductionHypothesis ran
    simp only [List.length_cons]
    omega
  | case5 _ _ _ after _ _ inductionHypothesis =>
    exact (inductionHypothesis ran).trans (Nat.le_succ after.length)

/-- Nor does reading a class from its first member on. -/
theorem classBody_shorter (abi : Abi) (letter before : Byte) (p : List Byte)
    (found : Bool × List Byte) (ran : classBody abi letter before p = some found) :
    found.2.length ≤ p.length := by
  cases p with
  | nil => simp [classBody] at ran
  | cons first after =>
    by_cases literal : first = rightBracket ∨ first = hyphen
    · simp only [classBody, literal, if_true] at ran
      exact (classLoop_shorter _ _ _ _ _ _ ran).trans (Nat.le_succ after.length)
    · simp only [classBody, literal, if_false] at ran
      exact classLoop_shorter _ _ _ _ _ _ ran

/-- The pattern behind a class is shorter, which lets the recursion of `DoMatch` end. -/
theorem charClass_shorter (abi : Abi) (letter : Byte) (p : List Byte)
    (found : Bool × Bool × List Byte) (ran : charClass abi letter p = some found) :
    found.2.2.length ≤ p.length := by
  cases p with
  | nil => simp [charClass] at ran
  | cons first after =>
    by_cases inverted : first = negateClass
    · simp only [charClass, inverted, if_true, Option.map_eq_some_iff] at ran
      obtain ⟨body, read, rfl⟩ := ran
      exact (classBody_shorter _ _ _ _ body read).trans (Nat.le_succ after.length)
    · simp only [charClass, inverted, if_false, Option.map_eq_some_iff] at ran
      obtain ⟨body, read, rfl⟩ := ran
      exact classBody_shorter _ _ _ _ body read

/-- `while (*text) if ((matched = DoMatch(text++, p)) != FALSE) return matched;` The calls are
counted. -/
def starLoop (attempt : List Byte → Option Search) : List Byte → Option Search
  | [] => none
  | letter :: text =>
    if letter = 0 then some ⟨.abort, 0⟩
    else do
      let tried ← attempt (letter :: text)
      if tried.verdict = .no then
        let rest ← starLoop attempt text
        some ⟨rest.verdict, 1 + tried.attempts + rest.attempts⟩
      else some ⟨tried.verdict, 1 + tried.attempts⟩

/-- `DoMatch`, with the number of calls that it makes of itself at later places of the text. -/
def doMatch (abi : Abi) (p text : List Byte) : Option Search :=
  match p, text with
  | [], _ => none
  | _, [] => none
  | symbol :: after, letter :: next =>
    if symbol = 0 then some ⟨if letter = 0 then .yes else .no, 0⟩
    else if letter = 0 ∧ symbol ≠ asterisk then some ⟨.abort, 0⟩
    else if symbol = backslash then
      match after with
      | [] => none
      | literal :: behind =>
        if letter ≠ literal then some ⟨.no, 0⟩ else doMatch abi behind next
    else if symbol = questionMark then doMatch abi after next
    else if symbol = asterisk then
      let rest := after.dropWhile fun byte => byte = asterisk
      match rest.head? with
      | none => none
      | some first =>
        if first = 0 then some ⟨.yes, 0⟩
        else starLoop (fun text => doMatch abi rest text) (letter :: next)
    else if symbol = leftBracket then
      match _read : charClass abi letter after with
      | none => none
      | some (matched, reverse, rest) =>
        if matched = reverse then some ⟨.no, 0⟩ else doMatch abi rest next
    else if letter ≠ symbol then some ⟨.no, 0⟩ else doMatch abi after next
termination_by p.length
decreasing_by
  · simp only [List.length_cons]
    omega
  · simp only [List.length_cons]
    omega
  · have shorter : (after.dropWhile fun byte => byte = asterisk).length ≤ after.length :=
      List.length_dropWhile_le _ _
    simp only [List.length_cons]
    omega
  · have shorter : rest.length ≤ after.length := charClass_shorter abi letter after _ _read
    simp only [List.length_cons]
    omega
  · simp only [List.length_cons]
    omega

/-- `Wld_match`, which has a shortcut for a pattern that is a single star. -/
def wldMatch (abi : Abi) (text pattern : List Byte) : Option Bool :=
  if pattern[0]? = some asterisk ∧ pattern[1]? = some 0 then some true
  else (doMatch abi pattern text).map fun found => found.verdict = .yes

/-! ## What a pattern means -/

/-- What stands between the brackets of a class: single letters, and ranges of them. -/
inductive Member where
  | single : Byte → Member
  | range : Byte → Byte → Member

/-- The letters of one member, compared as the source compares them. -/
def Member.contains (abi : Abi) (letter : Byte) : Member → Bool
  | .single byte => letter = byte
  | .range last high => inRange abi last high letter

/-- The members up to the closing bracket, and what follows it. A hyphen before the bracket
stands for itself. -/
def members (last : Byte) : List Byte → Option (List Member × List Byte)
  | [] => none
  | byte :: after =>
    if byte = rightBracket then some ([], after)
    else if byte = hyphen ∧ after.head? ≠ some rightBracket then
      match after with
      | [] => none
      | next :: behind =>
        (members next behind).map fun found => (.range last next :: found.1, found.2)
    else (members byte after).map fun found => (.single byte :: found.1, found.2)

/-- The members of a class from its first character on: a bracket or a hyphen there stands for
itself. -/
def classMembers (before : Byte) : List Byte → Option (List Member × List Byte)
  | [] => none
  | first :: after =>
    if first = rightBracket ∨ first = hyphen then
      (members first after).map fun found => (.single first :: found.1, found.2)
    else members before (first :: after)

/-- The letters that a class accepts, and what follows it. The sign for an inverted class counts
as the character before its first member, as in the source. -/
def classItem (abi : Abi) : List Byte → Option ((Byte → Bool) × List Byte)
  | [] => none
  | first :: after =>
    if first = negateClass then
      (classMembers negateClass after).map fun found =>
        (fun letter => !found.1.any (Member.contains abi letter), found.2)
    else
      (classMembers leftBracket (first :: after)).map fun found =>
        (fun letter => found.1.any (Member.contains abi letter), found.2)

/-- What follows a class is the end of the pattern. -/
theorem members_suffix (last : Byte) (pattern : List Byte) (found : List Member × List Byte)
    (read : members last pattern = some found) : found.2 <:+ pattern := by
  fun_induction members last pattern generalizing found with
  | case1 => simp at read
  | case2 _ after =>
    obtain rfl := Option.some.inj read
    exact List.suffix_cons rightBracket after
  | case3 => simp at read
  | case4 _ byte _ next behind _ inductionHypothesis =>
    obtain ⟨found', read', rfl⟩ := Option.map_eq_some_iff.mp read
    exact (inductionHypothesis found' read').trans
      ((List.suffix_cons next behind).trans (List.suffix_cons byte (next :: behind)))
  | case5 _ byte after _ _ inductionHypothesis =>
    obtain ⟨found', read', rfl⟩ := Option.map_eq_some_iff.mp read
    exact (inductionHypothesis found' read').trans (List.suffix_cons byte after)

/-- The same from the first character of a class on. -/
theorem classMembers_suffix (before : Byte) (pattern : List Byte)
    (found : List Member × List Byte) (read : classMembers before pattern = some found) :
    found.2 <:+ pattern := by
  cases pattern with
  | nil => simp [classMembers] at read
  | cons first after =>
    by_cases literal : first = rightBracket ∨ first = hyphen
    · simp only [classMembers, literal, if_true, Option.map_eq_some_iff] at read
      obtain ⟨found', read', rfl⟩ := read
      exact (members_suffix first after found' read').trans (List.suffix_cons first after)
    · simp only [classMembers, literal, if_false] at read
      exact members_suffix before (first :: after) found read

/-- The same for a whole class, inverted or not. -/
theorem classItem_suffix (abi : Abi) (pattern : List Byte) (found : (Byte → Bool) × List Byte)
    (read : classItem abi pattern = some found) : found.2 <:+ pattern := by
  cases pattern with
  | nil => simp [classItem] at read
  | cons first after =>
    by_cases inverted : first = negateClass
    · simp only [classItem, inverted, if_true, Option.map_eq_some_iff] at read
      obtain ⟨found', read', rfl⟩ := read
      exact (classMembers_suffix negateClass after found' read').trans
        (List.suffix_cons first after)
    · simp only [classItem, inverted, if_false, Option.map_eq_some_iff] at read
      obtain ⟨found', read', rfl⟩ := read
      exact classMembers_suffix leftBracket (first :: after) found' read'

/-- The items of a pattern; one whose last class is left open has none, since the source reads on
behind its end. A backslash takes the next character as it is, and at the end it accepts nothing.
-/
def items (abi : Abi) (pattern : List Byte) : Option (List (Item Byte)) :=
  match pattern with
  | [] => some []
  | symbol :: after =>
    if symbol = backslash then
      match after with
      | [] => some [.one fun _ => false]
      | literal :: behind =>
        (items abi behind).map (.one (fun letter => letter = literal) :: ·)
    else if symbol = questionMark then (items abi after).map (.one (fun _ => true) :: ·)
    else if symbol = asterisk then (items abi after).map (.many :: ·)
    else if symbol = leftBracket then
      match _read : classItem abi after with
      | none => none
      | some (accepts, rest) => (items abi rest).map (.one accepts :: ·)
    else (items abi after).map (.one (fun letter => letter = symbol) :: ·)
termination_by pattern.length
decreasing_by
  · simp only [List.length_cons]
    omega
  · simp only [List.length_cons]
    omega
  · simp only [List.length_cons]
    omega
  · have shorter : rest.length ≤ after.length := (classItem_suffix abi after _ _read).length_le
    simp only [List.length_cons]
    omega
  · simp only [List.length_cons]
    omega

/-! ## The matcher and the meaning -/

/-- The loop ends at a closing bracket or at the end of the pattern. -/
theorem classLoop_end (abi : Abi) (letter last byte : Byte) (matched : Bool) (after : List Byte)
    (ends : byte = 0 ∨ byte = rightBracket) :
    classLoop abi letter last matched (byte :: after) = some (matched, after) := by
  rw [classLoop.eq_def]
  simp only [ends, if_true]

/-- A hyphen between two characters, the second of which is no bracket, makes a range. -/
theorem classLoop_range (abi : Abi) (letter last next : Byte) (matched : Bool)
    (behind : List Byte) (inner : next ≠ rightBracket) :
    classLoop abi letter last matched (hyphen :: next :: behind) =
      classLoop abi letter next (matched || inRange abi last next letter) behind := by
  have open' : ¬ (hyphen = 0 ∨ hyphen = rightBracket) := by decide
  rw [classLoop.eq_def]
  simp only [open', if_false, List.head?_cons, ne_eq, Option.some.injEq, inner, not_false_eq_true,
    and_self, if_true]

/-- Every other character is compared by itself. -/
theorem classLoop_single (abi : Abi) (letter last byte : Byte) (matched : Bool)
    (after : List Byte) (inner : ¬ (byte = 0 ∨ byte = rightBracket))
    (single : ¬ (byte = hyphen ∧ after.head? ≠ some rightBracket)) :
    classLoop abi letter last matched (byte :: after) =
      classLoop abi letter byte (matched || letter = byte) after := by
  rw [classLoop.eq_def]
  simp only [inner, if_false, single]

/-- The loop looks through the members in the order in which they are written, and matches if one
of them does. -/
theorem classLoop_members (abi : Abi) (letter last : Byte) (matched : Bool) (pattern : List Byte)
    (noNul : ∀ byte ∈ pattern, byte ≠ 0) (found : List Member × List Byte)
    (read : members last pattern = some found) :
    classLoop abi letter last matched (pattern ++ [0]) =
      some (matched || found.1.any (Member.contains abi letter), found.2 ++ [0]) := by
  fun_induction members last pattern generalizing matched found with
  | case1 => simp at read
  | case2 last after =>
    obtain rfl := Option.some.inj read
    rw [List.cons_append, classLoop_end abi letter last rightBracket matched _ (.inr rfl)]
    simp
  | case3 => simp at read
  | case4 last byte _ next behind dashes inductionHypothesis =>
    obtain ⟨found', read', rfl⟩ := Option.map_eq_some_iff.mp read
    obtain ⟨rfl, inner⟩ := dashes
    have scanned := inductionHypothesis (matched || inRange abi last next letter)
      (fun byte member => noNul byte (by simp only [List.mem_cons, member, or_true])) found' read'
    have inner' : next ≠ rightBracket := fun closing => inner (congrArg some closing)
    rw [List.cons_append, List.cons_append, classLoop_range abi letter last next matched _ inner',
      scanned, List.any_cons, ← Bool.or_assoc]
    rfl
  | case5 last byte after ends single inductionHypothesis =>
    obtain ⟨found', read', rfl⟩ := Option.map_eq_some_iff.mp read
    have real : byte ≠ 0 := noNul byte List.mem_cons_self
    have scanned := inductionHypothesis (matched || letter = byte)
      (fun byte member => noNul byte (List.mem_cons_of_mem _ member)) found' read'
    have single' : ¬ (byte = hyphen ∧ (after ++ [0]).head? ≠ some rightBracket) := by
      cases after with
      | nil => simp [members] at read'
      | cons => exact single
    rw [List.cons_append, classLoop_single abi letter last byte matched _ (not_or.mpr ⟨real, ends⟩)
      single', scanned, List.any_cons, ← Bool.or_assoc]
    rfl

/-- The same from the first member on, which may be a bracket or a hyphen. -/
theorem classBody_members (abi : Abi) (letter before : Byte) (pattern : List Byte)
    (noNul : ∀ byte ∈ pattern, byte ≠ 0) (found : List Member × List Byte)
    (read : classMembers before pattern = some found) :
    classBody abi letter before (pattern ++ [0]) =
      some (found.1.any (Member.contains abi letter), found.2 ++ [0]) := by
  cases pattern with
  | nil => simp [classMembers] at read
  | cons first after =>
    by_cases literal : first = rightBracket ∨ first = hyphen
    · simp only [classMembers, literal, if_true] at read
      obtain ⟨found', read', rfl⟩ := Option.map_eq_some_iff.mp read
      have scanned := classLoop_members abi letter first (letter = first) after
        (fun byte member => noNul byte (List.mem_cons_of_mem _ member)) found' read'
      simp only [List.cons_append, classBody, literal, if_true, scanned, List.any_cons,
        Member.contains]
    · simp only [classMembers, literal, if_false] at read
      have scanned := classLoop_members abi letter before false (first :: after) noNul found read
      simpa only [List.cons_append, classBody, literal, if_false, Bool.false_or] using scanned

/-- On a class that is closed, the source decides as the class means and ends up behind it. What
the source keeps are two flags, and a letter is accepted when they differ. -/
theorem charClass_item (abi : Abi) (letter : Byte) (pattern : List Byte)
    (noNul : ∀ byte ∈ pattern, byte ≠ 0) (found : (Byte → Bool) × List Byte)
    (read : classItem abi pattern = some found) :
    ∃ matched reverse, charClass abi letter (pattern ++ [0]) =
      some (matched, reverse, found.2 ++ [0]) ∧ (matched = reverse ↔ found.1 letter = false) := by
  cases pattern with
  | nil => simp [classItem] at read
  | cons first after =>
    by_cases inverted : first = negateClass
    · simp only [classItem, inverted, if_true] at read
      obtain ⟨found', read', rfl⟩ := Option.map_eq_some_iff.mp read
      have scanned := classBody_members abi letter negateClass after
        (fun byte member => noNul byte (List.mem_cons_of_mem _ member)) found' read'
      refine ⟨found'.1.any (Member.contains abi letter), true, ?_, by simp⟩
      simp only [List.cons_append, charClass, inverted, if_true, scanned, Option.map_some]
    · simp only [classItem, inverted, if_false] at read
      obtain ⟨found', read', rfl⟩ := Option.map_eq_some_iff.mp read
      have scanned := classBody_members abi letter leftBracket (first :: after) noNul found' read'
      rw [List.cons_append] at scanned
      refine ⟨found'.1.any (Member.contains abi letter), false, ?_, Iff.rfl⟩
      simp only [List.cons_append, charClass, inverted, if_false, scanned, Option.map_some]

/-- The loop of a star tries the places of the text as the search does, if its attempts agree with
those of the search. -/
theorem starLoop_tryPlaces (attempt : List Byte → Option Search) (attempt' : List Byte → Search)
    (text : List Byte) (noNul : ∀ byte ∈ text, byte ≠ 0)
    (same : ∀ rest, (∀ byte ∈ rest, byte ≠ 0) → attempt (rest ++ [0]) = some (attempt' rest)) :
    starLoop attempt (text ++ [0]) = some (tryPlaces attempt' text) := by
  induction text with
  | nil => simp [starLoop, tryPlaces]
  | cons letter text inductionHypothesis =>
    have real : letter ≠ 0 := noNul letter List.mem_cons_self
    have tried := same (letter :: text) noNul
    have further := inductionHypothesis fun byte member =>
      noNul byte (List.mem_cons_of_mem _ member)
    rw [List.cons_append] at tried ⊢
    by_cases refused : (attempt' (letter :: text)).verdict = .no
    · simp only [starLoop, real, if_false, tried, Option.bind_eq_bind, Option.bind_some, refused,
        if_true, further, tryPlaces]
    · simp only [starLoop, real, if_false, tried, Option.bind_eq_bind, Option.bind_some, refused,
        tryPlaces]

/-- At the end of the pattern the text has to be at its end, too. -/
theorem doMatch_end (abi : Abi) (text : List Byte) (noNul : ∀ byte ∈ text, byte ≠ 0) :
    doMatch abi [0] (text ++ [0]) = some ⟨if text.isEmpty then .yes else .no, 0⟩ := by
  rw [doMatch.eq_def]
  cases text with
  | nil => simp
  | cons letter text =>
    have real : letter ≠ 0 := noNul letter List.mem_cons_self
    simp only [List.cons_append, if_true, real, if_false, List.isEmpty_cons, Bool.false_eq_true]

/-- Out of text in front of anything but a star: no later place can succeed either. -/
theorem doMatch_abort (abi : Abi) (symbol : Byte) (after : List Byte) (real : symbol ≠ 0)
    (other : symbol ≠ asterisk) : doMatch abi (symbol :: after) [0] = some ⟨.abort, 0⟩ := by
  rw [doMatch.eq_def]
  simp only [real, other, if_false, ne_eq, not_false_eq_true, and_self, if_true]

variable {abi : Abi} {letter : Byte} {text : List Byte}

/-- A backslash takes the next character of the pattern as it is. -/
theorem doMatch_backslash (real : letter ≠ 0) (literal : Byte) (behind : List Byte) :
    doMatch abi (backslash :: literal :: behind) (letter :: text) =
      if letter = literal then doMatch abi behind text else some ⟨.no, 0⟩ := by
  have kinds : backslash ≠ 0 := by decide
  rw [doMatch.eq_def]
  simp only [kinds, real, if_false, if_true, false_and, ne_eq, ite_not]

/-- A question mark accepts any letter. -/
theorem doMatch_questionMark (real : letter ≠ 0) (after : List Byte) :
    doMatch abi (questionMark :: after) (letter :: text) = doMatch abi after text := by
  have kinds : questionMark ≠ 0 ∧ questionMark ≠ backslash := by decide
  rw [doMatch.eq_def]
  simp only [kinds, real, if_false, if_true, false_and]

/-- A class accepts a letter when the two flags of the source differ. -/
theorem doMatch_class (real : letter ≠ 0) (after rest : List Byte) (matched reverse : Bool)
    (read : charClass abi letter after = some (matched, reverse, rest)) :
    doMatch abi (leftBracket :: after) (letter :: text) =
      if matched = reverse then some ⟨.no, 0⟩ else doMatch abi rest text := by
  have kinds : leftBracket ≠ 0 ∧ leftBracket ≠ backslash ∧ leftBracket ≠ questionMark ∧
    leftBracket ≠ asterisk := by decide
  rw [doMatch.eq_def]
  simp only [kinds, real, if_false, if_true, false_and]
  split
  · next missing => simp [read] at missing
  · next found =>
    obtain ⟨rfl, rfl, rfl⟩ : _ ∧ _ ∧ _ := by simpa [read] using found
    rfl

/-- Every other character accepts itself. -/
theorem doMatch_other (real : letter ≠ 0) (symbol : Byte) (after : List Byte)
    (plain : symbol ≠ 0 ∧ symbol ≠ backslash ∧ symbol ≠ questionMark ∧ symbol ≠ asterisk ∧
      symbol ≠ leftBracket) :
    doMatch abi (symbol :: after) (letter :: text) =
      if letter = symbol then doMatch abi after text else some ⟨.no, 0⟩ := by
  rw [doMatch.eq_def]
  simp only [plain, real, if_false, false_and, ne_eq, ite_not]

/-- A star at the end accepts what is left; otherwise the rest of the pattern is tried at every
place. -/
theorem doMatch_asterisk (after rest : List Byte) (first : Byte)
    (skipped : (after.dropWhile fun byte => byte = asterisk) = first :: rest) :
    doMatch abi (asterisk :: after) (letter :: text) =
      if first = 0 then some ⟨.yes, 0⟩
      else starLoop (fun text => doMatch abi (first :: rest) text) (letter :: text) := by
  have kinds : asterisk ≠ 0 ∧ asterisk ≠ backslash ∧ asterisk ≠ questionMark := by decide
  rw [doMatch.eq_def]
  simp only [kinds, if_false, if_true, ne_eq, not_true_eq_false, and_false, skipped,
    List.head?_cons]

/-- Consecutive stars act just like one, as the comment in the source promises. -/
theorem doMatch_asterisks (after rest : List Byte) (first : Byte)
    (skipped : (after.dropWhile fun byte => byte = asterisk) = first :: rest) :
    doMatch abi (asterisk :: asterisk :: after) (letter :: text) =
      doMatch abi (asterisk :: after) (letter :: text) := by
  have skipped' : ((asterisk :: after).dropWhile fun byte => byte = asterisk) = first :: rest := by
    simpa using skipped
  rw [doMatch_asterisk _ rest first skipped', doMatch_asterisk _ rest first skipped]

/-- A star is an item of its own. -/
theorem items_asterisk (abi : Abi) (after : List Byte) :
    items abi (asterisk :: after) = (items abi after).map (.many :: ·) := by
  have kinds : asterisk ≠ backslash ∧ asterisk ≠ questionMark := by decide
  rw [items.eq_def]
  simp only [kinds, if_false, if_true]

/-- Every other symbol begins an item that takes a letter. So only stars make items that take
several. -/
theorem items_one (symbol : Byte) (after : List Byte) (other : symbol ≠ asterisk)
    (parsed : List (Item Byte)) (read : items abi (symbol :: after) = some parsed) :
    ∃ accepts rest, parsed = .one accepts :: rest := by
  rw [items.eq_def] at read
  simp only [other, if_false] at read
  repeat' split at read
  all_goals simp only [Option.map_eq_some_iff, Option.some.injEq, reduceCtorEq] at read
  · exact ⟨_, _, read.symm⟩
  all_goals
    obtain ⟨rest, -, same⟩ := read
    exact ⟨_, rest, same.symm⟩

/-- Whatever the text, `DoMatch` makes the search of these items on it. -/
def Searches (abi : Abi) (pattern : List Byte) (parsed : List (Item Byte)) : Prop :=
  ∀ text : List Byte, (∀ byte ∈ text, byte ≠ 0) →
    doMatch abi (pattern ++ [0]) (text ++ [0]) = some (search parsed text)

/-- A symbol that is compared with one letter of the text, and what follows it in the pattern:
this is the step of the induction for letters, question marks, backslashes and classes alike. -/
theorem Searches.one {symbol : Byte} {after behind : List Byte} {accepts : Byte → Bool}
    {rest : List (Item Byte)} (real : symbol ≠ 0) (other : symbol ≠ asterisk)
    (turn : ∀ (letter : Byte) (text : List Byte), letter ≠ 0 →
      doMatch abi (symbol :: (after ++ [0])) (letter :: text) =
        if accepts letter then doMatch abi (behind ++ [0]) text else some ⟨.no, 0⟩)
    (further : Searches abi behind rest) : Searches abi (symbol :: after) (.one accepts :: rest) := by
  intro text noNul
  cases text with
  | nil => exact doMatch_abort abi symbol _ real other
  | cons letter text =>
    obtain ⟨real', noNul'⟩ := List.forall_mem_cons.mp noNul
    rw [List.cons_append, List.cons_append, turn letter _ real', further text noNul']
    cases accepted : accepts letter <;> simp [search, accepted]

/-- The empty pattern is at its end. -/
theorem Searches.nil (abi : Abi) : Searches abi [] [] := fun text noNul => doMatch_end abi text noNul

/-- A closed class accepts the letters that it means, and goes on behind its bracket. -/
theorem Searches.closed {after rest : List Byte} {accepts : Byte → Bool}
    {parsed : List (Item Byte)} (noNul : ∀ byte ∈ after, byte ≠ 0)
    (read : classItem abi after = some (accepts, rest)) (further : Searches abi rest parsed) :
    Searches abi (leftBracket :: after) (.one accepts :: parsed) := by
  apply Searches.one (by decide) (by decide) _ further
  intro letter text real
  obtain ⟨matched, reverse, scanned, decided⟩ := charClass_item abi letter after noNul _ read
  rw [doMatch_class real _ _ matched reverse scanned]
  cases accepted : accepts letter with
  | false => rw [if_pos (decided.mpr accepted), if_neg Bool.false_ne_true]
  | true =>
    have apart : matched ≠ reverse := by
      intro same
      exact absurd ((decided.mp same).symm.trans accepted) (by decide)
    rw [if_neg apart, if_pos rfl]

/-- What follows a star is tried at every place of the text. The stars behind it are skipped, and
a star at the end takes all that is left. How many letters the star takes is what the search tries
one after another. -/
theorem Searches.many {after : List Byte} {parsed : List (Item Byte)}
    (noNul : ∀ byte ∈ after, byte ≠ 0) (read : items abi after = some parsed)
    (further : Searches abi after parsed) : Searches abi (asterisk :: after) (.many :: parsed) := by
  intro text noNul'
  obtain ⟨letter, next, stored⟩ : ∃ letter next, text ++ [0] = letter :: next :=
    List.exists_cons_of_ne_nil (by simp)
  cases after with
  | nil =>
    obtain rfl : parsed = [] := by simpa [items] using read.symm
    rw [stored]
    exact doMatch_asterisk [0] [] 0 (by decide)
  | cons symbol behind =>
    have plain : symbol ≠ 0 := noNul symbol List.mem_cons_self
    by_cases star : symbol = asterisk
    · subst star
      obtain ⟨rest, -, rfl⟩ := Option.map_eq_some_iff.mp (items_asterisk abi behind ▸ read)
      obtain ⟨first, tail, skipped⟩ : ∃ first tail,
          ((behind ++ [0]).dropWhile fun byte => byte = asterisk) = first :: tail := by
        apply List.exists_cons_of_ne_nil
        intro vacant
        have stars := List.dropWhile_eq_nil_iff.mp vacant 0 (by simp)
        exact absurd stars (by decide)
      rw [List.cons_append, List.cons_append, stored, doMatch_asterisks _ tail first skipped,
        ← stored]
      exact further text noNul'
    · obtain ⟨accepts, rest, rfl⟩ := items_one symbol behind star parsed read
      have skipped : ((symbol :: (behind ++ [0])).dropWhile fun byte => byte = asterisk) =
          symbol :: (behind ++ [0]) := by
        simp [star]
      rw [List.cons_append, List.cons_append, stored,
        doMatch_asterisk (symbol :: (behind ++ [0])) _ symbol skipped, if_neg plain, ← stored]
      exact starLoop_tryPlaces _ _ text noNul' further

/-- On a pattern whose classes are all closed the source makes the search of the items. The
induction follows the way in which the items are read from the pattern, with one lemma for each
kind of symbol. -/
theorem doMatch_search (abi : Abi) (pattern : List Byte) (noNul : ∀ byte ∈ pattern, byte ≠ 0)
    (parsed : List (Item Byte)) (read : items abi pattern = some parsed) :
    Searches abi pattern parsed := by
  fun_induction items abi pattern generalizing parsed with
  | case1 =>
    obtain rfl := Option.some.inj read
    exact Searches.nil abi
  | case2 =>
    obtain rfl := Option.some.inj read
    apply Searches.one (by decide) (by decide) _ (Searches.nil abi)
    intro letter text real
    rw [List.nil_append, doMatch_backslash real, if_neg real]
    rfl
  | case3 literal behind inductionHypothesis =>
    obtain ⟨rest, read', rfl⟩ := Option.map_eq_some_iff.mp read
    have further := inductionHypothesis
      (fun byte member => noNul byte (by simp only [List.mem_cons, member, or_true])) rest read'
    apply Searches.one (by decide) (by decide) _ further
    intro letter text real
    rw [List.cons_append, doMatch_backslash real]
    simp only [decide_eq_true_eq]
  | case4 after _ inductionHypothesis =>
    obtain ⟨rest, read', rfl⟩ := Option.map_eq_some_iff.mp read
    have further := inductionHypothesis
      (fun byte member => noNul byte (List.mem_cons_of_mem _ member)) rest read'
    apply Searches.one (by decide) (by decide) _ further
    intro letter text real
    rw [doMatch_questionMark real, if_pos rfl]
  | case5 after _ _ inductionHypothesis =>
    obtain ⟨rest, read', rfl⟩ := Option.map_eq_some_iff.mp read
    have noNul' : ∀ byte ∈ after, byte ≠ 0 :=
      fun byte member => noNul byte (List.mem_cons_of_mem _ member)
    exact Searches.many noNul' read' (inductionHypothesis noNul' rest read')
  | case6 => simp at read
  | case7 after accepts rest read' _ _ _ inductionHypothesis =>
    obtain ⟨parsed', read'', rfl⟩ := Option.map_eq_some_iff.mp read
    have noNul' : ∀ byte ∈ after, byte ≠ 0 :=
      fun byte member => noNul byte (List.mem_cons_of_mem _ member)
    have noNul'' : ∀ byte ∈ rest, byte ≠ 0 :=
      fun byte member => noNul' byte ((classItem_suffix abi after _ read').subset member)
    exact Searches.closed noNul' read' (inductionHypothesis noNul'' parsed' read'')
  | case8 symbol after _ _ star _ inductionHypothesis =>
    obtain ⟨rest, read', rfl⟩ := Option.map_eq_some_iff.mp read
    have plain : symbol ≠ 0 := noNul symbol List.mem_cons_self
    have further := inductionHypothesis
      (fun byte member => noNul byte (List.mem_cons_of_mem _ member)) rest read'
    apply Searches.one plain star _ further
    intro letter text real
    rw [doMatch_other real symbol _
      ⟨plain, by assumption, by assumption, by assumption, by assumption⟩]
    simp only [decide_eq_true_eq]

/-- The shortcut looks at two characters, which are a star and the end only for a pattern that is
a lone star. -/
theorem lone_star (pattern : List Byte) (noNul : ∀ byte ∈ pattern, byte ≠ 0)
    (star : (pattern ++ [0])[0]? = some asterisk ∧ (pattern ++ [0])[1]? = some 0) :
    pattern = [asterisk] := by
  obtain ⟨first, second⟩ := star
  match pattern with
  | [] => exact absurd first (by decide)
  | [symbol] =>
    obtain rfl : symbol = asterisk := by simpa using first
    trivial
  | symbol :: symbol' :: rest =>
    have ends : symbol' = 0 := by simpa using second
    exact absurd ends (noNul symbol' (by simp))

/-- The shortcut for a lone star decides as the search does, since a star alone matches every
text. -/
theorem wldMatch_search (abi : Abi) (text pattern : List Byte) (noNul : ∀ byte ∈ text, byte ≠ 0)
    (noNul' : ∀ byte ∈ pattern, byte ≠ 0) (parsed : List (Item Byte))
    (closed : items abi pattern = some parsed) :
    wldMatch abi (text ++ [0]) (pattern ++ [0]) =
      some (decide ((search parsed text).verdict = .yes)) := by
  have ran := doMatch_search abi pattern noNul' parsed closed text noNul
  by_cases star : (pattern ++ [0])[0]? = some asterisk ∧ (pattern ++ [0])[1]? = some 0
  · obtain rfl : pattern = [asterisk] := lone_star pattern noNul' star
    rw [items_asterisk, items.eq_def] at closed
    obtain rfl := Option.some.inj closed
    have yes : (search [.many] text).verdict = .yes :=
      (search_yes_iff _ text).mpr ((matches_many_iff [] text).mpr ⟨[], List.nil_suffix, .done⟩)
    rw [wldMatch, if_pos star]
    exact congrArg some (decide_eq_true yes).symm
  · simp only [wldMatch, star, if_false, ran, Option.map_some]

/-- A shell pattern decides as it is meant to, whatever it has to try on the way.

What a pattern means is a relation between items and texts that says nothing of the order of
attempts. The source makes a certain search (`doMatch_search`), whose abort at the end of the text
is a shortcut that must not lose a match; that it does not is proved about searches in general
(`search_yes_iff`). -/
theorem wldMatch_iff (abi : Abi) (text pattern : List Byte) (noNul : ∀ byte ∈ text, byte ≠ 0)
    (noNul' : ∀ byte ∈ pattern, byte ≠ 0) (parsed : List (Item Byte))
    (closed : items abi pattern = some parsed) :
    ∃ answer, wldMatch abi (text ++ [0]) (pattern ++ [0]) = some answer ∧
      (answer = true ↔ Matches parsed text) := by
  refine ⟨_, wldMatch_search abi text pattern noNul noNul' parsed closed, ?_⟩
  rw [decide_eq_true_iff, search_yes_iff]

/-- `?*[^b]` on `abc` -/
theorem wldMatch_iff_inverted :
    ∃ answer, wldMatch ⟨true, 32, le_rfl⟩ ([0x61, 0x62, 0x63] ++ [0])
        ([questionMark, asterisk, leftBracket, negateClass, 0x62, rightBracket] ++ [0]) =
          some answer ∧
      (answer = true ↔ Matches [.one fun _ => true, .many,
        .one fun letter => !([Member.single 0x62].any (Member.contains ⟨true, 32, le_rfl⟩ letter))]
        [0x61, 0x62, 0x63]) :=
  wldMatch_iff _ _ _ (by decide) (by decide) _
    (by simp [items, classItem, classMembers, members, backslash, questionMark, asterisk,
      leftBracket, rightBracket, hyphen, negateClass])

/-- The flag for running out of text keeps the work linear: no matter how many stars there are,
`DoMatch` calls itself at most once for each character of the text.

An attempt that fails without having met a star has made no calls of its own, and one that has met
a star is final, since a star ends with a match or with an abort. So every place of the text is
tried at most once. The bound is one of the search on items, which the source makes. -/
theorem doMatch_calls (abi : Abi) (text pattern : List Byte) (noNul : ∀ byte ∈ text, byte ≠ 0)
    (noNul' : ∀ byte ∈ pattern, byte ≠ 0) (parsed : List (Item Byte))
    (closed : items abi pattern = some parsed) :
    ∃ found, doMatch abi (pattern ++ [0]) (text ++ [0]) = some found ∧
      found.attempts ≤ text.length :=
  ⟨search parsed text, doMatch_search abi pattern noNul' parsed closed text noNul,
    search_attempts parsed text⟩

/-- `*a*` on `bbb` -/
theorem doMatch_calls_stars :
    ∃ found, doMatch ⟨true, 32, le_rfl⟩ ([asterisk, 0x61, asterisk] ++ [0])
        ([0x62, 0x62, 0x62] ++ [0]) = some found ∧ found.attempts ≤ 3 :=
  doMatch_calls ⟨true, 32, le_rfl⟩ [0x62, 0x62, 0x62] [asterisk, 0x61, asterisk] (by decide)
    (by decide) [.many, .one fun letter => letter = 0x61, .many]
    (by simp [items, backslash, questionMark, asterisk, leftBracket])

end Schnitzeljagd.News
