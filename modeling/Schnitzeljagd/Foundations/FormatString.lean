import Schnitzeljagd.Foundations.CString

/-!
# Format strings

`sprintf` takes its format apart into bytes that it copies and directives that begin with
a percent sign. Two percent signs in a row stand for one. Every other directive converts an
argument.

What a directive gives when the call has no argument for it is undefined: it takes
whatever the machine finds in the place of one. A `Machine` chooses what that is. The
directive may also not come to an end, and if it does, its text is no shorter than the
field that it asks for.
-/

namespace Foundations.FormatString

open Foundations.CArithmetic Foundations.CString

/-- The percent sign, `%`, with which every directive begins -/
def percent : Byte := 0x25

/-- The digits of a width or a precision, which are those of ASCII. -/
def isDigit (byte : Byte) : Bool := 0x30 ≤ byte.toNat && byte.toNat ≤ 0x39

/-- The flags `-`, `+`, space, `#` and `0`, which come before the width. -/
def isFlag (byte : Byte) : Bool :=
  byte = 0x2d || byte = 0x2b || byte = 0x20 || byte = 0x23 || byte = 0x30

/-- What may stand between the percent sign and the conversion: flags, digits, `*`, `.`, `$`
and the length modifiers `h`, `l`, `L`, `q`, `j`, `z` and `t`. -/
def isSpecification (byte : Byte) : Bool :=
  isFlag byte || isDigit byte || byte = 0x2a || byte = 0x2e || byte = 0x24 || byte = 0x68 ||
    byte = 0x6c || byte = 0x4c || byte = 0x71 || byte = 0x6a || byte = 0x7a || byte = 0x74

/-- The conversions `d`, `i`, `u`, `o`, `x`, `X`, `c` and `s`, whose width is known to be kept. -/
def isConversion (byte : Byte) : Bool :=
  byte = 0x64 || byte = 0x69 || byte = 0x75 || byte = 0x6f || byte = 0x78 || byte = 0x58 ||
    byte = 0x63 || byte = 0x73

/-- A directive, of a specification and a conversion; its conversion is missing if the format ends
before it. -/
structure Directive where
  specification : List Byte
  conversion : Option Byte
  deriving DecidableEq

/-- A byte that is copied, or a directive. A pair of percent signs counts as a byte. -/
inductive Item where
  | literal (byte : Byte)
  | directive (directive : Directive)
  deriving DecidableEq

/-- The width of the field of a directive that has flags and a width and nothing else before
one of the usual conversions. -/
def Directive.width (directive : Directive) : Nat :=
  let digits := directive.specification.dropWhile isFlag
  if digits.all isDigit && directive.conversion.any isConversion then
    digits.foldl (fun value digit => 10 * value + (digit.toNat - 0x30)) 0
  else 0

/-- The items of a format, read outside of directives or behind a percent sign and some
specification. -/
def items : Option (List Byte) → List Byte → List Item
  | none, [] => []
  | none, byte :: rest =>
    if byte = percent then items (some []) rest else .literal byte :: items none rest
  | some specification, [] => [.directive ⟨specification, none⟩]
  | some specification, byte :: rest =>
    if isSpecification byte then items (some (specification ++ [byte])) rest
    else if specification = [] ∧ byte = percent then .literal percent :: items none rest
    else .directive ⟨specification, some byte⟩ :: items none rest

/-- What the directives of a call give that have no arguments. The language does not say, so it
can be any text, or none, that keeps the width asked for. -/
structure Machine where
  /-- The text of a directive with so many before it, if it gives one. -/
  text : Nat → Directive → Option (List Byte)
  wide : ∀ count directive result, text count directive = some result →
    directive.width ≤ result.length

/-- The text of a list of items, where every directive knows how many came before it. -/
def Machine.render (machine : Machine) : Nat → List Item → Option (List Byte)
  | _, [] => some []
  | count, .literal byte :: items => (machine.render count items).map (byte :: ·)
  | count, .directive directive :: items => do
    let text ← machine.text count directive
    let rest ← machine.render (count + 1) items
    pure (text ++ rest)

/-- The text that a call without arguments makes of a format. -/
def Machine.format (machine : Machine) (format : List Byte) : Option (List Byte) :=
  machine.render 0 (items none format)

/-- `sprintf(out, format)`: the text and its NUL, if the array has room for them. -/
def Machine.sprintf (machine : Machine) (out format : List Byte) : Option (List Byte) := do
  let text ← machine.format format
  if text.length < out.length then some (text ++ 0 :: out.drop (text.length + 1)) else none

/-- A format whose only directives are pairs of percent signs, so that its text does not depend on
the machine. -/
def Plain (format : List Byte) : Prop :=
  ∀ directive, .directive directive ∉ items none format

/-! ## Formats without directives -/

section Items

variable {format specification : List Byte}

/-- A format without percent signs is copied byte by byte, whatever else is in it. -/
theorem items_literal (absent : percent ∉ format) : items none format = format.map .literal := by
  induction format with
  | nil => rfl
  | cons byte format inductionHypothesis =>
    have other : byte ≠ percent := fun same => absent (same ▸ List.mem_cons_self)
    rw [items, if_neg other, List.map_cons,
      inductionHypothesis fun member => absent (List.mem_cons_of_mem byte member)]

/-- Such a format is plain, since it has no directives at all. -/
theorem plain_literal (absent : percent ∉ format) : Plain format := by
  intro directive member
  rw [items_literal absent, List.mem_map] at member
  obtain ⟨byte, _, same⟩ := member
  cases same

/-- Behind a specification there is always a directive, even if the format ends in the middle of
it. -/
theorem items_specification (format : List Byte) (nonempty : specification ≠ []) :
    ∃ directive, .directive directive ∈ items (some specification) format := by
  induction format generalizing specification with
  | nil => exact ⟨⟨specification, none⟩, List.mem_singleton_self _⟩
  | cons byte format inductionHypothesis =>
    rw [items]
    split
    · exact inductionHypothesis (by simp)
    · rw [if_neg (fun pair => nonempty pair.1)]
      exact ⟨⟨specification, some byte⟩, List.mem_cons_self⟩

/-- Behind a percent sign a plain format has another one, and the pair gives one percent sign. -/
theorem plain_percent (plain : Plain (percent :: format)) :
    ∃ rest, format = percent :: rest ∧ Plain rest ∧
      items none (percent :: format) = .literal percent :: items none rest := by
  have behind : items none (percent :: format) = items (some []) format := by
    rw [items, if_pos rfl]
  rw [Plain, behind] at plain
  rw [behind]
  cases format with
  | nil => exact absurd (List.mem_singleton_self _) (plain ⟨[], none⟩)
  | cons byte rest =>
    rw [items] at plain
    split at plain
    · obtain ⟨directive, member⟩ := items_specification rest (List.cons_ne_nil byte [])
      exact absurd member (plain directive)
    · next ends =>
      split at plain
      · next pair =>
        obtain ⟨_, rfl⟩ := pair
        refine ⟨rest, rfl, ?_, ?_⟩
        · intro directive member
          exact plain directive (List.mem_cons_of_mem _ member)
        · rw [items, if_neg ends, if_pos ⟨rfl, rfl⟩]
      · exact absurd List.mem_cons_self (plain ⟨[], some byte⟩)

/-- Behind any other byte a plain format goes on plain, and the byte is copied. -/
theorem plain_tail {byte : Byte} (plain : Plain (byte :: format)) (other : byte ≠ percent) :
    Plain format ∧ items none (byte :: format) = .literal byte :: items none format := by
  have shape : items none (byte :: format) = .literal byte :: items none format := by
    rw [items, if_neg other]
  refine ⟨?_, shape⟩
  intro directive member
  apply plain directive
  rw [shape]
  exact List.mem_cons_of_mem _ member

/-- A plain format has no more items than bytes, and fewer if it has percent signs.

The induction is on the length, since a pair of percent signs takes two bytes. -/
theorem plain_length (format : List Byte) (plain : Plain format) :
    (items none format).length ≤ format.length ∧
      (percent ∈ format → (items none format).length < format.length) := by
  induction measure : format.length using Nat.strong_induction_on generalizing format with
  | _ length inductionHypothesis =>
    cases format with
    | nil => simp [items]
    | cons byte format =>
      rw [List.length_cons] at measure
      by_cases other : byte = percent
      · subst other
        obtain ⟨rest, rfl, plainRest, shape⟩ := plain_percent plain
        rw [List.length_cons] at measure
        have shorter := (inductionHypothesis rest.length (by omega) rest plainRest rfl).1
        rw [shape, List.length_cons]
        omega
      · obtain ⟨plainRest, shape⟩ := plain_tail plain other
        obtain ⟨most, fewer⟩ := inductionHypothesis format.length (by omega) format plainRest rfl
        rw [shape, List.length_cons]
        constructor
        · omega
        · intro member
          obtain same | later := List.mem_cons.mp member
          · exact absurd same.symm other
          · have less := fewer later
            omega

end Items

/-! ## Texts -/

section Texts

variable {machine : Machine} {count : Nat} {format text : List Byte}

/-- Items without directives give the same text on every machine, a byte for each. -/
theorem render_literals (list : List Item) (free : ∀ directive, .directive directive ∉ list) :
    ∃ text, text.length = list.length ∧
      ∀ (machine : Machine) (count : Nat), machine.render count list = some text := by
  induction list with
  | nil => exact ⟨[], rfl, fun _ _ => rfl⟩
  | cons item list inductionHypothesis =>
    cases item with
    | literal byte =>
      obtain ⟨text, length, rendered⟩ := inductionHypothesis fun directive member =>
        free directive (List.mem_cons_of_mem _ member)
      refine ⟨byte :: text, by rw [List.length_cons, List.length_cons, length], ?_⟩
      intro machine count
      rw [Machine.render, rendered machine count, Option.map_some]
    | directive directive => exact absurd List.mem_cons_self (free directive)

/-- A plain format gives the same text on every machine, which is no longer than the format,
and shorter if the format has percent signs. -/
theorem format_plain (plain : Plain format) :
    ∃ text, (∀ machine : Machine, machine.format format = some text) ∧
      text.length ≤ format.length ∧ (percent ∈ format → text.length < format.length) := by
  obtain ⟨text, length, rendered⟩ := render_literals (items none format) plain
  refine ⟨text, fun machine => rendered machine 0, ?_⟩
  rw [length]
  exact plain_length format plain

/-- Bytes that are copied are copied, on every machine and after any number of directives. -/
theorem render_map_literal (list : List Byte) :
    machine.render count (list.map .literal) = some list := by
  induction list with
  | nil => rfl
  | cons byte list inductionHypothesis =>
    rw [List.map_cons, Machine.render, inductionHypothesis, Option.map_some]

/-- A format without percent signs is its own text, on every machine. -/
theorem format_literal (absent : percent ∉ format) : machine.format format = some format := by
  rw [Machine.format, items_literal absent, render_map_literal]

/-- The text is at least as long as the field of any of the directives. -/
theorem render_wide (directive : Directive) (list : List Item) (asks : .directive directive ∈ list)
    (rendered : machine.render count list = some text) : directive.width ≤ text.length := by
  induction list generalizing count text with
  | nil => exact absurd asks List.not_mem_nil
  | cons item list inductionHypothesis =>
    cases item with
    | literal byte =>
      rw [Machine.render, Option.map_eq_some_iff] at rendered
      obtain ⟨rest, renderedRest, rfl⟩ := rendered
      have inside : .directive directive ∈ list := by simpa using asks
      exact (inductionHypothesis inside renderedRest).trans (Nat.le_succ _)
    | directive other =>
      simp only [Machine.render, Option.bind_eq_bind, Option.bind_eq_some_iff] at rendered
      obtain ⟨first, given, rest, renderedRest, same⟩ := rendered
      obtain rfl := Option.some.inj same
      rw [List.length_append]
      obtain own | inside := List.mem_cons.mp asks
      · obtain rfl := Item.directive.inj own
        have wide := machine.wide count directive first given
        omega
      · have wide := inductionHypothesis inside renderedRest
        omega

/-- A machine on which no directive without an argument comes to an end. What gives a text even
there is plain. -/
def silent : Machine where
  text _ _ := none
  wide := by simp

/-- Only plain formats give a text there, which is how plain formats can be recognised from
outside. -/
theorem silent_plain (formatted : silent.format format = some text) : Plain format := by
  have free (list : List Item) (count : Nat) (text : List Byte)
      (rendered : silent.render count list = some text) :
      ∀ directive, .directive directive ∉ list := by
    induction list generalizing count text with
    | nil => exact fun _ => List.not_mem_nil
    | cons item list inductionHypothesis =>
      cases item with
      | literal byte =>
        rw [Machine.render, Option.map_eq_some_iff] at rendered
        obtain ⟨rest, renderedRest, _⟩ := rendered
        intro directive member
        exact inductionHypothesis count rest renderedRest directive (by simpa using member)
      | directive directive => simp [Machine.render, silent] at rendered
  exact free _ 0 text formatted

/-- What `sprintf` does with a text that fits: it is stored with its NUL, and the rest of the
array stays. -/
theorem sprintf_some {out result : List Byte} (printed : machine.sprintf out format = some result) :
    ∃ text, machine.format format = some text ∧ text.length < out.length ∧
      result = text ++ 0 :: out.drop (text.length + 1) := by
  simp only [Machine.sprintf, Option.bind_eq_bind, Option.bind_eq_some_iff] at printed
  obtain ⟨text, formatted, room⟩ := printed
  split at room
  · next fits => exact ⟨text, formatted, fits, (Option.some.inj room).symm⟩
  · simp at room

/-- A text that fits is stored, with a NUL behind it. -/
theorem sprintf_fits {out : List Byte} (formatted : machine.format format = some text)
    (fits : text.length < out.length) :
    machine.sprintf out format = some (text ++ 0 :: out.drop (text.length + 1)) := by
  simp only [Machine.sprintf, formatted, Option.bind_eq_bind, Option.bind_some, if_pos fits]

end Texts

end Foundations.FormatString
