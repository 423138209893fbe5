import Mathlib.Data.List.DropRight
import Mathlib.Data.Nat.Digits.Lemmas
import Schnitzeljagd.Foundations.Binary64

/-!
# Perl byte strings

A string read from a socket or a file is a list of bytes. The operations are those
of Perl on such strings: `chomp` with the default record separator, the class `\s`,
`s/\s+$//`, `split /\s+/`, the number a string counts as, and the decimal text of a
whole number.

`split /\s+/` separates at every maximal run of white space. A string that begins
with white space has an empty first field, and empty fields at the end are removed,
so white space at the end of a string has no effect on its fields.
-/

namespace Foundations.PerlText

open Foundations.Binary64

/-- A byte string of Perl, as it comes from a socket or a file. -/
abbrev Text := List (BitVec 8)

/-- The bytes of a literal whose characters are all in Latin-1. The sources are written in this
encoding. -/
def latin1 (literal : String) : Text :=
  literal.toList.map fun character => BitVec.ofNat 8 character.toNat

/-- The byte that ends a line, both in files and on the wire. -/
def newline : BitVec 8 := 0x0a

/-- The class `\s`: tab, newline, vertical tab, form feed, carriage return, space. Bytes above
ASCII are not in it. -/
def isSpace (byte : BitVec 8) : Bool :=
  byte = 0x20 || (0x09 ≤ byte.toNat && byte.toNat ≤ 0x0d)

/-- `chomp` removes one newline at the end, and nothing else. A carriage return before it stays.
-/
def chomp (text : Text) : Text :=
  if text.getLast? = some newline then text.dropLast else text

/-- `lc` of a byte string, where only the letters of ASCII have a lower case. -/
def lc (text : Text) : Text :=
  text.map fun byte => if 0x41 ≤ byte.toNat ∧ byte.toNat ≤ 0x5a then byte + 0x20 else byte

/-- `s/\s+$//`, which removes all white space at the end, however long. -/
def stripTrailing (text : Text) : Text := text.rdropWhile isSpace

/-- Put a byte at the front of the first field, or make it the first field of all. -/
def extendFirst (byte : BitVec 8) : List Text → List Text
  | [] => [[byte]]
  | first :: rest => (byte :: first) :: rest

/-- All fields between maximal runs of white space, empty ones at the end included. -/
def allFields : Text → List Text
  | [] => [[]]
  | byte :: rest =>
    if isSpace byte then
      if rest.head?.any isSpace then allFields rest else [] :: allFields rest
    else extendFirst byte (allFields rest)

/-- `split /\s+/`, which drops empty fields at the end but keeps one at the beginning. -/
def split (text : Text) : List Text := (allFields text).rdropWhile fun field => field = []

/-! ## Numbers in strings -/

/-- The digits of ASCII, which are the only ones in a byte string. -/
def isDigit (byte : BitVec 8) : Bool := 0x30 ≤ byte.toNat && byte.toNat ≤ 0x39

/-- The whole number that a row of digits denotes, zero for an empty row. -/
def digitsValue (digits : Text) : Nat :=
  digits.foldl (fun value byte => 10 * value + (byte.toNat - 0x30)) 0

/-- A sign, if there is one, and what follows it. -/
def takeSign : Text → Int × Text
  | byte :: rest =>
    if byte = 0x2d then (-1, rest) else if byte = 0x2b then (1, rest) else (1, byte :: rest)
  | [] => (1, [])

/-- The fraction digits behind a decimal point, and what follows the number. -/
def takeFraction : Text → Text × Text
  | byte :: rest =>
    if byte = 0x2e then (rest.takeWhile isDigit, rest.dropWhile isDigit) else ([], byte :: rest)
  | [] => ([], [])

/-- The exponent that follows a number, zero if none does. An `e` without digits behind it counts
as none. -/
def exponent : Text → Int
  | byte :: rest =>
    if byte = 0x65 ∨ byte = 0x45 then
      (takeSign rest).1 * digitsValue ((takeSign rest).2.takeWhile isDigit)
    else 0
  | [] => 0

/-- A decimal mantissa moved by a power of ten, up or down. -/
def scale (mantissa power : Int) : Rat :=
  if 0 ≤ power then (mantissa * 10 ^ power.toNat : Int) else mkRat mantissa (10 ^ (-power).toNat)

/-- The exact number that the longest numeric beginning of a string denotes, zero if it has
none. The words for infinity and for not-a-number are taken for zero. -/
def literal (text : Text) : Rat :=
  let (sign, unsigned) := takeSign (text.dropWhile isSpace)
  let whole := unsigned.takeWhile isDigit
  let (fraction, rest) := takeFraction (unsigned.dropWhile isDigit)
  if whole = [] ∧ fraction = [] then 0
  else scale (sign * digitsValue (whole ++ fraction)) (exponent rest - fraction.length)

/-- The number a string counts as. A string that denotes a whole number counts as an integer,
any other as the nearest double. -/
def numify (text : Text) : Rat := scalar (literal text)

/-- `$x - $y` for numbers. The difference is exact if it is whole, as the difference of
integers is, and rounded to a double if it has a fraction. -/
def minus (number other : Rat) : Rat := scalar (number - other)

example : numify (latin1 " -12.5e1x") = -125 := by decide +kernel

example : numify (latin1 "3.0000000000000000001") = 3 := by decide +kernel

/-- The decimal text of a whole number, without leading zeros, as `print` has it. -/
def decimal (number : Nat) : Text :=
  if number = 0 then [0x30]
  else ((Nat.digits 10 number).map fun digit => BitVec.ofNat 8 (0x30 + digit)).reverse

/-- A pattern that excludes a byte takes everything before the first one. -/
theorem takeWhile_until {text : Text} {stop : BitVec 8} (absent : stop ∉ text) (rest : Text) :
    (text ++ stop :: rest).takeWhile (fun byte => decide (byte ≠ stop)) = text := by
  rw [List.takeWhile_append_of_pos, List.takeWhile_cons_of_neg, List.append_nil]
  · simp
  · intro byte member
    rw [decide_eq_true_eq]
    rintro rfl
    exact absent member

/-- What is left begins with that byte, so that the two parts and the byte make up the text. -/
theorem dropWhile_until {text : Text} {stop : BitVec 8} (absent : stop ∉ text) (rest : Text) :
    (text ++ stop :: rest).dropWhile (fun byte => decide (byte ≠ stop)) = stop :: rest := by
  rw [List.dropWhile_append_of_pos, List.dropWhile_cons_of_neg]
  · simp
  · intro byte member
    rw [decide_eq_true_eq]
    rintro rfl
    exact absent member

/-- The pieces between separators consist of bytes of the text. What no byte of the text is, no
byte of a piece is either. -/
theorem splitOnP_bytes (stops : BitVec 8 → Bool) (text : Text) :
    ∀ piece ∈ text.splitOnP stops, ∀ byte ∈ piece, byte ∈ text := by
  induction text with
  | nil => simp [List.splitOnP_nil]
  | cons first text inductionHypothesis =>
    intro piece member byte inside
    rw [List.splitOnP_cons_eq_if_modifyHead] at member
    split at member
    · rcases List.mem_cons.mp member with rfl | later
      · simp at inside
      · exact List.mem_cons_of_mem _ (inductionHypothesis piece later byte inside)
    · obtain ⟨head, others, split⟩ :=
        List.exists_cons_of_ne_nil (List.splitOnP_ne_nil stops text)
      rw [split] at inductionHypothesis member
      rw [List.modifyHead_cons] at member
      rcases List.mem_cons.mp member with rfl | later
      · rcases List.mem_cons.mp inside with rfl | behind
        · exact List.mem_cons_self
        · exact List.mem_cons_of_mem _ (inductionHypothesis head List.mem_cons_self byte behind)
      · exact List.mem_cons_of_mem _
          (inductionHypothesis piece (List.mem_cons_of_mem _ later) byte inside)

/-- A newline is white space, so whatever strips white space strips line ends. -/
theorem isSpace_newline : isSpace newline = true := by decide

/-- A line end is chomped, and what stands before it is left, newlines included. -/
theorem chomp_concat_newline (text : Text) : chomp (text ++ [newline]) = text := by
  simp [chomp]

/-- Nothing but a line end is chomped, and that only at the end. -/
theorem chomp_concat_other (text : Text) (byte : BitVec 8) (other : byte ≠ newline) :
    chomp (text ++ [byte]) = text ++ [byte] := by
  simp [chomp, other]

/-- `chomp` leaves the string or removes a newline from its end. -/
theorem chomp_cases (text : Text) : chomp text = text ∨ text = chomp text ++ [newline] := by
  induction text using List.reverseRecOn with
  | nil => exact Or.inl rfl
  | append_singleton text byte _ =>
    by_cases same : byte = newline
    · rw [same, chomp_concat_newline]
      exact Or.inr rfl
    · exact Or.inl (chomp_concat_other text byte same)

/-- What `s/\s+$//` removes is white space, and it was at the end. -/
theorem stripTrailing_append (text : Text) :
    ∃ spaces, text = stripTrailing text ++ spaces ∧ ∀ byte ∈ spaces, isSpace byte = true := by
  refine ⟨text.rtakeWhile isSpace, List.rdropWhile_append_rtakeWhile.symm, ?_⟩
  intro byte member
  exact List.mem_rtakeWhile_imp member

/-! ## White space at the end of a string -/

/-- White space before a further byte separates unless that byte is white space too. -/
theorem allFields_space (byte next : BitVec 8) (rest : Text) (space : isSpace byte = true) :
    allFields (byte :: next :: rest) =
      if isSpace next then allFields (next :: rest) else [] :: allFields (next :: rest) := by
  rw [allFields, if_pos space]
  rfl

/-- A byte that is not white space belongs to the field that follows it directly. -/
theorem allFields_other (byte : BitVec 8) (rest : Text) (other : ¬isSpace byte = true) :
    allFields (byte :: rest) = extendFirst byte (allFields rest) := by
  rw [allFields, if_neg other]

/-- There is always a first field, even if it is empty. This is why an empty text is no special
case in what follows. -/
theorem allFields_ne_nil (text : Text) : allFields text ≠ [] := by
  induction text with
  | nil => simp [allFields]
  | cons byte rest inductionHypothesis =>
    rw [allFields]
    split
    · split
      · exact inductionHypothesis
      · simp
    · cases allFields rest <;> simp [extendFirst]

/-- One more white space byte at the end adds at most an empty last field.

Inside the string the extra byte is seen only as the head of what follows, so both
strings take the same branch until the last run of white space. -/
theorem allFields_concat_space (text : Text) (byte : BitVec 8) (space : isSpace byte = true) :
    allFields (text ++ [byte]) = allFields text ∨
      allFields (text ++ [byte]) = allFields text ++ [[]] := by
  induction text with
  | nil => exact Or.inr (by simp [allFields, space])
  | cons first rest inductionHypothesis =>
    by_cases leading : isSpace first = true
    · cases rest with
      | nil => exact Or.inl (by simp [allFields, space, leading])
      | cons second rest =>
        simp only [List.cons_append] at inductionHypothesis ⊢
        rw [allFields_space first second _ leading, allFields_space first second _ leading]
        by_cases within : isSpace second = true
        · rw [if_pos within, if_pos within]
          exact inductionHypothesis
        · rw [if_neg within, if_neg within]
          rcases inductionHypothesis with same | more
          · exact Or.inl (by rw [same])
          · exact Or.inr (by rw [more, List.cons_append])
    · rw [List.cons_append, allFields_other first _ leading, allFields_other first _ leading]
      rcases inductionHypothesis with same | more
      · exact Or.inl (by rw [same])
      · rw [more]
        obtain ⟨field, fields, shape⟩ := List.exists_cons_of_ne_nil (allFields_ne_nil rest)
        exact Or.inr (by rw [shape]; rfl)

/-- One more white space byte at the end does not change the fields that are left. -/
theorem split_concat_space (text : Text) (byte : BitVec 8) (space : isSpace byte = true) :
    split (text ++ [byte]) = split text := by
  obtain same | more := allFields_concat_space text byte space
  · rw [split, same, split]
  · rw [split, more, List.rdropWhile_concat_pos _ _ _ (by simp), split]

/-- White space at the end does not change the fields. By induction on the white space, from its
last byte. -/
theorem split_append_spaces (text spaces : Text) (all : ∀ byte ∈ spaces, isSpace byte = true) :
    split (text ++ spaces) = split text := by
  induction spaces using List.reverseRecOn with
  | nil => rw [List.append_nil]
  | append_singleton spaces byte inductionHypothesis =>
    rw [← List.append_assoc, split_concat_space _ byte (all byte (by simp))]
    exact inductionHypothesis fun other member => all other (List.mem_append_left _ member)

/-- Whether the line end is chomped makes no difference to the fields. -/
theorem split_chomp (text : Text) : split (chomp text) = split text := by
  obtain same | longer := chomp_cases text
  · rw [same]
  · conv => rhs; rw [longer]
    exact (split_concat_space _ newline isSpace_newline).symm

/-- Nor does white space at the end that has been stripped before, so that a stripped text may be
split as it came. -/
theorem split_stripTrailing (text : Text) : split (stripTrailing text) = split text := by
  obtain ⟨spaces, whole, all⟩ := stripTrailing_append text
  conv => rhs; rw [whole]
  exact (split_append_spaces _ spaces all).symm

/-! ## Words -/

/-- Bytes that are not white space go to the front of the first field. -/
theorem allFields_append (word rest : Text) (real : ∀ byte ∈ word, isSpace byte = false) :
    allFields (word ++ rest) = word.foldr extendFirst (allFields rest) := by
  induction word with
  | nil => rfl
  | cons byte word inductionHypothesis =>
    have first : isSpace byte = false := real byte List.mem_cons_self
    rw [List.cons_append, allFields_other byte _ (by simp [first]), List.foldr_cons,
      inductionHypothesis]
    exact fun other member => real other (List.mem_cons_of_mem _ member)

/-- A word is put together from its bytes at the front of the first field. -/
theorem foldr_extendFirst (word : Text) (fields : List Text) :
    word.foldr extendFirst ([] :: fields) = word :: fields := by
  induction word with
  | nil => rfl
  | cons byte word inductionHypothesis => rw [List.foldr_cons, inductionHypothesis, extendFirst]

/-- A run of white space before another byte ends an empty field. -/
theorem allFields_gap (gap rest : Text) (byte : BitVec 8) (nonempty : gap ≠ [])
    (spaces : ∀ byte ∈ gap, isSpace byte = true) (real : isSpace byte = false) :
    allFields (gap ++ byte :: rest) = [] :: allFields (byte :: rest) := by
  induction gap with
  | nil => exact absurd rfl nonempty
  | cons first gap inductionHypothesis =>
    have leading : isSpace first = true := spaces first List.mem_cons_self
    cases gap with
    | nil =>
      rw [List.singleton_append, allFields_space first byte rest leading, if_neg (by simp [real])]
    | cons second gap =>
      have next : isSpace second = true := spaces second (by simp)
      rw [List.cons_append, List.cons_append, allFields_space first second _ leading, if_pos next]
      exact inductionHypothesis (by simp) fun other member =>
        spaces other (List.mem_cons_of_mem _ member)

/-- Two words with white space between and behind them are the two fields. -/
theorem split_two_words (word word' gap tail : Text) (nonempty : word' ≠ []) (apart : gap ≠ [])
    (real : ∀ byte ∈ word, isSpace byte = false)
    (real' : ∀ byte ∈ word', isSpace byte = false) (spaces : ∀ byte ∈ gap, isSpace byte = true)
    (spaces' : ∀ byte ∈ tail, isSpace byte = true) :
    split (word ++ gap ++ word' ++ tail) = [word, word'] := by
  have second : allFields word' = [word'] := by
    have fields := allFields_append word' [] real'
    rwa [List.append_nil, allFields, foldr_extendFirst] at fields
  have both : allFields (word ++ (gap ++ word')) = [word, word'] := by
    obtain ⟨byte, rest, rfl⟩ := List.exists_cons_of_ne_nil nonempty
    rw [allFields_append word _ real,
      allFields_gap gap rest byte apart spaces (real' byte List.mem_cons_self), second,
      foldr_extendFirst]
  rw [split_append_spaces _ tail spaces', List.append_assoc, split, both]
  simp [nonempty]

/-! ## Decimal text -/

/-- Reading the digits back gives the number, lowest digit first. -/
theorem decimal_value (number : Nat) :
    Nat.ofDigits 10 ((decimal number).reverse.map fun byte => byte.toNat - 0x30) = number := by
  by_cases zero : number = 0
  · subst zero
    decide
  · have digits : (Nat.digits 10 number).map
        ((fun byte => byte.toNat - 0x30) ∘ fun digit => BitVec.ofNat 8 (0x30 + digit)) =
          Nat.digits 10 number := by
      refine (List.map_congr_left fun digit member => ?_).trans (List.map_id _)
      have below : digit < 10 := Nat.digits_lt_base (by decide) member
      simp only [Function.comp_apply, BitVec.toNat_ofNat, id_eq]
      omega
    rw [decimal, if_neg zero, List.reverse_reverse, List.map_map, digits, Nat.ofDigits_digits]

/-- Different numbers have different decimal texts, since the number can be read back. -/
theorem decimal_injective : Function.Injective decimal := by
  intro left right same
  rw [← decimal_value left, same, decimal_value]

/-- Every number has at least one digit, zero included. -/
theorem decimal_nonempty (number : Nat) : decimal number ≠ [] := by
  rw [decimal]
  by_cases zero : number = 0
  · simp [zero]
  · rw [if_neg zero]
    simpa using Nat.digits_ne_nil_iff_ne_zero.mpr zero

/-- A printed number is made of digits alone, with no sign and no point. -/
theorem decimal_isDigit (number : Nat) : ∀ byte ∈ decimal number, isDigit byte = true := by
  intro byte member
  rw [decimal] at member
  by_cases zero : number = 0
  · rw [if_pos zero, List.mem_singleton] at member
    subst member
    decide
  · rw [if_neg zero, List.mem_reverse] at member
    obtain ⟨digit, inside, rfl⟩ := List.mem_map.mp member
    have below : digit < 10 := Nat.digits_lt_base (by decide) inside
    simp only [isDigit, BitVec.toNat_ofNat, Bool.and_eq_true, decide_eq_true_eq]
    omega

/-- A number below a power of ten has no more digits than that power has zeros. -/
theorem decimal_length (number width : Nat) (positive : 0 < width) (below : number < 10 ^ width) :
    (decimal number).length ≤ width := by
  rw [decimal]
  by_cases zero : number = 0
  · rw [if_pos zero]
    exact positive
  · rw [if_neg zero, List.length_reverse, List.length_map]
    exact (Nat.digits_length_le_iff (by decide) number).mpr below

/-- A digit is neither white space nor a sign, so that a number cannot end or begin with one by
mistake. -/
theorem isDigit_real (byte : BitVec 8) (digit : isDigit byte = true) :
    isSpace byte = false ∧ byte ≠ 0x2d ∧ byte ≠ 0x2b := by
  simp only [isDigit, Bool.and_eq_true, decide_eq_true_eq] at digit
  refine ⟨?_, ?_, ?_⟩
  · simp only [isSpace, Bool.or_eq_false_iff, decide_eq_false_iff_not, Bool.and_eq_false_iff]
    refine ⟨?_, by omega⟩
    rintro rfl
    simp at digit
  · rintro rfl
    simp at digit
  · rintro rfl
    simp at digit

/-- The value of a row of digits as the library on digits has it, lowest digit first. -/
theorem digitsValue_ofDigits (digits : Text) :
    digitsValue digits = Nat.ofDigits 10 (digits.reverse.map fun byte => byte.toNat - 0x30) := by
  rw [digitsValue]
  induction digits using List.reverseRecOn with
  | nil => rfl
  | append_singleton digits byte inductionHypothesis =>
    rw [List.foldl_append, inductionHypothesis, List.reverse_append, List.foldl_cons, List.foldl_nil,
      List.reverse_singleton, List.singleton_append, List.map_cons, Nat.ofDigits_cons]
    exact Nat.add_comm _ _

/-- The decimal text of a number denotes that number: it has no sign, all its bytes are
digits, and nothing is left over for a fraction or an exponent. -/
theorem literal_decimal (number : Nat) : literal (decimal number) = number := by
  have digits := decimal_isDigit number
  obtain ⟨byte, rest, shape⟩ := List.exists_cons_of_ne_nil (decimal_nonempty number)
  obtain ⟨real, notMinus, notPlus⟩ :=
    isDigit_real byte (digits byte (by rw [shape]; exact List.mem_cons_self))
  have unsigned : takeSign ((decimal number).dropWhile isSpace) = (1, decimal number) := by
    rw [shape, List.dropWhile_cons_of_neg (by simp [real]), takeSign, if_neg notMinus, if_neg notPlus]
  have whole : (decimal number).takeWhile isDigit = decimal number :=
    List.takeWhile_eq_self_iff.mpr digits
  have nothing : (decimal number).dropWhile isDigit = [] := List.dropWhile_eq_nil_iff.mpr digits
  rw [literal, unsigned]
  simp only [whole, nothing, takeFraction, List.append_nil, decimal_nonempty, false_and, if_false,
    exponent, List.length_nil, digitsValue_ofDigits, decimal_value]
  simp [scale]

/-- The decimal text of a number counts as that number. Being whole it is not rounded. -/
theorem numify_decimal (number : Nat) : numify (decimal number) = number := by
  rw [numify, literal_decimal, scalar_natCast]

end Foundations.PerlText
