import Schnitzeljagd.Foundations.PerlText

/-!
# The conversions of `sscanf` and `printf`

`%d` and `%i` skip white space and read as many digits as there are behind a sign, the
latter in the base that the first digits announce. `%s` reads a word. A number is not
limited in size.
-/

namespace Foundations.Scanning

open Foundations.PerlText

/-- The value of a digit in bases up to sixteen; other bytes have none that is that small. -/
def digitValue (byte : BitVec 8) : Nat :=
  if isDigit byte then byte.toNat - 0x30
  else if 0x61 ≤ byte.toNat ∧ byte.toNat ≤ 0x66 then byte.toNat - 0x57
  else if 0x41 ≤ byte.toNat ∧ byte.toNat ≤ 0x46 then byte.toNat - 0x37
  else 16

/-- The number in front of a text, and what follows it. There is none without a digit. The number
is as long as its digits go. -/
def scanDigits (base : Nat) (text : Text) : Option (Nat × Text) :=
  let digits := text.takeWhile fun byte => digitValue byte < base
  if digits = [] then none
  else some (digits.foldl (fun value byte => base * value + digitValue byte) 0,
    text.drop digits.length)

/-- A number with a sign, behind white space, in any notation for numbers without one. -/
def scanSigned (scan : Text → Option (Nat × Text)) (text : Text) : Option (Int × Text) := do
  let (sign, unsigned) := takeSign (text.dropWhile isSpace)
  let (value, rest) ← scan unsigned
  some (sign * value, rest)

/-- `%d` of `scanf`: a decimal number, behind white space and with a sign. -/
def scanDecimal : Text → Option (Int × Text) := scanSigned (scanDigits 10)

/-- A number whose first digits tell its base, as in a program of C. -/
def scanAnyBase : Text → Option (Nat × Text)
  | first :: second :: rest =>
    if first ≠ 0x30 then scanDigits 10 (first :: second :: rest)
    else if second = 0x78 ∨ second = 0x58 then scanDigits 16 rest
    else scanDigits 8 (first :: second :: rest)
  | text => scanDigits 10 text

/-- `%i` of `scanf`, which takes numbers of bases eight, ten and sixteen. -/
def scanInteger : Text → Option (Int × Text) := scanSigned scanAnyBase

/-- A number in base sixteen, which may be marked as one. -/
def scanMarked : Text → Option (Nat × Text)
  | first :: second :: rest =>
    if first = 0x30 ∧ (second = 0x78 ∨ second = 0x58) then scanDigits 16 rest
    else scanDigits 16 (first :: second :: rest)
  | text => scanDigits 16 text

/-- `%x` of `scanf`, with or without the mark of the base, and with a sign as the standard has it.
-/
def scanHex : Text → Option (Int × Text) := scanSigned scanMarked

/-- `%s` of `scanf`: what is between white space. There is none at the end of the text. -/
def scanWord (text : Text) : Option (Text × Text) :=
  let behind := text.dropWhile isSpace
  let word := behind.takeWhile fun byte => !isSpace byte
  if word = [] then none else some (word, behind.drop word.length)

/-- `%d` and `%i` of `printf`, a sign only for negative numbers and no zeros in front. -/
def printInt (number : Int) : Text :=
  if number < 0 then 0x2d :: decimal number.natAbs else decimal number.toNat

/-- A digit as it is written in base sixteen. -/
def hexByte (digit : Nat) : BitVec 8 :=
  BitVec.ofNat 8 (if digit < 10 then 0x30 + digit else 0x57 + digit)

/-- `%x` of `printf`, in small letters and without leading zeros. -/
def printHex (number : Nat) : Text :=
  if number = 0 then [0x30]
  else ((Nat.digits 16 number).map hexByte).reverse

/-- What follows the bytes that are kept, said in two ways. -/
theorem drop_takeWhile (keep : BitVec 8 → Bool) (text : Text) :
    text.drop (text.takeWhile keep).length = text.dropWhile keep := by
  have split := List.takeWhile_append_dropWhile (p := keep) (l := text)
  calc text.drop (text.takeWhile keep).length
      = (text.takeWhile keep ++ text.dropWhile keep).drop (text.takeWhile keep).length := by
        rw [split]
    _ = text.dropWhile keep := List.drop_left

/-- Behind a word there is white space or nothing, since the word takes all that is no white
space. -/
theorem scanWord_behind {text word rest : Text} (scanned : scanWord text = some (word, rest)) :
    ∀ byte ∈ rest.head?, isSpace byte = true := by
  intro byte first
  simp only [scanWord, drop_takeWhile] at scanned
  split at scanned
  · contradiction
  · obtain ⟨-, rfl⟩ := Prod.mk.inj (Option.some.inj scanned)
    have refused := List.head?_dropWhile_not (fun byte => !isSpace byte) (text.dropWhile isSpace)
    rw [Option.mem_def.mp first] at refused
    simpa using refused

example : scanInteger (latin1 " -0x1fz") = some (-31, latin1 "z") := by decide

/-! ## Reading decimal text -/

/-- The digits of base ten are those of Perl and C, and no other byte has a value below ten. -/
theorem digitValue_decimal (byte : BitVec 8) : digitValue byte < 10 ↔ isDigit byte = true := by
  rw [digitValue]
  by_cases digit : isDigit byte = true
  · have bounds := digit
    simp only [isDigit, Bool.and_eq_true, decide_eq_true_eq] at bounds
    rw [if_pos digit]
    exact iff_of_true (by omega) digit
  · rw [if_neg digit]
    refine iff_of_false ?_ digit
    split_ifs <;> omega

/-- A printed number is read back, if no further digit follows. -/
theorem scanDigits_decimal (number : Nat) (rest : Text)
    (ends : ∀ byte ∈ rest.head?, isDigit byte = false) :
    scanDigits 10 (decimal number ++ rest) = some (number, rest) := by
  have digits := decimal_isDigit number
  have taken : (decimal number ++ rest).takeWhile (fun byte => digitValue byte < 10) =
      decimal number := by
    rw [List.takeWhile_append_of_pos fun byte member =>
      decide_eq_true ((digitValue_decimal byte).mpr (digits byte member))]
    cases rest with
    | nil => simp
    | cons byte rest =>
      have other : ¬ digitValue byte < 10 := by
        rw [digitValue_decimal, ends byte rfl]
        exact Bool.false_ne_true
      rw [List.takeWhile_cons_of_neg (by simpa using other), List.append_nil]
  have values : (decimal number).foldl (fun value byte => 10 * value + digitValue byte) 0 =
      digitsValue (decimal number) := by
    rw [digitsValue]
    apply List.foldl_ext
    intro value byte member
    rw [digitValue, if_pos (digits byte member)]
  rw [scanDigits]
  simp only [taken, decimal_nonempty, if_false, values, List.drop_left, digitsValue_ofDigits,
    decimal_value]

/-- A number other than zero is not written with a zero in front. -/
theorem decimal_head (number : Nat) (positive : number ≠ 0) :
    ∀ byte ∈ (decimal number).head?, byte ≠ 0x30 := by
  intro byte first zero
  have nonempty : Nat.digits 10 number ≠ [] := Nat.digits_ne_nil_iff_ne_zero.mpr positive
  have last := Nat.getLast_digit_ne_zero 10 positive
  have below : (Nat.digits 10 number).getLast nonempty < 10 :=
    Nat.digits_lt_base (by decide) (List.getLast_mem nonempty)
  rw [decimal, if_neg positive, List.head?_reverse, List.getLast?_map,
    List.getLast?_eq_some_getLast nonempty] at first
  obtain rfl := Option.some.inj first
  have value := congrArg BitVec.toNat zero
  have character : (0x30 : BitVec 8).toNat = 0x30 := rfl
  rw [BitVec.toNat_ofNat, character] at value
  omega

/-- A printed number is taken for decimal, since it does not begin with a zero unless it is zero.
-/
theorem scanAnyBase_decimal (number : Nat) :
    scanAnyBase (decimal number) = some (number, []) := by
  by_cases zero : number = 0
  · subst zero
    decide
  · have head := decimal_head number zero
    have digits := scanDigits_decimal number [] (by simp)
    rw [List.append_nil] at digits
    rw [← digits]
    rcases shape : decimal number with _ | ⟨byte, _ | ⟨second, later⟩⟩
    · rfl
    · rfl
    · rw [shape] at head
      rw [scanAnyBase, if_pos (head byte rfl)]

/-- Reading a number as it was printed, for any notation that reads what `decimal` writes. -/
theorem scanSigned_printInt (scan : Text → Option (Nat × Text)) (rest : Text)
    (scans : ∀ number, scan (decimal number ++ rest) = some (number, rest)) (number : Int) :
    scanSigned scan (printInt number ++ rest) = some (number, rest) := by
  have unsigned : takeSign ((printInt number ++ rest).dropWhile isSpace) =
      if number < 0 then (-1, decimal number.natAbs ++ rest)
      else (1, decimal number.toNat ++ rest) := by
    by_cases negative : number < 0
    · rw [printInt, if_pos negative, if_pos negative]
      rfl
    · obtain ⟨byte, later, shape⟩ := List.exists_cons_of_ne_nil (decimal_nonempty number.toNat)
      obtain ⟨real, notMinus, notPlus⟩ := isDigit_real byte
        (decimal_isDigit number.toNat byte (by rw [shape]; exact List.mem_cons_self))
      rw [printInt, if_neg negative, if_neg negative, shape, List.cons_append,
        List.dropWhile_cons_of_neg (by simp [real]), takeSign, if_neg notMinus, if_neg notPlus]
  rw [scanSigned, unsigned]
  by_cases negative : number < 0
  · simp only [negative, if_true, scans, Option.bind_eq_bind, Option.bind_some]
    congr 2
    omega
  · simp only [negative, if_false, scans, Option.bind_eq_bind, Option.bind_some]
    congr 2
    omega

/-- A printed number is read back where what follows it does not begin with a digit. -/
theorem scanDecimal_front (number : Int) (rest : Text)
    (ends : ∀ byte ∈ rest.head?, isDigit byte = false) :
    scanDecimal (printInt number ++ rest) = some (number, rest) :=
  scanSigned_printInt _ rest (fun number => scanDigits_decimal number rest ends) number

/-- Printing and scanning cancel out, for negative numbers as well. -/
theorem scanDecimal_printInt (number : Int) :
    scanDecimal (printInt number) = some (number, []) := by
  simpa using scanDecimal_front number [] (by simp)

/-- The same for the notation with a base, since no printed number looks as if it had another one.
-/
theorem scanInteger_printInt (number : Int) :
    scanInteger (printInt number) = some (number, []) := by
  have read := scanSigned_printInt scanAnyBase [] (by simpa using scanAnyBase_decimal) number
  rwa [List.append_nil] at read

/-- A printed number consists of digits and at most a minus sign. -/
theorem printInt_bytes (number : Int) :
    ∀ byte ∈ printInt number, isDigit byte = true ∨ byte = 0x2d := by
  intro byte member
  rw [printInt] at member
  split at member
  · rcases List.mem_cons.mp member with minus | digit
    · exact Or.inr minus
    · exact Or.inl (decimal_isDigit _ byte digit)
  · exact Or.inl (decimal_isDigit _ byte member)

/-! ## Reading hexadecimal text -/

/-- A digit that was written has its value, and cannot be taken for a sign, a mark or white space.
-/
theorem hexByte_value : ∀ digit < 16, digitValue (hexByte digit) = digit ∧
    isSpace (hexByte digit) = false ∧ hexByte digit ≠ 0x2d ∧ hexByte digit ≠ 0x2b ∧
    hexByte digit ≠ 0x78 ∧ hexByte digit ≠ 0x58 := by
  decide

/-- A number is printed as its digits, the highest first, and zero as one digit. -/
theorem printHex_digits (number : Nat) : ∃ digits : List Nat, (∀ digit ∈ digits, digit < 16) ∧
    digits ≠ [] ∧ Nat.ofDigits 16 digits = number ∧
    printHex number = (digits.map hexByte).reverse := by
  by_cases zero : number = 0
  · subst zero
    exact ⟨[0], by decide, by decide, rfl, rfl⟩
  · exact ⟨Nat.digits 16 number, fun digit member => Nat.digits_lt_base (by decide) member,
      Nat.digits_ne_nil_iff_ne_zero.mpr zero, Nat.ofDigits_digits 16 number, if_neg zero⟩

/-- Digits of base sixteen are read back, whatever number of them there is. -/
theorem scanDigits_hex (digits : List Nat) (small : ∀ digit ∈ digits, digit < 16)
    (nonempty : digits ≠ []) :
    scanDigits 16 (digits.map hexByte).reverse = some (Nat.ofDigits 16 digits, []) := by
  have taken : ((digits.map hexByte).reverse).takeWhile (fun byte => digitValue byte < 16) =
      (digits.map hexByte).reverse := by
    rw [List.takeWhile_eq_self_iff]
    intro byte member
    obtain ⟨digit, member', rfl⟩ := List.mem_map.mp (List.mem_reverse.mp member)
    rw [(hexByte_value digit (small digit member')).1]
    exact decide_eq_true (small digit member')
  have value : ((digits.map hexByte).reverse).foldl
      (fun value byte => 16 * value + digitValue byte) 0 = Nat.ofDigits 16 digits := by
    rw [List.foldl_reverse, List.foldr_map]
    clear nonempty taken
    induction digits with
    | nil => rfl
    | cons digit digits inductionHypothesis =>
      obtain ⟨here, later⟩ := List.forall_mem_cons.mp small
      rw [List.foldr_cons, inductionHypothesis later, Nat.ofDigits_cons, (hexByte_value digit here).1,
        Nat.add_comm]
  rw [scanDigits]
  simp only [taken, value, List.reverse_eq_nil_iff, List.map_eq_nil_iff, nonempty, if_false,
    List.drop_length]

/-- Nothing in a printed number would be skipped or taken for a mark. -/
theorem printHex_bytes (number : Nat) : ∀ byte ∈ printHex number,
    isSpace byte = false ∧ byte ≠ 0x2d ∧ byte ≠ 0x2b ∧ byte ≠ 0x78 ∧ byte ≠ 0x58 := by
  obtain ⟨digits, small, -, -, shape⟩ := printHex_digits number
  intro byte member
  rw [shape, List.mem_reverse] at member
  obtain ⟨digit, member', rfl⟩ := List.mem_map.mp member
  exact (hexByte_value digit (small digit member')).2

/-- A number below a power of sixteen has no more digits than that. -/
theorem printHex_length (number width : Nat) (positive : 0 < width) (below : number < 16 ^ width) :
    (printHex number).length ≤ width := by
  rw [printHex]
  by_cases zero : number = 0
  · rw [if_pos zero]
    exact positive
  · rw [if_neg zero, List.length_reverse, List.length_map]
    exact (Nat.digits_length_le_iff (by decide) number).mpr below

/-- Printing and scanning cancel out in base sixteen, too, with no sign and no mark. -/
theorem scanHex_printHex (number : Nat) : scanHex (printHex number) = some ((number : Int), []) := by
  obtain ⟨digits, small, nonempty, value, shape⟩ := printHex_digits number
  have scanned := scanDigits_hex digits small nonempty
  rw [value, ← shape] at scanned
  have bytes := printHex_bytes number
  have marked : scanMarked (printHex number) = scanDigits 16 (printHex number) := by
    rcases letters : printHex number with _ | ⟨first, _ | ⟨second, rest⟩⟩
    · rfl
    · rfl
    · obtain ⟨-, -, -, notX, notX'⟩ := bytes second (by simp [letters])
      exact if_neg fun both => both.2.elim notX notX'
  rw [scanHex, scanSigned]
  cases written : printHex number with
  | nil =>
    rw [written] at scanned
    contradiction
  | cons byte later =>
    rw [written] at bytes marked scanned
    obtain ⟨real, notMinus, notPlus, -⟩ := bytes byte List.mem_cons_self
    rw [List.dropWhile_cons_of_neg (by simp [real]), takeSign, if_neg notMinus, if_neg notPlus]
    simp only [marked, scanned, Option.bind_eq_bind, Option.bind_some, Int.one_mul]

end Foundations.Scanning
