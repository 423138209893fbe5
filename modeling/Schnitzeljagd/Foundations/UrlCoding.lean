import Schnitzeljagd.Foundations.PerlText

/-!
# Values in addresses of web pages

A value in the query of an address is encoded: letters, digits and three marks stand for
themselves, a space becomes a plus sign, and any other byte a percent sign with two digits.
An encoded value is decoded to what it was, and none of its bytes has a meaning of its own
in an address or in a page that contains it.

A query is a list of assignments `name=value` with ampersands between them.
-/

namespace Foundations.UrlCoding

open Foundations.PerlText

/-- The character that a plus sign stands for, a blank. -/
def space : BitVec 8 := 0x20

/-- `'+'`, which stands for a blank -/
def plus : BitVec 8 := 0x2b

/-- `'%'`, in front of the two digits of a byte -/
def percent : BitVec 8 := 0x25

/-- `'&'`, between two parameters -/
def ampersand : BitVec 8 := 0x26

/-- `'='`, between the name of a parameter and its value -/
def equals : BitVec 8 := 0x3d

/-- Letters, digits, and the marks minus, dot and underscore, which are sent as they are. -/
def isUnreserved (byte : BitVec 8) : Bool :=
  (0x30 ≤ byte.toNat && byte.toNat ≤ 0x39) || (0x41 ≤ byte.toNat && byte.toNat ≤ 0x5a) ||
    (0x61 ≤ byte.toNat && byte.toNat ≤ 0x7a) || byte = 0x2d || byte = 0x2e || byte = 0x5f

/-- The digits that `urlencode` writes, with capital letters for ten to fifteen. -/
def hexDigit (value : Nat) : BitVec 8 :=
  if value < 10 then BitVec.ofNat 8 (0x30 + value) else BitVec.ofNat 8 (0x37 + value)

/-- The value of a hexadecimal digit, whose letter may be of either case. -/
def hexValue (byte : BitVec 8) : Option Nat :=
  if 0x30 ≤ byte.toNat ∧ byte.toNat ≤ 0x39 then some (byte.toNat - 0x30)
  else if 0x41 ≤ byte.toNat ∧ byte.toNat ≤ 0x46 then some (byte.toNat - 0x37)
  else if 0x61 ≤ byte.toNat ∧ byte.toNat ≤ 0x66 then some (byte.toNat - 0x57)
  else none

/-- One byte of a value, as it is sent: as it is, as a plus sign, or as a percent sign and two
digits. -/
def encodeByte (byte : BitVec 8) : Text :=
  if byte = space then [plus]
  else if isUnreserved byte then [byte]
  else [percent, hexDigit (byte.toNat / 16), hexDigit (byte.toNat % 16)]

/-- `urlencode`, byte by byte. -/
def urlencode (text : Text) : Text := text.flatMap encodeByte

/-- `urldecode`, which never fails: a percent sign without two digits behind it stands for itself.
-/
def urldecode : Text → Text
  | [] => []
  | byte :: rest =>
    if byte = plus then space :: urldecode rest
    else if byte = percent then
      match rest with
      | first :: second :: behind =>
        match hexValue first, hexValue second with
        | some high, some low => BitVec.ofNat 8 (16 * high + low) :: urldecode behind
        | _, _ => byte :: urldecode (first :: second :: behind)
      | [digit] => byte :: urldecode [digit]
      | [] => [byte]
    else byte :: urldecode rest

/-- The names and values of a query, in its order, where a name is taken as it stands. An
empty part between ampersands is left out. -/
def queryVariables (query : Text) : List (Text × Text) :=
  ((query.splitOn ampersand).filter fun assignment => assignment ≠ []).map fun assignment =>
    (urldecode (assignment.takeWhile fun byte => byte ≠ equals),
      urldecode ((assignment.dropWhile fun byte => byte ≠ equals).drop 1))

/-! ## Encoded values -/

/-- A digit that was written is read as its value, one of the sixteen at a time. -/
theorem hexValue_hexDigit : ∀ value < 16, hexValue (hexDigit value) = some value := by decide

/-- Digits are among the bytes that are sent as they are, so that an encoded byte has a plus sign,
a percent sign or such bytes in it. -/
theorem isUnreserved_hexDigit : ∀ value < 16, isUnreserved (hexDigit value) = true := by decide

/-- The bytes of an encoded value are plus signs, percent signs and those that need no encoding.
-/
theorem encodeByte_bytes (byte : BitVec 8) :
    ∀ other ∈ encodeByte byte, other = plus ∨ other = percent ∨ isUnreserved other = true := by
  intro other member
  rw [encodeByte] at member
  split at member
  · exact Or.inl (List.mem_singleton.mp member)
  · next notSpace =>
    split at member
    · next unreserved =>
      obtain rfl := List.mem_singleton.mp member
      exact Or.inr (Or.inr unreserved)
    · have below : byte.toNat < 256 := byte.isLt
      simp only [List.mem_cons, List.not_mem_nil, or_false] at member
      obtain rfl | rfl | rfl := member
      · exact Or.inr (Or.inl rfl)
      · exact Or.inr (Or.inr (isUnreserved_hexDigit _ (by omega)))
      · exact Or.inr (Or.inr (isUnreserved_hexDigit _ (by omega)))

/-- No other byte is in an encoded value, in particular none that would end it in a query or in a
page. -/
theorem not_mem_urlencode (text : Text) (byte : BitVec 8)
    (other : byte ≠ plus ∧ byte ≠ percent ∧ isUnreserved byte = false) :
    byte ∉ urlencode text := by
  intro member
  obtain ⟨source, _, inside⟩ := List.mem_flatMap.mp member
  obtain same | same | unreserved := encodeByte_bytes source byte inside
  · exact other.1 same
  · exact other.2.1 same
  · rw [other.2.2] at unreserved
    cases unreserved

/-- A plus sign is decoded to a space, whatever stands behind it. -/
theorem urldecode_plus (rest : Text) : urldecode (plus :: rest) = space :: urldecode rest := by
  rw [urldecode.eq_def]
  rfl

/-- A byte that is neither sign stands for itself. -/
theorem urldecode_other (byte : BitVec 8) (rest : Text) (notPlus : byte ≠ plus)
    (notPercent : byte ≠ percent) : urldecode (byte :: rest) = byte :: urldecode rest := by
  rw [urldecode.eq_def]
  simp only [if_neg notPlus, if_neg notPercent]

/-- A percent sign with two digits is decoded to the byte that they name. -/
theorem urldecode_percent (high low : Nat) (rest : Text) (high_lt : high < 16) (low_lt : low < 16) :
    urldecode (percent :: hexDigit high :: hexDigit low :: rest) =
      BitVec.ofNat 8 (16 * high + low) :: urldecode rest := by
  rw [urldecode, if_neg (by decide), if_pos rfl]
  simp only [hexValue_hexDigit high high_lt, hexValue_hexDigit low low_lt]

/-- Decoding takes one encoded byte off the front, whatever follows. -/
theorem urldecode_encodeByte (byte : BitVec 8) (rest : Text) :
    urldecode (encodeByte byte ++ rest) = byte :: urldecode rest := by
  rw [encodeByte]
  by_cases isSpace : byte = space
  · rw [if_pos isSpace, List.singleton_append, urldecode_plus, isSpace]
  · rw [if_neg isSpace]
    by_cases unreserved : isUnreserved byte = true
    · rw [if_pos unreserved, List.singleton_append]
      apply urldecode_other
      · rintro rfl
        exact absurd unreserved (by decide)
      · rintro rfl
        exact absurd unreserved (by decide)
    · have below : byte.toNat < 256 := byte.isLt
      rw [if_neg unreserved]
      calc urldecode (percent :: hexDigit (byte.toNat / 16) :: hexDigit (byte.toNat % 16) :: rest)
          = BitVec.ofNat 8 (16 * (byte.toNat / 16) + byte.toNat % 16) :: urldecode rest :=
            urldecode_percent _ _ rest (by omega) (by omega)
        _ = byte :: urldecode rest := by
            rw [Nat.div_add_mod, BitVec.ofNat_toNat, BitVec.setWidth_eq]

/-- Decoding gives back what was encoded, by induction on the bytes. No byte needs to be excluded.
-/
theorem urldecode_urlencode (text : Text) : urldecode (urlencode text) = text := by
  induction text with
  | nil => rfl
  | cons byte rest inductionHypothesis =>
    rw [urlencode, List.flatMap_cons, urldecode_encodeByte, ← urlencode, inductionHypothesis]

/-- So different texts are encoded differently, and an encoded name leads to one file only. -/
theorem urlencode_injective : Function.Injective urlencode :=
  Function.LeftInverse.injective urldecode_urlencode

/-! ## Queries -/

/-- A query that is a single assignment has one variable, with the name and the value decoded. -/
theorem queryVariables_last (name value : Text) (noEquals : equals ∉ name)
    (oneAssignment : ampersand ∉ name ++ equals :: value) :
    queryVariables (name ++ equals :: value) = [(urldecode name, urldecode value)] := by
  rw [queryVariables, List.splitOn_eq_singleton oneAssignment, List.filter_cons_of_pos (by simp),
    List.filter_nil, List.map_singleton, takeWhile_until noEquals, dropWhile_until noEquals]
  rfl

/-- The part up to an ampersand is the first variable of a longer query. -/
theorem queryVariables_cons (name value rest : Text) (noEquals : equals ∉ name)
    (oneAssignment : ampersand ∉ name ++ equals :: value) :
    queryVariables (name ++ equals :: value ++ ampersand :: rest) =
      (urldecode name, urldecode value) :: queryVariables rest := by
  rw [queryVariables, List.splitOn_append_cons_self_of_not_mem oneAssignment,
    List.filter_cons_of_pos (by simp), List.map_cons, takeWhile_until noEquals,
    dropWhile_until noEquals]
  rfl

end Foundations.UrlCoding
