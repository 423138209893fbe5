import Schnitzeljagd.Foundations.PerlText
import Mathlib.Data.List.GetD

/-!
# Base64 with line ends

`encode_base64` of MIME::Base64: three bytes give four symbols, an incomplete last
group is padded, a newline ends every line of 76 symbols and the last line. Leaving
out the newlines gives plain base64, which determines the bytes it encodes; so does
the encoding with a last newline removed.
-/

namespace Foundations.Base64

open Foundations.PerlText

/-- The sixty-four symbols in the order of the numbers that they stand for. -/
def alphabet : Text :=
  latin1 "ABCDEFGHIJKLMNOPQRSTUVWXYZabcdefghijklmnopqrstuvwxyz0123456789+/"

/-- The symbol of a six-bit number. Larger numbers do not occur and stand for no symbol. -/
def symbol (sextet : Nat) : BitVec 8 := alphabet.getD sextet 0

/-- The sign `=`, which fills an incomplete last group. -/
def padding : BitVec 8 := 0x3d

/-- The four six-bit digits of three bytes, highest first. -/
def sextets (first second third : BitVec 8) : Nat × Nat × Nat × Nat :=
  let word := first.toNat * 65536 + second.toNat * 256 + third.toNat
  (word / 262144, word / 4096 % 64, word / 64 % 64, word % 64)

/-- Three bytes as four symbols: a complete group. -/
def group3 (first second third : BitVec 8) : Text :=
  let (one, two, three, four) := sextets first second third
  [symbol one, symbol two, symbol three, symbol four]

/-- Two bytes at the end: three symbols, whose last one carries only four bits, and one sign of
padding. -/
def group2 (first second : BitVec 8) : Text :=
  let (one, two, three, _) := sextets first second 0
  [symbol one, symbol two, symbol three, padding]

/-- A single byte at the end: two symbols, whose second one carries only two bits, and two signs
of padding. -/
def group1 (first : BitVec 8) : Text :=
  let (one, two, _, _) := sextets first 0 0
  [symbol one, symbol two, padding, padding]

/-- Base64 without line ends, group by group. -/
def plain : Text → Text
  | first :: second :: third :: rest => group3 first second third ++ plain rest
  | [first, second] => group2 first second
  | [first] => group1 first
  | [] => []

/-- The encoding from the group that is number `column` of its line. Nineteen groups fill a line,
and the last line ends with a newline however short it is. -/
def encodeFrom (column : Nat) : Text → Text
  | first :: second :: third :: rest =>
    group3 first second third ++
      (if column = 18 ∨ rest = [] then [newline] else []) ++
        encodeFrom (if column = 18 then 0 else column + 1) rest
  | [first, second] => group2 first second ++ [newline]
  | [first] => group1 first ++ [newline]
  | [] => []

/-- `encode_base64($text)`, the function of `MIME::Base64` with its default line end. -/
def encodeBase64 (text : Text) : Text := encodeFrom 0 text

/-- A string without its newlines. It undoes what distinguishes the encoding from plain base64. -/
def withoutNewlines (text : Text) : Text := text.filter fun byte => byte ≠ newline

/-! ## The alphabet -/

/-- The codes of the letters, digits and the two marks, as numbers, so that the kernel can go
through them. -/
def codes : List Nat :=
  List.range' 0x41 26 ++ List.range' 0x61 26 ++ List.range' 0x30 10 ++ [0x2b, 0x2f]

/-- The alphabet, byte by byte. -/
theorem alphabet_codes : alphabet = codes.map (BitVec.ofNat 8) := by decide +kernel

/-- Every six-bit number has a symbol. -/
theorem alphabet_length : alphabet.length = 64 := by
  rw [alphabet_codes, List.length_map]
  rfl

/-- No code is in the alphabet twice. -/
theorem codes_nodup : codes.Nodup := by decide +kernel

/-- All codes are bytes, so that turning them into bytes loses nothing. -/
theorem codes_lt : ∀ code ∈ codes, code < 256 := by decide +kernel

/-- No symbol is the padding sign or white space. -/
theorem codes_real : ∀ code ∈ codes,
    BitVec.ofNat 8 code ≠ padding ∧ isSpace (BitVec.ofNat 8 code) = false := by
  decide +kernel

/-- The symbols differ, since their codes do. -/
theorem alphabet_nodup : alphabet.Nodup := by
  rw [alphabet_codes]
  apply codes_nodup.map_on
  intro left leftMember right rightMember same
  have leftBelow : left < 256 := codes_lt left leftMember
  have rightBelow : right < 256 := codes_lt right rightMember
  have values := congrArg BitVec.toNat same
  simp only [BitVec.toNat_ofNat] at values
  omega

/-- What stands for a six-bit number is one of the codes, so facts about all codes carry over to
symbols. -/
theorem symbol_mem (sextet : Nat) (below : sextet < 64) :
    ∃ code ∈ codes, symbol sextet = BitVec.ofNat 8 code := by
  have inside : sextet < alphabet.length := alphabet_length ▸ below
  have member : symbol sextet ∈ alphabet := by
    rw [symbol, List.getD_eq_getElem _ _ inside]
    exact List.getElem_mem inside
  rw [alphabet_codes] at member
  obtain ⟨code, isCode, same⟩ := List.mem_map.mp member
  exact ⟨code, isCode, same.symm⟩

/-- A symbol can be taken neither for padding nor for white space. -/
theorem symbol_real (sextet : Nat) (below : sextet < 64) :
    symbol sextet ≠ padding ∧ isSpace (symbol sextet) = false := by
  obtain ⟨code, isCode, same⟩ := symbol_mem sextet below
  rw [same]
  exact codes_real code isCode

/-- A symbol stands for one number only. -/
theorem symbol_injective (left : Nat) (leftBelow : left < 64) (right : Nat)
    (rightBelow : right < 64) (same : symbol left = symbol right) : left = right := by
  have leftInside : left < alphabet.length := alphabet_length ▸ leftBelow
  have rightInside : right < alphabet.length := alphabet_length ▸ rightBelow
  exact (List.getD_inj leftInside rightInside alphabet_nodup).mp same

/-! ## Groups and lines -/

/-- The digits of bytes are six-bit numbers. -/
theorem sextets_lt (first second third : BitVec 8) :
    (sextets first second third).1 < 64 ∧ (sextets first second third).2.1 < 64 ∧
      (sextets first second third).2.2.1 < 64 ∧ (sextets first second third).2.2.2 < 64 := by
  have one := first.isLt
  have two := second.isLt
  have three := third.isLt
  simp only [sextets]
  omega

/-- The digits determine the bytes: each byte is put together from two neighbouring digits. -/
theorem sextets_injective (first second third first' second' third' : BitVec 8)
    (same : sextets first second third = sextets first' second' third') :
    first = first' ∧ second = second' ∧ third = third' := by
  have one := first.isLt
  have two := second.isLt
  have three := third.isLt
  have one' := first'.isLt
  have two' := second'.isLt
  have three' := third'.isLt
  simp only [sextets, Prod.mk.injEq] at same
  refine ⟨BitVec.eq_of_toNat_eq ?_, BitVec.eq_of_toNat_eq ?_, BitVec.eq_of_toNat_eq ?_⟩ <;> omega

/-- Newlines are taken out piece by piece. -/
theorem withoutNewlines_append (left right : Text) :
    withoutNewlines (left ++ right) = withoutNewlines left ++ withoutNewlines right :=
  List.filter_append left right

/-- A text without newlines stays as it is. -/
theorem withoutNewlines_self (text : Text) (real : ∀ byte ∈ text, byte ≠ newline) :
    withoutNewlines text = text :=
  List.filter_eq_self.mpr fun byte member => decide_eq_true (real byte member)

/-- The bytes that an encoding is made of: the sixty-four symbols and the padding. -/
def IsSymbol (byte : BitVec 8) : Prop := byte = padding ∨ ∃ sextet < 64, byte = symbol sextet

/-- White space never comes from a group, only from the ends of lines. -/
theorem IsSymbol.notSpace {byte : BitVec 8} (isSymbol : IsSymbol byte) : isSpace byte = false := by
  rcases isSymbol with rfl | ⟨sextet, below, rfl⟩
  · decide
  · exact (symbol_real sextet below).2

/-- In particular a group brings no newline. -/
theorem IsSymbol.notNewline {byte : BitVec 8} (isSymbol : IsSymbol byte) : byte ≠ newline := by
  rintro rfl
  exact absurd isSymbol.notSpace (by decide)

/-- A complete group is made of symbols. -/
theorem group3_isSymbol (first second third : BitVec 8) :
    ∀ byte ∈ group3 first second third, IsSymbol byte := by
  obtain ⟨one, two, three, four⟩ := sextets_lt first second third
  intro byte member
  simp only [group3, List.mem_cons, List.not_mem_nil, or_false] at member
  rcases member with rfl | rfl | rfl | rfl
  · exact Or.inr ⟨_, one, rfl⟩
  · exact Or.inr ⟨_, two, rfl⟩
  · exact Or.inr ⟨_, three, rfl⟩
  · exact Or.inr ⟨_, four, rfl⟩

/-- A group of two bytes is made of symbols and padding. -/
theorem group2_isSymbol (first second : BitVec 8) :
    ∀ byte ∈ group2 first second, IsSymbol byte := by
  obtain ⟨one, two, three, _⟩ := sextets_lt first second 0
  intro byte member
  simp only [group2, List.mem_cons, List.not_mem_nil, or_false] at member
  rcases member with rfl | rfl | rfl | rfl
  · exact Or.inr ⟨_, one, rfl⟩
  · exact Or.inr ⟨_, two, rfl⟩
  · exact Or.inr ⟨_, three, rfl⟩
  · exact Or.inl rfl

/-- A group of one byte is made of symbols and padding. -/
theorem group1_isSymbol (first : BitVec 8) : ∀ byte ∈ group1 first, IsSymbol byte := by
  obtain ⟨one, two, _, _⟩ := sextets_lt first 0 0
  intro byte member
  simp only [group1, List.mem_cons, List.not_mem_nil, or_false] at member
  rcases member with rfl | rfl | rfl | rfl
  · exact Or.inr ⟨_, one, rfl⟩
  · exact Or.inr ⟨_, two, rfl⟩
  · exact Or.inl rfl
  · exact Or.inl rfl

/-- Taking the newlines out leaves groups alone. -/
theorem withoutNewlines_symbols (text : Text) (symbols : ∀ byte ∈ text, IsSymbol byte) :
    withoutNewlines text = text :=
  withoutNewlines_self text fun byte member => (symbols byte member).notNewline

/-- The line ends are the only difference to plain base64. By induction over the groups, for any
column to start from. -/
theorem withoutNewlines_encodeFrom (column : Nat) (text : Text) :
    withoutNewlines (encodeFrom column text) = plain text := by
  induction column, text using encodeFrom.induct with
  | case1 column first second third rest inductionHypothesis =>
    rw [encodeFrom, plain, withoutNewlines_append, withoutNewlines_append,
      withoutNewlines_symbols _ (group3_isSymbol _ _ _), inductionHypothesis]
    by_cases ends : column = 18 ∨ rest = [] <;> simp [ends, withoutNewlines]
  | case2 column first second =>
    rw [encodeFrom, plain, withoutNewlines_append,
      withoutNewlines_symbols _ (group2_isSymbol _ _)]
    simp [withoutNewlines]
  | case3 column first =>
    rw [encodeFrom, plain, withoutNewlines_append,
      withoutNewlines_symbols _ (group1_isSymbol _)]
    simp [withoutNewlines]
  | case4 column => rfl

/-- Chomping takes at most a newline away, so it does not matter once all are taken out. -/
theorem withoutNewlines_chomp (text : Text) :
    withoutNewlines (chomp text) = withoutNewlines text := by
  obtain same | longer := chomp_cases text
  · rw [same]
  · conv => rhs; rw [longer, withoutNewlines_append]
    simp [withoutNewlines]

/-! ## The encoded bytes are determined -/

/-- Equal complete groups come from equal bytes. -/
theorem group3_injective (first second third first' second' third' : BitVec 8)
    (same : group3 first second third = group3 first' second' third') :
    first = first' ∧ second = second' ∧ third = third' := by
  obtain ⟨one, two, three, four⟩ := sextets_lt first second third
  obtain ⟨one', two', three', four'⟩ := sextets_lt first' second' third'
  simp only [group3, List.cons.injEq, and_true] at same
  obtain ⟨sameOne, sameTwo, sameThree, sameFour⟩ := same
  refine sextets_injective _ _ _ _ _ _ (Prod.ext ?_ (Prod.ext ?_ (Prod.ext ?_ ?_)))
  · exact symbol_injective _ one _ one' sameOne
  · exact symbol_injective _ two _ two' sameTwo
  · exact symbol_injective _ three _ three' sameThree
  · exact symbol_injective _ four _ four' sameFour

/-- The byte that fills up an incomplete group. -/
theorem zero_toNat : (0 : BitVec 8).toNat = 0 := rfl

/-- An incomplete group is a complete one with its last symbol replaced by padding,
so the two never agree, and equal incomplete groups have equal bytes. -/
theorem group2_injective (first second first' second' : BitVec 8)
    (same : group2 first second = group2 first' second') : first = first' ∧ second = second' := by
  obtain ⟨one, two, three, _⟩ := sextets_lt first second 0
  obtain ⟨one', two', three', _⟩ := sextets_lt first' second' 0
  simp only [group2, List.cons.injEq, and_true] at same
  obtain ⟨sameOne, sameTwo, sameThree⟩ := same
  have last : (sextets first second 0).2.2.2 = (sextets first' second' 0).2.2.2 := by
    simp only [sextets, zero_toNat]
    omega
  obtain ⟨firstSame, secondSame, _⟩ := sextets_injective first second 0 first' second' 0
    (Prod.ext (symbol_injective _ one _ one' sameOne) (Prod.ext
      (symbol_injective _ two _ two' sameTwo)
      (Prod.ext (symbol_injective _ three _ three' sameThree) last)))
  exact ⟨firstSame, secondSame⟩

/-- The same for a single byte. -/
theorem group1_injective (first first' : BitVec 8) (same : group1 first = group1 first') :
    first = first' := by
  obtain ⟨one, two, _, _⟩ := sextets_lt first 0 0
  obtain ⟨one', two', _, _⟩ := sextets_lt first' 0 0
  simp only [group1, List.cons.injEq, and_true] at same
  obtain ⟨sameOne, sameTwo⟩ := same
  have third : (sextets first 0 0).2.2 = (sextets first' 0 0).2.2 := by
    simp only [sextets, zero_toNat, Prod.mk.injEq]
    omega
  exact (sextets_injective first 0 0 first' 0 0 (Prod.ext (symbol_injective _ one _ one' sameOne)
    (Prod.ext (symbol_injective _ two _ two' sameTwo) third))).1

/-- A group has four symbols, whatever it stands for. -/
theorem group3_length (first second third : BitVec 8) :
    (group3 first second third).length = 4 := by
  simp [group3]

/-- The last symbol of a complete group is no padding. -/
theorem group3_last (first second third : BitVec 8) :
    (group3 first second third)[3]? ≠ some padding := by
  obtain ⟨_, _, _, four⟩ := sextets_lt first second third
  simpa [group3] using (symbol_real _ four).1

/-- The third symbol of a group of two bytes is no padding, unlike that of a group of one. -/
theorem group2_third (first second : BitVec 8) : (group2 first second)[2]? ≠ some padding := by
  obtain ⟨_, _, three, _⟩ := sextets_lt first second 0
  simpa [group2] using (symbol_real _ three).1

/-- Groups of different sizes differ where only one of them has padding. -/
theorem group3_ne_group2 (first second third first' second' : BitVec 8) (rest : Text) :
    group3 first second third ++ rest ≠ group2 first' second' := by
  intro same
  have fourth := congrArg (fun text => text[3]?) same
  exact group3_last first second third fourth

/-- The same for a single byte against three, which differ in the last place. -/
theorem group3_ne_group1 (first second third first' : BitVec 8) (rest : Text) :
    group3 first second third ++ rest ≠ group1 first' := by
  intro same
  have fourth := congrArg (fun text => text[3]?) same
  exact group3_last first second third fourth

/-- Two incomplete groups of different sizes differ in the third place. -/
theorem group2_ne_group1 (first second first' : BitVec 8) :
    group2 first second ≠ group1 first' := by
  intro same
  have third := congrArg (fun text => text[2]?) same
  exact group2_third first second third

/-- Plain base64 determines the bytes.

Induction over the complete groups of one text. Where the other text has a group of
another size, a symbol of one encoding stands where the other has padding. -/
theorem plain_injective : Function.Injective plain := by
  intro left
  induction left using plain.induct with
  | case1 first second third rest inductionHypothesis =>
    intro right same
    match right with
    | first' :: second' :: third' :: rest' =>
      rw [plain, plain] at same
      obtain ⟨groups, tails⟩ := List.append_inj same (by rw [group3_length, group3_length])
      obtain ⟨rfl, rfl, rfl⟩ := group3_injective _ _ _ _ _ _ groups
      rw [inductionHypothesis tails]
    | [first', second'] => exact absurd same (group3_ne_group2 _ _ _ _ _ _)
    | [first'] => exact absurd same (group3_ne_group1 _ _ _ _ _)
    | [] => exact absurd same (List.cons_ne_nil _ _)
  | case2 first second =>
    intro right same
    match right with
    | first' :: second' :: third' :: rest' =>
      exact absurd same.symm (group3_ne_group2 _ _ _ _ _ _)
    | [first', second'] =>
      rw [plain, plain] at same
      obtain ⟨rfl, rfl⟩ := group2_injective _ _ _ _ same
      rfl
    | [first'] => exact absurd same (group2_ne_group1 _ _ _)
    | [] => exact absurd same (List.cons_ne_nil _ _)
  | case3 first =>
    intro right same
    match right with
    | first' :: second' :: third' :: rest' =>
      exact absurd same.symm (group3_ne_group1 _ _ _ _ _)
    | [first', second'] => exact absurd same.symm (group2_ne_group1 _ _ _)
    | [first'] =>
      rw [plain, plain] at same
      rw [group1_injective _ _ same]
    | [] => exact absurd same (List.cons_ne_nil _ _)
  | case4 =>
    intro right same
    match right with
    | first' :: second' :: third' :: rest' => exact absurd same (List.cons_ne_nil _ _).symm
    | [first', second'] => exact absurd same (List.cons_ne_nil _ _).symm
    | [first'] => exact absurd same (List.cons_ne_nil _ _).symm
    | [] => rfl

/-- The chomped encoding determines the bytes, whatever their number of lines. Taking out the
newlines that are left gives plain base64, and that is injective. -/
theorem chomp_encodeBase64_injective :
    Function.Injective fun text => chomp (encodeBase64 text) := by
  intro left right same
  have filtered := congrArg withoutNewlines same
  simp only [withoutNewlines_chomp, encodeBase64, withoutNewlines_encodeFrom] at filtered
  exact plain_injective filtered

/-! ## Encodings of one line -/

/-- Plain base64 has nothing in it but symbols and padding. -/
theorem plain_isSymbol (text : Text) : ∀ byte ∈ plain text, IsSymbol byte := by
  induction text using plain.induct with
  | case1 first second third rest inductionHypothesis =>
    intro byte member
    obtain inGroup | later := List.mem_append.mp member
    · exact group3_isSymbol first second third byte inGroup
    · exact inductionHypothesis byte later
  | case2 first second => exact group2_isSymbol first second
  | case3 first => exact group1_isSymbol first
  | case4 => exact List.forall_mem_nil _

/-- There is no white space in plain base64. -/
theorem plain_notSpace (text : Text) : ∀ byte ∈ plain text, isSpace byte = false :=
  fun byte member => (plain_isSymbol text byte member).notSpace

/-- Something is encoded as something. -/
theorem plain_nonempty (text : Text) (nonempty : text ≠ []) : plain text ≠ [] := by
  match text with
  | [] => exact absurd rfl nonempty
  | [first] => simp [plain, group1]
  | [first, second] => simp [plain, group2]
  | first :: second :: third :: rest => simp [plain, group3]

/-- A text that fits into the rest of a line is followed by one newline. The induction is over its
groups, with the column as it moves on. -/
theorem encodeFrom_line (column : Nat) (text : Text) (nonempty : text ≠ [])
    (fits : 3 * column + text.length ≤ 57) :
    encodeFrom column text = plain text ++ [newline] := by
  induction column, text using encodeFrom.induct with
  | case1 column first second third rest inductionHypothesis =>
    simp only [List.length_cons] at fits
    rw [encodeFrom, plain]
    by_cases last : rest = []
    · subst last
      simp [encodeFrom, plain]
    · have room : column ≠ 18 := by
        have further : 0 < rest.length := List.length_pos_iff.mpr last
        omega
      rw [if_neg (by simp [room, last]), if_neg room, List.append_nil, List.append_assoc]
      rw [if_neg room] at inductionHypothesis
      rw [inductionHypothesis last (by omega)]
  | case2 column first second => rfl
  | case3 column first => rfl
  | case4 column => exact absurd rfl nonempty

/-- Up to 57 bytes the chomped encoding is plain base64, since then there is a single line whose
newline is chomped. -/
theorem chomp_encodeBase64_line (text : Text) (nonempty : text ≠ []) (short : text.length ≤ 57) :
    chomp (encodeBase64 text) = plain text := by
  rw [encodeBase64, encodeFrom_line 0 text nonempty (by omega), chomp_concat_newline]

end Foundations.Base64
