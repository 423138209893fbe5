import Mathlib.Data.List.TakeWhile
import Schnitzeljagd.News.AccessRules

/-!
# What a text of access rules says

A rule allows or denies the connections from one address, or from those with a number of a
range in one place, and sets some variables. Every text that `tcprules` compiles consists of
rules, remarks and lines without a colon, and its records are those of its rules.
-/

namespace Schnitzeljagd.News

open Foundations.CArithmetic Foundations.CString Foundations.PerlText

/-! ## Searching for a byte -/

variable {s before after : Text} {c : Byte}

/-- The first place of a byte is behind everything in which it does not occur. -/
theorem byteChr_found (absent : c ∉ before) (after : Text) :
    byteChr (before ++ c :: after) c = before.length := by
  rw [byteChr, takeWhile_until absent]

/-- A byte that does not occur is reported behind the end of the text. -/
theorem byteChr_none (absent : c ∉ s) : byteChr s c = s.length := by
  rw [byteChr, List.takeWhile_eq_self_iff.mpr]
  intro byte member
  exact decide_eq_true fun same => absent (same ▸ member)

/-- Where a byte is found it is for the first time, so the text can be cut there. -/
theorem byteChr_split (present : c ∈ s) :
    ∃ before after, s = before ++ c :: after ∧ c ∉ before ∧ byteChr s c = before.length := by
  obtain ⟨before, after, rfl, absent⟩ := List.eq_append_cons_of_mem present
  exact ⟨before, after, rfl, absent, byteChr_found absent after⟩

/-- The source tells absence from the returned length, which is sound. -/
theorem byteChr_length : byteChr s c = s.length ↔ c ∉ s := by
  refine ⟨fun whole present => ?_, byteChr_none⟩
  obtain ⟨before, after, rfl, -, place⟩ := byteChr_split present
  rw [place, List.length_append, List.length_cons] at whole
  omega

/-- A byte that occurs is found inside the text. -/
theorem byteChr_lt : byteChr s c < s.length ↔ c ∈ s := by
  have most : byteChr s c ≤ s.length := (List.takeWhile_prefix _).length_le
  have whole := byteChr_length (s := s) (c := c)
  constructor
  · intro less
    by_contra absent
    have same := whole.mpr absent
    omega
  · intro present
    by_contra more
    exact whole.mp (by omega) present

/-- The last place of a byte is in front of everything in which it does not occur any more. -/
theorem byteRchr_found (before : Text) (absent : c ∉ after) :
    byteRchr (before ++ c :: after) c = before.length := by
  have back : (before ++ c :: after).reverse = after.reverse ++ c :: before.reverse := by simp
  rw [byteRchr, if_pos (by simp), back, byteChr_found (by simpa using absent)]
  simp only [List.length_append, List.length_cons, List.length_reverse]
  omega

/-- Searched from the back, too, absence is reported by the length. -/
theorem byteRchr_none (absent : c ∉ s) : byteRchr s c = s.length :=
  if_neg (by simpa using absent)

/-- What is left behind the byte at which a text is cut. -/
theorem drop_behind (before : Text) (byte : Byte) (after : Text) :
    (before ++ byte :: after).drop (before.length + 1) = after := by
  rw [← List.drop_drop, List.drop_left]
  rfl

/-! ## Addresses -/

/-- The sum that `scan_ulong` builds up wraps around at 32 bits, at every step, which is the same
as once at the end. -/
theorem scanUlong_value (digits : Text) :
    digits.foldl (fun result byte => (result * 10 + (byte.toNat - 0x30)) % 2 ^ 32) 0 =
      digitsValue digits % 2 ^ 32 := by
  rw [digitsValue]
  induction digits using List.reverseRecOn with
  | nil => rfl
  | append_singleton digits byte inductionHypothesis =>
    rw [List.foldl_append, List.foldl_append, inductionHypothesis]
    simp only [List.foldl_cons, List.foldl_nil]
    omega

/-- Digits are read as their number, up to a wrap-around. -/
theorem getnum_digits {buf : Text} (digits : ∀ byte ∈ buf, isDigit byte = true) :
    getnum buf = some (digitsValue buf % 2 ^ 32) := by
  have all : buf.takeWhile isDigit = buf := List.takeWhile_eq_self_iff.mpr digits
  have behind : (buf ++ [0])[buf.length]? = some 0 := List.getElem?_concat_length
  simp only [getnum, scanUlong, all, scanUlong_value, if_pos behind]

/-- Only digits are accepted: whatever stops `scan_ulong` early makes `getnum` stop the program.
-/
theorem getnum_inv {buf : Text} {u : Nat} (clean : 0 ∉ buf) (read : getnum buf = some u) :
    (∀ byte ∈ buf, isDigit byte = true) ∧ u = digitsValue buf % 2 ^ 32 := by
  have whole : ∀ byte ∈ buf, isDigit byte = true := by
    by_contra other
    have shorter : (buf.takeWhile isDigit).length < buf.length := by
      refine lt_of_le_of_ne (List.takeWhile_prefix _).length_le fun same => other ?_
      exact List.takeWhile_eq_self_iff.mp ((List.takeWhile_prefix _).eq_of_length same)
    have stop : (buf ++ [0])[(buf.takeWhile isDigit).length]? ≠ some 0 := by
      rw [List.getElem?_append_left shorter]
      exact fun zero => clean (List.mem_of_getElem? zero)
    have refused : getnum buf = none := if_neg stop
    rw [refused] at read
    contradiction
  refine ⟨whole, ?_⟩
  rw [getnum_digits whole] at read
  exact (Option.some.inj read).symm

/-- Who a rule is for: one address, or all those that have a number of a range in the place of the
range. -/
inductive Address where
  | plain (text : Text)
  | range (front bottom top behind : Text)

/-- The address as it is written in front of the colon. -/
def Address.text : Address → Text
  | plain text => text
  | range front bottom top behind => front ++ (bottom ++ 0x2d :: (top ++ behind))

/-- The numbers of a range, from the first to the last one named, which go up to 255. -/
def counted (bottom top : Text) : List Nat :=
  (List.range (min (digitsValue top % 2 ^ 32) 255 + 1 - digitsValue bottom % 2 ^ 32)).map
    (digitsValue bottom % 2 ^ 32 + ·)

/-- The keys that an address stands for, one for each number of its range. -/
def Address.keys : Address → List Text
  | plain text => [text]
  | range front bottom top behind =>
    (counted bottom top).map fun number => front ++ (decimal number ++ behind)

/-- An address has a range only if it is not for a name: with `=` or `@` in it a hyphen is just a
hyphen. -/
def mayCount (text : Text) : Prop := 0x3d ∉ text ∧ 0x40 ∉ text

/-- A range counts between the dots on both sides of it, or up to an end of the address. -/
structure Between (front bottom top behind : Text) : Prop where
  begins : front = [] ∨ front.getLast? = some 0x2e
  first : 0x2d ∉ front
  bottom : ∀ byte ∈ bottom, isDigit byte = true
  top : ∀ byte ∈ top, isDigit byte = true
  ends : behind = [] ∨ behind.head? = some 0x2e

/-- An address is written as it is meant: one without a range has no hyphen that would be taken
for one. -/
def Address.Fine (address : Address) : Prop :=
  match address with
  | plain text => ¬ (mayCount text ∧ 0x2d ∈ text)
  | range front bottom top behind => mayCount address.text ∧ Between front bottom top behind

/-- Without a range the address itself is the only key. -/
theorem addressKeys_plain {text : Text} (plain : ¬ (mayCount text ∧ 0x2d ∈ text)) :
    addressKeys text = some [text] := by
  refine if_neg fun ⟨noName, noInfo, dash⟩ => plain ⟨⟨?_, ?_⟩, ?_⟩
  · exact byteChr_length.mp noName
  · exact byteChr_length.mp noInfo
  · exact byteChr_lt.mp dash

/-- The places where `doaddressdata` cuts: at the first hyphen, at the last dot before it and at
the first dot behind it.

Each place is what a search for a byte finds in a text whose parts do not have that byte. Cutting
there gives the parts back. -/
theorem addressKeys_cut {front bottom top behind : Text}
    (named : mayCount (front ++ (bottom ++ 0x2d :: (top ++ behind))))
    (begins : front = [] ∨ front.getLast? = some 0x2e) (first : 0x2d ∉ front)
    (bottomDash : 0x2d ∉ bottom) (bottomDot : 0x2e ∉ bottom) (topDot : 0x2e ∉ top)
    (ends : behind = [] ∨ behind.head? = some 0x2e) :
    addressKeys (front ++ (bottom ++ 0x2d :: (top ++ behind))) =
      (getnum bottom).bind fun bot => (getnum top).bind fun last =>
        some ((List.range ((if last > 255 then 255 else last) + 1 - bot)).map fun n =>
          front ++ (decimal (bot + n) ++ behind)) := by
  have shape : front ++ (bottom ++ (0x2d : Byte) :: (top ++ behind)) =
      (front ++ bottom) ++ 0x2d :: (top ++ behind) := (List.append_assoc _ _ _).symm
  have noDash : (0x2d : Byte) ∉ front ++ bottom := by
    rw [List.mem_append, not_or]
    exact ⟨first, bottomDash⟩
  have dash : byteChr (front ++ (bottom ++ (0x2d : Byte) :: (top ++ behind))) 0x2d =
      (front ++ bottom).length := by
    rw [shape]
    exact byteChr_found noDash (top ++ behind)
  have left : (if byteRchr (front ++ bottom) 0x2e = (front ++ bottom).length then 0
      else byteRchr (front ++ bottom) 0x2e + 1) = front.length := by
    rcases begins with rfl | last
    · exact if_pos (byteRchr_none bottomDot)
    · obtain ⟨front', rfl⟩ := List.getLast?_eq_some_iff.mp last
      have place : byteRchr (front' ++ [(0x2e : Byte)] ++ bottom) 0x2e = front'.length := by
        rw [List.append_assoc]
        exact byteRchr_found front' bottomDot
      rw [place, if_neg (by simp only [List.length_append, List.length_singleton]; omega)]
      simp
  have right : byteChr (top ++ behind) 0x2e = top.length := by
    rcases ends with rfl | head
    · rw [List.append_nil]
      exact byteChr_none topDot
    · obtain ⟨rest, rfl⟩ := List.head?_eq_some_iff.mp head
      exact byteChr_found topDot rest
  have counts : byteChr (front ++ (bottom ++ (0x2d : Byte) :: (top ++ behind))) 0x3d =
        (front ++ (bottom ++ (0x2d : Byte) :: (top ++ behind))).length ∧
      byteChr (front ++ (bottom ++ (0x2d : Byte) :: (top ++ behind))) 0x40 =
        (front ++ (bottom ++ (0x2d : Byte) :: (top ++ behind))).length ∧
      byteChr (front ++ (bottom ++ (0x2d : Byte) :: (top ++ behind))) 0x2d <
        (front ++ (bottom ++ (0x2d : Byte) :: (top ++ behind))).length :=
    ⟨byteChr_none named.1, byteChr_none named.2, byteChr_lt.mpr (by simp)⟩
  have taken : (front ++ (bottom ++ (0x2d : Byte) :: (top ++ behind))).take
      (front ++ bottom).length = front ++ bottom := by
    rw [shape, List.take_left]
  have dropped : (front ++ (bottom ++ (0x2d : Byte) :: (top ++ behind))).drop
      ((front ++ bottom).length + 1) = top ++ behind := by
    rw [shape, drop_behind]
  have toTop : ((front ++ (bottom ++ (0x2d : Byte) :: (top ++ behind))).take
      ((front ++ bottom).length + 1 + top.length)).drop ((front ++ bottom).length + 1) = top := by
    rw [List.drop_take, dropped, Nat.add_sub_cancel_left, List.take_left]
  have last : (front ++ (bottom ++ (0x2d : Byte) :: (top ++ behind))).drop
      ((front ++ bottom).length + 1 + top.length) = behind := by
    rw [← List.drop_drop, dropped, List.drop_left]
  rw [addressKeys, if_pos counts]
  simp only [dash, taken, dropped, left, right, toTop, last, List.drop_left, List.take_left]
  rfl

/-- A digit is neither the hyphen of a range nor a dot. -/
theorem isDigit_other {byte : Byte} (digit : isDigit byte = true) : byte ≠ 0x2d ∧ byte ≠ 0x2e := by
  constructor
  · rintro rfl
    exact absurd digit (by decide)
  · rintro rfl
    exact absurd digit (by decide)

/-- The keys of an address that is written as it is meant are those that it stands for. -/
theorem addressKeys_fine {address : Address} (fine : address.Fine) :
    addressKeys address.text = some address.keys := by
  cases address with
  | plain text => exact addressKeys_plain fine
  | range front bottom top behind =>
    obtain ⟨named, between⟩ := fine
    have apart {digits : Text} (all : ∀ byte ∈ digits, isDigit byte = true) :
        0x2d ∉ digits ∧ 0x2e ∉ digits :=
      ⟨fun member => (isDigit_other (all _ member)).1 rfl,
        fun member => (isDigit_other (all _ member)).2 rfl⟩
    have bottom' := apart between.bottom
    rw [Address.text, addressKeys_cut named between.begins between.first bottom'.1 bottom'.2
      (apart between.top).2 between.ends, getnum_digits between.bottom, getnum_digits between.top]
    have least (last : Nat) : (if last > 255 then 255 else last) = min last 255 := by
      split <;> omega
    simp only [Option.bind_some, least, Address.keys, counted, List.map_map]
    rfl

/-- The part up to the last dot, and the rest, which has no dot. -/
theorem last_dot (text : Text) : ∃ front bottom, text = front ++ bottom ∧
    (front = [] ∨ front.getLast? = some 0x2e) ∧ 0x2e ∉ bottom := by
  by_cases dot : 0x2e ∈ text
  · obtain ⟨after, before, shape, absent, -⟩ := byteChr_split (List.mem_reverse.mpr dot)
    refine ⟨before.reverse ++ [0x2e], after.reverse, ?_, Or.inr List.getLast?_concat, by simpa⟩
    rw [← List.reverse_reverse text, shape]
    simp
  · exact ⟨[], text, rfl, Or.inl rfl, dot⟩

/-- The part up to the first dot, and the rest, which is empty or begins with it. -/
theorem first_dot (text : Text) : ∃ top behind, text = top ++ behind ∧
    0x2e ∉ top ∧ (behind = [] ∨ behind.head? = some 0x2e) := by
  by_cases dot : 0x2e ∈ text
  · obtain ⟨before, after, shape, absent, -⟩ := byteChr_split dot
    exact ⟨before, 0x2e :: after, shape, absent, Or.inr rfl⟩
  · exact ⟨text, [], (List.append_nil _).symm, dot, Or.inl rfl⟩

/-- Every address that is not refused has keys of this form. Cut at the hyphen and the dots, what
is in between must be numbers, or `getnum` would have refused it. -/
theorem addressKeys_inv {text : Text} {keys : List Text} (clean : 0 ∉ text)
    (read : addressKeys text = some keys) :
    ∃ address : Address, address.Fine ∧ address.text = text ∧ address.keys = keys := by
  by_cases counts : mayCount text ∧ 0x2d ∈ text
  · obtain ⟨named, present⟩ := counts
    obtain ⟨before, after, shape, noDash, -⟩ := byteChr_split present
    obtain ⟨front, bottom, rfl, begins, bottomDot⟩ := last_dot before
    obtain ⟨top, behind, rfl, topDot, ends⟩ := first_dot after
    rw [List.append_assoc] at shape
    subst shape
    rw [List.mem_append, not_or] at noDash
    have cut := read
    rw [addressKeys_cut named begins noDash.1 noDash.2 bottomDot topDot ends] at cut
    obtain ⟨bot, readBottom, cut⟩ := Option.bind_eq_some_iff.mp cut
    obtain ⟨last, readTop, -⟩ := Option.bind_eq_some_iff.mp cut
    simp only [List.mem_append, List.mem_cons, not_or] at clean
    have digitsBottom := (getnum_inv clean.2.1 readBottom).1
    have digitsTop := (getnum_inv clean.2.2.2.1 readTop).1
    have fine : (Address.range front bottom top behind).Fine :=
      ⟨named, begins, noDash.1, digitsBottom, digitsTop, ends⟩
    have all := addressKeys_fine fine
    rw [Address.text, read] at all
    exact ⟨_, fine, rfl, (Option.some.inj all).symm⟩
  · rw [addressKeys_plain counts] at read
    exact ⟨.plain text, counts, rfl, Option.some.inj read⟩

/-! ## Settings -/

/-- A variable that a rule sets, and the character on both sides of its value, which can be any
character. -/
structure Setting where
  name : Text
  value : Text
  quote : Byte

/-- A setting as it is written on the line, with a comma in front. -/
def Setting.text (setting : Setting) : Text :=
  0x2c :: (setting.name ++ 0x3d :: setting.quote :: (setting.value ++ [setting.quote]))

/-- A setting as it is stored: a plus sign, and an assignment that ends like a string. -/
def Setting.data (setting : Setting) : Text :=
  0x2b :: (setting.name ++ 0x3d :: (setting.value ++ [0]))

/-- The name ends at its equals sign and the value at its quote. -/
structure Setting.Fine (setting : Setting) : Prop where
  name : 0x3d ∉ setting.name
  value : setting.quote ∉ setting.value

/-- The loop of the source, one turn that begins at a comma. -/
theorem settings_comma (data rest : Text) :
    settings data (0x2c :: rest) =
      if byteChr (0x2c :: rest) 0x3d = rest.length + 1 then none
      else
        match rest.drop (byteChr (0x2c :: rest) 0x3d) with
        | [] => none
        | ch :: value =>
          if byteChr value ch = value.length then none
          else settings (data ++ (0x2b :: rest.take (byteChr (0x2c :: rest) 0x3d) ++
            (value.take (byteChr value ch) ++ [0]))) (value.drop (byteChr value ch + 1)) := by
  rw [settings.eq_def]
  simp only [if_true]
  split
  · rfl
  · split
    · next empty => simp only [empty]
    · next ch value behind => simp only [behind]

/-- One turn of the loop: a setting is taken off the text, and its data are put behind those of
the settings before. -/
theorem settings_step (name value rest : Text) (quote : Byte) (data : Text)
    (plain : (0x3d : Byte) ∉ name) (ends : quote ∉ value) :
    settings data (0x2c :: (name ++ 0x3d :: quote :: (value ++ quote :: rest))) =
      settings (data ++ (0x2b :: (name ++ [0x3d]) ++ (value ++ [0]))) rest := by
  have plain' : (0x3d : Byte) ∉ 0x2c :: name := by
    rw [List.mem_cons, not_or]
    exact ⟨by decide, plain⟩
  have split : name ++ (0x3d : Byte) :: quote :: (value ++ quote :: rest) =
      (name ++ [0x3d]) ++ quote :: (value ++ quote :: rest) := by
    rw [List.append_assoc]
    rfl
  have place : byteChr (0x2c :: (name ++ 0x3d :: quote :: (value ++ quote :: rest))) 0x3d =
      (name ++ [0x3d]).length := by
    rw [List.length_append]
    exact byteChr_found plain' _
  have inside : (name ++ [0x3d]).length ≠
      (name ++ (0x3d : Byte) :: quote :: (value ++ quote :: rest)).length + 1 := by
    simp only [List.length_append, List.length_cons, List.length_nil]
    omega
  have inside' : value.length ≠ (value ++ quote :: rest).length := by
    rw [List.length_append, List.length_cons]
    omega
  have behind := drop_behind value quote rest
  rw [settings_comma, place, if_neg inside, split, List.take_left, List.drop_left]
  simp only [byteChr_found ends, if_neg inside', List.take_left, behind]

/-- The loop goes through any row of settings. -/
theorem settings_texts (list : List Setting) (fine : ∀ setting ∈ list, setting.Fine)
    (data : Text) :
    settings data (list.flatMap Setting.text) = some (data ++ list.flatMap Setting.data) := by
  induction list generalizing data with
  | nil =>
    rw [List.flatMap_nil, settings.eq_def, List.flatMap_nil, List.append_nil]
  | cons setting list inductionHypothesis =>
    obtain ⟨here, later⟩ := List.forall_mem_cons.mp fine
    have shape : setting.text ++ list.flatMap Setting.text =
        0x2c :: (setting.name ++ 0x3d :: setting.quote ::
          (setting.value ++ setting.quote :: list.flatMap Setting.text)) := by
      simp [Setting.text]
    rw [List.flatMap_cons, shape, settings_step _ _ _ _ data here.name here.value,
      inductionHypothesis later]
    simp [Setting.data]

/-- A turn of the loop that gets on takes a setting off the text. The setting is read off the
places where `byte_chr` has found the equals sign and the quote. -/
theorem settings_peel {data rest data' : Text} {byte : Byte}
    (read : settings data (byte :: rest) = some data') :
    ∃ (setting : Setting) (rest' : Text), setting.Fine ∧ byte :: rest = setting.text ++ rest' ∧
      settings (data ++ setting.data) rest' = some data' := by
  have comma : byte = 0x2c := by
    rw [settings.eq_def] at read
    by_contra other
    simp only [if_neg other] at read
    contradiction
  subst comma
  have assigned : (0x3d : Byte) ∈ (0x2c : Byte) :: rest := by
    by_contra absent
    have whole := byteChr_none absent
    rw [List.length_cons] at whole
    rw [settings_comma, if_pos whole] at read
    contradiction
  obtain ⟨before, after, shape, plain, place⟩ := byteChr_split assigned
  cases before with
  | nil => exact absurd (List.cons.inj shape).1 (by decide)
  | cons first name =>
    have shape' : rest = name ++ 0x3d :: after := (List.cons.inj shape).2
    subst shape'
    have plain' : (0x3d : Byte) ∉ name := fun member => plain (List.mem_cons_of_mem _ member)
    have turn := read
    rw [settings_comma, place, List.length_cons, drop_behind, if_neg (by simp)] at turn
    cases after with
    | nil => contradiction
    | cons quote text =>
      have closed : quote ∈ text := by
        by_contra absent
        simp only [if_pos (byteChr_none absent)] at turn
        contradiction
      obtain ⟨value, rest', rfl, ends, -⟩ := byteChr_split closed
      refine ⟨⟨name, value, quote⟩, rest', ⟨plain', ends⟩, by simp [Setting.text], ?_⟩
      rw [settings_step name value rest' quote data plain' ends] at read
      simpa [Setting.data] using read

/-- Whatever the loop gets through is a row of settings. By induction on the length of the text,
peeling one setting off at a time. -/
theorem settings_inv {data x data' : Text} (read : settings data x = some data') :
    ∃ list : List Setting, (∀ setting ∈ list, setting.Fine) ∧
      x = list.flatMap Setting.text ∧ data' = data ++ list.flatMap Setting.data := by
  induction measured : x.length using Nat.strongRecOn generalizing data x with
  | ind length inductionHypothesis =>
    cases x with
    | nil =>
      rw [settings.eq_def] at read
      obtain rfl := Option.some.inj read
      exact ⟨[], by simp, rfl, by simp⟩
    | cons byte rest =>
      obtain ⟨setting, rest', fine, shape, later⟩ := settings_peel read
      have shorter : rest'.length < length := by
        rw [← measured, shape, List.length_append, Setting.text, List.length_cons]
        omega
      obtain ⟨list, fine', rfl, rfl⟩ := inductionHypothesis rest'.length shorter later rfl
      refine ⟨setting :: list, List.forall_mem_cons.mpr ⟨fine, fine'⟩, shape, ?_⟩
      rw [List.flatMap_cons, List.append_assoc]

/-! ## Rules -/

/-- A line that allows or denies connections, and sets variables for those that it allows. -/
structure Rule where
  address : Address
  deny : Bool
  settings : List Setting

/-- The word behind the colon. -/
def word (deny : Bool) : Text := if deny then latin1 "deny" else latin1 "allow"

/-- A rule that denies begins with this word. -/
theorem word_true : word true = latin1 "deny" := rfl

/-- A rule that allows begins with this word. -/
theorem word_false : word false = latin1 "allow" := rfl

/-- What is stored for a rule: a `D` if it denies, and its settings. -/
def Rule.data (rule : Rule) : Text :=
  (if rule.deny then [0x44, 0] else []) ++ rule.settings.flatMap Setting.data

/-- A rule as it stands on a line, which may have blanks at its end, and which is no remark. -/
structure Rule.Written (rule : Rule) (line : Text) : Prop where
  text : line.rdropWhile isBlank =
    rule.address.text ++ 0x3a :: (word rule.deny ++ rule.settings.flatMap Setting.text)
  address : rule.address.Fine
  colon : 0x3a ∉ rule.address.text
  settings : ∀ setting ∈ rule.settings, setting.Fine
  noRemark : line.head? ≠ some 0x23

/-- A line without a rule: a remark, or a line without any colon. -/
def isSilent (line : Text) : Bool := line.head? = some 0x23 || !line.contains 0x3a

/-- Dropping blanks at the end does not take a colon away. -/
theorem rdropWhile_colon {line : Text} :
    (0x3a : Byte) ∈ line.rdropWhile isBlank ↔ (0x3a : Byte) ∈ line := by
  refine ⟨fun member => (List.rdropWhile_prefix isBlank line).subset member, fun member => ?_⟩
  have whole := List.rdropWhile_append_rtakeWhile (p := isBlank) (l := line)
  rw [← whole, List.mem_append] at member
  rcases member with member | member
  · exact member
  · exact absurd (List.mem_rtakeWhile_imp member) (by decide)

/-- A silent line is passed without looking at it any further. -/
theorem ruleLine_silent {line : Text} (silent : isSilent line = true) :
    ruleLine line = some none := by
  by_cases remark : line = [] ∨ line.head? = some 0x23
  · rw [ruleLine, if_pos remark]
  · have either : line.head? = some 0x23 ∨ (0x3a : Byte) ∉ line := by
      simpa [isSilent] using silent
    have plain := either.resolve_left (not_or.mp remark).2
    rw [ruleLine, if_neg remark]
    exact if_pos (byteChr_none fun member => plain (rdropWhile_colon.mp member))

/-- The cut at the colon, and the word behind it that decides what becomes of the rest. -/
theorem ruleLine_colon {line address rest : Text} (remark : line.head? ≠ some 0x23)
    (text : line.rdropWhile isBlank = address ++ 0x3a :: rest) (plain : 0x3a ∉ address) :
    ruleLine line =
      if latin1 "deny" <+: rest then
        (settings [0x44, 0] (rest.drop 4)).map fun data => some (address, data)
      else if latin1 "allow" <+: rest then
        (settings [] (rest.drop 5)).map fun data => some (address, data)
      else none := by
  have filled : line ≠ [] := by
    rintro rfl
    simp at text
  have place := byteChr_found plain rest
  have inside : address.length ≠ (address ++ (0x3a : Byte) :: rest).length := by
    rw [List.length_append, List.length_cons]
    omega
  rw [ruleLine, if_neg (not_or.mpr ⟨filled, remark⟩)]
  simp only [text, place, if_neg inside, List.take_left, drop_behind]

/-- A rule on its line is read as the rule that was written. -/
theorem ruleLine_written {rule : Rule} {line : Text} (written : rule.Written line) :
    ruleLine line = some (some (rule.address.text, rule.data)) := by
  rw [ruleLine_colon written.noRemark written.text written.colon, Rule.data]
  cases deny : rule.deny with
  | true =>
    rw [word_true, if_pos (List.prefix_append _ _)]
    have rest : (latin1 "deny" ++ rule.settings.flatMap Setting.text).drop 4 =
        rule.settings.flatMap Setting.text := rfl
    rw [rest, settings_texts _ written.settings, if_pos rfl]
    rfl
  | false =>
    have other : ¬ latin1 "deny" <+: latin1 "allow" ++ rule.settings.flatMap Setting.text := by
      rintro ⟨behind, same⟩
      exact absurd (List.cons.inj same).1 (by decide)
    rw [word_false, if_neg other, if_pos (List.prefix_append _ _)]
    have rest : (latin1 "allow" ++ rule.settings.flatMap Setting.text).drop 5 =
        rule.settings.flatMap Setting.text := rfl
    rw [rest, settings_texts _ written.settings, if_neg Bool.false_ne_true]
    rfl

/-- What a line that is neither silent nor refused consists of: an address, one of the two words,
and settings. -/
theorem ruleLine_parts {line : Text} {result : Option (Text × Text)}
    (loud : isSilent line = false) (read : ruleLine line = some result) :
    ∃ (address : Text) (deny : Bool) (list : List Setting) (data : Text),
      line.rdropWhile isBlank =
        address ++ 0x3a :: (word deny ++ list.flatMap Setting.text) ∧
      0x3a ∉ address ∧ (∀ setting ∈ list, setting.Fine) ∧ line.head? ≠ some 0x23 ∧
      result = some (address, data) := by
  have loud' : line.head? ≠ some 0x23 ∧ (0x3a : Byte) ∈ line := by
    simpa [isSilent] using loud
  obtain ⟨address, rest, text, plain, -⟩ := byteChr_split (rdropWhile_colon.mpr loud'.2)
  rw [ruleLine_colon loud'.1 text plain] at read
  by_cases denies : latin1 "deny" <+: rest
  · obtain ⟨behind, rfl⟩ := denies
    rw [if_pos (List.prefix_append _ _)] at read
    obtain ⟨data, found, same⟩ := Option.map_eq_some_iff.mp read
    obtain ⟨list, fine, shape, -⟩ := settings_inv found
    refine ⟨address, true, list, data, ?_, plain, fine, loud'.1, same.symm⟩
    rw [text, ← shape]
    rfl
  · rw [if_neg denies] at read
    by_cases allows : latin1 "allow" <+: rest
    · obtain ⟨behind, rfl⟩ := allows
      rw [if_pos (List.prefix_append _ _)] at read
      obtain ⟨data, found, same⟩ := Option.map_eq_some_iff.mp read
      obtain ⟨list, fine, shape, -⟩ := settings_inv found
      refine ⟨address, false, list, data, ?_, plain, fine, loud'.1, same.symm⟩
      rw [text, ← shape]
      rfl
    · rw [if_neg allows] at read
      contradiction

/-! ## Texts of rules -/

/-- These are the rules of the text, in its order: each line that is not silent says one of them.
-/
def RulesOf (text : Text) (rules : List Rule) : Prop :=
  List.Forall₂ Rule.Written rules ((text.splitOn newline).filter fun line => !isSilent line)

/-- The records of a rule, one for each key, all with the same data. -/
def Rule.records (rule : Rule) : List (Text × Text) :=
  rule.address.keys.map fun key => (key, rule.data)

/-- A silent line adds nothing to the file. -/
theorem lineRecords_silent {line : Text} (silent : isSilent line = true) :
    lineRecords line = some [] := by
  rw [lineRecords, ruleLine_silent silent]
  rfl

/-- The line of a rule adds the records of the rule. -/
theorem lineRecords_written {rule : Rule} {line : Text} (written : rule.Written line) :
    lineRecords line = some rule.records := by
  rw [lineRecords, ruleLine_written written, Rule.records]
  show (addressKeys rule.address.text).map (fun keys => keys.map fun key => (key, rule.data)) = _
  rw [addressKeys_fine written.address]
  rfl

/-- Every line that is not refused is silent or says a rule, and its records are the ones of that
rule. -/
theorem lineRecords_inv {line : Text} {records : List (Text × Text)} (clean : 0 ∉ line)
    (compiled : lineRecords line = some records) :
    (isSilent line = true ∧ records = []) ∨
    ∃ rule : Rule, rule.Written line ∧ isSilent line = false ∧ records = rule.records := by
  cases silent : isSilent line with
  | true =>
    rw [lineRecords_silent silent] at compiled
    exact Or.inl ⟨rfl, (Option.some.inj compiled).symm⟩
  | false =>
    obtain ⟨result, read, keyed⟩ := Option.bind_eq_some_iff.mp compiled
    obtain ⟨address, deny, list, data, text, plain, fine, noRemark, rfl⟩ :=
      ruleLine_parts silent read
    obtain ⟨keys, added, -⟩ := Option.map_eq_some_iff.mp keyed
    have within : 0 ∉ address := by
      intro zero
      refine clean ((List.rdropWhile_prefix isBlank line).subset ?_)
      rw [text]
      exact List.mem_append_left _ zero
    obtain ⟨address, good, rfl, -⟩ := addressKeys_inv within added
    have written : Rule.Written ⟨address, deny, list⟩ line := ⟨text, good, plain, fine, noRemark⟩
    rw [lineRecords_written written] at compiled
    exact Or.inr ⟨_, written, rfl, (Option.some.inj compiled).symm⟩

/-- The records of lines that are all compiled are those of their rules, by induction on the
lines. -/
theorem records_inv (lines : List Text) {lists : List (List (Text × Text))}
    (clean : ∀ line ∈ lines, 0 ∉ line) (compiled : lines.mapM lineRecords = some lists) :
    ∃ rules, List.Forall₂ Rule.Written rules (lines.filter fun line => !isSilent line) ∧
      lists.flatten = rules.flatMap Rule.records := by
  induction lines generalizing lists with
  | nil =>
    obtain rfl := Option.some.inj compiled
    exact ⟨[], List.Forall₂.nil, rfl⟩
  | cons line lines inductionHypothesis =>
    rw [List.mapM_cons] at compiled
    obtain ⟨records, here, compiled⟩ := Option.bind_eq_some_iff.mp compiled
    obtain ⟨others, later, compiled⟩ := Option.bind_eq_some_iff.mp compiled
    obtain rfl := Option.some.inj compiled
    obtain ⟨cleanHere, cleanLater⟩ := List.forall_mem_cons.mp clean
    obtain ⟨rules, written, flat⟩ := inductionHypothesis cleanLater later
    rcases lineRecords_inv cleanHere here with ⟨silent, rfl⟩ | ⟨rule, first, loud, rfl⟩
    · refine ⟨rules, ?_, flat⟩
      rwa [List.filter_cons_of_neg (by simp [silent])]
    · refine ⟨rule :: rules, ?_, ?_⟩
      · rw [List.filter_cons_of_pos (by simp [loud])]
        exact List.Forall₂.cons first written
      · rw [List.flatten_cons, flat, List.flatMap_cons]

/-- Rules that stand on lines are compiled, whatever silent lines there are in between. -/
theorem records_written (lines : List Text) {rules : List Rule}
    (written : List.Forall₂ Rule.Written rules (lines.filter fun line => !isSilent line)) :
    ∃ lists, lines.mapM lineRecords = some lists ∧ lists.flatten = rules.flatMap Rule.records := by
  induction lines generalizing rules with
  | nil =>
    cases written
    exact ⟨[], rfl, rfl⟩
  | cons line lines inductionHypothesis =>
    cases silent : isSilent line with
    | true =>
      rw [List.filter_cons_of_neg (by simp [silent])] at written
      obtain ⟨lists, compiled, flat⟩ := inductionHypothesis written
      refine ⟨[] :: lists, ?_, flat⟩
      rw [List.mapM_cons, lineRecords_silent silent, compiled]
      rfl
    | false =>
      rw [List.filter_cons_of_pos (by simp [silent])] at written
      cases written with
      | @cons rule _ _ _ first others =>
        obtain ⟨lists, compiled, flat⟩ := inductionHypothesis others
        refine ⟨rule.records :: lists, ?_, ?_⟩
        · rw [List.mapM_cons, lineRecords_written first, compiled]
          rfl
        · rw [List.flatten_cons, flat, List.flatMap_cons]

/-- A text is compiled to the records of its rules, and only such texts are compiled. A text with
a NUL in it is left out, since `getnum` would take the NUL for the end of a number. -/
theorem ruleRecords_iff (text : Text) (clean : 0 ∉ text) (records : List (Text × Text)) :
    ruleRecords text = some records ↔
      ∃ rules, RulesOf text rules ∧ records = rules.flatMap Rule.records := by
  have lines : ∀ line ∈ text.splitOn newline, 0 ∉ line :=
    fun line member zero => clean (splitOnP_bytes _ text line member 0 zero)
  constructor
  · intro compiled
    obtain ⟨lists, each, same⟩ := Option.bind_eq_some_iff.mp compiled
    obtain ⟨rules, written, flat⟩ := records_inv _ lines each
    exact ⟨rules, written, (Option.some.inj same).symm.trans flat⟩
  · rintro ⟨rules, written, rfl⟩
    obtain ⟨lists, each, flat⟩ := records_written _ written
    exact Option.bind_eq_some_iff.mpr ⟨lists, each, congrArg some flat⟩

/-- A text is compiled exactly if each of its lines says a rule or nothing, as far as the records
fit into a file.

One direction runs the source's functions on rules as they are written; the other reads rules off
what the functions have accepted, line by line (`lineRecords_inv`) and inside a line at the colon,
the hyphen, the dots and the quotes. -/
theorem tcprules_iff (text : Text) (file : List Byte) (clean : 0 ∉ text) :
    tcprules text = some file ↔
      ∃ rules, RulesOf text rules ∧ cdbMake (rules.flatMap Rule.records) = some file := by
  constructor
  · intro made
    obtain ⟨records, compiled, made⟩ := Option.bind_eq_some_iff.mp made
    obtain ⟨rules, listed, rfl⟩ := (ruleRecords_iff text clean records).mp compiled
    exact ⟨rules, listed, made⟩
  · rintro ⟨rules, listed, made⟩
    have compiled := (ruleRecords_iff text clean _).mpr ⟨rules, listed, rfl⟩
    exact Option.bind_eq_some_iff.mpr ⟨_, compiled, made⟩

/-- Two addresses are let in, with a variable, and no others; a remark stands in between. -/
def exampleText : Text := latin1 "10.0.0.2-3:allow,GRUPPE='a' \n# Rest\n:deny\n"

/-- The two rules of the example. -/
def exampleRules : List Rule :=
  [⟨.range (latin1 "10.0.0.") (latin1 "2") (latin1 "3") [], false,
      [⟨latin1 "GRUPPE", latin1 "a", 0x27⟩]⟩,
    ⟨.plain [], true, []⟩]

/-- They are the rules of the text, with a blank at the end of the first line and a silent line
between them. -/
theorem exampleRules_listed : RulesOf exampleText exampleRules := by
  have lines : ((exampleText.splitOn newline).filter fun line => !isSilent line) =
      [latin1 "10.0.0.2-3:allow,GRUPPE='a' ", latin1 ":deny"] := by decide +kernel
  rw [RulesOf, lines]
  refine List.Forall₂.cons ?_ (List.Forall₂.cons ?_ List.Forall₂.nil)
  · refine ⟨by decide +kernel, ⟨⟨by decide, by decide⟩, ?_⟩, by decide, ?_, by decide⟩
    · exact ⟨Or.inr (by decide), by decide, by decide, by decide, Or.inl rfl⟩
    · simp only [List.forall_mem_singleton]
      exact ⟨by decide, by decide⟩
  · exact ⟨by decide +kernel, fun counts => absurd counts.2 (by decide), by decide,
      fun _ member => absurd member List.not_mem_nil, by decide⟩

/-- The example is compiled. -/
theorem exampleText_made : ∃ file, tcprules exampleText = some file := by
  have clean : 0 ∉ exampleText := by decide +kernel
  have compiled := (ruleRecords_iff exampleText clean _).mpr ⟨_, exampleRules_listed, rfl⟩
  have fits : (cdbMake (exampleRules.flatMap Rule.records)).isSome := by decide +kernel
  obtain ⟨file, made⟩ := Option.isSome_iff_exists.mp fits
  exact ⟨file, Option.bind_eq_some_iff.mpr ⟨_, compiled, made⟩⟩

/-- So the compiled file has the records of rules that the text says. -/
theorem tcprules_iff_range : ∃ file rules, RulesOf exampleText rules ∧
    cdbMake (rules.flatMap Rule.records) = some file := by
  obtain ⟨file, made⟩ := exampleText_made
  have clean : 0 ∉ exampleText := by decide +kernel
  exact ⟨file, (tcprules_iff exampleText file clean).mp made⟩

end Schnitzeljagd.News
