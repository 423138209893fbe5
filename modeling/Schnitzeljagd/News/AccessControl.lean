import Mathlib.Data.List.Infix
import Schnitzeljagd.News.RuleTexts

/-!
# Which rule a connection gets

`rules.c` looks for one key after another, and `tcpserver.c` does what the first record that
there is says. So a connection is treated as the first rule of the text for the most specific
of the keys that fit it decides.
-/

namespace Schnitzeljagd.News

open Foundations.CArithmetic Foundations.CString Foundations.PerlText

/-! ## What `found` makes of a rule -/

/-- The variable that a setting leaves in the environment. -/
def Setting.variable (setting : Setting) : Text × Text := (setting.name, setting.value)

/-- Neither the name nor the value has a NUL in it, which would end the setting early. -/
structure Setting.Clean (setting : Setting) : Prop where
  name : 0 ∉ setting.name
  value : 0 ∉ setting.value

/-- What the rule does with a connection: whether it is closed, and what is put into the
environment. -/
def Rule.access (rule : Rule) : Access := ⟨rule.deny, rule.settings.map Setting.variable⟩

/-- Without data nothing is done. -/
theorem found_nil (access : Access) : found access [] = access := by
  rw [found.eq_def]
  exact dif_neg (Nat.lt_irrefl 0)

/-- The data are taken apart at the NUL bytes, and each entry is looked at by itself. -/
theorem found_entry (access : Access) {entry : Text} (clean : 0 ∉ entry) (rest : Text) :
    found access (entry ++ 0 :: rest) = found (foundEntry access entry) rest := by
  have place := byteChr_found clean rest
  have inside : entry.length < (entry ++ (0 : Byte) :: rest).length := by
    rw [List.length_append, List.length_cons]
    omega
  rw [found.eq_def]
  simp only [place]
  rw [dif_pos inside, List.take_left, drop_behind]

/-- An entry with a plus sign in front sets its variable. -/
theorem foundEntry_setting (access : Access) {setting : Setting} (fine : setting.Fine) :
    foundEntry access (0x2b :: (setting.name ++ 0x3d :: setting.value)) =
      { access with env := access.env ++ [setting.variable] } := by
  have place := byteChr_found fine.name setting.value
  have inside : setting.name.length < (setting.name ++ (0x3d : Byte) :: setting.value).length := by
    rw [List.length_append, List.length_cons]
    omega
  rw [foundEntry, if_neg (by decide), if_pos rfl]
  simp only [place, if_pos inside, List.take_left, drop_behind]
  rfl

/-- A row of settings sets their variables in the order in which they are written. -/
theorem found_settings (list : List Setting) (fine : ∀ setting ∈ list, setting.Fine)
    (clean : ∀ setting ∈ list, setting.Clean) (access : Access) :
    found access (list.flatMap Setting.data) =
      { access with env := access.env ++ list.map Setting.variable } := by
  induction list generalizing access with
  | nil => rw [List.flatMap_nil, found_nil, List.map_nil, List.append_nil]
  | cons setting list inductionHypothesis =>
    obtain ⟨fineHere, fineLater⟩ := List.forall_mem_cons.mp fine
    obtain ⟨cleanHere, cleanLater⟩ := List.forall_mem_cons.mp clean
    have entry : (0 : Byte) ∉ 0x2b :: (setting.name ++ 0x3d :: setting.value) := by
      simp only [List.mem_cons, List.mem_append, not_or]
      exact ⟨by decide, cleanHere.name, by decide, cleanHere.value⟩
    have shape : setting.data ++ list.flatMap Setting.data =
        (0x2b :: (setting.name ++ 0x3d :: setting.value)) ++ 0 :: list.flatMap Setting.data := by
      simp [Setting.data]
    rw [List.flatMap_cons, shape, found_entry _ entry, foundEntry_setting _ fineHere,
      inductionHypothesis fineLater cleanLater]
    simp

/-- What stands on a line without NUL sets variables without NUL. -/
theorem Rule.Written.clean {rule : Rule} {line : Text} (written : rule.Written line)
    (clean : 0 ∉ line) : ∀ setting ∈ rule.settings, setting.Clean := by
  intro setting member
  have within : ∀ byte ∈ setting.text, byte ∈ line := by
    intro byte inside
    refine (List.rdropWhile_prefix isBlank line).subset ?_
    rw [written.text]
    refine List.mem_append_right _ (List.mem_cons_of_mem _ (List.mem_append_right _ ?_))
    exact List.mem_flatMap.mpr ⟨setting, member, inside⟩
  constructor
  · intro zero
    exact clean (within 0 (List.mem_cons_of_mem _ (List.mem_append_left _ zero)))
  · intro zero
    refine clean (within 0 (List.mem_cons_of_mem _ (List.mem_append_right _ ?_)))
    exact List.mem_cons_of_mem _ (List.mem_cons_of_mem _ (List.mem_append_left _ zero))

/-- The data that a rule is compiled to do with a connection what the rule says. -/
theorem found_rule {rule : Rule} {line : Text} (written : rule.Written line) (clean : 0 ∉ line) :
    found ⟨false, []⟩ rule.data = rule.access := by
  have settings := found_settings rule.settings written.settings (written.clean clean)
  rw [Rule.data, Rule.access]
  cases deny : rule.deny with
  | true =>
    have denies : (0 : Byte) ∉ [(0x44 : Byte)] := by decide
    have entry := found_entry ⟨false, []⟩ denies (rule.settings.flatMap Setting.data)
    have first : foundEntry ⟨false, []⟩ [0x44] = ⟨true, []⟩ := rfl
    rw [first, settings] at entry
    exact entry
  | false => exact settings ⟨false, []⟩

/-! ## The rule that is found -/

/-- Looking a key up in the compiled file is looking for the first record with this key. -/
theorem dorule_records {records : List (Text × Text)} {file : List Byte}
    (made : cdbMake records = some file) (name : Text) :
    dorule file name = some ((records.find? fun record => record.1 = name).map Prod.snd) := by
  obtain ⟨database⟩ := cdbMake_database records file made
  have all := database.reads name ⟨0, 0, 0, 0, 0, 0, 0⟩ (records.length + 1) (Nat.lt_succ_self _)
  rw [← List.head?_filter, ← List.head?_map]
  generalize ((records.filter fun record => record.1 = name).map Prod.snd) = wanted at all
  rw [findAll] at all
  obtain ⟨⟨hit, state⟩, next, all⟩ := Option.bind_eq_some_iff.mp all
  have start : cdbFind file name ⟨0, 0, 0, 0, 0, 0, 0⟩ = some (hit, state) := next
  rw [dorule, start]
  cases hit with
  | false =>
    obtain rfl : [] = wanted := Option.some.inj all
    rfl
  | true =>
    obtain ⟨data, read, all⟩ := Option.bind_eq_some_iff.mp all
    obtain ⟨rest, -, all⟩ := Option.bind_eq_some_iff.mp all
    obtain rfl : data :: rest = wanted := Option.some.inj all
    show (cdbRead file state.dlen state.dpos).map some = some (some data)
    rw [read]
    rfl

/-- The text ends with a dot. -/
def endsDot (text : Text) : Bool := text.getLast? = some 0x2e

/-- The text begins with a dot. -/
def beginsDot (text : Text) : Bool := text.head? = some 0x2e

/-- The beginnings of an address up to a dot, the longest first. Each of them stands for a
network. -/
def networks (ip : Text) : List Text := (ip.inits.filter endsDot).reverse

/-- A host and the ends of its name from a dot on, the longest first, each with the sign for names
in front. -/
def domains (host : Text) : List Text := (host.tails.filter beginsDot).map (0x3d :: ·)

/-- The keys that come from something that may not be known. -/
def ofKnown (known : Option Text) (keys : Text → List Text) : List Text := known.elim [] keys

/-- The keys that fit a connection, the most specific first: the user at the address, the user at
the host, the address, the host, networks, domains, any host that is known, and the empty key. -/
def candidates (ip : Text) (host info : Option Text) : List Text :=
  ofKnown info (fun info =>
    (info ++ 0x40 :: ip) :: ofKnown host fun host => [info ++ 0x40 :: 0x3d :: host]) ++
  (ip :: (ofKnown host (fun host => [0x3d :: host]) ++
    (networks ip ++ (ofKnown host (fun host => domains host ++ [[0x3d]]) ++ [[]]))))

section Loops

variable (rule : Text → Option Text)

/-- The first key is used if it has a rule, otherwise the next one is tried. -/
theorem orElseRule_some (first next : Option Text) :
    orElseRule (some first) (some next) = some (first.or next) := by
  cases first <;> rfl

/-- The same for a row of keys. -/
theorem findSome_cons (key : Text) (keys : List Text) :
    (key :: keys).findSome? rule = (rule key).or (keys.findSome? rule) := by
  rw [List.findSome?_cons]
  cases rule key <;> rfl

/-- What is not known has no keys to be tried. -/
theorem ifKnown_some (known : Option Text) (next : Text → Option (Option Text))
    (keys : Text → List Text)
    (each : ∀ text, next text = some ((keys text).findSome? rule)) :
    ifKnown known next = some ((ofKnown known keys).findSome? rule) := by
  cases known with
  | none => rfl
  | some text => exact each text

/-- The loop that shortens the address tries its networks, beginning with the longest. -/
theorem ipLoop_networks (ip : Text) (len : Nat) (within : len ≤ ip.length) :
    ipLoop (fun key => some (rule key)) ip len =
      some ((networks (ip.take len)).findSome? rule) := by
  induction len with
  | zero => rfl
  | succ len inductionHypothesis =>
    have inside : len < ip.length := by omega
    have longer : ip.take (len + 1) = ip.take len ++ [ip[len]] :=
      (List.take_append_getElem inside).symm
    have inits : (ip.take (len + 1)).inits = (ip.take len).inits ++ [ip.take (len + 1)] := by
      rw [longer, List.inits_append]
      rfl
    have last : endsDot (ip.take (len + 1)) = decide (ip[len] = 0x2e) := by
      rw [endsDot, longer, List.getLast?_concat]
      simp
    have earlier := inductionHypothesis (by omega)
    rw [ipLoop, List.getElem?_eq_getElem inside, networks, inits, List.filter_append]
    by_cases dot : ip[len] = 0x2e
    · rw [if_pos (congrArg some dot), earlier, orElseRule_some,
        List.filter_cons_of_pos (by simp [last, dot]), List.reverse_append]
      exact congrArg some (findSome_cons rule _ _).symm
    · rw [if_neg (by simpa using dot), earlier,
        List.filter_cons_of_neg (by rw [last]; simpa using dot)]
      simp [networks]

/-- The loop that goes on behind the next dot of the name tries its domains. -/
theorem hostLoop_domains (host : Text) :
    hostLoop (fun key => some (rule key)) host = some ((domains host).findSome? rule) := by
  induction host with
  | nil => rfl
  | cons byte host inductionHypothesis =>
    rw [hostLoop, domains, List.tails_cons]
    by_cases dot : byte = 0x2e
    · rw [if_pos dot, inductionHypothesis, orElseRule_some,
        List.filter_cons_of_pos (by simp [beginsDot, dot])]
      exact congrArg some (findSome_cons rule _ _).symm
    · rw [if_neg dot, inductionHypothesis,
        List.filter_cons_of_neg (by simpa [beginsDot] using dot)]
      rfl

/-- The first of the keys with a rule decides. The nested conditions of the source become one row
of keys. -/
theorem rulesDoit_candidates (ip : Text) (host info : Option Text) :
    rulesDoit (fun key => some (rule key)) ip host info =
      some ((candidates ip host info).findSome? rule) := by
  have address := ipLoop_networks rule ip ip.length le_rfl
  have names (host : Text) : orElseRule (hostLoop (fun key => some (rule key)) host)
      (some (rule [0x3d])) = some ((domains host ++ [[0x3d]]).findSome? rule) := by
    rw [hostLoop_domains, orElseRule_some, List.findSome?_append, findSome_cons]
    simp
  have byInfo (info : Text) : orElseRule (some (rule (info ++ 0x40 :: ip)))
      (ifKnown host fun host => some (rule (info ++ 0x40 :: 0x3d :: host))) =
      some (((info ++ 0x40 :: ip) ::
        ofKnown host fun host => [info ++ 0x40 :: 0x3d :: host]).findSome? rule) := by
    rw [ifKnown_some rule host _ (fun host => [info ++ 0x40 :: 0x3d :: host])
      fun host => by simp, orElseRule_some, findSome_cons]
  rw [List.take_length] at address
  rw [rulesDoit, address, ifKnown_some rule info _ _ byInfo, ifKnown_some rule host _ _ names,
    ifKnown_some rule host (fun host => some (rule (0x3d :: host))) (fun host => [0x3d :: host])
      fun host => by simp]
  simp only [orElseRule_some, candidates, List.findSome?_append, findSome_cons, List.findSome?_nil,
    Option.or_none]

end Loops

/-- One rule has one record for each key of its address, all with the same data. -/
theorem find_record (rule : Rule) (key : Text) :
    rule.records.find? (fun record => record.1 = key) =
      if rule.address.keys.contains key then some (key, rule.data) else none := by
  rw [Rule.records]
  induction rule.address.keys with
  | nil => rfl
  | cons first keys inductionHypothesis =>
    rw [List.map_cons, List.contains_cons]
    by_cases same : first = key
    · subst same
      simp
    · have other : (key == first) = false := by simpa using Ne.symm same
      rw [List.find?_cons_of_neg (by simpa using same), inductionHypothesis, other,
        Bool.false_or]

/-- The first record of a key is that of the first rule that has the key, since records are made
in the order of the rules. -/
theorem find_records (rules : List Rule) (key : Text) :
    ((rules.flatMap Rule.records).find? fun record => record.1 = key).map Prod.snd =
      (rules.find? fun rule => rule.address.keys.contains key).map Rule.data := by
  induction rules with
  | nil => rfl
  | cons rule rules inductionHypothesis =>
    rw [List.flatMap_cons, List.find?_append, find_record]
    by_cases covers : rule.address.keys.contains key = true
    · have first : (rule :: rules).find? (fun rule => rule.address.keys.contains key) = some rule :=
        List.find?_cons_of_pos covers
      rw [if_pos covers, first]
      rfl
    · have later : (rule :: rules).find? (fun rule => rule.address.keys.contains key) =
          rules.find? fun rule => rule.address.keys.contains key := List.find?_cons_of_neg covers
      rw [if_neg covers, Option.none_or, inductionHypothesis, later]

/-- The first rule for the most specific key that has one. A more specific key comes before a rule
that stands earlier in the text. -/
def governing (rules : List Rule) (ip : Text) (host info : Option Text) : Option Rule :=
  (candidates ip host info).findSome? fun key =>
    rules.find? fun rule => rule.address.keys.contains key

/-- What is done with a connection under these rules. Without a rule it is let in, with nothing
set. -/
def Rule.decision (rules : List Rule) (ip : Text) (host info : Option Text) : Access :=
  (governing rules ip host info).elim ⟨false, []⟩ Rule.access

/-- The rule that governs a connection is one of the rules. -/
theorem governing_mem {rules : List Rule} {ip : Text} {host info : Option Text} {rule : Rule}
    (governs : governing rules ip host info = some rule) : rule ∈ rules := by
  obtain ⟨key, -, first⟩ := List.exists_of_findSome?_eq_some governs
  exact List.mem_of_find?_eq_some first

/-- Every rule stands on a line. -/
theorem written_line {rules : List Rule} {lines : List Text}
    (written : List.Forall₂ Rule.Written rules lines) {rule : Rule} (member : rule ∈ rules) :
    ∃ line ∈ lines, rule.Written line := by
  induction written with
  | nil => contradiction
  | cons first _ inductionHypothesis =>
    rcases List.mem_cons.mp member with rfl | later
    · exact ⟨_, List.mem_cons_self, first⟩
    · obtain ⟨line, inside, written⟩ := inductionHypothesis later
      exact ⟨line, List.mem_cons_of_mem _ inside, written⟩

/-- The file that a text is compiled to treats a connection as the first rule of the text for the
most specific key decides.

This puts the two programs together. `tcprules_iff` says what records the file was made of,
`dorule_records` that looking one up finds the first of its key, `rulesDoit_candidates` in which
order keys are looked up, and `found_rule` what the data do that have been found. -/
theorem access_decided (text : Text) (rules : List Rule) (file : List Byte) (clean : 0 ∉ text)
    (listed : RulesOf text rules) (made : tcprules text = some file)
    (ip : Text) (host info : Option Text) :
    obey file ip host info = some (Rule.decision rules ip host info) := by
  have compiled := (ruleRecords_iff text clean _).mpr ⟨rules, listed, rfl⟩
  have made' : cdbMake (rules.flatMap Rule.records) = some file := by
    rwa [tcprules, compiled] at made
  have lookup : dorule file = fun key =>
      some ((rules.find? fun rule => rule.address.keys.contains key).map Rule.data) := by
    funext key
    rw [dorule_records made', find_records]
  have first : ((candidates ip host info).findSome? fun key =>
      (rules.find? fun rule => rule.address.keys.contains key).map Rule.data) =
      (governing rules ip host info).map Rule.data := List.map_findSome?.symm
  rw [obey, lookup, rulesDoit_candidates, first, Rule.decision]
  cases governs : governing rules ip host info with
  | none => rfl
  | some rule =>
    obtain ⟨line, member, written⟩ := written_line listed (governing_mem governs)
    have clean' : 0 ∉ line := fun zero =>
      clean (splitOnP_bytes _ text line (List.mem_of_mem_filter member) 0 zero)
    exact congrArg some (found_rule written clean')

/-- In the example the second and the third address are let in, and the next one is not. -/
theorem access_decided_range : ∃ file, tcprules exampleText = some file ∧
    obey file (latin1 "10.0.0.3") none none = some ⟨false, [(latin1 "GRUPPE", latin1 "a")]⟩ ∧
    obey file (latin1 "10.0.0.4") none none = some ⟨true, []⟩ := by
  obtain ⟨file, made⟩ := exampleText_made
  have clean : 0 ∉ exampleText := by decide +kernel
  have decided := access_decided exampleText exampleRules file clean exampleRules_listed made
  refine ⟨file, made, ?_, ?_⟩
  · rw [decided]
    decide +kernel
  · rw [decided]
    decide +kernel

end Schnitzeljagd.News
