import Mathlib.Logic.Function.Basic

/-!
# A copy of one record of a file

A program keeps the record that it used last in memory, under its name. It reads a record from
the file only if the copy has another name, and writes a changed copy back at once. While nobody
else writes to the file, every question is answered from the records in the file, except about
names under which a record was deleted or left unsaved behind the back of the copy.
-/

namespace Foundations.RecordCache

universe u
variable {κ δ ν α : Type u}

/-- How names are copied and how records are read and written. Under some names nothing is
saved. -/
structure Format (κ δ ν : Type u) where
  copy : κ → Option κ
  read : δ → Option ν
  write : ν → δ
  saves : κ → Bool

/-- The copy: the record that was used last, and the name it was loaded under. -/
structure Cache (κ ν : Type u) where
  name : κ
  value : ν

/-- The records, and the names of which the copy may be wrong. This is what is left of a cached
file when the copy is forgotten. -/
structure Register (κ ν : Type u) where
  records : κ → Option ν
  spent : κ → Prop

/-! ## The operations -/

section Operations

variable [DecidableEq κ]

/-- Loads a record unless it is in the copy, and says whether there is one. If there is none the
copy stays as it was. -/
def Format.load (format : Format κ δ ν) (stored : κ → Option δ) (cache : Cache κ ν) (name : κ) :
    Option (Bool × Cache κ ν) :=
  if cache.name = name then some (true, cache)
  else
    match stored name with
    | none => some (false, cache)
    | some val => do
      let value ← format.read val
      let name ← format.copy name
      some (true, ⟨name, value⟩)

/-- Saves the copy under its name, if something is saved under this name at all. -/
def Format.save (format : Format κ δ ν) (stored : κ → Option δ) (cache : Cache κ ν) :
    κ → Option δ :=
  if format.saves cache.name then
    Function.update stored cache.name (some (format.write cache.value))
  else stored

/-- Answers a question about a record after loading it, and has an answer for a record that is
missing. -/
def Format.ask (format : Format κ δ ν) (answer : ν → α) (missing : α) (name : κ)
    (cache : Cache κ ν) (stored : κ → Option δ) : Option (α × Cache κ ν × (κ → Option δ)) := do
  let (found, cache) ← format.load stored cache name
  some (if found then answer cache.value else missing, cache, stored)

/-- Changes a record, if there is one: it is loaded, changed in the copy and saved from there. -/
def Format.change (format : Format κ δ ν) (next : ν → Option ν) (done : α) (name : κ)
    (cache : Cache κ ν) (stored : κ → Option δ) : Option (α × Cache κ ν × (κ → Option δ)) := do
  let (found, cache) ← format.load stored cache name
  if found then
    let value ← next cache.value
    some (done, ⟨cache.name, value⟩, format.save stored ⟨cache.name, value⟩)
  else some (done, cache, stored)

/-- A record under a name, or none, which the copy knows. The name is not spent any more. -/
def Register.set (register : Register κ ν) (name : κ) (value : Option ν) : Register κ ν :=
  ⟨Function.update register.records name value, fun other => register.spent other ∧ other ≠ name⟩

/-- A question about a record, where there are only the records. It leaves them as they are. -/
def Register.ask (register : Register κ ν) (name : κ) (answer : ν → α) (missing : α) :
    α × Register κ ν :=
  ((register.records name).elim missing answer, register)

/-- A change of a record, where there are only the records. A record that is missing is not
changed. -/
def Register.change (register : Register κ ν) (name : κ) (next : ν → Option ν) (done : α) :
    α × Register κ ν :=
  (done, register.set name ((register.records name).bind next))

end Operations

/-- A name of which the copy may be wrong from now on, since it was changed there and not in the
file or the other way round. -/
def Register.spend (register : Register κ ν) (name : κ) : Register κ ν :=
  { register with spent := fun other => register.spent other ∨ other = name }

/-- The copy has been given up, so that there is no name left of which it may be wrong. -/
def Register.close (register : Register κ ν) : Register κ ν :=
  { register with spent := fun _ => False }

/-! ## What the file and the copy stand for -/

/-- The file holds these records: what is stored under a name can be read as the record, and
nothing is stored where there is none. -/
def Stands (read : δ → Option ν) (stored : κ → Option δ) (records : κ → Option ν) : Prop :=
  ∀ name, (stored name).map read = (records name).map some

/-- The copy agrees with the records, unless it has no name or one that is spent. The file holds
the records in any case. -/
structure Coherent (format : Format κ δ ν) (blank : κ → Prop) (cache : Cache κ ν)
    (stored : κ → Option δ) (register : Register κ ν) : Prop where
  stands : Stands format.read stored register.records
  agrees : blank cache.name ∨ register.spent cache.name ∨
    register.records cache.name = some cache.value

variable {format : Format κ δ ν} {blank : κ → Prop} {stored : κ → Option δ}
  {records : κ → Option ν} {read : δ → Option ν} {name : κ} {cache : Cache κ ν}
  {register : Register κ ν} {value : ν}

/-- Where there is no record the file has no entry. -/
theorem Stands.missing (stands : Stands read stored records) (missing : records name = none) :
    stored name = none := by
  have same := stands name
  rw [missing, Option.map_none] at same
  exact Option.map_eq_none_iff.mp same

/-- Where there is a record the file has an entry, and the record can be read from it. -/
theorem Stands.found (stands : Stands read stored records) (found : records name = some value) :
    ∃ val, stored name = some val ∧ read val = some value := by
  have same := stands name
  rw [found, Option.map_some] at same
  exact Option.map_eq_some_iff.mp same

/-- The file has an entry under a name exactly if there is a record. -/
theorem Stands.isSome (stands : Stands read stored records) (name : κ) :
    (stored name).isSome = (records name).isSome := by
  have same := congrArg Option.isSome (stands name)
  rwa [Option.isSome_map, Option.isSome_map] at same

/-- A file with its records is coherent with a copy that has no name. This is how a process
begins. -/
theorem Coherent.opened (stands : Stands format.read stored register.records)
    (closed : blank cache.name) : Coherent format blank cache stored register :=
  ⟨stands, Or.inl closed⟩

/-- It stays coherent when the record of a name replaces the copy. -/
theorem Coherent.loaded (coherent : Coherent format blank cache stored register)
    (found : register.records name = some value) :
    Coherent format blank ⟨name, value⟩ stored register :=
  ⟨coherent.stands, Or.inr (Or.inr found)⟩

/-- A copy under a name that may be asked for holds the record, so that the file need not be read.
-/
theorem Coherent.hit (coherent : Coherent format blank cache stored register)
    (named : ¬ blank cache.name) (trusted : ¬ register.spent cache.name) :
    register.records cache.name = some cache.value :=
  (coherent.agrees.resolve_left named).resolve_left trusted

/-- A copy that was changed and not saved is spent. The file still holds the records, but the copy
is not to be trusted under this name. -/
theorem Coherent.spoiled (coherent : Coherent format blank cache stored register) (name : κ)
    (value : ν) : Coherent format blank ⟨name, value⟩ stored (register.spend name) :=
  ⟨coherent.stands, Or.inr (Or.inl (Or.inr rfl))⟩

variable [DecidableEq κ]

/-- Storing a value where its record goes, or removing both, keeps the file in step with the
records. -/
theorem Stands.update (stands : Stands read stored records) (name : κ)
    (val : Option δ) (value : Option ν) (same : val.map read = value.map some) :
    Stands read (Function.update stored name val) (Function.update records name value) := by
  intro other
  by_cases here : other = name
  · subst here
    rwa [Function.update_self, Function.update_self]
  · rw [Function.update_of_ne here, Function.update_of_ne here]
    exact stands other

/-- A saved copy agrees with its record, if what is written can be read back. -/
theorem Coherent.saved (coherent : Coherent format blank cache stored register)
    (saves : format.saves name = true) (written : format.read (format.write value) = some value) :
    Coherent format blank ⟨name, value⟩ (format.save stored ⟨name, value⟩)
      (register.set name (some value)) := by
  rw [Format.save, if_pos saves]
  refine ⟨coherent.stands.update name _ (some value) (congrArg some written), Or.inr (Or.inr ?_)⟩
  exact Function.update_self ..

/-- A deleted record is spent where the copy may still hold it. Whoever asks for it next may be
answered from the copy. -/
theorem Coherent.deleted (coherent : Coherent format blank cache stored register) (name : κ) :
    Coherent format blank cache (Function.update stored name none)
      ((register.set name none).spend name) := by
  refine ⟨coherent.stands.update name none none rfl, ?_⟩
  by_cases here : cache.name = name
  · exact Or.inr (Or.inl (Or.inr here))
  · refine coherent.agrees.imp_right (Or.imp (fun spent => Or.inl ⟨spent, here⟩) fun agrees => ?_)
    show Function.update register.records name none cache.name = _
    rwa [Function.update_of_ne here]

/-- A record is deleted behind a copy of another one, which agrees with the file as before. -/
theorem Coherent.erased (coherent : Coherent format blank cache stored register)
    (other : blank cache.name ∨ cache.name ≠ name) :
    Coherent format blank cache (Function.update stored name none) (register.set name none) := by
  refine ⟨coherent.stands.update name none none rfl, ?_⟩
  rcases other with closed | other
  · exact Or.inl closed
  · refine coherent.agrees.imp_right (Or.imp (fun spent => ⟨spent, other⟩) fun agrees => ?_)
    show Function.update register.records name none cache.name = _
    rwa [Function.update_of_ne other]

/-! ## The operations on a coherent copy -/

variable (coherent : Coherent format blank cache stored register) (named : ¬ blank name)
  (trusted : ¬ register.spent name) (copied : format.copy name = some name)

include coherent in
/-- Where there is no record, none is found, and the copy stays as it was. -/
theorem Coherent.load_missing (named : ¬ blank name) (trusted : ¬ register.spent name)
    (missing : register.records name = none) :
    format.load stored cache name = some (false, cache) := by
  have other : cache.name ≠ name := by
    intro same
    subst same
    have agrees := coherent.hit named trusted
    rw [missing] at agrees
    contradiction
  rw [Format.load, if_neg other, coherent.stands.missing missing]

include coherent named trusted copied in
/-- A record is found, in the copy or in the file, and the copy holds it afterwards. -/
theorem Coherent.load_found (found : register.records name = some value) :
    format.load stored cache name = some (true, ⟨name, value⟩) := by
  by_cases same : cache.name = name
  · subst same
    rw [Format.load, if_pos rfl]
    have agrees := Option.some.inj (found.symm.trans (coherent.hit named trusted))
    rw [agrees]
  · obtain ⟨val, stored', read⟩ := coherent.stands.found found
    rw [Format.load, if_neg same, stored']
    simp only [read, copied, Option.bind_eq_bind, Option.bind_some]

include coherent named trusted copied in
/-- A question is answered from the records, whether it is answered from the copy or from the
file. -/
theorem Coherent.ask (answer : ν → α) (missing : α) :
    ∃ cache' stored', format.ask answer missing name cache stored =
        some ((register.ask name answer missing).1, cache', stored') ∧
      Coherent format blank cache' stored' (register.ask name answer missing).2 := by
  rw [Register.ask]
  cases found : register.records name with
  | none =>
    refine ⟨cache, stored, ?_, coherent⟩
    simp only [Format.ask, coherent.load_missing named trusted found, Option.bind_eq_bind,
      Option.bind_some, Bool.false_eq_true, if_false, Option.elim_none]
  | some value =>
    refine ⟨⟨name, value⟩, stored, ?_, coherent.loaded found⟩
    simp only [Format.ask, coherent.load_found named trusted copied found, Option.bind_eq_bind,
      Option.bind_some, if_true, Option.elim_some]

include coherent named trusted copied in
/-- A change is made to the record, if the changed record can be written and read back. The copy
and the file agree about it afterwards. -/
theorem Coherent.change (next : ν → Option ν) (done : α) (saves : format.saves name = true)
    (changes : ∀ value, register.records name = some value →
      ∃ value', next value = some value' ∧ format.read (format.write value') = some value') :
    ∃ cache' stored', format.change next done name cache stored =
        some ((register.change name next done).1, cache', stored') ∧
      Coherent format blank cache' stored' (register.change name next done).2 := by
  rw [Register.change]
  cases found : register.records name with
  | none =>
    refine ⟨cache, stored, ?_, ?_⟩
    · simp only [Format.change, coherent.load_missing named trusted found, Option.bind_eq_bind,
        Option.bind_some, Bool.false_eq_true, if_false]
    · have unchanged : Function.update register.records name none = register.records := by
        rw [← found, Function.update_eq_self]
      refine ⟨?_, ?_⟩
      · show Stands format.read stored (Function.update register.records name none)
        rw [unchanged]
        exact coherent.stands
      · refine coherent.agrees.imp_right (Or.imp (fun spent => ⟨spent, ?_⟩) fun agrees => ?_)
        · intro same
          exact trusted (same ▸ spent)
        · show Function.update register.records name none cache.name = _
          rwa [unchanged]
  | some value =>
    obtain ⟨value', changed, written⟩ := changes value found
    refine ⟨⟨name, value'⟩, format.save stored ⟨name, value'⟩, ?_, ?_⟩
    · simp only [Format.change, coherent.load_found named trusted copied found,
        Option.bind_eq_bind, Option.bind_some, if_true, changed]
    · rw [Option.bind_some, changed]
      exact coherent.saved saves written

end Foundations.RecordCache
