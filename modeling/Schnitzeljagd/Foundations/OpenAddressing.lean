import Mathlib.Data.List.Induction
import Mathlib.Data.List.ReduceOption
import Mathlib.Data.Nat.Find
import Mathlib.Data.Nat.ModEq
import Mathlib.Logic.Function.Basic

/-!
# Hash tables with linear probing

An entry goes to the first free slot from its home on, around the end of the table. Walking
from a home up to the first free slot then meets exactly the entries of that home, in the
order in which they came, besides entries of other homes. It needs no more than this that
between a home and each of its entries no slot is free.
-/

namespace Foundations.OpenAddressing

universe u
variable {α : Type u}

/-- The next slot, around the end of the table. -/
def advance (size place : Nat) : Nat := if place + 1 = size then 0 else place + 1

/-- The first free slot from a place on, if there is one among so many. Without a bound the search
would not end in a full table. -/
def probe (slots : Nat → Option α) (size : Nat) : Nat → Nat → Option Nat
  | 0, _ => none
  | fuel + 1, place =>
    if (slots place).isSome then probe slots size fuel (advance size place) else some place

/-- An entry goes to the first free slot from its home on. There is no result for a full table. -/
def insert (home : α → Nat) (size : Nat) (slots : Nat → Option α) (entry : α) :
    Option (Nat → Option α) :=
  (probe slots size size (home entry)).map fun place => Function.update slots place (some entry)

/-- The entries met from a place on, up to the first free slot. -/
def walk (slots : Nat → Option α) (size : Nat) : Nat → Nat → List α
  | 0, _ => []
  | fuel + 1, place =>
    match slots place with
    | none => []
    | some entry => entry :: walk slots size fuel (advance size place)

/-- All slots, from a start on, around the end of the table. Every search sees the table as such a
row. -/
def row (slots : Nat → Option α) (size start : Nat) : List (Option α) :=
  (List.range size).map fun distance => slots ((start + distance) % size)

variable {slots : Nat → Option α} {size : Nat}

/-- Going on by one slot is counting one further modulo the size. -/
theorem advance_mod (start distance : Nat) (positive : 0 < size) :
    advance size ((start + distance) % size) = (start + (distance + 1)) % size := by
  have inside : (start + distance) % size < size := Nat.mod_lt _ positive
  have next : (start + (distance + 1)) % size = ((start + distance) % size + 1) % size := by
    rw [Nat.mod_add_mod, Nat.add_assoc]
  unfold advance
  split
  · next last => rw [next, last, Nat.mod_self]
  · next inner => exact (next.trans (Nat.mod_eq_of_lt (by omega))).symm

/-- Slots at different distances from a start are different. -/
theorem distance_unique {start distance distance' : Nat} (inside : distance < size)
    (inside' : distance' < size)
    (same : (start + distance) % size = (start + distance') % size) : distance = distance' := by
  have congruent : distance ≡ distance' [MOD size] := Nat.ModEq.add_left_cancel' start same
  rwa [Nat.ModEq, Nat.mod_eq_of_lt inside, Nat.mod_eq_of_lt inside'] at congruent

/-- Every slot is at some distance from any start. -/
theorem distance_exists (start place : Nat) (inside : place < size) :
    ∃ distance < size, (start + distance) % size = place := by
  refine ⟨(place + (size - start % size)) % size, Nat.mod_lt _ (by omega), ?_⟩
  have within : start % size < size := Nat.mod_lt _ (by omega)
  rw [Nat.add_mod_mod, ← Nat.mod_add_mod]
  have whole : start % size + (place + (size - start % size)) = place + size := by omega
  rw [whole, Nat.add_mod_right, Nat.mod_eq_of_lt inside]

/-- A row has every slot once, wherever it starts. -/
theorem row_length (slots : Nat → Option α) (size start : Nat) :
    (row slots size start).length = size := by
  simp [row]

/-- The slot at a distance from the start, counted around the end. -/
theorem row_getElem? (slots : Nat → Option α) (start distance : Nat) (inside : distance < size) :
    (row slots size start)[distance]? = some (slots ((start + distance) % size)) := by
  simp [row, inside]

/-- Filling a slot changes every row in one position, which depends on where the row starts. -/
theorem row_update (slots : Nat → Option α) (start distance : Nat) (inside : distance < size)
    (entry : α) :
    row (Function.update slots ((start + distance) % size) (some entry)) size start =
      (row slots size start).set distance (some entry) := by
  apply List.ext_getElem?
  intro index
  by_cases short : index < size
  · rw [row_getElem? _ start index short, List.getElem?_set, row_getElem? _ start index short,
      row_length]
    by_cases same : distance = index
    · subst same
      simp [short]
    · have apart : (start + index) % size ≠ (start + distance) % size :=
        fun equal => same (distance_unique inside short equal.symm)
      simp [same, Function.update_of_ne apart]
  · rw [List.getElem?_eq_none (by rw [row_length]; omega),
      List.getElem?_eq_none (by rw [List.length_set, row_length]; omega)]

/-- The probe stops at the nearest free slot, if its bound reaches that far. -/
theorem probe_nearest (slots : Nat → Option α) (start nearest distance fuel : Nat)
    (positive : 0 < size) (free : slots ((start + nearest) % size) = none)
    (taken : ∀ closer < nearest, (slots ((start + closer) % size)).isSome)
    (before : distance ≤ nearest) (enough : nearest < distance + fuel) :
    probe slots size fuel ((start + distance) % size) = some ((start + nearest) % size) := by
  induction fuel generalizing distance with
  | zero => omega
  | succ fuel inductionHypothesis =>
    rcases Nat.eq_or_lt_of_le before with arrived | short
    · subst arrived
      simp [probe, free]
    · simp only [probe, taken distance short, if_true, advance_mod start distance positive]
      exact inductionHypothesis (distance + 1) short (by omega)

/-- The walk sees the row up to its first gap, and the entries there in their order. -/
theorem walk_row (slots : Nat → Option α) (start distance fuel : Nat) (positive : 0 < size)
    (whole : distance + fuel = size) :
    walk slots size fuel ((start + distance) % size) =
      (((row slots size start).drop distance).takeWhile Option.isSome).reduceOption := by
  induction fuel generalizing distance with
  | zero =>
    rw [List.drop_eq_nil_of_le (by rw [row_length]; omega)]
    rfl
  | succ fuel inductionHypothesis =>
    have inside : distance < (row slots size start).length := by
      rw [row_length]
      omega
    have here : (row slots size start)[distance] = slots ((start + distance) % size) :=
      Option.some.inj ((List.getElem?_eq_getElem inside).symm.trans
        (row_getElem? slots start distance (by omega)))
    rw [List.drop_eq_getElem_cons inside, here]
    cases stored : slots ((start + distance) % size) with
    | none => simp [walk, stored]
    | some entry =>
      simp only [walk, stored, Option.isSome_some, List.takeWhile_cons_of_pos,
        List.reduceOption_cons_of_some, advance_mod start distance positive]
      rw [inductionHypothesis (distance + 1) (by omega)]

/-! ## Tables filled by insertion -/

variable {home : α → Nat} {entries : List α}

/-- What a filled table says about the entries that were inserted: each home is met by its entries
in their order, and between a home and each of its entries there is no gap. -/
structure Filled (home : α → Nat) (size : Nat) (slots : Nat → Option α) (entries : List α) :
    Prop where
  met : ∀ start < size, ((row slots size start).reduceOption.filter fun entry =>
    home entry = start) = entries.filter fun entry => home entry = start
  near : ∀ start < size, ∀ distance < size, ∀ entry,
    slots ((start + distance) % size) = some entry → home entry = start →
      ∀ closer < distance, (slots ((start + closer) % size)).isSome
  used : (row slots size 0).reduceOption.length = entries.length

/-- An empty table holds no entries, and every search for one ends at once. -/
theorem filled_empty (home : α → Nat) (size : Nat) : Filled home size (fun _ => none) [] := by
  have vacant : ∀ start, (row (fun _ => (none : Option α)) size start).reduceOption = [] := by
    intro start
    simp [row, List.reduceOption]
  constructor
  · intro start _
    simp [vacant start]
  · intro start _ distance _ entry stored
    simp at stored
  · simp [vacant 0]

/-- In a row without gaps every slot counts, so that as many entries are met as there are slots.
-/
theorem reduceOption_length_of_all (list : List (Option α)) (all : ∀ slot ∈ list, slot.isSome) :
    list.reduceOption.length = list.length := by
  rw [List.reduceOption_length_eq_iff]
  exact all

/-- A table with fewer entries than slots has a free slot near every start, with only taken ones
before it. -/
theorem Filled.free (filled : Filled home size slots entries) (room : entries.length < size)
    (start : Nat) : ∃ nearest < size, slots ((start + nearest) % size) = none ∧
      ∀ closer < nearest, (slots ((start + closer) % size)).isSome := by
  have gap : ∃ place < size, slots place = none := by
    by_contra full
    push Not at full
    have whole := reduceOption_length_of_all (row slots size 0) (by
      intro slot member
      obtain ⟨place, inside, rfl⟩ := List.mem_map.mp member
      have below : place < size := List.mem_range.mp inside
      rw [Nat.zero_add, Nat.mod_eq_of_lt below]
      exact Option.isSome_iff_ne_none.mpr (full place below))
    rw [filled.used, row_length] at whole
    omega
  obtain ⟨place, inside, vacant⟩ := gap
  have some : ∃ distance, distance < size ∧ slots ((start + distance) % size) = none := by
    obtain ⟨distance, short, same⟩ := distance_exists start place inside
    exact ⟨distance, short, same ▸ vacant⟩
  classical
  refine ⟨Nat.find some, (Nat.find_spec some).1, (Nat.find_spec some).2, ?_⟩
  intro closer nearer
  have taken := Nat.find_min some nearer
  rw [Option.isSome_iff_ne_none]
  exact fun empty => taken ⟨nearer.trans (Nat.find_spec some).1, empty⟩

/-- A gap of a row, before and after it is filled: the new entry comes between those before and
those behind it. -/
theorem reduceOption_gap (list : List (Option α)) (index : Nat) (gap : list[index]? = some none)
    (entry : α) :
    list.reduceOption = (list.take index).reduceOption ++ (list.drop (index + 1)).reduceOption ∧
      (list.set index (some entry)).reduceOption =
        (list.take index).reduceOption ++ entry :: (list.drop (index + 1)).reduceOption := by
  obtain ⟨inside, value⟩ := List.getElem?_eq_some_iff.mp gap
  have split : list = list.take index ++ none :: list.drop (index + 1) := by
    rw [← value, List.getElem_cons_drop, List.take_append_drop]
  constructor
  · calc list.reduceOption = (list.take index ++ none :: list.drop (index + 1)).reduceOption :=
        congrArg List.reduceOption split
      _ = _ := by rw [List.reduceOption_append, List.reduceOption_cons_of_none]
  · rw [List.set_eq_take_append_cons_drop, if_pos inside, List.reduceOption_append,
      List.reduceOption_cons_of_some]

/-- Behind a gap there is no entry whose home is the start of the row, or the gap would be between
the two. -/
theorem Filled.behind (filled : Filled home size slots entries) {start gap : Nat}
    (inside : start < size) (vacant : slots ((start + gap) % size) = none) :
    ((row slots size start).drop (gap + 1)).reduceOption.filter
      (fun entry => home entry = start) = [] := by
  rw [List.filter_eq_nil_iff]
  intro entry member same
  obtain ⟨index, stored⟩ :=
    List.mem_iff_getElem?.mp (List.reduceOption_mem_iff.mp member)
  rw [List.getElem?_drop] at stored
  have within : gap + 1 + index < size := by
    obtain ⟨below, -⟩ := List.getElem?_eq_some_iff.mp stored
    simpa only [row_length] using below
  rw [row_getElem? slots start _ within, Option.some.injEq] at stored
  have taken := filled.near start inside (gap + 1 + index) within entry stored
    (of_decide_eq_true same) gap (by omega)
  rw [vacant] at taken
  contradiction

/-- A taken slot stays taken when another one is filled. -/
theorem isSome_update (place other : Nat) (entry : α) (taken : (slots other).isSome) :
    (Function.update slots place (some entry) other).isSome := by
  by_cases same : other = place
  · simp [same]
  · simpa [same] using taken

/-- Inserting one entry, as long as there is room, appends it to what its home meets.

The probe ends at the free slot nearest to the home. Seen from there, no entry of the same home
lies behind that slot, so that the new one is the last of them. Seen from another start, the slot
is a gap that gets filled with an entry of no interest. -/
theorem insert_filled (filled : Filled home size slots entries) (room : entries.length < size)
    (entry : α) (inside : home entry < size) :
    ∃ slots', insert home size slots entry = some slots' ∧
      Filled home size slots' (entries ++ [entry]) := by
  obtain ⟨nearest, short, vacant, taken⟩ := filled.free room (home entry)
  have positive : 0 < size := by omega
  have found : probe slots size size (home entry) = some ((home entry + nearest) % size) := by
    have walked := probe_nearest slots (home entry) nearest 0 size positive vacant taken
      (Nat.zero_le nearest) (by omega)
    rwa [Nat.add_zero, Nat.mod_eq_of_lt inside] at walked
  refine ⟨Function.update slots ((home entry + nearest) % size) (some entry), by
    simp [insert, found], ?_⟩
  -- Seen from any other start, the slot that is filled lies at some distance as well.
  have seen : ∀ start < size, ∃ distance < size,
      (start + distance) % size = (home entry + nearest) % size :=
    fun start _ => distance_exists start _ (Nat.mod_lt _ positive)
  constructor
  · intro start below
    obtain ⟨distance, reach, same⟩ := seen start below
    have gap : (row slots size start)[distance]? = some none := by
      rw [row_getElem? slots start distance reach, same, vacant]
    obtain ⟨before, after⟩ := reduceOption_gap _ distance gap entry
    rw [← same, row_update slots start distance reach, after, List.filter_append,
      List.filter_append, ← filled.met start below, before, List.filter_append]
    by_cases own : home entry = start
    · subst own
      obtain rfl : distance = nearest := distance_unique reach short same
      rw [List.filter_cons_of_pos (by simp), filled.behind below vacant]
      simp
    · rw [List.filter_cons_of_neg (by simp [own])]
      simp [own]
  · intro start below distance reach entry' stored own closer nearer
    by_cases new : (start + distance) % size = (home entry + nearest) % size
    · obtain rfl : entry = entry' := by simpa [new] using stored
      subst own
      obtain rfl : distance = nearest := distance_unique reach short new
      exact isSome_update _ _ entry (taken closer nearer)
    · rw [Function.update_of_ne new] at stored
      exact isSome_update _ _ entry
        (filled.near start below distance reach entry' stored own closer nearer)
  · obtain ⟨distance, reach, same⟩ := seen 0 positive
    have gap : (row slots size 0)[distance]? = some none := by
      rw [row_getElem? slots 0 distance reach, same, vacant]
    obtain ⟨before, after⟩ := reduceOption_gap _ distance gap entry
    have counted := filled.used
    rw [before, List.length_append] at counted
    rw [← same, row_update slots 0 distance reach, after, List.length_append, List.length_cons,
      List.length_append, List.length_singleton]
    omega

/-- Inserting the entries of a list one after another, if there are no more than slots. -/
theorem insertAll_filled (home : α → Nat) (size : Nat) (entries : List α)
    (room : entries.length ≤ size) (inside : ∀ entry ∈ entries, home entry < size) :
    ∃ slots, entries.foldlM (insert home size) (fun _ => none) = some slots ∧
      Filled home size slots entries := by
  induction entries using List.reverseRecOn with
  | nil => exact ⟨fun _ => none, rfl, filled_empty home size⟩
  | append_singleton entries entry inductionHypothesis =>
    rw [List.length_append, List.length_singleton] at room
    obtain ⟨slots, ran, filled⟩ := inductionHypothesis (by omega) fun other member =>
      inside other (List.mem_append_left _ member)
    obtain ⟨slots', inserted, filled'⟩ :=
      insert_filled filled (by omega) entry (inside entry (by simp))
    exact ⟨slots', by simp [List.foldlM_append, ran, inserted], filled'⟩

/-- What is in the table was inserted, and nothing else gets there. -/
theorem Filled.member (filled : Filled home size slots entries) {place : Nat}
    (short : place < size) {entry : α} (stored : slots place = some entry)
    (inside : home entry < size) : entry ∈ entries := by
  obtain ⟨distance, reach, rfl⟩ := distance_exists (home entry) place short
  have met : entry ∈ (row slots size (home entry)).reduceOption.filter fun other =>
      home other = home entry := by
    rw [List.mem_filter, List.reduceOption_mem_iff]
    refine ⟨List.mem_of_getElem? (i := distance) ?_, by simp⟩
    rw [row_getElem? slots _ distance reach, stored]
  rw [filled.met (home entry) inside] at met
  exact List.mem_of_mem_filter met

/-- The walk from a home meets its entries in the order in which they were inserted, whatever
other entries are in between.

The walk stops at the first gap of the row that begins at the home. Behind it there is no entry of
this home, so that nothing is missed. -/
theorem Filled.walk (filled : Filled home size slots entries) {start : Nat}
    (inside : start < size) :
    ((walk slots size size start).filter fun entry => home entry = start) =
      entries.filter fun entry => home entry = start := by
  have positive : 0 < size := by omega
  have seen := walk_row slots start 0 size positive (Nat.zero_add size)
  rw [Nat.add_zero, Nat.mod_eq_of_lt inside, List.drop_zero] at seen
  rw [seen, ← filled.met start inside]
  -- What the walk leaves out lies behind the first gap of the row.
  have split := List.takeWhile_append_dropWhile (p := Option.isSome) (l := row slots size start)
  cases rest : (row slots size start).dropWhile Option.isSome with
  | nil =>
    rw [rest, List.append_nil] at split
    rw [split]
  | cons slot later =>
    rw [rest] at split
    have vacant : slot = none := by
      have refused := List.head_dropWhile_not Option.isSome
        (show (row slots size start).dropWhile Option.isSome ≠ [] by simp [rest])
      simpa [rest] using refused
    generalize taken : (row slots size start).takeWhile Option.isSome = before at split
    subst vacant
    have short : before.length < size := by
      have whole := congrArg List.length split
      rw [List.length_append, List.length_cons, row_length] at whole
      omega
    have gap : slots ((start + before.length) % size) = none := by
      have stored := row_getElem? slots start before.length short
      rw [← split] at stored
      simpa using stored.symm
    have nothing := filled.behind inside gap
    rw [← split] at nothing ⊢
    have dropped : (before ++ none :: later).drop (before.length + 1) = later := by simp
    rw [dropped] at nothing
    rw [List.reduceOption_append, List.reduceOption_cons_of_none, List.filter_append, nothing,
      List.append_nil]

/-- What a walk meets is in the table, at some slot of it. -/
theorem walk_stored (fuel place : Nat) (inside : place < size) {entry : α}
    (met : entry ∈ OpenAddressing.walk slots size fuel place) :
    ∃ place' < size, slots place' = some entry := by
  induction fuel generalizing place with
  | zero => simp [OpenAddressing.walk] at met
  | succ fuel inductionHypothesis =>
    cases stored : slots place with
    | none => simp [OpenAddressing.walk, stored] at met
    | some first =>
      simp only [OpenAddressing.walk, stored, List.mem_cons] at met
      rcases met with rfl | later
      · exact ⟨place, inside, stored⟩
      · refine inductionHypothesis (advance size place) ?_ later
        unfold advance
        split <;> omega

/-- A walk finds the entries that are kept if the home of all of them is where it starts. -/
theorem Filled.find (filled : Filled home size slots entries)
    (homes : ∀ entry, home entry < size) {start : Nat} (inside : start < size) (keep : α → Bool)
    (own : ∀ entry ∈ entries, keep entry = true → home entry = start) :
    (OpenAddressing.walk slots size size start).filter keep = entries.filter keep := by
  have met : ∀ entry ∈ OpenAddressing.walk slots size size start, entry ∈ entries := by
    intro entry member
    obtain ⟨place, short, stored⟩ := walk_stored size start inside member
    exact filled.member short stored (homes entry)
  have twice : ∀ list : List α, (∀ entry ∈ list, entry ∈ entries) →
      list.filter keep = (list.filter fun entry => home entry = start).filter keep := by
    intro list within
    rw [List.filter_filter]
    apply List.filter_congr
    intro entry member
    by_cases kept : keep entry = true
    · simp [kept, own entry (within entry member) kept]
    · simp [kept]
  rw [twice _ met, filled.walk inside, ← twice _ fun _ member => member]

end Foundations.OpenAddressing
