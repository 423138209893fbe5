import Schnitzeljagd.News.ConstantDatabase
import Schnitzeljagd.Foundations.Loops

/-!
# What lies where in a constant database

The writer keeps the position of the next byte while it appends, so the pointers it collects
lead to the records. The tables follow the records, the pointers to the tables precede them.
-/

namespace Schnitzeljagd.News

open Foundations.CArithmetic Foundations.Distribution Foundations.OpenAddressing
open Foundations.Segments Foundations.Loops

/-- A record in the file: two lengths, the key and the data. -/
def recordBytes (record : List Byte × List Byte) : List Byte :=
  pack record.1.length ++ pack record.2.length ++ record.1 ++ record.2

/-- The pointers to records that lie one behind the other from this place on. -/
def pointersFrom (place : Nat) : List (List Byte × List Byte) → List Pointer
  | [] => []
  | record :: records =>
    ⟨cdbHash record.1, place⟩ :: pointersFrom (place + (recordBytes record).length) records

/-- The two lengths take eight bytes, and the key and the data as many as they have. -/
theorem recordBytes_length (record : List Byte × List Byte) :
    (recordBytes record).length = 8 + record.1.length + record.2.length := by
  simp only [recordBytes, List.length_append, pack_length]

/-- Adding a record writes it behind the others and keeps a pointer to it. There is a result only
if the place behind it can still be written as a number of 32 bits. -/
theorem makeAdd_some {make next : Make} {record : List Byte × List Byte}
    (below : make.pos < 2 ^ 32) (added : makeAdd make record = some next) :
    next.written = make.written ++ recordBytes record ∧
      next.head = ⟨cdbHash record.1, make.pos⟩ :: make.head ∧
      next.pos = make.pos + (recordBytes record).length ∧ next.pos < 2 ^ 32 ∧
      record.1.length < 2 ^ 32 ∧ record.2.length < 2 ^ 32 := by
  simp only [makeAdd] at added
  split at added
  · contradiction
  · next short =>
    simp only [Option.bind_eq_bind, Option.bind_eq_some_iff, Option.some.injEq] at added
    obtain ⟨pos, first, pos', second, pos'', third, rfl⟩ := added
    obtain ⟨at1, below1⟩ := posPlus_some below (by decide) first
    obtain ⟨at2, below2⟩ := posPlus_some below1 (by omega) second
    obtain ⟨at3, below3⟩ := posPlus_some below2 (by omega) third
    refine ⟨?_, rfl, ?_, below3, by omega, by omega⟩
    · simp only [recordBytes, List.append_assoc]
    · show pos'' = make.pos + (recordBytes record).length
      rw [recordBytes_length]
      omega

/-- Adding records one after another, with the pointers in reverse, as the source keeps them. -/
theorem makeAdd_all (records : List (List Byte × List Byte)) (make next : Make)
    (below : make.pos < 2 ^ 32) (added : records.foldlM makeAdd make = some next) :
    next.written = make.written ++ records.flatMap recordBytes ∧
      next.head = (pointersFrom make.pos records).reverse ++ make.head ∧
      next.pos = make.pos + (records.flatMap recordBytes).length ∧ next.pos < 2 ^ 32 ∧
      ∀ record ∈ records, record.1.length < 2 ^ 32 ∧ record.2.length < 2 ^ 32 := by
  induction records generalizing make with
  | nil =>
    obtain rfl : make = next := Option.some.inj added
    simpa [pointersFrom] using below
  | cons record records inductionHypothesis =>
    obtain ⟨make', first, rest⟩ := Option.bind_eq_some_iff.mp added
    obtain ⟨written, head, pos, below', short⟩ := makeAdd_some below first
    obtain ⟨written', head', pos', below'', short'⟩ := inductionHypothesis make' below' rest
    refine ⟨?_, ?_, ?_, below'', ?_⟩
    · rw [written', written, List.flatMap_cons, List.append_assoc]
    · rw [head', head, pos, pointersFrom, List.reverse_cons, List.append_assoc]
      rfl
    · rw [pos', pos, List.flatMap_cons, List.length_append, Nat.add_assoc]
    · exact List.forall_mem_cons.mpr ⟨short, short'⟩

/-! ## The tables -/

/-- The slots of a table as the searches see them: position 0 is none, since no record lies there.
-/
def view (hash : Nat → Pointer) (place : Nat) : Option Pointer :=
  if (hash place).pos = 0 then none else some (hash place)

/-- The slot in which the search for a pointer begins, by the upper bits of its hash. -/
def home (length : Nat) (pointer : Pointer) : Nat := pointer.hash / 2 ^ 8 % length

/-- The loop that looks for a free slot is the probing of open addressing. -/
theorem freeSlot_probe (hash : Nat → Pointer) (length fuel place : Nat) :
    freeSlot hash length fuel place = probe (view hash) length fuel place := by
  induction fuel generalizing place with
  | zero => rfl
  | succ fuel inductionHypothesis =>
    by_cases vacant : (hash place).pos = 0
    · simp [freeSlot, probe, view, vacant]
    · simp [freeSlot, probe, view, vacant, inductionHypothesis, advance]

/-- Filling a table with pointers to places other than 0 is inserting them by open addressing. -/
theorem fillSlot_insert (length : Nat) (pointers : List Pointer)
    (real : ∀ pointer ∈ pointers, pointer.pos ≠ 0) (hash : Nat → Pointer)
    (slots : Nat → Option Pointer)
    (inserted : pointers.foldlM (insert (home length) length) (view hash) = some slots) :
    ∃ hash', pointers.foldlM (fillSlot length) hash = some hash' ∧ view hash' = slots := by
  induction pointers generalizing hash with
  | nil => exact ⟨hash, rfl, Option.some.inj inserted⟩
  | cons pointer pointers inductionHypothesis =>
    obtain ⟨slots', first, rest⟩ := Option.bind_eq_some_iff.mp inserted
    obtain ⟨place, found, rfl⟩ := Option.map_eq_some_iff.mp first
    have real' : pointer.pos ≠ 0 := real pointer List.mem_cons_self
    have seen : view (Function.update hash place pointer) =
        Function.update (view hash) place (some pointer) := by
      funext other
      by_cases same : other = place
      · subst same
        simp [view, real']
      · simp [view, Function.update_of_ne same]
    obtain ⟨hash', filled, viewed⟩ := inductionHypothesis
      (fun other member => real other (List.mem_cons_of_mem _ member))
      (Function.update hash place pointer) (seen ▸ rest)
    refine ⟨hash', ?_, viewed⟩
    have turn : fillSlot length hash pointer = some (Function.update hash place pointer) := by
      rw [home] at found
      rw [fillSlot, freeSlot_probe, found]
      rfl
    rw [List.foldlM_cons, turn]
    exact filled

/-- The table of some pointers, with twice as many slots, so there is always room. -/
theorem fillSlot_filled (pointers : List Pointer) (real : ∀ pointer ∈ pointers, pointer.pos ≠ 0)
    (length : Nat) (twice : length = pointers.length + pointers.length) :
    ∃ hash, pointers.foldlM (fillSlot length) (fun _ => ⟨0, 0⟩) = some hash ∧
      Filled (home length) length (view hash) pointers := by
  obtain ⟨slots, inserted, filled⟩ := insertAll_filled (home length) length pointers (by omega)
    (fun pointer member => Nat.mod_lt _ (by
      have some : 0 < pointers.length := List.length_pos_of_mem member
      omega))
  obtain ⟨hash, ran, rfl⟩ := fillSlot_insert length pointers real (fun _ => ⟨0, 0⟩) slots inserted
  exact ⟨hash, ran, filled⟩

/-- Reading a list element by element gives the list, if there is an element at every index. -/
theorem mapM_range {α : Type} (list : List α) (read : Nat → Option α)
    (reads : ∀ index < list.length, read index = list[index]?) :
    (List.range list.length).mapM read = some list := by
  induction list using List.reverseRecOn with
  | nil => rfl
  | append_singleton list element inductionHypothesis =>
    have before := inductionHypothesis fun index short => by
      rw [reads index (by simp only [List.length_append]; omega), List.getElem?_append_left short]
    have last : read list.length = some element := by
      rw [reads list.length (by simp)]
      simp
    rw [List.length_append, List.length_singleton, List.range_succ, List.mapM_append, before]
    simp [last]

/-- A slot in the file: the hash, and the place of the record. A free slot has place 0. -/
def slotBytes (hash : Nat → Pointer) (place : Nat) : List Byte :=
  pack (hash place).hash ++ pack (hash place).pos

/-- Writing slots one after another puts them behind what was written. -/
theorem writeSlot_all (hash : Nat → Pointer) (places : List Nat) (tables next : Tables)
    (below : tables.pos < 2 ^ 32) (wrote : places.foldlM (writeSlot hash) tables = some next) :
    next.final = tables.final ∧ next.written = tables.written ++ places.flatMap (slotBytes hash) ∧
      next.pos = tables.pos + (places.flatMap (slotBytes hash)).length ∧ next.pos < 2 ^ 32 := by
  induction places generalizing tables with
  | nil =>
    obtain rfl : tables = next := Option.some.inj wrote
    simpa using below
  | cons place places inductionHypothesis =>
    obtain ⟨tables', first, rest⟩ := Option.bind_eq_some_iff.mp wrote
    obtain ⟨pos, added, same⟩ := Option.bind_eq_some_iff.mp first
    obtain rfl := Option.some.inj same
    obtain ⟨moved, below'⟩ := posPlus_some below (by decide) added
    obtain ⟨final, written, pos', below''⟩ := inductionHypothesis _ below' rest
    refine ⟨final, ?_, ?_, below''⟩
    · rw [written, List.flatMap_cons, slotBytes]
      simp only [List.append_assoc]
    · rw [pos', List.flatMap_cons, List.length_append, moved]
      simp only [slotBytes, List.length_append, pack_length]
      omega

/-- The pointers of one remainder, in the order of their records. -/
def bucket (entries : List Pointer) (number : Nat) : List Pointer :=
  entries.filter fun pointer => remainder pointer = number

/-- The number of slots of their table, twice that of the pointers, so that one is always free. -/
def slotCount (entries : List Pointer) (number : Nat) : Nat :=
  (bucket entries number).length + (bucket entries number).length

/-- The counts that the source keeps are the lengths of the buckets that it fills. -/
theorem countP_bucket (entries : List Pointer) (number : Nat) :
    (entries.countP fun pointer => remainder pointer = number) =
      (bucket entries number).length := by
  rw [bucket, List.countP_eq_length_filter]

/-- One table more: its slots are written behind the others, and its entry in the header names
their place and number. -/
theorem writeTable_some {entries : List Pointer} (real : ∀ pointer ∈ entries, pointer.pos ≠ 0)
    {tables next : Tables} (number : Nat) (below : tables.pos < 2 ^ 32)
    (wrote : writeTable
      (fun number => entries.countP fun pointer => remainder pointer = number)
      (placeAll remainder (upTo remainder entries) entries) tables number = some next) :
    ∃ hash, Filled (home (slotCount entries number)) (slotCount entries number) (view hash)
        (bucket entries number) ∧
      next.final = tables.final ++ (pack tables.pos ++ pack (slotCount entries number)) ∧
      next.written = tables.written ++
        (List.range (slotCount entries number)).flatMap (slotBytes hash) ∧
      next.pos = tables.pos +
        ((List.range (slotCount entries number)).flatMap (slotBytes hash)).length ∧
      next.pos < 2 ^ 32 := by
  obtain ⟨-, stored⟩ := placeAll_region (regions_upTo remainder entries) number
  rw [countP_bucket] at stored
  have pointers : ((List.range (bucket entries number).length).mapM fun index =>
      (placeAll remainder (upTo remainder entries) entries).slots
        ((placeAll remainder (upTo remainder entries) entries).start number + index)) =
      some (bucket entries number) := mapM_range (bucket entries number) _ stored
  obtain ⟨hash, filled, held⟩ := fillSlot_filled (bucket entries number)
    (fun pointer member => real pointer (List.mem_of_mem_filter member))
    (slotCount entries number) rfl
  simp only [writeTable, countP_bucket, pointers, Option.bind_eq_bind, Option.bind_some] at wrote
  rw [← slotCount, filled, Option.bind_some] at wrote
  obtain ⟨final, written, pos, below'⟩ := writeSlot_all hash _
    ⟨tables.final ++ pack tables.pos ++ pack (slotCount entries number), tables.written,
      tables.pos⟩ next below wrote
  exact ⟨hash, held, by rw [final, List.append_assoc], written, pos, below'⟩

/-- Where a table was written, and that it is filled with the pointers of its remainder. -/
structure Table (final written : List Byte) (entries : List Pointer) (number : Nat) where
  hpos : Nat
  hash : Nat → Pointer
  below : hpos < 2 ^ 32
  behind : 2048 ≤ hpos
  header : At final (8 * number) (pack hpos ++ pack (slotCount entries number))
  slots : At written (hpos - 2048)
    ((List.range (slotCount entries number)).flatMap (slotBytes hash))
  filled : Filled (home (slotCount entries number)) (slotCount entries number) (view hash)
    (bucket entries number)

/-- What is written later changes nothing about a table, since it lies where it did. -/
theorem Table.append {final written : List Byte} {entries : List Pointer} {number : Nat}
    (table : Table final written entries number) (more more' : List Byte) :
    Nonempty (Table (final ++ more) (written ++ more') entries number) :=
  ⟨⟨table.hpos, table.hash, table.below, table.behind, table.header.append more,
    table.slots.append more', table.filled⟩⟩

/-- Writing the tables of so many remainders, by induction on their number. Each of them stays
where it is while the others are written. -/
theorem writeTable_all {entries : List Pointer} (real : ∀ pointer ∈ entries, pointer.pos ≠ 0)
    (written : List Byte) (below : 2048 + written.length < 2 ^ 32) (numbers : Nat) (next : Tables)
    (wrote : (List.range numbers).foldlM (writeTable
      (fun number => entries.countP fun pointer => remainder pointer = number)
      (placeAll remainder (upTo remainder entries) entries))
      ⟨[], written, 2048 + written.length⟩ = some next) :
    next.final.length = 8 * numbers ∧ next.pos = 2048 + next.written.length ∧
      next.pos < 2 ^ 32 ∧ written <+: next.written ∧
      ∀ number < numbers, Nonempty (Table next.final next.written entries number) := by
  induction numbers generalizing next with
  | zero =>
    obtain rfl := Option.some.inj wrote
    exact ⟨rfl, rfl, below, List.prefix_refl written, by simp⟩
  | succ numbers inductionHypothesis =>
    rw [List.range_succ] at wrote
    obtain ⟨tables, earlier, turn⟩ := foldlM_concat.mp wrote
    obtain ⟨length, pos, below', grown, held⟩ := inductionHypothesis tables earlier
    obtain ⟨hash, filled, final', written', pos', below''⟩ :=
      writeTable_some real numbers below' turn
    refine ⟨?_, ?_, below'', ?_, ?_⟩
    · rw [final', List.length_append, length]
      simp only [List.length_append, pack_length]
      omega
    · rw [pos', written', List.length_append, pos, Nat.add_assoc]
    · rw [written']
      exact grown.trans (List.prefix_append _ _)
    · intro number short
      by_cases last : number = numbers
      · subst last
        refine ⟨⟨tables.pos, hash, below', by omega, ?_, ?_, filled⟩⟩
        · rw [final', ← length]
          exact at_end _ _
        · rw [written', pos, Nat.add_sub_cancel_left]
          exact at_end _ _
      · obtain ⟨table⟩ := held number (by omega)
        rw [final', written']
        exact table.append _ _

/-! ## The whole file -/

/-- A record and the pointer that leads to it: the hash of its key, and a place where it lies. -/
structure Leads (file : List Byte) (pointer : Pointer) (record : List Byte × List Byte) : Prop where
  hash : pointer.hash = cdbHash record.1
  real : pointer.pos ≠ 0
  lies : At file pointer.pos (recordBytes record)

/-- Where a database has the table of a remainder, seen from the whole file. -/
structure TableOf (file : List Byte) (entries : List Pointer) (number : Nat) where
  hpos : Nat
  hash : Nat → Pointer
  header : At file (8 * number) (pack hpos ++ pack (slotCount entries number))
  slots : At file hpos ((List.range (slotCount entries number)).flatMap (slotBytes hash))
  filled : Filled (home (slotCount entries number)) (slotCount entries number) (view hash)
    (bucket entries number)

/-- A file that can be searched for these records: all of them lie in it, and every remainder has
its table. -/
structure Database (file : List Byte) (records : List (List Byte × List Byte)) where
  small : file.length < 2 ^ 32
  entries : List Pointer
  leads : List.Forall₂ (Leads file) entries records
  tables : ∀ number < 256, Nonempty (TableOf file entries number)

/-- No record lies at position 0, where the header is, so that a pointer is never mistaken for a
free slot. -/
theorem pointersFrom_real (place : Nat) (behind : place ≠ 0)
    (records : List (List Byte × List Byte)) :
    ∀ pointer ∈ pointersFrom place records, pointer.pos ≠ 0 := by
  induction records generalizing place with
  | nil => simp [pointersFrom]
  | cons record records inductionHypothesis =>
    exact List.forall_mem_cons.mpr ⟨behind, inductionHypothesis _ (by omega)⟩

/-- The pointers lead to the records behind whatever precedes them, in their order. -/
theorem pointersFrom_leads (front more : List Byte) (behind : front ≠ [])
    (records : List (List Byte × List Byte)) :
    List.Forall₂ (Leads (front ++ (records.flatMap recordBytes ++ more)))
      (pointersFrom front.length records) records := by
  induction records generalizing front with
  | nil => exact .nil
  | cons record records inductionHypothesis =>
    have later := inductionHypothesis (front ++ recordBytes record) (by simp [behind])
    rw [List.length_append] at later
    rw [List.flatMap_cons, List.append_assoc]
    refine .cons ⟨rfl, ?_, ?_⟩ ?_
    · exact List.length_eq_zero_iff.not.mpr behind
    · exact ⟨front, records.flatMap recordBytes ++ more, rfl, rfl⟩
    · simpa only [List.append_assoc] using later

/-- The end of the writer: all tables are written, and the header is put in front of everything.
-/
theorem makeFinish_some {make : Make} {entries : List Pointer} {file : List Byte}
    (head : make.head = entries.reverse) (finished : makeFinish make = some file) :
    ∃ tables, (List.range 256).foldlM (writeTable
        (fun number => entries.countP fun pointer => remainder pointer = number)
        (placeAll remainder (upTo remainder entries) entries))
        ⟨[], make.written, make.pos⟩ = some tables ∧ file = tables.final ++ tables.written := by
  simp only [makeFinish, head, List.countP_reverse, List.foldl_reverse] at finished
  split at finished
  · contradiction
  · obtain ⟨tables, wrote, same⟩ := Option.bind_eq_some_iff.mp finished
    exact ⟨tables, wrote, (Option.some.inj same).symm⟩

/-- What the writer makes of a list of records can be searched for them. The file is the header
with the places of the tables, the records, and the tables, each where the header and the pointers
say. -/
theorem cdbMake_database (records : List (List Byte × List Byte)) (file : List Byte)
    (made : cdbMake records = some file) : Nonempty (Database file records) := by
  obtain ⟨make, added, finished⟩ := Option.bind_eq_some_iff.mp made
  obtain ⟨written, head, pos, below, -⟩ := makeAdd_all records makeStart make (by decide) added
  have real := pointersFrom_real 2048 (by decide) records
  rw [makeStart, List.append_nil] at head
  rw [makeStart, List.nil_append] at written
  obtain ⟨tables, wrote, rfl⟩ := makeFinish_some head finished
  have place : make.pos = 2048 + make.written.length := by rw [pos, written, makeStart]
  rw [place] at wrote below
  obtain ⟨length, pos', below', ⟨more, grown⟩, held⟩ :=
    writeTable_all real make.written below 256 tables wrote
  refine ⟨⟨?_, pointersFrom 2048 records, ?_, ?_⟩⟩
  · rw [List.length_append, length]
    omega
  · have front : tables.final ≠ [] := List.ne_nil_of_length_pos (by omega)
    have leads := pointersFrom_leads tables.final more front records
    rwa [length, ← written, grown] at leads
  · intro number short
    obtain ⟨table⟩ := held number short
    have moved := table.slots.behind tables.final
    rw [length, Nat.add_sub_cancel' table.behind] at moved
    exact ⟨⟨table.hpos, table.hash, table.header.append _, moved, table.filled⟩⟩

end Schnitzeljagd.News
