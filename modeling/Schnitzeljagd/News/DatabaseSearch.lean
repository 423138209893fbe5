import Schnitzeljagd.News.DatabaseFile

/-!
# Finding records in a constant database

The search walks through the table from the slot that the hash names and compares keys where
the hashes agree. On a file that the writer made, it finds the records of a key in the order in
which they were added, and then nothing.
-/

namespace Schnitzeljagd.News

open Foundations.CArithmetic Foundations.OpenAddressing Foundations.Segments

variable {file key : List Byte} {records : List (List Byte × List Byte)}

/-- Reading where a piece lies in the file gives the piece. -/
theorem cdbRead_at {place : Nat} {piece : List Byte} (lies : At file place piece) :
    cdbRead file piece.length place = some piece := by
  have within := lies.length_le
  rw [cdbRead, if_neg (by omega), lies.take_drop]

/-- The comparison in pieces of 32 bytes compares the whole key, if what is stored has the same
length.

By induction on the length of what is left of the key. A piece of it lies in the file where the
piece of the stored key does, and no position wraps in a file of less than 2^32 bytes. -/
theorem matchKey_at (small : file.length < 2 ^ 32) (key stored : List Byte) (place : Nat)
    (lies : At file place stored) (long : stored.length = key.length) :
    matchKey file key place = some (decide (key = stored)) := by
  induction size : key.length using Nat.strongRecOn generalizing key stored place with
  | ind size inductionHypothesis =>
    rw [matchKey]
    by_cases empty : key = []
    · subst empty
      rw [List.length_nil] at long
      simp [List.length_eq_zero_iff.mp long]
    · have positive : 0 < key.length := List.length_pos_iff.mpr empty
      have split : stored.take (min 32 key.length) ++ stored.drop (min 32 key.length) = stored :=
        List.take_append_drop _ stored
      have front : At file place (stored.take (min 32 key.length)) := by
        rw [← split] at lies
        exact lies.left
      have taken : (stored.take (min 32 key.length)).length = min 32 key.length := by
        rw [List.length_take, long]
        omega
      have back : At file (place + min 32 key.length) (stored.drop (min 32 key.length)) := by
        rw [← split] at lies
        simpa only [taken] using lies.right
      have read := cdbRead_at front
      rw [taken] at read
      have within := back.length_le
      have unchanged : (place + min 32 key.length) % 2 ^ 32 = place + min 32 key.length :=
        Nat.mod_eq_of_lt (by omega)
      simp only [empty, dite_false, read, Option.bind_eq_bind, Option.bind_some, unchanged]
      by_cases same : stored.take (min 32 key.length) = key.take (min 32 key.length)
      · have later := inductionHypothesis (key.drop (min 32 key.length)).length
          (by rw [List.length_drop]; omega) (key.drop (min 32 key.length))
          (stored.drop (min 32 key.length)) _ back (by rw [List.length_drop, List.length_drop, long])
          rfl
        rw [if_neg (not_not.mpr same), later]
        congr 2
        rw [eq_iff_iff]
        constructor
        · intro equal
          rw [← split, same, ← equal, List.take_append_drop]
        · rintro rfl
          rfl
      · have apart : key ≠ stored := by
          rintro rfl
          exact same rfl
        rw [if_pos same, decide_eq_false apart]

/-- The record that a pointer leads to, key and data. -/
def recordAt (file : List Byte) (pointer : Pointer) : List Byte × List Byte :=
  let lengths := (file.drop pointer.pos).take 8
  let keyLength := unpack (lengths.take 4)
  ((file.drop (pointer.pos + 8)).take keyLength,
    (file.drop (pointer.pos + 8 + keyLength)).take (unpack (lengths.drop 4)))

/-- The parts of a record that lies in the file: two lengths, the key and the data. -/
theorem recordBytes_parts {place : Nat} {record : List Byte × List Byte}
    (lies : At file place (recordBytes record)) :
    At file place (pack record.1.length ++ pack record.2.length) ∧
      At file (place + 8) record.1 ∧ At file (place + 8 + record.1.length) record.2 := by
  have lengths : At file place (pack record.1.length ++ pack record.2.length ++ record.1) :=
    lies.left
  refine ⟨lengths.left, lengths.right, ?_⟩
  have data := lies.right
  simp only [List.length_append, pack_length] at data
  rwa [Nat.add_assoc]

/-- A pointer that leads to a record is one whose record is found. -/
theorem recordAt_leads (small : file.length < 2 ^ 32) {pointer : Pointer}
    {record : List Byte × List Byte} (leads : Leads file pointer record) :
    recordAt file pointer = record := by
  obtain ⟨lengths, keyLies, dataLies⟩ := recordBytes_parts leads.lies
  have within := keyLies.length_le
  have within' := dataLies.length_le
  have read : (file.drop pointer.pos).take 8 = pack record.1.length ++ pack record.2.length :=
    lengths.take_drop
  have keyLength : unpack ((pack record.1.length ++ pack record.2.length).take 4) =
      record.1.length := unpack_pack _ (by omega)
  have dataLength : unpack ((pack record.1.length ++ pack record.2.length).drop 4) =
      record.2.length := unpack_pack _ (by omega)
  simp only [recordAt, read, keyLength, dataLength, keyLies.take_drop, dataLies.take_drop]

/-- The pointers of a database lead to its records one by one, in the order in which they were
added. -/
theorem leads_all (small : file.length < 2 ^ 32) {entries : List Pointer}
    (leads : List.Forall₂ (Leads file) entries records) :
    entries.map (recordAt file) = records ∧
      ∀ pointer ∈ entries, Leads file pointer (recordAt file pointer) := by
  induction leads with
  | nil => simp
  | cons first _ inductionHypothesis =>
    obtain ⟨same, each⟩ := inductionHypothesis
    have read := recordAt_leads small first
    constructor
    · rw [List.map_cons, read, same]
    · exact List.forall_mem_cons.mpr ⟨read.symm ▸ first, each⟩

/-! ## The search -/

/-- The record of a pointer has the key that is looked for. -/
def wanted (file key : List Byte) (pointer : Pointer) : Bool := (recordAt file pointer).1 = key

section Search

variable (key) (database : Database file records)

/-- The number of slots of the table that is searched, which the hash of the key selects. -/
def searchSize : Nat := slotCount database.entries (cdbHash key % 256)

/-- The slot that the search looks at after so many, around the end of the table. -/
def currentSlot (visited : Nat) : Nat :=
  (cdbHash key / 2 ^ 8 % searchSize key database + visited) % searchSize key database

variable (table : TableOf file database.entries (cdbHash key % 256))

/-- The pointers that the search has still to see after so many slots, if it finds nothing. -/
def ahead (visited : Nat) : List Pointer :=
  walk (view table.hash) (searchSize key database) (searchSize key database - visited)
    (currentSlot key database visited)

/-- The state of a search that has visited so many slots. Its numbers are places in the file, and
say no more than these. -/
structure Searching (visited : Nat) (state : Cdb) : Prop where
  loop : state.loop = visited
  khash : state.khash = cdbHash key
  hpos : state.hpos = table.hpos
  hslots : state.hslots = searchSize key database
  kpos : state.kpos = table.hpos + 8 * currentSlot key database visited
  room : visited ≤ searchSize key database

end Search

/-- Each slot of a table lies in the file at its place. -/
theorem TableOf.slot {entries : List Pointer} {number : Nat}
    (table : TableOf file entries number) {place : Nat} (inside : place < slotCount entries number) :
    At file (table.hpos + 8 * place) (slotBytes table.hash place) := by
  apply table.slots.inside
  apply at_flatMap 8 (slotBytes table.hash) _ _ place place (by simp [inside])
  intro other _
  rfl

/-- What is in a slot: nothing, or the hash and the place of one of the pointers. -/
theorem TableOf.entry (database : Database file records) {number : Nat}
    (table : TableOf file database.entries number) {place : Nat}
    (inside : place < slotCount database.entries number) :
    (view table.hash place = none ∧ unpack ((slotBytes table.hash place).drop 4) = 0) ∨
      ∃ pointer ∈ database.entries, view table.hash place = some pointer ∧ pointer.pos ≠ 0 ∧
        unpack ((slotBytes table.hash place).drop 4) = pointer.pos ∧
        unpack ((slotBytes table.hash place).take 4) = pointer.hash := by
  by_cases vacant : (table.hash place).pos = 0
  · left
    simp [view, vacant, slotBytes, pack, unpack]
  · right
    have stored : view table.hash place = some (table.hash place) := by simp [view, vacant]
    have positive : 0 < slotCount database.entries number := by omega
    have member : table.hash place ∈ database.entries :=
      List.mem_of_mem_filter (table.filled.member inside stored (Nat.mod_lt _ positive))
    have leads := (leads_all database.small database.leads).2 _ member
    have within := leads.lies.length_le
    have small := database.small
    have hash := cdbHash_lt (recordAt file (table.hash place)).1
    rw [← leads.hash] at hash
    exact ⟨_, member, stored, vacant, unpack_pack _ (by omega), unpack_pack _ hash⟩

section Search

variable {database : Database file records} {table : TableOf file database.entries
  (cdbHash key % 256)} {visited : Nat} {state : Cdb}

/-- What is ahead of a search is what its slot has, and what is ahead of the next slot. -/
theorem ahead_step (short : visited < searchSize key database) :
    ahead key database table visited =
      match view table.hash (currentSlot key database visited) with
      | none => []
      | some pointer => pointer :: ahead key database table (visited + 1) := by
  have fuel : searchSize key database - visited = searchSize key database - (visited + 1) + 1 := by
    omega
  rw [ahead, fuel, walk, currentSlot, advance_mod _ _ (by omega)]
  cases view table.hash _ <;> rfl

/-- All slots of the table are in the file, so no place that is computed wraps around. -/
theorem TableOf.room (table : TableOf file database.entries (cdbHash key % 256)) :
    table.hpos + 8 * searchSize key database ≤ file.length := by
  have within := table.slots.length_le
  rw [searchSize]
  simpa [List.length_flatMap, slotBytes, Nat.mul_comm] using within

/-- Going on to the next slot, around the end of the table, keeps the state in order. -/
theorem Searching.next (searching : Searching key database table visited state)
    (short : visited < searchSize key database) :
    Searching key database table (visited + 1) state.next := by
  obtain ⟨loop, khash, hpos, hslots, kpos, -⟩ := searching
  have within := table.room
  have small := database.small
  have inside : currentSlot key database visited < searchSize key database :=
    Nat.mod_lt _ (by omega)
  have moved : currentSlot key database (visited + 1) =
      advance (searchSize key database) (currentSlot key database visited) :=
    (advance_mod _ _ (by omega)).symm
  refine ⟨congrArg (· + 1) loop, khash, hpos, hslots, ?_, short⟩
  show (if (state.kpos + 8) % 2 ^ 32 = (state.hpos + state.hslots * 2 ^ 3 % 2 ^ 32) % 2 ^ 32
    then state.hpos else (state.kpos + 8) % 2 ^ 32) = _
  rw [moved, advance, kpos, hpos, hslots]
  by_cases last : currentSlot key database visited + 1 = searchSize key database
  · have wraps : (table.hpos + 8 * currentSlot key database visited + 8) % 2 ^ 32 =
        (table.hpos + searchSize key database * 2 ^ 3 % 2 ^ 32) % 2 ^ 32 := by omega
    rw [if_pos wraps, if_pos last]
    omega
  · have inner : ¬ (table.hpos + 8 * currentSlot key database visited + 8) % 2 ^ 32 =
        (table.hpos + searchSize key database * 2 ^ 3 % 2 ^ 32) % 2 ^ 32 := by omega
    rw [if_neg inner, if_neg last]
    omega

/-- The search reads its slot. -/
theorem Searching.read (searching : Searching key database table visited state)
    (short : visited < searchSize key database) :
    cdbRead file 8 state.kpos =
      some (slotBytes table.hash (currentSlot key database visited)) := by
  have inside : currentSlot key database visited < searchSize key database :=
    Nat.mod_lt _ (Nat.zero_lt_of_lt short)
  rw [searching.kpos]
  exact cdbRead_at (table.slot inside)

/-- One slot with a pointer: its record is found if it has the key, and otherwise the search goes
on. -/
theorem findLoop_step (searching : Searching key database table visited state)
    (short : visited < searchSize key database) (left : Nat) {pointer : Pointer}
    (stored : view table.hash (currentSlot key database visited) = some pointer) :
    findLoop file key (left + 1) state =
      if wanted file key pointer then
        some (true, { state.next with
          dlen := (recordAt file pointer).2.length,
          dpos := (pointer.pos + 8 + key.length) % 2 ^ 32 })
      else findLoop file key left state.next := by
  have inside : currentSlot key database visited < searchSize key database :=
    Nat.mod_lt _ (Nat.zero_lt_of_lt short)
  rcases table.entry database inside with ⟨vacant, -⟩ | ⟨pointer', member, held, real, pos, hash⟩
  · rw [vacant] at stored
    contradiction
  · obtain rfl : pointer' = pointer := Option.some.inj (held.symm.trans stored)
    have leads := (leads_all database.small database.leads).2 pointer' member
    obtain ⟨lengths, keyLies, dataLies⟩ := recordBytes_parts leads.lies
    have small := database.small
    have within := keyLies.length_le
    have within' := dataLies.length_le
    have read : cdbRead file 8 pointer'.pos = some (pack (recordAt file pointer').1.length ++
        pack (recordAt file pointer').2.length) := cdbRead_at lengths
    have keyLength : unpack ((pack (recordAt file pointer').1.length ++
        pack (recordAt file pointer').2.length).take 4) = (recordAt file pointer').1.length :=
      unpack_pack _ (by omega)
    have dataLength : unpack ((pack (recordAt file pointer').1.length ++
        pack (recordAt file pointer').2.length).drop 4) = (recordAt file pointer').2.length :=
      unpack_pack _ (by omega)
    have unchanged : (pointer'.pos + 8) % 2 ^ 32 = pointer'.pos + 8 := Nat.mod_eq_of_lt (by omega)
    rw [findLoop, searching.read short]
    simp only [Option.bind_eq_bind, Option.bind_some, pos, hash, real, if_false, searching.khash,
      read, keyLength, dataLength, unchanged]
    by_cases hashes : pointer'.hash = cdbHash key
    · by_cases long : (recordAt file pointer').1.length = key.length
      · rw [if_pos hashes, if_pos long, matchKey_at small key _ _ keyLies long, Option.bind_some]
        simp only [wanted, eq_comm]
      · have other : wanted file key pointer' = false :=
          decide_eq_false fun same => long (congrArg List.length same)
        rw [if_pos hashes, if_neg long, other, if_neg Bool.false_ne_true]
    · have other : wanted file key pointer' = false :=
        decide_eq_false fun same => hashes (leads.hash.trans (congrArg cdbHash same))
      rw [if_neg hashes, other, if_neg Bool.false_ne_true]

/-- A free slot ends the search, since no record of the key is behind it. -/
theorem findLoop_free (searching : Searching key database table visited state)
    (short : visited < searchSize key database) (left : Nat)
    (vacant : view table.hash (currentSlot key database visited) = none) :
    findLoop file key (left + 1) state = some (false, state) := by
  have inside : currentSlot key database visited < searchSize key database :=
    Nat.mod_lt _ (Nat.zero_lt_of_lt short)
  rcases table.entry database inside with ⟨-, zero⟩ | ⟨pointer, -, held, -⟩
  · simp [findLoop, searching.read short, zero]
  · rw [vacant] at held
    contradiction

/-- Where a record was found, its data can be read. -/
theorem recordAt_data (database : Database file records) {pointer : Pointer}
    (member : pointer ∈ database.entries) (same : wanted file key pointer = true) :
    cdbRead file (recordAt file pointer).2.length ((pointer.pos + 8 + key.length) % 2 ^ 32) =
      some (recordAt file pointer).2 := by
  have leads := (leads_all database.small database.leads).2 pointer member
  obtain ⟨-, -, dataLies⟩ := recordBytes_parts leads.lies
  have small := database.small
  have within := dataLies.length_le
  rw [← of_decide_eq_true same, Nat.mod_eq_of_lt (by omega)]
  exact cdbRead_at dataLies

/-- What a search finds from a slot on: the next pointer of the key, or that there is none ahead.
By induction on the slots that are left. -/
theorem findLoop_spec (searching : Searching key database table visited state) (left : Nat)
    (all : visited + left = searchSize key database) :
    (∃ state', findLoop file key left state = some (false, state') ∧
      (ahead key database table visited).filter (wanted file key) = []) ∨
    ∃ visited' state' pointer, findLoop file key left state = some (true, state') ∧
      Searching key database table visited' state' ∧ 0 < visited' ∧
      cdbRead file state'.dlen state'.dpos = some (recordAt file pointer).2 ∧
      (ahead key database table visited).filter (wanted file key) =
        pointer :: (ahead key database table visited').filter (wanted file key) := by
  induction left generalizing visited state with
  | zero =>
    refine Or.inl ⟨state, rfl, ?_⟩
    simp [ahead, ← all, walk]
  | succ left inductionHypothesis =>
    have short : visited < searchSize key database := by omega
    have inside : currentSlot key database visited < searchSize key database :=
      Nat.mod_lt _ (Nat.zero_lt_of_lt short)
    rw [ahead_step short]
    cases stored : view table.hash (currentSlot key database visited) with
    | none => exact Or.inl ⟨state, findLoop_free searching short left stored, rfl⟩
    | some pointer =>
      rw [findLoop_step searching short left stored]
      by_cases same : wanted file key pointer = true
      · have member : pointer ∈ database.entries := by
          rcases table.entry database inside with ⟨vacant, -⟩ | ⟨_, member, held, -⟩
          · rw [vacant] at stored
            contradiction
          · obtain rfl := Option.some.inj (held.symm.trans stored)
            exact member
        obtain ⟨loop, khash, hpos, hslots, kpos, room⟩ := searching.next short
        refine Or.inr ⟨visited + 1, _, pointer, if_pos same, ⟨loop, khash, hpos, hslots, kpos, room⟩,
          Nat.succ_pos visited, recordAt_data database member same, ?_⟩
        exact List.filter_cons_of_pos same
      · rw [if_neg same]
        simp only [List.filter_cons_of_neg same]
        exact inductionHypothesis (searching.next short) (by omega)

/-- A search that has begun goes on where it was, behind what it has found. -/
theorem Searching.again (searching : Searching key database table visited state)
    (begun : 0 < visited) :
    findNext file key state = findLoop file key (searchSize key database - visited) state := by
  have again : state.loop ≠ 0 := by
    rw [searching.loop]
    omega
  rw [findNext, if_neg again, searching.hslots, searching.loop]

/-- All searches from a slot on find what is ahead of it and has the key. -/
theorem findAll_rest (fuel : Nat) {start : Cdb}
    (searching : Searching key database table visited start)
    (next : findNext file key state =
      findLoop file key (searchSize key database - visited) start)
    (enough : ((ahead key database table visited).filter (wanted file key)).length < fuel) :
    findAll file key fuel state = some
      (((ahead key database table visited).filter (wanted file key)).map fun pointer =>
        (recordAt file pointer).2) := by
  induction fuel generalizing visited state start with
  | zero => omega
  | succ fuel inductionHypothesis =>
    have room := searching.room
    rw [findAll, next]
    rcases findLoop_spec searching (searchSize key database - visited) (by omega) with
      ⟨state', ran, nothing⟩ | ⟨visited', state', pointer, ran, searching', begun, data, found⟩
    · rw [ran, nothing]
      rfl
    · rw [found, List.length_cons] at enough
      have rest := inductionHypothesis searching' (searching'.again begun) (by omega)
      simp only [ran, found, data, rest, Option.bind_eq_bind, Option.bind_some, if_true,
        List.map_cons]

end Search

/-- A record with the key has its hash. -/
theorem Database.hash_wanted (database : Database file records) {pointer : Pointer}
    (member : pointer ∈ database.entries) (same : wanted file key pointer = true) :
    pointer.hash = cdbHash key := by
  rw [((leads_all database.small database.leads).2 pointer member).hash, of_decide_eq_true same]

/-- The records of a key all have their pointers in one table, in the order in which they were
added. -/
theorem bucket_wanted (database : Database file records) (key : List Byte) :
    ((bucket database.entries (cdbHash key % 256)).filter (wanted file key)).map
      (recordAt file) = records.filter fun record => record.1 = key := by
  have kept : (bucket database.entries (cdbHash key % 256)).filter (wanted file key) =
      database.entries.filter (wanted file key) := by
    rw [bucket, List.filter_filter]
    apply List.filter_congr
    intro pointer member
    by_cases same : wanted file key pointer = true
    · simp [same, remainder, database.hash_wanted member same]
    · simp [same]
  calc _ = (database.entries.map (recordAt file)).filter fun record => record.1 = key := by
        rw [kept, List.filter_map]
        rfl
    _ = _ := by rw [(leads_all database.small database.leads).1]

/-- The search from the slot that the hash names meets them in order, whatever else is in the
table. -/
theorem ahead_wanted (database : Database file records)
    (table : TableOf file database.entries (cdbHash key % 256))
    (positive : 0 < searchSize key database) :
    (ahead key database table 0).filter (wanted file key) =
      (bucket database.entries (cdbHash key % 256)).filter (wanted file key) := by
  have inside : cdbHash key / 2 ^ 8 % searchSize key database < searchSize key database :=
    Nat.mod_lt _ positive
  have own : ∀ pointer ∈ bucket database.entries (cdbHash key % 256),
      wanted file key pointer = true → home (slotCount database.entries (cdbHash key % 256))
        pointer = cdbHash key / 2 ^ 8 % searchSize key database := by
    intro pointer member same
    rw [home, database.hash_wanted (List.mem_of_mem_filter member) same]
    rfl
  have start : currentSlot key database 0 = cdbHash key / 2 ^ 8 % searchSize key database := by
    rw [currentSlot, Nat.add_zero, Nat.mod_eq_of_lt inside]
  rw [ahead, start]
  exact table.filled.find (fun pointer => Nat.mod_lt _ positive) inside (wanted file key) own

/-- The search starts at the slot that the hash names, if its table has slots; otherwise nothing
has the key. -/
theorem findNext_start (database : Database file records)
    (table : TableOf file database.entries (cdbHash key % 256)) (state : Cdb) :
    (searchSize key database = 0 ∧ ∃ state', findNext file key { state with loop := 0 } =
      some (false, state')) ∨
    (0 < searchSize key database ∧ ∃ start, Searching key database table 0 start ∧
      findNext file key { state with loop := 0 } =
        findLoop file key (searchSize key database) start) := by
  have small := database.small
  have within := table.room
  have place : cdbHash key * 2 ^ 3 % 2 ^ 32 % 2048 = 8 * (cdbHash key % 256) := by omega
  have read : cdbRead file 8 (8 * (cdbHash key % 256)) =
      some (pack table.hpos ++ pack (searchSize key database)) := cdbRead_at table.header
  have hslots : unpack ((pack table.hpos ++ pack (searchSize key database)).drop 4) =
      searchSize key database := unpack_pack _ (by omega)
  have hpos : unpack ((pack table.hpos ++ pack (searchSize key database)).take 4) =
      table.hpos := unpack_pack _ (by omega)
  simp only [findNext, if_true, place, read, hslots, hpos, Option.bind_eq_bind, Option.bind_some]
  by_cases empty : searchSize key database = 0
  · rw [if_pos empty]
    exact Or.inl ⟨empty, _, rfl⟩
  · have positive : 0 < searchSize key database := Nat.pos_of_ne_zero empty
    have inside : cdbHash key / 2 ^ 8 % searchSize key database < searchSize key database :=
      Nat.mod_lt _ positive
    rw [if_neg empty]
    refine Or.inr ⟨positive, _, ⟨rfl, rfl, rfl, rfl, ?_, Nat.zero_le _⟩, rfl⟩
    show (table.hpos + cdbHash key / 2 ^ 8 % searchSize key database * 2 ^ 3 % 2 ^ 32) % 2 ^ 32 = _
    rw [currentSlot, Nat.add_zero, Nat.mod_eq_of_lt inside]
    omega

/-- The searches for a key find its records, whatever state the search had before. -/
theorem Database.reads (database : Database file records) (key : List Byte) (state : Cdb)
    (fuel : Nat) (enough : records.length < fuel) :
    findAll file key fuel { state with loop := 0 } =
      some ((records.filter fun record => record.1 = key).map Prod.snd) := by
  obtain ⟨table⟩ := database.tables (cdbHash key % 256) (Nat.mod_lt _ (by decide))
  have found := bucket_wanted database key
  rcases findNext_start database table state with
    ⟨empty, state', next⟩ | ⟨positive, start, searching, next⟩
  · have nothing : bucket database.entries (cdbHash key % 256) = [] := by
      rw [searchSize, slotCount] at empty
      exact List.length_eq_zero_iff.mp (by omega)
    rw [nothing] at found
    obtain ⟨fuel, rfl⟩ : ∃ before, fuel = before + 1 := ⟨fuel - 1, by omega⟩
    rw [findAll, next, ← found]
    rfl
  · rw [← ahead_wanted database table positive] at found
    have fewer : ((ahead key database table 0).filter (wanted file key)).length ≤
        records.length := by
      rw [← List.length_map (f := recordAt file), found]
      exact List.length_filter_le _ _
    rw [findAll_rest fuel searching next (by omega), ← found, List.map_map]
    rfl

/-- Reading a database that was written for some records gives the data of a key, in the order in
which it was added, and nothing else.

Writing and searching meet in `Database`: the records lie in the file, and each table holds the
pointers of its remainder as open addressing has it. A search then walks the table from the slot
that the hash names, compares keys where a pointer leads, and stops at the first free slot, behind
which none of its entries can be. -/
theorem findAll_records (records : List (List Byte × List Byte)) (file : List Byte)
    (made : cdbMake records = some file) (key : List Byte) (state : Cdb) (fuel : Nat)
    (enough : records.length < fuel) :
    findAll file key fuel { state with loop := 0 } =
      some ((records.filter fun record => record.1 = key).map Prod.snd) := by
  obtain ⟨database⟩ := cdbMake_database records file made
  exact database.reads key state fuel enough

/-- A key with two records and another one between them. -/
theorem findAll_records_twice : ∃ file, cdbMake [([104], [1]), ([105], []), ([104], [2, 3])] =
    some file ∧ findAll file [104] 4 ⟨0, 0, 0, 0, 0, 0, 0⟩ = some [[1], [2, 3]] := by
  have fits : (cdbMake [([104], [1]), ([105], []), ([104], [2, 3])]).isSome := by decide +kernel
  obtain ⟨file, made⟩ := Option.isSome_iff_exists.mp fits
  exact ⟨file, made, findAll_records _ file made [104] ⟨0, 0, 0, 0, 0, 0, 0⟩ 4 (by decide)⟩

end Schnitzeljagd.News
