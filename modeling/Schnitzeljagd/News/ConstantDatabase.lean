import Schnitzeljagd.Foundations.CArithmetic
import Schnitzeljagd.Foundations.Distribution
import Schnitzeljagd.Foundations.OpenAddressing
import Schnitzeljagd.Foundations.Segments

/-!
# The constant database of the network tools

`cdb_make.c` writes a file of records with one hash table for each of 256 remainders of the
hash, and `cdb.c` finds the records of a key in it. A `uint32` is a natural number that is
reduced where the source can exceed 32 bits. The file is what the buffer has passed on and,
in front of it, the 2048 bytes that are written last. Allocation and writing succeed, and the
whole file is mapped for reading.
-/

namespace Schnitzeljagd.News

open Foundations.CArithmetic Foundations.Distribution Foundations.OpenAddressing

/-- `uint32_pack`, the four bytes of a number with the lowest first -/
def pack (value : Nat) : List Byte :=
  [.ofNat 8 value, .ofNat 8 (value / 2 ^ 8), .ofNat 8 (value / 2 ^ 16), .ofNat 8 (value / 2 ^ 24)]

/-- `uint32_unpack`, which reads the lowest byte first -/
def unpack (bytes : List Byte) : Nat := bytes.foldr (fun byte above => above * 256 + byte.toNat) 0

/-- `cdb_hashadd`, in 32 bits -/
def hashAdd (hash : Nat) (byte : Byte) : Nat := (hash + hash * 2 ^ 5) % 2 ^ 32 ^^^ byte.toNat

/-- `cdb_hash`, the hash of the bytes of a key from the first to the last -/
def cdbHash (key : List Byte) : Nat := key.foldl hashAdd 5381

/-! ## Writing -/

/-- `struct cdb_hp` -/
structure Pointer where
  hash : Nat
  pos : Nat
deriving DecidableEq

/-- `struct cdb_make`. The list has the newest pointer first; the blocks of 1000 that the source
keeps it in are not told apart. -/
structure Make where
  written : List Byte
  head : List Pointer
  pos : Nat

/-- `cdb_make_start`, which leaves room for the 256 pairs at the beginning of the file -/
def makeStart : Make := ⟨[], [], 2048⟩

/-- `posplus`, where no value is an overflow of the position -/
def posPlus (pos length : Nat) : Option Nat :=
  let newpos := (pos + length) % 2 ^ 32
  if newpos < length then none else some newpos

/-- `cdb_make_add` with `cdb_make_addbegin` and `cdb_make_addend` -/
def makeAdd (make : Make) (record : List Byte × List Byte) : Option Make :=
  let key := record.1
  let data := record.2
  if key.length > 0xffffffff ∨ data.length > 0xffffffff then none
  else do
    let written := make.written ++ pack key.length ++ pack data.length ++ key ++ data
    let head := ⟨cdbHash key, make.pos⟩ :: make.head
    let pos ← posPlus make.pos 8
    let pos ← posPlus pos key.length
    let pos ← posPlus pos data.length
    some ⟨written, head, pos⟩

/-- `255 & hp.h`, which tells the table that a pointer goes to -/
def remainder (pointer : Pointer) : Nat := pointer.hash % 256

/-- `while (c->hash[where].p) if (++where == len) where = 0;` for at most so many turns -/
def freeSlot (hash : Nat → Pointer) (length : Nat) : Nat → Nat → Option Nat
  | 0, _ => none
  | fuel + 1, place =>
    if (hash place).pos ≠ 0 then
      freeSlot hash length fuel (if place + 1 = length then 0 else place + 1)
    else some place

/-- One turn of the loop that fills the table of a remainder. The pointer goes to the first free
slot from the one its hash points to. -/
def fillSlot (length : Nat) (hash : Nat → Pointer) (pointer : Pointer) :
    Option (Nat → Pointer) := do
  let place ← freeSlot hash length length (pointer.hash / 2 ^ 8 % length)
  some (Function.update hash place pointer)

/-- The first part of the file, what follows it, and where the next byte goes. -/
structure Tables where
  final : List Byte
  written : List Byte
  pos : Nat

/-- `for (u = 0;u < len;++u)`: a slot of the table is put into the file, hash first. -/
def writeSlot (hash : Nat → Pointer) (tables : Tables) (place : Nat) : Option Tables := do
  let written := tables.written ++ pack (hash place).hash ++ pack (hash place).pos
  let pos ← posPlus tables.pos 8
  some ⟨tables.final, written, pos⟩

/-- One turn of the loop over the remainders. The pair in front says where the table begins and
how many slots it has, twice as many as pointers. -/
def writeTable (count : Nat → Nat) (places : Places Pointer) (tables : Tables) (number : Nat) :
    Option Tables := do
  let length := count number + count number
  let final := tables.final ++ pack tables.pos ++ pack length
  let pointers ← (List.range (count number)).mapM fun index =>
    places.slots (places.start number + index)
  let hash ← pointers.foldlM (fillSlot length) fun _ => ⟨0, 0⟩
  (List.range length).foldlM (writeSlot hash) ⟨final, tables.written, tables.pos⟩

/-- `cdb_make_finish`: the whole file, with the tables behind the records. Too many pointers for
the memory are an error. -/
def makeFinish (make : Make) : Option (List Byte) := do
  let count := fun number => make.head.countP fun pointer => remainder pointer = number
  let memsize := ((List.range 256).foldl (fun size number => max size (count number * 2)) 1) +
    make.head.length
  if memsize > (2 ^ 32 - 1) / 8 then none
  else
    let ends := fun number => ((List.range (number + 1)).map count).sum
    let places := make.head.foldl (Places.place remainder) ⟨ends, fun _ => none⟩
    let tables ← (List.range 256).foldlM (writeTable count places) ⟨[], make.written, make.pos⟩
    some (tables.final ++ tables.written)

/-- The database of a list of records, which are added in the order of the list. -/
def cdbMake (records : List (List Byte × List Byte)) : Option (List Byte) := do
  let make ← records.foldlM makeAdd makeStart
  makeFinish make

/-! ## Reading -/

/-- `cdb_read`, which fails if the bytes are not all in the file -/
def cdbRead (file : List Byte) (length pos : Nat) : Option (List Byte) :=
  if pos > file.length ∨ file.length - pos < length then none
  else some ((file.drop pos).take length)

/-- `match`, in pieces of 32 bytes, which are compared with those of the key -/
def matchKey (file : List Byte) (key : List Byte) (pos : Nat) : Option Bool :=
  if _empty : key = [] then some true
  else do
    let count := min 32 key.length
    let buffer ← cdbRead file count pos
    if buffer ≠ key.take count then some false
    else matchKey file (key.drop count) ((pos + count) % 2 ^ 32)
termination_by key.length
decreasing_by
  have positive : 0 < key.length := List.length_pos_iff.mpr _empty
  simp only [List.length_drop]
  omega

/-- `struct cdb` without the mapping -/
structure Cdb where
  loop : Nat
  khash : Nat
  kpos : Nat
  hpos : Nat
  hslots : Nat
  dpos : Nat
  dlen : Nat

/-- `c->loop += 1` and the step of `c->kpos`, around the end of the table -/
def Cdb.next (state : Cdb) : Cdb :=
  let kpos := (state.kpos + 8) % 2 ^ 32
  { state with
    loop := state.loop + 1
    kpos := if kpos = (state.hpos + state.hslots * 2 ^ 3 % 2 ^ 32) % 2 ^ 32 then state.hpos
      else kpos }

/-- The loop of `cdb_findnext` for the slots that are left: whether a record was found. -/
def findLoop (file key : List Byte) : Nat → Cdb → Option (Bool × Cdb)
  | 0, state => some (false, state)
  | left + 1, state => do
    let buffer ← cdbRead file 8 state.kpos
    let pos := unpack (buffer.drop 4)
    if pos = 0 then some (false, state)
    else if unpack (buffer.take 4) = state.khash then
      let buffer ← cdbRead file 8 pos
      if unpack (buffer.take 4) = key.length then
        let matched ← matchKey file key ((pos + 8) % 2 ^ 32)
        if matched then
          some (true, { state.next with
            dlen := unpack (buffer.drop 4), dpos := (pos + 8 + key.length) % 2 ^ 32 })
        else findLoop file key left state.next
      else findLoop file key left state.next
    else findLoop file key left state.next

/-- `cdb_findnext`; no value is an error of the format. The first call for a key computes its hash
and the slot to begin with. -/
def findNext (file key : List Byte) (state : Cdb) : Option (Bool × Cdb) :=
  if state.loop = 0 then do
    let hash := cdbHash key
    let buffer ← cdbRead file 8 (hash * 2 ^ 3 % 2 ^ 32 % 2048)
    let hslots := unpack (buffer.drop 4)
    if hslots = 0 then some (false, { state with hslots })
    else
      let hpos := unpack (buffer.take 4)
      let kpos := (hpos + hash / 2 ^ 8 % hslots * 2 ^ 3 % 2 ^ 32) % 2 ^ 32
      findLoop file key hslots { state with hslots, hpos, khash := hash, kpos }
  else findLoop file key (state.hslots - state.loop) state

/-- `cdb_find`, the first record of a key -/
def cdbFind (file key : List Byte) (state : Cdb) : Option (Bool × Cdb) :=
  findNext file key { state with loop := 0 }

/-- The data of the records of a key, read as `cdb_findnext` finds them, at most so many. -/
def findAll (file key : List Byte) : Nat → Cdb → Option (List (List Byte))
  | 0, _ => some []
  | fuel + 1, state => do
    let found ← findNext file key state
    if found.1 then
      let data ← cdbRead file found.2.dlen found.2.dpos
      let rest ← findAll file key fuel found.2
      some (data :: rest)
    else some []

/-! ## Numbers in the file -/

/-- A packed number has four bytes. -/
@[simp] theorem pack_length (value : Nat) : (pack value).length = 4 := rfl

/-- A number of 32 bits is read back from the bytes it was packed into. -/
theorem unpack_pack (value : Nat) (fits : value < 2 ^ 32) : unpack (pack value) = value := by
  simp only [pack, unpack, List.foldr_cons, List.foldr_nil, BitVec.toNat_ofNat]
  omega

/-- Adding a byte keeps a hash within 32 bits. -/
theorem hashAdd_lt (hash : Nat) (byte : Byte) : hashAdd hash byte < 2 ^ 32 := by
  apply Nat.xor_lt_two_pow
  · exact Nat.mod_lt _ (by decide)
  · exact byte.isLt.trans (by decide)

/-- A hash has 32 bits, so that it can be packed. -/
theorem cdbHash_lt (key : List Byte) : cdbHash key < 2 ^ 32 := by
  have kept : ∀ hash < 2 ^ 32, key.foldl hashAdd hash < 2 ^ 32 := by
    induction key with
    | nil => simp
    | cons byte key inductionHypothesis =>
      exact fun hash _ => inductionHypothesis (hashAdd hash byte) (hashAdd_lt hash byte)
  exact kept 5381 (by decide)

/-- The overflow test lets through exactly the sums that fit, since a sum that wraps is smaller
than what was added. -/
theorem posPlus_some {pos length next : Nat} (below : pos < 2 ^ 32) (short : length < 2 ^ 32)
    (added : posPlus pos length = some next) : next = pos + length ∧ next < 2 ^ 32 := by
  simp only [posPlus] at added
  split at added
  · contradiction
  · next kept =>
    obtain rfl := Option.some.inj added
    omega

end Schnitzeljagd.News
