import Schnitzeljagd.Foundations.LockedSharing
import Schnitzeljagd.Foundations.RecordCache
import Schnitzeljagd.News.ArticleText
import Schnitzeljagd.News.Spool

/-!
# The group database

`group.c` keeps what the server knows of the groups in `groupinfo.gdbm`, and one record of it in
the global `grp`. Every function goes by the name of a group. Numbers and times have 32 bits,
lowest byte first. The order in which the database lists its groups is not modelled. Opening,
storing and deleting in the database succeed.
-/

namespace Schnitzeljagd.News

open Foundations.CArithmetic Foundations.CString Foundations.PerlText Foundations.LockedSharing
open Foundations.RecordCache

/-! ## The record of a group -/

/-- An `int` in memory, lowest byte first, as on the machines the binaries were made for. -/
def intBytes (value : BitVec 32) : List Byte :=
  [value.extractLsb' 0 8, value.extractLsb' 8 8, value.extractLsb' 16 8, value.extractLsb' 24 8]

/-- Reads an `int` and what follows it. There is none if the record ends before. -/
def nextInt : List Byte → Option (BitVec 32 × List Byte)
  | a :: b :: c :: d :: rest => some (d ++ c ++ b ++ a, rest)
  | _ => none

/-- Reads a string and what follows its end. There is none if no NUL comes. -/
def nextString (p : List Byte) : Option (Text × List Byte) := do
  let text ← stringAt p 0
  some (text, p.drop (text.length + 1))

/-- `Utl_cpyStr`, which has no result where the text fills the buffer to its end. -/
def cpyStr (src : Text) : Option Text := catStr [] src

/-- `Entry`, the numbers of a group, which are stored as they are in memory. -/
structure Entry where
  first : BitVec 32
  last : BitVec 32
  rmtNext : BitVec 32
  created : BitVec 32
  lastAccess : BitVec 32
deriving DecidableEq

/-- What `grp` holds beside the name of the group, and what is stored for it. -/
structure GroupRecord where
  entry : Entry
  serv : Text
  dsc : Text
  postAllow : Byte
deriving DecidableEq

/-- `grp.entry = *( (Entry *)val.dptr )`, the five numbers at the front of a record -/
def readEntry (val : List Byte) : Option (Entry × List Byte) := do
  let (first, p) ← nextInt val
  let (last, p) ← nextInt p
  let (rmtNext, p) ← nextInt p
  let (created, p) ← nextInt p
  let (lastAccess, p) ← nextInt p
  some (⟨first, last, rmtNext, created, lastAccess⟩, p)

/-- What `loadGrp` makes of a record. Older records end before the posting status, which is then
that of a group anybody may post to. -/
def readGrp (val : List Byte) : Option GroupRecord := do
  let (entry, p) ← readEntry val
  let (serv, p) ← nextString p
  let serv ← cpyStr serv
  let (dsc, p) ← nextString p
  let dsc ← cpyStr dsc
  some ⟨entry, serv, dsc, p.head?.getD 0x79⟩

/-- The record that `saveGrp` stores: the numbers, two strings with their NULs and one character.
-/
def writeGrp (grp : GroupRecord) : List Byte :=
  intBytes grp.entry.first ++ (intBytes grp.entry.last ++ (intBytes grp.entry.rmtNext ++
    (intBytes grp.entry.created ++ (intBytes grp.entry.lastAccess ++
      (grp.serv ++ 0 :: (grp.dsc ++ 0 :: [grp.postAllow]))))))

/-- A string in a `Str`: no NUL before its end, and room for the NUL at its end. -/
def Fitting (text : Text) : Prop := (∀ byte ∈ text, byte ≠ 0) ∧ text.length < maxChar

instance (text : Text) : Decidable (Fitting text) :=
  inferInstanceAs (Decidable ((∀ byte ∈ text, byte ≠ 0) ∧ text.length < maxChar))

/-- Both strings of a record fit into the buffers that they are loaded to, so that it can be saved
and loaded again. -/
structure GroupRecord.Fine (grp : GroupRecord) : Prop where
  serv : Fitting grp.serv
  dsc : Fitting grp.dsc

/-- An `int` is read back from its four bytes, whatever follows. -/
theorem nextInt_intBytes (value : BitVec 32) (rest : List Byte) :
    nextInt (intBytes value ++ rest) = some (value, rest) := by
  have whole : value.extractLsb' 24 8 ++ value.extractLsb' 16 8 ++ value.extractLsb' 8 8 ++
      value.extractLsb' 0 8 = value := by
    ext i inside
    have bit : ∀ place, place = i → value.getLsbD place = value[i] := by
      rintro place rfl
      exact BitVec.getLsbD_eq_getElem inside
    simp only [BitVec.getElem_append, BitVec.getElem_extractLsb']
    split
    · exact bit _ (by omega)
    · split
      · exact bit _ (by omega)
      · split <;> exact bit _ (by omega)
  exact congrArg (fun value => some (value, rest)) whole

/-- A string that fits is copied as it is, with its NUL. -/
theorem cpyStr_fitting {text : Text} (short : text.length < maxChar) : cpyStr text = some text := by
  rw [cpyStr, catStr_room [] text (by simpa using short), List.nil_append]

/-- What is copied is the beginning of the string, and it fits. -/
theorem cpyStr_some {src text : Text} (copied : cpyStr src = some text) :
    text.length < maxChar ∧ text <+: src := by
  rw [cpyStr, catStr] at copied
  split at copied
  · next room =>
    obtain rfl := Option.some.inj copied
    exact ⟨room, by simpa using List.take_prefix _ _⟩
  · contradiction

/-- A string is read back up to its NUL, whatever follows. -/
theorem nextString_text (text rest : Text) (noNul : ∀ byte ∈ text, byte ≠ 0) :
    nextString (text ++ 0 :: rest) = some (text, rest) := by
  rw [nextString, stringAt_text (text ++ 0 :: rest) text rest 0 rfl noNul]
  have behind : (text ++ 0 :: rest).drop (text.length + 1) = rest := by simp
  simp only [Option.bind_eq_bind, Option.bind_some, behind]

/-- What has been read as a string and copied is a string that fits. -/
theorem nextString_fitting {p rest : List Byte} {src text : Text}
    (read : nextString p = some (src, rest)) (copied : cpyStr src = some text) : Fitting text := by
  obtain ⟨short, front⟩ := cpyStr_some copied
  obtain ⟨src', string, same⟩ := Option.bind_eq_some_iff.mp read
  obtain ⟨rfl, -⟩ := Prod.mk.inj (Option.some.inj same)
  exact ⟨fun byte member => stringAt_clean string byte (front.subset member), short⟩

/-- What is saved is loaded again, provided that both strings fit. -/
theorem readGrp_writeGrp (grp : GroupRecord) (fine : grp.Fine) :
    readGrp (writeGrp grp) = some grp := by
  obtain ⟨serv, dsc⟩ := fine
  simp only [readGrp, readEntry, writeGrp, nextInt_intBytes, Option.bind_eq_bind,
    Option.bind_some, nextString_text _ _ serv.1, nextString_text _ _ dsc.1,
    cpyStr_fitting serv.2, cpyStr_fitting dsc.2, List.head?_cons, Option.getD_some]

/-- Whatever is loaded fits into the global, also from a record that was not written by this
program. -/
theorem readGrp_fine {val : List Byte} {grp : GroupRecord} (read : readGrp val = some grp) :
    grp.Fine := by
  simp only [readGrp, Option.bind_eq_bind, Option.bind_eq_some_iff] at read
  obtain ⟨⟨entry, p⟩, -, ⟨serv, p'⟩, first, serv', copied, ⟨dsc, p''⟩, second, dsc', copied', same⟩ :=
    read
  obtain rfl := Option.some.inj same
  exact ⟨nextString_fitting first copied, nextString_fitting second copied'⟩

/-! ## The functions -/

/-- The names that `grp` has without a group in it, at first and after `Grp_close`. -/
def Unnamed (name : Text) : Prop := name = latin1 "(no grp)" ∨ name = []

instance (name : Text) : Decidable (Unnamed name) :=
  inferInstanceAs (Decidable (name = latin1 "(no grp)" ∨ name = []))

/-- `loadGrp` and `saveGrp`. Every record counts as one that is worth keeping. -/
def groupFormat : Format Text (List Byte) GroupRecord := ⟨cpyStr, readGrp, writeGrp, fun _ => true⟩

/-- `grp`, except for the database: the name of the group that was loaded last, and its record. -/
abbrev Grp := Cache Text GroupRecord

/-- `groupinfo.gdbm`, of which only the record of each name matters. -/
abbrev GroupFile := Text → Option (List Byte)

/-- What a function of `group.c` returns. A text may be the null pointer. -/
inductive GroupAnswer where
  | bool (answer : Bool)
  | number (answer : Int)
  | char (answer : Byte)
  | text (answer : Option Text)
  | done
deriving DecidableEq

/-- What a function of `group.c` does to the global and to the database. There is no result where
it writes behind a buffer. -/
abbrev GroupFunction := Grp → GroupFile → Option (GroupAnswer × Grp × GroupFile)

/-- `Grp_exists`, which looks into the database and leaves the global alone. -/
def grpExists (name : Text) : GroupFunction := fun grp dbf =>
  some (.bool (dbf name).isSome, grp, dbf)

/-- `Grp_local`, whether the group has the local server. A group that cannot be loaded is not
local. -/
def grpLocal : Text → GroupFunction :=
  groupFormat.ask (fun grp => .bool (grp.serv = localServer)) (.bool false)

/-- `Grp_create` at the time `now`. It replaces a group of the same name. -/
def grpCreate (now : BitVec 32) (name : Text) : GroupFunction := fun _ dbf => do
  let name ← cpyStr name
  let serv ← cpyStr (latin1 "(unknown)")
  let grp : Grp := ⟨name, ⟨⟨1, 0, 0, now, 0⟩, serv, [], 0x79⟩⟩
  some (.done, grp, groupFormat.save dbf grp)

/-- `Grp_delete`, which forgets the record in the database but not the one in the global. -/
def grpDelete (name : Text) : GroupFunction := fun grp dbf =>
  some (.done, grp, Function.update dbf name none)

/-- `Grp_dsc`, the description of the group, with the null pointer for a group that cannot be
loaded. -/
def grpDsc : Text → GroupFunction := groupFormat.ask (fun grp => .text (some grp.dsc)) (.text none)

/-- `Grp_server`, where `servList` is `Cfg_servListContains`. A server that is not configured is
shown in brackets. -/
def grpServer (servList : Text → Bool) (name : Text) : GroupFunction := fun grp dbf => do
  let (found, grp) ← groupFormat.load dbf grp name
  if found then
    let (isLocal, grp, dbf) ←
      if servList grp.value.serv then some (GroupAnswer.bool true, grp, dbf)
      else grpLocal name grp dbf
    if isLocal = .bool true then do
      let serv ← cpyStr grp.value.serv
      some (.text (some serv), grp, dbf)
    else some (.text (some (clipped (0x5b :: (grp.value.serv ++ [0x5d])))), grp, dbf)
  else some (.text (some (latin1 "[unknown grp]")), grp, dbf)

/-- `Grp_first`, the first number of the group, zero for one that cannot be loaded. -/
def grpFirst : Text → GroupFunction :=
  groupFormat.ask (fun grp => .number grp.entry.first.toInt) (.number 0)

/-- `Grp_last`, the last number of the group, zero for one that cannot be loaded. -/
def grpLast : Text → GroupFunction :=
  groupFormat.ask (fun grp => .number grp.entry.last.toInt) (.number 0)

/-- `Grp_lastAccess`, when the group was last read, zero for one that cannot be loaded. -/
def grpLastAccess : Text → GroupFunction :=
  groupFormat.ask (fun grp => .number grp.entry.lastAccess.toInt) (.number 0)

/-- `Grp_rmtNext`, the next number on the remote server, zero for a group that cannot be loaded.
-/
def grpRmtNext : Text → GroupFunction :=
  groupFormat.ask (fun grp => .number grp.entry.rmtNext.toInt) (.number 0)

/-- `Grp_created`, when the group was created, zero for one that cannot be loaded. -/
def grpCreated : Text → GroupFunction :=
  groupFormat.ask (fun grp => .number grp.entry.created.toInt) (.number 0)

/-- `Grp_postAllow`, the posting status, NUL for a group that cannot be loaded. -/
def grpPostAllow : Text → GroupFunction :=
  groupFormat.ask (fun grp => .char grp.postAllow) (.char 0)

/-- `Utl_cpyStr( grp.dsc, value )`. There is no test for an empty value, although a comment of the
source speaks of one. -/
def GroupRecord.setDsc (value : Text) (grp : GroupRecord) : Option GroupRecord :=
  (cpyStr value).map fun dsc => { grp with dsc }

/-- `Utl_cpyStr( grp.serv, value )`, with the record that it leaves -/
def GroupRecord.setServ (value : Text) (grp : GroupRecord) : Option GroupRecord :=
  (cpyStr value).map fun serv => { grp with serv }

/-- `Grp_setDsc`, which changes nothing if the group cannot be loaded. -/
def grpSetDsc (value : Text) : Text → GroupFunction :=
  groupFormat.change (GroupRecord.setDsc value) .done

/-- `Grp_setServ`, which likewise needs a group that can be loaded. -/
def grpSetServ (value : Text) : Text → GroupFunction :=
  groupFormat.change (GroupRecord.setServ value) .done

/-- `Grp_setLocal`, which makes the local server that of the group. -/
def grpSetLocal : Text → GroupFunction := grpSetServ localServer

/-- The assignment of `Grp_setRmtNext`, which cannot fail. -/
def GroupRecord.setRmtNext (rmtNext : BitVec 32) (grp : GroupRecord) : Option GroupRecord :=
  some { grp with entry := { grp.entry with rmtNext } }

/-- The assignment of `Grp_setLastAccess`, which cannot fail either. -/
def GroupRecord.setLastAccess (lastAccess : BitVec 32) (grp : GroupRecord) : Option GroupRecord :=
  some { grp with entry := { grp.entry with lastAccess } }

/-- The assignment of `Grp_setPostAllow`, of one character. -/
def GroupRecord.setPostAllow (postAllow : Byte) (grp : GroupRecord) : Option GroupRecord :=
  some { grp with postAllow }

/-- The two assignments of `Grp_setFirstLast`. Nothing asks whether the numbers are in order. -/
def GroupRecord.setFirstLast (first last : BitVec 32) (grp : GroupRecord) : Option GroupRecord :=
  some { grp with entry := { grp.entry with first, last } }

/-- `Grp_setRmtNext`, which loads the group, changes its number and saves it. -/
def grpSetRmtNext (value : BitVec 32) : Text → GroupFunction :=
  groupFormat.change (GroupRecord.setRmtNext value) .done

/-- `Grp_setLastAccess`, which does the same with the time. -/
def grpSetLastAccess (value : BitVec 32) : Text → GroupFunction :=
  groupFormat.change (GroupRecord.setLastAccess value) .done

/-- `Grp_setPostAllow`, which does the same with the posting status. -/
def grpSetPostAllow (postAllow : Byte) : Text → GroupFunction :=
  groupFormat.change (GroupRecord.setPostAllow postAllow) .done

/-- `Grp_setFirstLast`, which does the same with the two numbers of articles. -/
def grpSetFirstLast (first last : BitVec 32) : Text → GroupFunction :=
  groupFormat.change (GroupRecord.setFirstLast first last) .done

/-- `Grp_close`, which makes sure that the next call loads its group anew. -/
def grpClose (grp : Grp) : Grp := { grp with name := [] }

/-! ## Calls and what they stand for -/

/-- A call of a function of `group.c`, except those that go through the groups in the order of the
database. -/
inductive GroupCall where
  | grpExists (name : Text)
  | grpLocal (name : Text)
  | grpCreate (now : BitVec 32) (name : Text)
  | grpDelete (name : Text)
  | grpDsc (name : Text)
  | grpServer (name : Text)
  | grpFirst (name : Text)
  | grpLast (name : Text)
  | grpLastAccess (name : Text)
  | grpRmtNext (name : Text)
  | grpCreated (name : Text)
  | grpPostAllow (name : Text)
  | grpSetDsc (value name : Text)
  | grpSetLocal (name : Text)
  | grpSetServ (value name : Text)
  | grpSetRmtNext (value : BitVec 32) (name : Text)
  | grpSetLastAccess (value : BitVec 32) (name : Text)
  | grpSetPostAllow (postAllow : Byte) (name : Text)
  | grpSetFirstLast (first last : BitVec 32) (name : Text)

/-- The function that a call is a call of, with the arguments of the call. -/
def GroupCall.function (servList : Text → Bool) : GroupCall → GroupFunction
  | .grpExists name => News.grpExists name
  | .grpLocal name => News.grpLocal name
  | .grpCreate now name => News.grpCreate now name
  | .grpDelete name => News.grpDelete name
  | .grpDsc name => News.grpDsc name
  | .grpServer name => News.grpServer servList name
  | .grpFirst name => News.grpFirst name
  | .grpLast name => News.grpLast name
  | .grpLastAccess name => News.grpLastAccess name
  | .grpRmtNext name => News.grpRmtNext name
  | .grpCreated name => News.grpCreated name
  | .grpPostAllow name => News.grpPostAllow name
  | .grpSetDsc value name => News.grpSetDsc value name
  | .grpSetLocal name => News.grpSetLocal name
  | .grpSetServ value name => News.grpSetServ value name
  | .grpSetRmtNext value name => News.grpSetRmtNext value name
  | .grpSetLastAccess value name => News.grpSetLastAccess value name
  | .grpSetPostAllow postAllow name => News.grpSetPostAllow postAllow name
  | .grpSetFirstLast first last name => News.grpSetFirstLast first last name

/-- The group database with `grp` in front of it, as a component whose global must be closed
before another process goes on. -/
def groupInfo (servList : Text → Bool) : Component Grp GroupFile GroupCall GroupAnswer :=
  ⟨GroupCall.function servList, grpClose⟩

/-- The groups by name, and the names that were deleted while the database is open, of which the
global may still hold a copy. -/
abbrev Groups := Register Text GroupRecord

/-- The name of a group or of none that a function may be asked for: it fits into a buffer, is not
one that the empty global has, and is not one that was just deleted. -/
structure Asked (groups : Groups) (name : Text) : Prop where
  short : name.length < maxChar
  named : ¬ Unnamed name
  trusted : ¬ groups.spent name

/-- What `Grp_server` says of a group that exists: its server, in brackets unless it is configured
or the local one. -/
def GroupRecord.server (servList : Text → Bool) (grp : GroupRecord) : Text :=
  if servList grp.serv || decide (grp.serv = localServer) then grp.serv
  else clipped (0x5b :: (grp.serv ++ [0x5d]))

/-- What a call answers and changes, said of the groups alone: no global is mentioned. -/
def GroupCall.meaning (servList : Text → Bool) : GroupCall → Groups → GroupAnswer × Groups
  | .grpExists name, groups => (.bool (groups.records name).isSome, groups)
  | .grpLocal name, groups =>
    groups.ask name (fun grp => .bool (grp.serv = localServer)) (.bool false)
  | .grpCreate now name, groups =>
    (.done, groups.set name (some ⟨⟨1, 0, 0, now, 0⟩, latin1 "(unknown)", [], 0x79⟩))
  | .grpDelete name, groups => (.done, (groups.set name none).spend name)
  | .grpDsc name, groups => groups.ask name (fun grp => .text (some grp.dsc)) (.text none)
  | .grpServer name, groups => groups.ask name (fun grp => .text (some (grp.server servList)))
    (.text (some (latin1 "[unknown grp]")))
  | .grpFirst name, groups =>
    groups.ask name (fun grp => .number grp.entry.first.toInt) (.number 0)
  | .grpLast name, groups => groups.ask name (fun grp => .number grp.entry.last.toInt) (.number 0)
  | .grpLastAccess name, groups =>
    groups.ask name (fun grp => .number grp.entry.lastAccess.toInt) (.number 0)
  | .grpRmtNext name, groups =>
    groups.ask name (fun grp => .number grp.entry.rmtNext.toInt) (.number 0)
  | .grpCreated name, groups =>
    groups.ask name (fun grp => .number grp.entry.created.toInt) (.number 0)
  | .grpPostAllow name, groups => groups.ask name (fun grp => .char grp.postAllow) (.char 0)
  | .grpSetDsc dsc name, groups => groups.change name (fun grp => some { grp with dsc }) .done
  | .grpSetLocal name, groups =>
    groups.change name (fun grp => some { grp with serv := localServer }) .done
  | .grpSetServ serv name, groups => groups.change name (fun grp => some { grp with serv }) .done
  | .grpSetRmtNext value name, groups => groups.change name (GroupRecord.setRmtNext value) .done
  | .grpSetLastAccess value name, groups =>
    groups.change name (GroupRecord.setLastAccess value) .done
  | .grpSetPostAllow postAllow name, groups =>
    groups.change name (GroupRecord.setPostAllow postAllow) .done
  | .grpSetFirstLast first last name, groups =>
    groups.change name (GroupRecord.setFirstLast first last) .done

/-- The calls that the callers make: names as in `Asked`, and texts that fit. Creating and
deleting are admitted for a deleted name, too. -/
def GroupCall.Admitted : GroupCall → Groups → Prop
  | .grpExists _, _ => True
  | .grpDelete _, _ => True
  | .grpCreate _ name, _ => name.length < maxChar
  | .grpSetDsc value name, groups => Asked groups name ∧ Fitting value
  | .grpSetServ value name, groups => Asked groups name ∧ Fitting value
  | .grpLocal name, groups => Asked groups name
  | .grpDsc name, groups => Asked groups name
  | .grpServer name, groups => Asked groups name
  | .grpFirst name, groups => Asked groups name
  | .grpLast name, groups => Asked groups name
  | .grpLastAccess name, groups => Asked groups name
  | .grpRmtNext name, groups => Asked groups name
  | .grpCreated name, groups => Asked groups name
  | .grpPostAllow name, groups => Asked groups name
  | .grpSetLocal name, groups => Asked groups name
  | .grpSetRmtNext _ name, groups => Asked groups name
  | .grpSetLastAccess _ name, groups => Asked groups name
  | .grpSetPostAllow _ name, groups => Asked groups name
  | .grpSetFirstLast _ _ name, groups => Asked groups name

/-- The meaning of calls as a specification of the component. Closing gives up the copy and leaves
the groups as they are. -/
def groupMeaning (servList : Text → Bool) : Meaning Groups GroupCall GroupAnswer :=
  ⟨GroupCall.meaning servList, Register.close, GroupCall.Admitted⟩

/-! ## The copy in `grp` is not seen -/

section Calls

variable {grp : Grp} {dbf : GroupFile} {groups : Groups} {name : Text}

/-- A question to `grp` is answered from the database, whichever group is loaded. Afterwards the
group that was asked for is. -/
theorem groups_ask (coherent : Coherent groupFormat Unnamed grp dbf groups)
    (asked : Asked groups name) (answer : GroupRecord → GroupAnswer) (missing : GroupAnswer) :
    ∃ grp' dbf', groupFormat.ask answer missing name grp dbf =
        some ((groups.ask name answer missing).1, grp', dbf') ∧
      Coherent groupFormat Unnamed grp' dbf' (groups.ask name answer missing).2 :=
  coherent.ask asked.named asked.trusted (cpyStr_fitting asked.short) answer missing

/-- A change to `grp` is a change in the database, since every function saves what it has changed.
-/
theorem groups_change (coherent : Coherent groupFormat Unnamed grp dbf groups)
    (asked : Asked groups name) (next : GroupRecord → Option GroupRecord)
    (fine : ∀ value, value.Fine → ∃ value', next value = some value' ∧ value'.Fine) :
    ∃ grp' dbf', groupFormat.change next .done name grp dbf =
        some ((groups.change name next GroupAnswer.done).1, grp', dbf') ∧
      Coherent groupFormat Unnamed grp' dbf' (groups.change name next GroupAnswer.done).2 := by
  apply coherent.change asked.named asked.trusted (cpyStr_fitting asked.short) next
    GroupAnswer.done rfl
  intro value found
  obtain ⟨val, -, read⟩ := coherent.stands.found found
  obtain ⟨value', changed, fine'⟩ := fine value (readGrp_fine read)
  exact ⟨value', changed, readGrp_writeGrp value' fine'⟩

/-- A description that fits is copied whole, and nothing else of the record is changed. -/
theorem setDsc_fitting {value : Text} (fitting : Fitting value) :
    GroupRecord.setDsc value = fun grp => some { grp with dsc := value } := by
  funext grp
  rw [GroupRecord.setDsc, cpyStr_fitting fitting.2, Option.map_some]

/-- The name of a server that fits is copied whole, likewise. -/
theorem setServ_fitting {value : Text} (fitting : Fitting value) :
    GroupRecord.setServ value = fun grp => some { grp with serv := value } := by
  funext grp
  rw [GroupRecord.setServ, cpyStr_fitting fitting.2, Option.map_some]

/-- The server of a group is changed in the database, and the copy has it, too. -/
theorem groups_setServ (coherent : Coherent groupFormat Unnamed grp dbf groups)
    (asked : Asked groups name) {value : Text} (fitting : Fitting value) :
    ∃ grp' dbf', grpSetServ value name grp dbf = some (.done, grp', dbf') ∧
      Coherent groupFormat Unnamed grp' dbf'
        (groups.change name (fun grp => some { grp with serv := value }) GroupAnswer.done).2 := by
  rw [grpSetServ, setServ_fitting fitting]
  exact groups_change coherent asked _ fun value' fine => ⟨_, rfl, fitting, fine.dsc⟩

/-- `Grp_server` asks `grp` twice, the second time through `Grp_local`, and both times it is the
same group. -/
theorem groups_server (servList : Text → Bool)
    (coherent : Coherent groupFormat Unnamed grp dbf groups) (asked : Asked groups name) :
    ∃ grp' dbf', grpServer servList name grp dbf =
        some ((GroupCall.meaning servList (.grpServer name) groups).1, grp', dbf') ∧
      Coherent groupFormat Unnamed grp' dbf' groups := by
  have copied := cpyStr_fitting asked.short
  rw [GroupCall.meaning, Register.ask]
  cases found : groups.records name with
  | none =>
    refine ⟨grp, dbf, ?_, coherent⟩
    have missing := coherent.load_missing asked.named asked.trusted found
    simp only [grpServer, missing, Option.bind_eq_bind, Option.bind_some, Bool.false_eq_true,
      if_false, Option.elim_none]
  | some value =>
    have loaded := coherent.load_found asked.named asked.trusted copied found
    have again := (coherent.loaded found).load_found asked.named asked.trusted copied found
    obtain ⟨val, -, read⟩ := coherent.stands.found found
    have serv := cpyStr_fitting (readGrp_fine read).serv.2
    refine ⟨⟨name, value⟩, dbf, ?_, coherent.loaded found⟩
    by_cases listed : servList value.serv = true
    · simp only [grpServer, loaded, Option.bind_eq_bind, Option.bind_some, if_true, listed, serv,
        Option.elim_some, GroupRecord.server, Bool.true_or]
    · rw [Bool.not_eq_true] at listed
      cases here : decide (value.serv = localServer) with
      | true =>
        simp only [grpServer, loaded, Option.bind_eq_bind, Option.bind_some, if_true, listed,
          Bool.false_eq_true, if_false, grpLocal, Format.ask, again, here, serv,
          Option.elim_some, GroupRecord.server, Bool.or_true]
      | false =>
        simp only [grpServer, loaded, Option.bind_eq_bind, Option.bind_some, if_true, listed,
          Bool.false_eq_true, if_false, grpLocal, Format.ask, again, here,
          Option.elim_some, GroupRecord.server, Bool.or_false, GroupAnswer.bool.injEq]

end Calls

/-- The functions of `group.c` answer from the database, whatever `grp` holds. The relation
`Coherent` says that what is loaded is what the database has, unless the name was deleted.

One case for each function. All but creating and deleting a group are instances of asking for a
record or of changing one. -/
theorem groupInfo_simulates (servList : Text → Bool) :
    Simulates (groupInfo servList) (groupMeaning servList) (fun grp => Unnamed grp.name)
      (fun dbf groups => Stands readGrp dbf groups.records) (Coherent groupFormat Unnamed) where
  opened grp dbf groups closed stands := .opened stands closed
  closed grp dbf groups coherent := ⟨Or.inr rfl, coherent.stands⟩
  called call grp dbf groups admitted coherent := by
    cases call with
    | grpExists name =>
      refine ⟨grp, dbf, ?_, coherent⟩
      show some (GroupAnswer.bool (dbf name).isSome, grp, dbf) = _
      rw [coherent.stands.isSome name]
      rfl
    | grpCreate now name =>
      have unknown : Fitting (latin1 "(unknown)") := by decide
      have empty : Fitting [] := by decide
      have fine : (⟨⟨1, 0, 0, now, 0⟩, latin1 "(unknown)", [], 0x79⟩ : GroupRecord).Fine :=
        ⟨unknown, empty⟩
      refine ⟨_, _, ?_, coherent.saved rfl (readGrp_writeGrp _ fine)⟩
      show grpCreate now name grp dbf = _
      simp only [grpCreate, cpyStr_fitting admitted, cpyStr_fitting unknown.2,
        Option.bind_eq_bind, Option.bind_some]
      rfl
    | grpDelete name => exact ⟨grp, _, rfl, coherent.deleted name⟩
    | grpServer name => exact groups_server servList coherent admitted
    | grpLocal name =>
      exact groups_ask coherent admitted (fun grp => .bool (grp.serv = localServer)) (.bool false)
    | grpDsc name =>
      exact groups_ask coherent admitted (fun grp => .text (some grp.dsc)) (.text none)
    | grpFirst name =>
      exact groups_ask coherent admitted (fun grp => .number grp.entry.first.toInt) (.number 0)
    | grpLast name =>
      exact groups_ask coherent admitted (fun grp => .number grp.entry.last.toInt) (.number 0)
    | grpLastAccess name =>
      exact groups_ask coherent admitted (fun grp => .number grp.entry.lastAccess.toInt) (.number 0)
    | grpRmtNext name =>
      exact groups_ask coherent admitted (fun grp => .number grp.entry.rmtNext.toInt) (.number 0)
    | grpCreated name =>
      exact groups_ask coherent admitted (fun grp => .number grp.entry.created.toInt) (.number 0)
    | grpPostAllow name =>
      exact groups_ask coherent admitted (fun grp => .char grp.postAllow) (.char 0)
    | grpSetDsc value name =>
      show ∃ grp' dbf', grpSetDsc value name grp dbf = _ ∧ _
      rw [grpSetDsc, setDsc_fitting admitted.2]
      exact groups_change coherent admitted.1 _ fun _ fine => ⟨_, rfl, fine.serv, admitted.2⟩
    | grpSetLocal name => exact groups_setServ coherent admitted (by decide)
    | grpSetServ value name => exact groups_setServ coherent admitted.1 admitted.2
    | grpSetRmtNext value name =>
      exact groups_change coherent admitted (GroupRecord.setRmtNext value) fun _ fine =>
        ⟨_, rfl, fine.serv, fine.dsc⟩
    | grpSetLastAccess value name =>
      exact groups_change coherent admitted (GroupRecord.setLastAccess value) fun _ fine =>
        ⟨_, rfl, fine.serv, fine.dsc⟩
    | grpSetPostAllow postAllow name =>
      exact groups_change coherent admitted (GroupRecord.setPostAllow postAllow) fun _ fine =>
        ⟨_, rfl, fine.serv, fine.dsc⟩
    | grpSetFirstLast first last name =>
      exact groups_change coherent admitted (GroupRecord.setFirstLast first last) fun _ fine =>
        ⟨_, rfl, fine.serv, fine.dsc⟩

end Schnitzeljagd.News
