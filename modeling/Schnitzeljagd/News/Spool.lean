import Schnitzeljagd.Foundations.Numbering
import Schnitzeljagd.News.Content
import Schnitzeljagd.News.ItemList

/-!
# The spool directory of the news server

`group.c` keeps the first and the last number of each group, `content.c` its overview file,
and `database.c` the articles. Posting, cancelling and expiring change all of them, under a
lock that only one process holds. Reading and writing succeed; of an article in the database
only the groups and numbers it has there are kept.
-/

namespace Schnitzeljagd.News

open Foundations.CArithmetic Foundations.CString Foundations.PerlText Foundations.Scanning

/-- What `groupinfo.gdbm` says of a group. The fields that no operation of this module reads or
changes are left to the module on the records. -/
structure Group where
  first : Int
  last : Int
  serv : Text
  postAllow : Byte
deriving DecidableEq

/-- `GRP_LOCAL_SERVER_NAME`, the server of the groups that are made here. -/
def localServer : Text := latin1 "(local)"

/-- The groups, the overview files, and the `Xref` line of each article. Each file belongs to one
of the three functions. -/
structure Spool where
  groups : Text → Option Group
  overviews : Text → Option (List Byte)
  articles : Text → Option Text

/-- `Grp_last`, which is 0 for a group that does not exist. -/
def Spool.grpLast (spool : Spool) (name : Text) : Int :=
  match spool.groups name with
  | some grp => grp.last
  | none => 0

/-- `Grp_local`: the server of the group is the local one. -/
def Spool.grpLocal (spool : Spool) (name : Text) : Bool :=
  match spool.groups name with
  | some grp => grp.serv = localServer
  | none => false

/-- `Grp_setFirstLast`, which changes nothing when there is no such group. -/
def Spool.setFirstLast (spool : Spool) (name : Text) (first last : Int) : Spool :=
  match spool.groups name with
  | some grp => { spool with
      groups := Function.update spool.groups name (some { grp with first, last }) }
  | none => spool

/-- `Cont_read` of the overview file of a group, with the last number that the record of the group
has. There is no result when the source would stop with an error. -/
def Spool.contRead (spool : Spool) (name : Text) : Option Cont :=
  News.contRead (spool.overviews name) (spool.grpLast name)

/-- `Cont_write`, which removes the overview file of a group without overviews and writes it anew
otherwise. -/
def Spool.contWrite (spool : Spool) (name : Text) (cont : Cont) : Spool × Cont :=
  ({ spool with overviews := Function.update spool.overviews name (News.contWrite cont).1 },
    (News.contWrite cont).2)

/-! ## Posting -/

/-- A group and a number in an `Xref` line. -/
def reference (grp : Text) (numb : Int) : Text := grp ++ 0x3a :: printInt numb

/-- `snprintf( t, MAXCHAR, .. )`: the text that is left when the buffer is full. -/
def clipped (text : Text) : Text := text.take (maxChar - 1)

/-- The `Xref` line of an article that gets another number: the old line goes on when the article
is in the database already, otherwise a new one begins. -/
def nextXref (old : Option Text) (posted : Bool) (grp : Text) (numb : Int) : Text :=
  if posted then clipped (old.getD [] ++ 0x20 :: reference grp numb)
  else clipped (reference grp numb)

/-- `Post_add`, where `posted` says that the article is in the database -/
def Spool.postAdd (spool : Spool) (ov : Over) (posted : Bool) (grp : Text) : Option Spool := do
  let before ← spool.contRead grp
  let cont := before.app (some ov)
  let numb := if posted then before.vecFirst + before.elem.length else cont.last
  let xref := nextXref (spool.articles ov.msgId) posted grp numb
  let spool := { spool with articles := Function.update spool.articles ov.msgId (some xref) }
  let (spool, cont) := spool.contWrite grp cont
  some (spool.setFirstLast grp cont.first cont.last)

/-- The first loop of `postArticle`, with `oneLocal`: an article that is in the database already
is refused by `Post_open`, which the source calls at the first local group only. -/
def Spool.postLocal (ov : Over) : List Text → Bool → Spool → Option Spool
  | [], _, spool => some spool
  | grp :: grps, oneLocal, spool =>
    if spool.grpLocal grp then
      if !oneLocal && (spool.articles ov.msgId).isSome then some spool
      else do
        let spool ← spool.postAdd ov oneLocal grp
        postLocal ov grps true spool
    else postLocal ov grps oneLocal spool

/-- The loop of `doPost` over the groups: `knownGrp` and `postAllowedGrp`. It ends at the first
group that may not be posted to. -/
def checkGroups (groups : Text → Option Group) (approved : Bool) : List Text → Bool → Bool × Bool
  | [], known => (known, true)
  | name :: names, known =>
    match groups name with
    | none => checkGroups groups approved names known
    | some grp =>
      let isLocal := decide (grp.serv = localServer)
      let allowed :=
        if grp.postAllow = 0x6e then false
        else if grp.postAllow = 0x79 then true
        else if grp.postAllow = 0x6d then !isLocal || approved
        else !isLocal
      if allowed then checkGroups groups approved names true else (true, false)

/-- `doPost` behind the end of the article, with its `Newsgroups` field: the groups are checked
first, and only then is the article stored. -/
def Spool.doPost (spool : Spool) (newsgroups : Text) (approved : Bool) (ov : Over) :
    Option Spool := do
  let list := newItl (newsgroups.map tolower) (latin1 " ,")
  if list.count = 0 then some spool
  else
    let names ← itlItems list
    let (known, allowed) := checkGroups spool.groups approved names false
    if !known || !allowed then some spool
    else spool.postLocal ov names false

/-! ## Cancelling and expiring -/

/-- `sscanf( ref, "%s:%d", grp, &no )` -/
def scanReference (ref : Text) : Option (Text × Int) := do
  let (grp, rest) ← scanWord ref
  match rest with
  | [] => none
  | byte :: rest =>
    if byte = 0x3a then
      let (no, _) ← scanDecimal rest
      some (grp, no)
    else none

/-- The loop of `Ctrl_cancel` over the references of an article. It ends at the first reference
that `sscanf` does not understand. -/
def Spool.cancelRefs : List Text → Spool → Option Spool
  | [], spool => some spool
  | ref :: refs, spool =>
    match scanReference ref with
    | none => some spool
    | some (grp, no) =>
      if (spool.groups grp).isSome then do
        let cont ← spool.contRead grp
        let (spool, _) := spool.contWrite grp (cont.delete no)
        cancelRefs refs spool
      else cancelRefs refs spool

/-- `Ctrl_cancel` of an article that is not waiting to be sent to another server -/
def Spool.ctrlCancel (spool : Spool) (msgId : Text) : Option Spool :=
  match spool.articles msgId with
  | none => some spool
  | some xref => do
    let refs ← itlItems (newItl xref (latin1 " "))
    let spool ← spool.cancelRefs refs
    some { spool with articles := Function.update spool.articles msgId none }

/-- One turn of the inner loop of `expireContents`: the overview under a number is deleted when
the database does not have its article any more. -/
def expireNumber (articles : Text → Option Text) (first : Int) (cont : Cont) (i : Nat) : Cont :=
  match cont.get (first + i) with
  | some ov => if (articles ov.msgId).isSome then cont else cont.delete (first + i)
  | none => cont

/-- One turn of the outer loop of `expireContents`, for one group whose overview file the
directory lists. -/
def Spool.expireGroup (spool : Spool) (grp : Text) : Option Spool :=
  if (spool.groups grp).isSome then do
    let cont ← spool.contRead grp
    let cont := (List.range (cont.last - cont.first + 1).toNat).foldl
      (expireNumber spool.articles cont.first) cont
    let (spool, cont) := spool.contWrite grp cont
    some (spool.setFirstLast grp cont.first cont.last)
  else some spool

/-- `doExpire`: the articles that `Db_expire` drops, and then the overviews, in the order in
which the directory lists them -/
def Spool.doExpire (spool : Spool) (expired : Text → Bool) (dir : List Text) : Option Spool :=
  dir.foldlM Spool.expireGroup
    { spool with articles := fun msgId => if expired msgId then none else spool.articles msgId }

/-- `doCreateLocalGroup` -/
def Spool.createLocal (spool : Spool) (name : Text) : Spool :=
  if (spool.groups name).isSome then spool
  else { spool with
    groups := Function.update spool.groups name (some ⟨1, 0, localServer, 0x79⟩) }

/-- What can happen to the spool directory: the commands and the options of the program that
change it, with everything from outside as an argument. -/
inductive Action where
  | create (name : Text)
  | post (newsgroups : Text) (approved : Bool) (ov : Over)
  | cancel (msgId : Text)
  | expire (expired : Text → Bool) (dir : List Text)

/-- One operation on the files. There is no result when a function of the source would stop with
an error or read outside an array. -/
def Spool.step (spool : Spool) : Action → Option Spool
  | .create name => some (spool.createLocal name)
  | .post newsgroups approved ov => spool.doPost newsgroups approved ov
  | .cancel msgId => spool.ctrlCancel msgId
  | .expire expired dir => spool.doExpire expired dir

/-- Operations one after another, up to the first that has no result. -/
def Spool.run (spool : Spool) (actions : List Action) : Option Spool :=
  actions.foldlM Spool.step spool

/-- Behind a word that `%s` has read there is no colon, which would have been part of it. The
format of the source therefore never matches both. -/
theorem scanReference_none (ref : Text) : scanReference ref = none := by
  rw [scanReference]
  cases word : scanWord ref with
  | none => rfl
  | some scanned =>
    obtain ⟨grp, rest⟩ := scanned
    have space := scanWord_behind word
    cases rest with
    | nil => rfl
    | cons byte rest =>
      have other : byte ≠ 0x3a := by
        rintro rfl
        exact absurd (space _ rfl) (by decide)
      exact if_neg other

/-- Cancelling an article therefore leaves all overviews as they are, although the comment of the
source promises to remove them from each group. -/
theorem cancelRefs_same (refs : List Text) (spool : Spool) :
    spool.cancelRefs refs = some spool := by
  cases refs with
  | nil => rfl
  | cons ref refs => rw [Spool.cancelRefs, scanReference_none]

end Schnitzeljagd.News
