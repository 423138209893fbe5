import Schnitzeljagd.News.Spool

/-!
# Newsgroups as numbered boards

What the spool directory is for: every group is a board whose articles are numbered once, and
an article that is no longer in the database is taken off its boards when the spool is
expired. Every run of the operations on the files is a run of these.
-/

namespace Schnitzeljagd.News

open Foundations.CArithmetic Foundations.CString Foundations.Numbering Foundations.PerlText
open Foundations.Scanning

/-- An overview carries its number, so a board of overviews is a board whose items know where they
hang. -/
def byNumb : Numbered Over := ⟨Over.numb, fun numb ov => ov.setNumb numb, fun _ _ => rfl⟩

/-- A newsgroup as it is meant: a board with the overviews of its articles, and the two fields of
its record that no article changes. -/
structure Newsgroup where
  board : Board Over
  serv : Text
  postAllow : Byte

/-- The newsgroups, and the articles of the database, of which only the field that lists their
groups and numbers matters for the boards. -/
structure Store where
  groups : Text → Option Newsgroup
  articles : Text → Option Text

/-! ## The files of a store -/

/-- The first number that the record of a group holds: that of the oldest overview, or the one
after the last for an empty board. -/
def Newsgroup.first (group : Newsgroup) : Int :=
  (group.board.live.head?.map Over.numb).getD (group.board.last + 1)

/-- The record in `groupinfo.gdbm` that belongs to a group. The fields that the modelled
operations neither read nor change have fixed values. -/
def Newsgroup.info (group : Newsgroup) : Group :=
  ⟨group.first, group.board.last, group.serv, group.postAllow⟩

/-- The files in the spool directory that stand for a store. All results below compare the
source's functions on these files with operations on the store. -/
def Store.files (store : Store) : Spool where
  groups name := (store.groups name).map Newsgroup.info
  overviews name := (store.groups name).bind fun group => overviewFile group.board.live
  articles := store.articles

/-! ## The operations -/

/-- An article is put on the board of one group, under the next number, and the group and the
number are noted with the article. -/
def Store.postAdd (store : Store) (ov : Over) (posted : Bool) (name : Text) : Store :=
  match store.groups name with
  | none => store
  | some group =>
    ⟨Function.update store.groups name (some { group with board := group.board.post byNumb ov }),
      Function.update store.articles ov.msgId
        (some (nextXref (store.articles ov.msgId) posted name (group.board.last + 1)))⟩

/-- The server that a group belongs to is named in its record; a group of the players' own server
has no other one. -/
def Newsgroup.isLocal (group : Newsgroup) : Bool := group.serv = localServer

/-- The loop over the groups of an article. `oneLocal` says whether a local group has been met:
the first one decides whether the article is new. -/
def Store.postLocal (ov : Over) : List Text → Bool → Store → Store
  | [], _, store => store
  | name :: names, oneLocal, store =>
    if (store.groups name).any Newsgroup.isLocal then
      if !oneLocal && (store.articles ov.msgId).isSome then store
      else postLocal ov names true (store.postAdd ov oneLocal name)
    else postLocal ov names oneLocal store

/-- The names in a `Newsgroups` field, in lower case and without the commas and blanks that
separate them. -/
def groupNames (newsgroups : Text) : List Text :=
  runs (latin1 " ,").contains (newsgroups.map tolower)

/-- An article is posted to the groups it names, unless none of them is known or one of them does
not allow it. -/
def Store.doPost (store : Store) (newsgroups : Text) (approved : Bool) (ov : Over) : Store :=
  let names := groupNames newsgroups
  if names = [] then store
  else
    let (known, allowed) :=
      checkGroups (fun name => (store.groups name).map Newsgroup.info) approved names false
    if !known || !allowed then store else store.postLocal ov names false

/-- The group with those of its articles that are in the database. The numbers of the others are
not given again. -/
def Newsgroup.present (articles : Text → Option Text) (group : Newsgroup) : Newsgroup :=
  { group with board := group.board.keep fun ov => (articles ov.msgId).isSome }

/-- The database forgets what has expired, and every board keeps what the database still has. -/
def Store.expire (store : Store) (expired : Text → Bool) : Store :=
  let articles := fun msgId => if expired msgId then none else store.articles msgId
  ⟨fun name => (store.groups name).map (Newsgroup.present articles), articles⟩

/-- An empty board is put up; creating a group again changes nothing but what a new record says.
-/
def Store.createLocal (store : Store) (name : Text) : Store :=
  if (store.groups name).isSome then store
  else { store with
    groups := Function.update store.groups name (some ⟨⟨0, []⟩, localServer, 0x79⟩) }

/-- One operation on the boards. Cancelling an article leaves its overview where it is until the
next time that boards are cleaned up. -/
def Store.step (store : Store) : Action → Store
  | .create name => store.createLocal name
  | .post newsgroups approved ov => store.doPost newsgroups approved ov
  | .cancel msgId => { store with articles := Function.update store.articles msgId none }
  | .expire expired _ => store.expire expired

/-- Operations one after another, as the processes of the server carry them out while they hold
the lock. -/
def Store.run (store : Store) (actions : List Action) : Store := actions.foldl Store.step store

/-! ## What the files can hold -/

/-- An article that can be kept under any number that an `int` can have: its fields have no tab in
them, its line fits into the buffer of the reader together with ten digits, and its identifier is
not the one that the server uses for its own notice. -/
structure Over.Clean (ov : Over) : Prop where
  subj : Separate ov.subj
  sender : Separate ov.sender
  date : Separate ov.date
  msgId : Separate ov.msgId
  ref : Separate ov.ref
  room : (ovWrite (ov.setNumb 0)).length + 10 ≤ maxChar
  ordinary : isGeneralInfo ov.msgId = false

/-- What an overview needs to be read back is independent of its number, as long as the number has
at most ten digits. -/
theorem Over.Clean.storable {ov : Over} (clean : ov.Clean) (numb : Int) (positive : 0 < numb)
    (small : numb < 2 ^ 31) : (ov.setNumb numb).Storable := by
  have digits : (printInt numb).length ≤ 10 := by
    rw [printInt, if_neg (by omega)]
    exact decimal_length numb.toNat 10 (by decide) (by omega)
  have room := clean.room
  refine ⟨clean.subj, clean.sender, clean.date, clean.msgId, clean.ref, ?_⟩
  have zero : (printInt 0).length = 1 := rfl
  simp only [ovWrite, Over.setNumb, List.length_append, List.length_cons] at room ⊢
  omega

/-- A text that a list of items can be made of: no end of a string in it, and not the byte that
the list puts in place of separators. -/
def Listable (text : Text) : Prop := ∀ byte ∈ text, byte ≠ 0 ∧ byte ≠ sepChar

instance (text : Text) : Decidable (Listable text) :=
  inferInstanceAs (Decidable (∀ byte ∈ text, byte ≠ 0 ∧ byte ≠ sepChar))

/-- The board is in order, its last number fits into an `int`, and every overview on it can be
written and read back. -/
structure Newsgroup.Sound (group : Newsgroup) : Prop where
  board : group.board.Sound byNumb
  small : group.board.last < 2 ^ 31
  storable : ∀ ov ∈ group.board.live, ov.Storable
  ordinary : ∀ ov ∈ group.board.live, isGeneralInfo ov.msgId = false

/-- Every group is in order, and every field that lists groups and numbers can be taken apart
again. -/
structure Store.Sound (store : Store) : Prop where
  groups : ∀ name group, store.groups name = some group → group.Sound
  articles : ∀ msgId xref, store.articles msgId = some xref → Listable xref

/-- What an operation needs from its surroundings: an article that can be kept, groups with room
for further numbers, and a directory that lists the file of every board that is not empty. -/
def Action.Fits (store : Store) : Action → Prop
  | .create _ => True
  | .post newsgroups _ ov => ov.Clean ∧ Listable (newsgroups.map tolower) ∧
      ∀ name group, store.groups name = some group →
        group.board.last + (groupNames newsgroups).length < 2 ^ 31
  | .cancel _ => True
  | .expire _ dir => ∀ name group, store.groups name = some group →
      group.board.live ≠ [] → name ∈ dir

/-- All operations of a run fit where they come. The condition is about the store in which each of
them is carried out. -/
def Admissible : Store → List Action → Prop
  | _, [] => True
  | store, action :: actions => action.Fits store ∧ Admissible (store.step action) actions

/-! ## Reading and writing the overviews of a group -/

variable {store : Store} {name : Text} {group : Newsgroup}

/-- Reading the overview file of a group gives a content that holds just what is on its board,
with the numbers that its record has. -/
theorem files_contRead (sound : group.Sound) (stored : store.groups name = some group) :
    ∃ cont, store.files.contRead name = some cont ∧ cont.Sound ∧
      cont.articles = group.board.live ∧ cont.last = group.board.last ∧ cont.first = group.first := by
  have ascending : Ascending group.board.live :=
    ⟨sound.board.ordered, fun ov member => (sound.board.given ov member).1⟩
  have read := contRead_overviewFile group.board.live ascending sound.storable group.board.last
    sound.board.real fun ov member => (sound.board.given ov member).2
  have file : store.files.overviews name = overviewFile group.board.live := by
    simp [Store.files, stored]
  have last : store.files.grpLast name = group.board.last := by
    simp [Spool.grpLast, Store.files, stored, Newsgroup.info]
  rwa [Spool.contRead, file, last]

/-- Writing the overviews of a group and noting their numbers makes the files of the store with
the board of these overviews. All functions that change a group end with these two calls. -/
theorem files_contWrite (stored : store.groups name = some group) {cont : Cont}
    (sound : cont.Sound) (ordinary : ∀ ov ∈ cont.articles, isGeneralInfo ov.msgId = false)
    (articles : Text → Option Text) :
    ({ store.files with articles }.contWrite name cont).1.setFirstLast name
        ({ store.files with articles }.contWrite name cont).2.first
        ({ store.files with articles }.contWrite name cont).2.last =
      (⟨Function.update store.groups name (some { group with board := ⟨cont.last, cont.articles⟩ }),
        articles⟩ : Store).files := by
  obtain ⟨file, last, first⟩ := contWrite_articles sound ordinary
  simp only [Spool.contWrite, Spool.setFirstLast, file, last, first, Store.files, stored,
    Option.map_some, Spool.mk.injEq, and_true]
  constructor
  · funext other
    by_cases same : other = name
    · subst same
      simp [Newsgroup.info, Newsgroup.first]
    · simp [Function.update_of_ne same]
  · funext other
    by_cases same : other = name
    · subst same
      simp
    · simp [Function.update_of_ne same]

/-! ## One operation after the other -/

/-- Whether a group is local is read from its record, also when there is no such group. -/
theorem isLocal_files (store : Store) (name : Text) :
    store.files.grpLocal name = (store.groups name).any Newsgroup.isLocal := by
  cases stored : store.groups name <;>
    simp [Spool.grpLocal, Store.files, stored, Newsgroup.info, Newsgroup.isLocal]

/-- Adding an article to a group puts it on the board of the group. The content is read, extended
by one and written back, and the board is extended by one in between. -/
theorem files_postAdd (sound : group.Sound) (stored : store.groups name = some group) (ov : Over)
    (ordinary : isGeneralInfo ov.msgId = false) (posted : Bool) :
    store.files.postAdd ov posted name = some (store.postAdd ov posted name).files := by
  obtain ⟨before, read, before', articles, last, -⟩ := files_contRead sound stored
  have ends := before'.ends
  have app := before'.app_place (some ov)
  have after := before'.app (some ov)
  have number : before.vecFirst + before.elem.length = group.board.last + 1 := by omega
  have last' : (before.app (some ov)).last = group.board.last + 1 := by
    rw [app, ← last]
    rfl
  have articles' : (before.app (some ov)).articles =
      group.board.live ++ [ov.setNumb (group.board.last + 1)] := by
    rw [app, Cont.place_articles, articles, last]
    rfl
  have ordinary' : ∀ other ∈ (before.app (some ov)).articles,
      isGeneralInfo other.msgId = false := by
    intro other member
    rw [articles'] at member
    rcases List.mem_append.mp member with old | new
    · exact sound.ordinary other old
    · obtain rfl := List.mem_singleton.mp new
      exact ordinary
  have numb : (if posted = true then before.vecFirst + before.elem.length
      else (before.app (some ov)).last) = group.board.last + 1 := by
    rw [number, last', ite_self]
  rw [Spool.postAdd, read]
  simp only [Option.bind_eq_bind, Option.bind_some, numb, Store.postAdd, stored]
  rw [files_contWrite stored after ordinary', articles', last']
  rfl

/-- A board stays in order when a clean article is put on it and there is a number left. -/
theorem Newsgroup.Sound.post (sound : group.Sound) (ov : Over) (clean : ov.Clean)
    (small : group.board.last + 1 < 2 ^ 31) :
    ({ group with board := group.board.post byNumb ov } : Newsgroup).Sound := by
  have real := sound.board.real
  refine ⟨sound.board.post ov, small, ?_, ?_⟩
  · intro other member
    rcases List.mem_append.mp member with old | new
    · exact sound.storable other old
    · obtain rfl := List.mem_singleton.mp new
      exact clean.storable _ (by omega) small
  · intro other member
    rcases List.mem_append.mp member with old | new
    · exact sound.ordinary other old
    · obtain rfl := List.mem_singleton.mp new
      exact clean.ordinary

/-- Texts put one behind the other bring no new bytes. -/
theorem Listable.append {text text' : Text} (listable : Listable text)
    (listable' : Listable text') : Listable (text ++ text') := by
  intro byte member
  rcases List.mem_append.mp member with first | second
  · exact listable byte first
  · exact listable' byte second

/-- The field that lists groups and numbers grows by a name, a colon and digits, none of which is
a byte to be avoided. -/
theorem listable_nextXref (old : Option Text) (posted : Bool) (numb : Int)
    (listable : ∀ xref, old = some xref → Listable xref) (listable' : Listable name) :
    Listable (nextXref old posted name numb) := by
  have number : Listable (0x3a :: printInt numb) := by
    intro byte member
    rcases List.mem_cons.mp member with rfl | digit
    · decide
    · constructor
      · rintro rfl
        exact absurd (printInt_bytes numb _ digit) (by decide)
      · rintro rfl
        exact absurd (printInt_bytes numb _ digit) (by decide)
  have entry : Listable (reference name numb) := listable'.append number
  have start : Listable (old.getD []) := by
    cases old with
    | none => simp [Listable]
    | some xref => exact listable xref rfl
  have space : Listable [0x20] := by
    intro byte member
    obtain rfl := List.mem_singleton.mp member
    decide
  intro byte member
  rw [nextXref] at member
  split at member
  · exact (start.append (space.append entry)) byte (List.mem_of_mem_take member)
  · exact entry byte (List.mem_of_mem_take member)

/-- What holds of all stored values goes on to hold when one value is replaced by another of which
it holds. -/
theorem update_all {β : Type} {stored : Text → Option β} {holds : β → Prop}
    (all : ∀ key value, stored key = some value → holds value) (key : Text) (value : β)
    (new : holds value) :
    ∀ key' value', Function.update stored key (some value) key' = some value' → holds value' := by
  intro key' value' found
  by_cases same : key' = key
  · subst same
    rw [Function.update_self] at found
    exact Option.some.inj found ▸ new
  · rw [Function.update_of_ne same] at found
    exact all key' value' found

/-- Adding one article keeps the store in order: one group is extended, one field of the database
grows. -/
theorem Store.Sound.postAdd (sound : store.Sound) (ov : Over) (clean : ov.Clean) (posted : Bool)
    (listable : Listable name) (stored : store.groups name = some group)
    (small : group.board.last + 1 < 2 ^ 31) : (store.postAdd ov posted name).Sound := by
  simp only [Store.postAdd, stored]
  constructor
  · exact update_all sound.groups _ _ ((sound.groups name group stored).post ov clean small)
  · exact update_all sound.articles _ _ (listable_nextXref _ _ _ (sound.articles _) listable)

/-- Adding an article takes a group at most one number on. Over a whole `Newsgroups` field this
bounds how far any group can get. -/
theorem postAdd_last (store : Store) (ov : Over) (posted : Bool) (added name : Text)
    (group : Newsgroup) (stored : (store.postAdd ov posted added).groups name = some group) :
    ∃ before, store.groups name = some before ∧ group.board.last ≤ before.board.last + 1 := by
  rw [Store.postAdd] at stored
  split at stored
  · exact ⟨group, stored, by omega⟩
  · next before found =>
    replace stored : Function.update store.groups added
        (some { before with board := before.board.post byNumb ov }) name = some group := stored
    by_cases same : name = added
    · subst same
      rw [Function.update_self] at stored
      obtain rfl := Option.some.inj stored
      exact ⟨before, found, Int.le_refl _⟩
    · rw [Function.update_of_ne same] at stored
      exact ⟨group, stored, by omega⟩

/-- The loop over the groups of an article does on the files what it does on the boards. By
induction on the names, with a number left in every group for each name that is still to come. -/
theorem files_postLocal (ov : Over) (clean : ov.Clean) (names : List Text)
    (listable : ∀ name ∈ names, Listable name) (oneLocal : Bool) (store : Store)
    (sound : store.Sound) (small : ∀ name group, store.groups name = some group →
      group.board.last + names.length < 2 ^ 31) :
    store.files.postLocal ov names oneLocal = some (store.postLocal ov names oneLocal).files ∧
      (store.postLocal ov names oneLocal).Sound := by
  induction names generalizing oneLocal store with
  | nil => exact ⟨rfl, sound⟩
  | cons name names inductionHypothesis =>
    obtain ⟨listable', others⟩ := List.forall_mem_cons.mp listable
    simp only [List.length_cons] at small
    rw [Spool.postLocal, Store.postLocal, isLocal_files]
    by_cases here : (store.groups name).any Newsgroup.isLocal = true
    · obtain ⟨group, stored, -⟩ := (Option.any_eq_true _ _).mp here
      have room := small name group stored
      rw [if_pos here, if_pos here]
      by_cases refused : (!oneLocal && (store.articles ov.msgId).isSome) = true
      · rw [if_pos refused]
        exact ⟨if_pos refused, sound⟩
      · have next := sound.postAdd ov clean oneLocal listable' stored (by omega)
        have small' : ∀ name' group', (store.postAdd ov oneLocal name).groups name' =
            some group' → group'.board.last + names.length < 2 ^ 31 := by
          intro name' group' stored'
          obtain ⟨before, stored'', above⟩ := postAdd_last store ov oneLocal name name' group' stored'
          have room' := small name' before stored''
          omega
        have refused' : ¬ (!oneLocal && (store.files.articles ov.msgId).isSome) = true := refused
        rw [if_neg refused, if_neg refused', files_postAdd (sound.groups name group stored) stored ov
          clean.ordinary]
        exact inductionHypothesis others true _ next small'
    · rw [if_neg here, if_neg here]
      refine inductionHypothesis others oneLocal store sound fun name' group' stored' => ?_
      have room' := small name' group' stored'
      omega

/-- Posting an article is putting it on the boards of its local groups. Rejected articles change
nothing on either side. -/
theorem files_doPost (sound : store.Sound) (newsgroups : Text) (approved : Bool) (ov : Over)
    (fits : (Action.post newsgroups approved ov).Fits store) :
    store.files.doPost newsgroups approved ov =
        some (store.doPost newsgroups approved ov).files ∧
      (store.doPost newsgroups approved ov).Sound := by
  obtain ⟨clean, listable, small⟩ := fits
  have items : itlItems (newItl (newsgroups.map tolower) (latin1 " ,")) =
      some (groupNames newsgroups) := newItl_plain _ _
    (fun byte member => (listable byte member).1) (fun byte member => (listable byte member).2)
  have count : (newItl (newsgroups.map tolower) (latin1 " ,")).count =
      (groupNames newsgroups).length := newItl_count _ _
  have names : ∀ name ∈ groupNames newsgroups, Listable name := fun name member byte inside =>
    listable byte (runs_bytes _ name member byte inside)
  have posted := files_postLocal ov clean (groupNames newsgroups) names false store sound small
  have info : store.files.groups = fun name => (store.groups name).map Newsgroup.info := rfl
  rw [Spool.doPost, Store.doPost, info]
  simp only [count, List.length_eq_zero_iff, items, Option.bind_eq_bind, Option.bind_some]
  by_cases empty : groupNames newsgroups = []
  · rw [if_pos empty, if_pos empty]
    exact ⟨rfl, sound⟩
  · rw [if_neg empty, if_neg empty]
    generalize checkGroups (fun name => (store.groups name).map Newsgroup.info) approved
      (groupNames newsgroups) false = verdict
    by_cases refused : (!verdict.1 || !verdict.2) = true
    · rw [if_pos refused, if_pos refused]
      exact ⟨rfl, sound⟩
    · rw [if_neg refused, if_neg refused]
      exact posted

/-- Cancelling takes the article out of the database and leaves it on its boards, since the loop
over its groups in the source is left at once. -/
theorem files_cancel (sound : store.Sound) (msgId : Text) :
    store.files.ctrlCancel msgId = some (store.step (.cancel msgId)).files ∧
      (store.step (.cancel msgId)).Sound := by
  constructor
  · have articles : store.files.articles = store.articles := rfl
    rw [Spool.ctrlCancel, articles]
    cases stored : store.articles msgId with
    | none =>
      have same : Function.update store.articles msgId none = store.articles :=
        stored ▸ Function.update_eq_self msgId store.articles
      rw [Store.step, same]
    | some xref =>
      have listable := sound.articles msgId xref stored
      have items := newItl_plain xref (latin1 " ")
        (fun byte member => (listable byte member).1) (fun byte member => (listable byte member).2)
      simp only [items, cancelRefs_same, Option.bind_eq_bind, Option.bind_some]
      rfl
  · refine ⟨sound.groups, fun other xref found => ?_⟩
    replace found : Function.update store.articles msgId none other = some xref := found
    by_cases same : other = msgId
    · subst same
      simp at found
    · rw [Function.update_of_ne same] at found
      exact sound.articles other xref found

/-- Creating a group is putting up an empty board, and an existing one is left alone. -/
theorem files_create (sound : store.Sound) (name : Text) :
    store.files.createLocal name = (store.createLocal name).files ∧
      (store.createLocal name).Sound := by
  have present : (store.files.groups name).isSome = (store.groups name).isSome := by
    simp [Store.files]
  rw [Spool.createLocal, Store.createLocal, present]
  by_cases old : (store.groups name).isSome = true
  · rw [if_pos old, if_pos old]
    exact ⟨rfl, sound⟩
  · rw [if_neg old, if_neg old]
    have absent : store.groups name = none := by simpa using old
    have empty : (⟨⟨0, []⟩, localServer, 0x79⟩ : Newsgroup).Sound :=
      ⟨⟨Int.le_refl 0, List.Pairwise.nil, by simp⟩, by decide, by simp, by simp⟩
    refine ⟨?_, update_all sound.groups _ _ empty, sound.articles⟩
    simp only [Store.files, Spool.mk.injEq, and_true]
    constructor
    · funext other
      by_cases same : other = name
      · subst same
        simp [Newsgroup.info, Newsgroup.first]
      · simp [Function.update_of_ne same]
    · funext other
      by_cases same : other = name
      · subst same
        simp [absent, overviewFile]
      · simp [Function.update_of_ne same]

/-! ## Expiring -/

/-- One number more has been looked at: its overview is deleted if the database does not have the
article, and every other overview stays. -/
theorem expireNumber_next (articles : Text → Option Text) {cont : Cont} (sound : cont.Sound)
    (first : Int) (i : Nat) :
    (expireNumber articles first cont i).Sound ∧
      (expireNumber articles first cont i).last = cont.last ∧
      (expireNumber articles first cont i).articles = cont.articles.filter fun ov =>
        decide (ov.numb = first + i → (articles ov.msgId).isSome) := by
  rw [expireNumber]
  cases got : cont.get (first + i) with
  | none =>
    refine ⟨sound, rfl, (List.filter_eq_self.mpr fun ov member => ?_).symm⟩
    rw [decide_eq_true_eq]
    intro same
    rw [(sound.get (first + i) ov).mpr ⟨member, same⟩] at got
    contradiction
  | some ov =>
    have only : ∀ other ∈ cont.articles, other.numb = first + i → other = ov :=
      fun other member same =>
        Option.some.inj (((sound.get (first + i) other).mpr ⟨member, same⟩).symm.trans got)
    by_cases present : (articles ov.msgId).isSome = true
    · simp only [present, if_true]
      refine ⟨sound, trivial, (List.filter_eq_self.mpr fun other member => ?_).symm⟩
      rw [decide_eq_true_eq]
      intro same
      rw [only other member same]
      exact present
    · obtain ⟨sound', last, deleted⟩ := sound.delete (first + i)
      simp only [present]
      refine ⟨sound', last, deleted.trans (List.filter_congr fun other member => ?_)⟩
      rw [decide_eq_decide]
      constructor
      · exact fun apart same => absurd same apart
      · intro kept same
        have absent := only other member same ▸ kept same
        exact present absent

/-- The inner loop deletes the overviews of the articles that are not in the database. It goes
over all numbers from the first to the last, so each overview is looked at exactly once. -/
theorem expireNumber_all (articles : Text → Option Text) {cont : Cont} (sound : cont.Sound) :
    ∃ after, (List.range (cont.last - cont.first + 1).toNat).foldl
        (expireNumber articles cont.first) cont = after ∧ after.Sound ∧ after.last = cont.last ∧
      after.articles = cont.articles.filter fun ov => (articles ov.msgId).isSome := by
  have looked : ∀ count : Nat, ∃ after, (List.range count).foldl
      (expireNumber articles cont.first) cont = after ∧ after.Sound ∧ after.last = cont.last ∧
      after.articles = cont.articles.filter fun ov =>
        decide (ov.numb < cont.first + count → (articles ov.msgId).isSome) := by
    intro count
    induction count with
    | zero =>
      refine ⟨cont, rfl, sound, rfl, (List.filter_eq_self.mpr fun ov member => ?_).symm⟩
      have covered := sound.covered ov member
      rw [decide_eq_true_eq]
      intro below
      omega
    | succ count inductionHypothesis =>
      obtain ⟨after, ran, sound', last, articles'⟩ := inductionHypothesis
      obtain ⟨sound'', last', articles''⟩ := expireNumber_next articles sound' cont.first count
      rw [List.range_succ, List.foldl_append, ran]
      refine ⟨_, rfl, sound'', last'.trans last, ?_⟩
      rw [List.foldl_cons, List.foldl_nil, articles'', articles', List.filter_filter]
      apply List.filter_congr
      intro ov member
      rw [← Bool.decide_and, decide_eq_decide]
      constructor
      · rintro ⟨here, before⟩ below
        by_cases same : ov.numb = cont.first + count
        · exact here same
        · exact before (by omega)
      · intro all
        exact ⟨fun same => all (by omega), fun below => all (by omega)⟩
  obtain ⟨after, ran, sound', last, articles'⟩ := looked (cont.last - cont.first + 1).toNat
  refine ⟨after, ran, sound', last, articles'.trans (List.filter_congr fun ov member => ?_)⟩
  have below := sound.below member
  rw [Bool.eq_iff_iff, decide_eq_true_eq]
  exact ⟨fun present => present (by omega), fun present _ => present⟩

/-- Taking articles away keeps a board in order, and does not touch its last number. -/
theorem Newsgroup.Sound.present (sound : group.Sound) (articles : Text → Option Text) :
    (group.present articles).Sound :=
  ⟨sound.board.keep _, sound.small, fun ov member => sound.storable ov
    (List.mem_of_mem_filter member), fun ov member => sound.ordinary ov
      (List.mem_of_mem_filter member)⟩

/-- A board that has been cleaned up once stays as it is when it is cleaned up again, so a group
listed twice does no harm. -/
theorem present_present (articles : Text → Option Text) (group : Newsgroup) :
    (group.present articles).present articles = group.present articles := by
  simp [Newsgroup.present, Board.keep, List.filter_filter]

/-- An empty board has nothing to be cleaned up, so it does not matter whether the directory lists
its file. -/
theorem present_empty (articles : Text → Option Text) (empty : group.board.live = []) :
    group.present articles = group := by
  obtain ⟨⟨last, live⟩, serv, postAllow⟩ := group
  obtain rfl : live = [] := empty
  rfl

/-- The store with one group expired, which is one turn of the outer loop. -/
def Store.expireGroup (store : Store) (name : Text) : Store :=
  ⟨Function.update store.groups name ((store.groups name).map (Newsgroup.present store.articles)),
    store.articles⟩

/-- One turn of the outer loop keeps the store in order. -/
theorem Store.Sound.expireGroup (sound : store.Sound) (name : Text) :
    (store.expireGroup name).Sound := by
  rw [Store.expireGroup]
  cases stored : store.groups name with
  | none =>
    have same : Function.update store.groups name none = store.groups :=
      stored ▸ Function.update_eq_self name store.groups
    rw [Option.map_none, same]
    exact sound
  | some group =>
    exact ⟨update_all sound.groups _ _ ((sound.groups name group stored).present _), sound.articles⟩

/-- Expiring one group keeps on its board what is in the database. -/
theorem files_expireGroup (sound : store.Sound) (name : Text) :
    store.files.expireGroup name = some (store.expireGroup name).files := by
  have present : (store.files.groups name).isSome = (store.groups name).isSome := by
    simp [Store.files]
  rw [Spool.expireGroup, Store.expireGroup, present]
  cases stored : store.groups name with
  | none =>
    have same : Function.update store.groups name none = store.groups :=
      stored ▸ Function.update_eq_self name store.groups
    rw [Option.map_none, same]
    rfl
  | some group =>
    have group' := sound.groups name group stored
    obtain ⟨cont, read, sound', articles, last, -⟩ := files_contRead group' stored
    obtain ⟨after, ran, sound'', last', articles'⟩ := expireNumber_all store.articles sound'
    have ordinary : ∀ ov ∈ after.articles, isGeneralInfo ov.msgId = false := by
      intro ov member
      rw [articles', articles] at member
      exact group'.ordinary ov (List.mem_of_mem_filter member)
    have written := files_contWrite stored sound'' ordinary store.articles
    rw [articles', articles, last', last] at written
    have looked : (List.range (cont.last - cont.first + 1).toNat).foldl
        (expireNumber store.files.articles cont.first) cont = after := ran
    simp only [Option.isSome_some, if_true, read, Option.bind_eq_bind, Option.bind_some, looked]
    exact congrArg some written

/-- Expiring the groups whose overview files are there. The order in which the directory lists
them is arbitrary, and it makes no difference. -/
theorem files_expireGroups (dir : List Text) (store : Store) (sound : store.Sound) :
    ∃ after : Store, dir.foldlM Spool.expireGroup store.files = some after.files ∧ after.Sound ∧
      after.articles = store.articles ∧ ∀ name, after.groups name =
        if name ∈ dir then (store.groups name).map (Newsgroup.present store.articles)
        else store.groups name := by
  induction dir generalizing store with
  | nil => exact ⟨store, rfl, sound, rfl, by simp⟩
  | cons first dir inductionHypothesis =>
    obtain ⟨after, ran, sound', articles, groups⟩ :=
      inductionHypothesis (store.expireGroup first) (sound.expireGroup first)
    refine ⟨after, ?_, sound', articles, fun name => ?_⟩
    · rw [List.foldlM_cons, files_expireGroup sound first]
      exact ran
    · have articles' : (store.expireGroup first).articles = store.articles := rfl
      rw [groups name, articles']
      by_cases same : name = first
      · subst same
        have here : (store.expireGroup name).groups name =
            (store.groups name).map (Newsgroup.present store.articles) := Function.update_self ..
        rw [here, if_pos List.mem_cons_self]
        split
        · rw [Option.map_map]
          congr 1
          funext group
          exact present_present _ group
        · rfl
      · have other : (store.expireGroup first).groups name = store.groups name :=
          Function.update_of_ne same ..
        simp [other, same]

/-- Expiring keeps on all boards what is left in the database, provided that the directory lists
the files of all boards with something on them. -/
theorem files_expire (sound : store.Sound) (expired : Text → Bool) (dir : List Text)
    (fits : (Action.expire expired dir).Fits store) :
    store.files.doExpire expired dir = some (store.expire expired).files ∧
      (store.expire expired).Sound := by
  have dropped : (⟨store.groups, fun msgId =>
      if expired msgId then none else store.articles msgId⟩ : Store).Sound := by
    refine ⟨sound.groups, fun msgId xref found => ?_⟩
    replace found : (if expired msgId = true then none else store.articles msgId) = some xref := found
    split at found
    · contradiction
    · exact sound.articles msgId xref found
  obtain ⟨after, ran, sound', articles, groups⟩ := files_expireGroups dir _ dropped
  have same : after = store.expire expired := by
    obtain ⟨groups', articles'⟩ := after
    simp only at articles groups
    subst articles
    rw [Store.expire, Store.mk.injEq]
    refine ⟨funext fun name => ?_, rfl⟩
    rw [groups name]
    split
    · rfl
    · next absent =>
      cases stored : store.groups name with
      | none => rfl
      | some group =>
        have empty : group.board.live = [] := by
          by_contra some
          exact absent (fits name group stored some)
        rw [Option.map_some, present_empty _ empty]
  rw [← same]
  exact ⟨ran, sound'⟩

/-! ## Runs -/

/-- One operation of the server does on the files what it does on the boards, one case for each
operation. -/
theorem files_step (sound : store.Sound) (action : Action) (fits : action.Fits store) :
    store.files.step action = some (store.step action).files ∧ (store.step action).Sound := by
  cases action with
  | create name =>
    obtain ⟨same, sound'⟩ := files_create sound name
    exact ⟨congrArg some same, sound'⟩
  | post newsgroups approved ov => exact files_doPost sound newsgroups approved ov fits
  | cancel msgId => exact files_cancel sound msgId
  | expire expired dir => exact files_expire sound expired dir fits

/-- The boards stay in order in every admissible run. -/
theorem run_sound (sound : store.Sound) {actions : List Action}
    (admissible : Admissible store actions) : (store.run actions).Sound := by
  induction actions generalizing store with
  | nil => exact sound
  | cons action actions inductionHypothesis =>
    exact inductionHypothesis (files_step sound action admissible.1).2 admissible.2

/-- The board of a group, which is empty before the group is created. -/
def Store.board (store : Store) (name : Text) : Board Over :=
  (store.groups name).elim ⟨0, []⟩ Newsgroup.board

/-- The overview of an article as the trolls post it. -/
def trollPost : Over where
  numb := 0
  subj := latin1 "Hallo"
  sender := latin1 "a <b@c.invalid>"
  date := latin1 "Thu, 28 Mar 2002 17:41:25 +0100"
  msgId := latin1 "<1@c.invalid>"
  ref := []
  bytes := 120
  lines := 3

end Schnitzeljagd.News
