import Schnitzeljagd.News.ArticleBase

/-!
# Processes and the global lock

`lock.c` opens and closes the databases under a lock on one file, and `fcntl` gives the lock to
one process at a time. A server process opens them with the first command line that it reads and
closes them when it has waited five seconds for the next one. Every other run of the program
opens them at its start and closes them at its end. The databases can be opened.
-/

namespace Schnitzeljagd.News

open Foundations.LockedSharing Foundations.PerlText Foundations.RecordCache

variable {ο π : Type}

/-- What `waitCmdLn` returns to `Server_run`: nothing came for five seconds, the client is gone,
or there is a line, on which `parseAndExecute` makes some calls and goes on or not. -/
inductive ServerInput (ο : Type) where
  | idle
  | disconnected
  | line (calls : List ο) (goesOn : Bool)

/-- The loop of `Server_run`, where `running` says that the databases are open. -/
def serverRun : Bool → List (ServerInput ο) → List (Act ο)
  | _, [] => []
  | running, .idle :: inputs => (if running then [.release] else []) ++ serverRun false inputs
  | running, .disconnected :: _ => if running then [.release] else []
  | running, .line calls goesOn :: inputs =>
    (if running then [] else [.acquire]) ++
      (calls.map .call ++ if goesOn then serverRun true inputs else [.release])

/-- A process of the server, or another run of the program. -/
inductive Process (ο : Type) where
  | server (inputs : List (ServerInput ο))
  | command (calls : List ο)

/-- What a process does: `Server_run`, or `initNoffle`, a command and `closeNoffle`. -/
def Process.acts : Process ο → List (Act ο)
  | .server inputs => serverRun false inputs
  | .command calls => .acquire :: (calls.map .call ++ [.release])

/-- The server has the lock whenever it uses the databases. It takes the lock with the first line
after a pause and gives it back when nothing comes, when the client is gone and when it stops. -/
theorem serverRun_bracketed (running : Bool) (inputs : List (ServerInput ο)) :
    Bracketed running (serverRun running inputs) := by
  induction inputs generalizing running with
  | nil => trivial
  | cons input inputs inductionHypothesis =>
    cases input with
    | idle =>
      cases running with
      | true => exact ⟨rfl, inductionHypothesis false⟩
      | false => exact inductionHypothesis false
    | disconnected =>
      cases running with
      | true => exact ⟨rfl, trivial⟩
      | false => trivial
    | line calls goesOn =>
      have behind : Bracketed true
          (calls.map Act.call ++ if goesOn then serverRun true inputs else [.release]) := by
        apply bracketed_calls
        cases goesOn with
        | true => exact inductionHypothesis true
        | false => exact ⟨rfl, trivial⟩
      cases running with
      | true => exact behind
      | false => exact ⟨rfl, behind⟩

/-- So has every process: a command holds the lock from its first call to its last. -/
theorem Process.acts_bracketed (process : Process ο) : Bracketed false process.acts := by
  cases process with
  | server inputs => exact serverRun_bracketed false inputs
  | command calls => exact ⟨rfl, bracketed_calls calls ⟨rfl, trivial⟩⟩

/-! ## The databases under the lock -/

/-- The functions of `group.c` and `database.c` with the globals of a process. -/
def databases (servList : Text → Bool) (stamp : BitVec 32 → Text) (xrefHost : Text) :
    Component (Grp × Db) (GroupFile × ArticleFile) (GroupCall ⊕ ArticleCall)
      (GroupAnswer ⊕ ArticleAnswer) :=
  (groupInfo servList).both (articleBase stamp xrefHost)

/-- The same functions on the groups and articles that are in the files. -/
def filesOnly (servList : Text → Bool) (stamp : BitVec 32 → Text) (xrefHost : Text) :
    Meaning (Groups × Articles) (GroupCall ⊕ ArticleCall) (GroupAnswer ⊕ ArticleAnswer) :=
  (groupMeaning servList).both (articleMeaning stamp xrefHost)

/-- The globals of a process that has not opened the databases. -/
def Unused (own : Grp × Db) : Prop := Unnamed own.1.name ∧ own.2.name = []

/-- The files hold these groups and articles, each under its name. -/
def Hold (files : GroupFile × ArticleFile) (held : Groups × Articles) : Prop :=
  Stands readGrp files.1 held.1.records ∧ Stands loadArt files.2 held.2.records

/-- Whatever processes run, they are answered from the files, never from what a process has kept
of them, as long as each of their calls is one that the files admit when it is made.

Each component simulates its files while its process holds the lock: what has been kept is dropped
or written back before the lock is released. The processes call the databases only between the
acquisition and the release of the lock, so that two of them exclude one another, and two
components that simulate their files do so side by side. -/
theorem databases_shared [DecidableEq π] (servList : Text → Bool) (stamp : BitVec 32 → Text)
    (xrefHost : Text) (processes : π → Process (GroupCall ⊕ ArticleCall))
    (schedule : List (π × Act (GroupCall ⊕ ArticleCall)))
    (own : ∀ party, actsOf party schedule <+: (processes party).acts)
    (granted : Granted none schedule) (state : State π (Grp × Db) (GroupFile × ArticleFile))
    (unused : ∀ party, Unused (state.own party)) (held : Groups × Articles)
    (hold : Hold state.shared held)
    (admits : (filesOnly servList stamp xrefHost).Admits schedule held) :
    ∃ state', (databases servList stamp xrefHost).run schedule state =
        some (((filesOnly servList stamp xrefHost).run schedule held).1, state') ∧
      Hold state'.shared ((filesOnly servList stamp xrefHost).run schedule held).2 := by
  have simulates := (groupInfo_simulates servList).both (articleBase_simulates stamp xrefHost)
  have excludes := excludes_of_bracketed schedule none granted fun party =>
    (processes party).acts_bracketed.front (own party)
  obtain ⟨state', ran, holds⟩ := simulates.run schedule none state held excludes admits
    ⟨unused, hold⟩
  refine ⟨state', ran, ?_⟩
  cases holder : lastHolder none schedule with
  | none =>
    rw [holder] at holds
    exact holds.2
  | some party =>
    rw [holder] at holds
    exact ⟨holds.2.1.stands, holds.2.2.stands⟩

/-- A local group without articles, for the example below. -/
def trollRecord : GroupRecord := ⟨⟨1, 0, 0, 0, 0⟩, localServer, [], 0x79⟩

/-- A server asks for the last number of a group before and after a command has set it. -/
def trollSchedule : List (Bool × Act (GroupCall ⊕ ArticleCall)) :=
  [(true, .acquire), (true, .call (.inl (.grpLast (latin1 "troll")))), (true, .release),
    (false, .acquire), (false, .call (.inl (.grpSetFirstLast 1 5 (latin1 "troll")))),
    (false, .release), (true, .acquire), (true, .call (.inl (.grpLast (latin1 "troll"))))]

/-- The server gets a line, waits and gets another one. The command runs while it waits. -/
def trollProcesses : Bool → Process (GroupCall ⊕ ArticleCall)
  | true => .server [.line [.inl (.grpLast (latin1 "troll"))] true, .idle,
      .line [.inl (.grpLast (latin1 "troll"))] true]
  | false => .command [.inl (.grpSetFirstLast 1 5 (latin1 "troll"))]

/-- The server answers the second question from the file, with the number that the command has
written, though it had loaded the group before. -/
theorem databases_shared_troll :
    ∃ state', (databases (fun _ => false) (fun _ => []) []).run trollSchedule
        ⟨fun _ => (⟨latin1 "(no grp)", trollRecord⟩, ⟨[], ⟨0, 0, [], [], [], [], [], 0, 0, []⟩⟩),
          (fun name => if name = latin1 "troll" then some (writeGrp trollRecord) else none),
          fun _ => none⟩ =
        some (((filesOnly (fun _ => false) (fun _ => []) []).run trollSchedule
          (⟨fun name => if name = latin1 "troll" then some trollRecord else none, fun _ => False⟩,
            ⟨fun _ => none, fun _ => False⟩)).1, state') ∧
      Hold state'.shared ((filesOnly (fun _ => false) (fun _ => []) []).run trollSchedule
        (⟨fun name => if name = latin1 "troll" then some trollRecord else none, fun _ => False⟩,
          ⟨fun _ => none, fun _ => False⟩)).2 := by
  apply databases_shared (fun _ => false) (fun _ => []) [] trollProcesses trollSchedule
  · rintro (_ | _)
    · exact ⟨[], rfl⟩
    · exact ⟨[], rfl⟩
  · simp [Granted, trollSchedule]
  · exact fun _ => ⟨Or.inl rfl, rfl⟩
  · refine ⟨fun name => ?_, fun _ => rfl⟩
    by_cases same : name = latin1 "troll"
    · simp only [same, if_true, Option.map_some,
        readGrp_writeGrp trollRecord ⟨by decide, by decide⟩]
    · simp only [same, if_false, Option.map_none]
  · have asked : ∀ groups : Groups, ¬ groups.spent (latin1 "troll") →
        Asked groups (latin1 "troll") := fun _ trusted => ⟨by decide, by decide, trusted⟩
    refine ⟨asked _ id, asked _ id, asked _ id, trivial⟩

end Schnitzeljagd.News
