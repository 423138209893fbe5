import Schnitzeljagd.Foundations.Loops

/-!
# The sockets of the multicast set-up

`mcast_send_socket` of `p2p.c` looks up two addresses, has `mcast_socket` open and prepare a
socket, and connects it. Most steps that fail go to a label where the socket is closed. The
failure of `bind` returns at once, and the socket stays open.

The results of the system calls come from outside. A descriptor that `socket` returns was not
open before, and `close` releases it whatever it returns.
-/

namespace Schnitzeljagd.Prison

open Foundations.Loops

/-! ## The set-up -/

/-- The results of the calls that the set-up may make: an address in host byte order from
`gethostbyname`, a descriptor from `socket`, and from the others whether they succeed. -/
structure SetUp where
  targetaddr : Option (BitVec 32)
  sourceaddr : Option (BitVec 32)
  socket : Option Nat
  bind : Bool
  reuseaddr : Bool
  ttl : Bool
  loop : Bool
  connect : Bool
  close : Bool
  deriving DecidableEq

/-- A line on the standard error output, either of `perror` or about an address that is no
multicast address. -/
inductive Complaint where
  | perror (call : String)
  | notMulticast (address : BitVec 32)
  deriving DecidableEq

/-- The open sockets of the process and what it has written to `stderr`. -/
structure Opened where
  sockets : Finset Nat
  stderr : List Complaint
  deriving DecidableEq

/-- One more line on the standard error output, behind the earlier ones. -/
def Opened.complain (opened : Opened) (complaint : Complaint) : Opened :=
  { opened with stderr := opened.stderr ++ [complaint] }

/-- `IN_MULTICAST`: the four highest bits of a class D address. -/
def inMulticast (address : BitVec 32) : Bool := address &&& 0xf0000000 = 0xe0000000

/-- `if (close(msock) < 0) perror("close"); return -1;`, the end of the error paths that close the
socket. -/
def closeOnError (calls : SetUp) (msock : Nat) (opened : Opened) : Int × Opened :=
  let opened := { opened with sockets := opened.sockets.erase msock }
  (-1, if calls.close then opened else opened.complain (.perror "close"))

/-- `mcast_socket` for a target address. The path behind a failed `bind` does not close the
socket. -/
def mcastSocket (calls : SetUp) (taddr : BitVec 32) (opened : Opened) : Option (Int × Opened) :=
  match calls.socket with
  | none => some (-1, opened.complain (.perror "socket"))
  | some msock =>
    if msock ∈ opened.sockets then none
    else
      let opened := { opened with sockets := insert msock opened.sockets }
      if !calls.bind then
        some (-1, opened.complain (.perror "bind"))
      else if !calls.reuseaddr then
        some (closeOnError calls msock (opened.complain (.perror "setsockopt")))
      else if !inMulticast taddr then
        some (msock, opened.complain (.notMulticast taddr))
      else if !calls.ttl || !calls.loop then
        some (closeOnError calls msock (opened.complain (.perror "setsockopt")))
      else some (msock, opened)

/-- `mcast_send_socket`, which looks both addresses up, opens the socket and connects it. -/
def mcastSendSocket (calls : SetUp) (opened : Opened) : Option (Int × Opened) :=
  match calls.targetaddr with
  | none => some (-1, opened.complain (.perror "gethostbyname for targetaddr"))
  | some taddr =>
    match calls.sourceaddr with
    | none => some (-1, opened.complain (.perror "gethostbyname for sourceaddr"))
    | some _ => do
      let (msock, opened) ← mcastSocket calls taddr opened
      if msock < 0 then some (-1, opened)
      else if !calls.connect then
        some (closeOnError calls msock.toNat (opened.complain (.perror "connect")))
      else some (msock, opened)

/-- The results of several calls of `mcast_send_socket` and the process after them. -/
structure Run where
  returned : List Int
  opened : Opened
  deriving DecidableEq

/-- One call after others, in the same process. Its result is added to theirs. -/
def call (run : Run) (calls : SetUp) : Option Run :=
  (mcastSendSocket calls run.opened).map fun result =>
    ⟨run.returned ++ [result.1], result.2⟩

/-- A sequence of calls, whatever the outcome of each of them. -/
def callAll (opened : Opened) (sequence : List SetUp) : Option Run :=
  sequence.foldlM call ⟨[], opened⟩

/-- The descriptors among the returned values, which the caller knows of and can close. -/
def descriptors (returned : List Int) : Finset Nat :=
  (returned.filterMap fun msock => if 0 ≤ msock then some msock.toNat else none).toFinset

/-- The calls return open descriptors or -1, and leave nothing else open than what was open
before. -/
structure LeavesNothing (initial : Finset Nat) (run : Run) : Prop where
  valid : ∀ result ∈ run.returned, result = -1 ∨ ∃ msock ∈ run.opened.sockets, result = msock
  nothingElse : run.opened.sockets = initial ∪ descriptors run.returned

/-- The call comes as far as `bind`, and that fails. -/
def SetUp.bindFails (calls : SetUp) : Bool :=
  calls.targetaddr.isSome && calls.sourceaddr.isSome && calls.socket.isSome && !calls.bind

/-! ## One call -/

variable {calls : SetUp} {opened after : Opened} {result : Int}

/-- What a call does to the open sockets, where `leaks` says whether `bind` fails. -/
inductive Effect (before : Finset Nat) : (leaks : Bool) → Int → Finset Nat → Prop where
  | returned (msock : Nat) (fresh : msock ∉ before) :
      Effect before false msock (insert msock before)
  | failed : Effect before false (-1) before
  | leaked (msock : Nat) (fresh : msock ∉ before) :
      Effect before true (-1) (insert msock before)

variable {before sockets : Finset Nat} {leaks : Bool}

/-- A call closes nothing that was open before, not even on its error paths. -/
theorem Effect.grows (effect : Effect before leaks result sockets) : before ⊆ sockets := by
  cases effect with
  | returned msock fresh => exact Finset.subset_insert msock before
  | failed => exact Finset.Subset.refl before
  | leaked msock fresh => exact Finset.subset_insert msock before

/-- A call returns an open descriptor or -1, which the caller can tell apart. -/
theorem Effect.valid (effect : Effect before leaks result sockets) :
    result = -1 ∨ ∃ msock ∈ sockets, result = msock := by
  cases effect with
  | returned msock fresh => exact Or.inr ⟨msock, Finset.mem_insert_self msock before, rfl⟩
  | failed => exact Or.inl rfl
  | leaked msock fresh => exact Or.inl rfl

/-- A complaint does not touch the sockets, so that it may be left out of the account. -/
@[simp] theorem complain_sockets (complaint : Complaint) :
    (opened.complain complaint).sockets = opened.sockets := rfl

/-- The error paths that close the socket return -1. -/
@[simp] theorem closeOnError_result (msock : Nat) :
    (closeOnError calls msock opened).1 = -1 := rfl

/-- The socket is gone, whether or not `close` reports an error. -/
@[simp] theorem closeOnError_sockets (msock : Nat) :
    (closeOnError calls msock opened).2.sockets = opened.sockets.erase msock := by
  rw [closeOnError]
  split <;> rfl

/-- Closing the socket that was just opened is as if there had been none, since the descriptor was
not in use before. -/
theorem effect_close {msock : Nat} (fresh : msock ∉ before)
    (holds : opened.sockets = insert msock before)
    (closed : closeOnError calls msock opened = (result, after)) :
    Effect before false result after.sockets := by
  obtain rfl : (closeOnError calls msock opened).1 = result := congrArg Prod.fst closed
  obtain rfl : (closeOnError calls msock opened).2 = after := congrArg Prod.snd closed
  rw [closeOnError_result, closeOnError_sockets, holds, Finset.erase_insert fresh]
  exact .failed

/-- What `mcast_socket` does to the open sockets, one case for each of its exits. -/
theorem mcastSocket_effect {taddr : BitVec 32}
    (called : mcastSocket calls taddr opened = some (result, after)) :
    Effect opened.sockets (calls.socket.isSome && !calls.bind) result after.sockets := by
  rw [mcastSocket] at called
  cases socket : calls.socket with
  | none =>
    rw [socket] at called
    obtain ⟨rfl, rfl⟩ := Prod.mk.inj (Option.some.inj called)
    exact .failed
  | some msock =>
    rw [socket] at called
    by_cases fresh : msock ∈ opened.sockets
    · simp [fresh] at called
    · simp only [fresh, if_false] at called
      cases bind : calls.bind with
      | false =>
        rw [if_pos (by rw [bind]; rfl)] at called
        obtain ⟨rfl, rfl⟩ := Prod.mk.inj (Option.some.inj called)
        exact .leaked msock fresh
      | true =>
        rw [if_neg (by rw [bind]; decide)] at called
        split at called
        · exact effect_close fresh rfl (Option.some.inj called)
        · split at called
          -- the warning: no options are set for such an address
          · obtain ⟨rfl, rfl⟩ := Prod.mk.inj (Option.some.inj called)
            exact .returned msock fresh
          · split at called
            · exact effect_close fresh rfl (Option.some.inj called)
            · obtain ⟨rfl, rfl⟩ := Prod.mk.inj (Option.some.inj called)
              exact .returned msock fresh

/-- The socket of a call is returned or closed, unless `bind` fails for it. Then it stays open and
its descriptor is forgotten. -/
theorem mcastSendSocket_effect (called : mcastSendSocket calls opened = some (result, after)) :
    Effect opened.sockets calls.bindFails result after.sockets := by
  rw [mcastSendSocket] at called
  cases target : calls.targetaddr with
  | none =>
    rw [target] at called
    obtain ⟨rfl, rfl⟩ := Prod.mk.inj (Option.some.inj called)
    simpa [SetUp.bindFails, target] using Effect.failed
  | some taddr =>
    cases source : calls.sourceaddr with
    | none =>
      rw [target, source] at called
      obtain ⟨rfl, rfl⟩ := Prod.mk.inj (Option.some.inj called)
      simpa [SetUp.bindFails, target, source] using Effect.failed
    | some saddr =>
      rw [target, source] at called
      obtain ⟨⟨inner, prepared⟩, prepare, rest⟩ := Option.bind_eq_some_iff.mp called
      dsimp only at rest
      have leaks : calls.bindFails = (calls.socket.isSome && !calls.bind) := by
        rw [SetUp.bindFails, target, source]
        rfl
      have effect := mcastSocket_effect prepare
      rw [← leaks] at effect
      generalize between : prepared.sockets = sockets at effect
      generalize calls.bindFails = fails at effect ⊢
      cases effect with
      | returned msock fresh =>
        rw [if_neg (Int.not_lt.mpr (Int.natCast_nonneg msock)), Int.toNat_natCast] at rest
        split at rest
        · have holds := (complain_sockets (.perror "connect")).trans between
          exact effect_close fresh holds (Option.some.inj rest)
        · obtain ⟨rfl, rfl⟩ := Prod.mk.inj (Option.some.inj rest)
          rw [between]
          exact .returned msock fresh
      | failed =>
        obtain ⟨rfl, rfl⟩ := Prod.mk.inj (Option.some.inj rest)
        rw [between]
        exact .failed
      | leaked msock fresh =>
        obtain ⟨rfl, rfl⟩ := Prod.mk.inj (Option.some.inj rest)
        rw [between]
        exact .leaked msock fresh

/-! ## Any number of calls -/

/-- A returned descriptor is one more that the caller knows of. -/
theorem descriptors_concat_descriptor (returned : List Int) (msock : Nat) :
    descriptors (returned ++ [(msock : Int)]) = insert msock (descriptors returned) := by
  rw [descriptors, List.filterMap_append, List.toFinset_append, ← descriptors]
  rw [Finset.union_comm, Finset.insert_eq]
  simp

/-- After -1 there is none more, since -1 is no descriptor. -/
theorem descriptors_concat_error (returned : List Int) :
    descriptors (returned ++ [-1]) = descriptors returned := by
  simp [descriptors]

/-- What holds of the calls made so far: the values that they returned are valid, and of the
open sockets one for every `bind` that failed is neither from before nor among them. -/
structure Accounted (initial : Finset Nat) (sequence : List SetUp) (run : Run) : Prop where
  valid : ∀ result ∈ run.returned, result = -1 ∨ ∃ msock ∈ run.opened.sockets, result = msock
  account : Account run.opened.sockets (initial ∪ descriptors run.returned)
    (sequence.countP SetUp.bindFails)

variable {initial : Finset Nat} {sequence : List SetUp} {run next : Run} {returned : List Int}
variable {count : Nat}

/-- One call adds to the account what it returns, and one forgotten descriptor if it leaks. -/
theorem Effect.account (effect : Effect before leaks result sockets)
    (account : Account before (initial ∪ descriptors returned) count) :
    Account sockets (initial ∪ descriptors (returned ++ [result]))
      (count + if leaks then 1 else 0) := by
  cases effect with
  | returned msock fresh =>
    rw [descriptors_concat_descriptor, Finset.union_insert]
    exact account.acquire fresh
  | failed =>
    rw [descriptors_concat_error]
    exact account
  | leaked msock fresh =>
    rw [descriptors_concat_error]
    exact account.leak fresh

/-- The account is right after one more call, whichever of its exits it took. -/
theorem Accounted.call (accounted : Accounted initial sequence run)
    (called : call run calls = some next) : Accounted initial (sequence ++ [calls]) next := by
  obtain ⟨⟨result, after⟩, made, rfl⟩ := Option.map_eq_some_iff.mp called
  have effect := mcastSendSocket_effect made
  constructor
  · intro other member
    obtain earlier | last := List.mem_append.mp member
    · obtain error | ⟨msock, inside, same⟩ := accounted.valid other earlier
      · exact Or.inl error
      · exact Or.inr ⟨msock, effect.grows inside, same⟩
    · obtain rfl := List.mem_singleton.mp last
      exact effect.valid
  · rw [List.countP_append, List.countP_singleton]
    exact effect.account accounted.account

/-- So it is right after any number of calls, by induction on the sequence from the back. -/
theorem callAll_accounted {final : Run} (ran : callAll opened sequence = some final) :
    Accounted opened.sockets sequence final := by
  apply foldlM_history call ⟨[], opened⟩ (Accounted opened.sockets)
  · constructor
    · exact List.forall_mem_nil _
    · have nothing : opened.sockets ∪ descriptors [] = opened.sockets := Finset.union_empty _
      rw [nothing]
      exact Account.refl opened.sockets
  · intro earlier run calls next _ accounted called
    exact accounted.call called
  · exact ran

/-- The calls leave nothing open but what they return, exactly if `bind` fails in none of them.

For one call this is read off its exits (`mcastSendSocket_effect`). Over a sequence the leaks are
counted: of the open sockets there is one for every failed `bind` that belongs to nobody, and a
later call cannot close it. So the count is zero exactly if nothing has been lost. -/
theorem leavesNothing_iff {opened : Opened} {sequence : List SetUp} {final : Run}
    (ran : callAll opened sequence = some final) :
    LeavesNothing opened.sockets final ↔ ∀ calls ∈ sequence, calls.bindFails = false := by
  obtain ⟨valid, account⟩ := callAll_accounted ran
  have none : sequence.countP SetUp.bindFails = 0 ↔
      ∀ calls ∈ sequence, calls.bindFails = false := by
    simp [List.countP_eq_zero]
  rw [← none, ← account.balanced_iff]
  constructor
  · intro leavesNothing
    exact leavesNothing.nothingElse
  · intro balanced
    exact ⟨valid, balanced⟩

/-- A set-up for a multicast address in which everything works. -/
def working (msock : Nat) : SetUp where
  targetaddr := some 0xe0000001
  sourceaddr := some 0x0a000001
  socket := some msock
  bind := true
  reuseaddr := true
  ttl := true
  loop := true
  connect := true
  close := true

/-- One call that succeeds between two that fail, where the socket was closed or never opened. -/
theorem leavesNothing_iff_three :
    LeavesNothing {3} ⟨[-1, 4, -1], {4, 3},
        [.perror "connect", .perror "gethostbyname for targetaddr"]⟩ ↔
      ∀ calls ∈ [{ working 4 with connect := false }, working 4,
        { working 5 with targetaddr := none }], calls.bindFails = false := by
  have ran : callAll ⟨{3}, []⟩ [{ working 4 with connect := false }, working 4,
      { working 5 with targetaddr := none }] = some ⟨[-1, 4, -1], {4, 3},
        [.perror "connect", .perror "gethostbyname for targetaddr"]⟩ := by decide
  exact leavesNothing_iff ran

/-- A socket that cannot be bound stays open although the call returns -1 and nobody can close it
any more. -/
theorem failed_bind_leaks :
    callAll ⟨{3}, []⟩ [{ working 4 with bind := false }] =
        some ⟨[-1], {4, 3}, [.perror "bind"]⟩ ∧
      ¬LeavesNothing {3} ⟨[-1], {4, 3}, [.perror "bind"]⟩ := by
  constructor
  · decide
  · rintro ⟨_, nothingElse⟩
    exact absurd nothingElse (by decide)

end Schnitzeljagd.Prison
