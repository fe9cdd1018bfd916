import Mathlib.Data.Bool.Basic
import Muti.Transition
import Muti.Lists

/-! The epoll thread that all client sockets share. Threads that start and destroy client
sockets, and the epoll threads they create, meet in the globals of the client side; a plain
`++` or `--` is a load and a store. -/
namespace Muti.ClientEpoll

open Muti.Transition

inductive Caller where
  | start
  | destroy
  deriving DecidableEq, Repr

/-- What `socketClientStart` and `destroy` do to the globals, in the order of the source.
`load`, `store` and `test` are `ClientNumber` going up and down and being looked at; `add` is
`epoll_ctl` with the descriptor that was read for it. -/
inductive Op where
  | sockPrepareClient
  | fetchAndAdd
  | mutexInit
  | lock (caller : Caller)
  | load (caller : Caller)
  | store (caller : Caller) (n : Int)
  | test (caller : Caller)
  | create
  | await
  | join
  | reset
  | unlock (caller : Caller)
  | createConnection
  | add (fd : Option Nat)
  deriving DecidableEq, Repr

/-- Where `socketEpollWaitingClientThread` is, with the descriptor it got from `epoll_create1`. -/
inductive Epoll where
  | create
  | publish (fd : Nat)
  | loop (fd : Nat)
  | close (fd : Nat)
  | clear (fd : Nat)
  | returned
  deriving DecidableEq, Repr

/-- The globals and the threads. `inits` counts the calls of `pthread_mutex_init`, `early` tells
whether the lock was taken before any, `starts` counts the increments of `ClientLockInit`,
`sockets` the sockets that are started and not yet being destroyed. -/
structure State where
  ClientLockInit : UInt32
  ClientNumber : Int
  ClientEpThreadId : Option Nat
  ClientEpollFd : Option Nat
  locked : Bool
  inits : Nat
  early : Bool
  starts : Nat
  sockets : Nat
  epolls : List Epoll
  threads : List (List Op)

def globals : State where
  ClientLockInit := 0
  ClientNumber := 0
  ClientEpThreadId := none
  ClientEpollFd := none
  locked := false
  inits := 0
  early := false
  starts := 0
  sockets := 0
  epolls := []
  threads := []

def exec (s : State) (connected : Bool) : Op → Option (State × List Op)
  | .sockPrepareClient => some (s,if connected then [.fetchAndAdd] else [])
  | .fetchAndAdd =>
    some ({ s with ClientLockInit := s.ClientLockInit + 1, starts := s.starts + 1 },
      if s.ClientLockInit = 0 then [.mutexInit] else [.lock .start])
  | .mutexInit => some ({ s with inits := s.inits + 1, locked := false },[.lock .start])
  | .lock caller =>
    if s.locked then none
    else some ({ s with locked := true, early := s.early || decide (s.inits = 0) },[.load caller])
  | .load caller => some (s,[.store caller s.ClientNumber])
  | .store .start n => some ({ s with ClientNumber := n + 1 },[.test .start])
  | .store .destroy n => some ({ s with ClientNumber := n - 1 },[.test .destroy])
  | .test .start => some (s,if s.ClientNumber = 1 then [.create] else [.await])
  | .test .destroy => some (s,if s.ClientNumber = 0 then [.join] else [.unlock .destroy])
  | .create => some ({ s with ClientEpThreadId := some s.epolls.length, epolls := s.epolls ++ [.create] },[.await])
  | .await => some (s,if s.ClientEpollFd = none then [.await] else [.unlock .start])
  | .join => if s.ClientEpThreadId.bind (s.epolls[·]?) = some .returned then some (s,[.reset]) else none
  | .reset => some ({ s with ClientEpThreadId := none },[.unlock .destroy])
  | .unlock .start => some ({ s with locked := false },[.createConnection])
  | .unlock .destroy => some ({ s with locked := false },[])
  | .createConnection => some (s,[.add s.ClientEpollFd])
  -- without a descriptor the call fails, and the assertion after it
  | .add fd => if fd = none then none else some ({ s with sockets := s.sockets + 1 },[])

/-- A step of an epoll thread; `fd` is what `epoll_create1` returns. -/
def turn (s : State) (fd : Nat) : Epoll → Option (State × Epoll)
  | .create => some (s,.publish fd)
  | .publish fd => some ({ s with ClientEpollFd := some fd },.loop fd)
  | .loop fd => some (s,if s.ClientNumber = 0 then .close fd else .loop fd)
  | .close fd => some (s,.clear fd)
  | .clear _ => some ({ s with ClientEpollFd := none },.returned)
  | .returned => none

inductive Action where
  | start
  | destroy
  | run (thread : Nat) (connected : Bool)
  | epoll (thread : Nat) (fd : Nat)
  deriving DecidableEq, Repr

def step (s : State) : Action → Option State
  | .start => some { s with threads := s.threads ++ [[.sockPrepareClient]] }
  | .destroy =>
    if 0 < s.sockets then some { s with sockets := s.sockets - 1, threads := s.threads ++ [[.lock .destroy]] }
    else none
  | .run thread connected =>
    match s.threads[thread]? with
    | some (op :: rest) =>
      (exec s connected op).map fun done => { done.1 with threads := s.threads.set thread (done.2 ++ rest) }
    | _ => none
  | .epoll thread fd =>
    match s.epolls[thread]? with
    | some e => (turn s fd e).map fun done => { done.1 with epolls := s.epolls.set thread done.2 }
    | none => none

/-- A start that found `ClientLockInit` zero, before it has initialised the lock. -/
@[simp] def initialising : Op → Nat
  | .mutexInit => 1
  | _ => 0

@[simp] def locking : Op → Nat
  | .lock .start => 1
  | _ => 0

@[simp] def critical : Op → Nat
  | .load _ | .store _ _ | .test _ | .create | .await | .join | .reset | .unlock _ => 1
  | _ => 0

@[simp] def inside : Op → Nat
  | .test .start | .create | .await | .unlock .start | .load .destroy | .store .destroy _ => 1
  | _ => 0

@[simp] def outside : Op → Nat
  | .createConnection | .add _ | .lock .destroy => 1
  | _ => 0

/-- What a start relies on: nobody else is about to initialise the lock it takes, and the
counter has not come round. -/
def Waits (s : State) : Op → Prop
  | .lock .start => total initialising s.threads = 0
  | .fetchAndAdd => s.starts < UInt32.size
  | _ => True

def Orderly (s : State) : Action → Prop
  | .run thread _ => ∀ ops ∈ s.threads[thread]?, ∀ op ∈ ops.head?, Waits s op
  | _ => True

structure Initialised (s : State) : Prop where
  counter : s.ClientLockInit = UInt32.ofNat s.starts
  bound : s.starts ≤ UInt32.size
  once : s.inits + total initialising s.threads = min s.starts 1
  begun : s.starts = 0 → total locking s.threads = 0
  before : s.inits = 0 → s.sockets + total critical s.threads + total outside s.threads = 0
  early : s.early = false

/-- The counter that the epoll thread looks at, and who is in a locked section. -/
structure Counted (s : State) : Prop where
  lock : total critical s.threads = s.locked.toNat
  number : s.ClientNumber = (s.sockets + total inside s.threads + total outside s.threads : Nat)

theorem zero_iff_none (small : n < UInt32.size) : UInt32.ofNat n = 0 ↔ n = 0 := by
  constructor
  · intro zero
    have same := congrArg UInt32.toNat zero
    rwa [UInt32.toNat_ofNat_of_lt' small] at same
  · rintro rfl
    rfl

/-- An operation that has nothing to do with the initialisation, and enters no locked section. -/
theorem Initialised.quiet {i : Nat} {s' : State} {ops : List Op} (initialised : Initialised s)
    (here : s.threads[i]? = some (op :: rest)) (counter : s'.ClientLockInit = s.ClientLockInit) (starts : s'.starts = s.starts) (inits : s'.inits = s.inits)
    (early : s'.early = s.early) (initialises : (ops.map initialising).sum = initialising op)
    (locks : (ops.map locking).sum ≤ locking op)
    (enters : s'.sockets + (ops.map critical).sum + (ops.map outside).sum ≤ s.sockets + critical op + outside op) :
    Initialised { s' with threads := s.threads.set i (ops ++ rest) } := by
  have one := total_advance initialising here ops
  have two := total_advance locking here ops
  have three := total_advance critical here ops
  have four := total_advance outside here ops
  constructor
  · exact counter.trans (initialised.counter.trans (congrArg _ starts.symm))
  · exact starts.trans_le initialised.bound
  · have once := initialised.once
    change s'.inits + total initialising (s.threads.set i (ops ++ rest)) = min s'.starts 1
    omega
  · intro none
    have begun := initialised.begun (starts.symm.trans none)
    change total locking (s.threads.set i (ops ++ rest)) = 0
    omega
  · intro none
    have before := initialised.before (inits.symm.trans none)
    change s'.sockets + total critical (s.threads.set i (ops ++ rest)) + total outside (s.threads.set i (ops ++ rest)) = 0
    omega
  · exact early.trans initialised.early

theorem exec_initialised {i : Nat} (initialised : Initialised s) (here : s.threads[i]? = some (op :: rest)) (waits : Waits s op)
    (done : exec s connected op = some (s',ops)) : Initialised { s' with threads := s.threads.set i (ops ++ rest) } := by
  cases op with
  | sockPrepareClient =>
    cases done
    cases connected <;> exact initialised.quiet here rfl rfl rfl rfl rfl (by simp) (by simp)
  | load caller =>
    cases done
    cases caller <;> exact initialised.quiet here rfl rfl rfl rfl rfl (by simp) (by simp)
  | store caller n =>
    cases caller <;> cases done <;> exact initialised.quiet here rfl rfl rfl rfl rfl (by simp) (by simp)
  | test caller =>
    cases caller with
    | start =>
      cases done
      apply initialised.quiet here rfl rfl rfl rfl <;> by_cases first : s.ClientNumber = 1 <;> simp [first]
    | destroy =>
      cases done
      apply initialised.quiet here rfl rfl rfl rfl <;> by_cases last : s.ClientNumber = 0 <;> simp [last]
  | await =>
    cases done
    apply initialised.quiet here rfl rfl rfl rfl <;> by_cases waiting : s.ClientEpollFd = none <;> simp [waiting]
  | create | reset | createConnection =>
    cases done
    exact initialised.quiet here rfl rfl rfl rfl rfl (by simp) (by simp)
  | join =>
    simp only [exec,Option.ite_none_right_eq_some] at done
    cases done.2
    exact initialised.quiet here rfl rfl rfl rfl rfl (by simp) (by simp)
  | unlock caller =>
    cases caller <;> cases done <;> exact initialised.quiet here rfl rfl rfl rfl rfl (by simp) (by simp)
  | add fd =>
    simp only [exec,Option.ite_none_left_eq_some] at done
    cases done.2
    exact initialised.quiet here rfl rfl rfl rfl rfl (by simp) (by simp)
  | fetchAndAdd =>
    have small : s.starts < UInt32.size := waits
    have once := initialised.once
    have first := zero_iff_none small
    rw [← initialised.counter] at first
    cases done
    have initialises := total_advance initialising here (if s.ClientLockInit = 0 then [.mutexInit] else [.lock .start])
    have enters := total_advance critical here (if s.ClientLockInit = 0 then [.mutexInit] else [.lock .start])
    have leaves := total_advance outside here (if s.ClientLockInit = 0 then [.mutexInit] else [.lock .start])
    constructor
    · change s.ClientLockInit + 1 = UInt32.ofNat (s.starts + 1)
      rw [initialised.counter,UInt32.ofNat_add]
      rfl
    · exact small
    · change s.inits + total initialising (s.threads.set i _) = min (s.starts + 1) 1
      by_cases zero : s.ClientLockInit = 0
      · have none := first.mp zero
        simp [zero] at initialises ⊢
        omega
      · have some := mt first.mpr zero
        simp [zero] at initialises ⊢
        omega
    · exact fun none => absurd none (Nat.succ_ne_zero _)
    · intro none
      have before := initialised.before none
      change s.sockets + total critical (s.threads.set i _) + total outside (s.threads.set i _) = 0
      by_cases zero : s.ClientLockInit = 0
      · simp [zero] at enters leaves ⊢
        omega
      · simp [zero] at enters leaves ⊢
        omega
    · exact initialised.early
  | mutexInit =>
    have once := initialised.once
    have mine := weight_le_total initialising here
    have initialises := total_advance initialising here [.lock .start]
    cases done
    simp at mine initialises
    constructor
    · exact initialised.counter
    · exact initialised.bound
    · change s.inits + 1 + total initialising (s.threads.set i (.lock .start :: rest)) = min s.starts 1
      omega
    · intro none
      replace none : s.starts = 0 := none
      omega
    · exact fun none => absurd none (Nat.succ_ne_zero _)
    · exact initialised.early
  | lock caller =>
    simp only [exec,Option.ite_none_left_eq_some] at done
    cases done.2
    -- whoever gets here finds the lock initialised: a start by the condition, a destroy by the socket it has
    have ready : s.inits ≠ 0 := by
      intro none
      have once := initialised.once
      have before := initialised.before none
      cases caller with
      | start =>
        have mine := weight_le_total locking here
        have begun := initialised.begun
        replace waits : total initialising s.threads = 0 := waits
        simp at mine
        omega
      | destroy =>
        have mine := weight_le_total outside here
        simp at mine
        omega
    have initialises := total_advance initialising here [.load caller]
    have locks := total_advance locking here [.load caller]
    simp at initialises locks
    constructor
    · exact initialised.counter
    · exact initialised.bound
    · change s.inits + total initialising (s.threads.set i (.load caller :: rest)) = min s.starts 1
      exact initialises ▸ initialised.once
    · intro none
      have begun := initialised.begun none
      change total locking (s.threads.set i (.load caller :: rest)) = 0
      omega
    · exact fun none => absurd none ready
    · simp [initialised.early,ready]

/-- The condition is exact for the one part: a start that locks while another is about to
initialise the lock is too early. -/
theorem lock_in_window {i : Nat} (initialised : Initialised s) (here : s.threads[i]? = some (.lock .start :: rest))
    (window : total initialising s.threads ≠ 0) (taken : step s (.run i connected) = some s') : s'.early = true := by
  have once := initialised.once
  have none : s.inits = 0 := by omega
  simp only [step,here,exec,Option.map_eq_some_iff,Option.ite_none_left_eq_some] at taken
  obtain ⟨done,⟨_,taken⟩,rfl⟩ := taken
  cases taken
  simp [none]

/-- And for the other: the start at which the counter comes round is to initialise the lock again. -/
theorem counter_comes_round (initialised : Initialised s) (round : s.starts = UInt32.size) :
    s.inits + total initialising s.threads = 1 ∧ ∃ s', exec s connected .fetchAndAdd = some (s',[.mutexInit]) := by
  have once := initialised.once
  have counter := initialised.counter
  rw [round] at once counter
  exact ⟨once,_,by rw [exec,counter]; rfl⟩

end Muti.ClientEpoll
