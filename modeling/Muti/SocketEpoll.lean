import Mathlib.Logic.Function.Basic
import Muti.Transition

/-! The life of connections between their registration with epoll and their close. A server's
polling thread accepts, registers and connects them itself and closes them on detached
threads; a client's connections are registered by the threads that start them, beside
the one that polls and closes. -/
namespace Muti.SocketEpoll

open Muti.Transition

inductive SocketType where
  | server
  | client
  deriving DecidableEq, Repr

inductive Source where
  | listening
  | conn (conn_p : Nat)
  deriving DecidableEq, Repr

structure Events where
  epollerr : Bool
  epollhup : Bool
  epollin : Bool
  epollout : Bool
  deriving DecidableEq, Repr

/-- An error, or nothing a socket is ready for. -/
def Events.failed (events : Events) : Bool := events.epollerr || events.epollhup || !(events.epollin || events.epollout)

/-- What a thread does next. `onConnect` and `onConnected` are the call of the callback and its return. -/
inductive Op where
  | event (source : Source) (events : Events)
  | accept
  | epollAdd (conn_p : Nat)
  | onConnect (conn_p : Nat)
  | onConnected (conn_p : Nat)
  | epollDel (source : Source)
  | socketCloseConnThread (conn_p : Nat)
  | socketCloseConnection (conn_p : Nat)
  | socketPostIOJobs (conn_p : Nat)
  | onClose (conn_p : Nat)
  deriving DecidableEq, Repr

/-- Connections are numbered as they are created. `connected` tells whose `onConnect` has
returned, `onClosed` counts the calls of `onClose`. The first thread is the one that polls. -/
structure State where
  created : Nat
  registered : Nat → Bool
  connected : Nat → Bool
  is_closed : Nat → Nat
  onClosed : Nat → Nat
  threads : List (List Op)

def initSocketLinux : State where
  created := 0
  registered := fun _ => false
  connected := fun _ => false
  is_closed := fun _ => 0
  onClosed := fun _ => 0
  threads := [[]]

/-- What a thread is to do for a connection that has just been created. -/
def connects (conn_p : Nat) : List Op := [.epollAdd conn_p,.onConnect conn_p]

variable (type : SocketType)

/-- One operation: what it leaves to do, and the threads it starts. `waits` tells whether a
connection waits to be accepted. Without an error an event starts jobs, which close nothing. -/
def exec (s : State) (waits : Bool) : Op → State × List Op × List (List Op)
  | .event .listening events => (s,if events.failed then [.epollDel .listening] else [.accept],[])
  | .event (.conn conn_p) events =>
    (s,if events.failed then match type with
      | .server => [.epollDel (.conn conn_p),.socketCloseConnThread conn_p]
      | .client => [.epollDel (.conn conn_p),.socketCloseConnection conn_p]
    else [],[])
  | .accept =>
    if waits then ({ s with created := s.created + 1 },connects s.created ++ [.accept],[]) else (s,[],[])
  | .epollAdd conn_p => ({ s with registered := Function.update s.registered conn_p true },[],[])
  | .onConnect conn_p => (s,[.onConnected conn_p],[])
  | .onConnected conn_p => ({ s with connected := Function.update s.connected conn_p true },[],[])
  | .epollDel .listening => (s,[],[])
  | .epollDel (.conn conn_p) => ({ s with registered := Function.update s.registered conn_p false },[],[])
  | .socketCloseConnThread conn_p => (s,[],[[.socketCloseConnection conn_p]])
  | .socketCloseConnection conn_p =>
    ({ s with is_closed := Function.update s.is_closed conn_p (s.is_closed conn_p + 1) },
      if s.is_closed conn_p + 1 = 1 then [.socketPostIOJobs conn_p,.onClose conn_p] else [],[])
  | .socketPostIOJobs _ => (s,[],[])
  | .onClose conn_p => ({ s with onClosed := Function.update s.onClosed conn_p (s.onClosed conn_p + 1) },[],[])

/-- `epoll_wait` reports the registered connections, and the listening socket a server has. -/
def Reports (s : State) : Source → Prop
  | .listening => type = .server
  | .conn conn_p => s.registered conn_p = true

instance (s : State) : (source : Source) → Decidable (Reports type s source)
  | .listening => inferInstanceAs (Decidable (type = .server))
  | .conn conn_p => inferInstanceAs (Decidable (s.registered conn_p = true))

/-- A client socket is started, the polling thread waits for events, or a thread does its next operation. -/
inductive Action where
  | socketClientStart
  | epollWait (events : List (Source × Events))
  | run (thread : Nat) (waits : Bool)
  deriving DecidableEq, Repr

def step (s : State) : Action → Option State
  | .socketClientStart =>
    if type = .client then some { s with created := s.created + 1, threads := s.threads ++ [connects s.created] } else none
  | .epollWait events =>
    if s.threads[0]? = some [] ∧ ∀ event ∈ events, Reports type s event.1 then
      some { s with threads := s.threads.set 0 (events.map fun event => .event event.1 event.2) }
    else none
  | .run thread waits =>
    match s.threads[thread]? with
    | some (op :: rest) =>
      let done := exec type s waits op
      some { done.1 with threads := s.threads.set thread (done.2.1 ++ rest) ++ done.2.2 }
    | _ => none

theorem step_run {thread : Nat} (taken : step type s (.run thread waits) = some s') :
    ∃ op rest, s.threads[thread]? = some (op :: rest) ∧
      s' = { (exec type s waits op).1 with
        threads := s.threads.set thread ((exec type s waits op).2.1 ++ rest) ++ (exec type s waits op).2.2 } := by
  rcases here : s.threads[thread]? with _ | _ | ⟨op,rest⟩
  · simp [step,here] at taken
  · simp [step,here] at taken
  · simp only [step,here,Option.some.injEq] at taken
    exact ⟨op,rest,rfl,taken.symm⟩

@[simp] def calling (conn_p : Nat) : Op → Nat
  | .onClose c => on conn_p c
  | _ => 0

/-- The operations that come before the close of a connection, from the error on. -/
@[simp] def pursuing (conn_p : Nat) : Op → Nat
  | .event (.conn c) events => if events.failed then on conn_p c else 0
  | .epollDel (.conn c) | .socketCloseConnThread c | .socketCloseConnection c => on conn_p c
  | _ => 0

@[simp] def connecting (conn_p : Nat) : Op → Nat
  | .onConnect c | .onConnected c => on conn_p c
  | _ => 0

@[simp] def adding (conn_p : Nat) : Op → Nat
  | .epollAdd c => on conn_p c
  | _ => 0

def closer : Op → Bool
  | .socketCloseConnection _ | .socketPostIOJobs _ | .onClose _ => true
  | _ => false

def unclosed (is_closed : Nat) : Nat := if is_closed = 0 then 1 else 0

def Once (s : State) : Prop := ∀ c, total (calling c) s.threads + s.onClosed c + unclosed (s.is_closed c) = 1

/-- A connection pursued or closed is connected. -/
structure Inv (s : State) : Prop where
  pursued : ∀ c, 0 < total (pursuing c) s.threads → s.connected c = true
  behind : ∀ c, 0 < total (calling c) s.threads + s.onClosed c → s.connected c = true

/-- A server's polling thread has connected what it polls, and the other threads only close. -/
structure Serves (s : State) : Prop where
  connects : ∀ c < s.created, s.connected c = true ∨ 0 < total (connecting c) s.threads
  adds : ∀ c, 0 < total (adding c) s.threads → c < s.created
  registered : ∀ c, s.registered c = true → c < s.created
  closers : ∃ polling others, s.threads = polling :: others ∧ ∀ ops ∈ others, ∀ op ∈ ops, closer op = true

/-- A connection is reported with an error before its `onConnect` has returned. -/
def Early (s : State) : Source × Events → Prop
  | (.listening,_) => False
  | (.conn conn_p,events) => events.failed = true ∧ s.connected conn_p = false

def Timely (s : State) : Action → Prop
  | .epollWait events => type = .client → ∀ event ∈ events, ¬Early s event
  | .socketClientStart | .run _ _ => True

variable {type : SocketType}

def left (weight : Op → Nat) (done : State × List Op × List (List Op)) : Nat :=
  (done.2.1.map weight).sum + total weight done.2.2

theorem total_run {threads : List (List Op)} {i : Nat} (weight : Op → Nat) (here : threads[i]? = some (op :: rest))
    (done : State × List Op × List (List Op)) :
    total weight (threads.set i (done.2.1 ++ rest) ++ done.2.2) + weight op = total weight threads + left weight done := by
  have advanced := total_advance weight here done.2.1
  simp only [total_append,left]
  omega

theorem exec_connected (type : SocketType) (s : State) (waits : Bool) (op : Op) (c : Nat) (connected : s.connected c = true) :
    (exec type s waits op).1.connected c = true := by
  cases op with
  | event source events => cases source <;> simpa [exec] using connected
  | accept => cases waits <;> simpa [exec] using connected
  | onConnected conn_p =>
    by_cases same : c = conn_p <;> simp [exec,same,connected]
  | epollDel source => cases source <;> simpa [exec] using connected
  | _ => simpa [exec] using connected

/-- Only the first to close a connection calls `onClose`. -/
theorem exec_once (type : SocketType) (s : State) (waits : Bool) (op : Op) (c : Nat) :
    left (calling c) (exec type s waits op) + (exec type s waits op).1.onClosed c + unclosed ((exec type s waits op).1.is_closed c) =
      calling c op + s.onClosed c + unclosed (s.is_closed c) := by
  cases op with
  | event source events => cases source <;> cases type <;> simp [exec,left] <;> split <;> simp
  | accept => cases waits <;> simp [exec,left,connects]
  | epollDel source => cases source <;> simp [exec,left]
  | socketCloseConnection conn_p =>
    by_cases same : c = conn_p
    · subst same
      by_cases first : s.is_closed c = 0 <;> simp [exec,left,unclosed,first]
      omega
    · by_cases first : s.is_closed conn_p = 0 <;> simp [exec,left,first,same,Ne.symm same]
  | onClose conn_p =>
    by_cases same : c = conn_p
    · subst same
      simp [exec,left]
      omega
    · simp [exec,left,same,Ne.symm same]
  | _ => simp [exec,left]

/-- A call of `onClose` comes from a `socketCloseConnection`. -/
theorem exec_calling (type : SocketType) (s : State) (waits : Bool) (op : Op) (c : Nat) (begins : op ≠ .socketCloseConnection c) :
    left (calling c) (exec type s waits op) + (exec type s waits op).1.onClosed c = calling c op + s.onClosed c := by
  have once := exec_once type s waits op c
  cases op with
  | socketCloseConnection conn_p =>
    have other : c ≠ conn_p := fun same => begins (by rw [same])
    simp [exec,other] at once ⊢
    exact once
  | event source events => cases source <;> simpa [exec] using once
  | accept => cases waits <;> simpa [exec] using once
  | epollDel source => cases source <;> simpa [exec] using once
  | _ => simpa [exec] using once

/-- What is not pursued before an operation of another kind is not pursued after it. -/
theorem exec_pursuing (type : SocketType) (s : State) (waits : Bool) (op : Op) (c : Nat) (none : pursuing c op = 0) :
    left (pursuing c) (exec type s waits op) = 0 := by
  cases op with
  | event source events =>
    cases source with
    | listening =>
      simp [exec,left]
      split <;> simp
    | conn conn_p =>
      cases failed : events.failed with
      | false => simp [exec,left,failed]
      | true =>
        simp [failed] at none
        cases type <;> simp [exec,left,failed,none]
  | accept => cases waits <;> simp [exec,left,connects]
  | epollDel source => cases source <;> simp [exec,left]
  | socketCloseConnection conn_p =>
    simp [exec,left]
    split <;> simp
  | _ => simp_all [exec,left]

theorem exec_connecting (type : SocketType) (s : State) (waits : Bool) (op : Op) (c : Nat) :
    (exec type s waits op).1.connected c = true ∨ connecting c op ≤ left (connecting c) (exec type s waits op) := by
  cases op with
  | onConnected conn_p => by_cases same : conn_p = c <;> simp [exec,left,same]
  | _ => simp [exec,left]

/-- A connection that is created is going to be connected. -/
theorem exec_created (type : SocketType) (s : State) (waits : Bool) (op : Op) :
    (exec type s waits op).1.created = s.created ∨
    (exec type s waits op).1.created = s.created + 1 ∧ 0 < left (connecting s.created) (exec type s waits op) := by
  cases op with
  | event source events => cases source <;> exact .inl rfl
  | accept => cases waits <;> simp [exec,left,connects]
  | epollDel source => cases source <;> exact .inl rfl
  | _ => exact .inl rfl

theorem exec_adding (type : SocketType) (s : State) (waits : Bool) (op : Op) (c : Nat) :
    left (adding c) (exec type s waits op) ≤ adding c op + (if s.created ≤ c ∧ c < (exec type s waits op).1.created then 1 else 0) ∧
    ((exec type s waits op).1.registered c = true → s.registered c = true ∨ 0 < adding c op) := by
  cases op with
  | event source events =>
    cases source <;> cases type <;> simp [exec,left] <;> split <;> simp
  | accept =>
    cases waits with
    | false => simp [exec,left]
    | true =>
      by_cases same : s.created = c
      · simp [exec,left,connects,same]
      · simp [exec,left,connects,same]
  | epollAdd conn_p =>
    by_cases same : c = conn_p
    · simp [exec,left,same]
    · simp [exec,left,same]
      exact fun registered => .inl registered
  | epollDel source =>
    cases source with
    | listening => simp [exec,left]
    | conn conn_p => by_cases same : c = conn_p <;> simp [exec,left,same]
  | socketCloseConnection conn_p =>
    simp [exec,left]
    split <;> simp
  | _ => simp [exec,left]

theorem exec_closer (type : SocketType) (s : State) (waits : Bool) (op : Op) (closes : closer op = true) :
    (∀ next ∈ (exec type s waits op).2.1, closer next = true) ∧ (exec type s waits op).2.2 = [] := by
  cases op with
  | socketCloseConnection conn_p =>
    simp [exec]
    rintro next _ (rfl | rfl) <;> rfl
  | socketPostIOJobs conn_p | onClose conn_p => simp [exec]
  | _ => simp [closer] at closes

theorem exec_starts (type : SocketType) (s : State) (waits : Bool) (op : Op) :
    ∀ ops ∈ (exec type s waits op).2.2, ∀ next ∈ ops, closer next = true := by
  cases op with
  | event source events => cases source <;> simp [exec]
  | accept => cases waits <;> simp [exec]
  | epollDel source => cases source <;> simp [exec]
  | socketCloseConnThread conn_p => simp [exec,closer]
  | _ => simp [exec]

theorem run_inv {i : Nat} (inv : Inv s) (here : s.threads[i]? = some (op :: rest)) (waits : Bool) :
    Inv { (exec type s waits op).1 with
      threads := s.threads.set i ((exec type s waits op).2.1 ++ rest) ++ (exec type s waits op).2.2 } where
  pursued := by
    intro c pursues
    refine exec_connected type s waits op c ?_
    by_contra unconnected
    have before : total (pursuing c) s.threads = 0 := Nat.eq_zero_of_not_pos fun some => unconnected (inv.pursued c some)
    have mine := weight_le_total (pursuing c) here
    have now := exec_pursuing type s waits op c (by omega)
    have ran := total_run (pursuing c) here (exec type s waits op)
    simp only at pursues
    omega
  behind := by
    intro c calls
    refine exec_connected type s waits op c ?_
    by_cases begins : op = .socketCloseConnection c
    · subst begins
      have mine := weight_le_total (pursuing c) here
      have closes : pursuing c (.socketCloseConnection c) = 1 := by simp
      exact inv.pursued c (by omega)
    · have now := exec_calling type s waits op c begins
      have ran := total_run (calling c) here (exec type s waits op)
      simp only at calls
      exact inv.behind c (by omega)

theorem run_serves {i : Nat} (serves : Serves s) (here : s.threads[i]? = some (op :: rest)) (waits : Bool) :
    Serves { (exec type s waits op).1 with
      threads := s.threads.set i ((exec type s waits op).2.1 ++ rest) ++ (exec type s waits op).2.2 } where
  connects := by
    intro c created
    have ran := total_run (connecting c) here (exec type s waits op)
    simp only at created ⊢
    rcases exec_connecting type s waits op c with connected | works
    · exact .inl connected
    · rcases exec_created type s waits op with same | ⟨new,some⟩
      · rcases serves.connects c (by omega) with connected | some
        · exact .inl (exec_connected type s waits op c connected)
        · exact .inr (by omega)
      · by_cases old : c < s.created
        · rcases serves.connects c old with connected | some
          · exact .inl (exec_connected type s waits op c connected)
          · exact .inr (by omega)
        · obtain rfl : c = s.created := by omega
          have mine := weight_le_total (connecting s.created) here
          exact .inr (by omega)
  adds := by
    intro c adds
    have now := (exec_adding type s waits op c).1
    have ran := total_run (adding c) here (exec type s waits op)
    have more := exec_created type s waits op
    simp only at adds ⊢
    by_cases before : 0 < total (adding c) s.threads
    · have old := serves.adds c before
      omega
    · split at now <;> omega
  registered := by
    intro c registered
    have more := exec_created type s waits op
    have old : c < s.created := by
      rcases (exec_adding type s waits op c).2 registered with before | adds
      · exact serves.registered c before
      · have mine := weight_le_total (adding c) here
        exact serves.adds c (by omega)
    simp only
    omega
  closers := by
    obtain ⟨polling,others,threads,close⟩ := serves.closers
    have starts := exec_starts type s waits op
    cases i with
    | zero =>
      refine ⟨(exec type s waits op).2.1 ++ rest,others ++ (exec type s waits op).2.2,by simp [threads],?_⟩
      intro ops member
      rcases List.mem_append.mp member with old | new
      · exact close ops old
      · exact starts ops new
    | succ i =>
      have mine : op :: rest ∈ others := by
        rw [threads] at here
        exact List.mem_of_getElem? (by simpa using here)
      have closes := close _ mine
      have now := exec_closer type s waits op (closes op List.mem_cons_self)
      refine ⟨polling,others.set i ((exec type s waits op).2.1 ++ rest),by simp [threads,now.2],?_⟩
      intro ops member
      rcases List.mem_or_eq_of_mem_set member with old | rfl
      · exact close ops old
      · intro next inside
        rcases List.mem_append.mp inside with new | later
        · exact now.1 next new
        · exact closes next (List.mem_cons_of_mem _ later)

theorem Inv.started (inv : Inv s) :
    Inv { s with created := s.created + 1, threads := s.threads ++ [connects s.created] } where
  pursued := by
    intro c pursues
    simp [connects] at pursues
    exact inv.pursued c pursues
  behind := by
    intro c calls
    simp [connects] at calls
    exact inv.behind c (by omega)

theorem total_wait {threads : List (List Op)} (weight : Op → Nat) (idle : threads[0]? = some []) (ops : List Op) :
    total weight (threads.set 0 ops) = total weight threads + (ops.map weight).sum := by
  cases threads with
  | nil => simp at idle
  | cons polling others =>
    obtain rfl : polling = [] := by simpa using idle
    simp
    omega

theorem events_none (weight : Op → Nat) (none : ∀ source events, weight (.event source events) = 0)
    (events : List (Source × Events)) : ((events.map fun event => Op.event event.1 event.2).map weight).sum = 0 := by
  apply List.sum_eq_zero
  simp only [List.map_map,List.mem_map,Function.comp_apply]
  rintro _ ⟨event,_,rfl⟩
  exact none event.1 event.2

/-- With nothing to do, the polling thread of a server has connected what it has created. -/
theorem Serves.connected (serves : Serves s) (idle : s.threads[0]? = some []) (created : c < s.created) :
    s.connected c = true := by
  rcases serves.connects c created with connected | works
  · exact connected
  · obtain ⟨polling,others,threads,close⟩ := serves.closers
    obtain rfl : polling = [] := by simpa [threads] using idle
    have quiet : total (connecting c) others = 0 := by
      rw [total_eq_zero]
      intro ops member op inside
      have closes := close ops member op inside
      cases op <;> simp_all [closer]
    simp [threads,quiet] at works

/-- The polling thread has got events, none of them of an error that comes early. -/
theorem Inv.waited (inv : Inv s) (idle : s.threads[0]? = some []) (events : List (Source × Events))
    (late : ∀ event ∈ events, ¬Early s event) :
    Inv { s with threads := s.threads.set 0 (events.map fun event => .event event.1 event.2) } where
  pursued := by
    intro c pursues
    by_contra unconnected
    have none : total (pursuing c) s.threads = 0 := Nat.eq_zero_of_not_pos fun some => unconnected (inv.pursued c some)
    have waits := total_wait (pursuing c) idle (events.map fun event => .event event.1 event.2)
    have unreported : ((events.map fun event => Op.event event.1 event.2).map (pursuing c)).sum = 0 := by
      apply List.sum_eq_zero
      simp only [List.map_map,List.mem_map,Function.comp_apply]
      rintro _ ⟨⟨source,flags⟩,member,rfl⟩
      have unhurried := late _ member
      cases source with
      | listening => rfl
      | conn conn_p =>
        by_cases same : conn_p = c
        · subst same
          simp only [Early,Bool.not_eq_true] at unhurried unconnected
          simp [unconnected] at unhurried
          simp [unhurried]
        · simp [same]
    simp only at pursues
    omega
  behind := by
    intro c calls
    have waits := total_wait (calling c) idle (events.map fun event => .event event.1 event.2)
    have none := events_none (calling c) (fun _ _ => rfl) events
    simp only at calls
    exact inv.behind c (by omega)

theorem wait_serves (serves : Serves s) (idle : s.threads[0]? = some []) (events : List (Source × Events)) :
    Serves { s with threads := s.threads.set 0 (events.map fun event => .event event.1 event.2) } where
  connects := by
    intro c created
    exact .inl (serves.connected idle created)
  adds := by
    intro c adds
    have waits := total_wait (adding c) idle (events.map fun event => .event event.1 event.2)
    have none := events_none (adding c) (fun _ _ => rfl) events
    simp only at adds
    exact serves.adds c (by omega)
  registered := serves.registered
  closers := by
    obtain ⟨polling,others,threads,close⟩ := serves.closers
    exact ⟨events.map fun event => .event event.1 event.2,others,by simp [threads],close⟩

theorem step_once (once : Once s) (taken : step type s a = some s') : Once s' := by
  cases a with
  | socketClientStart =>
    simp only [step,Option.ite_none_right_eq_some,Option.some.injEq] at taken
    obtain ⟨rfl,rfl⟩ := taken
    intro c
    have before := once c
    simpa [connects] using before
  | epollWait events =>
    simp only [step,Option.ite_none_right_eq_some,Option.some.injEq] at taken
    obtain ⟨⟨idle,_⟩,rfl⟩ := taken
    intro c
    have before := once c
    have waits := total_wait (calling c) idle (events.map fun event => .event event.1 event.2)
    have none := events_none (calling c) (fun _ _ => rfl) events
    simp only
    omega
  | run thread waits =>
    obtain ⟨op,rest,here,rfl⟩ := step_run type taken
    intro c
    have before := once c
    have now := exec_once type s waits op c
    have ran := total_run (calling c) here (exec type s waits op)
    simp only
    omega

/-- Nothing a server's polling thread gets comes early. -/
theorem Serves.late (serves : Serves s) (idle : s.threads[0]? = some []) {events : List (Source × Events)}
    (reports : ∀ event ∈ events, Reports .server s event.1) : ∀ event ∈ events, ¬Early s event := by
  rintro ⟨source,flags⟩ member early
  have report := reports _ member
  cases source with
  | listening => exact early
  | conn conn_p =>
    have connected := serves.connected idle (serves.registered conn_p report)
    rw [early.2] at connected
    cases connected

theorem step_inv (inv : Inv s) (serves : type = .server → Serves s) (timely : Timely type s a)
    (taken : step type s a = some s') : Inv s' ∧ (type = .server → Serves s') := by
  cases a with
  | socketClientStart =>
    simp only [step,Option.ite_none_right_eq_some,Option.some.injEq] at taken
    obtain ⟨rfl,rfl⟩ := taken
    exact ⟨inv.started,nofun⟩
  | epollWait events =>
    simp only [step,Option.ite_none_right_eq_some,Option.some.injEq] at taken
    obtain ⟨⟨idle,reports⟩,rfl⟩ := taken
    cases type with
    | client => exact ⟨inv.waited idle events (timely rfl),nofun⟩
    | server =>
      have late := (serves rfl).late idle reports
      exact ⟨inv.waited idle events late,fun _ => wait_serves (serves rfl) idle events⟩
  | run thread waits =>
    obtain ⟨op,rest,here,rfl⟩ := step_run type taken
    exact ⟨run_inv inv here waits,fun server => run_serves (serves server) here waits⟩

/-- `onClose` is called at most once in every run, and behind `onConnect` in every run of a
server and in those of a client in which no error of a connection is reported before its
`onConnect` has returned. -/
theorem connect_before_close (reachable : Reachable (step type) (fun _ _ => True) initSocketLinux s) (c : Nat) :
    s.onClosed c ≤ 1 ∧
    (Reachable (step type) (Timely type) initSocketLinux s → 0 < s.onClosed c → s.connected c = true) := by
  constructor
  · have once : Once s := reachable.invariant (fun _ => rfl) fun _ _ _ once _ taken => step_once once taken
    have one := once c
    omega
  · intro timely closed
    have start : Inv initSocketLinux ∧ (type = .server → Serves initSocketLinux) := by
      refine ⟨⟨?_,?_⟩,fun _ => ⟨?_,?_,nofun,⟨[],[],rfl,nofun⟩⟩⟩ <;> intro c <;> simp [initSocketLinux]
    obtain ⟨inv,_⟩ := timely.invariant start fun s a s' before timely taken => step_inv before.1 before.2 timely taken
    exact inv.behind c (by omega)

instance (s : State) : (event : Source × Events) → Decidable (Early s event)
  | (.listening,_) => inferInstanceAs (Decidable False)
  | (.conn conn_p,events) => inferInstanceAs (Decidable (events.failed = true ∧ s.connected conn_p = false))

instance (s : State) : (a : Action) → Decidable (Timely type s a)
  | .epollWait events => inferInstanceAs (Decidable (type = .client → ∀ event ∈ events, ¬Early s event))
  | .socketClientStart | .run _ _ => inferInstanceAs (Decidable True)

def hungUp : Events where
  epollerr := false
  epollhup := true
  epollin := false
  epollout := true

/-- A client's connection is registered and connected, and hangs up. -/
def connectedFirst : List Action :=
  [.socketClientStart,.run 1 true,.run 1 true,.run 1 true,.epollWait [(.conn 0,hungUp)],.run 0 true,.run 0 true,.run 0 true,
    .run 0 true,.run 0 true]

theorem connect_before_close_client :
    ∃ s, execute (step .client) initSocketLinux connectedFirst = some s ∧ s.onClosed 0 = 1 ∧ s.connected 0 = true := by
  have timely : Permitted (step .client) (Timely .client) initSocketLinux connectedFirst := by decide +kernel
  have reachable := Reachable.start.execute connectedFirst timely rfl
  have ran : Reachable (step .client) (fun _ _ => True) initSocketLinux _ := Reachable.start.run connectedFirst rfl
  have closed := connect_before_close ran 0
  exact ⟨_,rfl,rfl,closed.2 reachable (by decide)⟩

/-- The connection is refused as soon as it is registered, and the polling thread handles that
while the thread that has registered it has still to call `onConnect`. -/
def refused : List Action :=
  [.socketClientStart,.run 1 true,.epollWait [(.conn 0,hungUp)],.run 0 true,.run 0 true,.run 0 true,.run 0 true,.run 0 true]

theorem close_before_connect : ∃ s, Reachable (step .client) (fun _ _ => True) initSocketLinux s ∧ s.onClosed 0 = 1 ∧
    s.threads[1]? = some [.onConnect 0] := by
  exact ⟨_,Reachable.start.run refused rfl,rfl,rfl⟩

end Muti.SocketEpoll
