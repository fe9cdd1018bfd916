import Mathlib.Logic.Function.Basic
import Muti.Lists
import Muti.Transition

/-! The house-keeping of corecode/util. The timer thread walks the workers under the lock and
inserts the job of each one that is due into the thread pool; the pool executes it, and its
callback, which may come at any later time, makes the worker wait again. Callers add and
remove workers, and `destroy` frees those that are left. -/
namespace Muti.HouseKeeping

open Muti.Lists Muti.Transition

inductive WorkerStatus where
  | waiting
  | busy
  deriving DecidableEq, Repr

structure Worker where
  status : WorkerStatus
  interval : Int
  counter : Int
  deriving DecidableEq, Repr

inductive Visit where
  | decrement
  | setBusy
  | insertTail
  deriving DecidableEq, Repr

/-- Where the timer thread is; it holds the lock from a walk's begin to its end. -/
inductive Timer where
  | checking
  | locking
  | walking (todo : List Nat)
  | visiting (w : Nat) (next : Visit) (todo : List Nat)
  | exited
  deriving DecidableEq, Repr

/-- Where `destroy` is; its walk keeps the next worker. -/
inductive Destroy where
  | uncalled
  | joining
  | starting
  | examining (w : Nat)
  | deleting (w : Nat) (next : Option Nat)
  | releasing (w : Nat) (next : Option Nat)
  | leaving
  | returned
  deriving DecidableEq, Repr

/-- What a thread does next: it adds a worker, calls its callback back, or removes it. -/
inductive Op where
  | link (w : Nat)
  | assertStatus (w : Nat)
  | assertCounter (w : Nat)
  | resetCounter (w : Nat)
  | setWaiting (w : Nat)
  | unlink (w : Nat)
  | await (w : Nat)
  | free (w : Nat)
  deriving DecidableEq, Repr

inductive Failure where
  | callbackAssertion
  | insertAssertion
  | useAfterFree
  | nullPointer
  deriving DecidableEq, Repr

inductive Event where
  | registered (w : Nat) (interval : Int)
  | visited (w : Nat)
  | inserted (w : Nat)
  | calledBack (w : Nat)
  deriving DecidableEq, Repr

/-- Workers are numbered as they are allocated. `handles` are those that callers have and
have not removed, `taken` those that `destroy` has taken from the list; `log` starts with
the last event. -/
structure State where
  workers : Nat → Worker
  allocated : Nat
  freed : List Nat
  worker_list : List Nat
  worker_stop : Bool
  timer : Timer
  queued : List Nat
  handles : List Nat
  threads : List (List Op)
  destroy : Destroy
  taken : List Nat
  log : List Event
  failure : Option Failure

def initHouseKeeping : State where
  workers := fun _ => ⟨.waiting,1,1⟩
  allocated := 0
  freed := []
  worker_list := []
  worker_stop := false
  timer := .checking
  queued := []
  handles := []
  threads := []
  destroy := .uncalled
  taken := []
  log := []
  failure := none

def fail (s : State) (failure : Failure) : State := { s with failure := some failure }

def touch (s : State) (w : Nat) (next : Option State) : Option State :=
  if w ∈ s.freed then some (fail s .useAfterFree) else next

def setWorker (s : State) (w : Nat) (worker : Worker) : State :=
  { s with workers := Function.update s.workers w worker }

def Timer.holdsLock : Timer → Bool
  | .walking _ | .visiting _ _ _ => true
  | _ => false

/-- The next step of `houseKeepingWorkerThread`; `accepted` is the answer of the thread pool. -/
def houseKeepingWorkerThread (s : State) (accepted : Bool) : Option State :=
  match s.timer with
  | .checking => some { s with timer := if s.worker_stop then .exited else .locking }
  | .locking => some { s with timer := .walking s.worker_list }
  | .walking [] => some { s with timer := .checking }
  | .walking (w :: todo) => touch s w (some { s with
    timer := if (s.workers w).status = .busy then .walking todo else .visiting w .decrement todo
    log := .visited w :: s.log })
  | .visiting w .decrement todo =>
    let left := (s.workers w).counter - 1
    touch s w (some { setWorker s w { s.workers w with counter := left } with
      timer := if left = 0 then .visiting w .setBusy todo else .walking todo })
  | .visiting w .setBusy todo => touch s w (some { setWorker s w { s.workers w with status := .busy } with
    timer := .visiting w .insertTail todo })
  | .visiting w .insertTail todo => touch s w (some (if accepted then { s with
      timer := .walking todo
      queued := w :: s.queued
      log := .inserted w :: s.log }
    else fail s .insertAssertion))
  | .exited => none

def release (s : State) (w : Nat) : State :=
  { s with
    freed := w :: s.freed
    failure := if w ∈ s.freed then some .useAfterFree else s.failure }

def following (worker_list : List Nat) (w : Nat) : Option Nat := ((worker_list.dropWhile (· != w)).drop 1).head?

def Destroy.goOn : Option Nat → Destroy
  | none => .leaving
  | some n => .examining n

def adds : Op → Bool
  | .link _ => true
  | _ => false

/-- The next step of `destroy`. No worker is being added when it is called. -/
def destroy (s : State) : Option State :=
  match s.destroy with
  | .uncalled =>
    if s.threads.any fun ops => ops.any adds then none
    else some { s with
      destroy := .joining
      worker_stop := true }
  | .joining => if s.timer = .exited then some { s with destroy := .starting } else none
  | .starting => match s.worker_list with
    | [] => some { s with destroy := .leaving }
    | w :: _ => some { s with
      destroy := .examining w
      taken := w :: s.taken }
  | .examining w => touch s w (some { s with
    destroy := .deleting w (following s.worker_list w)
    taken := (following s.worker_list w).toList ++ s.taken })
  | .deleting w next => touch s w (some (if w ∈ s.worker_list then { s with
      worker_list := s.worker_list.erase w
      destroy := .releasing w next }
    else fail s .nullPointer))
  | .releasing w next => some { release s w with destroy := .goOn next }
  | .leaving => some { s with destroy := .returned }
  | .returned => none

def crash (s : State) (op : Op) (failure : Failure) : Option (State × List Op) := some (fail s failure,[op])

def operate (s : State) (op : Op) (w : Nat) (next : Option (State × List Op)) : Option (State × List Op) :=
  if w ∈ s.freed then crash s op .useAfterFree else next

/-- One operation. An element that has been unlinked points nowhere, and the lock goes with
the rest of the house-keeping. -/
def exec (s : State) : Op → Option (State × List Op)
  | .link w =>
    if s.timer.holdsLock then none
    else if s.destroy = .returned then crash s (.link w) .useAfterFree
    else some ({ s with
      worker_list := w :: s.worker_list
      handles := w :: s.handles
      log := .registered w (s.workers w).interval :: s.log },[])
  | .assertStatus w => operate s (.assertStatus w) w (
    if (s.workers w).status = .busy then some (s,[.assertCounter w]) else crash s (.assertStatus w) .callbackAssertion)
  | .assertCounter w => operate s (.assertCounter w) w (
    if (s.workers w).counter = 0 then some (s,[.resetCounter w]) else crash s (.assertCounter w) .callbackAssertion)
  | .resetCounter w => operate s (.resetCounter w) w (
    some (setWorker s w { s.workers w with counter := (s.workers w).interval },[.setWaiting w]))
  | .setWaiting w => operate s (.setWaiting w) w (
    some ({ setWorker s w { s.workers w with status := .waiting } with log := .calledBack w :: s.log },[]))
  | .unlink w =>
    if s.timer.holdsLock then none
    else if s.destroy = .returned then crash s (.unlink w) .useAfterFree
    else operate s (.unlink w) w (
      if w ∈ s.worker_list then some ({ s with worker_list := s.worker_list.erase w },[.await w])
      else crash s (.unlink w) .nullPointer)
  | .await w => operate s (.await w) w (if (s.workers w).status = .busy then none else some (s,[.free w]))
  | .free w => some (release s w,[])

inductive Action where
  | addWorker (interval : Int)
  | removeWorker (w : Nat)
  | doJob (w : Nat)
  | timer (accepted : Bool)
  | destroy
  | run (thread : Nat)
  deriving DecidableEq, Repr

def step (s : State) (a : Action) : Option State :=
  if s.failure ≠ none then none
  else match a with
    | .addWorker interval =>
      if s.destroy = .uncalled then some { setWorker s s.allocated ⟨.waiting,interval,interval⟩ with
        allocated := s.allocated + 1
        threads := s.threads ++ [[.link s.allocated]] }
      else none
    | .removeWorker w =>
      if w ∈ s.handles then some { s with
        handles := s.handles.erase w
        threads := s.threads ++ [[.unlink w]] }
      else none
    | .doJob w =>
      if w ∈ s.queued then touch s w (some { s with
        queued := s.queued.erase w
        threads := s.threads ++ [[.assertStatus w]] })
      else none
    | .timer accepted => houseKeepingWorkerThread s accepted
    | .destroy => destroy s
    | .run thread =>
      match s.threads[thread]? with
      | some (op :: rest) => (exec s op).map fun done => { done.1 with threads := s.threads.set thread (done.2 ++ rest) }
      | _ => none

/-- The ticks that have come to a worker since it was registered or its last callback. -/
def visits (w : Nat) : List Event → Nat
  | [] => 0
  | .registered x _ :: log | .calledBack x :: log => if x = w then 0 else visits w log
  | .visited x :: log => if x = w then visits w log + 1 else visits w log
  | .inserted _ :: log => visits w log

def insertedSince (w : Nat) : List Event → Bool
  | [] => false
  | .registered x _ :: log | .calledBack x :: log => if x = w then false else insertedSince w log
  | .inserted x :: log => if x = w then true else insertedSince w log
  | .visited _ :: log => insertedSince w log

def intervalOf (w : Nat) : List Event → Int
  | [] => 0
  | .registered x interval :: log => if x = w then interval else intervalOf w log
  | _ :: log => intervalOf w log

/-- The executions of its job that are queued or have not called back. -/
def unreturned (w : Nat) (log : List Event) : Int := log.count (.inserted w) - log.count (.calledBack w)

def Timer.at (w : Nat) : Timer → Option Visit
  | .visiting x next _ => if x = w then some next else none
  | _ => none

@[simp] def owing (w : Nat) : Op → Nat
  | .assertStatus x | .assertCounter x | .resetCounter x | .setWaiting x => on w x
  | _ => 0

/-- Each job was inserted at the interval-th tick, with no execution of it outstanding, and
none is missing where the interval is positive; no callback has failed its assertion. -/
structure Scheduled (s : State) : Prop where
  asserts : s.failure ≠ some .callbackAssertion
  on_time : ∀ before after w, s.log = after ++ .inserted w :: before →
    visits w before = intervalOf w before ∧ unreturned w before = 0
  in_time : ∀ w ∈ s.worker_list, s.timer.at w = none → 1 ≤ intervalOf w s.log → intervalOf w s.log ≤ visits w s.log →
    insertedSince w s.log = true
  alone : ∀ w, s.timer.at w = some .insertTail → w ∉ s.queued ∧ total (owing w) s.threads = 0

@[simp] def resetting (w : Nat) : Op → Nat
  | .assertStatus x | .assertCounter x | .resetCounter x => on w x
  | _ => 0

theorem resetting_le_owing (w : Nat) (op : Op) : resetting w op ≤ owing w op := by
  cases op <;> simp

/-- All that the schedule of one worker depends on. -/
structure View where
  worker : Worker
  visit : Option Visit
  unreset : Nat
  outstanding : Nat
  visits : Nat
  since : Bool
  unreturned : Int

def view (s : State) (w : Nat) : View where
  worker := s.workers w
  visit := s.timer.at w
  unreset := s.queued.count w + total (resetting w) s.threads
  outstanding := s.queued.count w + total (owing w) s.threads
  visits := visits w s.log
  since := insertedSince w s.log
  unreturned := unreturned w s.log

structure Idle (v : View) : Prop where
  status : v.worker.status = .waiting
  unreset : v.unreset = 0
  outstanding : v.outstanding = 0
  since : v.since = false
  unreturned : v.unreturned = 0

structure Busy (v : View) : Prop where
  status : v.worker.status = .busy
  visit : v.visit = none
  outstanding : v.outstanding = 1
  since : v.since = true
  unreturned : v.unreturned = 1

/-- The phases of a worker, in the order they follow each other. -/
inductive Timed (v : View) : Prop
  | waiting (idle : Idle v) (visit : v.visit = none) (counter : 1 ≤ v.worker.interval → 1 ≤ v.worker.counter)
    (count : v.worker.counter + v.visits = v.worker.interval)
  | visited (idle : Idle v) (visit : v.visit = some .decrement) (counter : 1 ≤ v.worker.interval → 1 ≤ v.worker.counter)
    (count : v.worker.counter + v.visits = v.worker.interval + 1)
  | due (idle : Idle v) (visit : v.visit = some .setBusy) (counter : v.worker.counter = 0)
    (count : v.visits = v.worker.interval)
  | inserting (status : v.worker.status = .busy) (visit : v.visit = some .insertTail) (counter : v.worker.counter = 0)
    (count : v.visits = v.worker.interval) (unreset : v.unreset = 0) (outstanding : v.outstanding = 0)
    (since : v.since = false) (unreturned : v.unreturned = 0)
  | executing (busy : Busy v) (unreset : v.unreset = 1) (counter : v.worker.counter = 0)
  | reset (busy : Busy v) (unreset : v.unreset = 0) (counter : v.worker.counter = v.worker.interval)

namespace Timed

variable {v : View}

theorem visit_waiting (timed : Timed v) (away : v.visit = none) (status : v.worker.status = .waiting) :
    Timed { v with visit := some .decrement, visits := v.visits + 1 } := by
  cases timed with
  | waiting idle _ counter count =>
    refine .visited ⟨idle.status,idle.unreset,idle.outstanding,idle.since,idle.unreturned⟩ rfl counter ?_
    push_cast
    omega
  | visited _ visit | due _ visit | inserting _ visit => simp [away] at visit
  | executing busy | reset busy => cases status.symm.trans busy.status

theorem visit_busy (timed : Timed v) (away : v.visit = none) (status : v.worker.status = .busy) :
    Timed { v with visits := v.visits + 1 } := by
  cases timed with
  | waiting idle | visited idle | due idle => cases status.symm.trans idle.status
  | inserting _ visit => simp [away] at visit
  | executing busy unreset counter =>
    exact .executing ⟨busy.status,busy.visit,busy.outstanding,busy.since,busy.unreturned⟩ unreset counter
  | reset busy unreset counter =>
    exact .reset ⟨busy.status,busy.visit,busy.outstanding,busy.since,busy.unreturned⟩ unreset counter

theorem decrement (timed : Timed v) (here : v.visit = some .decrement) :
    Timed { v with
      worker := { v.worker with counter := v.worker.counter - 1 }
      visit := if v.worker.counter - 1 = 0 then some .setBusy else none } := by
  cases timed with
  | visited idle _ counter count =>
    have kept : Idle { v with
      worker := { v.worker with counter := v.worker.counter - 1 }
      visit := if v.worker.counter - 1 = 0 then some .setBusy else none } :=
      ⟨idle.status,idle.unreset,idle.outstanding,idle.since,idle.unreturned⟩
    by_cases last : v.worker.counter - 1 = 0
    · exact .due kept (if_pos last) last (by change (v.visits : Int) = v.worker.interval; omega)
    · refine .waiting kept (if_neg last) ?_ ?_
      · intro positive
        have before := counter positive
        change 1 ≤ v.worker.counter - 1
        omega
      · change v.worker.counter - 1 + v.visits = v.worker.interval
        omega
  | waiting _ visit | due _ visit | inserting _ visit => simp [here] at visit
  | executing busy | reset busy => cases here.symm.trans busy.visit

theorem setBusy (timed : Timed v) (here : v.visit = some .setBusy) :
    Timed { v with
      worker := { v.worker with status := .busy }
      visit := some .insertTail } := by
  cases timed with
  | due idle _ counter count =>
    exact .inserting rfl rfl counter count idle.unreset idle.outstanding idle.since idle.unreturned
  | waiting _ visit | visited _ visit | inserting _ visit => simp [here] at visit
  | executing busy | reset busy => cases here.symm.trans busy.visit

theorem punctual (timed : Timed v) (here : v.visit = some .insertTail) :
    v.visits = v.worker.interval ∧ v.unreturned = 0 := by
  cases timed with
  | inserting _ _ _ count _ _ _ unreturned => exact ⟨count,unreturned⟩
  | waiting _ visit | visited _ visit | due _ visit => simp [here] at visit
  | executing busy | reset busy => cases here.symm.trans busy.visit

theorem alone (timed : Timed v) (here : v.visit = some .insertTail) : v.outstanding = 0 := by
  cases timed with
  | inserting _ _ _ _ _ outstanding => exact outstanding
  | waiting _ visit | visited _ visit | due _ visit => simp [here] at visit
  | executing busy | reset busy => cases here.symm.trans busy.visit

theorem insertTail (timed : Timed v) (here : v.visit = some .insertTail) :
    Timed { v with
      visit := none
      unreset := v.unreset + 1
      outstanding := v.outstanding + 1
      since := true
      unreturned := v.unreturned + 1 } := by
  cases timed with
  | inserting status _ counter _ unreset outstanding _ unreturned =>
    exact .executing ⟨status,rfl,by simp [outstanding],rfl,by simp [unreturned]⟩ (by simp [unreset]) counter
  | waiting _ visit | visited _ visit | due _ visit => simp [here] at visit
  | executing busy | reset busy => cases here.symm.trans busy.visit

theorem asserted (timed : Timed v) (owed : 0 < v.unreset) : Busy v ∧ v.worker.counter = 0 ∧ v.unreset = 1 := by
  cases timed with
  | waiting idle | visited idle | due idle =>
    have none := idle.unreset
    omega
  | inserting _ _ _ _ unreset => omega
  | executing busy unreset counter => exact ⟨busy,counter,unreset⟩
  | reset _ unreset => omega

theorem resetCounter (timed : Timed v) (owed : 0 < v.unreset) :
    Timed { v with
      worker := { v.worker with counter := v.worker.interval }
      unreset := v.unreset - 1 } := by
  obtain ⟨busy,-,one⟩ := timed.asserted owed
  exact .reset ⟨busy.status,busy.visit,busy.outstanding,busy.since,busy.unreturned⟩ (by simp [one]) rfl

theorem settled (timed : Timed v) (owed : 0 < v.outstanding) (done : v.unreset = 0) :
    Busy v ∧ v.worker.counter = v.worker.interval := by
  cases timed with
  | waiting idle | visited idle | due idle =>
    have none := idle.outstanding
    omega
  | inserting _ _ _ _ _ outstanding => omega
  | executing _ unreset => omega
  | reset busy _ counter => exact ⟨busy,counter⟩

theorem setWaiting (timed : Timed v) (owed : 0 < v.outstanding) (done : v.unreset = 0) :
    Timed { v with
      worker := { v.worker with status := .waiting }
      outstanding := v.outstanding - 1
      visits := 0
      since := false
      unreturned := v.unreturned - 1 } := by
  obtain ⟨busy,counter⟩ := timed.settled owed done
  refine .waiting ⟨rfl,done,?_,rfl,?_⟩ busy.visit ?_ ?_
  · simp [busy.outstanding]
  · simp [busy.unreturned]
  · intro positive
    change 1 ≤ v.worker.interval at positive
    change 1 ≤ v.worker.counter
    omega
  · change v.worker.counter + (0 : Nat) = v.worker.interval
    omega

theorem allocate (timed : Timed v) (blank : v.worker = ⟨.waiting,1,1⟩) (away : v.visit = none) (interval : Int) :
    Timed { v with worker := ⟨.waiting,interval,interval⟩ } := by
  cases timed with
  | waiting idle _ _ count =>
    refine .waiting ⟨rfl,idle.unreset,idle.outstanding,idle.since,idle.unreturned⟩ away id ?_
    rw [blank] at count
    change (1 : Int) + v.visits = 1 at count
    change interval + v.visits = interval
    omega
  | visited _ visit | due _ visit | inserting _ visit => simp [away] at visit
  | executing busy | reset busy =>
    have status := busy.status
    simp [blank] at status

theorem register (timed : Timed v) (whole : v.worker = ⟨.waiting,interval,interval⟩) (away : v.visit = none) :
    Timed { v with
      visits := 0
      since := false } := by
  cases timed with
  | waiting idle _ counter =>
    refine .waiting ⟨idle.status,idle.unreset,idle.outstanding,rfl,idle.unreturned⟩ away counter ?_
    simp [whole]
  | visited _ visit | due _ visit | inserting _ visit => simp [away] at visit
  | executing busy | reset busy =>
    have status := busy.status
    simp [whole] at status

theorem in_time (timed : Timed v) (away : v.visit = none) (positive : 1 ≤ v.worker.interval)
    (late : v.worker.interval ≤ v.visits) : v.since = true := by
  cases timed with
  | waiting _ _ counter count =>
    have left := counter positive
    omega
  | visited _ visit | due _ visit | inserting _ visit => simp [away] at visit
  | executing busy | reset busy => exact busy.since

theorem single (timed : Timed v) (owed : 0 < v.outstanding) : Busy v := by
  cases timed with
  | waiting idle | visited idle | due idle =>
    have none := idle.outstanding
    omega
  | inserting _ _ _ _ _ outstanding => omega
  | executing busy | reset busy => exact busy

end Timed

def Timer.todo : Timer → List Nat
  | .walking todo => todo
  | .visiting w _ todo => w :: todo
  | _ => []

@[simp] theorem Timer.at_walking (w : Nat) (todo : List Nat) : Timer.at w (.walking todo) = none := rfl

@[simp] theorem Timer.at_visiting (w x : Nat) (next : Visit) (todo : List Nat) :
    Timer.at w (.visiting x next todo) = if x = w then some next else none := rfl

theorem Timer.at_none (unvisited : w ∉ timer.todo) : Timer.at w timer = none := by
  cases timer with
  | visiting x next todo =>
    have other : x ≠ w := fun same => unvisited (same ▸ List.mem_cons_self)
    simp [other]
  | checking | locking | walking | exited => rfl

theorem Timer.todo_released {timer : Timer} (released : timer.holdsLock = false) : timer.todo = [] := by
  cases timer with
  | walking | visiting => cases released
  | checking | locking | exited => rfl

@[simp] def linking (w : Nat) : Op → Nat
  | .link x => on w x
  | _ => 0

def Destroy.joined : Destroy → Bool
  | .uncalled | .joining => false
  | _ => true

/-- Every job was inserted in time, with no execution of it outstanding. -/
def Punctual (log : List Event) : Prop :=
  ∀ before after w, log = after ++ .inserted w :: before → visits w before = intervalOf w before ∧ unreturned w before = 0

theorem Punctual.cons (punctual : Punctual log)
    (now : ∀ w, event = .inserted w → visits w log = intervalOf w log ∧ unreturned w log = 0) : Punctual (event :: log) := by
  intro before after w split
  cases after with
  | nil =>
    cases split
    exact now w rfl
  | cons last after =>
    cases split
    exact punctual before after w rfl

structure Inv (s : State) : Prop where
  unfailed : s.failure ≠ some .callbackAssertion
  timed : ∀ w, Timed (view s w)
  punctual : Punctual s.log
  blank : ∀ w, s.allocated ≤ w → s.workers w = ⟨.waiting,1,1⟩
  adding : ∀ w, 0 < total (linking w) s.threads → total (linking w) s.threads = 1 ∧ w < s.allocated ∧
    w ∉ s.worker_list ∧ ∃ interval, s.workers w = ⟨.waiting,interval,interval⟩
  listed : ∀ w ∈ s.worker_list, w < s.allocated ∧ intervalOf w s.log = (s.workers w).interval
  walks : ∀ w ∈ s.timer.todo, w ∈ s.worker_list
  stopped : s.destroy.joined = true → s.timer = .exited

/-- A step leaves what the schedule of a worker depends on, or takes a registered worker to
its next phase. -/
def Moved (s s' : State) (w : Nat) : Prop :=
  view s' w = view s w ∨ Timed (view s' w) ∧ (s'.workers w).interval = (s.workers w).interval ∧ w < s.allocated ∧
    total (linking w) s.threads = 0

theorem Moved.interval (moved : Moved s s' w) : (s'.workers w).interval = (s.workers w).interval := by
  rcases moved with same | ⟨-,interval,-⟩
  · exact congrArg (fun v => v.worker.interval) same
  · exact interval

namespace Inv

theorem move (inv : Inv s) (moved : ∀ w, Moved s s' w) (punctual : Punctual s'.log)
    (intervals : ∀ w, intervalOf w s'.log = intervalOf w s.log) (allocated : s'.allocated = s.allocated)
    (links : ∀ w, total (linking w) s'.threads = total (linking w) s.threads)
    (fewer : ∀ w ∈ s'.worker_list, w ∈ s.worker_list) (walks : ∀ w ∈ s'.timer.todo, w ∈ s'.worker_list)
    (stopped : s'.destroy.joined = true → s'.timer = .exited) (unfailed : s'.failure ≠ some .callbackAssertion) :
    Inv s' := by
  refine ⟨unfailed,?_,punctual,?_,?_,?_,walks,stopped⟩
  · intro w
    rcases moved w with same | ⟨timed,-⟩
    · exact same ▸ inv.timed w
    · exact timed
  · intro w new
    rw [allocated] at new
    rcases moved w with same | ⟨-,-,existing,-⟩
    · exact (congrArg View.worker same).trans (inv.blank w new)
    · omega
  · intro w
    rw [links,allocated]
    intro adds
    obtain ⟨one,existing,unlisted,interval,whole⟩ := inv.adding w adds
    rcases moved w with same | ⟨-,-,-,none⟩
    · exact ⟨one,existing,fun member => unlisted (fewer w member),interval,(congrArg View.worker same).trans whole⟩
    · omega
  · intro w member
    rw [intervals,allocated,(moved w).interval]
    exact inv.listed w (fewer w member)

theorem linked (inv : Inv s) (member : w ∈ s.worker_list) : total (linking w) s.threads = 0 := by
  by_contra adds
  obtain ⟨-,-,unlisted,-⟩ := inv.adding w (Nat.pos_of_ne_zero adds)
  exact unlisted member

theorem at_other {s : State} (here : s.timer = .visiting w next todo) (other : x ≠ w) : s.timer.at x = none := by
  simp [here,Ne.symm other]

theorem here_listed (inv : Inv s) (here : s.timer = .visiting w next todo) : w ∈ s.worker_list :=
  inv.walks w (by simp [here,Timer.todo])

theorem turn (inv : Inv s) (member : w ∈ s.worker_list) (others : ∀ x, x ≠ w → view s' x = view s x)
    (timed : Timed (view s' w)) (interval : (s'.workers w).interval = (s.workers w).interval) (x : Nat) : Moved s s' x := by
  by_cases own : x = w
  · subst own
    exact .inr ⟨timed,interval,(inv.listed x member).1,inv.linked member⟩
  · exact .inl (others x own)

/-- What is left of a walk is on the list. -/
theorem walks_on (inv : Inv s) (here : s.timer = .visiting w next todo) : ∀ x ∈ todo, x ∈ s.worker_list :=
  fun x member => inv.walks x (by simp [here,Timer.todo,member])

/-- What a step of the timer with a worker may change. -/
theorem timer_step {timer : Timer} (inv : Inv s) (running : s.timer ≠ .exited)
    (moved : ∀ x, Moved s { s with workers, timer, queued, log } x) (punctual : Punctual log)
    (intervals : ∀ x, intervalOf x log = intervalOf x s.log) (walks : ∀ x ∈ timer.todo, x ∈ s.worker_list) :
    Inv { s with workers, timer, queued, log } := by
  apply inv.move moved punctual intervals
  · rfl
  · exact fun _ => rfl
  · exact fun _ member => member
  · exact walks
  · exact fun joined => (running (inv.stopped joined)).elim
  · exact inv.unfailed

theorem walking (inv : Inv s) (here : s.timer = .walking (w :: todo)) :
    Inv { s with
      timer := if (s.workers w).status = .busy then .walking todo else .visiting w .decrement todo
      log := .visited w :: s.log } := by
  have listed : ∀ x ∈ w :: todo, x ∈ s.worker_list := fun x member => inv.walks x (by simpa [here,Timer.todo] using member)
  have away : ∀ x, s.timer.at x = none := fun x => by simp [here]
  have member := listed w List.mem_cons_self
  apply inv.timer_step (by simp [here])
  · apply inv.turn member
    · intro x other
      split <;> simp [view,visits,insertedSince,unreturned,away,Ne.symm other]
    · by_cases status : (s.workers w).status = .busy
      · have timed := (inv.timed w).visit_busy (away w) status
        simpa [view,visits,insertedSince,unreturned,away,status] using timed
      · have idle : (s.workers w).status = .waiting := by cases other : (s.workers w).status <;> simp_all
        have timed := (inv.timed w).visit_waiting (away w) idle
        simpa [view,visits,insertedSince,unreturned,idle] using timed
    · rfl
  · exact inv.punctual.cons (by simp)
  · exact fun x => rfl
  · intro x later
    split at later
    · exact listed x (List.mem_cons_of_mem _ later)
    · exact listed x later

theorem decrement (inv : Inv s) (here : s.timer = .visiting w .decrement todo) :
    Inv { setWorker s w { s.workers w with counter := (s.workers w).counter - 1 } with
      timer := if (s.workers w).counter - 1 = 0 then .visiting w .setBusy todo else .walking todo } := by
  apply inv.timer_step (by simp [here])
  · apply inv.turn (inv.here_listed here)
    · intro x other
      have away := at_other here other
      split <;> simp [view,setWorker,away,other,Ne.symm other]
    · have timed := (inv.timed w).decrement (by simp [view,here])
      by_cases last : (s.workers w).counter - 1 = 0
      · simpa [view,setWorker,last] using timed
      · simpa [view,setWorker,last] using timed
    · simp [setWorker]
  · exact inv.punctual
  · exact fun x => rfl
  · intro x later
    split at later
    · exact inv.walks x (by simpa [here,Timer.todo] using later)
    · exact inv.walks_on here x later

theorem setBusy (inv : Inv s) (here : s.timer = .visiting w .setBusy todo) :
    Inv { setWorker s w { s.workers w with status := .busy } with timer := .visiting w .insertTail todo } := by
  apply inv.timer_step (by simp [here])
  · apply inv.turn (inv.here_listed here)
    · intro x other
      simp [view,setWorker,at_other here other,other,Ne.symm other]
    · have timed := (inv.timed w).setBusy (by simp [view,here])
      simpa [view,setWorker] using timed
    · simp [setWorker]
  · exact inv.punctual
  · exact fun x => rfl
  · exact fun x later => inv.walks x (by simpa [here,Timer.todo] using later)

theorem insertTail (inv : Inv s) (here : s.timer = .visiting w .insertTail todo) :
    Inv { s with
      timer := .walking todo
      queued := w :: s.queued
      log := .inserted w :: s.log } := by
  have with_it : (view s w).visit = some .insertTail := by simp [view,here]
  apply inv.timer_step (by simp [here])
  · apply inv.turn (inv.here_listed here)
    · intro x other
      simp [view,at_other here other,visits,insertedSince,unreturned,Ne.symm other]
    · have timed := (inv.timed w).insertTail with_it
      have queued : s.queued.count w + 1 + total (resetting w) s.threads = s.queued.count w + total (resetting w) s.threads + 1 := by
        omega
      have owed : s.queued.count w + 1 + total (owing w) s.threads = s.queued.count w + total (owing w) s.threads + 1 := by
        omega
      have more (n m : Int) : n + 1 - m = n - m + 1 := by omega
      simpa [view,visits,insertedSince,unreturned,queued,owed,more] using timed
    · rfl
  · apply inv.punctual.cons
    intro x same
    cases same
    obtain ⟨due,unreturned⟩ := (inv.timed w).punctual with_it
    have interval := (inv.listed w (inv.here_listed here)).2
    exact ⟨due.trans interval.symm,unreturned⟩
  · exact fun x => rfl
  · exact inv.walks_on here

/-- Only the phase of the timer changes, and it is with no worker. -/
theorem between (inv : Inv s) (away : ∀ w, s.timer.at w = none) (later : ∀ w, timer.at w = none)
    (walks : ∀ w ∈ timer.todo, w ∈ s.worker_list) (stopped : s.destroy.joined = true → timer = .exited) :
    Inv { s with timer } := by
  refine { inv with timed := ?_, walks, stopped }
  intro w
  have timed := inv.timed w
  simpa [view,away,later] using timed

theorem failed {failure : Failure} (inv : Inv s) (other : failure ≠ .callbackAssertion) : Inv (fail s failure) :=
  { inv with unfailed := fun same => other (Option.some.inj same) }

theorem touched (inv : Inv s) (used : touch s w (some next) = some s') (kept : Inv next) : Inv s' := by
  unfold touch at used
  split at used
  · cases used
    apply inv.failed
    simp
  · cases used
    exact kept

end Inv

theorem houseKeepingWorkerThread_keeps (inv : Inv s) (taken : houseKeepingWorkerThread s accepted = some s') : Inv s' := by
  have on_way : s.timer ≠ .exited → s.destroy.joined = true → False := fun running joined => running (inv.stopped joined)
  cases here : s.timer with
  | checking =>
    simp only [houseKeepingWorkerThread,here] at taken
    cases taken
    apply inv.between
    · simp [here,Timer.at]
    · split <;> simp [Timer.at]
    · split <;> simp [Timer.todo]
    · exact fun joined => (on_way (by simp [here]) joined).elim
  | locking =>
    simp only [houseKeepingWorkerThread,here] at taken
    cases taken
    apply inv.between
    · simp [here,Timer.at]
    · simp [Timer.at]
    · exact fun w member => member
    · exact fun joined => (on_way (by simp [here]) joined).elim
  | walking todo =>
    cases todo with
    | nil =>
      simp only [houseKeepingWorkerThread,here] at taken
      cases taken
      apply inv.between
      · simp [here,Timer.at]
      · simp [Timer.at]
      · simp [Timer.todo]
      · exact fun joined => (on_way (by simp [here]) joined).elim
    | cons w todo =>
      simp only [houseKeepingWorkerThread,here] at taken
      exact inv.touched taken (inv.walking here)
  | visiting w next todo =>
    cases next with
    | decrement =>
      simp only [houseKeepingWorkerThread,here] at taken
      exact inv.touched taken (inv.decrement here)
    | setBusy =>
      simp only [houseKeepingWorkerThread,here] at taken
      exact inv.touched taken (inv.setBusy here)
    | insertTail =>
      simp only [houseKeepingWorkerThread,here] at taken
      apply inv.touched taken
      cases accepted with
      | true => exact inv.insertTail here
      | false => exact inv.failed (by simp)
  | exited => simp [houseKeepingWorkerThread,here] at taken

namespace Inv

/-- The steps that leave every worker in its phase, and register none. -/
theorem unmoved {destroy : Destroy} {failure : Option Failure} (inv : Inv s)
    (unreset : ∀ w, queued.count w + total (resetting w) threads = s.queued.count w + total (resetting w) s.threads)
    (owed : ∀ w, queued.count w + total (owing w) threads = s.queued.count w + total (owing w) s.threads)
    (links : ∀ w, total (linking w) threads = total (linking w) s.threads)
    (fewer : ∀ w ∈ worker_list, w ∈ s.worker_list) (walks : ∀ w ∈ s.timer.todo, w ∈ worker_list)
    (stopped : destroy.joined = true → s.timer = .exited) (unfailed : failure ≠ some .callbackAssertion) :
    Inv { s with queued, threads, worker_list, destroy, failure, freed, handles, taken, worker_stop } := by
  apply inv.move
  · intro w
    left
    simp only [view,unreset,owed]
  · exact inv.punctual
  · intro w
    rfl
  · rfl
  · exact links
  · exact fewer
  · exact walks
  · exact stopped
  · exact unfailed

theorem proceed {i : Nat} {failure : Option Failure} (inv : Inv s) (here : s.threads[i]? = some (op :: rest))
    (unreset : ∀ w, (ops.map (resetting w)).sum = resetting w op) (owed : ∀ w, (ops.map (owing w)).sum = owing w op)
    (links : ∀ w, (ops.map (linking w)).sum = linking w op)
    (fewer : ∀ w ∈ worker_list, w ∈ s.worker_list) (walks : ∀ w ∈ s.timer.todo, w ∈ worker_list)
    (unfailed : failure ≠ some .callbackAssertion) :
    Inv { s with
      worker_list, failure, freed
      threads := s.threads.set i (ops ++ rest) } := by
  apply inv.unmoved
  · intro w
    have advanced := total_advance (resetting w) here ops
    have same := unreset w
    omega
  · intro w
    have advanced := total_advance (owing w) here ops
    have same := owed w
    omega
  · intro w
    have advanced := total_advance (linking w) here ops
    have same := links w
    omega
  · exact fewer
  · exact walks
  · exact inv.stopped
  · exact unfailed

theorem crashed {i : Nat} {failure : Failure} (inv : Inv s) (here : s.threads[i]? = some (op :: rest))
    (other : failure ≠ .callbackAssertion) (done : crash s op failure = some (s1,ops)) : Inv { s1 with threads := s.threads.set i (ops ++ rest) } := by
  cases done
  change Inv { fail s failure with threads := s.threads.set i (op :: rest) }
  rw [set_same here]
  exact inv.failed other

theorem released_unfailed (inv : Inv s) : (release s w).failure ≠ some .callbackAssertion := by
  simp only [release]
  split
  · simp
  · exact inv.unfailed

theorem operated {i : Nat} (inv : Inv s) (here : s.threads[i]? = some (op :: rest))
    (done : operate s op w next = some (s1,ops))
    (kept : next = some (s1,ops) → Inv { s1 with threads := s.threads.set i (ops ++ rest) }) :
    Inv { s1 with threads := s.threads.set i (ops ++ rest) } := by
  unfold operate at done
  split at done
  · exact inv.crashed here (by simp) done
  · exact kept done

theorem unreset {i : Nat} (inv : Inv s) (here : s.threads[i]? = some (op :: rest)) (owed : resetting w op = 1) :
    Busy (view s w) ∧ (s.workers w).counter = 0 ∧ (view s w).unreset = 1 := by
  have share := weight_le_total (resetting w) here
  apply (inv.timed w).asserted
  simp only [view]
  omega

/-- A worker that is busy is no longer being added. -/
theorem busy_linked (inv : Inv s) (busy : Busy (view s w)) : w < s.allocated ∧ total (linking w) s.threads = 0 := by
  have status : (s.workers w).status = .busy := busy.status
  constructor
  · by_contra new
    have blank := inv.blank w (Nat.le_of_not_lt new)
    simp [blank] at status
  · by_contra adds
    obtain ⟨-,-,-,interval,whole⟩ := inv.adding w (Nat.pos_of_ne_zero adds)
    simp [whole] at status

theorem callback (inv : Inv s) (busy : Busy (view s w)) (others : ∀ x, x ≠ w → view s' x = view s x)
    (timed : Timed (view s' w)) (interval : (s'.workers w).interval = (s.workers w).interval) (x : Nat) : Moved s s' x := by
  by_cases own : x = w
  · subst own
    exact .inr ⟨timed,interval,inv.busy_linked busy⟩
  · exact .inl (others x own)

theorem callback_step (inv : Inv s) (moved : ∀ x, Moved s { s with workers, log, threads } x) (punctual : Punctual log)
    (intervals : ∀ x, intervalOf x log = intervalOf x s.log)
    (links : ∀ x, total (linking x) threads = total (linking x) s.threads) : Inv { s with workers, log, threads } := by
  apply inv.move moved punctual intervals
  · rfl
  · exact links
  · exact fun _ member => member
  · exact inv.walks
  · exact inv.stopped
  · exact inv.unfailed

theorem resetCounter {i : Nat} (inv : Inv s) (here : s.threads[i]? = some (.resetCounter w :: rest)) :
    Inv { setWorker s w { s.workers w with counter := (s.workers w).interval } with
      threads := s.threads.set i (.setWaiting w :: rest) } := by
  obtain ⟨busy,-,one⟩ := inv.unreset (w := w) here (by simp)
  have unreset (x : Nat) := total_advance (resetting x) here [.setWaiting w]
  have owed (x : Nat) := total_advance (owing x) here [.setWaiting w]
  have links (x : Nat) := total_advance (linking x) here [.setWaiting w]
  simp at unreset owed links
  apply inv.callback_step
  · apply inv.callback busy
    · intro x other
      have mine := unreset x
      simp only [if_neg (Ne.symm other)] at mine
      simp [view,setWorker,other,← mine,owed]
    · have timed := (inv.timed w).resetCounter (by omega)
      have mine := unreset w
      simp only [if_true] at mine
      have fewer : s.queued.count w + total (resetting w) (s.threads.set i (.setWaiting w :: rest)) =
          s.queued.count w + total (resetting w) s.threads - 1 := by
        omega
      simpa [view,setWorker,owed,fewer] using timed
    · simp [setWorker]
  · exact inv.punctual
  · exact fun x => rfl
  · exact links

theorem setWaiting {i : Nat} (inv : Inv s) (here : s.threads[i]? = some (.setWaiting w :: rest)) :
    Inv { setWorker s w { s.workers w with status := .waiting } with
      log := .calledBack w :: s.log
      threads := s.threads.set i rest } := by
  have unreset (x : Nat) := total_advance (resetting x) here []
  have owed (x : Nat) := total_advance (owing x) here []
  have links (x : Nat) := total_advance (linking x) here []
  have less := total_mono (resetting_le_owing w) (s.threads.set i rest)
  simp at unreset owed links
  have mine := owed w
  simp only [if_true] at mine
  have outstanding : 0 < (view s w).outstanding := by
    simp only [view]
    omega
  have busy := (inv.timed w).single outstanding
  have one := busy.outstanding
  simp only [view] at one
  have done : (view s w).unreset = 0 := by
    simp only [view,← unreset w]
    omega
  apply inv.callback_step
  · apply inv.callback busy
    · intro x other
      have others := owed x
      simp only [if_neg (Ne.symm other)] at others
      simp [view,setWorker,visits,insertedSince,HouseKeeping.unreturned,other,Ne.symm other,← others,unreset]
    · have timed := (inv.timed w).setWaiting outstanding done
      have fewer : s.queued.count w + total (owing w) (s.threads.set i rest) =
          s.queued.count w + total (owing w) s.threads - 1 := by
        omega
      have less_one (n m : Int) : n - (m + 1) = n - m - 1 := by omega
      simpa [view,setWorker,visits,insertedSince,HouseKeeping.unreturned,unreset,fewer,less_one] using timed
    · simp [setWorker]
  · exact inv.punctual.cons (by simp)
  · exact fun x => rfl
  · exact links

theorem link {i : Nat} (inv : Inv s) (here : s.threads[i]? = some (.link w :: rest)) (released : s.timer.holdsLock = false) :
    Inv { s with
      worker_list := w :: s.worker_list
      handles := w :: s.handles
      log := .registered w (s.workers w).interval :: s.log
      threads := s.threads.set i rest } := by
  have unreset (x : Nat) := total_advance (resetting x) here []
  have owed (x : Nat) := total_advance (owing x) here []
  have links (x : Nat) := total_advance (linking x) here []
  simp at unreset owed links
  have mine := links w
  simp only [if_true] at mine
  obtain ⟨one,existing,unlisted,interval,whole⟩ := inv.adding w (by omega)
  have resting := Timer.todo_released released
  refine { inv with timed := ?_, punctual := ?_, adding := ?_, listed := ?_, walks := ?_ }
  · intro x
    by_cases own : x = w
    · subst own
      have away : s.timer.at x = none := Timer.at_none (by simp [resting])
      have timed := (inv.timed x).register whole away
      simpa [view,visits,insertedSince,HouseKeeping.unreturned,unreset,owed] using timed
    · have timed := inv.timed x
      simpa [view,visits,insertedSince,HouseKeeping.unreturned,unreset,owed,Ne.symm own] using timed
  · exact inv.punctual.cons (by simp)
  · intro x adds
    change 0 < total (linking x) (s.threads.set i rest) at adds
    by_cases own : x = w
    · subst own
      omega
    · have others := links x
      simp only [if_neg (Ne.symm own)] at others
      obtain ⟨single,small,absent,full⟩ := inv.adding x (by omega)
      refine ⟨?_,small,?_,full⟩
      · exact others.trans single
      · simp [own,absent]
  · intro x member
    by_cases own : x = w
    · subst own
      exact ⟨existing,by simp [intervalOf]⟩
    · have before := inv.listed x (by simpa [own] using member)
      exact ⟨before.1,by simpa [intervalOf,Ne.symm own] using before.2⟩
  · simp [resting]

end Inv

theorem exec_keeps {i : Nat} (inv : Inv s) (here : s.threads[i]? = some (op :: rest)) (done : exec s op = some (s1,ops)) :
    Inv { s1 with threads := s.threads.set i (ops ++ rest) } := by
  cases op with
  | link w =>
    simp only [exec] at done
    split at done
    case isTrue => cases done
    case isFalse free =>
      split at done
      · exact inv.crashed here (by simp) done
      · cases done
        exact inv.link here (Bool.eq_false_of_not_eq_true free)
  | assertStatus w =>
    apply inv.operated here done
    intro done
    obtain ⟨busy,-⟩ := inv.unreset (w := w) here (by simp)
    have status : (s.workers w).status = .busy := busy.status
    rw [if_pos status] at done
    cases done
    exact inv.proceed here (by simp) (by simp) (by simp) (fun _ member => member) inv.walks inv.unfailed
  | assertCounter w =>
    apply inv.operated here done
    intro done
    obtain ⟨-,counter,-⟩ := inv.unreset (w := w) here (by simp)
    rw [if_pos counter] at done
    cases done
    exact inv.proceed here (by simp) (by simp) (by simp) (fun _ member => member) inv.walks inv.unfailed
  | resetCounter w =>
    apply inv.operated here done
    intro done
    cases done
    exact inv.resetCounter here
  | setWaiting w =>
    apply inv.operated here done
    intro done
    cases done
    exact inv.setWaiting here
  | unlink w =>
    simp only [exec] at done
    split at done
    case isTrue => cases done
    case isFalse free =>
      have resting := Timer.todo_released (Bool.eq_false_of_not_eq_true free)
      split at done
      · exact inv.crashed here (by simp) done
      · apply inv.operated here done
        intro done
        split at done
        · cases done
          apply inv.proceed here (by simp) (by simp) (by simp) (fun _ member => List.mem_of_mem_erase member)
          · simp [resting]
          · exact inv.unfailed
        · exact inv.crashed here (by simp) done
  | await w =>
    apply inv.operated here done
    intro done
    split at done
    · cases done
    · cases done
      exact inv.proceed here (by simp) (by simp) (by simp) (fun _ member => member) inv.walks inv.unfailed
  | free w =>
    cases done
    exact inv.proceed here (by simp) (by simp) (by simp) (fun _ member => member) inv.walks inv.released_unfailed

theorem destroy_keeps (inv : Inv s) (taken : HouseKeeping.destroy s = some s') : Inv s' := by
  have same : ∀ w ∈ s.worker_list, w ∈ s.worker_list := fun _ member => member
  cases here : s.destroy with
  | uncalled =>
    simp only [HouseKeeping.destroy,here] at taken
    split at taken
    · cases taken
    · cases taken
      exact inv.unmoved (by simp) (by simp) (by simp) same inv.walks (by simp [Destroy.joined]) inv.unfailed
  | joining =>
    simp only [HouseKeeping.destroy,here] at taken
    split at taken
    case isTrue exited =>
      cases taken
      exact inv.unmoved (by simp) (by simp) (by simp) same inv.walks (fun _ => exited) inv.unfailed
    case isFalse => cases taken
  | starting =>
    have exited := inv.stopped (by simp [here,Destroy.joined])
    simp only [HouseKeeping.destroy,here] at taken
    split at taken
    · cases taken
      exact inv.unmoved (by simp) (by simp) (by simp) same inv.walks (fun _ => exited) inv.unfailed
    · cases taken
      exact inv.unmoved (by simp) (by simp) (by simp) same inv.walks (fun _ => exited) inv.unfailed
  | examining w =>
    have exited := inv.stopped (by simp [here,Destroy.joined])
    simp only [HouseKeeping.destroy,here] at taken
    apply inv.touched taken
    exact inv.unmoved (by simp) (by simp) (by simp) same inv.walks (fun _ => exited) inv.unfailed
  | deleting w next =>
    have exited := inv.stopped (by simp [here,Destroy.joined])
    simp only [HouseKeeping.destroy,here] at taken
    apply inv.touched taken
    split
    · apply inv.unmoved (by simp) (by simp) (by simp) (fun _ member => List.mem_of_mem_erase member)
      · simp [exited,Timer.todo]
      · exact fun _ => exited
      · exact inv.unfailed
    · exact inv.failed (by simp)
  | releasing w next =>
    have exited := inv.stopped (by simp [here,Destroy.joined])
    simp only [HouseKeeping.destroy,here] at taken
    cases taken
    exact inv.unmoved (by simp [release]) (by simp [release]) (by simp [release]) same inv.walks (fun _ => exited)
      inv.released_unfailed
  | leaving =>
    have exited := inv.stopped (by simp [here,Destroy.joined])
    simp only [HouseKeeping.destroy,here] at taken
    cases taken
    exact inv.unmoved (by simp) (by simp) (by simp) same inv.walks (fun _ => exited) inv.unfailed
  | returned => simp [HouseKeeping.destroy,here] at taken

/-- A worker is allocated, and a thread is to link it. -/
theorem Inv.addWorker (inv : Inv s) (interval : Int) :
    Inv { setWorker s s.allocated ⟨.waiting,interval,interval⟩ with
      allocated := s.allocated + 1
      threads := s.threads ++ [[.link s.allocated]] } := by
  have unlisted : s.allocated ∉ s.worker_list := fun member => Nat.lt_irrefl _ (inv.listed _ member).1
  refine { inv with timed := ?_, blank := ?_, adding := ?_, listed := ?_ }
  · intro w
    by_cases own : w = s.allocated
    · subst own
      have away : s.timer.at s.allocated = none := Timer.at_none fun member => unlisted (inv.walks _ member)
      have timed := (inv.timed s.allocated).allocate (inv.blank s.allocated (Nat.le_refl _)) away interval
      simpa [view,setWorker] using timed
    · have timed := inv.timed w
      simpa [view,setWorker,own] using timed
  · intro w new
    have above : s.allocated < w := new
    have other : w ≠ s.allocated := by omega
    simpa [setWorker,other] using inv.blank w (by omega)
  · intro w adds
    have spawned := total_spawn (linking w) s.threads (.link s.allocated)
    simp only [linking,on] at spawned
    change 0 < total (linking w) (s.threads ++ [[.link s.allocated]]) at adds
    by_cases own : w = s.allocated
    · subst own
      have none : total (linking s.allocated) s.threads = 0 := by
        by_contra before
        obtain ⟨-,small,-⟩ := inv.adding s.allocated (Nat.pos_of_ne_zero before)
        omega
      refine ⟨?_,Nat.lt_succ_self _,unlisted,interval,by simp [setWorker]⟩
      simp only [if_true] at spawned
      exact spawned.trans (by omega)
    · simp only [if_neg (Ne.symm own)] at spawned
      obtain ⟨one,small,absent,full⟩ := inv.adding w (by omega)
      refine ⟨spawned.trans one,Nat.lt_succ_of_lt small,absent,?_⟩
      simpa [setWorker,own] using full
  · intro w member
    have other : w ≠ s.allocated := fun same => unlisted (same ▸ member)
    obtain ⟨small,interval⟩ := inv.listed w member
    exact ⟨Nat.lt_succ_of_lt small,by simpa [setWorker,other] using interval⟩

theorem Inv.doJob (inv : Inv s) (member : w ∈ s.queued) :
    Inv { s with
      queued := s.queued.erase w
      threads := s.threads ++ [[.assertStatus w]] } := by
  have taken (x : Nat) := count_erase member x
  apply inv.unmoved
  · intro x
    have fewer := taken x
    simp
    omega
  · intro x
    have fewer := taken x
    simp
    omega
  · simp
  · exact fun _ member => member
  · exact inv.walks
  · exact inv.stopped
  · exact inv.unfailed

theorem Inv.step (inv : Inv s) (taken : HouseKeeping.step s a = some s') : Inv s' := by
  unfold HouseKeeping.step at taken
  split at taken
  case isTrue => cases taken
  case isFalse =>
    cases a with
    | addWorker interval =>
      simp only at taken
      split at taken
      · cases taken
        exact inv.addWorker interval
      · cases taken
    | removeWorker w =>
      simp only at taken
      split at taken
      · cases taken
        exact inv.unmoved (by simp) (by simp) (by simp) (fun _ member => member) inv.walks inv.stopped inv.unfailed
      · cases taken
    | doJob w =>
      simp only at taken
      split at taken
      case isTrue member => exact inv.touched taken (inv.doJob member)
      case isFalse => cases taken
    | timer accepted => exact houseKeepingWorkerThread_keeps inv taken
    | destroy => exact destroy_keeps inv taken
    | run thread =>
      simp only at taken
      split at taken
      case h_1 op rest here =>
        obtain ⟨⟨s1,ops⟩,done,rfl⟩ := Option.map_eq_some_iff.mp taken
        exact exec_keeps inv here done
      case h_2 => cases taken

theorem Inv.init : Inv initHouseKeeping := by
  refine ⟨by simp [initHouseKeeping],?_,?_,?_,?_,?_,?_,?_⟩
  · intro w
    exact .waiting ⟨rfl,rfl,rfl,rfl,rfl⟩ rfl (fun _ => Int.le_refl 1) (by simp [view,initHouseKeeping,visits])
  · intro before after w split
    simp [initHouseKeeping] at split
  · intro w new
    rfl
  · intro w adds
    simp [initHouseKeeping] at adds
  · intro w member
    simp [initHouseKeeping] at member
  · intro w member
    simp [initHouseKeeping,Timer.todo] at member
  · intro joined
    cases joined

/-- Every job is inserted on schedule, whatever the order of the timer's steps, the workers
that are added and removed, the executions and their callbacks. -/
theorem scheduled (reachable : Reachable step (fun _ _ => True) initHouseKeeping s) : Scheduled s := by
  have inv : Inv s := reachable.invariant Inv.init fun _ _ _ inv _ taken => inv.step taken
  refine ⟨inv.unfailed,inv.punctual,?_,?_⟩
  · intro w member away positive late
    rw [(inv.listed w member).2] at positive late
    exact (inv.timed w).in_time away positive late
  · intro w here
    have none := (inv.timed w).alone here
    simp only [view,Nat.add_eq_zero_iff,List.count_eq_zero] at none
    exact none

def walk (steps : Nat) : List Action := List.replicate (steps + 3) (.timer true)

/-- A worker of interval two is inserted at its second tick and executed. -/
def secondTick : List Action := [.addWorker 2,.run 0] ++ walk 2 ++ walk 4 ++ [.doJob 0,.run 1,.run 1,.run 1,.run 1]

theorem scheduled_second_tick : ∃ s, execute step initHouseKeeping secondTick = some s ∧ Scheduled s ∧
    s.log = [.calledBack 0,.inserted 0,.visited 0,.visited 0,.registered 0 2] :=
  ⟨_,rfl,scheduled (Reachable.start.run secondTick rfl),rfl⟩

end Muti.HouseKeeping
