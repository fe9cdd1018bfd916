import Mathlib.Logic.Function.Basic
import Muti.Transition

/-! The I/O of a connection. Callers of `connRead` and `connWrite`, epoll events, read and
write jobs and closers run as threads that meet in the two job lists and the counters;
every `__sync` operation, and every section under a spin lock, is a step of its own. -/
namespace Muti.Connection

open Muti.Transition

inductive Side where
  | read
  | write
  deriving DecidableEq, Repr

/-- What an operation finds: a transfer of all, of a part or of none of an IOContext's
buffer, an error, or what a callback calls before it returns. -/
inductive Outcome where
  | nothing
  | full
  | short
  | wouldBlock
  | error
  | calls (sides : List Side)
  deriving DecidableEq, Repr

/-- What a thread has left to do, in the order of the source. An IOContext is a number, and
an epoll event increments a counter for none. -/
inductive Op where
  | isClosed (side : Side)
  | refer (side : Side) (ioctx : Nat)
  | listAddTail (side : Side) (ioctx : Nat)
  | polled (side : Side)
  | increment (side : Side) (ioctx : Option Nat)
  | decrement (side : Side) (ioctx : Option Nat)
  | referJob (side : Side) (ioctx : Option Nat)
  | insertTailHash (side : Side) (ioctx : Option Nat)
  | start (side : Side)
  | take (side : Side)
  | testClosed (side : Side) (head : List Nat)
  | work (side : Side) (head : List Nat)
  | leave (side : Side) (head : List Nat)
  | callback (side : Side) (ioctx : Nat) (rc : Bool)
  | socketIODone
  | close
  | postIOJobs (side : Side)
  | onClose
  deriving DecidableEq, Repr

/-- `busy` is `is_reading` and `is_writing`, `queued` how often a side's job waits in its
pool. `returned` tells for which IOContexts the call returned true, `callbacks` lists the
calls back, and `parked` what jobs have put back. -/
structure State where
  is_closed : Nat
  ref : Int
  released : Bool
  shut : Bool
  busy : Side → Int
  jobs_head : Side → List Nat
  queued : Side → Nat
  allocated : Nat
  returned : Nat → Bool
  callbacks : List (Nat × Bool)
  parked : Nat → Bool
  onClosed : Nat
  threads : List (List Op)

def createConnection : State where
  is_closed := 0
  ref := 1
  released := false
  shut := false
  busy := fun _ => 0
  jobs_head := fun _ => []
  queued := fun _ => 0
  allocated := 0
  returned := fun _ => false
  callbacks := []
  parked := fun _ => false
  onClosed := 0
  threads := []

def State.count (s : State) (side : Side) (change : Int) : State :=
  { s with busy := Function.update s.busy side (s.busy side + change) }

def State.setHead (s : State) (side : Side) (head : List Nat) : State :=
  { s with jobs_head := Function.update s.jobs_head side head }

def State.returns (s : State) (ioctx : Option Nat) : State :=
  { s with returned := fun io => s.returned io || decide (ioctx = some io) }

@[simp] theorem count_allocated (s : State) (side : Side) (change : Int) : (s.count side change).allocated = s.allocated := rfl

@[simp] theorem count_returned (s : State) (side : Side) (change : Int) : (s.count side change).returned = s.returned := rfl

@[simp] theorem count_jobs_head (s : State) (side : Side) (change : Int) : (s.count side change).jobs_head = s.jobs_head := rfl

@[simp] theorem count_queued (s : State) (side : Side) (change : Int) : (s.count side change).queued = s.queued := rfl

@[simp] theorem setHead_allocated (s : State) (side : Side) (head : List Nat) : (s.setHead side head).allocated = s.allocated := rfl

@[simp] theorem setHead_returned (s : State) (side : Side) (head : List Nat) : (s.setHead side head).returned = s.returned := rfl

@[simp] theorem setHead_queued (s : State) (side : Side) (head : List Nat) : (s.setHead side head).queued = s.queued := rfl

@[simp] theorem setHead_self (s : State) (side : Side) (head : List Nat) : (s.setHead side head).jobs_head side = head :=
  Function.update_self ..

theorem mem_setHead (s : State) (side x : Side) (head : List Nat) (io : Nat)
    (inside : io ∈ (s.setHead side head).jobs_head x) : x = side ∧ io ∈ head ∨ x ≠ side ∧ io ∈ s.jobs_head x := by
  by_cases same : x = side
  · subst same
    exact .inl ⟨rfl,by simpa using inside⟩
  · exact .inr ⟨same,by simpa [State.setHead,same] using inside⟩

@[simp] theorem returns_allocated (s : State) (ioctx : Option Nat) : (s.returns ioctx).allocated = s.allocated := rfl

@[simp] theorem returns_jobs_head (s : State) (ioctx : Option Nat) : (s.returns ioctx).jobs_head = s.jobs_head := rfl

@[simp] theorem returns_queued (s : State) (ioctx : Option Nat) : (s.returns ioctx).queued = s.queued := rfl

/-- The error path: every IOContext a job has taken gets a call back with `rc` false. -/
def closed (side : Side) (head : List Nat) : List Op :=
  head.map (fun ioctx => .callback side ioctx false) ++ [.socketIODone]

/-- The loop of `socketDoRead` and `socketDoWrite` comes to the next IOContext. A short read
is called back, a short write stays in front. -/
def transfer (s : State) (side : Side) (head : List Nat) (outcome : Outcome) : Option (State × List Op) :=
  match head with
  | [] => some (s,[.leave side []])
  | ioctx :: rest => match outcome with
    | .full => some (s,[.callback side ioctx true,.work side rest])
    | .short => match side with
      | .read => some (s,[.callback .read ioctx true,.leave .read rest])
      | .write => some (s,[.leave .write (ioctx :: rest)])
    | .wouldBlock => some (s,[.leave side (ioctx :: rest)])
    -- a failed read shuts the socket down, a failed write only gives up the list
    | .error => match side with
      | .read => some ({ s with shut := true },closed .read (ioctx :: rest))
      | .write => some (s,closed .write (ioctx :: rest))
    | _ => none

def exec (s : State) (outcome : Outcome) : Op → Option (State × List Op)
  | .isClosed side =>
    some (if s.is_closed ≠ 0 then (s,[]) else ({ s with allocated := s.allocated + 1 },[.refer side s.allocated]))
  | .refer side ioctx => some ({ s with ref := s.ref + 1 },[.listAddTail side ioctx])
  | .listAddTail side ioctx => some (s.setHead side (s.jobs_head side ++ [ioctx]),[.increment side (some ioctx)])
  | .polled side => some (s,if s.busy side = 0 then [.increment side none] else [])
  | .increment side ioctx =>
    some (s.count side 1,if s.busy side + 1 = 1 then [.referJob side ioctx] else [.decrement side ioctx])
  | .decrement side ioctx => some ((s.count side (-1)).returns ioctx,[])
  | .referJob side ioctx => some ({ s with ref := s.ref + 1 },[.insertTailHash side ioctx])
  | .insertTailHash side ioctx =>
    some ({ s with queued := Function.update s.queued side (s.queued side + 1) }.returns ioctx,[])
  | .start side => some (s.count side (-1),[.take side])
  | .take side => some (s.setHead side [],[.testClosed side (s.jobs_head side)])
  | .testClosed side head => some (s,if s.is_closed ≠ 0 then closed side head else [.work side head])
  | .work side head => transfer s side head outcome
  | .leave side head =>
    some ({ s.setHead side (head ++ s.jobs_head side) with
      parked := fun ioctx => s.parked ioctx || decide (ioctx ∈ head) },[.socketIODone])
  | .callback _ ioctx rc => match outcome with
    | .calls sides => some ({ s with callbacks := (ioctx,rc) :: s.callbacks },sides.map .isClosed ++ [.socketIODone])
    | _ => none
  | .socketIODone => some ({ s with ref := s.ref - 1, released := s.released || decide (s.ref - 1 = 0) },[])
  | .close =>
    some ({ s with is_closed := s.is_closed + 1 },
      if s.is_closed + 1 = 1 then [.postIOJobs .read,.postIOJobs .write,.onClose,.socketIODone] else [])
  | .postIOJobs side =>
    some (s.setHead side [],(s.jobs_head side).map fun ioctx => .callback side ioctx false)
  | .onClose => some ({ s with onClosed := s.onClosed + 1 },[])

/-- A call of `connRead` or `connWrite`, an epoll event, a pool's start of a queued job, a
call of `socketCloseConnection`, or a thread's next operation. -/
inductive Action where
  | call (side : Side)
  | epoll (side : Side)
  | doJob (side : Side)
  | close
  | run (thread : Nat) (outcome : Outcome)
  deriving DecidableEq, Repr

def spawn (s : State) (op : Op) : State := { s with threads := s.threads ++ [[op]] }

/-- A queued job starts at any time, also beside one of its own side that still runs: with
no worker threads, a pool runs it in the thread that inserts it. -/
def step (s : State) : Action → Option State
  | .call side => some (spawn s (.isClosed side))
  | .epoll side => some (spawn s (.polled side))
  | .doJob side =>
    if 0 < s.queued side then
      some (spawn { s with queued := Function.update s.queued side (s.queued side - 1) } (.start side))
    else none
  | .close => some (spawn s .close)
  | .run thread outcome =>
    match s.threads[thread]? with
    | some (op :: rest) =>
      (exec s outcome op).map fun done => { done.1 with threads := s.threads.set thread (done.2 ++ rest) }
    | _ => none

/-- A thread that steps has an operation ahead, and puts what comes of it in its place. -/
theorem step_run {thread : Nat} (taken : step s (.run thread outcome) = some s') :
    ∃ op rest s₁ ops, s.threads[thread]? = some (op :: rest) ∧ exec s outcome op = some (s₁,ops) ∧
      s' = { s₁ with threads := s.threads.set thread (ops ++ rest) } := by
  rcases here : s.threads[thread]? with _ | _ | ⟨op,rest⟩
  · simp [step,here] at taken
  · simp [step,here] at taken
  · simp only [step,here,Option.map_eq_some_iff] at taken
    obtain ⟨⟨s₁,ops⟩,done,rfl⟩ := taken
    exact ⟨op,rest,s₁,ops,rfl,done,rfl⟩

end Muti.Connection
