import Mathlib.Algebra.GroupWithZero.Nat
import Mathlib.Data.List.Basic

/-! A pool of one worker. Inserts link jobs into the shared list under the lock; the worker
moves the whole list behind its private one in a batch and runs that without the lock. -/
namespace Muti.ThreadPool

inductive Insert where
  | insertTail
  | insertHead
  | insertTailHash (hash : UInt64)
  | insertHeadHash (hash : UInt64)
  deriving DecidableEq, Repr

def Insert.tail : Insert → Bool
  | .insertTail | .insertTailHash _ => true
  | .insertHead | .insertHeadHash _ => false

/-- One call of an insert. `ticket` is the number of the call: a job may be inserted again. -/
structure Call where
  ticket : Nat
  job : Nat
  insert : Insert
  deriving DecidableEq, Repr

/-- The initial state is over before `initThreadPool1` returns. -/
inductive ThreadPoolState where
  | start
  | stop
  deriving DecidableEq, Repr

/-- Where the worker is: about to test the shared list, asleep on the condition, woken and
about to get the lock back, between two jobs of a batch, in a job, or at its end. -/
inductive Worker where
  | testing
  | waiting
  | woken
  | batch
  | doJob (call : Call)
  | exited
  deriving DecidableEq, Repr

/-- `freed` tells that `destroy` has cleared `p` and freed what it pointed to. The logs tell
which calls have returned what, and which calls' jobs have been started and finished. -/
structure ThreadPool1 where
  state : ThreadPoolState
  work_head : List Call
  runing_head : List Call
  worker : Worker
  freed : Bool
  returned : List (Call × Bool)
  started : List Call
  finished : List Call
  deriving DecidableEq, Repr

/-- `pthread_cond_signal`: lost when the worker does not wait. -/
def signal : Worker → Worker
  | .waiting => .woken
  | worker => worker

def insertTail (tp : ThreadPool1) (job : Call) : ThreadPool1 × Bool :=
  if tp.state = .stop then (tp,false)
  else ({ tp with work_head := tp.work_head ++ [job], worker := signal tp.worker },true)

def insertHead (tp : ThreadPool1) (job : Call) : ThreadPool1 × Bool :=
  if tp.state = .stop then (tp,false)
  else ({ tp with work_head := job :: tp.work_head, worker := signal tp.worker },true)

/-- An insert of the call's kind, and what it returns. -/
def insert (tp : ThreadPool1) (call : Call) : ThreadPool1 :=
  let result := if call.insert.tail then insertTail tp call else insertHead tp call
  { result.1 with returned := tp.returned ++ [(call,result.2)] }

/-- `listJoinTailInit` under the lock, and on to the batch. -/
def listJoinTailInit (tp : ThreadPool1) : ThreadPool1 :=
  { tp with work_head := [], runing_head := tp.runing_head ++ tp.work_head, worker := .batch }

/-- The worker's next step. After a wait it does not test the list again. -/
def threadPoolDoThread (tp : ThreadPool1) : Option ThreadPool1 :=
  match tp.worker with
  | .testing =>
    if tp.work_head = [] then some { tp with worker := if tp.state = .stop then .exited else .waiting }
    else some (listJoinTailInit tp)
  | .waiting => none
  | .woken => some (listJoinTailInit tp)
  | .batch =>
    match tp.runing_head with
    | [] => some { tp with worker := .testing }
    | job :: rest => some { tp with runing_head := rest, worker := .doJob job, started := tp.started ++ [job] }
  | .doJob job => some { tp with worker := .batch, finished := tp.finished ++ [job] }
  | .exited => none

/-- A wait may also end without a signal. -/
def wake (tp : ThreadPool1) : Option ThreadPool1 :=
  if tp.worker = .waiting then some { tp with worker := .woken } else none

def stop (tp : ThreadPool1) : ThreadPool1 := { tp with state := .stop, worker := signal tp.worker }

/-- The rest of `destroy`, once the worker has exited. -/
def join (tp : ThreadPool1) : Option ThreadPool1 :=
  if tp.worker = .exited then some { tp with freed := true } else none

def ThreadPool1.accepted (tp : ThreadPool1) : List Call := (tp.returned.filter (·.2)).map (·.1)

def ThreadPool1.refused (tp : ThreadPool1) : List Call := (tp.returned.filter (!·.2)).map (·.1)

def ThreadPool1.queued (tp : ThreadPool1) : List Call := tp.runing_head ++ tp.work_head

def Worker.running : Worker → List Call
  | .doJob call => [call]
  | _ => []

def Worker.executing : Worker → Bool
  | .batch | .doJob _ => true
  | _ => false

/-- The worker's private list holds jobs only during a batch; a worker that sleeps has
nothing to do, and one that has exited has left nothing. -/
structure Sound (tp : ThreadPool1) : Prop where
  executed : tp.accepted.Perm (tp.started ++ tp.queued)
  ordered : (∀ call ∈ tp.accepted, call.insert.tail) → tp.accepted = tp.started ++ tp.queued
  one : tp.started = tp.finished ++ tp.worker.running
  between : tp.worker.executing = false → tp.runing_head = []
  asleep : tp.worker = .waiting → tp.work_head = [] ∧ tp.state = .start
  exited : tp.worker = .exited → tp.work_head = [] ∧ tp.state = .stop
  joined : tp.freed = true → tp.worker = .exited

@[simp] theorem signal_running (worker : Worker) : (signal worker).running = worker.running := by
  cases worker <;> rfl

@[simp] theorem signal_executing (worker : Worker) : (signal worker).executing = worker.executing := by
  cases worker <;> rfl

@[simp] theorem signal_ne_waiting (worker : Worker) : signal worker ≠ .waiting := by
  cases worker <;> nofun

@[simp] theorem signal_exited (worker : Worker) : signal worker = .exited ↔ worker = .exited := by
  cases worker <;> simp [signal]

theorem insert_stopped (stopped : tp.state = .stop) (call : Call) :
    insert tp call = { tp with returned := tp.returned ++ [(call,false)] } := by
  cases tail : call.insert.tail <;> simp [insert,insertTail,insertHead,tail,stopped]

theorem insert_tail (started : tp.state = .start) (tail : call.insert.tail = true) : insert tp call =
    { tp with work_head := tp.work_head ++ [call], worker := signal tp.worker, returned := tp.returned ++ [(call,true)] } := by
  simp [insert,insertTail,tail,started]

theorem insert_head (started : tp.state = .start) (head : call.insert.tail = false) : insert tp call =
    { tp with work_head := call :: tp.work_head, worker := signal tp.worker, returned := tp.returned ++ [(call,true)] } := by
  simp [insert,insertHead,head,started]

@[simp] theorem insert_freed (tp : ThreadPool1) (call : Call) : (insert tp call).freed = tp.freed := by
  cases state : tp.state with
  | stop => rw [insert_stopped state]
  | start => cases tail : call.insert.tail <;> simp [insert_tail,insert_head,state,tail]

theorem insert_returned (tp : ThreadPool1) (call : Call) :
    ∃ rc, (insert tp call).returned = tp.returned ++ [(call,rc)] := ⟨_,rfl⟩

theorem accepted_true {tp tp' : ThreadPool1} (same : tp'.returned = tp.returned ++ [(call,true)]) : tp'.accepted = tp.accepted ++ [call] := by
  simp [ThreadPool1.accepted,same]

theorem accepted_false {tp tp' : ThreadPool1} (same : tp'.returned = tp.returned ++ [(call,false)]) : tp'.accepted = tp.accepted := by
  simp [ThreadPool1.accepted,same]

theorem insert_sound (sound : Sound tp) (call : Call) : Sound (insert tp call) := by
  cases state : tp.state with
  | stop =>
    rw [insert_stopped state]
    have same : ({ tp with returned := tp.returned ++ [(call,false)] } : ThreadPool1).accepted = tp.accepted :=
      accepted_false rfl
    constructor
    · rw [same]
      exact sound.executed
    · rw [same]
      exact sound.ordered
    · exact sound.one
    · exact sound.between
    · exact sound.asleep
    · exact sound.exited
    · exact sound.joined
  | start =>
    have working : tp.worker ≠ .exited := by
      intro exited
      have stopped := (sound.exited exited).2
      rw [state] at stopped
      cases stopped
    have linked (tp' : ThreadPool1) (returned : tp'.returned = tp.returned ++ [(call,true)])
        (started : tp'.started = tp.started) (finished : tp'.finished = tp.finished)
        (runing : tp'.runing_head = tp.runing_head) (worker : tp'.worker = signal tp.worker) (freed : tp'.freed = tp.freed)
        (executed : (tp.accepted ++ [call]).Perm (tp.started ++ tp'.queued))
        (ordered : call.insert.tail → tp'.queued = tp.queued ++ [call]) : Sound tp' := by
      have accepted := accepted_true returned
      constructor
      · rw [accepted,started]
        exact executed
      · intro tails
        rw [accepted] at tails ⊢
        have before := sound.ordered fun c member => tails c (List.mem_append_left _ member)
        have last := ordered (tails call (by simp))
        rw [started,last,before,List.append_assoc]
      · simpa [started,finished,worker] using sound.one
      · simpa [runing,worker] using sound.between
      · simp [worker]
      · simp [worker,working]
      · simpa [freed,worker] using sound.joined
    cases tail : call.insert.tail with
    | true =>
      rw [insert_tail state tail]
      have order : tp.runing_head ++ (tp.work_head ++ [call]) = tp.queued ++ [call] := (List.append_assoc _ _ _).symm
      refine linked _ rfl rfl rfl rfl rfl rfl ?_ fun _ => order
      change (tp.accepted ++ [call]).Perm (tp.started ++ (tp.runing_head ++ (tp.work_head ++ [call])))
      rw [order,← List.append_assoc]
      exact sound.executed.append_right [call]
    | false =>
      rw [insert_head state tail]
      refine linked _ rfl rfl rfl rfl rfl rfl ?_ (by simp [tail])
      have first : (call :: (tp.started ++ tp.queued)).Perm (tp.started ++ (tp.runing_head ++ call :: tp.work_head)) := by
        have middle : ((tp.started ++ tp.runing_head) ++ call :: tp.work_head).Perm
            (call :: ((tp.started ++ tp.runing_head) ++ tp.work_head)) := List.perm_middle
        simpa [ThreadPool1.queued,List.append_assoc] using middle.symm
      have last : (tp.accepted ++ [call]).Perm (call :: tp.accepted) := List.perm_append_singleton call tp.accepted
      exact last.trans ((sound.executed.cons call).trans first)

theorem listJoinTailInit_sound (sound : Sound tp) (idle : tp.worker = .testing ∨ tp.worker = .woken) :
    Sound (listJoinTailInit tp) := by
  have queued : (listJoinTailInit tp).queued = tp.queued := List.append_nil _
  have none_running : tp.worker.running = [] := by rcases idle with idle | idle <;> simp [idle,Worker.running]
  constructor
  · rw [queued]
    exact sound.executed
  · rw [queued]
    exact sound.ordered
  · have one := sound.one
    rwa [none_running] at one
  · nofun
  · nofun
  · nofun
  · intro freed
    have exited := sound.joined freed
    rcases idle with idle | idle <;> cases idle.symm.trans exited

theorem Sound.unfreed (sound : Sound tp) (working : tp.worker ≠ .exited) : tp.freed = false := by
  cases freed : tp.freed with
  | true => exact absurd (sound.joined freed) working
  | false => rfl

theorem threadPoolDoThread_sound (sound : Sound tp) (taken : threadPoolDoThread tp = some tp') : Sound tp' := by
  have one := sound.one
  cases worker : tp.worker with
  | testing =>
    rw [worker] at one
    by_cases empty : tp.work_head = []
    · simp only [threadPoolDoThread,worker,if_pos empty,Option.some.injEq] at taken
      subst taken
      have runing := sound.between (by rw [worker]; rfl)
      have unfreed := sound.unfreed (by simp [worker])
      cases state : tp.state with
      | start => exact ⟨sound.executed,sound.ordered,one,fun _ => runing,fun _ => ⟨empty,rfl⟩,by simp,by simp [unfreed]⟩
      | stop => exact ⟨sound.executed,sound.ordered,one,fun _ => runing,by simp,fun _ => ⟨empty,rfl⟩,fun _ => rfl⟩
    · simp only [threadPoolDoThread,worker,if_neg empty,Option.some.injEq] at taken
      subst taken
      exact listJoinTailInit_sound sound (.inl worker)
  | waiting => simp [threadPoolDoThread,worker] at taken
  | woken =>
    simp only [threadPoolDoThread,worker,Option.some.injEq] at taken
    subst taken
    exact listJoinTailInit_sound sound (.inr worker)
  | batch =>
    rw [worker] at one
    have unfreed := sound.unfreed (by simp [worker])
    cases runing : tp.runing_head with
    | nil =>
      simp only [threadPoolDoThread,worker,runing,Option.some.injEq] at taken
      subst taken
      have executed := sound.executed
      have ordered := sound.ordered
      rw [ThreadPool1.queued,runing] at executed ordered
      exact ⟨executed,ordered,one,fun _ => rfl,nofun,nofun,by simp [unfreed]⟩
    | cons job rest =>
      simp only [threadPoolDoThread,worker,runing,Option.some.injEq] at taken
      subst taken
      have moved : tp.started ++ tp.queued = (tp.started ++ [job]) ++ (rest ++ tp.work_head) := by
        simp [ThreadPool1.queued,runing]
      have all : tp.started = tp.finished := by simpa [Worker.running] using one
      refine ⟨?_,?_,?_,nofun,nofun,nofun,by simp [unfreed]⟩
      · change tp.accepted.Perm ((tp.started ++ [job]) ++ (rest ++ tp.work_head))
        rw [← moved]
        exact sound.executed
      · intro tails
        exact (sound.ordered tails).trans moved
      · exact congrArg (· ++ [job]) all
  | doJob job =>
    simp only [threadPoolDoThread,worker,Option.some.injEq] at taken
    subst taken
    rw [worker] at one
    have unfreed := sound.unfreed (by simp [worker])
    exact ⟨sound.executed,sound.ordered,by simpa [Worker.running] using one,nofun,nofun,nofun,by simp [unfreed]⟩
  | exited => simp [threadPoolDoThread,worker] at taken

theorem wake_sound (sound : Sound tp) (taken : wake tp = some tp') : Sound tp' := by
  by_cases waiting : tp.worker = .waiting
  · simp only [wake,if_pos waiting,Option.some.injEq] at taken
    subst taken
    have one := sound.one
    rw [waiting] at one
    have unfreed := sound.unfreed (by simp [waiting])
    have runing := sound.between (by rw [waiting]; rfl)
    exact ⟨sound.executed,sound.ordered,one,fun _ => runing,nofun,nofun,by simp [unfreed]⟩
  · simp [wake,waiting] at taken

theorem stop_sound (sound : Sound tp) : Sound (stop tp) := by
  refine ⟨sound.executed,sound.ordered,?_,?_,?_,?_,?_⟩
  · simpa [stop] using sound.one
  · simpa [stop] using sound.between
  · simp [stop]
  · simp only [stop,signal_exited]
    exact fun exited => ⟨(sound.exited exited).1,trivial⟩
  · simpa [stop] using sound.joined

theorem join_sound (sound : Sound tp) (taken : join tp = some tp') : Sound tp' := by
  by_cases exited : tp.worker = .exited
  · simp only [join,if_pos exited,Option.some.injEq] at taken
    subst taken
    exact ⟨sound.executed,sound.ordered,sound.one,sound.between,sound.asleep,sound.exited,fun _ => exited⟩
  · simp [join,exited] at taken

def ThreadPool1.left (tp : ThreadPool1) : Nat :=
  4 * tp.work_head.length + 2 * tp.runing_head.length + match tp.worker with
    | .waiting | .exited => 0
    | .testing => 1
    | .batch => 2
    | .woken | .doJob _ => 3

/-- A worker with nothing queued and nothing running has executed all that was accepted. -/
theorem Sound.executed_all (sound : Sound tp) (work : tp.work_head = []) (idle : tp.worker.executing = false) :
    tp.accepted.Perm tp.finished := by
  have executed := sound.executed
  have one := sound.one
  have queued : tp.queued = [] := by simp [ThreadPool1.queued,work,sound.between idle]
  have none_running : tp.worker.running = [] := by
    cases worker : tp.worker with
    | doJob call => simp [worker,Worker.executing] at idle
    | testing | waiting | woken | batch | exited => rfl
  rw [none_running,List.append_nil] at one
  rwa [queued,List.append_nil,one] at executed

/-- No wake-up is lost: as long as an accepted job is not finished, or the pool is stopped and
the worker has not exited, the worker's next step is possible and leaves less to do. -/
theorem Sound.progress (sound : Sound tp) : tp.worker = .exited ∨ (tp.state = .start ∧ tp.accepted.Perm tp.finished) ∨
    ∃ tp', threadPoolDoThread tp = some tp' ∧ tp'.left < tp.left := by
  cases worker : tp.worker with
  | testing =>
    right
    by_cases empty : tp.work_head = []
    · cases state : tp.state with
      | start => exact .inl ⟨rfl,sound.executed_all empty (by rw [worker]; rfl)⟩
      | stop =>
        right
        have next : threadPoolDoThread tp = some { tp with worker := .exited } := by
          simp [threadPoolDoThread,worker,empty,state]
        exact ⟨_,next,by simp [ThreadPool1.left,worker]⟩
    · right
      have runing := sound.between (by rw [worker]; rfl)
      have some_work : 0 < tp.work_head.length := List.length_pos_iff.mpr empty
      have next : threadPoolDoThread tp = some (listJoinTailInit tp) := by simp [threadPoolDoThread,worker,empty]
      refine ⟨_,next,?_⟩
      simp only [ThreadPool1.left,listJoinTailInit,worker,runing,List.length_append,List.length_nil]
      omega
  | waiting =>
    obtain ⟨empty,state⟩ := sound.asleep worker
    exact .inr (.inl ⟨state,sound.executed_all empty (by rw [worker]; rfl)⟩)
  | woken =>
    right
    right
    have next : threadPoolDoThread tp = some (listJoinTailInit tp) := by simp [threadPoolDoThread,worker]
    refine ⟨_,next,?_⟩
    simp only [ThreadPool1.left,listJoinTailInit,worker,List.length_append,List.length_nil]
    omega
  | batch =>
    right
    right
    cases runing : tp.runing_head with
    | nil =>
      have next : threadPoolDoThread tp = some { tp with worker := .testing } := by
        simp [threadPoolDoThread,worker,runing]
      exact ⟨_,next,by simp [ThreadPool1.left,worker]⟩
    | cons job rest =>
      have next : threadPoolDoThread tp =
          some { tp with runing_head := rest, worker := .doJob job, started := tp.started ++ [job] } := by
        simp [threadPoolDoThread,worker,runing]
      refine ⟨_,next,?_⟩
      simp only [ThreadPool1.left,worker,runing,List.length_cons]
      omega
  | doJob job =>
    right
    right
    have next : threadPoolDoThread tp = some { tp with worker := .batch, finished := tp.finished ++ [job] } := by
      simp [threadPoolDoThread,worker]
    exact ⟨_,next,by simp [ThreadPool1.left,worker]⟩
  | exited => exact .inl rfl

end Muti.ThreadPool
