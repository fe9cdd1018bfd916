import Muti.ConnectionAccounts

/-! A side's job is queued at most once. Its counter is the number of jobs on their way to a
start and of threads that have raised it for a while; only who raises it from zero inserts
the job, and then no other one is on its way. -/
namespace Muti.Connection

open Muti.Transition

/-- A job its pool has unlinked, before `socketDoRead` or `socketDoWrite` lowers the counter. -/
@[simp] def unlinked (side : Side) : Op → Nat
  | .start s => on side s
  | _ => 0

@[simp] def entering (side : Side) : Op → Nat
  | .referJob s _ | .insertTailHash s _ => on side s
  | _ => 0

/-- A thread that raised the counter for nothing and will lower it. -/
@[simp] def lowering (side : Side) : Op → Nat
  | .decrement s _ => on side s
  | _ => 0

def State.waiting (s : State) (side : Side) : Nat := s.queued side + total (unlinked side) s.threads

/-- The threads between their increment and its decrement or the insertion. -/
def State.between (s : State) (side : Side) : Nat :=
  total (entering side) s.threads + total (lowering side) s.threads

structure Jobs (s : State) : Prop where
  busy : ∀ side, s.busy side = s.waiting side + s.between side
  once : ∀ side, s.waiting side + total (entering side) s.threads ≤ 1

structure Counts (s : State) (op : Op) (s' : State) (ops : List Op) (side : Side) : Prop where
  busy : s'.busy side + (s.queued side + unlinked side op + entering side op + lowering side op : Nat) =
    s.busy side + (s'.queued side + (ops.map (unlinked side)).sum + (ops.map (entering side)).sum +
      (ops.map (lowering side)).sum : Nat)
  once : s'.queued side + (ops.map (unlinked side)).sum + (ops.map (entering side)).sum ≤
    s.queued side + unlinked side op + entering side op + if s.busy side = 0 then 1 else 0

@[simp] theorem count_busy (s : State) (side x : Side) (change : Int) :
    (s.count side change).busy x = s.busy x + if side = x then change else 0 := by
  by_cases same : side = x
  · subst same
    simp [State.count]
  · simp [State.count,same,Ne.symm same]

@[simp] theorem setHead_busy (s : State) (side : Side) (head : List Nat) : (s.setHead side head).busy = s.busy := rfl

@[simp] theorem returns_busy (s : State) (ioctx : Option Nat) : (s.returns ioctx).busy = s.busy := rfl

/-- An operation that has nothing to do with the counters. -/
theorem Counts.apart (busy : s'.busy = s.busy) (queued : s'.queued = s.queued)
    (before : unlinked x op + entering x op + lowering x op = 0)
    (after : (ops.map (unlinked x)).sum + (ops.map (entering x)).sum + (ops.map (lowering x)).sum = 0) :
    Counts s op s' ops x := by
  constructor
  · rw [busy,queued]
    omega
  · rw [queued]
    omega

theorem transfer_counts (done : transfer s side head outcome = some (s',ops)) (x : Side) :
    Counts s (.work side head) s' ops x := by
  cases head with
  | nil =>
    cases done
    exact .apart rfl rfl rfl (by simp)
  | cons ioctx rest =>
    cases outcome with
    | full | wouldBlock =>
      cases done
      exact .apart rfl rfl rfl (by simp)
    | short | error =>
      cases side <;> cases done <;> exact .apart rfl rfl rfl (by simp [closed,Function.comp_def])
    | _ => cases done

theorem exec_counts (done : exec s outcome op = some (s',ops)) (x : Side) : Counts s op s' ops x := by
  cases op with
  | isClosed side =>
    by_cases closed : s.is_closed = 0
    · simp [exec,closed] at done
      obtain ⟨rfl,rfl⟩ := done
      exact .apart rfl rfl rfl (by simp)
    · simp [exec,closed] at done
      obtain ⟨rfl,rfl⟩ := done
      exact .apart rfl rfl rfl (by simp)
  | refer side ioctx | socketIODone | onClose | listAddTail side ioctx | take side | leave side head =>
    cases done
    exact .apart rfl rfl rfl (by simp)
  | polled side =>
    cases done
    refine .apart rfl rfl rfl ?_
    by_cases idle : s.busy side = 0 <;> simp [idle]
  | increment side ioctx =>
    cases done
    by_cases mine : side = x
    · subst mine
      by_cases idle : s.busy side = 0 <;> constructor <;> simp [idle] <;> omega
    · by_cases idle : s.busy side = 0 <;> constructor <;> simp [idle,mine]
  | decrement side ioctx | start side =>
    cases done
    by_cases mine : side = x <;> constructor <;> simp [mine] <;> omega
  | referJob side ioctx =>
    cases done
    constructor <;> simp
  | insertTailHash side ioctx =>
    cases done
    by_cases mine : side = x
    · subst mine
      constructor <;> simp
    · constructor <;> simp [mine,Ne.symm mine]
  | testClosed side head =>
    cases done
    refine .apart rfl rfl rfl ?_
    by_cases opened : s.is_closed = 0 <;> simp [opened,closed,Function.comp_def]
  | close =>
    cases done
    refine .apart rfl rfl rfl ?_
    by_cases opened : s.is_closed = 0 <;> simp [opened]
  | work side head => exact transfer_counts done x
  | callback side ioctx rc =>
    cases outcome with
    | calls sides =>
      cases done
      exact .apart rfl rfl rfl (by simp [Function.comp_def])
    | _ => cases done
  | postIOJobs side =>
    cases done
    exact .apart rfl rfl rfl (by simp [Function.comp_def])

theorem Counts.jobs {i : Nat} (counts : ∀ side, Counts s op s' ops side) (jobs : Jobs s)
    (here : s.threads[i]? = some (op :: rest)) : Jobs { s' with threads := s.threads.set i (ops ++ rest) } where
  busy := by
    intro side
    have before := jobs.busy side
    have counted := (counts side).busy
    have leaves := total_advance (unlinked side) here ops
    have inserts := total_advance (entering side) here ops
    have lowers := total_advance (lowering side) here ops
    simp only [State.waiting,State.between] at before ⊢
    omega
  once := by
    intro side
    have before := jobs.busy side
    have short := jobs.once side
    have counted := (counts side).once
    have leaves := total_advance (unlinked side) here ops
    have inserts := total_advance (entering side) here ops
    simp only [State.waiting,State.between] at before short ⊢
    by_cases idle : s.busy side = 0
    · rw [if_pos idle] at counted
      omega
    · rw [if_neg idle] at counted
      omega

/-- A thread that starts may be a job that its pool has unlinked. -/
theorem Jobs.spawn (jobs : Jobs s) (op : Op) (busy : s'.busy = s.busy) (threads : s'.threads = s.threads)
    (moved : ∀ side, s'.queued side + unlinked side op = s.queued side)
    (outside : ∀ side, entering side op + lowering side op = 0) : Jobs (spawn s' op) := by
  have leaves := fun side => total_spawn (unlinked side) s.threads op
  have inserts := fun side => total_spawn (entering side) s.threads op
  have lowers := fun side => total_spawn (lowering side) s.threads op
  constructor
  · intro side
    have before := jobs.busy side
    have same := moved side
    have none := outside side
    simp only [State.waiting,State.between,Connection.spawn,busy,threads,leaves,inserts,lowers] at before ⊢
    omega
  · intro side
    have short := jobs.once side
    have same := moved side
    have none := outside side
    simp only [State.waiting,Connection.spawn,threads,leaves,inserts] at short ⊢
    omega

theorem step_jobs (jobs : Jobs s) (taken : step s a = some s') : Jobs s' := by
  cases a with
  | call side | epoll side | close =>
    cases taken
    exact jobs.spawn _ rfl rfl (fun _ => rfl) fun _ => rfl
  | doJob side =>
    simp only [step,Option.ite_none_right_eq_some] at taken
    obtain ⟨waits,taken⟩ := taken
    cases taken
    refine jobs.spawn (.start side) rfl rfl ?_ fun _ => rfl
    intro x
    by_cases same : x = side
    · subst same
      simp
      omega
    · simp [same,Ne.symm same]
  | run thread outcome =>
    obtain ⟨op,rest,s',ops,here,done,rfl⟩ := step_run taken
    exact Counts.jobs (exec_counts done) jobs here

theorem reachable_jobs (reachable : Reachable step (fun _ _ => True) createConnection s) : Jobs s := by
  have start : Jobs createConnection := by constructor <;> intro side <;> simp [State.waiting,State.between,createConnection]
  exact reachable.invariant start fun _ _ _ jobs _ taken => step_jobs jobs taken

/-- Whoever inserts a job finds it in no list. -/
theorem Jobs.unqueued {i : Nat} (jobs : Jobs s) (here : s.threads[i]? = some (op :: rest))
    (inserts : entering side op = 1) : s.waiting side = 0 := by
  have share := weight_le_total (entering side) here
  have short := jobs.once side
  omega

/-- The counter of a side is the number of its queued and not yet started jobs and of the
threads between increment and decrement or insertion, and a job is inserted only when it is
not linked. -/
theorem job_queued_once (reachable : Reachable step (fun _ _ => True) createConnection s) (side : Side) :
    s.busy side = s.waiting side + s.between side ∧ s.queued side ≤ 1 ∧
    ∀ (i : Nat) op rest, s.threads[i]? = some (op :: rest) → entering side op = 1 → s.queued side = 0 := by
  have jobs := reachable_jobs reachable
  refine ⟨jobs.busy side,?_,?_⟩
  · have short := jobs.once side
    simp only [State.waiting] at short
    omega
  · intro i op rest here inserts
    have none := jobs.unqueued here inserts
    simp only [State.waiting] at none
    omega

/-- Two readers: the first one inserts the job, the second one has raised the counter for nothing,
and an epoll event finds it raised. -/
def twoReaders : List Action :=
  [.call .read,.call .read,.epoll .read,.run 0 .nothing,.run 0 .nothing,.run 0 .nothing,.run 1 .nothing,.run 1 .nothing,
    .run 1 .nothing,.run 0 .nothing,.run 1 .nothing,.run 2 .nothing]

theorem job_queued_once_readers : ∃ s, execute step createConnection twoReaders = some s ∧
    s.threads = [[.referJob .read (some 0)],[.decrement .read (some 1)],[]] ∧
    s.busy .read = s.waiting .read + s.between .read ∧ s.queued .read = 0 := by
  have counted := job_queued_once (Reachable.start.run twoReaders rfl) .read
  exact ⟨_,rfl,rfl,counted.1,counted.2.2 0 _ _ rfl rfl⟩

end Muti.Connection
