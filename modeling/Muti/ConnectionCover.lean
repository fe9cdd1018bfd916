import Muti.ConnectionAccounts

/-! No stranded I/O. An IOContext in a job list is excused, is covered by a job that will take
the list, or its call is about to ask for one; every operation keeps that when a call
that leaves the asking to others is right to. -/
namespace Muti.Connection

open Muti.Lists Muti.Transition

/-- Nothing in a list is left to itself, but for what is excused. -/
def Covered (excused : State → Side → Nat → Prop) (s : State) : Prop :=
  ∀ side, ∀ io ∈ s.jobs_head side, excused s side io ∨ 0 < s.pending side ∨ 0 < total (announcing side io) s.threads

structure Moves (s : State) (op : Op) (s' : State) (ops : List Op) : Prop where
  listed : ∀ side, ∀ io ∈ s'.jobs_head side, io ∈ s.jobs_head side ∨ op = .listAddTail side io ∨
    ∃ head, op = .leave side head ∧ io ∈ head
  pending : ∀ side, s'.jobs_head side = [] ∨
    s.queued side + coming side op ≤ s'.queued side + (ops.map (coming side)).sum
  announced : ∀ side io, announcing side io op ≤ (ops.map (announcing side io)).sum ∨ op = .increment side (some io)
  added : ∀ side io, op = .listAddTail side io → 0 < (ops.map (announcing side io)).sum
  asked : ∀ side ioctx, op = .increment side ioctx → s.busy side = 0 → 0 < (ops.map (coming side)).sum

theorem transfer_moves (done : transfer s side head outcome = some (s',ops)) : Moves s (.work side head) s' ops := by
  cases head with
  | nil =>
    cases done
    constructor <;> simp
  | cons ioctx rest =>
    cases outcome with
    | full | wouldBlock =>
      cases done
      constructor <;> simp
    | short =>
      cases side <;> cases done <;> constructor <;> simp
    | error =>
      cases side <;> cases done <;> constructor <;> simp
    | _ => cases done

theorem exec_moves (done : exec s outcome op = some (s',ops)) : Moves s op s' ops := by
  cases op with
  | isClosed side =>
    by_cases closed : s.is_closed = 0
    · simp [exec,closed] at done
      obtain ⟨rfl,rfl⟩ := done
      constructor <;> simp
    · simp [exec,closed] at done
      obtain ⟨rfl,rfl⟩ := done
      constructor <;> simp
  | refer side ioctx | referJob side ioctx | socketIODone | onClose | start side | close | decrement side ioctx
  | testClosed side head =>
    cases done
    constructor <;> simp
  | polled side =>
    cases done
    constructor <;> simp
  | increment side ioctx =>
    cases done
    constructor <;> simp
    · intro x io
      by_cases mine : side = x ∧ ioctx = some io
      · exact .inr mine
      · simp [mine]
    · intro idle
      simp [idle]
  | insertTailHash side ioctx =>
    cases done
    constructor <;> simp
    intro x
    by_cases same : x = side
    · subst same
      simp
    · simp [same,Ne.symm same]
  | listAddTail side ioctx =>
    cases done
    constructor <;> simp
    intro x io inside
    rcases mem_setHead s side x _ io inside with ⟨rfl,member⟩ | ⟨_,member⟩
    · rcases List.mem_append.mp member with member | last
      · exact .inl member
      · exact .inr ⟨rfl,(List.mem_singleton.mp last).symm⟩
    · exact .inl member
  | take side =>
    cases done
    constructor <;> simp
    · intro x io inside
      rcases mem_setHead s side x _ io inside with ⟨_,member⟩ | ⟨_,member⟩
      · cases member
      · exact member
    · intro x
      by_cases same : x = side
      · subst same
        simp
      · simp [Ne.symm same]
  | work side head => exact transfer_moves done
  | leave side head =>
    cases done
    constructor <;> simp
    intro x io inside
    rcases mem_setHead s side x _ io inside with ⟨rfl,member⟩ | ⟨_,member⟩
    · rcases List.mem_append.mp member with given | member
      · exact .inr ⟨rfl,given⟩
      · exact .inl member
    · exact .inl member
  | callback side ioctx rc =>
    cases outcome with
    | calls sides =>
      cases done
      constructor <;> simp
    | _ => cases done
  | postIOJobs side =>
    cases done
    constructor <;> simp
    intro x io inside
    rcases mem_setHead s side x _ io inside with ⟨_,member⟩ | ⟨_,member⟩
    · cases member
    · exact member

/-- The next operation does not leave an IOContext behind: a call that finds the counter
raised has its own excused, or covered, and so has a job that puts back what is left. -/
def Proper (excused : State → Side → Nat → Prop) (s s' : State) : Op → Prop
  | .increment side (some io) => s.busy side ≠ 0 → io ∈ s.jobs_head side → excused s' side io ∨ 0 < s.pending side
  | .leave side head => ∀ io ∈ head, excused s' side io ∨ 0 < s.pending side
  | _ => True

/-- A thread's operation keeps what is covered covered. -/
theorem Moves.covered {i : Nat} (moves : Moves s op s' ops) (covered : Covered excused s)
    (here : s.threads[i]? = some (op :: rest)) (proper : Proper excused s { s' with threads := s.threads.set i (ops ++ rest) } op)
    (kept : ∀ side, ∀ io ∈ s.jobs_head side, io ∈ s'.jobs_head side → excused s side io →
      excused { s' with threads := s.threads.set i (ops ++ rest) } side io) :
    Covered excused { s' with threads := s.threads.set i (ops ++ rest) } := by
  intro side io inside
  replace inside : io ∈ s'.jobs_head side := inside
  have comes := total_advance (coming side) here ops
  have announces := total_advance (announcing side io) here ops
  have stays : 0 < s.pending side → 0 < s'.queued side + total (coming side) (s.threads.set i (ops ++ rest)) := by
    intro waits
    rcases moves.pending side with empty | more
    · simp [empty] at inside
    · simp only [State.pending] at waits
      omega
  rcases moves.listed side io inside with older | added | ⟨head,left,given⟩
  · rcases covered side io older with excuse | waits | announced
    · exact .inl (kept side io older inside excuse)
    · exact .inr (.inl (stays waits))
    · rcases moves.announced side io with more | asks
      · refine .inr (.inr ?_)
        change 0 < total (announcing side io) (s.threads.set i (ops ++ rest))
        omega
      · subst asks
        by_cases idle : s.busy side = 0
        · have asked := moves.asked side _ rfl idle
          refine .inr (.inl ?_)
          change 0 < s'.queued side + total (coming side) (s.threads.set i (ops ++ rest))
          simp at comes
          omega
        · rcases proper idle older with excuse | waits
          · exact .inl excuse
          · exact .inr (.inl (stays waits))
  · have announced := moves.added side io added
    refine .inr (.inr ?_)
    change 0 < total (announcing side io) (s.threads.set i (ops ++ rest))
    subst added
    simp at announces
    omega
  · subst left
    rcases proper io given with excuse | waits
    · exact .inl excuse
    · exact .inr (.inl (stays waits))

theorem Covered.spawn (covered : Covered excused s) (op : Op) (heads : s'.jobs_head = s.jobs_head)
    (threads : s'.threads = s.threads) (waits : ∀ side, s.queued side ≤ s'.queued side + coming side op)
    (kept : ∀ side, ∀ io ∈ s.jobs_head side, excused s side io → excused (spawn s' op) side io) :
    Covered excused (spawn s' op) := by
  intro side io inside
  replace inside : io ∈ s'.jobs_head side := inside
  rw [heads] at inside
  have comes := total_spawn (coming side) s.threads op
  have announces := total_spawn (announcing side io) s.threads op
  rcases covered side io inside with excuse | pending | announced
  · exact .inl (kept side io inside excuse)
  · have more := waits side
    refine .inr (.inl ?_)
    change 0 < s'.queued side + total (coming side) (s'.threads ++ [[op]])
    simp only [State.pending] at pending
    rw [threads]
    omega
  · refine .inr (.inr ?_)
    change 0 < total (announcing side io) (s'.threads ++ [[op]])
    rw [threads]
    omega

/-- A step keeps what is covered covered, if its operation leaves nothing behind. -/
theorem step_covered (covered : Covered excused s) (taken : step s a = some s')
    (kept : ∀ side, ∀ io ∈ s.jobs_head side, io ∈ s'.jobs_head side → excused s side io → excused s' side io)
    (proper : ∀ thread outcome op rest, a = .run thread outcome → s.threads[thread]? = some (op :: rest) →
      Proper excused s s' op) : Covered excused s' := by
  cases a with
  | call side | epoll side | close =>
    cases taken
    exact covered.spawn _ rfl rfl (fun _ => Nat.le_add_right _ _) fun side io inside => kept side io inside inside
  | doJob side =>
    simp only [step,Option.ite_none_right_eq_some] at taken
    obtain ⟨waits,taken⟩ := taken
    cases taken
    refine covered.spawn (.start side) rfl rfl ?_ fun side io inside => kept side io inside inside
    intro x
    by_cases same : x = side
    · subst same
      simp
      omega
    · simp [same]
  | run thread outcome =>
    obtain ⟨op,rest,s',ops,here,done,rfl⟩ := step_run taken
    exact (exec_moves done).covered covered here (proper thread outcome op rest rfl here) kept

@[simp] def inside (side : Side) : Op → Nat
  | .isClosed x | .refer x _ | .listAddTail x _ | .polled x | .increment x _ | .decrement x _ | .referJob x _
  | .insertTailHash x _ | .start x | .take x | .testClosed x _ | .work x _ | .leave x _ | .callback x _ _ => on side x
  | .socketIODone | .close | .postIOJobs _ | .onClose => 0

/-- No thread is inside the side's functions, and no job of it waits. -/
def State.Idle (s : State) (side : Side) : Prop := s.queued side = 0 ∧ total (inside side) s.threads = 0

/-- A call finds the counter raised by others only, with no job among them that will take its
IOContext, still in the list. -/
def Overtakes (s : State) : Op → Prop
  | .increment side (some io) => s.busy side ≠ 0 ∧ io ∈ s.jobs_head side ∧ s.parked io = false ∧ s.pending side = 0
  | _ => False

def Attended (s : State) : Action → Prop
  | .run thread _ => ∀ ops ∈ s.threads[thread]?, ∀ op ∈ ops.head?, ¬Overtakes s op
  | _ => True

instance (s : State) : (op : Op) → Decidable (Overtakes s op)
  | .increment side (some io) =>
    inferInstanceAs (Decidable (s.busy side ≠ 0 ∧ io ∈ s.jobs_head side ∧ s.parked io = false ∧ s.pending side = 0))
  | .increment _ none | .isClosed _ | .refer _ _ | .listAddTail _ _ | .polled _ | .decrement _ _ | .referJob _ _
  | .insertTailHash _ _ | .start _ | .take _ | .testClosed _ _ | .work _ _ | .leave _ _ | .callback _ _ _
  | .socketIODone | .close | .postIOJobs _ | .onClose => inferInstanceAs (Decidable False)

instance (s : State) : (a : Action) → Decidable (Attended s a)
  | .run thread _ => inferInstanceAs (Decidable (∀ ops ∈ s.threads[thread]?, ∀ op ∈ ops.head?, ¬Overtakes s op))
  | .call _ | .epoll _ | .doJob _ | .close => inferInstanceAs (Decidable True)

/-- What an operation leaves as it is: what is parked stays so, and a side is closed and
drained only by its closer. -/
structure Keeps (s : State) (op : Op) (s' : State) (ops : List Op) : Prop where
  parked : ∀ io, s.parked io = true → s'.parked io = true
  opened : ∀ side, s.is_closed = 0 → s'.is_closed = 0 ∨ 0 < (ops.map (draining side)).sum
  drains : ∀ side, draining side op ≤ (ops.map (draining side)).sum ∨ s'.jobs_head side = []

theorem transfer_keeps (done : transfer s side head outcome = some (s',ops)) : Keeps s (.work side head) s' ops := by
  cases head with
  | nil =>
    cases done
    constructor <;> simp +contextual
  | cons ioctx rest =>
    cases outcome with
    | full | wouldBlock =>
      cases done
      constructor <;> simp +contextual
    | short | error =>
      cases side <;> cases done <;> constructor <;> simp +contextual
    | _ => cases done

theorem exec_keeps (done : exec s outcome op = some (s',ops)) : Keeps s op s' ops := by
  cases op with
  | isClosed side =>
    by_cases closed : s.is_closed = 0
    · simp [exec,closed] at done
      obtain ⟨rfl,rfl⟩ := done
      constructor <;> simp [closed]
    · simp [exec,closed] at done
      obtain ⟨rfl,rfl⟩ := done
      constructor <;> simp
  | refer side ioctx | referJob side ioctx | socketIODone | onClose | start side | decrement side ioctx
  | testClosed side head | polled side | increment side ioctx | insertTailHash side ioctx | listAddTail side ioctx
  | take side | leave side head =>
    cases done
    constructor <;> simp +contextual [State.count,State.setHead,State.returns]
  | close =>
    cases done
    constructor <;> simp +contextual
    intro side
    cases side <;> simp
  | work side head => exact transfer_keeps done
  | callback side ioctx rc =>
    cases outcome with
    | calls sides =>
      cases done
      constructor <;> simp +contextual
    | _ => cases done
  | postIOJobs side =>
    cases done
    constructor <;> simp +contextual [State.setHead]
    intro x
    by_cases same : x = side
    · exact .inr (by simp [same])
    · exact .inl (by simp [Ne.symm same])

theorem step_parked (taken : step s a = some s') (parked : s.parked io = true) : s'.parked io = true := by
  cases a with
  | call side | epoll side | close =>
    cases taken
    exact parked
  | doJob side =>
    simp only [step,Option.ite_none_right_eq_some] at taken
    obtain ⟨waits,taken⟩ := taken
    cases taken
    exact parked
  | run thread outcome =>
    obtain ⟨op,rest,s',ops,here,done,rfl⟩ := step_run taken
    exact (exec_keeps done).parked io parked

theorem leave_parked {i : Nat} (taken : step s (.run i outcome) = some s')
    (here : s.threads[i]? = some (.leave side head :: rest)) : ∀ io ∈ head, s'.parked io = true := by
  simp only [step,here,exec,Option.map_some,Option.some.injEq] at taken
  subst taken
  intro io given
  simp [given]

theorem step_attended (covered : Covered (fun s _ io => s.parked io = true) s) (attended : Attended s a)
    (taken : step s a = some s') : Covered (fun s _ io => s.parked io = true) s' := by
  apply step_covered covered taken
  · intro side io _ _ parked
    exact step_parked taken parked
  · intro thread outcome op rest run here
    subst run
    cases op with
    | increment side ioctx =>
      cases ioctx with
      | none => trivial
      | some io =>
        intro raised inside
        have shown := attended _ here _ rfl
        by_cases parked : s.parked io = true
        · exact .inl (step_parked taken parked)
        · refine .inr (Nat.pos_of_ne_zero fun none => shown ⟨raised,inside,?_,none⟩)
          simpa using parked
    | leave side head =>
      intro io given
      exact .inl (leave_parked taken here io given)
    | _ => trivial

theorem watching_le (side : Side) (io : Nat) (op : Op) : coming side op + announcing side io op ≤ inside side op := by
  cases op <;> simp
  split <;> simp_all

/-- With nobody inside a side's functions, and no job of it waiting, whatever is in its list
was put back by a job that met a short or a would-block result. -/
theorem no_stranded_io (reachable : Reachable step Attended createConnection s) (side : Side) (idle : s.Idle side) :
    ∀ io ∈ s.jobs_head side, s.parked io = true := by
  have start : Covered (fun s _ io => s.parked io = true) createConnection := by simp [Covered,createConnection]
  have covered := reachable.invariant start fun _ _ _ covered attended taken => step_attended covered attended taken
  intro io inside
  obtain ⟨unqueued,outside⟩ := idle
  have watched := total_mono (watching_le side io) s.threads
  rw [total_add] at watched
  rcases covered side io inside with parked | pending | announced
  · exact parked
  · simp only [State.pending] at pending
    omega
  · omega

/-- Two writers share a job, which sends one buffer and a part of the other. -/
def sharedJob : List Action :=
  [.call .write,.call .write,.run 0 .nothing,.run 0 .nothing,.run 0 .nothing,.run 0 .nothing,.run 0 .nothing,
    .run 1 .nothing,.run 1 .nothing,.run 1 .nothing,.run 1 .nothing,.run 0 .nothing,.run 1 .nothing,
    .doJob .write,.run 2 .nothing,.run 2 .nothing,.run 2 .nothing,.run 2 .full,.run 2 (.calls []),.run 2 .nothing,
    .run 2 .short,.run 2 .nothing,.run 2 .nothing]

theorem no_stranded_io_shared :
    ∃ s, execute step createConnection sharedJob = some s ∧ 1 ∈ s.jobs_head .write ∧ s.parked 1 = true := by
  have permitted : Permitted step Attended createConnection sharedJob := by decide +kernel
  have reachable := Reachable.start.execute sharedJob permitted rfl
  exact ⟨_,rfl,by decide,no_stranded_io reachable .write ⟨rfl,rfl⟩ 1 (by decide)⟩

/-- A third writer comes after the job has taken the list, while the second one, which had
left the job to the first, has not lowered the counter. -/
def overtaken : List Action :=
  [.call .write,.call .write,.call .write,.run 0 .nothing,.run 0 .nothing,.run 0 .nothing,.run 0 .nothing,.run 0 .nothing,
    .run 0 .nothing,.run 1 .nothing,.run 1 .nothing,.run 1 .nothing,.run 1 .nothing,
    .doJob .write,.run 3 .nothing,.run 3 .nothing,
    .run 2 .nothing,.run 2 .nothing,.run 2 .nothing,.run 2 .nothing,.run 1 .nothing,.run 2 .nothing,
    .run 3 .nothing,.run 3 .full,.run 3 (.calls []),.run 3 .nothing,.run 3 .full,.run 3 (.calls []),.run 3 .nothing,
    .run 3 .nothing,.run 3 .nothing,.run 3 .nothing]

/-- Its IOContext is left in the list, on an open connection, and nothing will look at it. -/
theorem stranded_io : ∃ s, Reachable step (fun _ _ => True) createConnection s ∧ s.is_closed = 0 ∧ s.Idle .write ∧
    2 ∈ s.jobs_head .write ∧ s.parked 2 = false := by
  exact ⟨_,Reachable.start.run overtaken rfl,rfl,⟨rfl,rfl⟩,by decide,rfl⟩

end Muti.Connection
