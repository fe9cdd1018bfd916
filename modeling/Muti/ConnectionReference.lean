import Muti.ConnectionAccounts

/-! The references of a connection. Every increment of `ref` is for something that can be
pointed at, an IOContext, a job or the connection while it is not closed, and its
decrement is the last that is done for it. -/
namespace Muti.Connection

open Muti.Transition

/-- The references that are released behind an operation: its job's, and one for each IOContext in hand. -/
@[simp] def share : Op → Nat
  | .listAddTail _ _ | .callback _ _ _ | .insertTailHash _ _ | .start _ | .take _ | .socketIODone => 1
  | .testClosed _ head | .work _ head | .leave _ head => head.length + 1
  | _ => 0

@[simp] def closing : Op → Nat
  | .onClose => 1
  | _ => 0

def opened (is_closed : Nat) : Nat := if is_closed = 0 then 1 else 0

def State.standing (s : State) : Nat :=
  opened s.is_closed + (s.jobs_head .read).length + (s.jobs_head .write).length + s.queued .read + s.queued .write

/-- The last operations of the threads that have a reference of their own, a job's or the closer's. -/
def guards : Op → Bool
  | .start _ | .take _ | .testClosed _ _ | .work _ _ | .leave _ _ | .socketIODone => true
  | _ => false

/-- What such a thread does before its last operation. -/
def enclosed : Op → Bool
  | .isClosed _ | .refer _ _ | .listAddTail _ _ | .increment _ _ | .decrement _ _ | .referJob _ _ | .insertTailHash _ _
  | .callback _ _ _ | .socketIODone | .postIOJobs _ | .onClose => true
  | _ => false

/-- A call from outside every callback, an epoll event, or a closer that has not begun. -/
def outside : Op → Bool
  | .isClosed _ | .refer _ _ | .listAddTail _ _ | .polled _ | .increment _ _ | .decrement _ _ | .referJob _ _
  | .insertTailHash _ _ | .close => true
  | _ => false

/-- A thread is over, has one operation to do from outside, or ends with one that has a reference. -/
inductive Shaped : List Op → Prop
  | ended : Shaped []
  | call (op : Op) (calls : outside op = true) : Shaped [op]
  | held (front : List Op) (last : Op) (before : ∀ op ∈ front, enclosed op = true) (guard : guards last = true) :
    Shaped (front ++ [last])

/-- What is called from outside the callbacks begins before `onClose` returns, and is over then. -/
def Promised (s : State) : Action → Prop
  | .call _ | .epoll _ | .close => s.onClosed = 0
  | .run thread _ => s.threads[thread]?.bind List.head? = some .onClose →
    ∀ ops ∈ s.threads, ∀ op ∈ ops.getLast?, outside op = false
  | .doJob _ => True

structure References (s : State) : Prop where
  account : s.ref = (s.standing + total share s.threads : Nat)
  closes : total closing s.threads + s.onClosed + opened s.is_closed = 1
  shaped : ∀ ops ∈ s.threads, Shaped ops
  finished : s.onClosed ≠ 0 → ∀ ops ∈ s.threads, ∀ op ∈ ops.getLast?, outside op = false
  released : s.released = true ↔ s.ref = 0

theorem guards_share (guard : guards op = true) : 0 < share op := by
  cases op <;> simp_all [guards]

/-- A thread with no reference has nothing to do, or one operation from outside. -/
theorem Shaped.unshared (shaped : Shaped ops) (none : (ops.map share).sum = 0) :
    ops = [] ∨ ∃ op, ops = [op] ∧ outside op = true := by
  cases shaped with
  | ended => exact .inl rfl
  | call op calls => exact .inr ⟨op,rfl,calls⟩
  | held front last before guard =>
    have one := guards_share guard
    have mine : share last = 0 := by
      simp at none
      exact none.2
    omega

@[simp] theorem standing_count (s : State) (side : Side) (change : Int) : (s.count side change).standing = s.standing := rfl

@[simp] theorem standing_returns (s : State) (ioctx : Option Nat) : (s.returns ioctx).standing = s.standing := rfl

theorem standing_setHead (s : State) (side : Side) (head : List Nat) :
    (s.setHead side head).standing + (s.jobs_head side).length = s.standing + head.length := by
  cases side <;> simp [State.standing,State.setHead] <;> omega

theorem standing_queued (s : State) (side : Side) (queued : Nat) :
    { s with queued := Function.update s.queued side queued }.standing + s.queued side = s.standing + queued := by
  cases side <;> simp [State.standing] <;> omega

/-- An operation changes `ref` by what it takes up and leaves behind. -/
def Balanced (s : State) (op : Op) (s' : State) (ops : List Op) : Prop :=
  s'.ref + ((s.standing + share op : Nat) : Int) = s.ref + ((s'.standing + (ops.map share).sum : Nat) : Int)

theorem closed_share (side : Side) (head : List Nat) : ((closed side head).map share).sum = head.length + 1 := by
  simp [closed,Function.comp_def]

theorem transfer_balanced (done : transfer s side head outcome = some (s',ops)) :
    Balanced s (.work side head) s' ops := by
  cases head with
  | nil =>
    cases done
    simp [Balanced]
  | cons ioctx rest =>
    cases outcome with
    | full =>
      cases done
      simp [Balanced]
      omega
    | wouldBlock =>
      cases done
      simp [Balanced]
    | short =>
      cases side <;> cases done <;> simp [Balanced]
      omega
    | error =>
      cases side <;> cases done <;> simp [Balanced,closed_share,State.standing]
    | _ => cases done

theorem exec_balanced (done : exec s outcome op = some (s',ops)) : Balanced s op s' ops := by
  cases op with
  | isClosed side =>
    by_cases closed : s.is_closed = 0
    · simp [exec,closed] at done
      obtain ⟨rfl,rfl⟩ := done
      simp [Balanced,State.standing,closed]
    · simp [exec,closed] at done
      obtain ⟨rfl,rfl⟩ := done
      simp [Balanced]
  | refer side ioctx | referJob side ioctx =>
    cases done
    simp [Balanced,State.standing]
    omega
  | socketIODone | onClose =>
    cases done
    simp [Balanced,State.standing]
  | listAddTail side ioctx =>
    cases done
    have added := standing_setHead s side (s.jobs_head side ++ [ioctx])
    simp [Balanced] at added ⊢
    change s.ref + _ = _
    omega
  | polled side =>
    cases done
    simp [Balanced]
    split <;> simp
  | increment side ioctx =>
    cases done
    simp [Balanced]
    change s.ref + _ = _
    split <;> simp
  | decrement side ioctx | start side =>
    cases done
    simp [Balanced]
    rfl
  | insertTailHash side ioctx =>
    cases done
    have waits := standing_queued s side (s.queued side + 1)
    simp [Balanced]
    change s.ref + _ = _
    omega
  | take side =>
    cases done
    have emptied := standing_setHead s side []
    simp [Balanced] at emptied ⊢
    change s.ref + _ = _
    omega
  | testClosed side head =>
    cases done
    have shares : ((if s.is_closed ≠ 0 then closed side head else [Op.work side head]).map share).sum = head.length + 1 := by
      split
      · exact closed_share side head
      · rfl
    rw [Balanced,shares]
    rfl
  | work side head => exact transfer_balanced done
  | leave side head =>
    cases done
    have joined := standing_setHead s side (head ++ s.jobs_head side)
    simp [Balanced,State.standing] at joined ⊢
    change s.ref + _ = _
    omega
  | callback side ioctx rc =>
    cases outcome with
    | calls sides =>
      cases done
      simp [Balanced,State.standing,Function.comp_def]
    | _ => cases done
  | close =>
    cases done
    by_cases first : s.is_closed = 0
    · simp [Balanced,State.standing,opened,first]
      omega
    · simp [Balanced,State.standing,opened,first]
  | postIOJobs side =>
    cases done
    have emptied := standing_setHead s side []
    simp [Balanced,Function.comp_def] at emptied ⊢
    change s.ref + _ = _
    omega

/-- Only the first closer calls `onClose`. -/
theorem exec_closes (done : exec s outcome op = some (s',ops)) :
    s'.onClosed = s.onClosed + closing op ∧ (ops.map closing).sum + opened s'.is_closed = opened s.is_closed := by
  cases op with
  | isClosed side =>
    by_cases closed : s.is_closed = 0
    · simp [exec,closed] at done
      obtain ⟨rfl,rfl⟩ := done
      simp [closed]
    · simp [exec,closed] at done
      obtain ⟨rfl,rfl⟩ := done
      simp
  | refer side ioctx | referJob side ioctx | socketIODone | listAddTail side ioctx | decrement side ioctx | start side
  | insertTailHash side ioctx | take side | leave side head =>
    cases done
    simp [State.setHead,State.count,State.returns]
  | onClose =>
    cases done
    simp
  | polled side | increment side ioctx | testClosed side head =>
    cases done
    split <;> simp [State.count,closed,Function.comp_def]
  | work side head =>
    cases head with
    | nil =>
      cases done
      simp
    | cons ioctx rest =>
      cases outcome with
      | full | wouldBlock =>
        cases done
        simp
      | short =>
        cases side <;> cases done <;> simp
      | error =>
        cases side <;> cases done <;> simp [closed,Function.comp_def]
      | _ => cases done
  | callback side ioctx rc =>
    cases outcome with
    | calls sides =>
      cases done
      simp [Function.comp_def]
    | _ => cases done
  | close =>
    cases done
    by_cases first : s.is_closed = 0
    · simp [opened,first]
    · simp [opened,first]
  | postIOJobs side =>
    cases done
    simp [State.setHead,Function.comp_def]

theorem exec_enclosed (done : exec s outcome op = some (s',ops)) (within : enclosed op = true) :
    ∀ next ∈ ops, enclosed next = true := by
  cases op with
  | isClosed side =>
    by_cases closed : s.is_closed = 0
    · simp [exec,closed] at done
      simp [← done.2,enclosed]
    · simp [exec,closed] at done
      simp [done.2]
  | increment side ioctx =>
    cases done
    split <;> simp [enclosed]
  | callback side ioctx rc =>
    cases outcome with
    | calls sides =>
      cases done
      intro next member
      simp at member
      rcases member with ⟨_,_,rfl⟩ | rfl <;> rfl
    | _ => cases done
  | refer side ioctx | referJob side ioctx | socketIODone | listAddTail side ioctx | decrement side ioctx
  | insertTailHash side ioctx | onClose | postIOJobs side =>
    cases done
    simp [enclosed]
  | _ => simp [enclosed] at within

/-- What a job's or a closer's last operation leaves ends with such an operation again. -/
theorem exec_guards (done : exec s outcome op = some (s',ops)) (guard : guards op = true) :
    ops = [] ∨ ∃ front last, ops = front ++ [last] ∧ (∀ next ∈ front, enclosed next = true) ∧ guards last = true := by
  cases op with
  | start side | take side | leave side head =>
    cases done
    exact .inr ⟨[],_,rfl,nofun,rfl⟩
  | socketIODone =>
    cases done
    exact .inl rfl
  | testClosed side head =>
    cases done
    by_cases closed : s.is_closed = 0
    · exact .inr ⟨[],.work side head,by simp [closed],nofun,rfl⟩
    · refine .inr ⟨head.map fun ioctx => .callback side ioctx false,.socketIODone,by simp [closed,Connection.closed],?_,rfl⟩
      simp [enclosed]
  | work side head =>
    cases head with
    | nil =>
      cases done
      exact .inr ⟨[],_,rfl,nofun,rfl⟩
    | cons ioctx rest =>
      cases outcome with
      | full =>
        cases done
        exact .inr ⟨[.callback side ioctx true],_,rfl,by simp [enclosed],rfl⟩
      | wouldBlock =>
        cases done
        exact .inr ⟨[],_,rfl,nofun,rfl⟩
      | short =>
        cases side with
        | read =>
          cases done
          exact .inr ⟨[.callback .read ioctx true],_,rfl,by simp [enclosed],rfl⟩
        | write =>
          cases done
          exact .inr ⟨[],_,rfl,nofun,rfl⟩
      | error =>
        cases side <;> cases done <;> exact .inr ⟨(ioctx :: rest).map fun ioctx => .callback _ ioctx false,.socketIODone,rfl,by simp [enclosed],rfl⟩
      | _ => cases done
  | _ => simp [guards] at guard

/-- What comes from outside stays a single operation, but for the first closer. -/
theorem exec_outside (done : exec s outcome op = some (s',ops)) (calls : outside op = true) : Shaped ops := by
  cases op with
  | isClosed side =>
    by_cases closed : s.is_closed = 0
    · simp [exec,closed] at done
      rw [← done.2]
      exact .call _ rfl
    · simp [exec,closed] at done
      rw [done.2]
      exact .ended
  | refer side ioctx | listAddTail side ioctx | referJob side ioctx =>
    cases done
    exact .call _ rfl
  | decrement side ioctx | insertTailHash side ioctx =>
    cases done
    exact .ended
  | polled side =>
    cases done
    split
    · exact .call _ rfl
    · exact .ended
  | increment side ioctx =>
    cases done
    split <;> exact .call _ rfl
  | close =>
    cases done
    split
    · exact .held [.postIOJobs .read,.postIOJobs .write,.onClose] .socketIODone (by simp [enclosed]) rfl
    · exact .ended
  | _ => simp [outside] at calls

theorem exec_shaped (done : exec s outcome op = some (s',ops)) (shaped : Shaped (op :: rest)) : Shaped (ops ++ rest) := by
  generalize thread : op :: rest = whole at shaped
  cases shaped with
  | ended => cases thread
  | call op calls =>
    cases thread
    simpa using exec_outside done calls
  | held front last before guard =>
    cases front with
    | nil =>
      obtain ⟨rfl,rfl⟩ : op = last ∧ rest = [] := by simpa using thread
      rcases exec_guards done guard with rfl | ⟨front,last,rfl,before,guard⟩
      · exact .ended
      · simpa using Shaped.held front last before guard
    | cons first front =>
      obtain ⟨rfl,rfl⟩ : op = first ∧ rest = front ++ [last] := by simpa using thread
      have now := exec_enclosed done (before op List.mem_cons_self)
      rw [← List.append_assoc]
      refine .held (ops ++ front) last ?_ guard
      intro next member
      rcases List.mem_append.mp member with new | old
      · exact now next new
      · exact before next (List.mem_cons_of_mem _ old)

/-- Only a release brings `ref` down, and the one that brings it to zero is told. -/
theorem exec_released (done : exec s outcome op = some (s',ops)) :
    s'.released = s.released ∧ s.ref ≤ s'.ref ∨ s'.released = (s.released || decide (s'.ref = 0)) := by
  cases op with
  | isClosed side =>
    by_cases closed : s.is_closed = 0
    · simp [exec,closed] at done
      exact .inl (by simp [← done.1])
    · simp [exec,closed] at done
      exact .inl (by simp [← done.1])
  | socketIODone =>
    cases done
    exact .inr rfl
  | refer side ioctx | referJob side ioctx =>
    cases done
    exact .inl ⟨rfl,by simp⟩
  | work side head =>
    cases head with
    | nil =>
      cases done
      exact .inl ⟨rfl,Int.le_refl _⟩
    | cons ioctx rest =>
      cases outcome with
      | full | wouldBlock =>
        cases done
        exact .inl ⟨rfl,Int.le_refl _⟩
      | short | error =>
        cases side <;> cases done <;> exact .inl ⟨rfl,Int.le_refl _⟩
      | _ => cases done
  | callback side ioctx rc =>
    cases outcome with
    | calls sides =>
      cases done
      exact .inl ⟨rfl,Int.le_refl _⟩
    | _ => cases done
  | _ =>
    cases done
    exact .inl ⟨rfl,Int.le_refl _⟩

/-- With no reference left nothing of the connection is at work or waits. -/
theorem References.unreferenced (refs : References s) (zero : s.ref = 0) :
    s.onClosed = 1 ∧ s.queued .read = 0 ∧ s.queued .write = 0 ∧ ∀ ops ∈ s.threads, ops = [] := by
  have account := refs.account
  have closes := refs.closes
  have shares : total share s.threads = 0 := by omega
  have standing : s.standing = 0 := by omega
  rw [total_eq_zero] at shares
  have alone : ∀ ops ∈ s.threads, ops = [] ∨ ∃ op, ops = [op] ∧ outside op = true := by
    intro ops thread
    refine (refs.shaped ops thread).unshared ?_
    exact List.sum_eq_zero (by simpa using shares ops thread)
  have unclosing : total closing s.threads = 0 := by
    rw [total_eq_zero]
    intro ops thread op member
    rcases alone ops thread with rfl | ⟨single,rfl,calls⟩
    · simp at member
    · obtain rfl := List.mem_singleton.mp member
      cases op <;> simp_all [outside]
  simp only [State.standing] at standing
  have once : s.onClosed = 1 := by omega
  refine ⟨once,by omega,by omega,?_⟩
  intro ops thread
  rcases alone ops thread with ended | ⟨op,rfl,calls⟩
  · exact ended
  · have finished := refs.finished (by omega) [op] thread op rfl
    simp [calls] at finished

theorem References.untouched (refs : References s) (zero : s.ref = 0) (promised : Promised s a) : step s a = none := by
  obtain ⟨closed,noRead,noWrite,ended⟩ := refs.unreferenced zero
  cases a with
  | call side | epoll side | close =>
    simp only [Promised] at promised
    omega
  | doJob side => cases side <;> simp [step,noRead,noWrite]
  | run thread outcome =>
    rcases here : s.threads[thread]? with _ | ops
    · simp [step,here]
    · obtain rfl := ended ops (List.mem_of_getElem? here)
      simp [step,here]

theorem References.spawn {queued : Side → Nat} (refs : References s) (op : Op)
    (standing : { s with queued }.standing + share op = s.standing) (closes : closing op = 0) (shaped : Shaped [op])
    (begins : s.onClosed ≠ 0 → outside op = false) : References (spawn { s with queued } op) := by
  have shares := total_spawn share s.threads op
  have closings := total_spawn closing s.threads op
  refine ⟨?_,?_,?_,?_,refs.released⟩
  · have before := refs.account
    change s.ref = (({ s with queued }.standing + total share (s.threads ++ [[op]]) : Nat) : Int)
    omega
  · have before := refs.closes
    simp only [Connection.spawn]
    omega
  · intro ops thread
    rcases List.mem_append.mp thread with old | new
    · exact refs.shaped ops old
    · obtain rfl := List.mem_singleton.mp new
      exact shaped
  · intro closed ops thread last ends
    rcases List.mem_append.mp thread with old | new
    · exact refs.finished closed ops old last ends
    · obtain rfl := List.mem_singleton.mp new
      obtain rfl : op = last := by simpa using ends
      exact begins closed

/-- A call from outside is over in one operation or stays outside; what ends with a reference stays so. -/
theorem last_outside (done : exec s outcome op = some (s',ops)) (shaped : Shaped (op :: rest))
    (ends : ∀ last ∈ (op :: rest).getLast?, outside last = false) : ∀ last ∈ (ops ++ rest).getLast?, outside last = false := by
  generalize thread : op :: rest = whole at shaped ends
  have guards_outside : ∀ last, guards last = true → outside last = false := by
    intro last
    cases last <;> simp [guards,outside]
  cases shaped with
  | ended => cases thread
  | call single calls =>
    have finished := ends single rfl
    simp [calls] at finished
  | held front last before guard =>
    cases front with
    | nil =>
      obtain ⟨rfl,rfl⟩ : op = last ∧ rest = [] := by simpa using thread
      rcases exec_guards done guard with rfl | ⟨front,last,rfl,before,guard⟩
      · simp
      · simpa using guards_outside last guard
    | cons first front =>
      obtain ⟨rfl,rfl⟩ : op = first ∧ rest = front ++ [last] := by simpa using thread
      simpa using guards_outside last guard

theorem exec_references {i : Nat} (refs : References s) (here : s.threads[i]? = some (op :: rest))
    (done : exec s outcome op = some (s',ops))
    (promised : op = .onClose → ∀ ops ∈ s.threads, ∀ op ∈ ops.getLast?, outside op = false) :
    References { s' with threads := s.threads.set i (ops ++ rest) } := by
  have inThreads := List.mem_of_getElem? here
  have alive : s.ref ≠ 0 := by
    intro zero
    have ended := (refs.unreferenced zero).2.2.2 _ inThreads
    simp at ended
  have balanced := exec_balanced done
  obtain ⟨returned,closes⟩ := exec_closes done
  have shares := total_advance share here ops
  have closings := total_advance closing here ops
  have account : s'.ref = ((s'.standing + total share (s.threads.set i (ops ++ rest)) : Nat) : Int) := by
    have before := refs.account
    simp only [Balanced] at balanced
    omega
  refine ⟨account,?_,?_,?_,?_⟩
  · have before := refs.closes
    simp only
    omega
  · intro thread member
    rcases List.mem_or_eq_of_mem_set member with old | rfl
    · exact refs.shaped thread old
    · exact exec_shaped done (refs.shaped _ inThreads)
  · intro closed
    have before : ∀ ops ∈ s.threads, ∀ op ∈ ops.getLast?, outside op = false := by
      by_cases now : op = .onClose
      · exact promised now
      · refine refs.finished ?_
        have same : closing op = 0 := by cases op <;> simp_all
        simp only at closed
        omega
    intro thread member
    rcases List.mem_or_eq_of_mem_set member with old | rfl
    · exact before thread old
    · exact last_outside done (refs.shaped _ inThreads) (before _ inThreads)
  · have unreleased : s.released = false := Bool.eq_false_iff.mpr fun released => alive (refs.released.mp released)
    rcases exec_released done with ⟨same,more⟩ | told
    · have before := refs.account
      change s'.released = true ↔ s'.ref = 0
      rw [same,unreleased]
      simp
      omega
    · change s'.released = true ↔ s'.ref = 0
      simp [told,unreleased]

theorem step_references (refs : References s) (promised : Promised s a) (taken : step s a = some s') : References s' := by
  cases a with
  | call side | epoll side | close =>
    cases taken
    refine refs.spawn _ ?_ rfl (.call _ rfl) fun closed => absurd promised closed
    simp [State.standing]
  | doJob side =>
    simp only [step,Option.ite_none_right_eq_some,Option.some.injEq] at taken
    obtain ⟨waits,rfl⟩ := taken
    have starts := standing_queued s side (s.queued side - 1)
    have shaped : Shaped [.start side] := .held [] _ (by simp) rfl
    refine refs.spawn _ ?_ rfl shaped fun _ => rfl
    simp only [share]
    omega
  | run thread outcome =>
    obtain ⟨op,rest,s',ops,here,done,rfl⟩ := step_run taken
    refine exec_references refs here done ?_
    rintro rfl
    exact promised (by simp [here])

theorem reachable_references (reachable : Reachable step Promised createConnection s) : References s := by
  have start : References createConnection := by
    refine ⟨rfl,rfl,nofun,fun closed => absurd rfl closed,?_⟩
    simp [createConnection]
  exact reachable.invariant start fun _ _ _ refs promised taken => step_references refs promised taken

@[simp] def polling : Op → Nat
  | .polled _ | .increment _ none | .decrement _ none | .referJob _ none | .insertTailHash _ none | .close => 1
  | _ => 0

/-- A thread polls, does one event at a time, and has removed the descriptor before it closes
the connection. The calls from outside the callbacks are as promised. -/
def Polled (s : State) : Action → Prop
  | .call _ => s.onClosed = 0
  | .epoll _ | .close => s.is_closed = 0 ∧ total polling s.threads = 0
  | .run thread _ => s.threads[thread]?.bind List.head? = some .onClose →
    ∀ ops ∈ s.threads, ∀ op ∈ ops.getLast?, outside op = true → polling op = 1
  | .doJob _ => True

structure Polls (s : State) : Prop where
  one : total polling s.threads ≤ 1
  ahead : s.is_closed ≠ 0 → total polling s.threads = 0

theorem exec_polling (done : exec s outcome op = some (s',ops)) :
    (ops.map polling).sum ≤ polling op ∧ (s'.is_closed = s.is_closed ∨ op = .close ∧ (ops.map polling).sum = 0) := by
  cases op with
  | isClosed side =>
    by_cases closed : s.is_closed = 0
    · simp [exec,closed] at done
      obtain ⟨rfl,rfl⟩ := done
      simp [closed]
    · simp [exec,closed] at done
      obtain ⟨rfl,rfl⟩ := done
      simp
  | increment side ioctx =>
    cases done
    cases ioctx <;> simp [State.count] <;> split <;> simp
  | decrement side ioctx | referJob side ioctx | insertTailHash side ioctx =>
    cases done
    cases ioctx <;> simp [State.count,State.returns]
  | refer side ioctx | socketIODone | listAddTail side ioctx | start side | take side | leave side head | onClose =>
    cases done
    simp [State.setHead,State.count]
  | polled side | testClosed side head =>
    cases done
    split <;> simp [closed,Function.comp_def]
  | work side head =>
    cases head with
    | nil =>
      cases done
      simp
    | cons ioctx rest =>
      cases outcome with
      | full | wouldBlock =>
        cases done
        simp
      | short =>
        cases side <;> cases done <;> simp
      | error =>
        cases side <;> cases done <;> simp [closed,Function.comp_def]
      | _ => cases done
  | callback side ioctx rc =>
    cases outcome with
    | calls sides =>
      cases done
      simp [Function.comp_def]
    | _ => cases done
  | close =>
    cases done
    by_cases first : s.is_closed = 0 <;> simp [first]
  | postIOJobs side =>
    cases done
    simp [State.setHead,Function.comp_def]

theorem step_polls (polls : Polls s) (polled : Polled s a) (taken : step s a = some s') : Polls s' := by
  cases a with
  | call side =>
    cases taken
    exact ⟨by simpa [spawn] using polls.one,by simpa [spawn] using polls.ahead⟩
  | epoll side | close =>
    cases taken
    obtain ⟨opened,idle⟩ := polled
    exact ⟨by simp [spawn,idle],fun closed => absurd opened closed⟩
  | doJob side =>
    simp only [step,Option.ite_none_right_eq_some,Option.some.injEq] at taken
    obtain ⟨waits,rfl⟩ := taken
    exact ⟨by simpa [spawn] using polls.one,by simpa [spawn] using polls.ahead⟩
  | run thread outcome =>
    obtain ⟨op,rest,s',ops,here,done,rfl⟩ := step_run taken
    have one := polls.one
    have advanced := total_advance polling here ops
    obtain ⟨less,closes⟩ := exec_polling done
    refine ⟨?_,?_⟩
    · simp only
      omega
    · intro closed
      rcases closes with same | ⟨rfl,none⟩
      · have before := polls.ahead (by simpa [same] using closed)
        simp only
        omega
      · simp only [polling] at advanced
        simp only
        omega

theorem polled_promised (reachable : Reachable step Polled createConnection s) :
    Reachable step Promised createConnection s ∧ Polls s := by
  induction reachable with
  | start => exact ⟨.start,⟨by simp [createConnection],fun closed => absurd rfl closed⟩⟩
  | @step s a s' _ polled taken ih =>
    obtain ⟨reachable,polls⟩ := ih
    refine ⟨.step reachable ?_ taken,step_polls polls polled taken⟩
    have closes := (reachable_references reachable).closes
    cases a with
    | call side => exact polled
    | epoll side | close =>
      have opened : opened s.is_closed = 1 := if_pos polled.1
      change s.onClosed = 0
      omega
    | doJob side => trivial
    | run thread outcome =>
      intro now ops member op last
      by_contra calls
      have event := polled now ops member op last (by simpa using calls)
      obtain ⟨thread',here,first⟩ := Option.bind_eq_some_iff.mp now
      have mine := weight_le_of_mem closing (List.mem_of_getElem? here) (List.mem_of_mem_head? first)
      have other := weight_le_of_mem polling member (List.mem_of_getLast? last)
      have none := polls.ahead fun opened => by
        simp [Connection.opened,opened] at closes
        simp at mine
        omega
      omega

/-- The IOContexts that an operation has in hand, once `ref` is incremented for them. -/
@[simp] def inHand : Op → Nat
  | .listAddTail _ _ | .callback _ _ _ => 1
  | .testClosed _ head | .work _ head | .leave _ head => head.length
  | _ => 0

@[simp] def inserting : Op → Nat
  | .insertTailHash _ _ => 1
  | _ => 0

/-- The callbacks a thread is in: each one's release comes before another operation of the thread. -/
def callbacksOf (ops : List Op) : Nat := ops.dropLast.count .socketIODone

/-- A thread in which a job runs, and has more to do than its release. -/
def RunsJob (ops : List Op) : Prop :=
  (∃ last ∈ ops.getLast?, guards last = true) ∧ .onClose ∉ ops ∧ ops ≠ [.socketIODone]

instance (ops : List Op) : Decidable (RunsJob ops) :=
  inferInstanceAs (Decidable ((∃ last ∈ ops.getLast?, guards last = true) ∧ .onClose ∉ ops ∧ ops ≠ [.socketIODone]))

/-- The IOContexts whose callback has not returned: in a list, in hand or called back. -/
def State.contexts (s : State) : Nat :=
  (s.jobs_head .read).length + (s.jobs_head .write).length + total inHand s.threads + (s.threads.map callbacksOf).sum

/-- The jobs that wait in a pool, are being inserted into it, or run. -/
def State.jobs (s : State) : Nat :=
  s.queued .read + s.queued .write + total inserting s.threads + s.threads.countP RunsJob

/-- Jobs and closers that have nothing left to do but to release their reference. -/
def State.releasing (s : State) : Nat := s.threads.count [.socketIODone]

theorem closing_count (ops : List Op) : (ops.map closing).sum = ops.count .onClose := by
  induction ops with
  | nil => rfl
  | cons op ops ih =>
    rw [List.map_cons,List.sum_cons,ih,List.count_cons]
    cases op <;> simp [Nat.add_comm]

theorem enclosed_share {front : List Op} (before : ∀ op ∈ front, enclosed op = true) :
    (front.map share).sum = (front.map inHand).sum + (front.map inserting).sum + front.count .socketIODone := by
  induction front with
  | nil => rfl
  | cons op front ih =>
    have later := ih fun op member => before op (List.mem_cons_of_mem _ member)
    have now := before op List.mem_cons_self
    rw [List.map_cons,List.map_cons,List.map_cons,List.sum_cons,List.sum_cons,List.sum_cons,later,List.count_cons]
    cases op <;> simp_all [enclosed] <;> omega

theorem Shaped.references (shaped : Shaped ops) (once : (ops.map closing).sum ≤ 1) :
    (ops.map share).sum = (ops.map inHand).sum + callbacksOf ops + (ops.map inserting).sum + (ops.map closing).sum +
      (if RunsJob ops then 1 else 0) + (if ops = [.socketIODone] then 1 else 0) := by
  cases shaped with
  | ended => simp [callbacksOf,RunsJob]
  | call op calls =>
    cases op <;> simp_all [outside,callbacksOf,RunsJob,guards]
  | held front last before guard =>
    have shares := enclosed_share before
    have mine : share last = inHand last + 1 ∧ inserting last = 0 ∧ closing last = 0 := by
      cases last <;> simp_all [guards]
    have other : last ≠ .onClose := by
      rintro rfl
      cases guard
    have single : front ++ [last] = [.socketIODone] ↔ front = [] ∧ last = .socketIODone := by
      cases front <;> simp
    have ends : (∃ op ∈ (front ++ [last]).getLast?, guards op = true) := by simp [guard]
    have closes : .onClose ∈ front ++ [last] ↔ .onClose ∈ front := by simp [other.symm]
    have counted := closing_count front
    simp only [List.map_append,List.sum_append,List.map_cons,List.map_nil,List.sum_cons,List.sum_nil,mine,callbacksOf,
      List.dropLast_concat,RunsJob,ends,closes,single,ne_eq,true_and] at once ⊢
    by_cases closer : .onClose ∈ front
    · have some := List.count_pos_iff.mpr closer
      have more : front ≠ [] := List.ne_nil_of_mem closer
      simp only [closer,more,not_true,false_and,if_false]
      omega
    · have none := List.count_eq_zero_of_not_mem closer
      by_cases release : front = [] ∧ last = .socketIODone
      · obtain ⟨rfl,rfl⟩ := release
        simp
      · simp only [closer,release,not_false_eq_true,true_and,if_true,if_false]
        omega

theorem total_share {threads : List (List Op)} (shaped : ∀ ops ∈ threads, Shaped ops) (once : total closing threads ≤ 1) :
    total share threads = total inHand threads + (threads.map callbacksOf).sum + total inserting threads +
      total closing threads + threads.countP RunsJob + threads.count [.socketIODone] := by
  induction threads with
  | nil => rfl
  | cons ops threads ih =>
    simp only [total_cons] at once ⊢
    have mine := (shaped ops List.mem_cons_self).references (by omega)
    have later := ih (fun other member => shaped other (List.mem_cons_of_mem _ member)) (by omega)
    simp only [List.map_cons,List.sum_cons,List.countP_cons,List.count_cons,beq_iff_eq,decide_eq_true_eq]
    omega

/-- `ref` is one until `onClose` has returned, one for each IOContext whose callback has not
returned and one for each job, and what is about to be released. It is zero only after the
one call of `onClose`, and no step is left then. -/
theorem connection_references (reachable : Reachable step Promised createConnection s) :
    s.ref = (((if s.onClosed = 0 then 1 else 0) + s.contexts + s.jobs + s.releasing : Nat) : Int) ∧ 0 ≤ s.ref ∧
    s.onClosed ≤ 1 ∧ (s.released = true ↔ s.ref = 0) ∧
    (s.ref = 0 → s.onClosed = 1 ∧ ∀ a, Promised s a → step s a = none) := by
  have refs := reachable_references reachable
  have account := refs.account
  have closes := refs.closes
  have shares := total_share refs.shaped (by omega)
  refine ⟨?_,by omega,by omega,refs.released,?_⟩
  · have until_returned : total closing s.threads + opened s.is_closed = if s.onClosed = 0 then 1 else 0 := by
      split <;> omega
    rw [account]
    simp only [State.contexts,State.jobs,State.releasing,State.standing]
    omega
  · intro zero
    exact ⟨(refs.unreferenced zero).1,fun _ promised => refs.untouched zero promised⟩

/-- A write is sent by its job, and a close that overlaps the job takes the read that the
write's callback has asked for. -/
def closedWhileRunning : List Action :=
  [.call .write,.run 0 .nothing,.run 0 .nothing,.run 0 .nothing,.run 0 .nothing,.run 0 .nothing,.run 0 .nothing,
    .doJob .write,.run 1 .nothing,.run 1 .nothing,.run 1 .nothing,.run 1 .full,.run 1 (.calls [.read]),
    .run 1 .nothing,.run 1 .nothing,.run 1 .nothing,
    .close,.run 2 .nothing,.run 2 .nothing,.run 2 (.calls []),.run 2 .nothing,.run 2 .nothing,.run 2 .nothing,.run 2 .nothing,
    .run 1 .nothing,.run 1 .nothing,.run 1 .nothing,.run 1 .nothing,.run 1 .nothing,.run 1 .nothing,.run 1 .nothing,
    .doJob .read,.run 3 .nothing,.run 3 .nothing,.run 3 .nothing,.run 3 .nothing]

instance (s : State) : (a : Action) → Decidable (Promised s a)
  | .call _ | .epoll _ | .close => inferInstanceAs (Decidable (s.onClosed = 0))
  | .run thread _ => inferInstanceAs (Decidable (s.threads[thread]?.bind List.head? = some .onClose →
      ∀ ops ∈ s.threads, ∀ op ∈ ops.getLast?, outside op = false))
  | .doJob _ => inferInstanceAs (Decidable True)

theorem connection_references_closed :
    ∃ s, execute step createConnection closedWhileRunning = some s ∧ s.ref = 0 ∧ s.released = true ∧ s.onClosed = 1 ∧
      ∀ a, Promised s a → step s a = none := by
  have promised : Permitted step Promised createConnection closedWhileRunning := by decide +kernel
  have counts := connection_references (Reachable.start.execute closedWhileRunning promised rfl)
  have last := counts.2.2.2.2 rfl
  exact ⟨_,rfl,rfl,rfl,last.1,last.2⟩

end Muti.Connection
