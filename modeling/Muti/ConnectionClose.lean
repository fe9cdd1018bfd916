import Muti.ConnectionCover

/-! Every accepted IOContext is called back once across a close: never twice in any run, and
once by the time the close is over and no job is left, if a job that is still at work when
its side is drained leaves nothing behind. -/
namespace Muti.Connection

open Muti.Lists Muti.Transition

def Undrained (s : State) (side : Side) : Prop := s.is_closed = 0 ∨ 0 < total (draining side) s.threads

/-- A call whose IOContext is still listed finds the counter raised with no job among those
who raised it, or a job puts back what is left and no other one will take it, and the
closer has drained the list before. -/
def Abandons (s : State) : Op → Prop
  | .increment side (some io) => s.busy side ≠ 0 ∧ io ∈ s.jobs_head side ∧ ¬Undrained s side ∧ s.pending side = 0
  | .leave side head => head ≠ [] ∧ ¬Undrained s side ∧ s.pending side = 0
  | _ => False

def Completed (s : State) : Action → Prop
  | .run thread _ => ∀ ops ∈ s.threads[thread]?, ∀ op ∈ ops.head?, ¬Abandons s op
  | _ => True

instance (s : State) (side : Side) : Decidable (Undrained s side) :=
  inferInstanceAs (Decidable (s.is_closed = 0 ∨ 0 < total (draining side) s.threads))

instance (s : State) : (op : Op) → Decidable (Abandons s op)
  | .increment side (some io) =>
    inferInstanceAs (Decidable (s.busy side ≠ 0 ∧ io ∈ s.jobs_head side ∧ ¬Undrained s side ∧ s.pending side = 0))
  | .leave side head => inferInstanceAs (Decidable (head ≠ [] ∧ ¬Undrained s side ∧ s.pending side = 0))
  | .increment _ none | .isClosed _ | .refer _ _ | .listAddTail _ _ | .polled _ | .decrement _ _ | .referJob _ _
  | .insertTailHash _ _ | .start _ | .take _ | .testClosed _ _ | .work _ _ | .callback _ _ _
  | .socketIODone | .close | .postIOJobs _ | .onClose => inferInstanceAs (Decidable False)

instance (s : State) : (a : Action) → Decidable (Completed s a)
  | .run thread _ => inferInstanceAs (Decidable (∀ ops ∈ s.threads[thread]?, ∀ op ∈ ops.head?, ¬Abandons s op))
  | .call _ | .epoll _ | .doJob _ | .close => inferInstanceAs (Decidable True)

theorem step_undrained (taken : step s a = some s') (inside : io ∈ s'.jobs_head side) (undrained : Undrained s side) :
    Undrained s' side := by
  cases a with
  | call x | epoll x | close =>
    cases taken
    rcases undrained with opened | drains
    · exact .inl opened
    · exact .inr (by simp [spawn,drains])
  | doJob x =>
    simp only [step,Option.ite_none_right_eq_some] at taken
    obtain ⟨waits,taken⟩ := taken
    cases taken
    rcases undrained with opened | drains
    · exact .inl opened
    · exact .inr (by simp [spawn,drains])
  | run thread outcome =>
    obtain ⟨op,rest,s',ops,here,done,rfl⟩ := step_run taken
    have keeps := exec_keeps done
    have drained := total_advance (draining side) here ops
    rcases undrained with opened | drains
    · rcases keeps.opened side opened with still | more
      · exact .inl still
      · refine .inr ?_
        have mine := weight_le_total (draining side) here
        change 0 < total (draining side) (s.threads.set thread (ops ++ rest))
        omega
    · rcases keeps.drains side with kept | empty
      · refine .inr ?_
        change 0 < total (draining side) (s.threads.set thread (ops ++ rest))
        omega
      · replace inside : io ∈ s'.jobs_head side := inside
        simp [empty] at inside

/-- The operations that come after a call has asked for a job: those of jobs and closers. -/
@[simp] def underway : Op → Nat
  | .referJob _ _ | .insertTailHash _ _ | .start _ | .take _ | .testClosed _ _ | .work _ _ | .leave _ _
  | .callback _ _ _ | .postIOJobs _ => 1
  | _ => 0

/-- The close is over, and no job of the connection is asked for, waits or runs. -/
def State.Settled (s : State) : Prop :=
  s.is_closed ≠ 0 ∧ s.queued .read = 0 ∧ s.queued .write = 0 ∧ total underway s.threads = 0

instance (s : State) : Decidable s.Settled :=
  inferInstanceAs (Decidable (s.is_closed ≠ 0 ∧ s.queued .read = 0 ∧ s.queued .write = 0 ∧ total underway s.threads = 0))

theorem increment_inside {i : Nat} (taken : step s (.run i outcome) = some s')
    (here : s.threads[i]? = some (.increment side ioctx :: rest)) : s'.jobs_head = s.jobs_head := by
  simp only [step,here,exec,Option.map_some,Option.some.injEq] at taken
  subst taken
  rfl

theorem leave_inside {i : Nat} (taken : step s (.run i outcome) = some s')
    (here : s.threads[i]? = some (.leave side head :: rest)) (given : io ∈ head) : io ∈ s'.jobs_head side := by
  simp only [step,here,exec,Option.map_some,Option.some.injEq] at taken
  subst taken
  simp [given]

theorem step_completed (covered : Covered (fun s side _ => Undrained s side) s) (completed : Completed s a)
    (taken : step s a = some s') : Covered (fun s side _ => Undrained s side) s' := by
  apply step_covered covered taken
  · intro side io _ inside undrained
    exact step_undrained taken inside undrained
  · intro thread outcome op rest run here
    subst run
    cases op with
    | increment side ioctx =>
      cases ioctx with
      | none => trivial
      | some io =>
        intro raised inside
        have shown := completed _ here _ rfl
        by_cases undrained : Undrained s side
        · rw [← increment_inside taken here] at inside
          exact .inl (step_undrained taken inside undrained)
        · exact .inr (Nat.pos_of_ne_zero fun none => shown ⟨raised,inside,undrained,none⟩)
    | leave side head =>
      intro io given
      have shown := completed _ here _ rfl
      by_cases undrained : Undrained s side
      · exact .inl (step_undrained taken (leave_inside taken here given) undrained)
      · exact .inr (Nat.pos_of_ne_zero fun none => shown ⟨List.ne_nil_of_mem given,undrained,none⟩)
    | _ => trivial

theorem announcing_le (side : Side) (io : Nat) (op : Op) : announcing side io op ≤ calling io op := by
  cases op <;> simp
  split <;> simp_all

theorem coming_le (side : Side) (op : Op) : coming side op + draining side op ≤ underway op := by
  cases op <;> simp <;> split <;> simp

/-- Once nothing is under way, only calls have IOContexts in hand. -/
theorem carries_calling {threads : List (List Op)} (quiet : total underway threads = 0) (io : Nat) :
    total (carries io) threads ≤ total (calling io) threads := by
  rw [total_eq_zero] at quiet
  apply total_mono_mem
  intro ops thread op inside
  have idle := quiet ops thread op inside
  cases op with
  | testClosed side head | work side head | leave side head | callback side ioctx rc => simp at idle
  | _ => simp

/-- Called back at most once; and an accepted IOContext once, when the close is over and no
job is left, with none of them in a list. -/
theorem completed_once (reachable : Reachable step Completed createConnection s) :
    (∀ io, (s.callbacks.map Prod.fst).count io ≤ 1) ∧
    (s.Settled → ∀ io, s.returned io = true →
      (s.callbacks.map Prod.fst).count io = 1 ∧ ∀ side, io ∉ s.jobs_head side) := by
  have start : Covered (fun s side _ => Undrained s side) createConnection := by simp [Covered,createConnection]
  have covered := reachable.invariant start fun _ _ _ covered completed taken => step_completed covered completed taken
  have accounts := reachable_accounts reachable
  constructor
  · intro io
    have placed := accounts.placed io
    have one := made_le s.allocated io
    simp only [State.places] at placed
    omega
  · rintro ⟨closed,noRead,noWrite,quiet⟩ io returned
    have unqueued : ∀ side, s.queued side = 0 := by
      intro side
      cases side
      · exact noRead
      · exact noWrite
    have placed := accounts.placed io
    have called := accounts.called io
    have one := made_le s.allocated io
    have ended : done s.returned io = 1 := if_pos returned
    have nowhere : ∀ side, io ∉ s.jobs_head side := by
      intro side inside
      have watched := total_mono (coming_le side) s.threads
      have announced := total_mono (announcing_le side io) s.threads
      have waits := unqueued side
      rw [total_add] at watched
      rcases covered side io inside with (opened | drains) | pending | announces
      · exact closed opened
      · omega
      · simp only [State.pending] at pending
        omega
      · omega
    have carried := carries_calling quiet io
    have read := List.count_eq_zero_of_not_mem (nowhere .read)
    have write := List.count_eq_zero_of_not_mem (nowhere .write)
    simp only [State.places] at placed
    exact ⟨by omega,nowhere⟩

/-- A job sends its buffer; the read its callback asks for finds the connection closed. -/
def closedBehind : List Action :=
  [.call .write,.run 0 .nothing,.run 0 .nothing,.run 0 .nothing,.run 0 .nothing,.run 0 .nothing,.run 0 .nothing,
    .doJob .write,.run 1 .nothing,.run 1 .nothing,.run 1 .nothing,.run 1 .full,.run 1 (.calls [.read]),
    .run 1 .nothing,.run 1 .nothing,.run 1 .nothing,.run 1 .nothing,.run 1 .nothing,.run 1 .nothing,
    .run 1 .nothing,.run 1 .nothing,.run 1 .nothing,.run 1 .nothing,
    .close,.run 2 .nothing,.run 2 .nothing,.run 2 (.calls []),.run 2 .nothing,.run 2 .nothing,.run 2 .nothing,.run 2 .nothing,
    .doJob .read,.run 3 .nothing,.run 3 .nothing,.run 3 .nothing,.run 3 .nothing]

theorem completed_once_closed :
    ∃ s, execute step createConnection closedBehind = some s ∧ s.Settled ∧ s.returned 1 = true ∧
      (s.callbacks.map Prod.fst).count 1 = 1 ∧ ∀ side, 1 ∉ s.jobs_head side := by
  have permitted : Permitted step Completed createConnection closedBehind := by decide +kernel
  have completed := completed_once (Reachable.start.execute closedBehind permitted rfl)
  have settled := completed.2 (by decide) 1 rfl
  exact ⟨_,rfl,by decide,rfl,settled⟩

/-- A job has taken a buffer from the open connection, which is closed and drained before the
job finds that it would block and puts the buffer back. -/
def putBackLate : List Action :=
  [.call .write,.run 0 .nothing,.run 0 .nothing,.run 0 .nothing,.run 0 .nothing,.run 0 .nothing,.run 0 .nothing,
    .doJob .write,.run 1 .nothing,.run 1 .nothing,.run 1 .nothing,
    .close,.run 2 .nothing,.run 2 .nothing,.run 2 .nothing,.run 2 .nothing,.run 2 .nothing,
    .run 1 .wouldBlock,.run 1 .nothing,.run 1 .nothing]

/-- The buffer stays in the list of a closed connection, and is never called back. -/
theorem abandoned_io : ∃ s, Reachable step (fun _ _ => True) createConnection s ∧ s.Settled ∧ s.returned 0 = true ∧
    s.callbacks = [] ∧ s.jobs_head .write = [0] := by
  exact ⟨_,Reachable.start.run putBackLate rfl,by decide,rfl,rfl,rfl⟩

end Muti.Connection
