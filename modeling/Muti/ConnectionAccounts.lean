import Muti.Connection
import Muti.Lists

/-! The accounts of a connection. Every IOContext is in one place at a time, in its caller's
hands, in a job list, with a job or a closer, or called back, and its call is at work until it
returns true; the jobs still to take a list are counted. -/
namespace Muti.Connection

open Muti.Lists Muti.Transition

@[simp] def carries (io : Nat) : Op → Nat
  | .refer _ ioctx | .listAddTail _ ioctx | .callback _ ioctx _ => on io ioctx
  | .testClosed _ head | .work _ head | .leave _ head => head.count io
  | _ => 0

@[simp] def calling (io : Nat) : Op → Nat
  | .refer _ ioctx | .listAddTail _ ioctx => on io ioctx
  | .increment _ ioctx | .decrement _ ioctx | .referJob _ ioctx | .insertTailHash _ ioctx => on (some io) ioctx
  | _ => 0

/-- The call has added its IOContext to the list, and has not asked for a job yet. -/
@[simp] def announcing (side : Side) (io : Nat) : Op → Nat
  | .increment s ioctx => on (side,some io) (s,ioctx)
  | _ => 0

@[simp] def coming (side : Side) : Op → Nat
  | .referJob s _ | .insertTailHash s _ | .start s | .take s => on side s
  | _ => 0

@[simp] def draining (side : Side) : Op → Nat
  | .postIOJobs s => on side s
  | _ => 0

def State.pending (s : State) (side : Side) : Nat := s.queued side + total (coming side) s.threads

/-- Once for every IOContext, wherever it is. -/
def State.places (s : State) (io : Nat) : Nat :=
  (s.callbacks.map Prod.fst).count io + (s.jobs_head .read).count io + (s.jobs_head .write).count io

def done (returned : Nat → Bool) (io : Nat) : Nat := if returned io then 1 else 0

def made (allocated io : Nat) : Nat := if io < allocated then 1 else 0

structure Accounts (s : State) : Prop where
  placed : ∀ io, s.places io + total (carries io) s.threads = made s.allocated io
  called : ∀ io, total (calling io) s.threads + done s.returned io = made s.allocated io

structure Settles (s : State) (op : Op) (s' : State) (ops : List Op) : Prop where
  placed : ∀ io, s'.places io + (ops.map (carries io)).sum + made s.allocated io =
    s.places io + carries io op + made s'.allocated io
  called : ∀ io, (ops.map (calling io)).sum + done s'.returned io + made s.allocated io =
    calling io op + done s.returned io + made s'.allocated io

theorem Settles.accounts {i : Nat} (settles : Settles s op s' ops) (accounts : Accounts s)
    (here : s.threads[i]? = some (op :: rest)) : Accounts { s' with threads := s.threads.set i (ops ++ rest) } where
  placed := by
    intro io
    have before := accounts.placed io
    have moved := settles.placed io
    have threads := total_advance (carries io) here ops
    change s'.places io + total (carries io) (s.threads.set i (ops ++ rest)) = made s'.allocated io
    omega
  called := by
    intro io
    have before := accounts.called io
    have moved := settles.called io
    have threads := total_advance (calling io) here ops
    change total (calling io) (s.threads.set i (ops ++ rest)) + done s'.returned io = made s'.allocated io
    omega

theorem made_le (allocated io : Nat) : made allocated io ≤ 1 := by
  unfold made
  split <;> omega

theorem made_next (allocated io : Nat) : made (allocated + 1) io = made allocated io + on io allocated := by
  by_cases new : allocated = io
  · subst new
    simp [made]
  · by_cases older : io < allocated
    · simp [made,new,older,Nat.lt_succ_of_lt older]
    · have later : ¬io < allocated + 1 := by omega
      simp [made,new,older,later]

@[simp] theorem places_count (s : State) (side : Side) (change : Int) (io : Nat) :
    (s.count side change).places io = s.places io := rfl

@[simp] theorem places_returns (s : State) (ioctx : Option Nat) (io : Nat) :
    (s.returns ioctx).places io = s.places io := by
  cases ioctx <;> rfl

/-- A list that replaces a side's list replaces its IOContexts. -/
theorem places_setHead (s : State) (side : Side) (head : List Nat) (io : Nat) :
    (s.setHead side head).places io + (s.jobs_head side).count io = s.places io + head.count io := by
  cases side <;> simp [State.places,State.setHead] <;> omega

theorem Accounts.returns {i : Nat} (accounts : Accounts s) (here : s.threads[i]? = some (op :: rest))
    (calls : ∀ io, calling io op = on (some io) ioctx) (io : Nat) :
    done (s.returns ioctx).returned io = done s.returned io + calling io op := by
  by_cases same : ioctx = some io
  · have called := accounts.called io
    have share := weight_le_total (calling io) here
    have mine : calling io op = 1 := (calls io).trans (if_pos same)
    have bound := made_le s.allocated io
    have unreturned : done s.returned io = 0 := by omega
    have returned : done (s.returns ioctx).returned io = 1 := by simp [done,State.returns,same]
    omega
  · have mine : calling io op = 0 := (calls io).trans (if_neg same)
    have kept : done (s.returns ioctx).returned io = done s.returned io := by simp [done,State.returns,same]
    omega

theorem transfer_settles (done : transfer s side head outcome = some (s',ops)) :
    Settles s (.work side head) s' ops := by
  cases head with
  | nil =>
    cases done
    constructor <;> simp
  | cons ioctx rest =>
    cases outcome with
    | full =>
      cases done
      constructor <;> intro io <;> simp [List.count_cons]
      omega
    | wouldBlock =>
      cases done
      constructor <;> simp
    | short =>
      cases side <;> cases done <;> constructor <;> intro io <;> simp [List.count_cons]
      omega
    | error =>
      cases side <;> cases done <;> constructor <;> intro io <;>
        simp [closed,State.places,Function.comp_def,List.count_cons] <;> omega
    | _ => cases done

theorem exec_settles {i : Nat} (accounts : Accounts s) (here : s.threads[i]? = some (op :: rest))
    (done : exec s outcome op = some (s',ops)) : Settles s op s' ops := by
  cases op with
  | isClosed side =>
    by_cases closed : s.is_closed = 0
    · simp [exec,closed] at done
      obtain ⟨rfl,rfl⟩ := done
      constructor <;> intro io <;> simp [State.places,made_next] <;> omega
    · simp [exec,closed] at done
      obtain ⟨rfl,rfl⟩ := done
      constructor <;> simp
  | refer side ioctx | referJob side ioctx | socketIODone | onClose =>
    cases done
    constructor <;> intro io <;> simp [State.places]
  | start side =>
    cases done
    constructor <;> simp
  | polled side =>
    cases done
    constructor <;> intro io <;> simp <;> split <;> rfl
  | close =>
    cases done
    constructor <;> intro io <;> simp [State.places] <;> split <;> rfl
  | increment side ioctx =>
    cases done
    constructor <;> intro io <;> simp <;> split <;> rfl
  | listAddTail side ioctx =>
    cases done
    constructor <;> intro io <;> simp
    have added := places_setHead s side (s.jobs_head side ++ [ioctx]) io
    simp [List.count_cons] at added
    omega
  | decrement side ioctx =>
    have returned := accounts.returns here (fun _ => rfl)
    cases done
    constructor <;> intro io <;> simp
    exact (returned io).trans (Nat.add_comm _ _)
  | insertTailHash side ioctx =>
    have returned := accounts.returns here (fun _ => rfl)
    cases done
    constructor <;> intro io <;> simp
    · rfl
    · exact (returned io).trans (Nat.add_comm _ _)
  | take side =>
    cases done
    constructor <;> intro io <;> simp
    have emptied := places_setHead s side [] io
    simp at emptied
    omega
  | testClosed side head =>
    cases done
    constructor <;> intro io <;> simp <;> split <;> simp [closed,Function.comp_def]
  | work side head => exact transfer_settles done
  | leave side head =>
    cases done
    constructor <;> intro io <;> simp
    · have joined := places_setHead s side (head ++ s.jobs_head side) io
      simp [State.places] at joined ⊢
      omega
  | callback side ioctx rc =>
    cases outcome with
    | calls sides =>
      cases done
      constructor <;> intro io <;> simp [State.places,Function.comp_def,List.count_cons]
      omega
    | _ => cases done
  | postIOJobs side =>
    cases done
    constructor <;> intro io <;> simp [Function.comp_def]
    have emptied := places_setHead s side [] io
    simp at emptied
    omega

theorem Accounts.spawn (accounts : Accounts s) (op : Op) (carried : ∀ io, carries io op = 0)
    (calls : ∀ io, calling io op = 0) : Accounts (spawn s op) where
  placed := by
    intro io
    have before := accounts.placed io
    have spawned := total_spawn (carries io) s.threads op
    have none := carried io
    change s.places io + total (carries io) (s.threads ++ [[op]]) = made s.allocated io
    omega
  called := by
    intro io
    have before := accounts.called io
    have spawned := total_spawn (calling io) s.threads op
    have none := calls io
    change total (calling io) (s.threads ++ [[op]]) + done s.returned io = made s.allocated io
    omega

theorem step_accounts (accounts : Accounts s) (taken : step s a = some s') : Accounts s' := by
  cases a with
  | call side | epoll side | close =>
    cases taken
    exact accounts.spawn _ (fun _ => rfl) (fun _ => rfl)
  | doJob side =>
    simp only [step,Option.ite_none_right_eq_some] at taken
    obtain ⟨waits,taken⟩ := taken
    cases taken
    have unqueued : Accounts { s with queued := Function.update s.queued side (s.queued side - 1) } :=
      ⟨accounts.placed,accounts.called⟩
    exact unqueued.spawn _ (fun _ => rfl) (fun _ => rfl)
  | run thread outcome =>
    obtain ⟨op,rest,s',ops,here,done,rfl⟩ := step_run taken
    exact (exec_settles accounts here done).accounts accounts here

theorem reachable_accounts (reachable : Reachable step allowed createConnection s) : Accounts s := by
  have start : Accounts createConnection := by
    constructor <;> intro io <;> simp [createConnection,State.places,done,made]
  exact reachable.invariant start fun _ _ _ accounts _ taken => step_accounts accounts taken

end Muti.Connection
