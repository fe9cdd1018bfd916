import Mathlib.Data.List.Nodup
import Muti.HouseKeeping

/-! The lifetime of the workers of the house-keeping. A worker belongs to the thread that adds
it, then to whoever has its handle, and then to the removal or to `destroy`, which frees it. -/
namespace Muti.HouseKeeping

open Muti.Lists Muti.Transition

@[simp] def unlinking (w : Nat) : Op → Nat
  | .unlink x => on w x
  | _ => 0

@[simp] def awaiting (w : Nat) : Op → Nat
  | .await x => on w x
  | _ => 0

@[simp] def freeing (w : Nat) : Op → Nat
  | .free x => on w x
  | _ => 0

/-- The worker that the next step of `destroy` takes from the list. -/
def destroyTakes (s : State) : Option Nat :=
  match s.destroy with
  | .starting => s.worker_list.head?
  | .examining w => following s.worker_list w
  | _ => none

def destroyFrees (s : State) : Option Nat :=
  match s.destroy with
  | .releasing w _ => some w
  | _ => none

/-- No worker that `destroy` takes is being removed or removed later, and those that it frees
are waiting. -/
def Orderly (s : State) : Action → Prop
  | .removeWorker w => w ∉ s.taken
  | .destroy => (∀ w ∈ destroyTakes s, total (unlinking w) s.threads = 0) ∧
    ∀ w ∈ destroyFrees s, (s.workers w).status = .waiting
  | _ => True

instance : (a : Action) → Decidable (Orderly s a)
  | .removeWorker w => inferInstanceAs (Decidable (w ∉ s.taken))
  | .destroy => inferInstanceAs (Decidable (_ ∧ _))
  | .addWorker _ | .doJob _ | .timer _ | .run _ => inferInstanceAs (Decidable True)

/-- No worker is freed twice, or while its job is queued or an execution of it owes its
callback, and nothing uses one that has been freed. -/
structure Outlived (s : State) : Prop where
  once : s.freed.Nodup
  idle : ∀ w ∈ s.freed, w ∉ s.queued ∧ total (owing w) s.threads = 0
  unused : s.failure ≠ some .useAfterFree
  linked : s.failure ≠ some .nullPointer

/-- Who has a worker, and whether it is listed, taken or freed. -/
structure Share where
  status : WorkerStatus
  handles : Nat
  linking : Nat
  unlinking : Nat
  awaiting : Nat
  freeing : Nat
  listed : Nat
  taken : Bool
  freed : Nat

def share (s : State) (w : Nat) : Share where
  status := (s.workers w).status
  handles := s.handles.count w
  linking := total (linking w) s.threads
  unlinking := total (unlinking w) s.threads
  awaiting := total (awaiting w) s.threads
  freeing := total (freeing w) s.threads
  listed := s.worker_list.count w
  taken := s.taken.contains w
  freed := s.freed.count w

@[simp] def nobody (status : WorkerStatus) : Share := ⟨status,0,0,0,0,0,0,false,0⟩

/-- The life of a worker; a removal goes one way and `destroy` another. -/
inductive Owned : Share → Prop
  | absent (status : WorkerStatus) : Owned (nobody status)
  | adding (status : WorkerStatus) : Owned { nobody status with linking := 1 }
  | registered (status : WorkerStatus) : Owned { nobody status with handles := 1, listed := 1 }
  | unlinking (status : WorkerStatus) : Owned { nobody status with unlinking := 1, listed := 1 }
  | awaiting (status : WorkerStatus) : Owned { nobody status with awaiting := 1 }
  | freeing : Owned { nobody .waiting with freeing := 1 }
  | removed : Owned { nobody .waiting with freed := 1 }
  | taken (status : WorkerStatus) : Owned { nobody status with handles := 1, listed := 1, taken := true }
  | deleted (status : WorkerStatus) : Owned { nobody status with handles := 1, taken := true }
  | destroyed : Owned { nobody .waiting with handles := 1, taken := true, freed := 1 }

namespace Owned

variable {v : Share}

theorem link (owned : Owned v) (adds : 0 < v.linking) :
    Owned { v with
      handles := v.handles + 1
      linking := v.linking - 1
      listed := v.listed + 1 } := by
  cases owned with
  | adding status => exact .registered status
  | absent | registered | unlinking | awaiting | freeing | removed | taken | deleted | destroyed => simp at adds

theorem removeWorker (owned : Owned v) (held : 0 < v.handles) (untaken : v.taken = false) :
    Owned { v with
      handles := v.handles - 1
      unlinking := v.unlinking + 1 } := by
  cases owned with
  | registered status => exact .unlinking status
  | absent | adding | unlinking | awaiting | freeing | removed => simp at held
  | taken | deleted | destroyed => simp at untaken

theorem unlink (owned : Owned v) (removes : 0 < v.unlinking) :
    Owned { v with
      unlinking := v.unlinking - 1
      awaiting := v.awaiting + 1
      listed := v.listed - 1 } := by
  cases owned with
  | unlinking status => exact .awaiting status
  | absent | adding | registered | awaiting | freeing | removed | taken | deleted | destroyed => simp at removes

theorem await (owned : Owned v) (removes : 0 < v.awaiting) (waiting : v.status = .waiting) :
    Owned { v with
      awaiting := v.awaiting - 1
      freeing := v.freeing + 1 } := by
  cases owned with
  | awaiting status =>
    cases waiting
    exact .freeing
  | absent | adding | registered | unlinking | freeing | removed | taken | deleted | destroyed => simp at removes

theorem free (owned : Owned v) (removes : 0 < v.freeing) :
    Owned { v with
      freeing := v.freeing - 1
      freed := v.freed + 1 } := by
  cases owned with
  | freeing => exact .removed
  | absent | adding | registered | unlinking | awaiting | removed | taken | deleted | destroyed => simp at removes

theorem setBusy (owned : Owned v) (listed : 0 < v.listed) : Owned { v with status := .busy } := by
  cases owned with
  | registered => exact .registered .busy
  | unlinking => exact .unlinking .busy
  | taken => exact .taken .busy
  | absent | adding | awaiting | freeing | removed | deleted | destroyed => simp at listed

theorem setWaiting (owned : Owned v) : Owned { v with status := .waiting } := by
  cases owned with
  | absent => exact .absent .waiting
  | adding => exact .adding .waiting
  | registered => exact .registered .waiting
  | unlinking => exact .unlinking .waiting
  | awaiting => exact .awaiting .waiting
  | freeing => exact .freeing
  | removed => exact .removed
  | taken => exact .taken .waiting
  | deleted => exact .deleted .waiting
  | destroyed => exact .destroyed

theorem take (owned : Owned v) (listed : 0 < v.listed) (kept : v.unlinking = 0) : Owned { v with taken := true } := by
  cases owned with
  | registered status | taken status => exact .taken status
  | unlinking => simp at kept
  | absent | adding | awaiting | freeing | removed | deleted | destroyed => simp at listed

theorem delete (owned : Owned v) (listed : 0 < v.listed) (taken : v.taken = true) :
    Owned { v with listed := v.listed - 1 } := by
  cases owned with
  | taken status => exact .deleted status
  | registered | unlinking => simp at taken
  | absent | adding | awaiting | freeing | removed | deleted | destroyed => simp at listed

theorem release (owned : Owned v) (taken : v.taken = true) (deleted : v.listed = 0) (live : v.freed = 0)
    (waiting : v.status = .waiting) : Owned { v with freed := v.freed + 1 } := by
  cases owned with
  | deleted status =>
    cases waiting
    exact .destroyed
  | taken => simp at deleted
  | destroyed => simp at live
  | absent | adding | registered | unlinking | awaiting | freeing | removed => simp at taken

/-- A worker is listed once at most, and then it has not been freed. -/
theorem listed_live (owned : Owned v) (listed : 0 < v.listed) : v.listed = 1 ∧ v.freed = 0 := by
  cases owned with
  | registered | unlinking | taken => exact ⟨rfl,rfl⟩
  | absent | adding | awaiting | freeing | removed | deleted | destroyed => simp at listed

/-- It is freed once at most, and then it is waiting. -/
theorem freed_waiting (owned : Owned v) (freed : 0 < v.freed) : v.freed = 1 ∧ v.status = .waiting := by
  cases owned with
  | removed | destroyed => exact ⟨rfl,rfl⟩
  | absent | adding | registered | unlinking | awaiting | freeing | taken | deleted => simp at freed

/-- A removal that is under way has the worker for itself. -/
theorem removing (owned : Owned v) (removes : 0 < v.unlinking + v.awaiting + v.freeing) :
    v.taken = false ∧ v.freed = 0 ∧ v.listed = v.unlinking := by
  cases owned with
  | unlinking | awaiting | freeing => exact ⟨rfl,rfl,rfl⟩
  | absent | adding | registered | removed | taken | deleted | destroyed => simp at removes

end Owned

/-- The walk of `destroy` holds the first worker that is left, or has just deleted it. -/
def Stage (s : State) : Prop :=
  match s.destroy with
  | .uncalled | .joining | .starting => True
  | .examining w => s.worker_list.head? = some w ∧ w ∈ s.taken
  | .deleting w next => s.worker_list.head? = some w ∧ next = s.worker_list.tail.head? ∧ w ∈ s.taken ∧ ∀ n ∈ next, n ∈ s.taken
  | .releasing w next => w ∉ s.worker_list ∧ w ∉ s.freed ∧ next = s.worker_list.head? ∧ w ∈ s.taken ∧ ∀ n ∈ next, n ∈ s.taken
  | .leaving | .returned => s.worker_list = []

structure Held (s : State) : Prop where
  owned : ∀ w, Owned (share s w)
  unborn : ∀ w, s.allocated ≤ w → share s w = nobody (s.workers w).status
  settled : s.destroy ≠ .uncalled → ∀ w, total (linking w) s.threads = 0
  stage : Stage s
  unused : s.failure ≠ some .useAfterFree
  linked : s.failure ≠ some .nullPointer

theorem following_head {worker_list : List Nat} (head : worker_list.head? = some w) :
    following worker_list w = worker_list.tail.head? := by
  cases worker_list with
  | nil => cases head
  | cons first rest =>
    obtain rfl : first = w := by simpa using head
    simp [following]

theorem touch_live (live : w ∉ s.freed) (next : Option State) : touch s w next = next := if_neg live

theorem operate_live (live : w ∉ s.freed) (op : Op) (next : Option (State × List Op)) : operate s op w next = next := if_neg live

theorem release_live {s : State} (live : w ∉ s.freed) : release s w = { s with freed := w :: s.freed } := by
  simp [release,live]

/-- A thread's step moves the shares of its operation. -/
theorem share_advance {i : Nat} (here : s.threads[i]? = some (op :: rest)) (ops : List Op) (w : Nat) :
    share { s with threads := s.threads.set i (ops ++ rest) } w = { share s w with
      linking := (share s w).linking + (ops.map (linking w)).sum - linking w op
      unlinking := (share s w).unlinking + (ops.map (unlinking w)).sum - unlinking w op
      awaiting := (share s w).awaiting + (ops.map (awaiting w)).sum - awaiting w op
      freeing := (share s w).freeing + (ops.map (freeing w)).sum - freeing w op } := by
  have linking := total_advance (linking w) here ops
  have unlinking := total_advance (unlinking w) here ops
  have awaiting := total_advance (awaiting w) here ops
  have freeing := total_advance (freeing w) here ops
  simp only [share,Share.mk.injEq,true_and,and_true]
  omega

theorem share_spawn (s : State) (op : Op) (w : Nat) :
    share { s with threads := s.threads ++ [[op]] } w = { share s w with
      linking := (share s w).linking + linking w op
      unlinking := (share s w).unlinking + unlinking w op
      awaiting := (share s w).awaiting + awaiting w op
      freeing := (share s w).freeing + freeing w op } := by
  simp only [share,total_spawn]

namespace Held

theorem move (held : Held s) (moved : ∀ w, share s' w = share s w ∨ Owned (share s' w) ∧ w < s.allocated)
    (allocated : s'.allocated = s.allocated) (settled : s'.destroy ≠ .uncalled → ∀ w, total (linking w) s'.threads = 0)
    (stage : Stage s') (unused : s'.failure ≠ some .useAfterFree) (linked : s'.failure ≠ some .nullPointer) : Held s' := by
  refine ⟨?_,?_,settled,stage,unused,linked⟩
  · intro w
    rcases moved w with same | ⟨owned,-⟩
    · exact same ▸ held.owned w
    · exact owned
  · intro w new
    rw [allocated] at new
    rcases moved w with same | ⟨-,existing⟩
    · have status : (s'.workers w).status = (s.workers w).status := congrArg Share.status same
      rw [same,status]
      exact held.unborn w new
    · omega

theorem only (others : ∀ x, x ≠ w → share s' x = share s x) (own : share s' w = v) (owned : Owned v)
    (existing : w < s.allocated) (x : Nat) : share s' x = share s x ∨ Owned (share s' x) ∧ x < s.allocated := by
  by_cases same : x = w
  · subst same
    exact .inr ⟨own ▸ owned,existing⟩
  · exact .inl (others x same)

theorem born (held : Held s) (somebody : share s w ≠ nobody (s.workers w).status) : w < s.allocated := by
  by_contra new
  exact somebody (held.unborn w (Nat.le_of_not_lt new))

theorem live (held : Held s) (member : w ∈ s.worker_list) : w ∉ s.freed := by
  have listed : 0 < (share s w).listed := List.count_pos_iff.mpr member
  exact List.count_eq_zero.mp ((held.owned w).listed_live listed).2

theorem listed_once (held : Held s) : s.worker_list.Nodup := by
  apply List.nodup_iff_count_le_one.mpr
  intro w
  by_cases member : w ∈ s.worker_list
  · have listed : 0 < (share s w).listed := List.count_pos_iff.mpr member
    exact Nat.le_of_eq ((held.owned w).listed_live listed).1
  · rw [List.count_eq_zero_of_not_mem member]
    exact Nat.zero_le 1

/-- A worker that is busy has not been freed. -/
theorem busy_live (held : Held s) (busy : (s.workers w).status = .busy) : w ∉ s.freed := by
  intro member
  have freed : 0 < (share s w).freed := List.count_pos_iff.mpr member
  have waiting : (s.workers w).status = .waiting := ((held.owned w).freed_waiting freed).2
  simp [busy] at waiting

end Held

theorem Held.timer (held : Held s) (inv : Inv s) (taken : houseKeepingWorkerThread s accepted = some s') : Held s' := by
  have live : ∀ w ∈ s.timer.todo, w ∉ s.freed := fun w member => held.live (inv.walks w member)
  cases here : s.timer with
  | checking | locking =>
    simp only [houseKeepingWorkerThread,here] at taken
    cases taken
    exact ⟨held.owned,held.unborn,held.settled,held.stage,held.unused,held.linked⟩
  | walking todo =>
    cases todo with
    | nil =>
      simp only [houseKeepingWorkerThread,here] at taken
      cases taken
      exact ⟨held.owned,held.unborn,held.settled,held.stage,held.unused,held.linked⟩
    | cons w todo =>
      simp only [houseKeepingWorkerThread,here,touch_live (live w (by simp [here,Timer.todo]))] at taken
      cases taken
      exact ⟨held.owned,held.unborn,held.settled,held.stage,held.unused,held.linked⟩
  | visiting w next todo =>
    have member := inv.here_listed here
    have listed : 0 < (share s w).listed := List.count_pos_iff.mpr member
    cases next with
    | decrement =>
      simp only [houseKeepingWorkerThread,here,touch_live (held.live member)] at taken
      cases taken
      apply held.move
      · intro x
        left
        by_cases own : x = w
        · simp [share,setWorker,own]
        · simp [share,setWorker,own]
      · rfl
      · exact held.settled
      · exact held.stage
      · exact held.unused
      · exact held.linked
    | setBusy =>
      simp only [houseKeepingWorkerThread,here,touch_live (held.live member)] at taken
      cases taken
      apply held.move
      · apply Held.only (w := w) (v := { share s w with status := .busy })
        · intro x other
          simp [share,setWorker,other]
        · simp [share,setWorker]
        · exact (held.owned w).setBusy listed
        · exact (inv.listed w member).1
      · rfl
      · exact held.settled
      · exact held.stage
      · exact held.unused
      · exact held.linked
    | insertTail =>
      simp only [houseKeepingWorkerThread,here,touch_live (held.live member)] at taken
      cases accepted with
      | true =>
        cases taken
        exact ⟨held.owned,held.unborn,held.settled,held.stage,held.unused,held.linked⟩
      | false =>
        cases taken
        exact ⟨held.owned,held.unborn,held.settled,held.stage,by simp [fail],by simp [fail]⟩
  | exited => simp [houseKeepingWorkerThread,here] at taken

namespace Held

/-- An operation of a callback finds its worker busy. -/
theorem owing_busy {i : Nat} (inv : Inv s) (here : s.threads[i]? = some (op :: rest)) (owed : owing w op = 1) :
    Busy (view s w) := by
  have weight := weight_le_total (owing w) here
  have outstanding : 0 < (view s w).outstanding := by
    simp only [view]
    omega
  exact (inv.timed w).single outstanding

theorem thread_step {i : Nat} (held : Held s) (here : s.threads[i]? = some (op :: rest)) (ops : List Op)
    (plain : ∀ w, linking w op = 0 ∧ (ops.map (linking w)).sum = 0)
    (moved : ∀ w, share { s with worker_list, freed, threads := s.threads.set i (ops ++ rest) } w = share s w ∨
      Owned (share { s with worker_list, freed, threads := s.threads.set i (ops ++ rest) } w) ∧ w < s.allocated)
    (stage : Stage { s with worker_list, freed }) :
    Held { s with
      worker_list, freed
      threads := s.threads.set i (ops ++ rest) } := by
  apply held.move moved
  · rfl
  · intro called w
    have none := held.settled called w
    have advanced := total_advance (linking w) here ops
    have unlinked := plain w
    change total (linking w) (s.threads.set i (ops ++ rest)) = 0
    omega
  · exact stage
  · exact held.unused
  · exact held.linked

theorem spawn_step (held : Held s) (plain : ∀ w, linking w op = 0)
    (moved : ∀ w, share { s with queued, handles, threads := s.threads ++ [[op]] } w = share s w ∨
      Owned (share { s with queued, handles, threads := s.threads ++ [[op]] } w) ∧ w < s.allocated) :
    Held { s with
      queued, handles
      threads := s.threads ++ [[op]] } := by
  apply held.move moved
  · rfl
  · intro called w
    rw [total_spawn,plain w]
    exact held.settled called w
  · exact held.stage
  · exact held.unused
  · exact held.linked

theorem proceed {i : Nat} (held : Held s) (here : s.threads[i]? = some (op :: rest)) (ops : List Op)
    (links : ∀ w, linking w op = 0 ∧ (ops.map (linking w)).sum = 0)
    (unlinks : ∀ w, unlinking w op = 0 ∧ (ops.map (unlinking w)).sum = 0)
    (awaits : ∀ w, awaiting w op = 0 ∧ (ops.map (awaiting w)).sum = 0)
    (frees : ∀ w, freeing w op = 0 ∧ (ops.map (freeing w)).sum = 0) :
    Held { s with threads := s.threads.set i (ops ++ rest) } := by
  apply held.thread_step here ops links
  · intro w
    left
    rw [share_advance here]
    simp only [links w,unlinks w,awaits w,frees w,Nat.add_zero,Nat.sub_zero]
  · exact held.stage

theorem setWorker (held : Held s) (worker : Worker) (existing : w < s.allocated)
    (status : worker.status = (s.workers w).status ∨ worker.status = .waiting) (log : List Event) :
    Held { HouseKeeping.setWorker s w worker with log } := by
  apply held.move
  · apply only (w := w) (v := { share s w with status := worker.status })
    · intro x other
      simp [share,HouseKeeping.setWorker,other]
    · simp [share,HouseKeeping.setWorker]
    · rcases status with same | waiting
      · rw [same]
        exact held.owned w
      · rw [waiting]
        exact (held.owned w).setWaiting
    · exact existing
  · rfl
  · exact held.settled
  · exact held.stage
  · exact held.unused
  · exact held.linked

/-- A new worker is linked into the list before `destroy` is called. -/
theorem link {i : Nat} (held : Held s) (here : s.threads[i]? = some (.link w :: rest)) :
    s.destroy ≠ .returned ∧ Held { s with
      worker_list := w :: s.worker_list
      handles := w :: s.handles
      log := .registered w (s.workers w).interval :: s.log
      threads := s.threads.set i rest } := by
  have adds := weight_le_total (linking w) here
  simp only [linking,on,if_true] at adds
  have uncalled : s.destroy = .uncalled := by
    by_contra called
    have none := held.settled called w
    omega
  refine ⟨by simp [uncalled],?_⟩
  have moved (x : Nat) := share_advance (s := { s with
    worker_list := w :: s.worker_list
    handles := w :: s.handles
    log := .registered w (s.workers w).interval :: s.log }) here [] x
  apply held.move
  · apply only (w := w) (v := { share s w with
      handles := (share s w).handles + 1
      linking := (share s w).linking - 1
      listed := (share s w).listed + 1 })
    · intro x other
      exact (moved x).trans (by simp [share,Ne.symm other])
    · exact (moved w).trans (by simp [share])
    · exact (held.owned w).link adds
    · apply held.born
      intro none
      have unlinked : total (linking w) s.threads = 0 := congrArg Share.linking none
      omega
  · rfl
  · exact fun called => (called uncalled).elim
  · simp [Stage,uncalled]
  · exact held.unused
  · exact held.linked

/-- A removal of a worker that `destroy` has not taken leaves its walk as it is. -/
theorem stage_unlink (held : Held s) (untaken : w ∉ s.taken) : Stage { s with worker_list := s.worker_list.erase w } := by
  have stage := held.stage
  have first : ∀ n ∈ s.taken, s.worker_list.head? = some n → (s.worker_list.erase w).head? = some n ∧
      (s.worker_list.erase w).tail = s.worker_list.tail.erase w := by
    intro n member head
    have other : n ≠ w := fun same => untaken (same ▸ member)
    cases list : s.worker_list with
    | nil => simp [list] at head
    | cons m rest =>
      obtain rfl : m = n := by simpa [list] using head
      simp [List.erase_cons_tail,other]
  have second : ∀ rest : List Nat, (∀ n ∈ rest.head?, n ∈ s.taken) → rest.head? = (rest.erase w).head? := by
    intro rest taken
    cases rest with
    | nil => rfl
    | cons n rest =>
      have other : n ≠ w := fun same => untaken (same ▸ taken n rfl)
      simp [List.erase_cons_tail,other]
  unfold Stage at stage ⊢
  cases here : s.destroy with
  | uncalled | joining | starting => trivial
  | examining n =>
    simp only [here] at stage ⊢
    exact ⟨(first n stage.2 stage.1).1,stage.2⟩
  | deleting n next =>
    simp only [here] at stage ⊢
    obtain ⟨head,after,taken,later⟩ := stage
    obtain ⟨still,tail⟩ := first n taken head
    refine ⟨still,?_,taken,later⟩
    rw [tail,after]
    exact second _ (after ▸ later)
  | releasing n next =>
    simp only [here] at stage ⊢
    obtain ⟨absent,live,after,taken,later⟩ := stage
    refine ⟨fun member => absent (List.mem_of_mem_erase member),live,?_,taken,later⟩
    rw [after]
    exact second _ (after ▸ later)
  | leaving | returned =>
    simp only [here] at stage ⊢
    simp [stage]

/-- A removal that is under way has a worker that nobody else has. -/
theorem removing (held : Held s) (removes : 0 < total (unlinking w) s.threads + total (awaiting w) s.threads +
    total (freeing w) s.threads) : w ∉ s.taken ∧ w ∉ s.freed ∧ w < s.allocated ∧
      s.worker_list.count w = total (unlinking w) s.threads := by
  obtain ⟨untaken,live,listed⟩ := (held.owned w).removing removes
  refine ⟨by simpa [share] using untaken,List.count_eq_zero.mp live,?_,listed⟩
  apply held.born
  intro none
  have unlinks : total (unlinking w) s.threads = 0 := congrArg Share.unlinking none
  have awaits : total (awaiting w) s.threads = 0 := congrArg Share.awaiting none
  have frees : total (freeing w) s.threads = 0 := congrArg Share.freeing none
  omega

theorem unlink {i : Nat} (held : Held s) (here : s.threads[i]? = some (.unlink w :: rest)) :
    s.destroy ≠ .returned ∧ w ∉ s.freed ∧ w ∈ s.worker_list ∧ Held { s with
      worker_list := s.worker_list.erase w
      threads := s.threads.set i (.await w :: rest) } := by
  have removes := weight_le_total (unlinking w) here
  simp only [unlinking,on,if_true] at removes
  obtain ⟨untaken,live,existing,listed⟩ := held.removing (w := w) (by omega)
  have member : w ∈ s.worker_list := by
    apply List.count_pos_iff.mp
    omega
  refine ⟨?_,live,member,?_⟩
  · intro returned
    have empty := held.stage
    simp only [Stage,returned] at empty
    simp [empty] at member
  have moved (x : Nat) := share_advance (s := { s with worker_list := s.worker_list.erase w }) here [.await w] x
  apply held.thread_step here [.await w] (by simp)
  · apply only (w := w) (v := { share s w with
      unlinking := (share s w).unlinking - 1
      awaiting := (share s w).awaiting + 1
      listed := (share s w).listed - 1 })
    · intro x other
      exact (moved x).trans (by simp [share,Ne.symm other,List.count_erase_of_ne other])
    · exact (moved w).trans (by simp [share])
    · exact (held.owned w).unlink removes
    · exact existing
  · exact held.stage_unlink untaken

theorem await {i : Nat} (held : Held s) (here : s.threads[i]? = some (.await w :: rest)) :
    w ∉ s.freed ∧ ((s.workers w).status = .waiting → Held { s with threads := s.threads.set i (.free w :: rest) }) := by
  have removes := weight_le_total (awaiting w) here
  simp only [awaiting,on,if_true] at removes
  obtain ⟨-,live,existing,-⟩ := held.removing (w := w) (by omega)
  refine ⟨live,?_⟩
  intro waiting
  have moved (x : Nat) := share_advance here [.free w] x
  apply held.thread_step here [.free w] (by simp)
  · apply only (w := w) (v := { share s w with
      awaiting := (share s w).awaiting - 1
      freeing := (share s w).freeing + 1 })
    · intro x other
      exact (moved x).trans (by simp [share,Ne.symm other])
    · exact (moved w).trans (by simp [share])
    · exact (held.owned w).await removes waiting
    · exact existing
  · exact held.stage

/-- The worker of a removal is not the one that `destroy` is about to free. -/
theorem stage_free (held : Held s) (untaken : w ∉ s.taken) : Stage { s with freed := w :: s.freed } := by
  have stage := held.stage
  unfold Stage at stage ⊢
  cases here : s.destroy with
  | releasing n next =>
    simp only [here] at stage ⊢
    obtain ⟨absent,live,after,taken,later⟩ := stage
    have other : n ≠ w := fun same => untaken (same ▸ taken)
    exact ⟨absent,by simp [other,live],after,taken,later⟩
  | uncalled | joining | starting => trivial
  | examining | deleting | leaving | returned => simpa only [here] using stage

theorem free {i : Nat} (held : Held s) (here : s.threads[i]? = some (.free w :: rest)) :
    Held { release s w with threads := s.threads.set i rest } := by
  have removes := weight_le_total (freeing w) here
  simp only [freeing,on,if_true] at removes
  obtain ⟨untaken,live,existing,-⟩ := held.removing (w := w) (by omega)
  rw [release_live live]
  have moved (x : Nat) := share_advance (s := { s with freed := w :: s.freed }) here [] x
  apply held.thread_step here [] (by simp)
  · apply only (w := w) (v := { share s w with
      freeing := (share s w).freeing - 1
      freed := (share s w).freed + 1 })
    · intro x other
      exact (moved x).trans (by simp [share,Ne.symm other])
    · exact (moved w).trans (by simp [share])
    · exact (held.owned w).free removes
    · exact existing
  · exact held.stage_free untaken

/-- A thread that starts has no share, or only the one it takes over. -/
theorem doJob (held : Held s) : Held { s with
    queued
    threads := s.threads ++ [[.assertStatus w]] } := by
  apply held.spawn_step (by simp)
  exact fun x => .inl (share_spawn s (.assertStatus w) x)

theorem addWorker (held : Held s) (uncalled : s.destroy = .uncalled) (interval : Int) :
    Held { HouseKeeping.setWorker s s.allocated ⟨.waiting,interval,interval⟩ with
      allocated := s.allocated + 1
      threads := s.threads ++ [[.link s.allocated]] } := by
  have blank := held.unborn s.allocated (Nat.le_refl _)
  have spawned (x : Nat) := share_spawn (HouseKeeping.setWorker s s.allocated ⟨.waiting,interval,interval⟩) (.link s.allocated) x
  have others (x : Nat) (other : x ≠ s.allocated) : share { HouseKeeping.setWorker s s.allocated ⟨.waiting,interval,interval⟩ with
      allocated := s.allocated + 1
      threads := s.threads ++ [[.link s.allocated]] } x = share s x :=
    (spawned x).trans (by simp [share,HouseKeeping.setWorker,other,Ne.symm other])
  have own : share { HouseKeeping.setWorker s s.allocated ⟨.waiting,interval,interval⟩ with
      allocated := s.allocated + 1
      threads := s.threads ++ [[.link s.allocated]] } s.allocated = { share s s.allocated with
      status := .waiting
      linking := (share s s.allocated).linking + 1 } :=
    (spawned s.allocated).trans (by simp [share,HouseKeeping.setWorker])
  refine ⟨?_,?_,?_,?_,held.unused,held.linked⟩
  · intro x
    by_cases same : x = s.allocated
    · subst same
      rw [own,blank]
      exact .adding .waiting
    · rw [others x same]
      exact held.owned x
  · intro x new
    have above : s.allocated + 1 ≤ x := new
    have other : x ≠ s.allocated := by omega
    rw [others x other]
    simpa [HouseKeeping.setWorker,other] using held.unborn x (by omega)
  · exact fun called => (called uncalled).elim
  · simp [Stage,HouseKeeping.setWorker,uncalled]

theorem removeWorker (held : Held s) (member : w ∈ s.handles) (untaken : w ∉ s.taken) :
    Held { s with
      handles := s.handles.erase w
      threads := s.threads ++ [[.unlink w]] } := by
  have handle : 0 < (share s w).handles := List.count_pos_iff.mpr member
  have spawned (x : Nat) := share_spawn { s with handles := s.handles.erase w } (.unlink w) x
  apply held.spawn_step (by simp)
  · apply only (w := w) (v := { share s w with
      handles := (share s w).handles - 1
      unlinking := (share s w).unlinking + 1 })
    · intro x other
      exact (spawned x).trans (by simp [share,Ne.symm other,List.count_erase_of_ne other])
    · exact (spawned w).trans (by simp [share])
    · exact (held.owned w).removeWorker handle (by simpa [share] using untaken)
    · apply held.born
      intro none
      simp [none] at handle

end Held

namespace Held

theorem take {destroy : Destroy} (held : Held s) (inv : Inv s) (member : w ∈ s.worker_list) (kept : total (unlinking w) s.threads = 0)
    (called : s.destroy ≠ .uncalled) (stage : Stage { s with destroy, taken := w :: s.taken }) :
    Held { s with
      destroy
      taken := w :: s.taken } := by
  have listed : 0 < (share s w).listed := List.count_pos_iff.mpr member
  apply held.move
  · apply only (w := w) (v := { share s w with taken := true })
    · intro x other
      simp [share,other]
    · simp [share]
    · exact (held.owned w).take listed kept
    · exact (inv.listed w member).1
  · rfl
  · exact fun _ => held.settled called
  · exact stage
  · exact held.unused
  · exact held.linked

theorem advance {destroy : Destroy} (held : Held s) (settled : ∀ w, total (linking w) s.threads = 0)
    (stage : Stage { s with destroy }) :
    Held { s with
      destroy
      worker_stop } :=
  ⟨held.owned,held.unborn,fun _ => settled,stage,held.unused,held.linked⟩

theorem delete (held : Held s) (here : s.destroy = .deleting w next) :
    w ∈ s.worker_list ∧ w ∉ s.freed ∧ Held { s with
      worker_list := s.worker_list.erase w
      destroy := .releasing w next } := by
  have stage := held.stage
  simp only [Stage,here] at stage
  obtain ⟨head,after,taken,later⟩ := stage
  have member := List.mem_of_mem_head? head
  have listed : 0 < (share s w).listed := List.count_pos_iff.mpr member
  have live := held.live member
  refine ⟨member,live,?_⟩
  apply held.move
  · apply only (w := w) (v := { share s w with listed := (share s w).listed - 1 })
    · intro x other
      simp [share,List.count_erase_of_ne other]
    · simp [share]
    · exact (held.owned w).delete listed (by simpa [share] using taken)
    · apply held.born
      intro none
      simp [none] at listed
  · rfl
  · exact fun _ => held.settled (by simp [here])
  · have erased : s.worker_list.erase w = s.worker_list.tail := by
      cases list : s.worker_list with
      | nil => simp [list] at head
      | cons first rest =>
        obtain rfl : first = w := by simpa [list] using head
        simp
    refine ⟨?_,live,?_,taken,later⟩
    · exact fun member => (List.Nodup.mem_erase_iff held.listed_once).mp member |>.1 rfl
    · exact after.trans (congrArg List.head? erased.symm)
  · exact held.unused
  · exact held.linked

theorem release (held : Held s) (here : s.destroy = .releasing w next) (waiting : (s.workers w).status = .waiting) :
    Held { HouseKeeping.release s w with destroy := .goOn next } := by
  have stage := held.stage
  simp only [Stage,here] at stage
  obtain ⟨absent,live,after,taken,later⟩ := stage
  rw [release_live live]
  apply held.move
  · apply only (w := w) (v := { share s w with freed := (share s w).freed + 1 })
    · intro x other
      simp [share,Ne.symm other]
    · simp [share]
    · apply (held.owned w).release
      · simpa [share] using taken
      · exact List.count_eq_zero_of_not_mem absent
      · exact List.count_eq_zero_of_not_mem live
      · exact waiting
    · apply held.born
      intro none
      have untaken : s.taken.contains w = false := congrArg Share.taken none
      simp [taken] at untaken
  · rfl
  · exact fun _ => held.settled (by simp [here])
  · cases next with
    | none => exact List.head?_eq_none_iff.mp after.symm
    | some n => exact ⟨after.symm,later n rfl⟩
  · exact held.unused
  · exact held.linked

theorem examine (held : Held s) (inv : Inv s) (here : s.destroy = .examining w)
    (takes : ∀ n ∈ following s.worker_list w, total (unlinking n) s.threads = 0) :
    w ∉ s.freed ∧ Held { s with
      destroy := .deleting w (following s.worker_list w)
      taken := (following s.worker_list w).toList ++ s.taken } := by
  have stage := held.stage
  simp only [Stage,here] at stage
  obtain ⟨head,taken⟩ := stage
  refine ⟨held.live (List.mem_of_mem_head? head),?_⟩
  have after := following_head head
  have called : s.destroy ≠ .uncalled := by simp [here]
  cases next : following s.worker_list w with
  | none =>
    apply held.advance (held.settled called)
    exact ⟨head,next.symm.trans after,taken,by simp⟩
  | some n =>
    have second : n ∈ s.worker_list.tail := List.mem_of_mem_head? (after.symm.trans next)
    apply held.take inv (List.mem_of_mem_tail second) (takes n next) called
    refine ⟨head,next.symm.trans after,List.mem_cons_of_mem _ taken,?_⟩
    intro m same
    cases same
    exact List.mem_cons_self

theorem destroying (held : Held s) (inv : Inv s) (orderly : Orderly s .destroy) (taken : destroy s = some s') : Held s' := by
  obtain ⟨takes,frees⟩ := orderly
  have settled : s.destroy ≠ .uncalled → ∀ w, total (linking w) s.threads = 0 := held.settled
  cases here : s.destroy with
  | uncalled =>
    simp only [destroy,here] at taken
    split at taken
    case isTrue => cases taken
    case isFalse nobody =>
      cases taken
      apply held.advance
      · intro w
        apply (total_eq_zero _).mpr
        intro ops member op inside
        cases op with
        | link x => exact (nobody (List.any_eq_true.mpr ⟨ops,member,List.any_eq_true.mpr ⟨.link x,inside,rfl⟩⟩)).elim
        | assertStatus | assertCounter | resetCounter | setWaiting | unlink | await | free => rfl
      · trivial
  | joining =>
    simp only [destroy,here] at taken
    split at taken
    · cases taken
      apply held.advance (settled (by simp [here]))
      trivial
    · cases taken
  | starting =>
    simp only [destroy,here] at taken
    split at taken
    case h_1 list =>
      cases taken
      apply held.advance (settled (by simp [here]))
      exact list
    case h_2 w rest list =>
      cases taken
      apply held.take inv (by simp [list]) (takes w (by simp [destroyTakes,here,list])) (by simp [here])
      exact ⟨by simp [list],List.mem_cons_self⟩
  | examining w =>
    obtain ⟨live,examined⟩ := held.examine inv here (by simpa [destroyTakes,here] using takes)
    simp only [destroy,here,touch_live live] at taken
    cases taken
    exact examined
  | deleting w next =>
    obtain ⟨member,live,deleted⟩ := held.delete here
    simp only [destroy,here,touch_live live,if_pos member] at taken
    cases taken
    exact deleted
  | releasing w next =>
    have waiting := frees w (by simp [destroyFrees,here])
    simp only [destroy,here] at taken
    cases taken
    exact held.release here waiting
  | leaving =>
    have empty := held.stage
    simp only [Stage,here] at empty
    simp only [destroy,here] at taken
    cases taken
    apply held.advance (settled (by simp [here]))
    exact empty
  | returned => simp [destroy,here] at taken

end Held

theorem Held.exec {i : Nat} (held : Held s) (inv : Inv s) (here : s.threads[i]? = some (op :: rest))
    (done : exec s op = some (s1,ops)) : Held { s1 with threads := s.threads.set i (ops ++ rest) } := by
  cases op with
  | link w =>
    obtain ⟨present,linked⟩ := held.link here
    simp only [HouseKeeping.exec,if_neg present] at done
    split at done
    · cases done
    · cases done
      exact linked
  | assertStatus w =>
    have busy := owing_busy (w := w) inv here (by simp)
    have status : (s.workers w).status = .busy := busy.status
    simp only [HouseKeeping.exec,operate_live (held.busy_live status),if_pos status] at done
    cases done
    exact held.proceed here _ (by simp) (by simp) (by simp) (by simp)
  | assertCounter w =>
    obtain ⟨busy,counter,-⟩ := inv.unreset (w := w) here (by simp)
    simp only [HouseKeeping.exec,operate_live (held.busy_live busy.status),if_pos counter] at done
    cases done
    exact held.proceed here _ (by simp) (by simp) (by simp) (by simp)
  | resetCounter w =>
    obtain ⟨busy,-⟩ := inv.unreset (w := w) here (by simp)
    simp only [HouseKeeping.exec,operate_live (held.busy_live busy.status)] at done
    cases done
    have reset := held.setWorker { s.workers w with counter := (s.workers w).interval } (inv.busy_linked busy).1
      (.inl rfl) s.log
    exact reset.proceed here _ (by simp) (by simp) (by simp) (by simp)
  | setWaiting w =>
    have busy := owing_busy (w := w) inv here (by simp)
    simp only [HouseKeeping.exec,operate_live (held.busy_live busy.status)] at done
    cases done
    have set := held.setWorker { s.workers w with status := .waiting } (inv.busy_linked busy).1 (.inr rfl) (.calledBack w :: s.log)
    exact set.proceed here _ (by simp) (by simp) (by simp) (by simp)
  | unlink w =>
    obtain ⟨present,live,member,unlinked⟩ := held.unlink here
    simp only [HouseKeeping.exec,if_neg present,operate_live live,if_pos member] at done
    split at done
    · cases done
    · cases done
      exact unlinked
  | await w =>
    obtain ⟨live,awaited⟩ := held.await here
    simp only [HouseKeeping.exec,operate_live live] at done
    split at done
    case isTrue => cases done
    case isFalse idle =>
      cases done
      apply awaited
      cases status : (s.workers w).status with
      | waiting => rfl
      | busy => exact (idle status).elim
  | free w =>
    cases done
    exact held.free here

theorem Held.step (held : Held s) (inv : Inv s) (orderly : Orderly s a) (taken : HouseKeeping.step s a = some s') :
    Held s' := by
  unfold HouseKeeping.step at taken
  split at taken
  case isTrue => cases taken
  case isFalse =>
    cases a with
    | addWorker interval =>
      simp only at taken
      split at taken
      case isTrue uncalled =>
        cases taken
        exact held.addWorker uncalled interval
      case isFalse => cases taken
    | removeWorker w =>
      simp only at taken
      split at taken
      case isTrue member =>
        cases taken
        exact held.removeWorker member orderly
      case isFalse => cases taken
    | doJob w =>
      simp only at taken
      split at taken
      case isTrue member =>
        have queued := List.count_pos_iff.mpr member
        have outstanding : 0 < (view s w).outstanding := by
          simp only [view]
          omega
        have busy := ((inv.timed w).single outstanding).status
        rw [touch_live (held.busy_live busy)] at taken
        cases taken
        exact held.doJob
      case isFalse => cases taken
    | timer accepted => exact held.timer inv taken
    | destroy => exact held.destroying inv orderly taken
    | run thread =>
      simp only at taken
      split at taken
      case h_1 op rest here =>
        obtain ⟨⟨s1,ops⟩,done,rfl⟩ := Option.map_eq_some_iff.mp taken
        exact held.exec inv here done
      case h_2 => cases taken

theorem Held.init : Held initHouseKeeping := by
  refine ⟨?_,?_,?_,trivial,by simp [initHouseKeeping],by simp [initHouseKeeping]⟩
  · exact fun w => .absent .waiting
  · intro w new
    rfl
  · intro called w
    rfl

/-- A worker that waits has no execution outstanding. -/
theorem Timed.rests {v : View} (timed : Timed v) (waiting : v.worker.status = .waiting) : v.outstanding = 0 := by
  by_contra owed
  have busy := (timed.single (Nat.pos_of_ne_zero owed)).status
  simp [waiting] at busy

/-- One that is busy, and that the timer is not with, has one. -/
theorem Timed.busy_outstanding {v : View} (timed : Timed v) (busy : v.worker.status = .busy) (away : v.visit = none) :
    v.outstanding = 1 := by
  cases timed with
  | waiting idle | visited idle | due idle => cases busy.symm.trans idle.status
  | inserting _ visit => simp [away] at visit
  | executing busy | reset busy => exact busy.outstanding

/-- In orderly runs the workers outlive their jobs. -/
theorem workers_outlive_jobs (reachable : Reachable step Orderly initHouseKeeping s) : Outlived s := by
  have kept : Inv s ∧ Held s := by
    apply reachable.invariant
    · exact ⟨Inv.init,Held.init⟩
    · intro s a s' kept orderly taken
      exact ⟨kept.1.step taken,kept.2.step kept.1 orderly taken⟩
  obtain ⟨inv,held⟩ := kept
  have freed (w : Nat) (member : w ∈ s.freed) : s.freed.count w = 1 ∧ (s.workers w).status = .waiting :=
    (held.owned w).freed_waiting (List.count_pos_iff.mpr member)
  refine ⟨?_,?_,held.unused,held.linked⟩
  · apply List.nodup_iff_count_le_one.mpr
    intro w
    by_cases member : w ∈ s.freed
    · exact Nat.le_of_eq (freed w member).1
    · rw [List.count_eq_zero_of_not_mem member]
      exact Nat.zero_le 1
  · intro w member
    have none := (inv.timed w).rests (freed w member).2
    simp only [view,Nat.add_eq_zero_iff,List.count_eq_zero] at none
    exact none

/-- The last part of the condition is exact: a worker that is busy when `destroy` frees it
has an execution outstanding. -/
theorem Inv.busy_freed (inv : Inv s) (here : s.destroy = .releasing w next) (busy : (s.workers w).status = .busy)
    (taken : destroy s = some s') : ¬ Outlived s' := by
  have exited := inv.stopped (by simp [here,Destroy.joined])
  simp only [destroy,here] at taken
  cases taken
  intro outlived
  obtain ⟨unqueued,returned⟩ := outlived.idle w List.mem_cons_self
  have none : (view s w).outstanding = 0 := by
    simpa [view,List.count_eq_zero] using ⟨unqueued,returned⟩
  have one := (inv.timed w).busy_outstanding busy (by simp [view,exited,Timer.at])
  omega

def destroyed : List Action := [.destroy,.timer true,.destroy,.destroy,.destroy,.destroy,.destroy]

/-- A worker whose job is due at each tick, and one that is removed before `destroy`. -/
def returned : List Action :=
  [.addWorker 1,.run 0] ++ walk 4 ++ [.doJob 0,.run 1,.run 1,.run 1,.run 1,.addWorker 2,.run 2,.removeWorker 1,.run 3,.run 3,.run 3]

theorem workers_outlive_jobs_returned : ∃ s, execute step initHouseKeeping (returned ++ destroyed) = some s ∧
    s.freed = [0,1] ∧ Outlived s := by
  refine ⟨_,rfl,rfl,workers_outlive_jobs (Reachable.start.execute (returned ++ destroyed) ?_ rfl)⟩
  decide

/-- `destroy` frees a worker whose job is queued, and the pool executes it. -/
theorem worker_freed_queued : ∃ s s', Reachable step (fun _ _ => True) initHouseKeeping s ∧ 0 ∈ s.freed ∧ 0 ∈ s.queued ∧
    step s (.doJob 0) = some s' ∧ s'.failure = some .useAfterFree := by
  refine ⟨_,_,Reachable.start.run ([.addWorker 1,.run 0] ++ walk 4 ++ destroyed) rfl,?_,?_,rfl,rfl⟩
  · exact List.mem_cons_self
  · exact List.mem_cons_self

/-- A removal that goes on while `destroy` has the worker frees it under its walk. -/
example : ∃ s, execute step initHouseKeeping ([.addWorker 1,.run 0,.removeWorker 0] ++ destroyed.take 4 ++
    [.run 1,.run 1,.run 1,.destroy]) = some s ∧ s.failure = some .useAfterFree := ⟨_,rfl,rfl⟩

end Muti.HouseKeeping
