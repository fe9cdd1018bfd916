import Muti.ThreadPool1
import Muti.Lists
import Muti.Memory
import Muti.Transition
import Mathlib.Data.List.Perm.Basic

/-! A pool of one worker or of several, each of which has its own sub-pool. An insert
chooses a sub-pool, by a counter or by a hash; `destroy` stops, joins and frees one
sub-pool after the other. -/
namespace Muti.ThreadPool

open Muti.Memory Muti.Transition

/-- An insert in progress: who called it, a worker's job or a thread outside of the pool,
the sub-pool it has chosen, and whether it has read that one's `p`. -/
structure Inserting where
  call : Call
  caller : Option Nat
  tp1 : Nat
  priv : Bool
  deriving DecidableEq, Repr

inductive Destroy where
  | notCalled
  | stopping (i : Nat)
  | joining (i : Nat)
  | returned
  deriving DecidableEq, Repr

structure State where
  pools : List ThreadPool1
  current_idx : UInt32
  inserting : List Inserting
  calls : Nat
  destroy : Destroy
  fault : Option Fault
  deriving DecidableEq, Repr

/-- A pool of one worker has no counter, and every counter chooses it. -/
def choose (s : State) : Insert → Nat
  | .insertTail | .insertHead => s.current_idx.toNat % s.pools.length
  | .insertTailHash hash | .insertHeadHash hash => hash.toNat % s.pools.length

def fetchAdd (current_idx : UInt32) : Insert → UInt32
  | .insertTail | .insertHead => current_idx + 1
  | .insertTailHash _ | .insertHeadHash _ => current_idx

/-- `destroy` of several workers has freed the array of the sub-pools too. -/
def State.gone (s : State) : Bool := decide (s.destroy = .returned ∧ s.pools.length ≠ 1)

def beginInsert (s : State) (caller : Option Nat) (job : Nat) (how : Insert) : State :=
  if s.gone then { s with fault := some .useAfterFree }
  else { s with
    current_idx := fetchAdd s.current_idx how
    inserting := s.inserting ++ [⟨⟨s.calls,job,how⟩,caller,choose s how,false⟩]
    calls := s.calls + 1 }

def State.linked (s : State) (job : Nat) : Bool := s.pools.any fun tp => tp.queued.any (·.job = job)

/-- A call reads `p` of its sub-pool, or goes through the section under its lock. No job is
inserted while it is queued. -/
def advance (s : State) (k : Nat) (op : Inserting) (tp : ThreadPool1) : Option State :=
  if !op.priv then
    if s.gone then some { s with fault := some .useAfterFree }
    else if tp.freed then some { s with fault := some .nullPointer }
    else some { s with inserting := s.inserting.set k { op with priv := true } }
  else if tp.freed then some { s with fault := some .useAfterFree }
  else if s.linked op.call.job then none
  else some { s with pools := s.pools.set op.tp1 (insert tp op.call), inserting := s.inserting.eraseIdx k }

def State.calling (s : State) (i : Nat) : Bool := s.inserting.any (·.caller = some i)

/-- Inserts are called by threads outside of the pool and by running jobs. -/
def State.mayCall (s : State) : Option Nat → Bool
  | none => true
  | some i => (s.pools[i]?.any fun tp => tp.worker.running ≠ []) && !s.calling i

def destroy (s : State) : Option State :=
  match s.destroy with
  | .notCalled => some { s with destroy := .stopping 0 }
  | .stopping i => match s.pools[i]? with
    | some tp => some { s with pools := s.pools.set i (stop tp), destroy := .joining i }
    | none => some { s with destroy := .returned }
  | .joining i => match s.pools[i]? with
    | some tp => (join tp).map fun tp' => { s with pools := s.pools.set i tp', destroy := .stopping (i + 1) }
    | none => none
  | .returned => none

/-- A call of an insert, its next step, the next step of a worker, the end of a wait without
a signal, or the next step of the call of `destroy`. -/
inductive Action where
  | insert (caller : Option Nat) (job : Nat) (how : Insert)
  | advance (k : Nat)
  | work (i : Nat)
  | wake (i : Nat)
  | destroy
  deriving DecidableEq, Repr

def step (s : State) (a : Action) : Option State :=
  if s.fault ≠ none then none
  else match a with
    | .insert caller job how => if s.mayCall caller then some (beginInsert s caller job how) else none
    | .advance k => match s.inserting[k]? with
      | none => none
      | some op => match s.pools[op.tp1]? with
        | none => none
        | some tp => advance s k op tp
    | .work i => match s.pools[i]? with
      | none => none
      | some tp =>
        if s.calling i then none else (threadPoolDoThread tp).map fun tp' => { s with pools := s.pools.set i tp' }
    | .wake i => match s.pools[i]? with
      | none => none
      | some tp => (wake tp).map fun tp' => { s with pools := s.pools.set i tp' }
    | .destroy => destroy s

/-- No insert reads a pool that `destroy` has freed. -/
def Timely (s : State) : Action → Prop
  | .insert _ _ _ => s.gone = false
  | .advance k => ∀ op ∈ s.inserting[k]?, ∀ tp ∈ s.pools[op.tp1]?, tp.freed = false
  | _ => True

def Destroy.freed (n : Nat) : Destroy → Nat
  | .notCalled => 0
  | .stopping i | .joining i => i
  | .returned => n

/-- An insert at the tail under a hash goes to the sub-pool of that hash. -/
def Directed (n : Nat) (call : Call) (i : Nat) : Prop :=
  ∀ hash, call.insert = .insertTailHash hash → i = hash.toNat % n

def tickets (tp : ThreadPool1) : List Nat := tp.returned.map (·.1.ticket)

structure Inv (s : State) : Prop where
  running : s.fault = none
  sound : ∀ tp ∈ s.pools, Sound tp
  tickets : (s.inserting.map (·.call.ticket) ++ s.pools.flatMap tickets).Perm (List.range s.calls)
  directed : ∀ op ∈ s.inserting, Directed s.pools.length op.call op.tp1
  placed : ∀ i, ∀ tp ∈ s.pools[i]?, ∀ r ∈ tp.returned, Directed s.pools.length r.1 i
  destroyed : ∀ i, ∀ tp ∈ s.pools[i]?, i < s.destroy.freed s.pools.length → tp.freed = true

/-- A sub-pool takes a step in which no insert returns. -/
theorem Inv.move (inv : Inv s) (here : s.pools[i]? = some tp) (sound : Sound tp')
    (returned : tp'.returned = tp.returned) (freed : tp.freed = true → tp'.freed = true) :
    Inv { s with pools := s.pools.set i tp' } := by
  refine ⟨inv.running,?_,?_,?_,?_,?_⟩
  · intro other member
    rcases Lists.mem_set_cases member with rfl | member
    · exact sound
    · exact inv.sound other member
  · have same := Lists.flatMap_set_same (f := ThreadPool.tickets) (b := tp') here (by simp [ThreadPool.tickets,returned])
    change (_ ++ (s.pools.set i tp').flatMap ThreadPool.tickets).Perm _
    rw [same]
    exact inv.tickets
  · simpa using inv.directed
  · intro j other at_j r member
    rw [List.length_set]
    rcases Lists.getElem?_set_cases at_j with older | ⟨rfl,rfl⟩
    · exact inv.placed j other older r member
    · rw [returned] at member
      exact inv.placed j tp here r member
  · intro j other at_j below
    rw [List.length_set] at below
    rcases Lists.getElem?_set_cases at_j with older | ⟨rfl,rfl⟩
    · exact inv.destroyed j other older below
    · exact freed (inv.destroyed j tp here below)

theorem threadPoolDoThread_frame (taken : threadPoolDoThread tp = some tp') :
    tp'.returned = tp.returned ∧ tp'.freed = tp.freed := by
  unfold threadPoolDoThread at taken
  split at taken
  · split at taken
    all_goals
      cases taken
      exact ⟨rfl,rfl⟩
  · cases taken
  · cases taken
    exact ⟨rfl,rfl⟩
  · split at taken
    all_goals
      cases taken
      exact ⟨rfl,rfl⟩
  · cases taken
    exact ⟨rfl,rfl⟩
  · cases taken

theorem wake_frame (taken : wake tp = some tp') : tp'.returned = tp.returned ∧ tp'.freed = tp.freed := by
  unfold wake at taken
  split at taken
  all_goals cases taken
  exact ⟨rfl,rfl⟩

theorem join_frame (taken : join tp = some tp') : tp'.returned = tp.returned ∧ tp'.freed = true := by
  unfold join at taken
  split at taken
  all_goals cases taken
  exact ⟨rfl,rfl⟩

theorem beginInsert_inv (inv : Inv s) (present : s.gone = false) (caller : Option Nat) (job : Nat) (how : Insert) :
    Inv (beginInsert s caller job how) := by
  rw [beginInsert,if_neg (by simp [present])]
  refine ⟨inv.running,inv.sound,?_,?_,inv.placed,inv.destroyed⟩
  · change ((s.inserting ++ [_]).map _ ++ s.pools.flatMap ThreadPool.tickets).Perm (List.range (s.calls + 1))
    rw [List.range_succ,List.map_append,List.append_assoc]
    have last : ([s.calls] ++ s.pools.flatMap ThreadPool.tickets).Perm (s.pools.flatMap ThreadPool.tickets ++ [s.calls]) :=
      List.perm_append_comm
    have moved := last.append_left (s.inserting.map (·.call.ticket))
    rw [← List.append_assoc _ _ [s.calls]] at moved
    exact moved.trans (inv.tickets.append_right [s.calls])
  · intro op member
    rcases List.mem_append.mp member with member | member
    · exact inv.directed op member
    · obtain rfl := List.mem_singleton.mp member
      rintro hash ⟨⟩
      rfl

theorem perm_eraseIdx {items : List α} (f : α → β) (here : items[k]? = some a) :
    (items.map f).Perm ((items.eraseIdx k).map f ++ [f a]) := by
  obtain ⟨inside,rfl⟩ := List.getElem?_eq_some_iff.mp here
  have taken := (List.getElem_cons_eraseIdx_perm inside).symm.map f
  exact taken.trans (List.perm_append_singleton _ _).symm

theorem section_inv (inv : Inv s) (next : s.inserting[k]? = some op) (here : s.pools[op.tp1]? = some tp) :
    Inv { s with pools := s.pools.set op.tp1 (insert tp op.call), inserting := s.inserting.eraseIdx k } := by
  obtain ⟨rc,returned⟩ := insert_returned tp op.call
  have calling := inv.directed op (List.mem_of_getElem? next)
  refine ⟨inv.running,?_,?_,?_,?_,?_⟩
  · intro other member
    rcases Lists.mem_set_cases member with rfl | member
    · exact insert_sound (inv.sound tp (List.mem_of_getElem? here)) op.call
    · exact inv.sound other member
  · change ((s.inserting.eraseIdx k).map (·.call.ticket) ++
      (s.pools.set op.tp1 (insert tp op.call)).flatMap ThreadPool.tickets).Perm (List.range s.calls)
    have more : ThreadPool.tickets (insert tp op.call) = ThreadPool.tickets tp ++ [op.call.ticket] := by
      simp [ThreadPool.tickets,returned]
    have pools := Lists.flatMap_set_perm here more
    have one := perm_eraseIdx (·.call.ticket) next
    have before := (one.append_right (s.pools.flatMap ThreadPool.tickets)).symm.trans inv.tickets
    refine ((pools.trans List.perm_append_comm).append_left _).trans ?_
    rwa [← List.append_assoc]
  · intro other member
    rw [List.length_set]
    exact inv.directed other (List.mem_of_mem_eraseIdx member)
  · intro j other at_j r member
    rw [List.length_set]
    rcases Lists.getElem?_set_cases at_j with older | ⟨rfl,rfl⟩
    · exact inv.placed j other older r member
    · rw [returned] at member
      rcases List.mem_append.mp member with member | member
      · exact inv.placed _ tp here r member
      · obtain rfl := List.mem_singleton.mp member
        exact calling
  · intro j other at_j below
    rw [List.length_set] at below
    rcases Lists.getElem?_set_cases at_j with older | ⟨rfl,rfl⟩
    · exact inv.destroyed j other older below
    · rw [insert_freed]
      exact inv.destroyed _ tp here below

/-- Only `destroy` gets to its end, and then every sub-pool is freed. -/
theorem Inv.not_gone {s : State} {tp : ThreadPool1} {i : Nat} (inv : Inv s) (here : s.pools[i]? = some tp) (present : tp.freed = false) : s.gone = false := by
  cases gone : s.gone with
  | false => rfl
  | true =>
    have returned : s.destroy = .returned := (of_decide_eq_true gone).1
    have inside := (List.getElem?_eq_some_iff.mp here).1
    have freed := inv.destroyed i tp here (by rw [returned]; exact inside)
    simp [present] at freed

theorem advance_inv (inv : Inv s) (next : s.inserting[k]? = some op) (here : s.pools[op.tp1]? = some tp)
    (present : tp.freed = false) (taken : advance s k op tp = some s') : Inv s' := by
  have open_pool := inv.not_gone here present
  cases priv : op.priv with
  | false =>
    simp only [advance,priv,open_pool,present,Bool.not_false,if_true,Bool.false_eq_true,if_false,Option.some.injEq] at taken
    subst taken
    have same : (s.inserting.set k { op with priv := true }).map (·.call.ticket) = s.inserting.map (·.call.ticket) := by
      rw [List.map_set]
      exact Lists.set_same (by simp [next])
    refine ⟨inv.running,inv.sound,?_,?_,inv.placed,inv.destroyed⟩
    · change ((s.inserting.set k { op with priv := true }).map _ ++ _).Perm _
      rw [same]
      exact inv.tickets
    · intro other member
      rcases Lists.mem_set_cases member with rfl | member
      · exact inv.directed op (List.mem_of_getElem? next)
      · exact inv.directed other member
  | true =>
    simp only [advance,priv,present,Bool.not_true,Bool.false_eq_true,if_false] at taken
    split at taken
    · cases taken
    · cases taken
      exact section_inv inv next here

/-- `destroy` gets on by one sub-pool when it has freed that one. -/
theorem Inv.destroying (inv : Inv s) (d : Destroy)
    (more : ∀ i, ∀ tp ∈ s.pools[i]?, i < d.freed s.pools.length → tp.freed = true) : Inv { s with destroy := d } :=
  ⟨inv.running,inv.sound,inv.tickets,inv.directed,inv.placed,more⟩

theorem destroy_inv (inv : Inv s) (taken : destroy s = some s') : Inv s' := by
  have freed := inv.destroyed
  cases at_destroy : s.destroy with
  | notCalled =>
    simp only [destroy,at_destroy,Option.some.injEq] at taken
    subst taken
    exact inv.destroying (.stopping 0) nofun
  | stopping i =>
    rw [at_destroy] at freed
    cases here : s.pools[i]? with
    | none =>
      simp only [destroy,at_destroy,here,Option.some.injEq] at taken
      subst taken
      have all := List.getElem?_eq_none_iff.mp here
      exact inv.destroying .returned fun j tp at_j below => freed j tp at_j (by
        change j < s.pools.length at below
        exact Nat.lt_of_lt_of_le below all)
    | some tp =>
      simp only [destroy,at_destroy,here,Option.some.injEq] at taken
      subst taken
      have sound := stop_sound (inv.sound tp (List.mem_of_getElem? here))
      have moved := inv.move here sound rfl id
      have kept := moved.destroyed
      rw [at_destroy] at kept
      exact moved.destroying (.joining i) kept
  | joining i =>
    cases here : s.pools[i]? with
    | none => simp [destroy,at_destroy,here] at taken
    | some tp =>
      simp only [destroy,at_destroy,here,Option.map_eq_some_iff] at taken
      obtain ⟨tp',joined,rfl⟩ := taken
      have frame := join_frame joined
      have sound := join_sound (inv.sound tp (List.mem_of_getElem? here)) joined
      have moved := inv.move here sound frame.1 fun _ => frame.2
      refine moved.destroying (.stopping (i + 1)) fun j other at_j below => ?_
      change j < i + 1 at below
      rcases Lists.getElem?_set_cases at_j with older | ⟨rfl,rfl⟩
      · rw [at_destroy] at freed
        by_cases last : j = i
        · subst last
          change (s.pools.set j tp')[j]? = some other at at_j
          obtain rfl : tp' = other := by simpa [(List.getElem?_eq_some_iff.mp here).1] using at_j
          exact frame.2
        · exact freed j other older (by change j < i; omega)
      · exact frame.2
  | returned => simp [destroy,at_destroy] at taken

theorem step_inv (inv : Inv s) (timely : Timely s a) (taken : step s a = some s') : Inv s' := by
  have going : ¬s.fault ≠ none := fun fault => fault inv.running
  cases a with
  | insert caller job how =>
    simp only [step,if_neg going,Option.ite_none_right_eq_some,Option.some.injEq] at taken
    obtain ⟨_,rfl⟩ := taken
    exact beginInsert_inv inv timely caller job how
  | advance k =>
    cases next : s.inserting[k]? with
    | none => simp [step,inv.running,next] at taken
    | some op =>
      cases here : s.pools[op.tp1]? with
      | none => simp [step,inv.running,next,here] at taken
      | some tp =>
        have present := timely op next tp here
        simp only [step,if_neg going,next,here] at taken
        exact advance_inv inv next here present taken
  | work i =>
    cases here : s.pools[i]? with
    | none => simp [step,inv.running,here] at taken
    | some tp =>
      cases calling : s.calling i with
      | true => simp [step,inv.running,here,calling] at taken
      | false =>
        simp only [step,if_neg going,here,calling,if_false,Bool.false_eq_true,Option.map_eq_some_iff] at taken
        obtain ⟨tp',worked,rfl⟩ := taken
        have frame := threadPoolDoThread_frame worked
        have sound := threadPoolDoThread_sound (inv.sound tp (List.mem_of_getElem? here)) worked
        exact inv.move here sound frame.1 fun freed => frame.2.trans freed
  | wake i =>
    cases here : s.pools[i]? with
    | none => simp [step,inv.running,here] at taken
    | some tp =>
      simp only [step,if_neg going,here,Option.map_eq_some_iff] at taken
      obtain ⟨tp',woken,rfl⟩ := taken
      have frame := wake_frame woken
      have sound := wake_sound (inv.sound tp (List.mem_of_getElem? here)) woken
      exact inv.move here sound frame.1 fun freed => frame.2.trans freed
  | destroy =>
    simp only [step,if_neg going] at taken
    exact destroy_inv inv taken

def State.accepted (s : State) : List Call := s.pools.flatMap (·.accepted)

def State.refused (s : State) : List Call := s.pools.flatMap (·.refused)

def State.started (s : State) : List Call := s.pools.flatMap (·.started)

def State.finished (s : State) : List Call := s.pools.flatMap (·.finished)

def State.executing (s : State) : List Call := s.pools.flatMap (·.worker.running)

def State.queued (s : State) : List Call := s.pools.flatMap (·.queued)

def under (hash : UInt64) (calls : List Call) : List Call := calls.filter (·.insert = .insertTailHash hash)

theorem Inv.executed (inv : Inv s) : s.accepted.Perm (s.started ++ s.queued) := by
  have parts := List.Perm.flatMap_left s.pools fun tp member => (inv.sound tp member).executed
  exact parts.trans (List.flatMap_append_perm _ _ _).symm

theorem Inv.distinct (inv : Inv s) : ((s.accepted ++ s.refused).map (·.ticket)).Nodup := by
  have all : (s.pools.flatMap ThreadPool.tickets).Nodup := by
    have numbered := inv.tickets.nodup_iff.mpr List.nodup_range
    exact (List.nodup_append.mp numbered).2.1
  have answered : ∀ tp ∈ s.pools, ((tp.accepted ++ tp.refused).map (·.ticket)).Perm (ThreadPool.tickets tp) := by
    intro tp _
    have halves := (List.filter_append_perm (·.2) tp.returned).map (·.1.ticket)
    simpa [ThreadPool.tickets,ThreadPool1.accepted,ThreadPool1.refused,Function.comp_def] using halves
  have joined := (List.flatMap_append_perm s.pools (·.accepted) (·.refused)).map (·.ticket)
  rw [List.map_flatMap] at joined
  exact (joined.trans (List.Perm.flatMap_left s.pools answered)).nodup_iff.mpr all

theorem Inv.refused (inv : Inv s) : ∀ call ∈ s.refused, call ∉ s.started := by
  intro call refused started
  have accepted : call ∈ s.accepted := inv.executed.mem_iff.mpr (List.mem_append_left _ started)
  have distinct := inv.distinct
  rw [List.map_append] at distinct
  have apart := (List.nodup_append.mp distinct).2.2
  exact apart _ (List.mem_map_of_mem accepted) _ (List.mem_map_of_mem refused) rfl

/-- When `destroy` has returned every worker has exited. -/
theorem Inv.returned (inv : Inv s) (returned : s.destroy = .returned) : s.accepted.Perm s.finished := by
  refine List.Perm.flatMap_left s.pools fun tp member => ?_
  obtain ⟨i,here⟩ := List.mem_iff_getElem?.mp member
  have sound := inv.sound tp member
  have freed := inv.destroyed i tp here (by
    rw [returned]
    exact (List.getElem?_eq_some_iff.mp here).1)
  have exited := sound.joined freed
  exact sound.executed_all (sound.exited exited).1 (by rw [exited]; rfl)

/-- What a log has of a hash is what that hash's sub-pool has of it. -/
theorem Inv.under_log {s : State} {hash : UInt64} (inv : Inv s) (log : ThreadPool1 → List Call)
    (inside : ∀ tp ∈ s.pools, ∀ call ∈ log tp, call ∈ tp.accepted)
    (here : s.pools[hash.toNat % s.pools.length]? = some tp) :
    under hash (s.pools.flatMap log) = under hash (log tp) := by
  rw [under,List.filter_flatMap]
  refine Lists.flatMap_single here fun j other at_j apart => ?_
  rw [List.filter_eq_nil_iff]
  intro call member same
  have accepted := inside other (List.mem_of_getElem? at_j) call member
  obtain ⟨r,answered,rfl⟩ := List.mem_map.mp accepted
  have placed := inv.placed j other at_j r (List.mem_filter.mp answered).1
  exact apart (placed hash (of_decide_eq_true same))

theorem Sound.started_accepted (sound : Sound tp) : ∀ call ∈ tp.started, call ∈ tp.accepted :=
  fun _ member => sound.executed.mem_iff.mpr (List.mem_append_left _ member)

theorem Sound.queued_accepted (sound : Sound tp) : ∀ call ∈ tp.queued, call ∈ tp.accepted :=
  fun _ member => sound.executed.mem_iff.mpr (List.mem_append_right _ member)

/-- A hash has its sub-pool, unless there is none at all. -/
theorem hashed (s : State) (hash : UInt64) : s.pools = [] ∨ ∃ tp, s.pools[hash.toNat % s.pools.length]? = some tp := by
  cases pools : s.pools with
  | nil => exact .inl rfl
  | cons first rest =>
    right
    have inside := Nat.mod_lt hash.toNat (show 0 < (first :: rest).length by simp)
    exact ⟨_,List.getElem?_eq_getElem inside⟩

theorem Inv.ordered (inv : Inv s) (tails : ∀ call ∈ s.accepted, call.insert.tail) (hash : UInt64) :
    under hash s.accepted = under hash s.started ++ under hash s.queued := by
  rcases hashed s hash with empty | ⟨tp,here⟩
  · simp [State.accepted,State.started,State.queued,empty,under]
  · have member := List.mem_of_getElem? here
    have sound := inv.sound tp member
    have accepted := inv.under_log (·.accepted) (fun _ _ _ inside => inside) here
    have started := inv.under_log (·.started) (fun tp member => (inv.sound tp member).started_accepted) here
    have queued := inv.under_log (·.queued) (fun tp member => (inv.sound tp member).queued_accepted) here
    have order := sound.ordered fun call inside => tails call (List.mem_flatMap.mpr ⟨tp,member,inside⟩)
    rw [State.accepted,State.started,State.queued,accepted,started,queued,order]
    exact List.filter_append _ _

instance (s : State) : (a : Action) → Decidable (Timely s a)
  | .insert _ _ _ => inferInstanceAs (Decidable (s.gone = false))
  | .advance k =>
    inferInstanceAs (Decidable (∀ op ∈ s.inserting[k]?, ∀ tp ∈ s.pools[op.tp1]?, tp.freed = false))
  | .work _ | .wake _ | .destroy => inferInstanceAs (Decidable True)

end Muti.ThreadPool
