import Mathlib.Algebra.GroupWithZero.Nat
import Mathlib.Data.List.Basic
import Mathlib.Algebra.Order.BigOperators.Group.List
import Mathlib.Algebra.Order.Group.Nat

/-! Transition systems whose step is a partial function of a state and an action, runs
whose steps are all allowed, and pools of threads, each with the operations it still has
to do. A step of a thread takes its first operation and may put others in its place. -/
namespace Muti.Transition

/-- The states runs get to when every step of them is allowed. -/
inductive Reachable (step : σ → α → Option σ) (allowed : σ → α → Prop) (init : σ) : σ → Prop
  | start : Reachable step allowed init init
  | step (before : Reachable step allowed init s) (allow : allowed s a) (taken : step s a = some s') :
    Reachable step allowed init s'

variable {step : σ → α → Option σ} {allowed : σ → α → Prop}

/-- What holds at the start and is kept by every allowed step holds in every reachable state. -/
theorem Reachable.invariant {inv : σ → Prop} (reachable : Reachable step allowed init s) (start : inv init)
    (keeps : ∀ s a s', inv s → allowed s a → step s a = some s' → inv s') : inv s := by
  induction reachable with
  | start => exact start
  | step _ allow taken ih => exact keeps _ _ _ ih allow taken

/-- Actions taken one after another; `none` when one of them is not possible. -/
def execute (step : σ → α → Option σ) : σ → List α → Option σ
  | s, [] => some s
  | s, a :: actions => match step s a with
    | none => none
    | some s' => execute step s' actions

/-- Every action of a run is allowed in the state it is taken in. -/
def Permitted (step : σ → α → Option σ) (allowed : σ → α → Prop) : σ → List α → Prop
  | _, [] => True
  | s, a :: actions => allowed s a ∧ ∀ s' ∈ step s a, Permitted step allowed s' actions

instance decidablePermitted [∀ s a, Decidable (allowed s a)] :
    (s : σ) → (actions : List α) → Decidable (Permitted step allowed s actions)
  | _, [] => inferInstanceAs (Decidable True)
  | s, a :: actions =>
    have _later : ∀ s', Decidable (Permitted step allowed s' actions) := fun s' => decidablePermitted s' actions
    inferInstanceAs (Decidable (allowed s a ∧ ∀ s' ∈ step s a, Permitted step allowed s' actions))

theorem permitted_of_forall (actions : List α) (allow : ∀ s, ∀ a ∈ actions, allowed s a) (s : σ) :
    Permitted step allowed s actions := by
  induction actions generalizing s with
  | nil => trivial
  | cons a actions ih =>
    have later := ih fun s b member => allow s b (List.mem_cons_of_mem _ member)
    exact ⟨allow s a List.mem_cons_self,fun s' _ => later s'⟩

theorem Reachable.execute (reachable : Reachable step allowed init s) (actions : List α)
    (permitted : Permitted step allowed s actions) (taken : execute step s actions = some s') :
    Reachable step allowed init s' := by
  induction actions generalizing s with
  | nil =>
    cases taken
    exact reachable
  | cons a actions ih =>
    cases first : step s a with
    | none => simp [Transition.execute,first] at taken
    | some middle =>
      simp only [Transition.execute,first] at taken
      obtain ⟨allow,later⟩ := permitted
      have onward := Reachable.step reachable allow first
      exact ih onward (later middle first) taken

/-- Where every step is allowed, a run needs no more than to be possible. -/
theorem Reachable.run (reachable : Reachable step (fun _ _ => True) init s) (actions : List α)
    (taken : Transition.execute step s actions = some s') : Reachable step (fun _ _ => True) init s' :=
  reachable.execute actions (permitted_of_forall actions (fun _ _ _ => trivial) s) taken

/-- The sum of a weight over all the operations the threads have to do. -/
def total (weight : α → Nat) (threads : List (List α)) : Nat :=
  (threads.map fun ops => (ops.map weight).sum).sum

@[simp] theorem total_nil (weight : α → Nat) : total weight [] = 0 := rfl

@[simp] theorem total_cons (weight : α → Nat) (ops : List α) (threads : List (List α)) :
    total weight (ops :: threads) = (ops.map weight).sum + total weight threads := by
  simp [total]

@[simp] theorem total_append (weight : α → Nat) (front back : List (List α)) :
    total weight (front ++ back) = total weight front + total weight back := by
  simp [total]

theorem total_add (weight other : α → Nat) (threads : List (List α)) :
    total (fun op => weight op + other op) threads = total weight threads + total other threads := by
  induction threads with
  | nil => rfl
  | cons ops threads ih =>
    have first := List.sum_map_add (l := ops) (f := weight) (g := other)
    simp only [total_cons,ih,first]
    omega

theorem total_mono_mem {weight other : α → Nat} {threads : List (List α)}
    (less : ∀ ops ∈ threads, ∀ op ∈ ops, weight op ≤ other op) : total weight threads ≤ total other threads := by
  induction threads with
  | nil => exact Nat.le_refl 0
  | cons ops threads ih =>
    have first : (ops.map weight).sum ≤ (ops.map other).sum := List.sum_le_sum (less ops List.mem_cons_self)
    have later := ih fun ops member => less ops (List.mem_cons_of_mem _ member)
    simp only [total_cons]
    omega

theorem total_mono {weight other : α → Nat} (less : ∀ op, weight op ≤ other op) (threads : List (List α)) :
    total weight threads ≤ total other threads :=
  total_mono_mem fun _ _ op _ => less op

theorem total_spawn (weight : α → Nat) (threads : List (List α)) (op : α) :
    total weight (threads ++ [[op]]) = total weight threads + weight op := by
  simp

@[simp] def on [DecidableEq κ] (key x : κ) : Nat := if x = key then 1 else 0

@[simp] theorem sum_map_on [DecidableEq κ] (key : κ) (items : List κ) :
    (items.map fun x => if x = key then 1 else 0).sum = items.count key := by
  induction items with
  | nil => rfl
  | cons x items ih =>
    simp only [List.map_cons,List.sum_cons,ih,List.count_cons,beq_iff_eq]
    omega

/-- A thread's step changes the total by what it puts in place of its first operation. -/
theorem total_advance {threads : List (List α)} {i : Nat} (weight : α → Nat) (here : threads[i]? = some (op :: rest))
    (ops : List α) :
    total weight (threads.set i (ops ++ rest)) + weight op = total weight threads + (ops.map weight).sum := by
  induction threads generalizing i with
  | nil => simp at here
  | cons first threads ih =>
    cases i with
    | zero =>
      obtain rfl : first = op :: rest := by simpa using here
      simp only [List.set_cons_zero,total_cons,List.map_append,List.sum_append,List.map_cons,List.sum_cons]
      omega
    | succ i =>
      have later := ih (i := i) (by simpa using here)
      simp only [List.set_cons_succ,total_cons]
      omega

/-- After a thread's step, an operation is one it goes on in, or stood behind its first one or in
another thread. -/
theorem mem_advance {threads : List (List α)} {i : Nat} (thread : later ∈ threads.set i (ops ++ rest))
    (inside : next ∈ later) : next ∈ ops ∨ ∃ other ∈ threads.set i rest, next ∈ other := by
  obtain ⟨j,there⟩ := List.mem_iff_getElem?.mp thread
  by_cases same : i = j
  · subst same
    have bound : i < threads.length := by simpa using (List.getElem?_eq_some_iff.mp there).1
    rw [List.getElem?_set_self bound] at there
    cases there
    rcases List.mem_append.mp inside with new | old
    · exact .inl new
    · exact .inr ⟨rest,List.mem_set bound rest,old⟩
  · have kept : (threads.set i rest)[j]? = some later := by rwa [List.getElem?_set_ne same] at there ⊢
    exact .inr ⟨later,List.mem_of_getElem? kept,inside⟩

/-- What stood behind a thread's first operation, or in another thread, stood in a thread before. -/
theorem mem_behind {threads : List (List α)} {i : Nat} (here : threads[i]? = some (op :: rest))
    (thread : other ∈ threads.set i rest) (inside : next ∈ other) : ∃ ops ∈ threads, next ∈ ops := by
  rcases List.mem_or_eq_of_mem_set thread with old | rfl
  · exact ⟨other,old,inside⟩
  · exact ⟨op :: other,List.mem_of_getElem? here,List.mem_cons_of_mem _ inside⟩

theorem weight_le_total {threads : List (List α)} {i : Nat} (weight : α → Nat) (here : threads[i]? = some (op :: rest)) :
    weight op ≤ total weight threads := by
  have advanced := total_advance weight here []
  simp at advanced
  omega

/-- A thread that goes on in operations of no weight. -/
theorem total_kept {threads : List (List α)} {i : Nat} (weight : α → Nat) (here : threads[i]? = some (op :: rest))
    (unweighed : weight op = 0) (none : ∀ next ∈ ops, weight next = 0) :
    total weight (threads.set i (ops ++ rest)) = total weight threads := by
  have advanced := total_advance weight here ops
  have nothing : (ops.map weight).sum = 0 := by
    apply List.sum_eq_zero
    intro one member
    obtain ⟨next,inside,rfl⟩ := List.mem_map.mp member
    exact none next inside
  omega

theorem total_eq_zero {threads : List (List α)} (weight : α → Nat) :
    total weight threads = 0 ↔ ∀ ops ∈ threads, ∀ op ∈ ops, weight op = 0 := by
  simp only [total,List.sum_eq_zero_iff,List.mem_map,forall_exists_index,and_imp,forall_apply_eq_imp_iff₂]

theorem exists_of_total {threads : List (List α)} {weight : α → Nat} (some : total weight threads ≠ 0) :
    ∃ ops ∈ threads, ∃ op ∈ ops, weight op ≠ 0 := by
  by_contra absent
  exact some ((total_eq_zero weight).mpr fun ops thread op inside =>
    by_contra fun weighs => absent ⟨ops,thread,op,inside,weighs⟩)

theorem weight_le_of_mem {threads : List (List α)} (weight : α → Nat) (thread : ops ∈ threads) (inside : op ∈ ops) :
    weight op ≤ total weight threads := by
  have mine := List.single_le_sum (fun _ _ => Nat.zero_le _) _ (List.mem_map_of_mem (f := weight) inside)
  have all := List.single_le_sum (fun _ _ => Nat.zero_le _) _
    (List.mem_map_of_mem (f := fun ops => (ops.map weight).sum) thread)
  exact Nat.le_trans mine all

theorem total_idle {threads : List (List α)} (weight : α → Nat) (idle : ∀ ops ∈ threads, ops = []) :
    total weight threads = 0 := by
  induction threads with
  | nil => rfl
  | cons ops threads ih =>
    have first := idle ops List.mem_cons_self
    have later := ih fun other member => idle other (List.mem_cons_of_mem _ member)
    simp [first,later]

end Muti.Transition
