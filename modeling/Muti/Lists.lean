import Mathlib.Algebra.GroupWithZero.Nat
import Mathlib.Data.List.Basic

/-! Facts about prefixes and folds of lists that the byte formats and the loops share. -/
namespace Muti.Lists

/-- A prefix of a concatenation stops inside the first part or covers it. -/
theorem prefix_append_cases (before : l <+: front ++ back) :
    l <+: front ∨ ∃ rest, l = front ++ rest ∧ rest <+: back := by
  rcases List.prefix_or_prefix_of_prefix before (List.prefix_append front back) with inside | ⟨rest,covered⟩
  · exact .inl inside
  · subst covered
    exact .inr ⟨rest,rfl,(List.prefix_append_right_inj front).mp before⟩

/-- A prefix at least as long as the first part covers it. -/
theorem prefix_append_covers (before : l <+: front ++ back) (long : front.length ≤ l.length) :
    ∃ rest, l = front ++ rest ∧ rest <+: back := by
  rcases prefix_append_cases before with inside | covered
  · exact ⟨[],by simpa using inside.eq_of_length_le long,List.nil_prefix⟩
  · exact covered

theorem proper_prefix_length (before : l <+: whole) (proper : l ≠ whole) : l.length < whole.length := by
  have bound := before.length_le
  have differ := mt before.eq_of_length proper
  omega

theorem mem_tail_append_left {front : List α} (member : a ∈ front.tail) (back : List α) : a ∈ (front ++ back).tail := by
  cases front with
  | nil => simp at member
  | cons b front => exact List.mem_append_left _ member

theorem mem_tail_append_right {back : List α} (front : List α) (member : a ∈ back.tail) : a ∈ (front ++ back).tail := by
  cases front with
  | nil => exact member
  | cons b front => exact List.mem_append_right _ (List.mem_of_mem_tail member)

theorem count_erase [DecidableEq α] {items : List α} (member : a ∈ items) (b : α) :
    (items.erase a).count b + (if a = b then 1 else 0) = items.count b := by
  have moved := (List.perm_cons_erase member).count_eq b
  rw [moved,List.count_cons]
  simp

/-- A fold that may fail keeps what each of its steps keeps. -/
theorem foldlM_keeps {f : σ → α → Except ε σ} (keep : σ → Prop) (items : List α)
    (each : ∀ s a s', a ∈ items → keep s → f s a = .ok s' → keep s')
    (start : keep s) (done : items.foldlM f s = .ok s') : keep s' := by
  induction items generalizing s with
  | nil =>
    cases done
    exact start
  | cons a items ih =>
    rw [List.foldlM_cons] at done
    cases step : f s a with
    | error reason => simp [step,bind,Except.bind] at done
    | ok middle =>
      rw [step] at done
      exact ih (fun s b s' member => each s b s' (List.mem_cons_of_mem _ member))
        (each _ _ _ List.mem_cons_self start step) done

/-- What one item establishes and no step undoes holds at the end of the fold. -/
theorem foldlM_reaches {f : σ → α → Except ε σ} (items : List α) {keep goal : σ → Prop}
    (each : ∀ s a s', a ∈ items → keep s → f s a = .ok s' → keep s' ∧ (goal s → goal s'))
    (member : a ∈ items) (hits : ∀ s s', keep s → f s a = .ok s' → goal s')
    (start : keep s) (done : items.foldlM f s = .ok s') : goal s' := by
  induction items generalizing s with
  | nil => simp at member
  | cons b items ih =>
    rw [List.foldlM_cons] at done
    cases step : f s b with
    | error reason => simp [step,bind,Except.bind] at done
    | ok middle =>
      rw [step] at done
      have later := fun s c s' member => each s c s' (List.mem_cons_of_mem b member)
      have kept := (each s b middle List.mem_cons_self start step).1
      rcases List.mem_cons.mp member with rfl | member
      · have reached := foldlM_keeps (fun s => keep s ∧ goal s) items
          (fun s c s' member both step =>
            ⟨(later s c s' member both.1 step).1,(later s c s' member both.1 step).2 both.2⟩)
          ⟨kept,hits s middle start step⟩ done
        exact reached.2
      · exact ih later member kept done

/-- Two folds with the same steps, on the states either of them gets to. -/
theorem foldlM_congr {f g : σ → α → Except ε σ} (keep : σ → Prop) (items : List α)
    (same : ∀ s a, a ∈ items → keep s → f s a = g s a) (each : ∀ s a s', a ∈ items → keep s → f s a = .ok s' → keep s')
    (start : keep s) : items.foldlM f s = items.foldlM g s := by
  induction items generalizing s with
  | nil => rfl
  | cons a items ih =>
    rw [List.foldlM_cons,List.foldlM_cons,← same s a List.mem_cons_self start]
    cases step : f s a with
    | error reason => rfl
    | ok middle =>
      exact ih (fun s b member => same s b (List.mem_cons_of_mem _ member))
        (fun s b s' member => each s b s' (List.mem_cons_of_mem _ member)) (each _ _ _ List.mem_cons_self start step)

/-- A loop in a loop is one loop over all their turns. -/
theorem foldlM_flatMap (f : σ → β → Except ε σ) (turns : α → List β) (items : List α) (s : σ) :
    (items.flatMap turns).foldlM f s = items.foldlM (fun s a => (turns a).foldlM f s) s := by
  induction items generalizing s with
  | nil => rfl
  | cons a items ih =>
    rw [List.flatMap_cons,List.foldlM_append,List.foldlM_cons]
    congr 1
    funext s
    exact ih s

theorem take_set_succ {items : List α} (inside : i < items.length) (a : α) :
    (items.set i a).take (i + 1) = items.take i ++ [a] := by
  rw [List.take_add_one,List.getElem?_set_self inside,List.take_set_of_le (Nat.le_refl i)]
  rfl

theorem mapM_ok (items : List α) (f : α → Except ε β) (g : α → β) (each : ∀ a ∈ items, f a = .ok (g a)) :
    items.mapM f = .ok (items.map g) := by
  induction items with
  | nil => rfl
  | cons a items ih =>
    have head := each a List.mem_cons_self
    have tail := ih fun b member => each b (List.mem_cons_of_mem _ member)
    rw [List.mapM_cons,head]
    simp only [bind,Except.bind] at tail ⊢
    rw [tail]
    rfl

theorem set_same {items : List α} (here : items[i]? = some a) : items.set i a = items := by
  obtain ⟨inside,rfl⟩ := List.getElem?_eq_some_iff.mp here
  exact List.set_getElem_self inside

/-- Choosing one partner for each member chooses a list of partners. -/
theorem exists_partners (related : α → β → Prop) (items : List α) (each : ∀ a ∈ items, ∃ b, related a b) :
    ∃ partners, List.Forall₂ related items partners := by
  induction items with
  | nil => exact ⟨[],.nil⟩
  | cons a items ih =>
    obtain ⟨b,head⟩ := each a List.mem_cons_self
    obtain ⟨partners,tail⟩ := ih fun c member => each c (List.mem_cons_of_mem _ member)
    exact ⟨b :: partners,.cons head tail⟩

theorem partner_origin {related : α → β → Prop} (pairs : List.Forall₂ related items partners)
    (member : b ∈ partners) : ∃ a ∈ items, related a b := by
  induction pairs with
  | nil => simp at member
  | cons head _ ih =>
    rcases List.mem_cons.mp member with rfl | member
    · exact ⟨_,List.mem_cons_self,head⟩
    · obtain ⟨a,inside,tail⟩ := ih member
      exact ⟨a,List.mem_cons_of_mem _ inside,tail⟩

theorem partners_map {related : α → β → Prop} (f : α → γ) (g : β → γ) (pairs : List.Forall₂ related items partners)
    (same : ∀ a b, related a b → f a = g b) : items.map f = partners.map g := by
  induction pairs with
  | nil => rfl
  | cons head _ ih => simp [same _ _ head,ih]

/-- Overwriting one cell of a tabulated list changes the table there only. -/
theorem range_map_set {f g : Nat → α} (others : ∀ j, j ≠ i → g j = f j) :
    ((List.range n).map f).set i (g i) = (List.range n).map g := by
  apply List.ext_getElem
  · simp
  · intro j inside _
    rw [List.getElem_set]
    by_cases here : i = j
    · simp [here]
    · simp [here,others j (Ne.symm here)]

theorem eq_of_short {items : List α} (short : items.length ≤ 1) (first : a ∈ items) (second : b ∈ items) : a = b := by
  cases items with
  | nil => simp at first
  | cons c items =>
    obtain rfl : items = [] := List.length_eq_zero_iff.mp (by simpa using short)
    exact (List.mem_singleton.mp first).trans (List.mem_singleton.mp second).symm

theorem mem_set_cases {items : List α} (member : c ∈ items.set i b) : c = b ∨ c ∈ items :=
  (List.mem_or_eq_of_mem_set member).symm

theorem getElem?_set_cases {items : List α} (here : (items.set i b)[j]? = some c) :
    items[j]? = some c ∨ j = i ∧ c = b := by
  rw [List.getElem?_set] at here
  split at here
  · split at here
    · rename_i same _
      exact .inr ⟨same.symm,(Option.some.inj here).symm⟩
    · cases here
  · exact .inl here

theorem map_set_same {items : List α} {f : α → β} (here : items[i]? = some a) (same : f b = f a) :
    (items.set i b).map f = items.map f := by
  rw [List.map_set,same]
  exact set_same (by simp [here])

theorem flatMap_set_same {items : List α} {f : α → List β} (here : items[i]? = some a) (same : f b = f a) :
    (items.set i b).flatMap f = items.flatMap f := by
  rw [List.flatMap_def,List.flatMap_def,map_set_same here same]

theorem flatMap_set_perm {items : List α} {f : α → List β} (here : items[i]? = some a) (more : f b = f a ++ [x]) :
    ((items.set i b).flatMap f).Perm (items.flatMap f ++ [x]) := by
  induction items generalizing i with
  | nil => simp at here
  | cons first items ih =>
    cases i with
    | zero =>
      obtain rfl : first = a := by simpa using here
      have swapped : ([x] ++ items.flatMap f).Perm (items.flatMap f ++ [x]) := List.perm_append_comm
      simpa [more] using swapped.append_left (f first)
    | succ i =>
      have later := ih (i := i) (by simpa using here)
      simpa using later.append_left (f first)

theorem flatMap_single {items : List α} {f : α → List β} (here : items[i]? = some a)
    (others : ∀ j : Nat, ∀ b ∈ items[j]?, j ≠ i → f b = []) : items.flatMap f = f a := by
  induction items generalizing i with
  | nil => simp at here
  | cons first items ih =>
    cases i with
    | zero =>
      obtain rfl : first = a := by simpa using here
      have empty : items.flatMap f = [] := by
        rw [List.flatMap_eq_nil_iff]
        intro b member
        obtain ⟨j,at_j⟩ := List.mem_iff_getElem?.mp member
        exact others (j + 1) b (by simpa using at_j) (Nat.succ_ne_zero j)
      simp [empty]
    | succ i =>
      have head := others 0 first (by simp) (Nat.succ_ne_zero i).symm
      have later := ih (i := i) (by simpa using here) fun j b at_j apart =>
        others (j + 1) b (by simpa using at_j) (by omega)
      simpa [head] using later

/-- A list taken apart by a number of each item and put together again. -/
theorem flatMap_filter_perm {items : List α} (number : α → Nat) (n : Nat) (below : ∀ a ∈ items, number a < n) :
    ((List.range n).flatMap fun i => items.filter (number · == i)).Perm items := by
  have parts : ∀ k, ((List.range k).flatMap fun i => items.filter (number · == i)).Perm
      (items.filter (number · < k)) := by
    intro k
    induction k with
    | zero => simp
    | succ k ih =>
      have halves := List.filter_append_perm (number · < k) (items.filter (number · < k + 1))
      have low : (items.filter (number · < k + 1)).filter (number · < k) = items.filter (number · < k) := by
        rw [List.filter_filter]
        congr 1
        funext a
        rw [← Bool.decide_and]
        exact decide_eq_decide.mpr ⟨And.left,fun less => ⟨less,by omega⟩⟩
      have last : (items.filter (number · < k + 1)).filter (!number · < k) = items.filter (number · == k) := by
        rw [List.filter_filter]
        congr 1
        funext a
        rw [Bool.eq_iff_iff]
        simp
        omega
      rw [low,last] at halves
      rw [List.range_succ,List.flatMap_append]
      simpa using (ih.append_right _).trans halves
  have all := parts n
  rwa [List.filter_eq_self.mpr fun a member => decide_eq_true (below a member)] at all

end Muti.Lists
