import Mathlib.Data.Set.Card
import Mathlib.Logic.Function.Basic

/-! Finite maps as functions into options, for values that carry their keys. A list of
values enumerates a map; what is done to the map is done to such a list. -/
namespace Muti.FiniteMap

open Classical

/-- The bound values, each under its own key, and each once. -/
structure Enumerates (key : V → κ) (m : κ → Option V) (values : List V) : Prop where
  distinct : (values.map key).Nodup
  bound : ∀ k v, m k = some v ↔ v ∈ values ∧ key v = k

noncomputable def size (m : κ → Option V) : Nat := Set.ncard {k | m k ≠ none}

variable {key : V → κ} {m : κ → Option V} {values : List V}

theorem enumerates_empty : Enumerates key (fun _ => none) [] := ⟨List.nodup_nil,by simp⟩

theorem Enumerates.perm (all : Enumerates key m values) (moved : values.Perm values') : Enumerates key m values' := by
  refine ⟨(moved.map key).nodup_iff.mp all.distinct,fun k v => ?_⟩
  rw [all.bound k v,moved.mem_iff]

theorem Enumerates.absent (all : Enumerates key m values) (k : κ) : m k = none ↔ ∀ v ∈ values, key v ≠ k := by
  rw [Option.eq_none_iff_forall_not_mem]
  have bound := all.bound k
  simp only [Option.mem_def,bound,not_and]

/-- Looking a key up is finding the value that matches it. -/
theorem Enumerates.find (all : Enumerates key m values) {matching : V → Bool} (k : κ)
    (exact_key : ∀ v, matching v = true ↔ key v = k) : values.find? matching = m k := by
  cases looked : values.find? matching with
  | none =>
    have unmatched := List.find?_eq_none.mp looked
    exact ((all.absent k).mpr fun v member same => unmatched v member ((exact_key v).mpr same)).symm
  | some v =>
    have member := List.mem_of_find?_eq_some looked
    have matched := List.find?_some looked
    exact ((all.bound k v).mpr ⟨member,(exact_key v).mp matched⟩).symm

theorem Enumerates.insert (all : Enumerates key m values) (new : m (key v) = none) :
    Enumerates key (Function.update m (key v) (some v)) (v :: values) := by
  have fresh := (all.absent (key v)).mp new
  constructor
  · rw [List.map_cons,List.nodup_cons]
    refine ⟨?_,all.distinct⟩
    rintro member
    obtain ⟨other,inside,same⟩ := List.mem_map.mp member
    exact fresh other inside same
  · intro k other
    by_cases here : k = key v
    · subst here
      rw [Function.update_self,Option.some.injEq,List.mem_cons]
      constructor
      · rintro rfl
        exact ⟨.inl rfl,rfl⟩
      · rintro ⟨rfl | member,same⟩
        · rfl
        · exact absurd same (fresh other member)
    · rw [Function.update_of_ne here,all.bound k other,List.mem_cons]
      constructor
      · rintro ⟨member,same⟩
        exact ⟨.inr member,same⟩
      · rintro ⟨rfl | member,same⟩
        · exact absurd same.symm here
        · exact ⟨member,same⟩

theorem Enumerates.erase (all : Enumerates key m (v :: values)) :
    Enumerates key (Function.update m (key v) none) values := by
  have distinct := all.distinct
  rw [List.map_cons,List.nodup_cons] at distinct
  refine ⟨distinct.2,fun k other => ?_⟩
  by_cases here : k = key v
  · subst here
    rw [Function.update_self]
    constructor
    · nofun
    · rintro ⟨member,same⟩
      exact absurd (same ▸ List.mem_map_of_mem member) distinct.1
  · rw [Function.update_of_ne here,all.bound k other,List.mem_cons]
    constructor
    · rintro ⟨rfl | member,same⟩
      · exact absurd same.symm here
      · exact ⟨member,same⟩
    · rintro ⟨member,same⟩
      exact ⟨.inr member,same⟩

theorem Enumerates.replace (all : Enumerates key m (old :: values)) (same : key v = key old) :
    Enumerates key (Function.update m (key v) (some v)) (v :: values) := by
  have out := all.erase
  rw [← same] at out
  have both := out.insert (v := v) (Function.update_self _ _ _)
  rwa [Function.update_idem] at both

theorem Enumerates.size_eq (all : Enumerates key m values) : size m = values.length := by
  have keys : {k | m k ≠ none} = ((values.map key).toFinset : Set κ) := by
    ext k
    have absent := all.absent k
    simp only [Set.mem_ofPred_eq,ne_eq,absent,List.coe_toFinset,List.mem_map]
    push Not
    rfl
  rw [size,keys,Set.ncard_coe_finset,List.toFinset_card_of_nodup all.distinct,List.length_map]

end Muti.FiniteMap
