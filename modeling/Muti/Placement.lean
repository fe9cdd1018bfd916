import Mathlib.Algebra.Order.BigOperators.Group.List
import Mathlib.Algebra.Order.Ring.Nat
import Muti.ClusterMapMon
import Muti.RoundRobin

/-! Who gets how much of the placement. The loops are one sequence of assignments, in which
every replica of every bset comes once; an object service gets all the replicas of every
bset whose number selects it. -/
namespace Muti.ClusterMapMon

open Muti.Memory Muti.RoundRobin

/-- The cells `object_service_ids[j]` of the bsets `l`, in the order the loops store to them. -/
def assignments (m : ObjectServiceMap) : List (UInt32 × UInt32) :=
  (indices m.bset_replica_size.toNat).flatMap fun j => (indices m.bset_length.toNat).map fun i => (bsetOf m j i,j)

/-- The list has as many object services as the configuration says, and 32 bits count the replicas. -/
structure Counted (m : ObjectServiceMap) : Prop where
  services : m.object_service_list.length = m.object_service_length.toNat
  small : m.bset_length.toNat * m.bset_replica_size.toNat < 2 ^ 32

/-- The bsets the object service at position `k` of `n` is given, in the order it is given them. -/
def given (n k : Nat) (cells : List (UInt32 × UInt32)) : List UInt32 :=
  (cells.map Prod.fst).filter fun l => l.toNat % n = k

def Keeps (os : ObjectService) (bsets : List UInt32) : Prop :=
  os.bset_ids.take os.bset_length.toNat = bsets ∧ os.bset_length.toNat = bsets.length

structure Filled (m0 : ObjectServiceMap) (avg_bset_num : UInt32) (cells : List (UInt32 × UInt32)) (m : ObjectServiceMap) :
    Prop where
  shaped : Shaped m0 m
  rooms : ∀ os ∈ m.object_service_list, os.bset_ids.length = avg_bset_num.toNat
  keeps : ∀ (k : Nat) os, m.object_service_list[k]? = some os → Keeps os (given m0.object_service_length.toNat k cells)
  replicas : ∀ cell ∈ cells, Owned m0 cell.1.toNat cell.2.toNat m

theorem placeReplica_eq (avg : UInt32) (shaped : Shaped m0 m) (j : UInt32) : placeReplica avg m j =
    ((indices m0.bset_length.toNat).map fun i => (bsetOf m0 j i,j)).foldlM (assign avg) m := by
  rw [placeReplica,shaped.bset_length,List.foldlM_map]
  refine Lists.foldlM_congr (Shaped m0) _ ?_ (fun s i s' _ kept turn => (place_spec turn kept).1) shaped
  intro s i _ kept
  rw [place_eq,bsetOf,bsetOf,kept.bset_length]

/-- The loops are the sequence of the assignments. -/
theorem cmmFillBSets_eq (heap : Nat → Nat → UInt32) (m : ObjectServiceMap) : cmmFillBSets heap m =
    avgBSetNum m >>= fun avg => (assignments m).foldlM (assign avg) (allocate heap avg m) := by
  unfold cmmFillBSets
  congr 1
  funext avg
  rw [assignments,Lists.foldlM_flatMap]
  exact Lists.foldlM_congr (Shaped m) _ (fun s j _ kept => placeReplica_eq avg kept j)
    (fun s j s' _ kept pass => (placeReplica_spec pass kept).1) (allocate_shaped heap avg m)

def cellAt (cell : UInt32 × UInt32) : Nat × Nat := (cell.1.toNat,cell.2.toNat)

theorem cellAt_injective : Function.Injective cellAt := by
  rintro ⟨l,j⟩ ⟨l',j'⟩ same
  obtain ⟨first,second⟩ := Prod.mk.inj same
  exact Prod.ext (UInt32.toNat_inj.mp first) (UInt32.toNat_inj.mp second)

/-- No sum of the two loop counters wraps around. -/
theorem Counted.bsetOf_toNat (counted : Counted m) (low : j < m.bset_replica_size.toNat) (early : i < m.bset_length.toNat) :
    (bsetOf m (UInt32.ofNat j) (UInt32.ofNat i)).toNat = (j + i) % m.bset_length.toNat := by
  have small := counted.small
  have sum : m.bset_length.toNat + m.bset_replica_size.toNat ≤ m.bset_length.toNat * m.bset_replica_size.toNat + 1 := by
    obtain ⟨b,bsets⟩ : ∃ b, m.bset_length.toNat = b + 1 := ⟨_,(Nat.succ_pred (by omega)).symm⟩
    obtain ⟨r,replicas⟩ : ∃ r, m.bset_replica_size.toNat = r + 1 := ⟨_,(Nat.succ_pred (by omega)).symm⟩
    rw [bsets,replicas,Nat.succ_mul_succ]
    omega
  have first : (UInt32.ofNat j).toNat = j := UInt32.toNat_ofNat_of_lt (by change j < 2 ^ 32; omega)
  have second : (UInt32.ofNat i).toNat = i := UInt32.toNat_ofNat_of_lt (by change i < 2 ^ 32; omega)
  rw [bsetOf,UInt32.toNat_mod,UInt32.toNat_add,first,second,Nat.mod_eq_of_lt (by omega : j + i < 2 ^ 32)]

theorem Counted.assignments (counted : Counted m) :
    (assignments m).map cellAt = visits m.bset_length.toNat m.bset_replica_size.toNat := by
  have rounds : indices m.bset_replica_size.toNat = (List.range m.bset_replica_size.toNat).map UInt32.ofNat := rfl
  rw [ClusterMapMon.assignments,visits,List.map_flatMap,rounds,List.flatMap_map]
  apply List.flatMap_congr
  intro j below
  rw [indices,List.map_map,List.map_map]
  apply List.map_congr_left
  intro i early
  have low := List.mem_range.mp below
  have range := m.bset_replica_size.toNat_lt
  have number : (UInt32.ofNat j).toNat = j := UInt32.toNat_ofNat_of_lt (by change j < 2 ^ 32; omega)
  simp only [Function.comp_apply,cellAt,counted.bsetOf_toNat low (List.mem_range.mp early),number]

/-- Every replica of every bset is assigned once, and nothing else is. -/
theorem Counted.assigned_once (counted : Counted m) (l j : UInt32) : (ClusterMapMon.assignments m).count (l,j) =
    if l < m.bset_length ∧ j.toNat < m.bset_replica_size.toNat then 1 else 0 := by
  have visited : (l.toNat,j.toNat) ∈ visits m.bset_length.toNat m.bset_replica_size.toNat ↔
      l.toNat < m.bset_length.toNat ∧ j.toNat < m.bset_replica_size.toNat := mem_visits
  rw [← List.count_map_of_injective _ cellAt cellAt_injective,counted.assignments]
  by_cases inside : l < m.bset_length ∧ j.toNat < m.bset_replica_size.toNat
  · rw [if_pos inside]
    exact List.count_eq_one_of_mem (visits_nodup _ _) (visited.mpr inside)
  · rw [if_neg inside]
    exact List.count_eq_zero.mpr fun member => inside (visited.mp member)

theorem Counted.mem_assignments (counted : Counted m) (member : (l,j) ∈ ClusterMapMon.assignments m) :
    l.toNat < m.bset_length.toNat ∧ j.toNat < m.bset_replica_size.toNat := by
  have visited : cellAt (l,j) ∈ visits m.bset_length.toNat m.bset_replica_size.toNat := by
    rw [← counted.assignments]
    exact List.mem_map_of_mem member
  exact mem_visits.mp visited

/-- How many bsets an object service is given in the end. -/
theorem Counted.given_length (counted : Counted m) (low : k < m.object_service_length.toNat) :
    (given m.object_service_length.toNat k (ClusterMapMon.assignments m)).length =
      load m.object_service_length.toNat m.bset_length.toNat m.bset_replica_size.toNat k := by
  rw [← visits_load (Nat.zero_lt_of_lt low) low,← counted.assignments,List.countP_map,given,← List.countP_eq_length_filter,
    List.countP_map]
  rfl

theorem given_append (n k : Nat) (cells : List (UInt32 × UInt32)) (l j : UInt32) :
    given n k (cells ++ [(l,j)]) = given n k cells ++ if l.toNat % n = k then [l] else [] := by
  by_cases mine : l.toNat % n = k <;> simp [given,mine]

theorem allocate_filled (heap : Nat → Nat → UInt32) (avg : UInt32) (m : ObjectServiceMap) :
    Filled m avg [] (allocate heap avg m) := by
  have fresh : ∀ os ∈ (allocate heap avg m).object_service_list, os.bset_ids.length = avg.toNat ∧ os.bset_length = 0 := by
    intro os member
    obtain ⟨i,_,rfl⟩ := List.mem_mapIdx.mp member
    exact ⟨malloc_length _ _,rfl⟩
  refine ⟨allocate_shaped heap avg m,fun os member => (fresh os member).1,?_,nofun⟩
  intro k os here
  rw [Keeps,(fresh os (List.mem_of_getElem? here)).2]
  exact ⟨rfl,rfl⟩

theorem assign_filled (turn : assign avg m (l,j) = .ok m') (filled : Filled m0 avg cells m) :
    Filled m0 avg (cells ++ [(l,j)]) m' := by
  obtain ⟨shaped,owned,older⟩ := assign_spec turn filled.shaped
  obtain ⟨os,bset,located,room,counted,row,inside,rfl⟩ := assign_ok.mp turn
  have owner : (ownerOf m l).toNat = l.toNat % m0.object_service_length.toNat := by
    rw [ownerOf,filled.shaped.object_service_length,UInt32.toNat_mod]
  have size := filled.rooms os (List.mem_of_getElem? located)
  have range := avg.toNat_lt
  have next : (os.bset_length + 1).toNat = os.bset_length.toNat + 1 := by
    rw [UInt32.toNat_add]
    exact Nat.mod_eq_of_lt (by change os.bset_length.toNat + 1 < 2 ^ 32; omega)
  rw [owner] at located shaped owned older ⊢
  refine ⟨shaped,?_,?_,?_⟩
  · intro other member
    rcases Lists.mem_set_cases member with rfl | old
    · simpa using size
    · exact filled.rooms other old
  · intro k other here
    rw [given_append]
    by_cases mine : l.toNat % m0.object_service_length.toNat = k
    · subst mine
      obtain rfl := Option.some.inj ((List.getElem?_set_self (List.getElem?_eq_some_iff.mp located).1).symm.trans here)
      obtain ⟨front,count⟩ := filled.keeps _ os located
      rw [if_pos rfl,Keeps,next,Lists.take_set_succ room,front,count,List.length_append]
      exact ⟨rfl,rfl⟩
    · rw [List.getElem?_set_ne mine] at here
      rw [if_neg mine,List.append_nil]
      exact filled.keeps k other here
  · intro cell member
    rcases List.mem_append.mp member with old | new
    · exact older _ _ (filled.replicas cell old)
    · obtain rfl := List.mem_singleton.mp new
      exact owned

theorem Counted.kept (counted : Counted m0) (shaped : Shaped m0 m) :
    m.object_service_list.length = m0.object_service_length.toNat := by
  have lengths := congrArg List.length shaped.ids
  rw [List.length_map,List.length_map] at lengths
  exact lengths.trans counted.services

/-- The object service a bset's number selects has room for another one. -/
theorem assign_possible (counted : Counted m0) (filled : Filled m0 avg cells m) (nonempty : 0 < m0.object_service_length.toNat)
    (inside : l.toNat < m0.bset_length.toNat ∧ j.toNat < m0.bset_replica_size.toNat)
    (room : (given m0.object_service_length.toNat (l.toNat % m0.object_service_length.toNat) cells).length < avg.toNat) :
    ∃ m', assign avg m (l,j) = .ok m' := by
  have shaped := filled.shaped
  have owner : (ownerOf m l).toNat = l.toNat % m0.object_service_length.toNat := by
    rw [ownerOf,shaped.object_service_length,UInt32.toNat_mod]
  have services := counted.kept shaped
  obtain ⟨os,located⟩ : ∃ os, m.object_service_list[(ownerOf m l).toNat]? = some os := by
    refine ⟨_,List.getElem?_eq_getElem ?_⟩
    rw [owner,services]
    exact Nat.mod_lt _ nonempty
  obtain ⟨bset,row⟩ : ∃ bset, m.bset.cells[l.toNat]? = some bset := by
    refine ⟨_,List.getElem?_eq_getElem ?_⟩
    rw [shaped.bsets]
    exact inside.1
  obtain ⟨_,count⟩ := filled.keeps _ os located
  rw [owner] at count
  have size := filled.rooms os (List.mem_of_getElem? located)
  have long := shaped.rows bset (List.mem_of_getElem? row)
  refine ⟨_,assign_ok.mpr ⟨os,bset,located,by omega,?_,row,by omega,rfl⟩⟩
  rw [UInt32.le_iff_toNat_le,UInt32.toNat_add]
  exact Nat.le_trans (Nat.mod_le _ _) (by change _ + 1 ≤ _; omega)

/-- A completed part of the loops has stored to its cells. -/
theorem fold_filled (run : todo.foldlM (assign avg) m = .ok m') (filled : Filled m0 avg cells m) :
    Filled m0 avg (cells ++ todo) m' := by
  induction todo generalizing m cells with
  | nil =>
    cases run
    simpa using filled
  | cons cell todo ih =>
    rw [List.foldlM_cons] at run
    obtain ⟨middle,turn,rest⟩ := bind_ok.mp run
    have onward := ih rest (assign_filled turn filled)
    rwa [List.append_assoc] at onward

/-- The loops complete when nobody gets more than there is room for. -/
theorem fold_possible (counted : Counted m0) (filled : Filled m0 avg cells m) (nonempty : 0 < m0.object_service_length.toNat)
    (inside : ∀ cell ∈ todo, cell.1.toNat < m0.bset_length.toNat ∧ cell.2.toNat < m0.bset_replica_size.toNat)
    (room : ∀ k < m0.object_service_length.toNat,
      (given m0.object_service_length.toNat k (cells ++ todo)).length ≤ avg.toNat) :
    ∃ m', todo.foldlM (assign avg) m = .ok m' := by
  induction todo generalizing m cells with
  | nil => exact ⟨m,rfl⟩
  | cons cell todo ih =>
    obtain ⟨l,j⟩ := cell
    have split : cells ++ (l,j) :: todo = cells ++ [(l,j)] ++ todo := by simp
    rw [split] at room
    have fewer := room (l.toNat % m0.object_service_length.toNat) (Nat.mod_lt _ nonempty)
    have parts : given m0.object_service_length.toNat (l.toNat % m0.object_service_length.toNat) (cells ++ [(l,j)] ++ todo) =
        given m0.object_service_length.toNat (l.toNat % m0.object_service_length.toNat) (cells ++ [(l,j)]) ++
          given m0.object_service_length.toNat (l.toNat % m0.object_service_length.toNat) todo := by
      simp [given]
    rw [parts,given_append,if_pos rfl,List.length_append,List.length_append,List.length_singleton] at fewer
    obtain ⟨middle,turn⟩ := assign_possible (l := l) (j := j) counted filled nonempty (inside _ List.mem_cons_self) (by omega)
    obtain ⟨m',rest⟩ := ih (assign_filled turn filled) (fun cell member => inside cell (List.mem_cons_of_mem _ member)) room
    exact ⟨m',by rw [List.foldlM_cons,turn]; exact rest⟩

/-- What division rounds up to. -/
theorem roundUp_eq (total : Nat) (shares : 0 < n) :
    (total + (n - 1)) / n = total / n + if total % n = 0 then 0 else 1 := by
  have whole := Nat.div_add_mod total n
  have left := Nat.mod_lt total shares
  have split : total + (n - 1) = n * (total / n) + (total % n + (n - 1)) := by omega
  rw [split,Nat.mul_add_div shares]
  congr 1
  split
  case isTrue none =>
    rw [none]
    exact Nat.div_eq_of_lt (by omega)
  case isFalse some =>
    have more : total % n + (n - 1) = n + (total % n - 1) := by omega
    rw [more,Nat.add_div_left _ shares,Nat.div_eq_of_lt (by omega)]

/-- The room for each object service is the average of the replicas 32 bits count, rounded up. -/
theorem avgBSetNum_eq (nonempty : 0 < m.object_service_length.toNat) :
    ∃ avg, avgBSetNum m = .ok avg ∧ avg.toNat =
      (m.bset_length.toNat * m.bset_replica_size.toNat % 2 ^ 32 + (m.object_service_length.toNat - 1)) /
        m.object_service_length.toNat := by
  have some_service : m.object_service_length ≠ 0 := by
    intro none
    rw [none] at nonempty
    exact absurd nonempty (by decide)
  have total : (m.bset_length * m.bset_replica_size.toUInt32).toNat =
      m.bset_length.toNat * m.bset_replica_size.toNat % 2 ^ 32 := by
    rw [UInt32.toNat_mul,UInt16.toNat_toUInt32]
  simp only [avgBSetNum,if_neg some_service]
  refine ⟨_,rfl,?_⟩
  rw [← total]
  generalize m.bset_length * m.bset_replica_size.toUInt32 = total_bset_num
  have range := total_bset_num.toNat_lt
  have whole := Nat.div_add_mod total_bset_num.toNat m.object_service_length.toNat
  rw [Nat.mul_comm] at whole
  have exact_iff : total_bset_num / m.object_service_length * m.object_service_length = total_bset_num ↔
      total_bset_num.toNat % m.object_service_length.toNat = 0 := by
    rw [← UInt32.toNat_inj,UInt32.toNat_mul,UInt32.toNat_div,Nat.mod_eq_of_lt (by omega)]
    omega
  rw [roundUp_eq _ nonempty]
  by_cases exact : total_bset_num.toNat % m.object_service_length.toNat = 0
  · rw [if_pos (exact_iff.mpr exact),if_pos exact,UInt32.toNat_div]
    rfl
  · have half : total_bset_num.toNat / m.object_service_length.toNat * 2 ≤
        total_bset_num.toNat / m.object_service_length.toNat * m.object_service_length.toNat := by
      apply Nat.mul_le_mul_left
      by_contra one
      have single : m.object_service_length.toNat = 1 := by omega
      rw [single,Nat.mod_one] at exact
      exact exact rfl
    rw [if_neg (exact_iff.not.mpr exact),if_neg exact,UInt32.toNat_add,UInt32.toNat_div]
    change (_ + 1) % 2 ^ 32 = _
    omega

/-- All replicas find room, while 32 bits count them. -/
theorem avgBSetNum_ok (counted : Counted m) (nonempty : 0 < m.object_service_length.toNat) :
    ∃ avg, avgBSetNum m = .ok avg ∧
      m.bset_length.toNat * m.bset_replica_size.toNat ≤ avg.toNat * m.object_service_length.toNat := by
  obtain ⟨avg,averaged,average⟩ := avgBSetNum_eq nonempty
  rw [Nat.mod_eq_of_lt counted.small] at average
  refine ⟨avg,averaged,?_⟩
  have whole := Nat.div_add_mod (m.bset_length.toNat * m.bset_replica_size.toNat + (m.object_service_length.toNat - 1))
    m.object_service_length.toNat
  have left := Nat.mod_lt (m.bset_length.toNat * m.bset_replica_size.toNat + (m.object_service_length.toNat - 1)) nonempty
  rw [average,Nat.mul_comm (_ / m.object_service_length.toNat)]
  omega

theorem cmmFillBSets_filled (done : cmmFillBSets heap m = .ok m') : ∃ avg, Filled m avg (assignments m) m' := by
  rw [cmmFillBSets_eq] at done
  obtain ⟨avg,_,run⟩ := bind_ok.mp done
  exact ⟨avg,by simpa using fold_filled run (allocate_filled heap avg m)⟩

theorem cmmFillBSets_index (done : cmmFillBSets heap m = .ok m') : m'.os_map = m.os_map := by
  rw [cmmFillBSets_eq] at done
  obtain ⟨avg,_,run⟩ := bind_ok.mp done
  refine Lists.foldlM_keeps (fun s => s.os_map = m.os_map) _ (fun s cell s' _ kept turn => ?_) rfl run
  obtain ⟨os,bset,-,-,-,-,-,rfl⟩ := assign_ok.mp turn
  exact kept

theorem Counted.loads (counted : Counted m) (filled : Filled m avg (ClusterMapMon.assignments m) m')
    (here : m'.object_service_list[k]? = some os) :
    os.bset_length.toNat = load m.object_service_length.toNat m.bset_length.toNat m.bset_replica_size.toNat k := by
  have inside := (List.getElem?_eq_some_iff.mp here).1
  have services := counted.kept filled.shaped
  rw [(filled.keeps k os here).2,counted.given_length (by omega)]

/-- Every replica is given to somebody. -/
theorem given_sum (m : ObjectServiceMap) (nonempty : 0 < m.object_service_length.toNat) :
    ((List.range m.object_service_length.toNat).map
      fun k => (given m.object_service_length.toNat k (assignments m)).length).sum =
      m.bset_length.toNat * m.bset_replica_size.toNat := by
  have below : ∀ l ∈ (assignments m).map Prod.fst,
      l.toNat % m.object_service_length.toNat < m.object_service_length.toNat := fun l _ => Nat.mod_lt _ nonempty
  have parts := Lists.flatMap_filter_perm (fun l : UInt32 => l.toNat % m.object_service_length.toNat) _ below
  have total := parts.length_eq
  rw [List.length_flatMap,List.length_map] at total
  refine Eq.trans total ?_
  rw [assignments,List.length_flatMap]
  simp [indices,Function.comp_def,Nat.mul_comm]

/-- All object services together have all the replicas of all the bsets. -/
theorem Counted.loads_sum (counted : Counted m) (filled : Filled m avg (ClusterMapMon.assignments m) m')
    (nonempty : 0 < m.object_service_length.toNat) :
    (m'.object_service_list.map fun os => os.bset_length.toNat).sum =
      m.bset_length.toNat * m.bset_replica_size.toNat := by
  have services := counted.kept filled.shaped
  have numbers : (m'.object_service_list.map fun os => os.bset_length.toNat) =
      (List.range m.object_service_length.toNat).map
        fun k => (given m.object_service_length.toNat k (ClusterMapMon.assignments m)).length := by
    apply List.ext_getElem
    · simp [services]
    · intro k inside _
      rw [List.length_map] at inside
      simp only [List.getElem_map,List.getElem_range]
      exact (filled.keeps k _ (List.getElem?_eq_getElem inside)).2
  rw [numbers,given_sum m nonempty]

/-- The fill completes, so every bset id is written inside the block of its object service
and the assertion holds; the loads differ by at most one and add up to all replicas. -/
def Balanced (heap : Nat → Nat → UInt32) (m : ObjectServiceMap) : Prop :=
  ∃ m', cmmFillBSets heap m = .ok m' ∧
    (∀ os ∈ m'.object_service_list, ∀ os' ∈ m'.object_service_list,
      os.bset_length.toNat ≤ os'.bset_length.toNat + 1) ∧
    (m'.object_service_list.map fun os => os.bset_length.toNat).sum = m.bset_length.toNat * m.bset_replica_size.toNat

/-- The replicas are balanced exactly when the object services divide the bsets, or there is
one replica of each. -/
theorem placement_balanced_iff (heap : Nat → Nat → UInt32) (m : ObjectServiceMap) (counted : Counted m)
    (replicas : 1 ≤ m.bset_replica_size.toNat) (services : 1 ≤ m.object_service_length.toNat) :
    Balanced heap m ↔ m.object_service_length.toNat ∣ m.bset_length.toNat ∨ m.bset_replica_size.toNat = 1 := by
  constructor
  · rintro ⟨m',done,even,_⟩
    obtain ⟨avg,filled⟩ := cmmFillBSets_filled done
    have kept := counted.kept filled.shaped
    apply (load_even_iff services replicas).mp
    intro k low k' low'
    have here := List.getElem?_eq_getElem (kept ▸ low : k < m'.object_service_list.length)
    have there := List.getElem?_eq_getElem (kept ▸ low' : k' < m'.object_service_list.length)
    rw [← counted.loads filled here,← counted.loads filled there]
    exact even _ (List.mem_of_getElem? here) _ (List.mem_of_getElem? there)
  · intro divided
    obtain ⟨avg,averaged,average⟩ := avgBSetNum_ok counted services
    have start := allocate_filled heap avg m
    have room : ∀ k < m.object_service_length.toNat,
        (given m.object_service_length.toNat k ([] ++ assignments m)).length ≤ avg.toNat := by
      intro k low
      rw [List.nil_append,counted.given_length low]
      exact load_le_average services divided average k
    obtain ⟨m',run⟩ := fold_possible counted start services
      (fun cell member => counted.mem_assignments (l := cell.1) (j := cell.2) member) room
    have filled : Filled m avg (assignments m) m' := by simpa using fold_filled run start
    refine ⟨m',?_,?_,counted.loads_sum filled services⟩
    · rw [cmmFillBSets_eq,averaged]
      exact run
    · intro os member os' member'
      obtain ⟨k,here⟩ := List.mem_iff_getElem?.mp member
      obtain ⟨k',there⟩ := List.mem_iff_getElem?.mp member'
      have kept := counted.kept filled.shaped
      have low := (List.getElem?_eq_some_iff.mp here).1
      have low' := (List.getElem?_eq_some_iff.mp there).1
      rw [counted.loads filled here,counted.loads filled there]
      exact (load_even_iff services replicas).mpr divided k (by omega) k' (by omega)

/-- The replicas are counted in 32 bits, and the object service with the most of them gets no
more than the average, rounded up. -/
structure Placeable (bset_length : UInt32) (bset_replica_size : UInt16) (object_service_length : UInt32) : Prop where
  services : 1 ≤ object_service_length.toNat
  small : bset_length.toNat * bset_replica_size.toNat < 2 ^ 32
  room : bset_replica_size.toNat *
      ((bset_length.toNat + (object_service_length.toNat - 1)) / object_service_length.toNat) ≤
    (bset_length.toNat * bset_replica_size.toNat + (object_service_length.toNat - 1)) / object_service_length.toNat

theorem load_zero (shares : 0 < n) : load n size rounds 0 = rounds * ((size + (n - 1)) / n) := by
  rw [load,roundUp_eq _ shares]
  congr 2
  by_cases none : size % n = 0
  · rw [if_pos none,if_neg (by omega)]
  · rw [if_neg none,if_pos (by omega)]

theorem load_le_zero (n size rounds k : Nat) : load n size rounds k ≤ load n size rounds 0 := by
  rw [load,load]
  apply Nat.mul_le_mul_left
  apply Nat.add_le_add_left
  split
  · rw [if_pos (by omega)]
  · exact Nat.zero_le _

theorem Filled.given_le (filled : Filled m avg cells m') (services : m.object_service_list.length = m.object_service_length.toNat)
    (low : k < m.object_service_length.toNat) : (given m.object_service_length.toNat k cells).length ≤ avg.toNat := by
  have lengths := congrArg List.length filled.shaped.ids
  rw [List.length_map,List.length_map] at lengths
  have inside : k < m'.object_service_list.length := by omega
  have kept := (filled.keeps k _ (List.getElem?_eq_getElem inside)).1
  rw [← kept,List.length_take,filled.rooms _ (List.getElem_mem inside)]
  exact Nat.min_le_right ..

/-- The fill completes exactly when the replicas can be placed. -/
theorem cmmFillBSets_iff (heap : Nat → Nat → UInt32) (m : ObjectServiceMap)
    (services : m.object_service_list.length = m.object_service_length.toNat) :
    (∃ m', cmmFillBSets heap m = .ok m') ↔ Placeable m.bset_length m.bset_replica_size m.object_service_length := by
  constructor
  · rintro ⟨m',done⟩
    rw [cmmFillBSets_eq] at done
    obtain ⟨avg,averaged,run⟩ := bind_ok.mp done
    have nonempty : 0 < m.object_service_length.toNat := by
      by_contra none
      have zero : m.object_service_length = 0 := UInt32.toNat_inj.mp (by simpa using none)
      simp [avgBSetNum,zero] at averaged
    obtain ⟨avg',averaged',average⟩ := avgBSetNum_eq nonempty
    cases averaged.symm.trans averaged'
    have filled : Filled m avg (assignments m) m' := by simpa using fold_filled run (allocate_filled heap avg m)
    have shares : m.bset_length.toNat * m.bset_replica_size.toNat ≤ m.object_service_length.toNat * avg.toNat := by
      have parts := List.sum_le_card_nsmul ((List.range m.object_service_length.toNat).map
        fun k => (given m.object_service_length.toNat k (assignments m)).length) avg.toNat (by
          intro size member
          obtain ⟨k,listed,rfl⟩ := List.mem_map.mp member
          exact filled.given_le services (List.mem_range.mp listed))
      rw [given_sum m nonempty] at parts
      simpa using parts
    -- A product that wraps leaves less room than there are replicas.
    have small : m.bset_length.toNat * m.bset_replica_size.toNat < 2 ^ 32 := by
      have room := Nat.mul_div_le (m.bset_length.toNat * m.bset_replica_size.toNat % 2 ^ 32 +
        (m.object_service_length.toNat - 1)) m.object_service_length.toNat
      rw [← average] at room
      have word := m.object_service_length.toNat_lt
      omega
    have counted : Counted m := ⟨services,small⟩
    rw [Nat.mod_eq_of_lt small] at average
    refine ⟨nonempty,small,?_⟩
    rw [← load_zero nonempty,← counted.given_length nonempty,← average]
    exact filled.given_le services nonempty
  · rintro ⟨nonempty,small,room⟩
    have counted : Counted m := ⟨services,small⟩
    obtain ⟨avg,averaged,average⟩ := avgBSetNum_eq nonempty
    rw [Nat.mod_eq_of_lt small] at average
    have rooms : ∀ k < m.object_service_length.toNat,
        (given m.object_service_length.toNat k ([] ++ assignments m)).length ≤ avg.toNat := by
      intro k low
      rw [List.nil_append,counted.given_length low,average]
      exact Nat.le_trans (load_le_zero ..) (by rwa [load_zero nonempty])
    obtain ⟨m',run⟩ := fold_possible counted (allocate_filled heap avg m) nonempty
      (fun cell member => counted.mem_assignments (l := cell.1) (j := cell.2) member) rooms
    exact ⟨m',by rw [cmmFillBSets_eq,averaged]; exact run⟩

theorem pairMap_counted : Counted pairMap := ⟨rfl,by decide⟩

theorem placement_balanced_pair : Balanced (fun _ _ => 0) pairMap :=
  (placement_balanced_iff _ pairMap pairMap_counted (by decide) (by decide)).mpr (.inl (by decide))

/-- Three bsets of two replicas for two object services: there is room for three bset ids at
each, and the first one would get four. -/
def oddMap : ObjectServiceMap := { pairMap with bset_length := 3 }

theorem placement_overflows : cmmFillBSets (fun _ _ => 0) oddMap = .error .outOfBounds ∧ ¬Balanced (fun _ _ => 0) oddMap := by
  have fails : cmmFillBSets (fun _ _ => 0) oddMap = .error .outOfBounds := by rfl
  refine ⟨fails,?_⟩
  rintro ⟨m',done,_⟩
  rw [fails] at done
  cases done

/-- Every bset is in the list of the object service its number selects, once for each replica. -/
theorem Counted.given_count {l : UInt32} (counted : Counted m) (inside : l.toNat < m.bset_length.toNat) (k : Nat) :
    (given m.object_service_length.toNat k (ClusterMapMon.assignments m)).count l =
      if l.toNat % m.object_service_length.toNat = k then m.bset_replica_size.toNat else 0 := by
  by_cases mine : l.toNat % m.object_service_length.toNat = k
  · rw [if_pos mine,given,List.count_filter (by simpa using mine),List.count,List.countP_map,
      ← visits_count m.bset_replica_size.toNat inside,← counted.assignments,List.countP_map]
    apply List.countP_congr
    intro cell _
    simp [cellAt,UInt32.toNat_inj]
  · rw [if_neg mine,List.count_eq_zero]
    intro member
    exact mine (by simpa using (List.mem_filter.mp member).2)

/-- All replicas of a bset are on the object service its number selects. -/
theorem Counted.replicas_of {l : UInt32} {bset : BSet} (counted : Counted m) (filled : Filled m avg (ClusterMapMon.assignments m) m')
    (row : m'.bset.cells[l.toNat]? = some bset)
    (owner : m'.object_service_list[l.toNat % m.object_service_length.toNat]? = some os) :
    bset.object_service_ids = List.replicate m.bset_replica_size.toNat os.id := by
  have long := filled.shaped.rows bset (List.mem_of_getElem? row)
  have inside := (List.getElem?_eq_some_iff.mp row).1
  rw [filled.shaped.bsets] at inside
  refine List.eq_replicate_iff.mpr ⟨long,?_⟩
  intro os_id member
  obtain ⟨j,here⟩ := List.mem_iff_getElem?.mp member
  have low := (List.getElem?_eq_some_iff.mp here).1
  have range := m.bset_replica_size.toNat_lt
  have number : (UInt32.ofNat j).toNat = j := UInt32.toNat_ofNat_of_lt (by change j < 2 ^ 32; omega)
  have assigned : (l,UInt32.ofNat j) ∈ ClusterMapMon.assignments m := by
    apply List.count_pos_iff.mp
    rw [counted.assigned_once,if_pos ⟨inside,by omega⟩]
    exact Nat.one_pos
  obtain ⟨bset',row',owned⟩ := filled.replicas _ assigned
  obtain rfl := Option.some.inj (row.symm.trans row')
  rw [number,here,← filled.shaped.ids,List.getElem?_map,owner] at owned
  exact Option.some.inj owned

/-- A bset is in the list of an object service as often as that is among the bset's replicas. -/
theorem Counted.index_agrees {l : UInt32} (counted : Counted m) (distinct : (m.object_service_list.map ObjectService.id).Nodup)
    (filled : Filled m avg (ClusterMapMon.assignments m) m') (nonempty : 0 < m.object_service_length.toNat)
    (row : m'.bset.cells[l.toNat]? = some bset) (member : os ∈ m'.object_service_list) :
    (os.bset_ids.take os.bset_length.toNat).count l = bset.object_service_ids.count os.id := by
  have services := counted.kept filled.shaped
  have inside := (List.getElem?_eq_some_iff.mp row).1
  rw [filled.shaped.bsets] at inside
  obtain ⟨k,here⟩ := List.mem_iff_getElem?.mp member
  have low := (List.getElem?_eq_some_iff.mp here).1
  have selected : l.toNat % m.object_service_length.toNat < m'.object_service_list.length := by
    rw [services]
    exact Nat.mod_lt _ nonempty
  have owner := List.getElem?_eq_getElem selected
  rw [← filled.shaped.ids] at distinct
  rw [(filled.keeps k os here).1,counted.given_count inside,counted.replicas_of filled row owner,List.count_replicate]
  have same : l.toNat % m.object_service_length.toNat = k ↔
      m'.object_service_list[l.toNat % m.object_service_length.toNat].id = os.id := by
    constructor
    · rintro rfl
      rw [← Option.some.inj (owner.symm.trans here)]
    · intro equal
      refine (List.getElem?_inj (by simpa using selected) distinct).mp ?_
      rw [List.getElem?_map,List.getElem?_map,owner,here]
      exact congrArg some equal
  by_cases mine : l.toNat % m.object_service_length.toNat = k
  · rw [if_pos mine,if_pos (beq_iff_eq.mpr (same.mp mine))]
  · rw [if_neg mine,if_neg fun equal => mine (same.mpr (beq_iff_eq.mp equal))]

/-- A completed fill has stored to every replica of every bset once, in the order of the
assignments, and has stored ids of listed object services only; a bset is in the list of an
object service as often as that object service is among the bset's replicas. -/
theorem placement_index (heap : Nat → Nat → UInt32) (m m' : ObjectServiceMap) (counted : Counted m)
    (distinct : (m.object_service_list.map ObjectService.id).Nodup) (done : cmmFillBSets heap m = .ok m') :
    (cmmFillBSets heap m = avgBSetNum m >>= fun avg => (assignments m).foldlM (assign avg) (allocate heap avg m)) ∧
    (∀ l j, (assignments m).count (l,j) = if l < m.bset_length ∧ j.toNat < m.bset_replica_size.toNat then 1 else 0) ∧
    m'.bset.cells.length = m.bset_length.toNat ∧
    (∀ bset ∈ m'.bset.cells, bset.object_service_ids.length = m.bset_replica_size.toNat ∧
      ∀ os_id ∈ bset.object_service_ids, os_id ∈ m'.object_service_list.map ObjectService.id) ∧
    ∀ (l : UInt32) bset, m'.bset.cells[l.toNat]? = some bset → ∀ os ∈ m'.object_service_list,
      (os.bset_ids.take os.bset_length.toNat).count l = bset.object_service_ids.count os.id := by
  obtain ⟨avg,filled⟩ := cmmFillBSets_filled done
  have nonempty : 0 < m.object_service_length.toNat := by
    obtain ⟨_,averaged,_⟩ := bind_ok.mp done
    apply Nat.pos_of_ne_zero
    intro none
    have zero : m.object_service_length = 0 := UInt32.toNat_inj.mp none
    rw [avgBSetNum,if_pos zero] at averaged
    cases averaged
  refine ⟨cmmFillBSets_eq heap m,counted.assigned_once,filled.shaped.bsets,?_,?_⟩
  · intro bset member
    refine ⟨filled.shaped.rows bset member,?_⟩
    intro os_id listed
    obtain ⟨l,row⟩ := List.mem_iff_getElem?.mp member
    have inside := (List.getElem?_eq_some_iff.mp row).1
    rw [filled.shaped.bsets] at inside
    have range := m.bset_length.toNat_lt
    have number : (UInt32.ofNat l).toNat = l := UInt32.toNat_ofNat_of_lt (by change l < 2 ^ 32; omega)
    rw [← number] at row
    have selected : (UInt32.ofNat l).toNat % m.object_service_length.toNat < m'.object_service_list.length := by
      rw [counted.kept filled.shaped]
      exact Nat.mod_lt _ nonempty
    rw [counted.replicas_of filled row (List.getElem?_eq_getElem selected)] at listed
    rw [(List.mem_replicate.mp listed).2]
    exact List.mem_map_of_mem (List.getElem_mem selected)
  · intro l bset row os member
    exact counted.index_agrees distinct filled nonempty row member

theorem placement_index_pair : (assignments pairMap).count (1,0) = 1 ∧
    ∀ (l : UInt32) bset, pairFilled.bset.cells[l.toNat]? = some bset → ∀ os ∈ pairFilled.object_service_list,
      (os.bset_ids.take os.bset_length.toNat).count l = bset.object_service_ids.count os.id := by
  have index := placement_index (fun _ _ => 0) pairMap pairFilled pairMap_counted (by decide) pairMap_filled
  exact ⟨index.2.1 1 0,index.2.2.2.2⟩

end Muti.ClusterMapMon
