import Mathlib.Data.List.Nodup
import Muti.ClusterMap
import Muti.Lists

/-! Placement of bset replicas by the monitor. The owner of a replica is chosen from the
bset's own number, so every pass over the bsets gives a bset the same owner again. -/
namespace Muti.ClusterMapMon

open Muti.Memory

/-- The list walk of the source ends at the `k`-th entry or fails its assertion. -/
def cmmGetOSbyIndex (m : ObjectServiceMap) (k : UInt32) : Except Fault ObjectService :=
  match m.object_service_list[k.toNat]? with
  | some os => .ok os
  | none => .error .assertion

def avgBSetNum (m : ObjectServiceMap) : Except Fault UInt32 :=
  if m.object_service_length = 0 then .error .division
  else
    let total_bset_num := m.bset_length * m.bset_replica_size.toUInt32
    let avg_bset_num := total_bset_num / m.object_service_length
    .ok (if avg_bset_num * m.object_service_length = total_bset_num then avg_bset_num
      else avg_bset_num + 1)

/-- Block `n` of the heap holds `heap n` when it is handed out. -/
def allocate (heap : Nat → Nat → UInt32) (avg_bset_num : UInt32) (m : ObjectServiceMap) : ObjectServiceMap :=
  { m with
    bset := .live ((List.range m.bset_length.toNat).map fun i =>
      ⟨UInt32.ofNat i,malloc (heap i) m.bset_replica_size.toNat⟩)
    object_service_list := m.object_service_list.mapIdx fun i os =>
      { os with bset_ids := malloc (heap (m.bset_length.toNat + i)) avg_bset_num.toNat, bset_length := 0 } }

def bsetOf (m : ObjectServiceMap) (j i : UInt32) : UInt32 := (j + i) % m.bset_length

def ownerOf (m : ObjectServiceMap) (l : UInt32) : UInt32 := l % m.object_service_length

/-- Append `l` to the bset ids of the object service at position `k`. -/
def giveBSet (avg_bset_num : UInt32) (m : ObjectServiceMap) (k l : UInt32) (os : ObjectService) :
    Except Fault ObjectServiceMap := do
  let bset_ids ← write os.bset_ids os.bset_length.toNat l
  let os := { os with bset_ids, bset_length := os.bset_length + 1 }
  assert (os.bset_length ≤ avg_bset_num)
  .ok { m with object_service_list := m.object_service_list.set k.toNat os }

/-- `os_map->bset[l].object_service_ids[j] = os->id`. -/
def setReplica (m : ObjectServiceMap) (l j os_id : UInt32) : Except Fault ObjectServiceMap := do
  let bset ← read m.bset.cells l.toNat
  let object_service_ids ← write bset.object_service_ids j.toNat os_id
  let cells ← write m.bset.cells l.toNat { bset with object_service_ids }
  .ok { m with bset := .live cells }

def place (avg_bset_num j : UInt32) (m : ObjectServiceMap) (i : UInt32) : Except Fault ObjectServiceMap := do
  let l := bsetOf m j i
  let k := ownerOf m l
  let os ← cmmGetOSbyIndex m k
  let m ← giveBSet avg_bset_num m k l os
  setReplica m l j os.id

def indices (n : Nat) : List UInt32 := (List.range n).map UInt32.ofNat

def placeReplica (avg_bset_num : UInt32) (m : ObjectServiceMap) (j : UInt32) : Except Fault ObjectServiceMap :=
  (indices m.bset_length.toNat).foldlM (place avg_bset_num j) m

def cmmFillBSets (heap : Nat → Nat → UInt32) (m : ObjectServiceMap) : Except Fault ObjectServiceMap := do
  let avg_bset_num ← avgBSetNum m
  (indices m.bset_replica_size.toNat).foldlM (placeReplica avg_bset_num) (allocate heap avg_bset_num m)

/-- The configurations the monitor is meant for. -/
structure Configured (m : ObjectServiceMap) : Prop where
  bsets : 1 ≤ m.bset_length.toNat
  services : m.object_service_list.length = m.object_service_length.toNat
  distinct : (m.object_service_list.map ObjectService.id).Nodup
  replicas : m.bset_replica_size.toNat ≤ m.object_service_list.length

/-- Every bset has its replicas on as many different object services of the list. -/
def ReplicasApart (m : ObjectServiceMap) : Prop :=
  m.bset.cells.length = m.bset_length.toNat ∧ ∀ bset ∈ m.bset.cells,
    bset.object_service_ids.length = m.bset_replica_size.toNat ∧ bset.object_service_ids.Nodup ∧
    ∀ os_id ∈ bset.object_service_ids, os_id ∈ m.object_service_list.map ObjectService.id

/-- What the placement loops never change: the sizes, the ids and the shape of the arrays. -/
structure Shaped (m0 m : ObjectServiceMap) : Prop where
  bset_length : m.bset_length = m0.bset_length
  object_service_length : m.object_service_length = m0.object_service_length
  bset_replica_size : m.bset_replica_size = m0.bset_replica_size
  ids : m.object_service_list.map ObjectService.id = m0.object_service_list.map ObjectService.id
  bsets : m.bset.cells.length = m0.bset_length.toNat
  rows : ∀ bset ∈ m.bset.cells, bset.object_service_ids.length = m0.bset_replica_size.toNat

/-- Replica `j` of bset `l` lies on the object service the bset's number selects. -/
def Owned (m0 : ObjectServiceMap) (l j : Nat) (m : ObjectServiceMap) : Prop :=
  ∃ bset, m.bset.cells[l]? = some bset ∧
    bset.object_service_ids[j]? =
      (m0.object_service_list.map ObjectService.id)[l % m0.object_service_length.toNat]?

theorem cmmGetOSbyIndex_ok : cmmGetOSbyIndex m k = .ok os ↔ m.object_service_list[k.toNat]? = some os := by
  unfold cmmGetOSbyIndex
  cases m.object_service_list[k.toNat]? <;> simp

theorem giveBSet_ok : giveBSet avg m k l os = .ok m' ↔
    os.bset_length.toNat < os.bset_ids.length ∧ os.bset_length + 1 ≤ avg ∧
    m' = { m with
      object_service_list := m.object_service_list.set k.toNat
        { os with bset_ids := os.bset_ids.set os.bset_length.toNat l, bset_length := os.bset_length + 1 } } := by
  constructor
  · intro gave
    obtain ⟨bset_ids,written,checked⟩ := bind_ok.mp gave
    obtain ⟨_,counted,made⟩ := bind_ok.mp checked
    obtain ⟨inside,rfl⟩ := write_ok.mp written
    cases made
    exact ⟨inside,assert_ok.mp counted,rfl⟩
  · rintro ⟨inside,counted,rfl⟩
    exact bind_ok.mpr ⟨_,write_ok.mpr ⟨inside,rfl⟩,bind_ok.mpr ⟨(),assert_ok.mpr counted,rfl⟩⟩

theorem setReplica_ok : setReplica m l j os_id = .ok m' ↔
    ∃ bset, m.bset.cells[l.toNat]? = some bset ∧ j.toNat < bset.object_service_ids.length ∧
      m' = { m with bset := .live (m.bset.cells.set l.toNat
        { bset with object_service_ids := bset.object_service_ids.set j.toNat os_id }) } := by
  constructor
  · intro set
    obtain ⟨bset,found,rest⟩ := bind_ok.mp set
    obtain ⟨ids,written,rest⟩ := bind_ok.mp rest
    obtain ⟨cells,stored,made⟩ := bind_ok.mp rest
    cases made
    obtain ⟨inside,rfl⟩ := write_ok.mp written
    obtain ⟨_,rfl⟩ := write_ok.mp stored
    exact ⟨bset,read_ok.mp found,inside,rfl⟩
  · rintro ⟨bset,found,inside,rfl⟩
    have row := (List.getElem?_eq_some_iff.mp found).1
    exact bind_ok.mpr ⟨_,read_ok.mpr found,bind_ok.mpr ⟨_,write_ok.mpr ⟨inside,rfl⟩,
      bind_ok.mpr ⟨_,write_ok.mpr ⟨row,rfl⟩,rfl⟩⟩⟩

def assign (avg_bset_num : UInt32) (m : ObjectServiceMap) (cell : UInt32 × UInt32) : Except Fault ObjectServiceMap := do
  let k := ownerOf m cell.1
  let os ← cmmGetOSbyIndex m k
  let m ← giveBSet avg_bset_num m k cell.1 os
  setReplica m cell.1 cell.2 os.id

theorem assign_ok : assign avg m (l,j) = .ok m' ↔
    ∃ os bset, m.object_service_list[(ownerOf m l).toNat]? = some os ∧ os.bset_length.toNat < os.bset_ids.length ∧
      os.bset_length + 1 ≤ avg ∧ m.bset.cells[l.toNat]? = some bset ∧ j.toNat < bset.object_service_ids.length ∧
      m' = { m with
        object_service_list := m.object_service_list.set (ownerOf m l).toNat
          { os with bset_ids := os.bset_ids.set os.bset_length.toNat l, bset_length := os.bset_length + 1 }
        bset := .live (m.bset.cells.set l.toNat
          { bset with object_service_ids := bset.object_service_ids.set j.toNat os.id }) } := by
  constructor
  · intro turn
    obtain ⟨os,found,turn⟩ := bind_ok.mp turn
    obtain ⟨middle,gave,set⟩ := bind_ok.mp turn
    obtain ⟨room,counted,rfl⟩ := giveBSet_ok.mp gave
    obtain ⟨bset,row,inside,rfl⟩ := setReplica_ok.mp set
    exact ⟨os,bset,cmmGetOSbyIndex_ok.mp found,room,counted,row,inside,rfl⟩
  · rintro ⟨os,bset,located,room,counted,row,inside,rfl⟩
    exact bind_ok.mpr ⟨os,cmmGetOSbyIndex_ok.mpr located,bind_ok.mpr ⟨_,giveBSet_ok.mpr ⟨room,counted,rfl⟩,
      setReplica_ok.mpr ⟨bset,row,inside,rfl⟩⟩⟩

theorem assign_spec (turn : assign avg m (l,j) = .ok m') (shaped : Shaped m0 m) :
    Shaped m0 m' ∧ Owned m0 l.toNat j.toNat m' ∧ ∀ l' j', Owned m0 l' j' m → Owned m0 l' j' m' := by
  obtain ⟨os,bset,located,_,_,row,inside,rfl⟩ := assign_ok.mp turn
  have owner : (m0.object_service_list.map ObjectService.id)[l.toNat % m0.object_service_length.toNat]? =
      some os.id := by
    rw [← shaped.ids,List.getElem?_map]
    rw [ownerOf,shaped.object_service_length,UInt32.toNat_mod] at located
    rw [located]
    rfl
  obtain ⟨room,cell⟩ := List.getElem?_eq_some_iff.mp row
  refine ⟨⟨shaped.bset_length,shaped.object_service_length,shaped.bset_replica_size,?_,?_,?_⟩,?_,?_⟩
  · rw [← shaped.ids,List.map_set]
    exact Lists.set_same (by simp [located])
  · simpa [BSetArray.cells] using shaped.bsets
  · intro other member
    rcases List.mem_or_eq_of_mem_set member with old | rfl
    · exact shaped.rows other old
    · simpa using shaped.rows bset (List.mem_of_getElem? row)
  · refine ⟨_,List.getElem?_set_self room,?_⟩
    rw [List.getElem?_set_self inside,owner]
  · rintro l' j' ⟨other,at_row,holds⟩
    by_cases same : l.toNat = l'
    · subst same
      obtain rfl : bset = other := Option.some.inj (row.symm.trans at_row)
      refine ⟨_,List.getElem?_set_self room,?_⟩
      by_cases here : j.toNat = j'
      · subst here
        rw [List.getElem?_set_self inside,owner]
      · rwa [List.getElem?_set_ne here]
    · exact ⟨other,by rwa [BSetArray.cells,List.getElem?_set_ne same],holds⟩

theorem place_eq (avg_bset_num j : UInt32) (m : ObjectServiceMap) (i : UInt32) :
    place avg_bset_num j m i = assign avg_bset_num m (bsetOf m j i,j) := rfl

theorem place_spec (turn : place avg j m i = .ok m') (shaped : Shaped m0 m) :
    Shaped m0 m' ∧ Owned m0 (bsetOf m0 j i).toNat j.toNat m' ∧
      ∀ l' j', Owned m0 l' j' m → Owned m0 l' j' m' := by
  have number : bsetOf m j i = bsetOf m0 j i := by
    rw [bsetOf,bsetOf,shaped.bset_length]
  rw [place_eq,number] at turn
  exact assign_spec turn shaped

theorem mem_indices (inside : i < n) : UInt32.ofNat i ∈ indices n :=
  List.mem_map_of_mem (List.mem_range.mpr inside)

/-- One pass places replica `j` of every bset it visits and moves no replica placed before. -/
theorem placeReplica_spec (pass : placeReplica avg m j = .ok m') (shaped : Shaped m0 m) :
    Shaped m0 m' ∧ (∀ l' j', Owned m0 l' j' m → Owned m0 l' j' m') ∧
      ∀ i < m0.bset_length.toNat, Owned m0 (bsetOf m0 j (UInt32.ofNat i)).toNat j.toNat m' := by
  rw [placeReplica,shaped.bset_length] at pass
  have shape : ∀ s i s', Shaped m0 s → place avg j s i = .ok s' → Shaped m0 s' :=
    fun s i s' kept turn => (place_spec turn kept).1
  have old : ∀ l' j' s i s', Shaped m0 s → place avg j s i = .ok s' → Owned m0 l' j' s → Owned m0 l' j' s' :=
    fun l' j' s i s' kept turn => (place_spec turn kept).2.2 l' j'
  refine ⟨?_,?_,?_⟩
  · exact Lists.foldlM_keeps (Shaped m0) _ (fun s i s' _ => shape s i s') shaped pass
  · intro l' j' holds
    have both := Lists.foldlM_keeps (fun s => Shaped m0 s ∧ Owned m0 l' j' s) _
      (fun s i s' _ kept turn => ⟨shape s i s' kept.1 turn,old l' j' s i s' kept.1 turn kept.2⟩)
      ⟨shaped,holds⟩ pass
    exact both.2
  · intro i inside
    exact Lists.foldlM_reaches _
      (fun s k s' _ kept turn => ⟨shape s k s' kept turn,old _ _ s k s' kept turn⟩)
      (mem_indices inside) (fun s s' kept turn => (place_spec turn kept).2.1) shaped pass

theorem allocate_shaped (heap : Nat → Nat → UInt32) (avg : UInt32) (m : ObjectServiceMap) :
    Shaped m (allocate heap avg m) where
  bset_length := rfl
  object_service_length := rfl
  bset_replica_size := rfl
  ids := by
    apply List.ext_getElem
    · simp [allocate]
    · intro i _ _
      simp [allocate]
  bsets := by simp [allocate,BSetArray.cells]
  rows := by
    intro bset member
    obtain ⟨i,_,rfl⟩ := List.mem_map.mp member
    exact malloc_length _ _

/-- A completed fill has placed every replica it visited with the owner of its bset. -/
theorem cmmFillBSets_spec (done : cmmFillBSets heap m = .ok m') :
    Shaped m m' ∧ ∀ j < m.bset_replica_size.toNat, ∀ i < m.bset_length.toNat,
      Owned m (bsetOf m (UInt32.ofNat j) (UInt32.ofNat i)).toNat (UInt32.ofNat j).toNat m' := by
  obtain ⟨avg,_,run⟩ := bind_ok.mp done
  have start := allocate_shaped heap avg m
  have shape : ∀ s j s', Shaped m s → placeReplica avg s j = .ok s' → Shaped m s' :=
    fun s j s' kept pass => (placeReplica_spec pass kept).1
  refine ⟨Lists.foldlM_keeps (Shaped m) _ (fun s j s' _ => shape s j s') start run,?_⟩
  intro j row i inside
  exact Lists.foldlM_reaches _
    (fun s k s' _ kept pass => ⟨shape s k s' kept pass,(placeReplica_spec pass kept).2.1 _ _⟩)
    (mem_indices row) (fun s s' kept pass => (placeReplica_spec pass kept).2.2 i inside) start run

/-- Pass zero visits bset `i` at turn `i`, and pass one visits bset one at turn zero. -/
theorem bsetOf_first (low : i < m.bset_length.toNat) :
    (bsetOf m (UInt32.ofNat 0) (UInt32.ofNat i)).toNat = i := by
  have range := m.bset_length.toNat_lt
  have small : (UInt32.ofNat i).toNat = i := UInt32.toNat_ofNat_of_lt (by change i < 2 ^ 32; omega)
  have sum : (UInt32.ofNat 0 + UInt32.ofNat i).toNat = i := by
    have zero : UInt32.ofNat 0 + UInt32.ofNat i = UInt32.ofNat i := UInt32.zero_add _
    rw [zero,small]
  rw [bsetOf,UInt32.toNat_mod,sum,Nat.mod_eq_of_lt low]

theorem bsetOf_second (m : ObjectServiceMap) :
    (bsetOf m (UInt32.ofNat 1) (UInt32.ofNat 0)).toNat = 1 % m.bset_length.toNat := by
  rw [bsetOf,UInt32.toNat_mod]
  rfl

/-- Two replicas of one bset are always placed on one object service. -/
theorem second_replica_repeats (configured : Configured m) (done : cmmFillBSets heap m = .ok m')
    (many : 2 ≤ m.bset_replica_size.toNat) : ¬ReplicasApart m' := by
  obtain ⟨shaped,placed⟩ := cmmFillBSets_spec done
  have inside : 1 % m.bset_length.toNat < m.bset_length.toNat := Nat.mod_lt _ configured.bsets
  obtain ⟨bset,row,first⟩ := placed 0 (by omega) _ inside
  obtain ⟨bset',row',second⟩ := placed 1 (by omega) 0 configured.bsets
  rw [bsetOf_first inside] at row first
  rw [bsetOf_second] at row' second
  obtain rfl : bset = bset' := Option.some.inj (row.symm.trans row')
  rintro ⟨_,apart⟩
  obtain ⟨_,distinct,_⟩ := apart bset (List.mem_of_getElem? row)
  have length := shaped.rows bset (List.mem_of_getElem? row)
  exact List.nodup_iff_getElem?_ne_getElem?.mp distinct 0 1 (by omega) (by omega) (first.trans second.symm)

theorem single_replica_placed (done : cmmFillBSets heap m = .ok m')
    (single : m.bset_replica_size.toNat ≤ 1) : ReplicasApart m' := by
  obtain ⟨shaped,placed⟩ := cmmFillBSets_spec done
  refine ⟨by rw [shaped.bsets,shaped.bset_length],?_⟩
  intro bset member
  have length := shaped.rows bset member
  refine ⟨by rw [length,shaped.bset_replica_size],List.nodup_iff_getElem?_ne_getElem?.mpr ?_,?_⟩
  · intro i j before inside
    omega
  · intro os_id listed
    obtain ⟨l,inside,here⟩ := List.getElem_of_mem member
    obtain ⟨j,low,there⟩ := List.getElem_of_mem listed
    obtain rfl : j = 0 := by omega
    rw [shaped.bsets] at inside
    obtain ⟨bset',row,owned⟩ := placed 0 (by omega) l inside
    rw [bsetOf_first inside] at row owned
    obtain rfl : bset' = bset := by
      rw [← here]
      exact (List.getElem_eq_iff _).mpr row |>.symm
    rw [shaped.ids]
    apply List.mem_of_getElem? (i := l % m.object_service_length.toNat)
    rw [← owned,← there]
    exact List.getElem?_eq_getElem low

/-- Replicas are spread over distinct object services exactly when there is at most one. -/
theorem replicas_apart_iff (heap : Nat → Nat → UInt32) (m m' : ObjectServiceMap) (configured : Configured m)
    (done : cmmFillBSets heap m = .ok m') : ReplicasApart m' ↔ m.bset_replica_size.toNat ≤ 1 := by
  refine ⟨?_,single_replica_placed done⟩
  intro apart
  by_contra more
  exact second_replica_repeats configured done (by omega) apart

/-- Two bsets of two replicas for two object services. -/
def pairMap : ObjectServiceMap where
  version := 0
  status := .updating
  object_service_length := 2
  object_service_list :=
    [⟨0,2,Host.ofBytes [],10100,0,[]⟩,⟨1,2,Host.ofBytes [],10101,0,[]⟩]
  os_map := none
  bset_length := 2
  bset := .null
  bset_replica_size := 2
  reference := 1

def pairFilled : ObjectServiceMap where
  version := 0
  status := .updating
  object_service_length := 2
  object_service_list :=
    [⟨0,2,Host.ofBytes [],10100,2,[0,0]⟩,⟨1,2,Host.ofBytes [],10101,2,[1,1]⟩]
  os_map := none
  bset_length := 2
  bset := .live [⟨0,[0,0]⟩,⟨1,[1,1]⟩]
  bset_replica_size := 2
  reference := 1

theorem pairMap_configured : Configured pairMap := ⟨by decide,by decide,by decide,by decide⟩

theorem pairMap_filled : cmmFillBSets (fun _ _ => 0) pairMap = .ok pairFilled := by rfl

theorem replicas_apart_iff_pair : ReplicasApart pairFilled ↔ pairMap.bset_replica_size.toNat ≤ 1 :=
  replicas_apart_iff (fun _ _ => 0) pairMap pairFilled pairMap_configured pairMap_filled

theorem replicas_not_always_apart :
    ¬∀ heap m m', Configured m → cmmFillBSets heap m = .ok m' → ReplicasApart m' := by
  intro always
  have apart := always (fun _ _ => 0) pairMap pairFilled pairMap_configured pairMap_filled
  have distinct := (apart.2 ⟨0,[0,0]⟩ (by decide)).2.1
  exact absurd distinct (by decide)

end Muti.ClusterMapMon
