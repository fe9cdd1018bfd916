import Muti.ClusterMapTotality

/-! What the cluster map parser accepts: the counts of an accepted map say how much it holds,
and the bytes consumed are those its dump takes, so that it can be dumped again. -/
namespace Muti.ClusterMap

open Muti.Memory Muti.Bytes Muti.Reader

theorem wordsAt_length (n : Nat) (rest : List UInt8) : (wordsAt n rest).length = n := collect_length ..

/-- The bsets read so far have all their replicas, and account for the bytes consumed. -/
structure BSetsRead (m0 : ObjectServiceMap) (buf_len j : Nat) (m : ObjectServiceMap) (c : Cursor UInt8) : Prop where
  refilled : Refilled m0 m
  replicas : ∀ bset ∈ m.bset.cells.take j, bset.object_service_ids.length = m0.bset_replica_size.toNat
  consumed : c.len = 14 + j * (4 + m0.bset_replica_size.toNat * 4)
  inside : c.len ≤ buf_len

theorem parseBSet_read (read : BSetsRead m0 buf_len j m c)
    (done : parseBSet j m buf_len c = .ok (m',c')) : BSetsRead m0 buf_len (j + 1) m' c' := by
  obtain ⟨⟨cells,count,rfl⟩,replicas,consumed,inside⟩ := read
  have reads := reads_bset m0.bset_replica_size
  by_cases fits : c.len + (4 + m0.bset_replica_size.toNat * 4) ≤ buf_len
  · rw [parseBSet,bind_run,reads.whole fits] at done
    simp only [lift,storeBSet,BSetArray.cells] at done
    cases stored : write cells j (bsetAt m0.bset_replica_size c.rest) with
    | error reason => simp [stored,bind,Except.bind] at done
    | ok cells' =>
    simp only [stored,bind,Except.bind,Except.ok.injEq,Prod.mk.injEq] at done
    obtain ⟨rfl,rfl⟩ := done
    obtain ⟨low,rfl⟩ := write_ok.mp stored
    refine ⟨⟨_,by simpa using count,rfl⟩,?_,?_,fits⟩
    · intro bset member
      change bset ∈ (cells.set j _).take (j + 1) at member
      rw [Lists.take_set_succ low] at member
      rcases List.mem_append.mp member with before | last
      · exact replicas bset before
      · rw [List.mem_singleton.mp last]
        exact wordsAt_length ..
    · change c.len + _ = _
      rw [consumed,Nat.succ_mul]
      omega
  · rw [parseBSet,bind_run,reads.short inside (Nat.lt_of_not_le fits)] at done
    cases done

/-- The same for the object services, whose bytes start behind `start`. -/
structure ServicesRead (m0 : ObjectServiceMap) (start buf_len j : Nat) (m : ObjectServiceMap) (c : Cursor UInt8) : Prop where
  same : m = { m0 with os_map := m.os_map, object_service_list := m.object_service_list }
  count : m.object_service_list.length = j
  members : ∀ os ∈ m.object_service_list, os.bset_ids.length = os.bset_length.toNat
  consumed : c.len = start + (m.object_service_list.map fun os => 141 + os.bset_length.toNat * 4).sum
  inside : c.len ≤ buf_len

theorem parseObjectService_read (read : ServicesRead m0 start buf_len j m c)
    (done : parseObjectService i m buf_len c = .ok (m',c')) : ServicesRead m0 start buf_len (j + 1) m' c' := by
  obtain ⟨same,count,members,consumed,inside⟩ := read
  by_cases fits : c.len + objectServiceSize c.rest ≤ buf_len
  · rw [parseObjectService,bind_run,reads_objectService.whole fits] at done
    simp only [lift] at done
    cases added : addObjectService m (objectServiceAt c.rest) with
    | error reason => simp [added] at done
    | ok grown =>
      simp only [added,Except.ok.injEq,Prod.mk.injEq] at done
      obtain ⟨rfl,rfl⟩ := done
      have appended := addObjectService_appends added
      have listed : grown.object_service_list = m.object_service_list ++ [objectServiceAt c.rest] :=
        congrArg ObjectServiceMap.object_service_list appended
      refine ⟨?_,?_,?_,?_,fits⟩
      · rw [appended,same]
      · rw [listed,List.length_append,count,List.length_singleton]
      · intro os member
        rw [listed] at member
        rcases List.mem_append.mp member with before | last
        · exact members os before
        · rw [List.mem_singleton.mp last]
          exact wordsAt_length ..
      · rw [listed,List.map_append,List.sum_append]
        change c.len + objectServiceSize c.rest = _
        rw [consumed,objectServiceSize]
        simp only [List.map_cons,List.map_nil,List.sum_cons,List.sum_nil,objectServiceAt]
        omega
  · rw [parseObjectService,bind_run,reads_objectService.short inside (Nat.lt_of_not_le fits)] at done
    cases done

theorem initOSMap_list (made : clusterMapInitOSMap m = .ok m') : m'.object_service_list = m.object_service_list := by
  obtain ⟨index,_,done⟩ := bind_ok.mp made
  cases done
  rfl

theorem parseBody_counts (empty : m.object_service_list = []) (inside : 14 ≤ buf_len)
    (accepted : parseBody m buf_len ⟨rest,14⟩ = .ok (.accepted m' consume_len)) :
    CountsMatch m' ∧ encodedSize m' = consume_len ∧ consume_len ≤ buf_len := by
  obtain ⟨m1,made,accepted⟩ := bind_ok.mp accepted
  obtain ⟨outcome,bsets,accepted⟩ := bind_ok.mp accepted
  cases outcome with
  | short m2 => exact absurd accepted (errorOut_rejects m2)
  | finished m2 c2 =>
  have start : BSetsRead m1 buf_len 0 { m1 with bset := .live (List.replicate m1.bset_length.toNat ⟨0,[]⟩) } ⟨rest,14⟩ :=
    ⟨⟨_,List.length_replicate,rfl⟩,by simp,by simp,inside⟩
  obtain ⟨⟨cells,count,rfl⟩,replicas,consumed,inside⟩ :=
    loop_finishes _ (fun _ _ _ _ _ => parseBSet_read) start bsets
  obtain ⟨outcome,services,accepted⟩ := bind_ok.mp accepted
  cases outcome with
  | short m3 => exact absurd accepted (errorOut_rejects m3)
  | finished m3 c3 =>
  cases accepted
  have start : ServicesRead { m1 with bset := .live cells } c2.len buf_len 0 { m1 with bset := .live cells } c2 := by
    have none : m1.object_service_list = [] := (initOSMap_list made).trans empty
    refine ⟨rfl,?_,?_,?_,inside⟩ <;> simp [none]
  obtain ⟨same,listed,members,consumed',inside'⟩ :=
    loop_finishes _ (fun _ _ _ _ _ => parseObjectService_read) start services
  rw [Nat.zero_add] at listed consumed replicas
  rw [same] at members consumed' listed ⊢
  have all : cells.take m1.bset_length.toNat = cells := List.take_of_length_le (Nat.le_of_eq count)
  refine ⟨⟨count,fun bset member => replicas bset (all.symm ▸ member),listed,members⟩,?_,inside'⟩
  rw [consumed',consumed]
  rfl

/-- An accepted map holds what it announces, in as many bytes as were consumed. -/
theorem accepted_counts (accepted : clusterMapParseObjectServiceMap m buffer = .ok (.accepted m' consume_len)) :
    CountsMatch m' ∧ encodedSize m' = consume_len ∧ consume_len ≤ buffer.length := by
  by_cases short : buffer.length < 14
  · obtain ⟨left,rejected,-⟩ := parse_headless m buffer short
    cases accepted.symm.trans rejected
  · rw [parse_headed m buffer (Nat.le_of_not_lt short)] at accepted
    exact parseBody_counts rfl (Nat.le_of_not_lt short) accepted

/-- A map whose object services have distinct ids, each of them indexed. -/
structure Addressable (m : ObjectServiceMap) : Prop where
  indexed : Indexed m
  distinct : (m.object_service_list.map ObjectService.id).Nodup

theorem nodup_append_fresh {ids : List UInt32} (distinct : ids.Nodup) (new : os_id ∉ ids) : (ids ++ [os_id]).Nodup := by
  refine List.nodup_append.mpr ⟨distinct,List.nodup_singleton _,?_⟩
  rintro id member other last rfl
  exact new (by rwa [← List.mem_singleton.mp last])

theorem Addressable.congr (addressable : Addressable m) (index : m'.os_map = m.os_map)
    (ids : m'.object_service_list.map ObjectService.id = m.object_service_list.map ObjectService.id) : Addressable m' := by
  refine ⟨?_,by rw [ids]; exact addressable.distinct⟩
  rw [Indexed,index,refs_ids ids]
  exact addressable.indexed

theorem Addressable.added (addressable : Addressable m) (done : addObjectService m os = .ok m') : Addressable m' := by
  by_cases known : os.id ∈ m.object_service_list.map ObjectService.id
  · rw [addObjectService_known addressable.indexed known] at done
    cases done
  · obtain ⟨index,added,stored⟩ := addObjectService_fresh addressable.indexed
      fun other member same => known (same ▸ List.mem_map_of_mem member)
    cases added.symm.trans done
    refine ⟨⟨index,rfl,stored⟩,?_⟩
    rw [List.map_append]
    exact nodup_append_fresh addressable.distinct known

/-- With distinct ids, a lookup finds the one object service that has the id, or there is none. -/
theorem Addressable.get_cases (addressable : Addressable m) (os_id : UInt32) :
    ∃ index, m.os_map = some index ∧
      (MapHashLinked.get mparam index os_id = .ok none ∧ (∀ os ∈ m.object_service_list, os.id ≠ os_id) ∨
        ∃ i os, MapHashLinked.get mparam index os_id = .ok (some ⟨i,os_id⟩) ∧ m.object_service_list[i]? = some os ∧
          os.id = os_id) := by
  obtain ⟨index,present,stored⟩ := addressable.indexed
  refine ⟨index,present,?_⟩
  rw [stored.get_eq mparam_lawful]
  cases looked : (refs m.object_service_list).find? (MapHashLinked.found mparam os_id) with
  | none =>
    refine .inl ⟨rfl,?_⟩
    intro os member same
    obtain ⟨i,inside,here⟩ := List.getElem_of_mem member
    have listed : (⟨i,os.id⟩ : ObjectServiceRef) ∈ refs m.object_service_list :=
      List.mem_mapIdx.mpr ⟨i,inside,by rw [here]⟩
    exact List.find?_eq_none.mp looked _ listed (found_mparam.mpr same)
  | some ref =>
    obtain ⟨os,here,named⟩ := refs_mem (List.mem_of_find?_eq_some looked)
    have same : ref.id = os_id := found_mparam.mp (List.find?_some looked)
    exact .inr ⟨ref.position,os,by rw [← same],here,named.trans same⟩

/-- A map without object services has an index without slots. -/
def indexAfter (m : ObjectServiceMap) : Prop :=
  if 1 ≤ m.object_service_length.toNat then Addressable m else m.os_map = some ⟨0,[],0⟩

theorem indexAfter_congr (indexed : indexAfter m) (length : m'.object_service_length = m.object_service_length)
    (index : m'.os_map = m.os_map)
    (ids : m'.object_service_list.map ObjectService.id = m.object_service_list.map ObjectService.id) : indexAfter m' := by
  rw [indexAfter,length,index]
  rw [indexAfter] at indexed
  split at indexed
  case isTrue nonempty =>
    rw [if_pos nonempty]
    exact indexed.congr index ids
  case isFalse none => rwa [if_neg none]

theorem initOSMap_indexes (empty : m.object_service_list = []) (made : clusterMapInitOSMap m = .ok m') :
    indexAfter m' ∧ ∃ index, m' = { m with os_map := some index } := by
  have bound : m.object_service_length.toNat ≤ 2 ^ 30 := by
    apply Nat.le_of_not_lt
    intro large
    rw [initOSMap_exits large] at made
    cases made
  rcases Nat.eq_zero_or_pos m.object_service_length.toNat with none | nonempty
  · have zero : m.object_service_length = 0 := UInt32.toNat_inj.mp none
    have cleared : clusterMapInitOSMap m = .ok { m with os_map := some ⟨0,[],0⟩ } := by
      rw [clusterMapInitOSMap,zero]
      rfl
    cases cleared.symm.trans made
    refine ⟨?_,_,rfl⟩
    rw [indexAfter,if_neg (by change ¬1 ≤ m.object_service_length.toNat; omega)]
  · obtain ⟨index,started,stored⟩ := initOSMap_ok nonempty bound
    cases started.symm.trans made
    refine ⟨?_,_,rfl⟩
    have addressable : Addressable { m with os_map := some index } := ⟨⟨index,rfl,by rwa [empty]⟩,by simp [empty]⟩
    rw [indexAfter]
    exact (if_pos nonempty).symm ▸ addressable

theorem parseServices_indexes (indexed : indexAfter m) (run : loop parseObjectService buf_len 0 m.object_service_length.toNat m c =
    .ok (.finished m' c')) : indexAfter m' := by
  rw [indexAfter] at indexed
  split at indexed
  case isTrue nonempty =>
    have kept := loop_keeps (fun s => s.object_service_length = m.object_service_length ∧ Addressable s)
      (fun i s c s' c' kept done => by
        obtain ⟨os,added⟩ := parseObjectService_added done
        refine ⟨?_,kept.2.added added⟩
        rw [addObjectService_appends added]
        exact kept.1) ⟨rfl,indexed⟩ run
    rw [indexAfter,Outcome.state] at *
    rw [kept.1,if_pos nonempty]
    exact kept.2
  case isFalse none =>
    have zero : m.object_service_length.toNat = 0 := by omega
    rw [zero] at run
    cases run
    rwa [indexAfter,if_neg none]

theorem parseBody_indexes (empty : m.object_service_list = [])
    (accepted : parseBody m buf_len c = .ok (.accepted m' consume_len)) : indexAfter m' := by
  obtain ⟨m1,made,accepted⟩ := bind_ok.mp accepted
  obtain ⟨indexed,index,rfl⟩ := initOSMap_indexes empty made
  obtain ⟨outcome,bsets,accepted⟩ := bind_ok.mp accepted
  cases outcome with
  | short m2 => exact absurd accepted (errorOut_rejects m2)
  | finished m2 c2 =>
  obtain ⟨outcome,services,accepted⟩ := bind_ok.mp accepted
  cases outcome with
  | short m3 => exact absurd accepted (errorOut_rejects m3)
  | finished m3 c3 =>
  cases accepted
  have kept := loop_keeps (fun s => ∃ cells, s = { m with
    os_map := some index
    bset := .live cells }) (fun i s c s' c' kept done => by
      obtain ⟨cells,rfl⟩ := kept
      obtain ⟨cells',rfl⟩ := parseBSet_stores done
      exact ⟨cells',rfl⟩) ⟨_,rfl⟩ bsets
  obtain ⟨cells,rfl⟩ := kept
  have allocated : indexAfter { m with
      os_map := some index
      bset := .live cells } := indexAfter_congr indexed rfl rfl rfl
  exact parseServices_indexes allocated services

theorem accepted_indexes (accepted : clusterMapParseObjectServiceMap m buffer = .ok (.accepted m' consume_len)) :
    indexAfter m' := by
  by_cases short : buffer.length < 14
  · obtain ⟨left,rejected,-⟩ := parse_headless m buffer short
    cases accepted.symm.trans rejected
  · rw [parse_headed m buffer (Nat.le_of_not_lt short)] at accepted
    exact parseBody_indexes rfl accepted

end Muti.ClusterMap
