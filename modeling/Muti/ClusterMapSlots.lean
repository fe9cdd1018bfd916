import Muti.ClusterMapTotality

/-! How large the id index of a map is made, for every count a map can announce. The count
drives a shifted `int`, a bit test and a mask: an empty map gets no slots at all, and above
`2 ^ 30` object services the shift reaches the sign bit. -/
namespace Muti.ClusterMap

open Muti.Memory Muti.MapHashLinked

inductive IndexOf (count : UInt32) : MapHashLinked ObjectServiceRef → Prop
  | init (made : initMapHashLinked (slotSize count 32 0 1) = .ok index) : IndexOf count index
  | put (before : IndexOf count index) (done : put mparam index ref.id ref = .ok (displaced,index')) :
    IndexOf count index'
  | remove (before : IndexOf count index) (done : remove mparam index os_id = .ok (taken,index')) :
    IndexOf count index'

/-- The loop stops at a power of two that covers the count and is accepted, and the bucket
of every id stays inside the slots in each of the three operations. -/
structure SlotsCover (count : UInt32) : Prop where
  stops : ¬slotSize count 32 0 1 < count.toUInt64
  power : ∃ j, (slotSize count 32 0 1).toNat = 2 ^ j
  accepted : ∃ index, initMapHashLinked (V := ObjectServiceRef) (slotSize count 32 0 1) = .ok index
  bucket : ∀ index, IndexOf count index → ∀ os_id, slot mparam index os_id < (slotSize count 32 0 1).toNat
  get : ∀ index, IndexOf count index → ∀ os_id, ∃ found, get mparam index os_id = .ok found
  put : ∀ index, IndexOf count index → ∀ ref, ∃ done, put mparam index ref.id ref = .ok done
  remove : ∀ index, IndexOf count index → ∀ os_id, ∃ done, remove mparam index os_id = .ok done

theorem IndexOf.slots (of : IndexOf count index) :
    index.slot_size = slotSize count 32 0 1 ∧ index.slots.length = (slotSize count 32 0 1).toNat := by
  induction of with
  | init made =>
    rw [initMapHashLinked] at made
    split at made
    · cases made
    split at made
    · cases made
    cases made
    exact ⟨rfl,List.length_replicate⟩
  | put _ done ih =>
    rw [MapHashLinked.put] at done
    split at done
    · cases done
    obtain ⟨items,-,done⟩ := bind_ok.mp done
    cases done
    exact ⟨ih.1,(List.length_set ..).trans ih.2⟩
  | remove _ done ih =>
    obtain ⟨items,-,done⟩ := bind_ok.mp done
    cases found : items.find? (MapHashLinked.found mparam _) with
    | none =>
      rw [found] at done
      cases done
      exact ih
    | some item =>
      rw [found] at done
      cases done
      exact ⟨ih.1,(List.length_set ..).trans ih.2⟩

theorem IndexOf.read_slot (of : IndexOf count index) (room : 0 < (slotSize count 32 0 1).toNat) (os_id : UInt32) :
    slot mparam index os_id < (slotSize count 32 0 1).toNat ∧
      ∃ items, read index.slots (slot mparam index os_id) = .ok items := by
  obtain ⟨size,length⟩ := of.slots
  have inside : slot mparam index os_id < (slotSize count 32 0 1).toNat := by
    rw [← size]
    exact slot_lt mparam index (by rwa [size]) os_id
  rw [← length] at inside
  exact ⟨by rwa [← length],_,read_ok.mpr (List.getElem?_eq_getElem inside)⟩

theorem IndexOf.get_ok (of : IndexOf count index) (room : 0 < (slotSize count 32 0 1).toNat) (os_id : UInt32) :
    ∃ found, get mparam index os_id = .ok found := by
  obtain ⟨-,items,located⟩ := of.read_slot room os_id
  exact ⟨_,bind_ok.mpr ⟨items,located,rfl⟩⟩

theorem IndexOf.put_ok (of : IndexOf count index) (room : 0 < (slotSize count 32 0 1).toNat) (ref : ObjectServiceRef) :
    ∃ done, MapHashLinked.put mparam index ref.id ref = .ok done := by
  obtain ⟨-,items,located⟩ := of.read_slot room ref.id
  have own : mparam.compareMethod (mparam.key ref) ref.id = 0 := (mparam_lawful _ _).mpr rfl
  rw [MapHashLinked.put,if_neg (not_not.mpr own),located]
  exact ⟨_,rfl⟩

theorem IndexOf.remove_ok (of : IndexOf count index) (room : 0 < (slotSize count 32 0 1).toNat) (os_id : UInt32) :
    ∃ done, MapHashLinked.remove mparam index os_id = .ok done := by
  obtain ⟨-,items,located⟩ := of.read_slot room os_id
  cases found : items.find? (MapHashLinked.found mparam os_id) with
  | none => exact ⟨_,bind_ok.mpr ⟨items,located,by rw [found]⟩⟩
  | some item => exact ⟨_,bind_ok.mpr ⟨items,located,by rw [found]⟩⟩

/-- Between the two ends the size is a power of two below the sign bit. -/
theorem slotSize_between (nonempty : 1 ≤ count.toNat) (bound : count.toNat ≤ 2 ^ 30) :
    ∃ j < 31, slotSize count 32 0 1 = intShift j := by
  apply slotSize_power 32 bound _ (by omega) (by omega)
  rw [UInt64.lt_iff_toNat_lt,UInt32.toNat_toUInt64]
  exact nonempty

/-- The 32 turns are all the loop takes. -/
theorem slotSize_stops (turns : Nat) (early : i ≤ 31) (enough : i + turns = 33) :
    ¬slotSize count turns ssize i < count.toUInt64 := by
  induction turns generalizing i ssize with
  | zero => omega
  | succ turns ih =>
    rw [slotSize]
    split
    case isFalse enough => exact enough
    case isTrue low =>
      rcases Nat.eq_or_lt_of_le early with rfl | more
      · have sign : (intShift 31).toNat = 2 ^ 64 - 2 ^ 31 := by decide
        have word := count.toNat_lt
        have past : ¬intShift 31 < count.toUInt64 := by
          rw [UInt64.lt_iff_toNat_lt,UInt32.toNat_toUInt64,sign]
          omega
        rwa [slotSize_stop past]
      · exact ih more (by omega)

/-- The slots cover a map exactly when it is not empty and has at most `2 ^ 30` object services. -/
theorem slotsCover_iff (object_service_length : UInt32) :
    SlotsCover object_service_length ↔ 1 ≤ object_service_length.toNat ∧ object_service_length.toNat ≤ 2 ^ 30 := by
  constructor
  · intro cover
    constructor
    · by_contra empty
      have none : object_service_length = 0 := UInt32.toNat_inj.mp (by simpa using empty)
      obtain ⟨j,size⟩ := cover.power
      rw [none] at size
      have zero : (slotSize 0 32 0 1).toNat = 0 := rfl
      have positive := Nat.two_pow_pos j
      omega
    · by_contra large
      obtain ⟨index,made⟩ := cover.accepted
      have exits := initOSMap_exits (m := { sampleMap with object_service_length }) (by simpa using large)
      rw [clusterMapInitOSMap] at exits
      change (initMapHashLinked (slotSize object_service_length 32 0 1) >>= _) = _ at exits
      rw [made] at exits
      cases exits
  · rintro ⟨nonempty,bound⟩
    obtain ⟨j,below,size⟩ := slotSize_between nonempty bound
    obtain ⟨shifted,power⟩ := intShift_power below
    have room : 0 < (slotSize object_service_length 32 0 1).toNat := by
      rw [size,shifted]
      exact Nat.two_pow_pos j
    have small : (intShift j).toNat < 2 ^ 31 := by
      rw [shifted]
      exact Nat.pow_lt_pow_right (by omega) below
    obtain ⟨index,made,-⟩ := init_represents mparam power (by rwa [size] at room) small
    refine ⟨slotSize_stops 32 (by omega) (by omega),⟨j,by rw [size,shifted]⟩,⟨index,by rwa [size]⟩,?_,?_,?_,?_⟩
    · exact fun index of os_id => (of.read_slot room os_id).1
    · exact fun index of os_id => of.get_ok room os_id
    · exact fun index of ref => of.put_ok room ref
    · exact fun index of os_id => of.remove_ok room os_id

/-- The index of a map without object services is made, and every lookup in it is outside. -/
theorem not_slotsCover_empty : ¬SlotsCover 0 ∧ initMapHashLinked (V := ObjectServiceRef) (slotSize 0 32 0 1) = .ok ⟨0,[],0⟩ ∧
    ∀ os_id, get mparam ⟨0,[],0⟩ os_id = .error .outOfBounds := by
  refine ⟨?_,rfl,fun os_id => rfl⟩
  intro cover
  have made : IndexOf 0 ⟨0,[],0⟩ := .init rfl
  obtain ⟨found,done⟩ := cover.get _ made 7
  cases done

end Muti.ClusterMap
