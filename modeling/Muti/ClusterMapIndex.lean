import Mathlib.Data.List.Nodup
import Muti.ClusterMap

/-! The id index of an object service map: its slot count, what it holds after the
object services were added one by one, and what a lookup then returns. -/
namespace Muti.ClusterMap

open Muti.Memory Muti.MapHashLinked

theorem mparam_lawful : Lawful mparam := by
  intro a b
  change (a - b).toInt32 = 0 ↔ a = b
  constructor
  · intro zero
    have same : a - b = 0 := congrArg Int32.toUInt32 zero
    have back : a - b + b = a := by simp
    simpa [same] using back.symm
  · rintro rfl
    simp

/-- Below the sign bit the shift is a power of two and passes the slot size check. -/
theorem intShift_power (low : i < 31) :
    (intShift i).toNat = 2 ^ i ∧ intShift i &&& (intShift i - 1) = 0 := by
  have table : ∀ i < 31, (intShift i).toNat = 2 ^ i ∧ intShift i &&& (intShift i - 1) = 0 := by decide
  exact table i low

theorem slotSize_stop (enough : ¬ssize < count.toUInt64) : slotSize count turns ssize i = ssize := by
  cases turns with
  | zero => rfl
  | succ turns => rw [slotSize,if_neg enough]

/-- Up to `2 ^ 30` object services the loop stops at a power of two below the sign bit. -/
theorem slotSize_power (turns : Nat) (bound : count.toNat ≤ 2 ^ 30) (low : ssize < count.toUInt64) (early : i ≤ 30)
    (enough : i + turns = 33) : ∃ j < 31, slotSize count turns ssize i = intShift j := by
  induction turns generalizing i ssize with
  | zero => omega
  | succ turns ih =>
    rw [slotSize,if_pos low]
    by_cases more : intShift i < count.toUInt64
    · have size := (intShift_power (i := i) (by omega)).1
      rw [UInt64.lt_iff_toNat_lt,UInt32.toNat_toUInt64,size] at more
      have small : 2 ^ i < 2 ^ 30 := by omega
      have next : i < 30 := (Nat.pow_lt_pow_iff_right (by omega)).mp small
      exact ih (by rwa [UInt64.lt_iff_toNat_lt,UInt32.toNat_toUInt64,size]) (by omega) (by omega)
    · exact ⟨i,by omega,slotSize_stop more⟩

theorem initOSMap_ok (nonempty : 1 ≤ m.object_service_length.toNat)
    (bound : m.object_service_length.toNat ≤ 2 ^ 30) :
    ∃ index, clusterMapInitOSMap m = .ok { m with os_map := some index } ∧ Represents mparam index [] := by
  have low : (0 : UInt64) < m.object_service_length.toUInt64 := by
    rw [UInt64.lt_iff_toNat_lt,UInt32.toNat_toUInt64]
    exact nonempty
  obtain ⟨j,below,size⟩ := slotSize_power 32 bound low (by omega : 1 ≤ 30) (by omega)
  obtain ⟨shifted,power⟩ := intShift_power below
  have room : 0 < (intShift j).toNat := by
    rw [shifted]
    exact Nat.two_pow_pos j
  have small : (intShift j).toNat < 2 ^ 31 := by
    rw [shifted]
    exact Nat.pow_lt_pow_right (by omega) below
  obtain ⟨index,made,empty⟩ := init_represents mparam power room small
  refine ⟨index,?_,empty⟩
  rw [← size] at made
  exact bind_ok.mpr ⟨index,made,rfl⟩

def refs (services : List ObjectService) : List ObjectServiceRef :=
  services.mapIdx fun i os => ⟨i,os.id⟩

theorem refs_append (services : List ObjectService) (os : ObjectService) :
    refs (services ++ [os]) = refs services ++ [⟨services.length,os.id⟩] := by
  simp [refs,List.mapIdx_append]

theorem refs_mem (member : ref ∈ refs services) :
    ∃ os, services[ref.position]? = some os ∧ os.id = ref.id := by
  obtain ⟨i,inside,rfl⟩ := List.mem_mapIdx.mp member
  exact ⟨services[i],List.getElem?_eq_getElem inside,rfl⟩

theorem refs_ids (same : services'.map ObjectService.id = services.map ObjectService.id) : refs services' = refs services := by
  apply List.ext_getElem?
  intro i
  have ids : (services'.map ObjectService.id)[i]? = (services.map ObjectService.id)[i]? := by rw [same]
  simpa [refs,Function.comp_def] using congrArg (Option.map (ObjectServiceRef.mk i)) ids

/-- The index of a map points to each of its object services, and nowhere else. -/
def Indexed (m : ObjectServiceMap) : Prop :=
  ∃ index, m.os_map = some index ∧ Represents mparam index (refs m.object_service_list)

/-- The pointers to other object services have other ids. -/
theorem refs_unlisted (new : ∀ other ∈ services, other.id ≠ os_id) : ∀ ref ∈ refs services, mparam.key ref ≠ os_id := by
  intro ref member
  obtain ⟨other,located,named⟩ := refs_mem member
  have elsewhere := new other (List.mem_of_getElem? located)
  rwa [named] at elsewhere

theorem addObjectService_fresh (indexed : Indexed m)
    (new : ∀ other ∈ m.object_service_list, other.id ≠ os.id) :
    ∃ index, addObjectService m os =
        .ok { m with os_map := some index, object_service_list := m.object_service_list ++ [os] } ∧
      Represents mparam index (refs (m.object_service_list ++ [os])) := by
  obtain ⟨index,present,stored⟩ := indexed
  obtain ⟨index',added,stored'⟩ :=
    stored.put_fresh os.id ⟨m.object_service_list.length,os.id⟩ mparam_lawful rfl (refs_unlisted new)
  refine ⟨index',?_,by rwa [refs_append]⟩
  rw [addObjectService,present]
  exact bind_ok.mpr ⟨_,added,rfl⟩

theorem found_mparam : MapHashLinked.found mparam os_id ref = true ↔ ref.id = os_id := by
  rw [MapHashLinked.found,beq_iff_eq]
  exact mparam_lawful _ _

theorem refs_unique (distinct : (services.map ObjectService.id).Nodup)
    (first : ref ∈ refs services) (second : ref' ∈ refs services) (same : ref.id = ref'.id) :
    ref = ref' := by
  obtain ⟨i,inside,rfl⟩ := List.mem_mapIdx.mp first
  obtain ⟨j,inside',rfl⟩ := List.mem_mapIdx.mp second
  have position : i = j := by
    have apart := List.nodup_iff_injective_get.mp distinct
    have equal := @apart ⟨i,by simpa using inside⟩ ⟨j,by simpa using inside'⟩ (by simpa using same)
    exact congrArg Fin.val equal
  subst position
  rfl

/-- With distinct ids, looking an id up returns exactly the object service that has it. -/
theorem get_listed (indexed : Indexed m) (distinct : (m.object_service_list.map ObjectService.id).Nodup)
    (member : os ∈ m.object_service_list) : clusterMapGetObjectService m os.id = .ok (some os) := by
  obtain ⟨index,present,stored⟩ := indexed
  obtain ⟨i,inside,here⟩ := List.getElem_of_mem member
  have listed : (⟨i,os.id⟩ : ObjectServiceRef) ∈ refs m.object_service_list :=
    List.mem_mapIdx.mpr ⟨i,inside,by rw [here]⟩
  have found : (refs m.object_service_list).find? (MapHashLinked.found mparam os.id) = some ⟨i,os.id⟩ := by
    cases looked : (refs m.object_service_list).find? (MapHashLinked.found mparam os.id) with
    | none =>
      have missed := List.find?_eq_none.mp looked _ listed
      have matched : MapHashLinked.found mparam os.id ⟨i,os.id⟩ = true := found_mparam.mpr rfl
      exact absurd matched missed
    | some ref =>
      have named := found_mparam.mp (List.find?_some looked)
      rw [refs_unique distinct (List.mem_of_find?_eq_some looked) listed named]
  have looked : get mparam index os.id = .ok (some ⟨i,os.id⟩) := by
    rw [stored.get_eq mparam_lawful,found]
  have located : read m.object_service_list i = .ok os :=
    read_ok.mpr (List.getElem?_eq_some_iff.mpr ⟨inside,here⟩)
  rw [clusterMapGetObjectService,present]
  exact bind_ok.mpr ⟨_,looked,bind_ok.mpr ⟨_,located,rfl⟩⟩

end Muti.ClusterMap
