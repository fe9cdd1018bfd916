import Muti.ClusterMapCodec

/-! The length of a dump, which its callers allocate before they call for it. The fixed part
is a 32-bit sum and each object service's ids a 32-bit product; the writing loops count in
64 bits. -/
namespace Muti.ClusterMap

open Muti.Memory

/-- The dump fills a buffer of the computed length, its final assertion included. -/
def DumpExact (m : ObjectServiceMap) : Prop :=
  ∃ buf, clusterMapDumpObjectServiceMap m (clusterMapDumpObjectServiceMapLength m) = .ok buf ∧
    buf.length = (clusterMapDumpObjectServiceMapLength m).toNat

structure Narrow (m : ObjectServiceMap) : Prop where
  fixed : fixedSize m < 2 ^ 32
  ids : ∀ os ∈ m.object_service_list, os.bset_length.toNat < 2 ^ 30

theorem dumpExact_length (counts : CountsMatch m) :
    DumpExact m ↔ (mapImage m).length = (clusterMapDumpObjectServiceMapLength m).toNat := by
  rw [DumpExact,dump_eq counts]
  constructor
  · rintro ⟨buf,dumped,length⟩
    split at dumped
    case isTrue written => exact written
    case isFalse => cases dumped
  · intro written
    exact ⟨mapImage m,if_pos written,written⟩

theorem wrappedIdsSize_le (services : List ObjectService) : wrappedIdsSize services ≤ idsSize services :=
  List.sum_le_sum fun _ _ => Nat.mod_le ..

/-- One object service with `2 ^ 30` ids loses bytes. -/
theorem wrappedIdsSize_lt (member : os ∈ services) (many : 2 ^ 30 ≤ os.bset_length.toNat) :
    wrappedIdsSize services < idsSize services := by
  have wraps : os.bset_length.toNat * 4 % 2 ^ 32 < os.bset_length.toNat * 4 := by
    have word := os.bset_length.toNat_lt
    omega
  exact List.sum_lt_sum _ _ (fun _ _ => Nat.mod_le ..) ⟨os,member,wraps⟩

/-- Whatever wraps, the computed length falls short. -/
theorem dumpLength_lt (counts : CountsMatch m) (wide : ¬Narrow m) :
    (clusterMapDumpObjectServiceMapLength m).toNat < (mapImage m).length := by
  rw [mapImage_length counts,encodedSize_eq counts,dumpLength_eq]
  apply Nat.lt_of_le_of_lt (Nat.mod_le ..)
  have less := wrappedIdsSize_le m.object_service_list
  by_cases fixed : fixedSize m < 2 ^ 32
  · have many : ∃ os ∈ m.object_service_list, 2 ^ 30 ≤ os.bset_length.toNat := by
      by_contra few
      exact wide ⟨fixed,fun os member => Nat.lt_of_not_le fun many => few ⟨os,member,many⟩⟩
    obtain ⟨os,member,many⟩ := many
    have lost := wrappedIdsSize_lt member many
    omega
  · omega

theorem narrow_iff (counts : CountsMatch m) :
    Narrow m ↔ (mapImage m).length = (clusterMapDumpObjectServiceMapLength m).toNat := by
  constructor
  · rintro ⟨fixed,ids⟩
    rw [mapImage_length counts,dumpLength_exact counts fixed ids]
  · intro exact
    by_contra wide
    have short := dumpLength_lt counts wide
    omega

/-- The length is exact exactly on the maps in which nothing wraps. -/
theorem dumpExact_iff (m : ObjectServiceMap) (counts : CountsMatch m) : DumpExact m ↔ Narrow m :=
  (dumpExact_length counts).trans (narrow_iff counts).symm

theorem dumpExact_sample : DumpExact sampleMap :=
  (dumpExact_iff sampleMap sampleMap_encodable.counts).mpr ⟨by decide,by decide⟩

def uniformBSets (bset_length replicas : Nat) : List BSet :=
  List.replicate bset_length ⟨0,List.replicate replicas 5⟩

/-- `2 ^ 14` bsets of `2 ^ 18` bytes each: together they take the whole range of the sum. -/
def wideMap : ObjectServiceMap := { sampleMap with
  bset_length := 16384
  bset_replica_size := 65535
  bset := .live (uniformBSets 16384 65535) }

theorem wideMap_counts : CountsMatch wideMap where
  bsets := List.length_replicate
  replicas := by
    intro bset member
    rw [List.eq_of_mem_replicate member]
    exact List.length_replicate
  services := by decide
  members := by decide

/-- The caller allocates 304 bytes for a dump of more than four gigabytes. -/
theorem not_dumpExact_wide : CountsMatch wideMap ∧ (clusterMapDumpObjectServiceMapLength wideMap).toNat = 304 ∧
    (mapImage wideMap).length = 2 ^ 32 + 304 ∧ ¬DumpExact wideMap := by
  have announced : (clusterMapDumpObjectServiceMapLength wideMap).toNat = 304 := by decide
  have written : (mapImage wideMap).length = 2 ^ 32 + 304 := by
    rw [mapImage_length wideMap_counts]
    decide
  refine ⟨wideMap_counts,announced,written,?_⟩
  rw [dumpExact_length wideMap_counts]
  omega

end Muti.ClusterMap
