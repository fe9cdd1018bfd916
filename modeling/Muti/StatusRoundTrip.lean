import Muti.Cluster
import Muti.ClusterMapLength
import Muti.ClusterMapTotality

/-! The status response, from the monitor's encoder to its client's decoder. They list the
header by hand, three 64-bit counters that are read through 32-bit pointers among it, and
leave the rest to the codec of the map. -/
namespace Muti.ClusterMap

open Muti.Memory Muti.Bytes Muti.Reader

/-- What of a map a dump carries, with every object service found under its id. -/
structure Restores (m parsed : ObjectServiceMap) : Prop where
  version : parsed.version = m.version
  bset_length : parsed.bset_length = m.bset_length
  bset_replica_size : parsed.bset_replica_size = m.bset_replica_size
  bset : parsed.bset.cells = m.bset.cells
  object_service_length : parsed.object_service_length = m.object_service_length
  object_service_list : parsed.object_service_list = m.object_service_list
  found : ∀ os ∈ m.object_service_list, clusterMapGetObjectService parsed os.id = .ok (some os)

/-- A map without object services is parsed too, with nothing in its index. -/
theorem carried_parses (valid : Carried m) (start : ObjectServiceMap) : ∃ parsed, Restores m parsed ∧
    ∀ t, clusterMapParseObjectServiceMap start (mapImage m ++ t) = .ok (.accepted parsed (mapImage m).length) := by
  rcases Nat.eq_zero_or_pos m.object_service_length.toNat with none | nonempty
  · have empty : m.object_service_list = [] := List.eq_nil_of_length_eq_zero (valid.counts.services.trans none)
    have announced := announced_header m start
    obtain ⟨index,made,-⟩ := initOSMap_possible (m := afterWords (emptied start) (headerWords m))
      (by rw [announced.object_service_length]; exact valid.indexable)
    refine ⟨{ afterWords (emptied start) (headerWords m) with os_map := some index, bset := .live m.bset.cells },
      ⟨rfl,rfl,rfl,rfl,rfl,empty.symm,by simp [empty]⟩,?_⟩
    intro t
    have zero : (afterWords (emptied start) (headerWords m)).object_service_length.toNat = 0 := none
    have length : (mapImage m).length = (dumpHeader m).length + (m.bset.cells.flatMap bsetImage).length := by
      simp [mapImage,empty]
    have within : Cursor.Within (⟨m.bset.cells.flatMap bsetImage ++
        (m.object_service_list.flatMap objectServiceImage ++ t),(dumpHeader m).length⟩ : Cursor UInt8)
        (dumpHeader m ++ (m.bset.cells.flatMap bsetImage ++
          (m.object_service_list.flatMap objectServiceImage ++ t))).length := List.length_append.symm
    rw [mapImage_split,header_whole,bsets_whole valid announced made within rfl,length,parseServices]
    simp only [zero]
    rfl
  · obtain ⟨parsed,added,parses⟩ := parse_whole valid nonempty start
    refine ⟨parsed,?_,parses⟩
    obtain ⟨index,rfl,stored⟩ := added
    exact ⟨rfl,rfl,rfl,rfl,rfl,rfl,fun os member => get_listed ⟨index,rfl,stored⟩ valid.distinct member⟩

/-- A status as one signed byte carries it. -/
def carriedStatus (status : UInt32) : UInt32 := status.toUInt8.toInt8.toInt32.toUInt32

def carriedService (os : ObjectService) : ObjectService := { os with status := carriedStatus os.status }

def carriedMap (m : ObjectServiceMap) : ObjectServiceMap :=
  { m with object_service_list := m.object_service_list.map carriedService }

theorem carriedStatus_fits (status : UInt32) : FitsInt8 (carriedStatus status) := by
  have low := Int8.le_toInt status.toUInt8.toInt8
  have high := Int8.toInt_lt status.toUInt8.toInt8
  simp only [FitsInt8,carriedStatus,Int32.toInt32_toUInt32,Int8.toInt_toInt32]
  omega

theorem carriedStatus_toUInt8 (status : UInt32) : (carriedStatus status).toUInt8 = status.toUInt8 := by
  rw [carriedStatus]
  generalize status.toUInt8 = byte
  apply UInt8.toBitVec_inj.mp
  ext i inside
  have low : i < 32 := by omega
  simp [BitVec.getElem_setWidth,BitVec.getElem_signExtend,low,inside]

theorem carriedService_iff (os : ObjectService) : carriedService os = os ↔ FitsInt8 os.status := by
  constructor
  · intro same
    rw [← same]
    exact carriedStatus_fits os.status
  · intro fits
    rw [carriedService,carriedStatus,signExtend_toUInt8 fits]

/-- The dump does not tell a map from the one it carries. -/
theorem mapImage_carried (m : ObjectServiceMap) : mapImage (carriedMap m) = mapImage m := by
  have services : (m.object_service_list.map carriedService).flatMap objectServiceImage =
      m.object_service_list.flatMap objectServiceImage := by
    rw [List.flatMap_map]
    congr 1
    funext os
    simp only [objectServiceImage,carriedService,carriedStatus_toUInt8]
  rw [mapImage,mapImage]
  exact congrArg (dumpHeader m ++ m.bset.cells.flatMap bsetImage ++ ·) services

theorem carriedMap_carried (counts : CountsMatch m) (indexable : m.object_service_length.toNat ≤ 2 ^ 30)
    (distinct : (m.object_service_list.map ObjectService.id).Nodup) : Carried (carriedMap m) := by
  refine ⟨⟨counts.bsets,counts.replicas,?_,?_⟩,indexable,?_,?_⟩
  · exact List.length_map _ |>.trans counts.services
  · intro os member
    obtain ⟨before,listed,rfl⟩ := List.mem_map.mp member
    exact counts.members before listed
  · intro os member
    obtain ⟨before,-,rfl⟩ := List.mem_map.mp member
    exact carriedStatus_fits before.status
  · have ids : (carriedMap m).object_service_list.map ObjectService.id = m.object_service_list.map ObjectService.id := by
      rw [carriedMap,List.map_map]
      rfl
    rwa [ids]

/-- The map parsed out of a dump is the dumped one exactly when each status fits its byte. -/
theorem restores_iff (restores : Restores (carriedMap m) parsed) :
    Restores m parsed ↔ ∀ os ∈ m.object_service_list, FitsInt8 os.status := by
  constructor
  · intro same os member
    have lists : m.object_service_list.map carriedService = m.object_service_list.map fun os => os := by
      rw [List.map_id']
      exact restores.object_service_list.symm.trans same.object_service_list
    exact (carriedService_iff os).mp (List.map_inj_left.mp lists os member)
  · intro fits
    have same : carriedMap m = m := by
      have lists : m.object_service_list.map carriedService = m.object_service_list := by
        conv_rhs => rw [← List.map_id' m.object_service_list]
        exact List.map_congr_left fun os member => (carriedService_iff os).mpr (fits os member)
      rw [carriedMap,lists]
    rwa [same] at restores

/-- More object services than the index takes stop the parser. -/
theorem mapImage_exits (large : 2 ^ 30 < m.object_service_length.toNat) (start : ObjectServiceMap) (t : List UInt8) :
    clusterMapParseObjectServiceMap start (mapImage m ++ t) = .error .exit := by
  have exits := initOSMap_exits (m := afterWords (emptied start) (headerWords m)) large
  rw [mapImage_split,header_whole,parseBody,exits]
  rfl

end Muti.ClusterMap

namespace Muti.Cluster

open Muti.Memory Muti.Bytes Muti.Resource Muti.ClusterMap

/-- The decoder gets back what was encoded, out of exactly these bytes, whatever follows them. -/
def StatusRoundTrip (resp : ClusterStatusResponse) : Prop :=
  ∃ buffer, clusterResponseEncoderStatus resp = .ok buffer ∧ ∀ back, ∃ os_map consume_len,
    clusterResponseDecoderStatus (buffer ++ back) =
      .ok (.message (.status resp.super resp.total_objects resp.used resp.free os_map) consume_len) ∧
    Restores resp.os_map os_map ∧ consume_len.toNat = buffer.length

/-- The counters fit 32 bits, and the map's fields fit where they are stored. -/
structure StatusFits (resp : ClusterStatusResponse) : Prop where
  total_objects : resp.total_objects.toNat < 2 ^ 32
  used : resp.used.toNat < 2 ^ 32
  free : resp.free.toNat < 2 ^ 32
  narrow : Narrow resp.os_map
  indexable : resp.os_map.object_service_length.toNat ≤ 2 ^ 30
  statuses : ∀ os ∈ resp.os_map.object_service_list, FitsInt8 os.status

def truncated (counter : UInt64) : UInt64 := counter.toUInt32.toUInt64

theorem truncated_iff (counter : UInt64) : truncated counter = counter ↔ counter.toNat < 2 ^ 32 := by
  rw [← UInt64.toNat_inj,truncated,UInt32.toNat_toUInt64,UInt64.toNat_toUInt32]
  constructor
  · intro same
    rw [← same]
    exact Nat.mod_lt _ (by omega)
  · exact Nat.mod_eq_of_lt

theorem statusHeader_fields (resp : ClusterStatusResponse) (back : List UInt8) :
    responseAt (statusHeader resp ++ back) = resp.super ∧
      field32 8 (statusHeader resp ++ back) = resp.total_objects.toUInt32 ∧
      field32 16 (statusHeader resp ++ back) = resp.used.toUInt32 ∧
      field32 24 (statusHeader resp ++ back) = resp.free.toUInt32 := by
  simp only [statusHeader,List.append_assoc]
  refine ⟨responseAt_image ..,?_,?_,?_⟩
  · rw [field32,field_skip _ _ 8 4 (by simp),responseImage_length]
    exact field32_image64 ..
  · rw [field32,field_skip _ _ 16 4 (by simp),field_skip _ _ _ 4 (by simp),responseImage_length,image64_length]
    exact field32_image64 ..
  · rw [field32,field_skip _ _ 24 4 (by simp),field_skip _ _ _ 4 (by simp),field_skip _ _ _ 4 (by simp),
      responseImage_length,image64_length,image64_length]
    exact field32_image64 ..

/-- Behind the header of a success the decoder is the parser of the map. -/
theorem decoderStatus_eq (resp : ClusterStatusResponse) (success : resp.super.error_id = 0) (rest : List UInt8) :
    clusterResponseDecoderStatus (statusHeader resp ++ rest) =
      match clusterMapParseObjectServiceMap clearedMap rest with
      | .error reason => .error reason
      | .ok (.rejected _) => .ok .more
      | .ok (.accepted os_map len1) => .ok (.message (.status resp.super (truncated resp.total_objects)
        (truncated resp.used) (truncated resp.free) os_map) (32 + UInt64.ofNat len1)) := by
  obtain ⟨super,total_objects,used,free⟩ := statusHeader_fields resp rest
  have length : (statusHeader resp).length = 32 := by simp [statusHeader]
  have whole : (statusHeader resp ++ rest).length = 32 + rest.length := by rw [List.length_append,length]
  have dropped : (statusHeader resp ++ rest).drop 32 = rest := List.drop_left' length
  rw [clusterResponseDecoderStatus,errorOr,if_neg (by omega),super,if_neg (not_not.mpr success),decodeMap,
    if_neg (by omega),dropped,super,total_objects,used,free]
  cases clusterMapParseObjectServiceMap clearedMap rest with
  | error reason => rfl
  | ok parsed => cases parsed <;> rfl

theorem encoderStatus_eq (counts : CountsMatch resp.os_map) : clusterResponseEncoderStatus resp =
    if (mapImage resp.os_map).length = (clusterMapDumpObjectServiceMapLength resp.os_map).toNat then
      .ok (statusHeader resp ++ mapImage resp.os_map) else .error .assertion := by
  rw [clusterResponseEncoderStatus,dump_eq counts]
  split <;> rfl

/-- A parsed map is handed out with the counters as they are read. -/
theorem decoderStatus_carried (resp : ClusterStatusResponse) (success : resp.super.error_id = 0) (counts : CountsMatch resp.os_map)
    (distinct : (resp.os_map.object_service_list.map ObjectService.id).Nodup)
    (indexable : resp.os_map.object_service_length.toNat ≤ 2 ^ 30) :
    ∃ parsed, Restores (carriedMap resp.os_map) parsed ∧ ∀ back,
      clusterResponseDecoderStatus (statusHeader resp ++ mapImage resp.os_map ++ back) =
        .ok (.message (.status resp.super (truncated resp.total_objects) (truncated resp.used) (truncated resp.free)
          parsed) (32 + UInt64.ofNat (mapImage resp.os_map).length)) := by
  obtain ⟨parsed,restores,parses⟩ := carried_parses (carriedMap_carried counts indexable distinct) clearedMap
  rw [mapImage_carried] at parses
  refine ⟨parsed,restores,?_⟩
  intro back
  rw [List.append_assoc,decoderStatus_eq resp success,parses back]

/-- The round trip of a success succeeds exactly when everything fits where it is read and stored. -/
theorem status_round_trip_iff (resp : ClusterStatusResponse) (success : resp.super.error_id = 0)
    (counts : CountsMatch resp.os_map) (distinct : (resp.os_map.object_service_list.map ObjectService.id).Nodup) :
    StatusRoundTrip resp ↔ StatusFits resp := by
  rw [StatusRoundTrip,encoderStatus_eq counts]
  constructor
  · rintro ⟨buffer,encoded,returned⟩
    split at encoded
    case isFalse => cases encoded
    case isTrue written =>
      cases encoded
      obtain ⟨os_map,consume_len,decoded,restored,-⟩ := returned []
      have indexable : resp.os_map.object_service_length.toNat ≤ 2 ^ 30 := by
        by_contra large
        rw [List.append_assoc,decoderStatus_eq resp success,mapImage_exits (Nat.lt_of_not_le large)] at decoded
        cases decoded
      obtain ⟨parsed,restores,decodes⟩ := decoderStatus_carried _ success counts distinct indexable
      rw [decodes []] at decoded
      simp only [Except.ok.injEq,Decoded.message.injEq,Reply.status.injEq] at decoded
      obtain ⟨⟨-,total_objects,used,free,rfl⟩,-⟩ := decoded
      exact ⟨(truncated_iff _).mp total_objects,(truncated_iff _).mp used,(truncated_iff _).mp free,
        (narrow_iff counts).mpr written,indexable,(restores_iff restores).mp restored⟩
  · rintro ⟨total_objects,used,free,narrow,indexable,statuses⟩
    obtain ⟨parsed,restores,decodes⟩ := decoderStatus_carried _ success counts distinct indexable
    refine ⟨statusHeader resp ++ mapImage resp.os_map,if_pos ((narrow_iff counts).mp narrow),?_⟩
    intro back
    refine ⟨parsed,32 + UInt64.ofNat (mapImage resp.os_map).length,?_,(restores_iff restores).mpr statuses,?_⟩
    · rw [decodes back,(truncated_iff _).mpr total_objects,(truncated_iff _).mpr used,(truncated_iff _).mpr free]
    · have small := encodedSize_lt counts narrow.fixed narrow.ids
      rw [← mapImage_length counts] at small
      have length : (statusHeader resp).length = 32 := by simp [statusHeader]
      rw [UInt64.toNat_add,toNat_ofNat_small (by omega),List.length_append,length]
      change (32 + _) % 2 ^ 64 = _
      omega

def sampleStatus : ClusterStatusResponse := ⟨⟨0,3⟩,7,8,9,sampleMap⟩

theorem status_round_trip_sample : StatusRoundTrip sampleStatus :=
  (status_round_trip_iff sampleStatus rfl sampleMap_encodable.counts sampleMap_encodable.distinct).mpr
    ⟨by decide,by decide,by decide,⟨by decide,by decide⟩,by decide,by decide⟩

def largeStatus : ClusterStatusResponse := { sampleStatus with total_objects := 4294967296 }

/-- The client is told there are no objects. -/
theorem not_round_trip_large : largeStatus.super.error_id = 0 ∧ Encodable largeStatus.os_map ∧
    ¬StatusRoundTrip largeStatus := by
  refine ⟨rfl,sampleMap_encodable,?_⟩
  rintro ⟨buffer,encoded,returned⟩
  rw [encoderStatus_eq sampleMap_encodable.counts] at encoded
  split at encoded
  case isFalse => cases encoded
  case isTrue written =>
    cases encoded
    obtain ⟨os_map,consume_len,decoded,-⟩ := returned []
    obtain ⟨parsed,-,decodes⟩ := decoderStatus_carried largeStatus rfl sampleMap_encodable.counts
      sampleMap_encodable.distinct sampleMap_encodable.indexable
    rw [decodes []] at decoded
    simp only [Except.ok.injEq,Decoded.message.injEq,Reply.status.injEq] at decoded
    exact absurd decoded.1.2.1 (by decide)

end Muti.Cluster
