import Muti.ClusterMapCodec
import Muti.ReaderExtent

/-! The cluster map parser on bytes nobody vouches for. A truncated buffer is rejected at
whichever field it ends; what stops the process is a slot size shifted into the sign bit,
and an object service whose id is already indexed. -/
namespace Muti.ClusterMap

open Muti.Memory Muti.Bytes Muti.Reader Muti.MapHashLinked

def wordsAt (n : Nat) (rest : List UInt8) : List UInt32 := collect (fun _ => 4) (field32 0) n rest

theorem reads_words (n : Nat) : Reads (times word32 n : Reader UInt8 Fault (List UInt32)) (fun _ => n * 4) (wordsAt n) := by
  have read := (reads_word32 (ε := Fault)).times n
  rwa [funext (extent_fixed 4 n)] at read

def bsetAt (bset_replica_size : UInt16) (rest : List UInt8) : BSet :=
  ⟨field32 0 rest,wordsAt bset_replica_size.toNat (rest.drop 4)⟩

theorem reads_bset (bset_replica_size : UInt16) :
    Reads (readBSet bset_replica_size) (fun _ => 4 + bset_replica_size.toNat * 4) (bsetAt bset_replica_size) :=
  reads_word32.bind fun id => (reads_words bset_replica_size.toNat).map (BSet.mk id)

/-- The object service in front of a byte string, and the bytes it takes. -/
def objectServiceAt (rest : List UInt8) : ObjectService where
  id := field32 0 rest
  status := ((rest.drop 136).take 1).headD 0 |>.toInt8.toInt32.toUInt32
  host := Host.ofBytes ((rest.drop 4).take 128)
  port := (field32 132 rest).toInt32
  bset_length := field32 137 rest
  bset_ids := wordsAt (field32 137 rest).toNat (rest.drop 141)

def objectServiceSize (rest : List UInt8) : Nat := 141 + (field32 137 rest).toNat * 4

theorem reads_objectService : Reads readObjectService objectServiceSize objectServiceAt := by
  have read := (reads_word32 (ε := Fault)).bind fun id => (reads_bytes 128).bind fun host =>
    reads_word32.bind fun port => reads_word8.bind fun status => reads_word32.bind fun bset_length =>
      (reads_words bset_length.toNat).map fun bset_ids => ObjectService.mk id
        status.toInt8.toInt32.toUInt32 (Host.ofBytes host) port.toInt32 bset_length bset_ids
  simp only [List.drop_drop,field32_drop] at read
  have size : (fun rest => 4 + (128 + (4 + (1 + (4 + (field32 137 rest).toNat * 4))))) = objectServiceSize := by
    funext rest
    rw [objectServiceSize]
    omega
  rw [← size]
  exact read

/-- Past `2 ^ 30` the loop stops at the `int` whose only bit is the sign. -/
theorem slotSize_sign (turns : Nat) (large : 2 ^ 30 < count.toNat) (low : ssize < count.toUInt64) (early : i ≤ 31)
    (enough : i + turns = 33) : slotSize count turns ssize i = intShift 31 := by
  induction turns generalizing i ssize with
  | zero => omega
  | succ turns ih =>
    rw [slotSize,if_pos low]
    rcases Nat.eq_or_lt_of_le early with rfl | more
    · apply slotSize_stop
      have sign : (intShift 31).toNat = 2 ^ 64 - 2 ^ 31 := by decide
      have word := count.toNat_lt
      rw [UInt64.lt_iff_toNat_lt,UInt32.toNat_toUInt64,sign]
      omega
    · have size := (intShift_power more).1
      have power : 2 ^ i ≤ 2 ^ 30 := Nat.pow_le_pow_right (by omega) (by omega)
      apply ih _ more (by omega)
      rw [UInt64.lt_iff_toNat_lt,UInt32.toNat_toUInt64,size]
      omega

theorem initOSMap_exits (large : 2 ^ 30 < m.object_service_length.toNat) : clusterMapInitOSMap m = .error .exit := by
  have low : (0 : UInt64) < m.object_service_length.toUInt64 := by
    rw [UInt64.lt_iff_toNat_lt,UInt32.toNat_toUInt64]
    change 0 < _
    omega
  have power : intShift 31 &&& (intShift 31 - 1) ≠ 0 := by decide
  rw [clusterMapInitOSMap,slotSize_sign 32 large low (by omega) (by omega),initMapHashLinked,if_pos power]
  rfl

/-- No object services are indexed over no slots, which nothing is ever put into. -/
theorem initOSMap_possible (bound : m.object_service_length.toNat ≤ 2 ^ 30) :
    ∃ index, clusterMapInitOSMap m = .ok { m with os_map := some index } ∧
      (1 ≤ m.object_service_length.toNat → Represents mparam index []) := by
  rcases Nat.eq_zero_or_pos m.object_service_length.toNat with empty | nonempty
  · have none : m.object_service_length = 0 := UInt32.toNat_inj.mp empty
    refine ⟨⟨0,[],0⟩,?_,by omega⟩
    rw [clusterMapInitOSMap,none]
    rfl
  · obtain ⟨index,made,stored⟩ := initOSMap_ok nonempty bound
    exact ⟨index,made,fun _ => stored⟩

/-- An id that is already indexed displaces the pointer it has. -/
theorem put_known (stored : Represents mparam index (refs services)) (known : os_id ∈ services.map ObjectService.id)
    (position : Nat) : ∃ displaced index', put mparam index os_id ⟨position,os_id⟩ = .ok (displaced,index') ∧
      displaced ≠ none := by
  obtain ⟨other,member,same⟩ := List.mem_map.mp known
  obtain ⟨i,inside,here⟩ := List.getElem_of_mem member
  have listed : (⟨i,other.id⟩ : ObjectServiceRef) ∈ refs services :=
    List.mem_mapIdx.mpr ⟨i,inside,by rw [here]⟩
  have own : mparam.compareMethod (mparam.key ⟨position,os_id⟩) os_id = 0 := (mparam_lawful _ _).mpr rfl
  obtain ⟨index',done,-⟩ := stored.put_found mparam_lawful.hashed own
  have found : MapHashLinked.found mparam os_id ⟨i,other.id⟩ = true := found_mparam.mpr same
  exact ⟨_,index',done,replaceOrAppend_known ⟨position,os_id⟩ ⟨_,listed,found⟩⟩

theorem addObjectService_known (indexed : Indexed m) (known : os.id ∈ m.object_service_list.map ObjectService.id) :
    addObjectService m os = .error .assertion := by
  obtain ⟨index,present,stored⟩ := indexed
  obtain ⟨displaced,index',done,old⟩ := put_known stored known m.object_service_list.length
  rw [addObjectService,present]
  change (put mparam index os.id _ >>= _) = _
  rw [done]
  change (assert _ >>= _) = _
  rw [assert,if_neg old]
  rfl

/-- A map the parser can give up: its bsets are allocated as announced, its object services indexed. -/
structure Releasable (m : ObjectServiceMap) : Prop where
  bset : ∃ cells, m.bset = .live cells ∧ cells.length = m.bset_length.toNat
  index : m.object_service_list = [] ∨ m.os_map.isSome

theorem Releasable.errorOut (releasable : Releasable m) : ∃ left, errorOut m = .ok (.rejected left) := by
  obtain ⟨cells,live,count⟩ := releasable.bset
  exact errorOut_ok (.inr ⟨cells,live,Nat.le_of_eq count.symm⟩) releasable.index

def Refilled (m0 m : ObjectServiceMap) : Prop :=
  ∃ cells, cells.length = m0.bset_length.toNat ∧ m = { m0 with bset := .live cells }

theorem parseBSet_turn (low : j < m0.bset_length.toNat) (refilled : Refilled m0 m) (inside : c.len ≤ buf_len) :
    if buf_len < c.len + (4 + m0.bset_replica_size.toNat * 4) then parseBSet j m buf_len c = .error .short
    else ∃ m', Refilled m0 m' ∧ parseBSet j m buf_len c =
      .ok (m',⟨c.rest.drop (4 + m0.bset_replica_size.toNat * 4),c.len + (4 + m0.bset_replica_size.toNat * 4)⟩) := by
  obtain ⟨cells,count,rfl⟩ := refilled
  have reads := reads_bset m0.bset_replica_size
  rw [parseBSet,bind_run]
  split
  case isTrue early => rw [reads.short inside early]
  case isFalse fits =>
    rw [reads.whole (Nat.le_of_not_lt fits)]
    refine ⟨_,⟨cells.set j (bsetAt m0.bset_replica_size c.rest),by simpa using count,rfl⟩,?_⟩
    have stored : write cells j (bsetAt m0.bset_replica_size c.rest) = .ok (cells.set j _) :=
      write_ok.mpr ⟨by omega,rfl⟩
    simp only [lift,storeBSet,BSetArray.cells,stored,bind,Except.bind]

/-- The ids of the object services that lie whole in the buffer, from `offset` on. -/
def wholeIds (buffer : List UInt8) : Nat → Nat → List UInt32
  | 0, _ => []
  | n + 1, offset =>
    let next := offset + 141 + (field32 (offset + 137) buffer).toNat * 4
    if next ≤ buffer.length then field32 offset buffer :: wholeIds buffer n next else []

structure Grown (m0 m : ObjectServiceMap) : Prop where
  indexed : Indexed m
  bset : m.bset = m0.bset
  bset_length : m.bset_length = m0.bset_length

/-- The object services are read to the end, or up to where the bytes run out, unless two
of those lying whole in the buffer have one id. -/
theorem services_loop (n : Nat) (indexed : Indexed m) (distinct : (m.object_service_list.map ObjectService.id).Nodup)
    (inside : offset ≤ buffer.length) :
    if (m.object_service_list.map ObjectService.id ++ wholeIds buffer n offset).Nodup
    then ∃ outcome, loop parseObjectService buffer.length i n m ⟨buffer.drop offset,offset⟩ = .ok outcome ∧
      Grown m outcome.state
    else loop parseObjectService buffer.length i n m ⟨buffer.drop offset,offset⟩ = .error .assertion := by
  induction n generalizing m i offset with
  | zero =>
    rw [wholeIds,List.append_nil,if_pos distinct]
    exact ⟨_,rfl,indexed,rfl,rfl⟩
  | succ n ih =>
    have size : offset + objectServiceSize (buffer.drop offset) =
        offset + 141 + (field32 (offset + 137) buffer).toNat * 4 := by
      rw [objectServiceSize,field32_drop,Nat.add_assoc]
    rw [wholeIds]
    by_cases whole : offset + 141 + (field32 (offset + 137) buffer).toNat * 4 ≤ buffer.length
    · have read := reads_objectService.whole (Nat.le_trans (Nat.le_of_eq size) whole)
      rw [size,List.drop_drop,size] at read
      rw [if_pos whole]
      by_cases known : field32 offset buffer ∈ m.object_service_list.map ObjectService.id
      · have stops : addObjectService m (objectServiceAt (buffer.drop offset)) = .error .assertion :=
          addObjectService_known indexed (by simpa [objectServiceAt,field32_drop] using known)
        have repeated : ¬(m.object_service_list.map ObjectService.id ++ field32 offset buffer ::
            wholeIds buffer n (offset + 141 + (field32 (offset + 137) buffer).toNat * 4)).Nodup := by
          intro apart
          exact (List.nodup_append.mp apart).2.2 _ known _ List.mem_cons_self rfl
        rw [if_neg repeated]
        simp only [loop,parseObjectService,bind_run,read,lift,stops]
      · have new : ∀ other ∈ m.object_service_list, other.id ≠ (objectServiceAt (buffer.drop offset)).id := by
          intro other member same
          apply known
          rw [← Nat.add_zero offset,← field32_drop]
          exact List.mem_map.mpr ⟨other,member,same⟩
        obtain ⟨index,added,stored⟩ := addObjectService_fresh indexed new
        have listed : (m.object_service_list ++ [objectServiceAt (buffer.drop offset)]).map ObjectService.id =
            m.object_service_list.map ObjectService.id ++ [field32 offset buffer] := by
          simp [objectServiceAt,field32_drop]
        have apart : ((m.object_service_list ++ [objectServiceAt (buffer.drop offset)]).map ObjectService.id).Nodup := by
          rw [listed]
          exact List.nodup_append.mpr ⟨distinct,List.nodup_singleton _,fun id member id' only same =>
            known (List.mem_singleton.mp only ▸ same ▸ member)⟩
        have rest := ih (m := { m with
          os_map := some index
          object_service_list := m.object_service_list ++ [objectServiceAt (buffer.drop offset)] })
          (i := i + 1) ⟨index,rfl,stored⟩ apart whole
        rw [listed,List.append_assoc,List.singleton_append] at rest
        simp only [loop,parseObjectService,bind_run,read,lift,added] at rest ⊢
        split at rest
        case isTrue fresh =>
          obtain ⟨outcome,done,grown⟩ := rest
          rw [if_pos fresh]
          exact ⟨outcome,done,grown.indexed,grown.bset,grown.bset_length⟩
        case isFalse repeated => rwa [if_neg repeated]
    · have read := reads_objectService.short inside (Nat.lt_of_lt_of_eq (Nat.lt_of_not_le whole) size.symm)
      rw [if_neg whole,List.append_nil,if_pos distinct]
      exact ⟨.short m,by simp only [loop,parseObjectService,bind_run,read],indexed,rfl,rfl⟩

def headed (m : ObjectServiceMap) (memory : List UInt8) : ObjectServiceMap :=
  { m with
    version := field32 0 memory
    bset_length := field32 4 memory
    bset_replica_size := field16 8 memory
    object_service_length := field32 10 memory }

theorem header_loop (m : ObjectServiceMap) (memory : List UInt8) (buf_len : Nat) :
    if buf_len < 14 then ∃ left, loop parseHeader buf_len 0 4 m ⟨memory,0⟩ = .ok (.short left) ∧
      left.bset = m.bset ∧ left.object_service_list = m.object_service_list
    else loop parseHeader buf_len 0 4 m ⟨memory,0⟩ = .ok (.finished (headed m memory) ⟨memory.drop 14,14⟩) := by
  have first : word32 buf_len ⟨memory,0⟩ = if buf_len < 4 then .error (.short : Stop Fault)
    else .ok (field32 0 memory,⟨memory.drop 4,4⟩) := word32_run 0 buf_len memory
  have second : word32 buf_len ⟨memory.drop 4,4⟩ = if buf_len < 8 then .error (.short : Stop Fault)
    else .ok (field32 4 memory,⟨memory.drop 8,8⟩) := word32_run 4 buf_len memory
  have third : word16 buf_len ⟨memory.drop 8,8⟩ = if buf_len < 10 then .error (.short : Stop Fault)
    else .ok (field16 8 memory,⟨memory.drop 10,10⟩) := word16_run 8 buf_len memory
  have fourth : word32 buf_len ⟨memory.drop 10,10⟩ = if buf_len < 14 then .error (.short : Stop Fault)
    else .ok (field32 10 memory,⟨memory.drop 14,14⟩) := word32_run 10 buf_len memory
  simp only [loop,parseHeader,bind_run,pure_run,first]
  by_cases version : buf_len < 4
  · rw [if_pos version,if_pos (by omega)]
    exact ⟨m,rfl,rfl,rfl⟩
  simp only [if_neg version,second]
  by_cases bset_length : buf_len < 8
  · rw [if_pos bset_length,if_pos (by omega)]
    exact ⟨_,rfl,rfl,rfl⟩
  simp only [if_neg bset_length,third]
  by_cases replicas : buf_len < 10
  · rw [if_pos replicas,if_pos (by omega)]
    exact ⟨_,rfl,rfl,rfl⟩
  simp only [if_neg replicas,fourth]
  by_cases services : buf_len < 14
  · rw [if_pos services,if_pos services]
    exact ⟨_,rfl,rfl,rfl⟩
  · rw [if_neg services,if_neg services]
    rfl

theorem parse_headed (m : ObjectServiceMap) (buffer : List UInt8) (whole : 14 ≤ buffer.length) :
    clusterMapParseObjectServiceMap m buffer =
      parseBody (headed { m with bset := .null, object_service_list := [], status := .normal } buffer) buffer.length
        ⟨buffer.drop 14,14⟩ := by
  have header := header_loop { m with bset := .null, object_service_list := [], status := .normal } buffer buffer.length
  rw [if_neg (Nat.not_lt.mpr whole)] at header
  rw [clusterMapParseObjectServiceMap]
  simp only [header,bind,Except.bind]

/-- A buffer without a whole header is rejected with nothing allocated. -/
theorem parse_headless (m : ObjectServiceMap) (buffer : List UInt8) (short : buffer.length < 14) :
    ∃ left, clusterMapParseObjectServiceMap m buffer = .ok (.rejected left) ∧
      left.bset = .null ∧ left.object_service_list = [] := by
  have header := header_loop { m with bset := .null, object_service_list := [], status := .normal } buffer buffer.length
  rw [if_pos short] at header
  obtain ⟨left,stopped,null,empty⟩ := header
  refine ⟨{ left with bset := .null },?_,rfl,empty⟩
  rw [clusterMapParseObjectServiceMap]
  simp only [stopped,errorOut,clusterMapFreeOSMap,freeBSets,null,freeServices,empty,bind,Except.bind,if_true]

def servicesOffset (buffer : List UInt8) : Nat :=
  14 + (field32 4 buffer).toNat * (4 + (field16 8 buffer).toNat * 4)

/-- The header is cut short, or it announces at most `2 ^ 30` object services, of which
those lying whole in the buffer have distinct ids. -/
def Parsable (buffer : List UInt8) : Prop :=
  buffer.length < 14 ∨ (field32 10 buffer).toNat ≤ 2 ^ 30 ∧
    (wholeIds buffer (field32 10 buffer).toNat (servicesOffset buffer)).Nodup

instance : Decidable (Parsable buffer) := inferInstanceAs (Decidable (_ ∨ _))

theorem wholeIds_behind (n : Nat) (behind : buffer.length < offset) : wholeIds buffer n offset = [] := by
  cases n with
  | zero => rfl
  | succ n => rw [wholeIds,if_neg (by omega)]

/-- The object services behind the bsets: the parser ends unless ids repeat. -/
theorem parseServices_cases (releasable : Releasable m) (empty : m.object_service_list = [])
    (indexed : 1 ≤ m.object_service_length.toNat → Indexed m) (inside : offset ≤ buffer.length) :
    if (wholeIds buffer m.object_service_length.toNat offset).Nodup
    then ∃ result, parseServices m buffer.length ⟨buffer.drop offset,offset⟩ = .ok result
    else parseServices m buffer.length ⟨buffer.drop offset,offset⟩ = .error .assertion := by
  rcases Nat.eq_zero_or_pos m.object_service_length.toNat with none | some
  · rw [none,wholeIds,if_pos List.nodup_nil,parseServices,none]
    exact ⟨_,rfl⟩
  · have run := services_loop (i := 0) m.object_service_length.toNat (indexed some) (by simp [empty]) inside
    rw [empty,List.map_nil,List.nil_append] at run
    rw [parseServices]
    split at run
    case isTrue fresh =>
      obtain ⟨outcome,done,grown⟩ := run
      rw [if_pos fresh,done]
      cases outcome with
      | finished m' c => exact ⟨_,rfl⟩
      | short m' =>
        obtain ⟨cells,live,count⟩ := releasable.bset
        obtain ⟨index,present,-⟩ := grown.indexed
        have kept : Releasable m' :=
          ⟨⟨cells,grown.bset.trans live,count.trans (congrArg UInt32.toNat grown.bset_length.symm)⟩,
            .inr (Option.isSome_iff_exists.mpr ⟨index,present⟩)⟩
        obtain ⟨left,gave_up⟩ := kept.errorOut
        exact ⟨_,gave_up⟩
    case isFalse repeated =>
      rw [if_neg repeated,run]
      rfl

theorem refilled_start (m : ObjectServiceMap) : Refilled m (withBSets m m.bset_length.toNat []) :=
  ⟨_,by simp,rfl⟩

theorem Refilled.releasable (refilled : Refilled m0 m) (empty : m0.object_service_list = []) : Releasable m := by
  obtain ⟨cells,count,rfl⟩ := refilled
  exact ⟨⟨cells,rfl,count⟩,.inl empty⟩

/-- The bsets are read whole, or the parser gives up among them. -/
theorem parseBSets_loop (m : ObjectServiceMap) (inside : c.len ≤ buf_len) :
    if buf_len < c.len + m.bset_length.toNat * (4 + m.bset_replica_size.toNat * 4)
    then ∃ m', Refilled m m' ∧
      loop parseBSet buf_len 0 m.bset_length.toNat (withBSets m m.bset_length.toNat []) c = .ok (.short m')
    else ∃ m', Refilled m m' ∧
      loop parseBSet buf_len 0 m.bset_length.toNat (withBSets m m.bset_length.toNat []) c = .ok (.finished m'
        ⟨c.rest.drop (m.bset_length.toNat * (4 + m.bset_replica_size.toNat * 4)),
          c.len + m.bset_length.toNat * (4 + m.bset_replica_size.toNat * 4)⟩) :=
  loop_fixed (Refilled m) (fun _ _ _ _ low refilled inside => parseBSet_turn (by omega) refilled inside)
    (refilled_start m) inside

/-- On every buffer the parser accepts, rejects or stops the process, the last exactly when
the buffer is not parsable. -/
theorem parse_cases (m : ObjectServiceMap) (buffer : List UInt8) :
    if Parsable buffer then ∃ result, clusterMapParseObjectServiceMap m buffer = .ok result
    else ∃ reason, clusterMapParseObjectServiceMap m buffer = .error reason := by
  by_cases short : buffer.length < 14
  · obtain ⟨left,rejected,-⟩ := parse_headless m buffer short
    rw [if_pos (.inl short)]
    exact ⟨_,rejected⟩
  rw [parse_headed m buffer (Nat.le_of_not_lt short)]
  by_cases large : 2 ^ 30 < (field32 10 buffer).toNat
  · rw [if_neg (by rintro (early | ⟨small,-⟩) <;> omega),parseBody,initOSMap_exits large]
    exact ⟨_,rfl⟩
  have unique : Parsable buffer ↔ (wholeIds buffer (field32 10 buffer).toNat (servicesOffset buffer)).Nodup := by
    simp only [Parsable,short,false_or,Nat.le_of_not_lt large,true_and]
  obtain ⟨index,made,stored⟩ := initOSMap_possible
    (m := headed { m with bset := .null, object_service_list := [], status := .normal } buffer) (Nat.le_of_not_lt large)
  have bsets := parseBSets_loop (c := ⟨buffer.drop 14,14⟩) { headed { m with
    bset := .null
    object_service_list := []
    status := .normal } buffer with os_map := some index } (Nat.le_of_not_lt short)
  split at bsets
  case isTrue early =>
    obtain ⟨m',refilled,run⟩ := bsets
    obtain ⟨left,gave_up⟩ := (refilled.releasable rfl).errorOut
    have none : wholeIds buffer (field32 10 buffer).toNat (servicesOffset buffer) = [] := wholeIds_behind _ early
    rw [if_pos (unique.mpr (by simp [none])),parseBody_eq made rfl run]
    exact ⟨_,gave_up⟩
  case isFalse fits =>
    obtain ⟨m',refilled,run⟩ := bsets
    rw [parseBody_eq made rfl run]
    have releasable := refilled.releasable rfl
    obtain ⟨cells,count,rfl⟩ := refilled
    have services := parseServices_cases releasable rfl (fun some => ⟨index,rfl,stored some⟩) (Nat.le_of_not_lt fits)
    simp only [List.drop_drop]
    split at services
    case isTrue fresh =>
      rw [if_pos (unique.mpr fresh)]
      exact services
    case isFalse repeated =>
      rw [if_neg (unique.not.mpr repeated)]
      exact ⟨_,services⟩

/-- The parser on a buffer that `memory` goes on behind: it is told the length only. -/
def parseMemory (m : ObjectServiceMap) (memory : List UInt8) (buf_len : Nat) : Except Fault Parsed := do
  let m := { m with bset := .null, object_service_list := [], status := .normal }
  match ← loop parseHeader buf_len 0 4 m ⟨memory,0⟩ with
  | .short m => errorOut m
  | .finished m c => parseBody m buf_len c

theorem local_parseHeader (i : Nat) (m : ObjectServiceMap) : Local (parseHeader i m) := by
  unfold parseHeader
  split
  · exact local_word32.bind fun _ => local_pure _
  · exact local_word32.bind fun _ => local_pure _
  · exact local_word16.bind fun _ => local_pure _
  · exact local_word32.bind fun _ => local_pure _

theorem local_parseBSet (i : Nat) (m : ObjectServiceMap) : Local (parseBSet i m) := by
  have bset : Local (readBSet m.bset_replica_size) :=
    local_word32.bind fun _ => (local_word32.times _).bind fun _ => local_pure _
  exact bset.bind fun _ => local_lift _

theorem local_parseObjectService (i : Nat) (m : ObjectServiceMap) : Local (parseObjectService i m) := by
  have service : Local readObjectService :=
    local_word32.bind fun _ => (local_bytes 128).bind fun _ => local_word32.bind fun _ =>
      local_word8.bind fun _ => local_word32.bind fun _ => (local_word32.times _).bind fun _ => local_pure _
  exact service.bind fun _ => local_lift _

theorem parseServices_local (m : ObjectServiceMap) (within : Cursor.Within c buf_len) (beyond : List UInt8) :
    parseServices m buf_len (c.extend beyond) = parseServices m buf_len c := by
  have run := (loop_local (i := 0) (n := m.object_service_length.toNat) (s := m) local_parseObjectService within beyond).1
  rw [parseServices,parseServices,run]
  cases loop parseObjectService buf_len 0 m.object_service_length.toNat m c with
  | error reason => rfl
  | ok outcome => cases outcome <;> rfl

theorem parseBody_local (m : ObjectServiceMap) (within : Cursor.Within c buf_len) (beyond : List UInt8) :
    parseBody m buf_len (c.extend beyond) = parseBody m buf_len c := by
  rw [parseBody,parseBody]
  cases clusterMapInitOSMap m with
  | error reason => rfl
  | ok m' =>
    obtain ⟨run,kept⟩ := loop_local (i := 0) (n := m'.bset_length.toNat)
      (s := { m' with bset := .live (List.replicate m'.bset_length.toNat ⟨0,[]⟩) }) local_parseBSet within beyond
    simp only [bind,Except.bind,run]
    cases bsets : loop parseBSet buf_len 0 m'.bset_length.toNat _ c with
    | error reason => rfl
    | ok outcome =>
      cases outcome with
      | short left => rfl
      | finished left c' => exact parseServices_local left (kept _ _ bsets) beyond

/-- What lies behind the buffer is never read. -/
theorem parseMemory_beyond (m : ObjectServiceMap) (buffer beyond : List UInt8) :
    parseMemory m (buffer ++ beyond) buffer.length = clusterMapParseObjectServiceMap m buffer := by
  have within : Cursor.Within ⟨buffer,0⟩ buffer.length := Nat.zero_add _
  obtain ⟨run,kept⟩ := loop_local (i := 0) (n := 4)
    (s := { m with bset := .null, object_service_list := [], status := .normal }) local_parseHeader within beyond
  change loop parseHeader buffer.length 0 4 _ ⟨buffer ++ beyond,0⟩ = _ at run
  rw [parseMemory,clusterMapParseObjectServiceMap]
  simp only [bind,Except.bind,run]
  cases header : loop parseHeader buffer.length 0 4 _ ⟨buffer,0⟩ with
  | error reason => rfl
  | ok outcome =>
    cases outcome with
    | short left => rfl
    | finished left c => exact parseBody_local left (kept _ _ header) beyond

/-- The parser returns, and what it does is up to the bytes of the buffer alone. -/
def Total (m : ObjectServiceMap) (buffer : List UInt8) : Prop :=
  (∀ beyond, parseMemory m (buffer ++ beyond) buffer.length = clusterMapParseObjectServiceMap m buffer) ∧
    ∃ result, clusterMapParseObjectServiceMap m buffer = .ok result

/-- The parser is total on exactly the parsable buffers. -/
theorem parse_total_iff (m : ObjectServiceMap) (buffer : List UInt8) : Total m buffer ↔ Parsable buffer := by
  have cases := parse_cases m buffer
  constructor
  · rintro ⟨-,result,done⟩
    by_contra bad
    rw [if_neg bad] at cases
    obtain ⟨reason,stopped⟩ := cases
    cases stopped.symm.trans done
  · intro good
    rw [if_pos good] at cases
    exact ⟨parseMemory_beyond m buffer,cases⟩

/-- A header that announces no bsets and more object services than the slots are shifted for. -/
def crowdedHeader : List UInt8 := [0,0,0,0,0,0,0,0,0,0,0xff,0xff,0xff,0xff]

theorem not_total_crowded : clusterMapParseObjectServiceMap sampleMap crowdedHeader = .error .exit ∧
    ¬Total sampleMap crowdedHeader := by
  have stops : clusterMapParseObjectServiceMap sampleMap crowdedHeader = .error .exit := by decide
  refine ⟨stops,?_⟩
  rintro ⟨-,result,done⟩
  cases stops.symm.trans done

theorem freeServices_left (freed : freeServices m = .ok left) : left.object_service_list = [] ∧ left.bset = m.bset := by
  by_cases empty : m.object_service_list = []
  · rw [freeServices,if_pos empty] at freed
    cases freed
    exact ⟨empty,rfl⟩
  · rw [freeServices,if_neg empty] at freed
    cases present : m.os_map with
    | none => simp [present] at freed
    | some index =>
      simp only [present,Except.ok.injEq] at freed
      subst freed
      exact ⟨rfl,rfl⟩

/-- Giving up a map whose bsets are allocated leaves the pointer to the released array. -/
theorem errorOut_left (live : m.bset = .live cells) (gave_up : errorOut m = .ok (.rejected left)) :
    left.bset = .freed ∧ left.object_service_list = [] := by
  obtain ⟨m',freed,same⟩ := bind_ok.mp gave_up
  cases same
  obtain ⟨bset,released,services⟩ := bind_ok.mp freed
  rw [freeBSets,live] at released
  obtain ⟨_,_,done⟩ := bind_ok.mp released
  cases done
  obtain ⟨empty,kept⟩ := freeServices_left services
  exact ⟨kept,empty⟩

theorem parseBSet_stores (done : parseBSet i m buf_len c = .ok (m',c')) : ∃ cells, m' = { m with bset := .live cells } := by
  rw [parseBSet,bind_run] at done
  cases read : readBSet m.bset_replica_size buf_len c with
  | error stop => simp [read] at done
  | ok result =>
    simp only [read,lift,storeBSet] at done
    cases stored : write m.bset.cells i result.1 with
    | error reason => simp [stored,bind,Except.bind] at done
    | ok cells =>
      simp only [stored,bind,Except.bind,Except.ok.injEq,Prod.mk.injEq] at done
      exact ⟨cells,done.1.symm⟩

theorem parseObjectService_added (done : parseObjectService i m buf_len c = .ok (m',c')) :
    ∃ os, addObjectService m os = .ok m' := by
  rw [parseObjectService,bind_run] at done
  cases read : readObjectService buf_len c with
  | error stop => simp [read] at done
  | ok result =>
    simp only [read,lift] at done
    cases added : addObjectService m result.1 with
    | error reason => simp [added] at done
    | ok grown =>
      simp only [added,Except.ok.injEq,Prod.mk.injEq] at done
      exact ⟨result.1,by rw [added,done.1]⟩

def Allocated (m : ObjectServiceMap) : Prop := ∃ cells, m.bset = .live cells

theorem parseBSet_allocated (done : parseBSet i m buf_len c = .ok (m',c')) : Allocated m' := by
  obtain ⟨cells,rfl⟩ := parseBSet_stores done
  exact ⟨cells,rfl⟩

theorem addObjectService_appends (done : addObjectService m os = .ok m') :
    m' = { m with os_map := m'.os_map, object_service_list := m.object_service_list ++ [os] } := by
  rw [addObjectService] at done
  cases present : m.os_map with
  | none => simp [present] at done
  | some index =>
    simp only [present] at done
    obtain ⟨_,_,done⟩ := bind_ok.mp done
    obtain ⟨_,_,done⟩ := bind_ok.mp done
    cases done
    rfl

theorem parseObjectService_allocated (allocated : Allocated m) (done : parseObjectService i m buf_len c = .ok (m',c')) :
    Allocated m' := by
  obtain ⟨os,added⟩ := parseObjectService_added done
  obtain ⟨cells,live⟩ := allocated
  exact ⟨cells,(congrArg ObjectServiceMap.bset (addObjectService_appends added)).trans live⟩

/-- Behind the header every exit of the parser leaves a dangling bset pointer. -/
theorem parseBody_left (rejected : parseBody m buf_len c = .ok (.rejected left)) :
    left.bset = .freed ∧ left.object_service_list = [] := by
  obtain ⟨m',_,rejected⟩ := bind_ok.mp rejected
  obtain ⟨outcome,run,rejected⟩ := bind_ok.mp rejected
  have allocated : Allocated outcome.state :=
    loop_keeps Allocated (fun _ _ _ _ _ _ => parseBSet_allocated) ⟨_,rfl⟩ run
  cases outcome with
  | short m' =>
    obtain ⟨cells,live⟩ := allocated
    exact errorOut_left live rejected
  | finished m' c' =>
    obtain ⟨outcome,run,rejected⟩ := bind_ok.mp rejected
    have allocated : Allocated outcome.state :=
      loop_keeps Allocated (fun _ _ _ _ _ => parseObjectService_allocated) allocated run
    cases outcome with
    | finished m' c' => cases rejected
    | short m' =>
      obtain ⟨cells,live⟩ := allocated
      exact errorOut_left live rejected

theorem rejected_left (rejected : clusterMapParseObjectServiceMap m buffer = .ok (.rejected left)) :
    left.object_service_list = [] ∧ left.bset = if buffer.length < 14 then .null else .freed := by
  by_cases short : buffer.length < 14
  · obtain ⟨left',rejected',null,empty⟩ := parse_headless m buffer short
    cases rejected.symm.trans rejected'
    exact ⟨empty,by rw [if_pos short,null]⟩
  · rw [parse_headed m buffer (Nat.le_of_not_lt short)] at rejected
    obtain ⟨freed,empty⟩ := parseBody_left rejected
    exact ⟨empty,by rw [if_neg short,freed]⟩

theorem freeOSMap_empty (null : m.bset = .null) (empty : m.object_service_list = []) : clusterMapFreeOSMap m = .ok m := by
  rw [clusterMapFreeOSMap,freeBSets,null]
  simp only [bind,Except.bind]
  rw [freeServices,if_pos empty,← null]

theorem freeOSMap_again (freed : m.bset = .freed) : clusterMapFreeOSMap m = .error .useAfterFree := by
  rw [clusterMapFreeOSMap,freeBSets,freed]
  rfl

def LeftEmpty (m : ObjectServiceMap) : Prop :=
  m.bset = .null ∧ m.object_service_list = [] ∧ clusterMapFreeOSMap m = .ok m

/-- A rejected map is left empty exactly when its header was cut short. -/
theorem rejected_empty_iff (rejected : clusterMapParseObjectServiceMap m buffer = .ok (.rejected left)) :
    LeftEmpty left ↔ buffer.length < 14 := by
  obtain ⟨empty,bset⟩ := rejected_left rejected
  constructor
  · rintro ⟨null,-⟩
    by_contra long
    rw [if_neg long,null] at bset
    cases bset
  · intro short
    rw [if_pos short] at bset
    exact ⟨bset,empty,freeOSMap_empty bset empty⟩

theorem rejected_empty_cut : ∃ left,
    clusterMapParseObjectServiceMap sampleMap [9,0,0,0,3,0,0,0,2,0,5,0,0] = .ok (.rejected left) ∧ LeftEmpty left := by
  have rejected : clusterMapParseObjectServiceMap sampleMap [9,0,0,0,3,0,0,0,2,0,5,0,0] = .ok (.rejected
      { sampleMap with
        version := 9
        bset_length := 3
        bset := .null
        object_service_list := [] }) := by decide
  exact ⟨_,rejected,(rejected_empty_iff rejected).mpr (by decide)⟩

def lonelyHeader : List UInt8 := [0,0,0,0,1,0,0,0,0,0,0,0,0,0]

/-- The second release of the map touches the bsets the first one released. -/
theorem not_empty_lonely : ∃ left, clusterMapParseObjectServiceMap sampleMap lonelyHeader = .ok (.rejected left) ∧
    ¬LeftEmpty left ∧ clusterMapFreeOSMap left = .error .useAfterFree := by
  refine ⟨_,rfl,?_,rfl⟩
  rintro ⟨null,-⟩
  cases null

end Muti.ClusterMap
