import Mathlib.Algebra.Order.BigOperators.Group.List
import Mathlib.Algebra.Order.Ring.Nat
import Muti.ClusterMapIndex

/-! The binary cluster map round trip: the dump of a map whose counts match its contents
is accepted whole, whatever follows it, and rejected when it is cut short. -/
namespace Muti.ClusterMap

open Muti.Memory Muti.Bytes Muti.Reader Muti.MapHashLinked

/-- The length fields of a map say how much its arrays and its list hold. -/
structure CountsMatch (m : ObjectServiceMap) : Prop where
  bsets : m.bset.cells.length = m.bset_length.toNat
  replicas : ∀ bset ∈ m.bset.cells, bset.object_service_ids.length = m.bset_replica_size.toNat
  services : m.object_service_list.length = m.object_service_length.toNat
  members : ∀ os ∈ m.object_service_list, os.bset_ids.length = os.bset_length.toNat

def FitsInt8 (status : UInt32) : Prop := -128 ≤ status.toInt32.toInt ∧ status.toInt32.toInt ≤ 127

instance : Decidable (FitsInt8 status) := inferInstanceAs (Decidable (_ ∧ _))

def encodedSize (m : ObjectServiceMap) : Nat :=
  14 + m.bset_length.toNat * (4 + m.bset_replica_size.toNat * 4) +
    (m.object_service_list.map fun os => 141 + os.bset_length.toNat * 4).sum

/-- What the codec is asked to carry. -/
structure Encodable (m : ObjectServiceMap) : Prop where
  counts : CountsMatch m
  nonempty : 1 ≤ m.object_service_length.toNat
  indexable : m.object_service_length.toNat ≤ 2 ^ 30
  statuses : ∀ os ∈ m.object_service_list, FitsInt8 os.status
  distinct : (m.object_service_list.map ObjectService.id).Nodup
  small : encodedSize m < 2 ^ 31

/-- What a parser needs of it, however many bytes they are. -/
structure Carried (m : ObjectServiceMap) : Prop where
  counts : CountsMatch m
  indexable : m.object_service_length.toNat ≤ 2 ^ 30
  statuses : ∀ os ∈ m.object_service_list, FitsInt8 os.status
  distinct : (m.object_service_list.map ObjectService.id).Nodup

theorem Encodable.carried (valid : Encodable m) : Carried m :=
  ⟨valid.counts,valid.indexable,valid.statuses,valid.distinct⟩

def bsetImage (bset : BSet) : List UInt8 :=
  image32 bset.id ++ bset.object_service_ids.flatMap image32

def objectServiceImage (os : ObjectService) : List UInt8 :=
  image32 os.id ++ (os.host.bytes ++ (image32 os.port.toUInt32 ++ ([os.status.toUInt8] ++
    (image32 os.bset_length ++ os.bset_ids.flatMap image32))))

def mapImage (m : ObjectServiceMap) : List UInt8 :=
  dumpHeader m ++ m.bset.cells.flatMap bsetImage ++ m.object_service_list.flatMap objectServiceImage

theorem words_length (words : List UInt32) : (words.flatMap image32).length = words.length * 4 := by
  induction words with
  | nil => rfl
  | cons word words ih =>
    rw [List.flatMap_cons,List.length_append,image32_length,ih,List.length_cons]
    omega

theorem bsetImage_length (bset : BSet) :
    (bsetImage bset).length = 4 + bset.object_service_ids.length * 4 := by
  rw [bsetImage,List.length_append,image32_length,words_length]

theorem objectServiceImage_length (os : ObjectService) :
    (objectServiceImage os).length = 141 + os.bset_ids.length * 4 := by
  simp only [objectServiceImage,List.length_append,image32_length,words_length,os.host.length,
    List.length_cons,List.length_nil]
  omega

theorem bsets_length (cells : List BSet) (replicas : ∀ bset ∈ cells, bset.object_service_ids.length = n) :
    (cells.flatMap bsetImage).length = cells.length * (4 + n * 4) := by
  induction cells with
  | nil => simp
  | cons bset cells ih =>
    have tail := ih fun b member => replicas b (List.mem_cons_of_mem _ member)
    have head := replicas bset List.mem_cons_self
    rw [List.flatMap_cons,List.length_append,bsetImage_length,head,tail,List.length_cons,Nat.add_mul]
    omega

theorem services_length (services : List ObjectService)
    (members : ∀ os ∈ services, os.bset_ids.length = os.bset_length.toNat) :
    (services.flatMap objectServiceImage).length =
      (services.map fun os => 141 + os.bset_length.toNat * 4).sum := by
  induction services with
  | nil => rfl
  | cons os services ih =>
    have tail := ih fun o member => members o (List.mem_cons_of_mem _ member)
    have head := members os List.mem_cons_self
    rw [List.flatMap_cons,List.length_append,objectServiceImage_length,head,tail,List.map_cons,List.sum_cons]

theorem mapImage_length (counts : CountsMatch m) : (mapImage m).length = encodedSize m := by
  rw [mapImage,List.length_append,List.length_append,bsets_length _ counts.replicas,
    services_length _ counts.members,counts.bsets,encodedSize]
  simp [dumpHeader]

/-- Header, bsets and the fixed parts of the object services, counted without wrapping. -/
def fixedSize (m : ObjectServiceMap) : Nat :=
  14 + m.bset_length.toNat * (4 + m.bset_replica_size.toNat * 4) + m.object_service_length.toNat * 141

def idsSize (services : List ObjectService) : Nat :=
  (services.map fun os => os.bset_length.toNat * 4).sum

/-- `idsSize` where each product is 32-bit. -/
def wrappedIdsSize (services : List ObjectService) : Nat :=
  (services.map fun os => os.bset_length.toNat * 4 % 2 ^ 32).sum

theorem encodedSize_eq (counts : CountsMatch m) :
    encodedSize m = fixedSize m + idsSize m.object_service_list := by
  have constant : (m.object_service_list.map fun os => 141 + os.bset_length.toNat * 4).sum =
      m.object_service_length.toNat * 141 + idsSize m.object_service_list := by
    rw [← counts.services,idsSize]
    induction m.object_service_list with
    | nil => simp
    | cons os services ih =>
      simp only [List.map_cons,List.sum_cons,List.length_cons,ih]
      omega
  rw [encodedSize,constant,fixedSize]
  omega

/-- Each product of the loop wraps on its own, their sum at the width of the result. -/
theorem list_length_toNat (services : List ObjectService) (start : UInt64) :
    (services.foldl (fun total_len os => total_len + (os.bset_length * 4).toUInt64) start).toNat =
      (start.toNat + wrappedIdsSize services) % 2 ^ 64 := by
  induction services generalizing start with
  | nil => exact (Nat.mod_eq_of_lt start.toNat_lt).symm
  | cons os services ih =>
    have product : (os.bset_length * 4).toUInt64.toNat = os.bset_length.toNat * 4 % 2 ^ 32 := by
      rw [UInt32.toNat_toUInt64,UInt32.toNat_mul]
      rfl
    rw [List.foldl_cons,ih,UInt64.toNat_add,product,wrappedIdsSize,wrappedIdsSize,List.map_cons,List.sum_cons]
    omega

theorem dumpLength_eq (m : ObjectServiceMap) : (clusterMapDumpObjectServiceMapLength m).toNat =
    (fixedSize m % 2 ^ 32 + wrappedIdsSize m.object_service_list) % 2 ^ 64 := by
  have replica := m.bset_replica_size.toNat_lt
  have row : (4 + m.bset_replica_size.toUInt32 * 4 : UInt32).toNat = 4 + m.bset_replica_size.toNat * 4 := by
    rw [UInt32.toNat_add,UInt32.toNat_mul,UInt16.toNat_toUInt32]
    change (4 + m.bset_replica_size.toNat * 4 % 2 ^ 32) % 2 ^ 32 = _
    omega
  have fixed : (14 + m.bset_length * (4 + m.bset_replica_size.toUInt32 * 4) +
      m.object_service_length * (13 + 127 + 1)).toUInt64.toNat = fixedSize m % 2 ^ 32 := by
    rw [UInt32.toNat_toUInt64,UInt32.toNat_add,UInt32.toNat_add,UInt32.toNat_mul,row,UInt32.toNat_mul,fixedSize]
    change ((14 + _ % 2 ^ 32) % 2 ^ 32 + _ * 141 % 2 ^ 32) % 2 ^ 32 = _
    omega
  rw [clusterMapDumpObjectServiceMapLength,list_length_toNat,fixed]

theorem encodedSize_lt (counts : CountsMatch m) (fixed : fixedSize m < 2 ^ 32)
    (ids : ∀ os ∈ m.object_service_list, os.bset_length.toNat < 2 ^ 30) : encodedSize m < 2 ^ 63 := by
  have bound : idsSize m.object_service_list ≤ m.object_service_list.length * 2 ^ 32 := by
    have terms := List.sum_le_card_nsmul (m.object_service_list.map fun os => os.bset_length.toNat * 4) (2 ^ 32) (by
      intro size member
      obtain ⟨os,listed,rfl⟩ := List.mem_map.mp member
      have low := ids os listed
      omega)
    simpa [idsSize] using terms
  have few : m.object_service_list.length * 141 < 2 ^ 32 := by
    rw [counts.services]
    rw [fixedSize] at fixed
    omega
  rw [encodedSize_eq counts]
  omega

/-- Nothing wraps while the fixed part and each object service's ids stay below `2 ^ 32` bytes. -/
theorem dumpLength_exact (counts : CountsMatch m) (fixed : fixedSize m < 2 ^ 32)
    (ids : ∀ os ∈ m.object_service_list, os.bset_length.toNat < 2 ^ 30) :
    (clusterMapDumpObjectServiceMapLength m).toNat = encodedSize m := by
  have same : wrappedIdsSize m.object_service_list = idsSize m.object_service_list := by
    rw [wrappedIdsSize,idsSize]
    congr 1
    apply List.map_congr_left
    intro os member
    have low := ids os member
    omega
  have small := encodedSize_lt counts fixed ids
  rw [encodedSize_eq counts] at small ⊢
  rw [dumpLength_eq,same]
  omega

theorem dumpLength_toNat (counts : CountsMatch m) (small : encodedSize m < 2 ^ 31) :
    (clusterMapDumpObjectServiceMapLength m).toNat = encodedSize m := by
  have size := encodedSize_eq counts
  apply dumpLength_exact counts
  · omega
  · intro os member
    have part : os.bset_length.toNat * 4 ≤ idsSize m.object_service_list :=
      List.single_le_sum (by simp) _ (List.mem_map_of_mem member)
    omega

theorem dumpBSet_ok (replicas : bset.object_service_ids.length = bset_replica_size.toNat) :
    dumpBSet bset_replica_size bset = .ok (bsetImage bset) := by
  rw [dumpBSet,readFirst_all replicas.symm]
  rfl

theorem dumpObjectService_ok (members : os.bset_ids.length = os.bset_length.toNat) :
    dumpObjectService os = .ok (objectServiceImage os) := by
  rw [dumpObjectService,readFirst_all members.symm]
  rfl

/-- The final assertion compares what is written with the length given. -/
theorem dump_eq (counts : CountsMatch m) (total_len : UInt64) : clusterMapDumpObjectServiceMap m total_len =
    if (mapImage m).length = total_len.toNat then .ok (mapImage m) else .error .assertion := by
  have bsets := Lists.mapM_ok m.bset.cells (dumpBSet m.bset_replica_size) bsetImage
    fun bset member => dumpBSet_ok (counts.replicas bset member)
  have services := Lists.mapM_ok m.object_service_list dumpObjectService objectServiceImage
    fun os member => dumpObjectService_ok (counts.members os member)
  have image : dumpHeader m ++ (m.bset.cells.map bsetImage).flatten ++
      (m.object_service_list.map objectServiceImage).flatten = mapImage m := by
    rw [mapImage,List.flatMap_def,List.flatMap_def]
  rw [clusterMapDumpObjectServiceMap,readFirst_all counts.bsets.symm]
  simp only [bind,Except.bind,bsets,services,image]
  by_cases written : (mapImage m).length = total_len.toNat
  · rw [if_pos written,assert,if_pos written]
  · rw [if_neg written,assert,if_neg written]

/-- A dump of the computed length succeeds and is the map's image. -/
theorem dump_ok (counts : CountsMatch m) (small : encodedSize m < 2 ^ 31) :
    clusterMapDumpObjectServiceMap m (clusterMapDumpObjectServiceMapLength m) = .ok (mapImage m) := by
  have written : (mapImage m).length = (clusterMapDumpObjectServiceMapLength m).toNat := by
    rw [mapImage_length counts,dumpLength_toNat counts small]
  rw [dump_eq counts,if_pos written]

theorem exact_words (words : List UInt32) (count : words.length = n) :
    Exact (times word32 n : Reader UInt8 Fault (List UInt32)) (words.flatMap image32) words := by
  subst count
  exact Exact.times image32 words fun word _ => exact_word32 word

theorem exact_readBSet (replicas : bset.object_service_ids.length = bset_replica_size.toNat) :
    Exact (readBSet bset_replica_size) (bsetImage bset) bset :=
  (exact_word32 bset.id).bind ((exact_words bset.object_service_ids replicas).map _)

@[simp] theorem ofBytes_bytes (host : Host) : Host.ofBytes host.bytes = host := by
  obtain ⟨b,length⟩ := host
  simp [Host.ofBytes,length]

theorem exact_host (host : Host) : Exact (bytes 128 : Reader UInt8 Fault (List UInt8)) host.bytes host.bytes := by
  have whole := exact_bytes (ε := Fault) host.bytes
  rw [host.length] at whole
  exact whole

/-- A status that fits one signed byte is read back by sign extension. -/
theorem signExtend_toUInt8 (fits : FitsInt8 status) : status.toUInt8.toInt8.toInt32.toUInt32 = status := by
  obtain ⟨lower,upper⟩ := fits
  have low : status.toUInt8.toInt8 = status.toInt32.toInt8 := by
    apply Int8.toBitVec_inj.mp
    simp [BitVec.signExtend_eq_setWidth_of_le]
  have same : status.toUInt8.toInt8.toInt32 = status.toInt32 := by
    apply Int32.toInt_inj.mp
    rw [Int8.toInt_toInt32,low,Int32.toInt_toInt8]
    exact Int.bmod_eq_of_le (by omega) (by omega)
  rw [same,UInt32.toUInt32_toInt32]

theorem exact_readObjectService (members : os.bset_ids.length = os.bset_length.toNat)
    (fits : FitsInt8 os.status) : Exact readObjectService (objectServiceImage os) os := by
  refine (exact_word32 os.id).bind ?_
  refine (exact_host os.host).bind ?_
  refine (exact_word32 os.port.toUInt32).bind ?_
  refine (exact_word8 os.status.toUInt8).bind ?_
  refine (exact_word32 os.bset_length).bind ?_
  have last := (exact_words os.bset_ids members).map fun ids =>
    ObjectService.mk os.id os.status.toUInt8.toInt8.toInt32.toUInt32 (Host.ofBytes os.host.bytes)
      os.port.toUInt32.toInt32 os.bset_length ids
  rw [signExtend_toUInt8 fits,ofBytes_bytes,Int32.toInt32_toUInt32] at last ⊢
  exact last

/-- The header words of `m`, and what reading each of them does to a map. -/
def headerWords (m : ObjectServiceMap) : List (List UInt8 × (ObjectServiceMap → ObjectServiceMap)) :=
  [(image32 m.version,fun s => { s with version := m.version }),
   (image32 m.bset_length,fun s => { s with bset_length := m.bset_length }),
   (image16 m.bset_replica_size,fun s => { s with bset_replica_size := m.bset_replica_size }),
   (image32 m.object_service_length,fun s => { s with object_service_length := m.object_service_length })]

theorem headerWords_image (m : ObjectServiceMap) : (headerWords m).flatMap Prod.fst = dumpHeader m := by
  simp [headerWords,dumpHeader]

def afterWords (start : ObjectServiceMap)
    (words : List (List UInt8 × (ObjectServiceMap → ObjectServiceMap))) : ObjectServiceMap :=
  words.foldl (fun s word => word.2 s) start

theorem header_turns (m start : ObjectServiceMap) :
    Turns parseHeader Prod.fst
      (fun done s => s = afterWords start done ∧ s.bset = .null ∧ s.object_service_list = []) (headerWords m) := by
  rintro done a rest s split ⟨rfl,null,empty⟩
  refine ⟨a.2 (afterWords start done),?_,by simp [afterWords],?_⟩ <;>
    rcases done with _ | ⟨w0,_ | ⟨w1,_ | ⟨w2,_ | ⟨w3,more⟩⟩⟩⟩ <;>
    simp [headerWords] at split
  · obtain ⟨rfl,_⟩ := split
    exact (exact_word32 m.version).map _
  · obtain ⟨_,rfl,_⟩ := split
    exact (exact_word32 m.bset_length).map _
  · obtain ⟨_,_,rfl,_⟩ := split
    exact (exact_word16 m.bset_replica_size).map _
  · obtain ⟨_,_,_,rfl,_⟩ := split
    exact (exact_word32 m.object_service_length).map _
  · obtain ⟨rfl,_⟩ := split
    exact ⟨null,empty⟩
  · obtain ⟨_,rfl,_⟩ := split
    exact ⟨null,empty⟩
  · obtain ⟨_,_,rfl,_⟩ := split
    exact ⟨null,empty⟩
  · obtain ⟨_,_,_,rfl,_⟩ := split
    exact ⟨null,empty⟩

/-- The bset array once the first `done.length` entries are stored. -/
def withBSets (m : ObjectServiceMap) (n : Nat) (done : List BSet) : ObjectServiceMap :=
  { m with bset := .live (done ++ List.replicate (n - done.length) ⟨0,[]⟩) }

theorem bset_turns (m : ObjectServiceMap) (cells : List BSet)
    (replicas : ∀ bset ∈ cells, bset.object_service_ids.length = m.bset_replica_size.toNat) :
    Turns parseBSet bsetImage (fun done s => s = withBSets m cells.length done) cells := by
  intro done bset rest s split reached
  subst reached
  refine ⟨_,?_,rfl⟩
  have exact := exact_readBSet (replicas bset (by simp [split]))
  have inside : done.length < (withBSets m cells.length done).bset.cells.length := by
    simp [withBSets,BSetArray.cells,split]
  have stored : storeBSet done.length (withBSets m cells.length done) bset =
      .ok (withBSets m cells.length (done ++ [bset])) := by
    refine bind_ok.mpr ⟨_,write_ok.mpr ⟨inside,rfl⟩,?_⟩
    have left : cells.length - done.length = rest.length + 1 := by
      simp [split]
    have fewer : cells.length - (done ++ [bset]).length = rest.length := by
      rw [List.length_append,List.length_singleton]
      omega
    simp only [withBSets,BSetArray.cells,left,fewer,List.replicate_succ]
    simp
  exact exact.lift stored

/-- `s` is `m` with exactly these object services listed and indexed. -/
def Added (m : ObjectServiceMap) (done : List ObjectService) (s : ObjectServiceMap) : Prop :=
  ∃ index, s = { m with os_map := some index, object_service_list := done } ∧
    Represents mparam index (refs done)

theorem service_turns (m : ObjectServiceMap) (services : List ObjectService)
    (members : ∀ os ∈ services, os.bset_ids.length = os.bset_length.toNat)
    (fits : ∀ os ∈ services, FitsInt8 os.status) (distinct : (services.map ObjectService.id).Nodup) :
    Turns parseObjectService objectServiceImage (Added m) services := by
  rintro done os rest s split ⟨index,rfl,stored⟩
  subst split
  have new : ∀ other ∈ done, other.id ≠ os.id := by
    intro other member
    rw [List.map_append,List.nodup_append] at distinct
    exact distinct.2.2 _ (List.mem_map_of_mem member) _ (by simp)
  obtain ⟨index',added,stored'⟩ := addObjectService_fresh
    (m := { m with os_map := some index, object_service_list := done }) ⟨index,rfl,stored⟩ new
  have exact := exact_readObjectService (members os (by simp)) (fits os (by simp))
  exact ⟨_,exact.lift added,index',rfl,stored'⟩

theorem freeBSets_ok (bset : m.bset = .null ∨ ∃ cells, m.bset = .live cells ∧ m.bset_length.toNat ≤ cells.length) :
    ∃ bset, freeBSets m = .ok bset := by
  rcases bset with null | ⟨cells,live,enough⟩
  · exact ⟨.null,by rw [freeBSets,null]⟩
  · refine ⟨.freed,?_⟩
    rw [freeBSets,live]
    exact bind_ok.mpr ⟨_,if_pos enough,rfl⟩

theorem freeServices_ok (index : m.object_service_list = [] ∨ m.os_map.isSome) :
    ∃ left, freeServices m = .ok left := by
  by_cases empty : m.object_service_list = []
  · exact ⟨m,if_pos empty⟩
  · obtain ⟨map,present⟩ := Option.isSome_iff_exists.mp (index.resolve_left empty)
    exact ⟨{ m with object_service_list := [], os_map := none },by rw [freeServices,if_neg empty,present]⟩

/-- Releasing a map under construction does not fault. -/
theorem errorOut_ok (bset : m.bset = .null ∨ ∃ cells, m.bset = .live cells ∧ m.bset_length.toNat ≤ cells.length)
    (index : m.object_service_list = [] ∨ m.os_map.isSome) : ∃ left, errorOut m = .ok (.rejected left) := by
  obtain ⟨bset,freed⟩ := freeBSets_ok bset
  obtain ⟨left,released⟩ := freeServices_ok (m := { m with bset }) index
  exact ⟨left,bind_ok.mpr ⟨left,bind_ok.mpr ⟨bset,freed,released⟩,rfl⟩⟩

theorem errorOut_rejects (m : ObjectServiceMap) : errorOut m ≠ .ok (.accepted m' consume_len) := by
  intro accepted
  obtain ⟨_,_,same⟩ := bind_ok.mp accepted
  cases same

theorem parseBody_eq (made : clusterMapInitOSMap s = .ok indexed) (count : n = indexed.bset_length.toNat)
    (run : loop parseBSet buf_len 0 n (withBSets indexed n []) c = .ok outcome) :
    parseBody s buf_len c = match outcome with
      | .short m => errorOut m
      | .finished m c => parseServices m buf_len c := by
  subst count
  have begun : { indexed with bset := .live (List.replicate indexed.bset_length.toNat ⟨0,[]⟩) } =
      withBSets indexed indexed.bset_length.toNat [] := by
    simp [withBSets]
  rw [parseBody,made]
  simp only [bind,Except.bind]
  rw [begun]
  simp only [run]
  cases outcome <;> rfl

section

variable {m : ObjectServiceMap} (valid : Carried m)

include valid

theorem services_whole {from_ s : ObjectServiceMap} (start : Added from_ [] s)
    (count : from_.object_service_length = m.object_service_length) :
    ∃ s', Added from_ m.object_service_list s' ∧ ∀ buf_len c back, Cursor.Within c buf_len →
      c.rest = m.object_service_list.flatMap objectServiceImage ++ back → parseServices s buf_len c =
        .ok (.accepted s' (c.len + (m.object_service_list.flatMap objectServiceImage).length)) := by
  have turns := service_turns from_ m.object_service_list valid.counts.members valid.statuses valid.distinct
  obtain ⟨s',added,run⟩ := loop_whole [] turns start
  have turnsCount : s.object_service_length.toNat = m.object_service_list.length := by
    obtain ⟨index,rfl,_⟩ := start
    rw [valid.counts.services,← count]
  refine ⟨s',added,?_⟩
  intro buf_len c back within split
  rw [parseServices,turnsCount]
  exact bind_ok.mpr ⟨_,run buf_len c back within split,rfl⟩

theorem services_short {from_ s : ObjectServiceMap} (start : Added from_ [] s)
    (bset : from_.bset = .null ∨ ∃ cells, from_.bset = .live cells ∧ from_.bset_length.toNat ≤ cells.length)
    (count : from_.object_service_length = m.object_service_length) (within : Cursor.Within c buf_len)
    (before : c.rest <+: m.object_service_list.flatMap objectServiceImage)
    (proper : c.rest ≠ m.object_service_list.flatMap objectServiceImage) :
    ∃ left, parseServices s buf_len c = .ok (.rejected left) := by
  have turns := service_turns from_ m.object_service_list valid.counts.members valid.statuses valid.distinct
  obtain ⟨reached,s',⟨index,rfl,_⟩,run⟩ := loop_short [] turns start within before proper
  have turnsCount : s.object_service_length.toNat = m.object_service_list.length := by
    obtain ⟨index,rfl,_⟩ := start
    rw [valid.counts.services,← count]
  obtain ⟨left,released⟩ := errorOut_ok (m := { from_ with os_map := some index, object_service_list := reached })
    bset (.inr rfl)
  refine ⟨left,?_⟩
  rw [parseServices,turnsCount]
  exact bind_ok.mpr ⟨_,run,released⟩

/-- `s` has read the header of `m` and nothing else. -/
structure Announced (m s : ObjectServiceMap) : Prop where
  bset_length : s.bset_length = m.bset_length
  bset_replica_size : s.bset_replica_size = m.bset_replica_size
  object_service_length : s.object_service_length = m.object_service_length
  object_service_list : s.object_service_list = []

/-- Behind whole bsets the parser goes on with the object services. -/
theorem bsets_whole {s : ObjectServiceMap} (announced : Announced m s)
    (made : clusterMapInitOSMap s = .ok { s with os_map := some index }) (within : Cursor.Within c buf_len)
    (split : c.rest = m.bset.cells.flatMap bsetImage ++ back) : parseBody s buf_len c =
      parseServices { s with os_map := some index, bset := .live m.bset.cells } buf_len
        ⟨back,c.len + (m.bset.cells.flatMap bsetImage).length⟩ := by
  let indexed : ObjectServiceMap := { s with os_map := some index }
  have count : m.bset.cells.length = indexed.bset_length.toNat := by
    rw [valid.counts.bsets,← announced.bset_length]
  have turns := bset_turns indexed m.bset.cells (by
    rw [show indexed.bset_replica_size = m.bset_replica_size from announced.bset_replica_size]
    exact valid.counts.replicas)
  obtain ⟨filled,rfl,run⟩ := loop_whole [] turns rfl
  have full : withBSets indexed m.bset.cells.length m.bset.cells =
      { s with os_map := some index, bset := .live m.bset.cells } := by
    simp [withBSets,indexed]
  rw [← full]
  exact parseBody_eq made count (run buf_len c back within split)

theorem body_whole {s : ObjectServiceMap} (announced : Announced m s) (nonempty : 1 ≤ m.object_service_length.toNat) :
    ∃ s', Added { s with bset := .live m.bset.cells } m.object_service_list s' ∧
      ∀ buf_len c back, Cursor.Within c buf_len → c.rest = m.bset.cells.flatMap bsetImage ++
          (m.object_service_list.flatMap objectServiceImage ++ back) →
        parseBody s buf_len c = .ok (.accepted s' (c.len + (m.bset.cells.flatMap bsetImage).length +
          (m.object_service_list.flatMap objectServiceImage).length)) := by
  obtain ⟨index,made,empty⟩ := initOSMap_ok (m := s)
    (by rw [announced.object_service_length]; exact nonempty)
    (by rw [announced.object_service_length]; exact valid.indexable)
  have start : Added { s with bset := .live m.bset.cells } []
      { s with os_map := some index, bset := .live m.bset.cells } := by
    refine ⟨index,?_,empty⟩
    rw [← announced.object_service_list]
  obtain ⟨s',added,rest⟩ := services_whole valid start announced.object_service_length
  refine ⟨s',added,?_⟩
  intro buf_len c back within split
  rw [bsets_whole valid announced made within split]
  exact rest buf_len _ back (within_advance within split) rfl

theorem body_short {s : ObjectServiceMap} (announced : Announced m s) (nonempty : 1 ≤ m.object_service_length.toNat)
    (within : Cursor.Within c buf_len)
    (before : c.rest <+: m.bset.cells.flatMap bsetImage ++ m.object_service_list.flatMap objectServiceImage)
    (proper : c.rest ≠ m.bset.cells.flatMap bsetImage ++ m.object_service_list.flatMap objectServiceImage) :
    ∃ left, parseBody s buf_len c = .ok (.rejected left) := by
  obtain ⟨index,made,empty⟩ := initOSMap_ok (m := s)
    (by rw [announced.object_service_length]; exact nonempty)
    (by rw [announced.object_service_length]; exact valid.indexable)
  let indexed : ObjectServiceMap := { s with os_map := some index }
  have count : m.bset.cells.length = indexed.bset_length.toNat := by
    rw [valid.counts.bsets,← announced.bset_length]
  have turns := bset_turns indexed m.bset.cells (by
    rw [show indexed.bset_replica_size = m.bset_replica_size from announced.bset_replica_size]
    exact valid.counts.replicas)
  have go : ∀ rest, c.rest = m.bset.cells.flatMap bsetImage ++ rest →
      rest <+: m.object_service_list.flatMap objectServiceImage →
      ∃ left, parseBody s buf_len c = .ok (.rejected left) := by
    intro rest split inside
    have other : rest ≠ m.object_service_list.flatMap objectServiceImage := by
      rintro rfl
      exact proper split
    have start : Added { s with bset := .live m.bset.cells } []
        { s with os_map := some index, bset := .live m.bset.cells } := by
      refine ⟨index,?_,empty⟩
      rw [← announced.object_service_list]
    obtain ⟨left,rejected⟩ := services_short valid start (.inr ⟨_,rfl,Nat.le_of_eq count.symm⟩)
      announced.object_service_length (within_advance within split) inside other
    exact ⟨left,(bsets_whole valid announced made within split).trans rejected⟩
  rcases Lists.prefix_append_cases before with inside | ⟨rest,split,inside⟩
  · by_cases whole : c.rest = m.bset.cells.flatMap bsetImage
    · exact go [] (by simpa using whole) List.nil_prefix
    · obtain ⟨reached,s',rfl,run⟩ := loop_short [] turns rfl within inside whole
      have large : indexed.bset_length.toNat ≤
          (reached ++ List.replicate (m.bset.cells.length - reached.length) (⟨0,[]⟩ : BSet)).length := by
        rw [List.length_append,List.length_replicate]
        omega
      obtain ⟨left,released⟩ := errorOut_ok (m := withBSets indexed m.bset.cells.length reached)
        (.inr ⟨_,rfl,large⟩) (.inr rfl)
      exact ⟨left,(parseBody_eq made count run).trans released⟩
  · exact go rest split inside

end

def emptied (start : ObjectServiceMap) : ObjectServiceMap :=
  { start with bset := .null, object_service_list := [], status := .normal }

theorem announced_header (m start : ObjectServiceMap) :
    Announced m (afterWords (emptied start) (headerWords m)) := ⟨rfl,rfl,rfl,rfl⟩

/-- Behind a whole header the parser goes on with what the header announces. -/
theorem header_whole (m start : ObjectServiceMap) (rest : List UInt8) :
    clusterMapParseObjectServiceMap start (dumpHeader m ++ rest) =
      parseBody (afterWords (emptied start) (headerWords m)) (dumpHeader m ++ rest).length
        ⟨rest,(dumpHeader m).length⟩ := by
  obtain ⟨s,⟨rfl,_⟩,run⟩ := loop_whole [] (header_turns m (emptied start)) ⟨rfl,rfl,rfl⟩
  have within : Cursor.Within (⟨dumpHeader m ++ rest,0⟩ : Cursor UInt8) (dumpHeader m ++ rest).length := by
    simp [Cursor.Within]
  have split : dumpHeader m ++ rest = (headerWords m).flatMap Prod.fst ++ rest := by
    rw [headerWords_image]
  have length : 0 + ((headerWords m).flatMap Prod.fst).length = (dumpHeader m).length := by
    rw [headerWords_image,Nat.zero_add]
  have read := run _ _ rest within split
  change loop parseHeader _ 0 4 (emptied start) _ =
    .ok (.finished (afterWords (emptied start) (headerWords m)) ⟨rest,0 + ((headerWords m).flatMap Prod.fst).length⟩) at read
  rw [length] at read
  change (loop parseHeader _ 0 4 (emptied start) _ >>= _) = _
  rw [read]
  rfl

theorem mapImage_split (m : ObjectServiceMap) (t : List UInt8) : mapImage m ++ t =
    dumpHeader m ++ (m.bset.cells.flatMap bsetImage ++ (m.object_service_list.flatMap objectServiceImage ++ t)) := by
  simp only [mapImage,List.append_assoc]

theorem parse_whole (valid : Carried m) (nonempty : 1 ≤ m.object_service_length.toNat) (start : ObjectServiceMap) :
    ∃ s', Added { afterWords (emptied start) (headerWords m) with bset := .live m.bset.cells }
        m.object_service_list s' ∧ ∀ t, clusterMapParseObjectServiceMap start (mapImage m ++ t) =
          .ok (.accepted s' (mapImage m).length) := by
  obtain ⟨s',added,rest⟩ := body_whole valid (announced_header m start) nonempty
  refine ⟨s',added,?_⟩
  intro t
  have length : (mapImage m).length = (dumpHeader m).length + (m.bset.cells.flatMap bsetImage).length +
      (m.object_service_list.flatMap objectServiceImage).length := by
    rw [mapImage,List.length_append,List.length_append]
  rw [mapImage_split,header_whole,length]
  exact rest _ _ t List.length_append.symm rfl

theorem parse_short (valid : Carried m) (nonempty : 1 ≤ m.object_service_length.toNat) (start : ObjectServiceMap)
    (before : p <+: mapImage m) (proper : p ≠ mapImage m) : ∃ left, clusterMapParseObjectServiceMap start p = .ok (.rejected left) := by
  have turns := header_turns m (emptied start)
  have within : Cursor.Within (⟨p,0⟩ : Cursor UInt8) p.length := by
    simp [Cursor.Within]
  have parts : mapImage m = (headerWords m).flatMap Prod.fst ++ (m.bset.cells.flatMap bsetImage ++
      m.object_service_list.flatMap objectServiceImage) := by
    rw [headerWords_image,mapImage]
    simp only [List.append_assoc]
  have go : ∀ rest, p = (headerWords m).flatMap Prod.fst ++ rest →
      rest <+: m.bset.cells.flatMap bsetImage ++ m.object_service_list.flatMap objectServiceImage →
      ∃ left, clusterMapParseObjectServiceMap start p = .ok (.rejected left) := by
    intro rest split inside
    have other : rest ≠ m.bset.cells.flatMap bsetImage ++ m.object_service_list.flatMap objectServiceImage := by
      rintro rfl
      exact proper (split.trans parts.symm)
    obtain ⟨s,⟨rfl,_⟩,whole⟩ := loop_whole [] turns ⟨rfl,rfl,rfl⟩
    have run := whole _ _ rest within split
    obtain ⟨left,rejected⟩ := body_short valid (announced_header m start) nonempty
      (within_advance within split) inside other
    exact ⟨left,bind_ok.mpr ⟨_,run,rejected⟩⟩
  rw [parts] at before
  rcases Lists.prefix_append_cases before with inside | ⟨rest,split,inside⟩
  · by_cases whole : p = (headerWords m).flatMap Prod.fst
    · exact go [] (by simpa using whole) List.nil_prefix
    · obtain ⟨reached,s',⟨_,null,empty⟩,run⟩ := loop_short [] turns ⟨rfl,rfl,rfl⟩ within inside whole
      obtain ⟨left,released⟩ := errorOut_ok (.inl null) (.inl empty)
      exact ⟨left,bind_ok.mpr ⟨_,run,released⟩⟩
  · exact go rest split inside

/-- Dump and parse are inverse on encodable maps, whatever follows the dump; the index
finds every object service again, and a dump cut short is rejected. -/
theorem dump_parse_round_trip (m start : ObjectServiceMap) (valid : Encodable m) (t : List UInt8) :
    ∃ buf parsed,
      clusterMapDumpObjectServiceMap m (clusterMapDumpObjectServiceMapLength m) = .ok buf ∧
      clusterMapParseObjectServiceMap start (buf ++ t) =
        .ok (.accepted parsed (clusterMapDumpObjectServiceMapLength m).toNat) ∧
      parsed.version = m.version ∧ parsed.bset_replica_size = m.bset_replica_size ∧
      parsed.bset_length = m.bset_length ∧ parsed.bset = .live m.bset.cells ∧
      parsed.object_service_length = m.object_service_length ∧
      parsed.object_service_list = m.object_service_list ∧
      (∀ os ∈ m.object_service_list, clusterMapGetObjectService parsed os.id = .ok (some os)) ∧
      ∀ p, p <+: buf → p ≠ buf → ∃ left, clusterMapParseObjectServiceMap start p = .ok (.rejected left) := by
  obtain ⟨parsed,added,parses⟩ := parse_whole valid.carried valid.nonempty start
  have accepted := parses t
  have consumed : (mapImage m).length = (clusterMapDumpObjectServiceMapLength m).toNat := by
    rw [dumpLength_toNat valid.counts valid.small,mapImage_length valid.counts]
  rw [consumed] at accepted
  refine ⟨mapImage m,parsed,dump_ok valid.counts valid.small,accepted,?_⟩
  obtain ⟨index,rfl,stored⟩ := added
  refine ⟨rfl,rfl,rfl,rfl,rfl,rfl,?_,?_⟩
  · intro os member
    exact get_listed ⟨index,rfl,stored⟩ valid.distinct member
  · intro p before proper
    exact parse_short valid.carried valid.nonempty start before proper

def sampleObjectService : ObjectService :=
  ⟨9,4294967295,⟨List.replicate 128 1,rfl⟩,10101,1,[0]⟩

/-- One bset with two replicas on two object services, the second one with status -1. -/
def sampleMap : ObjectServiceMap where
  version := 7
  status := .normal
  object_service_length := 2
  object_service_list := [⟨5,0,⟨List.replicate 128 0,rfl⟩,10100,1,[0]⟩,sampleObjectService]
  os_map := none
  bset_length := 1
  bset := .live [⟨0,[5,9]⟩]
  bset_replica_size := 2
  reference := 1

theorem sampleMap_encodable : Encodable sampleMap where
  counts := ⟨by decide,by decide,by decide,by decide⟩
  nonempty := by decide
  indexable := by decide
  statuses := by decide
  distinct := by decide
  small := by decide

theorem dump_parse_round_trip_sample : ∃ buf parsed,
    clusterMapDumpObjectServiceMap sampleMap (clusterMapDumpObjectServiceMapLength sampleMap) = .ok buf ∧
    clusterMapParseObjectServiceMap sampleMap (buf ++ [255]) =
      .ok (.accepted parsed (clusterMapDumpObjectServiceMapLength sampleMap).toNat) ∧
    parsed.object_service_list = sampleMap.object_service_list ∧
    clusterMapGetObjectService parsed sampleObjectService.id = .ok (some sampleObjectService) := by
  have member : sampleObjectService ∈ sampleMap.object_service_list := by simp [sampleMap]
  obtain ⟨buf,parsed,dumped,accepted,_,_,_,_,_,listed,found,_⟩ :=
    dump_parse_round_trip sampleMap sampleMap sampleMap_encodable [255]
  exact ⟨buf,parsed,dumped,accepted,listed,found sampleObjectService member⟩

end Muti.ClusterMap
