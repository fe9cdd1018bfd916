import Muti.InitFile
import Muti.ObjectServiceJoin

/-! How the monitor answers the keep-alives of object services: its state tables and the
statuses they leave in the cluster map, over any sequence of requests. -/
namespace Muti.ClusterKeepAlive

open Muti.Memory Muti.Bytes Muti.Resource Muti.ClusterMap Muti.Cluster Muti.InitFile
open Muti.ObjectServiceJoin (ObjectServiceStatus)

def word : ObjectServiceStatus → UInt32
  | .online => 0
  | .syncing => 1
  | .offline => 2
  | .readyToJoin => 3
  | .error => 4

structure StatMap where
  input : ObjectServiceStatus
  output : ObjectServiceStatus
  deriving DecidableEq, Repr

def noneStatMap : List StatMap :=
  [⟨.online,.error⟩,⟨.syncing,.error⟩,⟨.offline,.error⟩,⟨.readyToJoin,.error⟩,⟨.error,.error⟩]

def onlineStatMap : List StatMap :=
  [⟨.online,.online⟩,⟨.syncing,.syncing⟩,⟨.offline,.offline⟩,⟨.readyToJoin,.syncing⟩,⟨.error,.error⟩]

def syncingStatMap : List StatMap :=
  [⟨.online,.online⟩,⟨.syncing,.syncing⟩,⟨.offline,.offline⟩,⟨.readyToJoin,.syncing⟩,⟨.error,.error⟩]

def offlineStatMap : List StatMap :=
  [⟨.online,.online⟩,⟨.syncing,.syncing⟩,⟨.offline,.offline⟩,⟨.readyToJoin,.syncing⟩,⟨.error,.error⟩]

def readyToJoinStatMap : List StatMap :=
  [⟨.online,.error⟩,⟨.syncing,.error⟩,⟨.offline,.error⟩,⟨.readyToJoin,.error⟩,⟨.error,.error⟩]

def errorStatMap : List StatMap :=
  [⟨.online,.error⟩,⟨.syncing,.error⟩,⟨.offline,.error⟩,⟨.readyToJoin,.syncing⟩,⟨.error,.error⟩]

def monStatMap : List (List StatMap) :=
  [onlineStatMap,syncingStatMap,offlineStatMap,readyToJoinStatMap,errorStatMap]

/-- The bytes of a request, seen through its struct. -/
def keepAliveAt (bytes : List UInt8) : ClusterKeepAliveObjectServiceRequest :=
  ⟨requestAt bytes,field32 8 bytes,field32 12 bytes,field32 16 bytes⟩

/-- The response and the map afterwards. -/
def clusterActionKeepAliveObjectService (m : ObjectServiceMap) (req : ReceivedRequest) :
    Except Fault (ClusterKeepAliveObjectServiceResponse × ObjectServiceMap) :=
  let request := keepAliveAt req.bytes
  let respond (status : UInt32) : ClusterKeepAliveObjectServiceResponse := ⟨⟨0,request.super.sequence⟩,m.version,status⟩
  match m.os_map with
  | none => .error .nullPointer
  | some index => do
    match ← MapHashLinked.get mparam index request.os_id with
    | none =>
      let row ← read noneStatMap request.status.toNat
      .ok (respond (word row.output),m)
    | some ref =>
      let os ← read m.object_service_list ref.position
      let stat_map ← read monStatMap os.status.toNat
      let row ← read stat_map request.status.toNat
      let status := word row.output
      .ok (respond status,{ m with object_service_list := m.object_service_list.set ref.position { os with status } })

structure KeepAlive where
  received : ReceivedRequest
  decoded : ∃ buffer consume_len,
    clusterRequestDecoderKeepAliveObjectService buffer = .ok (.message received consume_len)

def KeepAlive.os_id (request : KeepAlive) : UInt32 := (keepAliveAt request.received.bytes).os_id

def KeepAlive.status (request : KeepAlive) : UInt32 := (keepAliveAt request.received.bytes).status

/-- The table in the comment, from the monitor's status, if any, and the reported one. -/
def documented (mon_stat : Option ObjectServiceStatus) (reported : ObjectServiceStatus) : ObjectServiceStatus :=
  match mon_stat with
  | none => .error
  | some .readyToJoin => .error
  | some .error => if reported = .readyToJoin then .syncing else .error
  | some _ => if reported = .readyToJoin then .syncing else reported

/-- The answer is the documented one for the status the map has for the id. -/
def DocumentedAnswer (m : ObjectServiceMap) (os_id status answer : UInt32) : Prop :=
  ∃ mon_stat reported, status = word reported ∧ answer = word (documented mon_stat reported) ∧
    match mon_stat with
    | none => ∀ os ∈ m.object_service_list, os.id ≠ os_id
    | some stored => ∃ os ∈ m.object_service_list, os.id = os_id ∧ os.status = word stored

def withStatus (m : ObjectServiceMap) (os_id status : UInt32) : ObjectServiceMap :=
  { m with object_service_list := m.object_service_list.map fun os => if os.id = os_id then { os with status } else os }

/-- Each request is answered as documented, changes the status it addresses to the answer,
and nothing else. -/
def TableFollowed (m : ObjectServiceMap) : List KeepAlive → Prop
  | [] => True
  | request :: requests => ∃ resp m', clusterActionKeepAliveObjectService m request.received = .ok (resp,m') ∧
    DocumentedAnswer m request.os_id request.status resp.status ∧ resp.version = m.version ∧
    m' = withStatus m request.os_id resp.status ∧ TableFollowed m' requests

inductive Installed : ObjectServiceMap → Prop
  | built (done : cmmParseClusterMap heap clearedMap root = .ok (true,m)) : Installed { m with reference := 1 }
  | parsed (accepted : clusterMapParseObjectServiceMap clearedMap buffer = .ok (.accepted m consume_len)) :
    Installed { m with reference := 1 }

def HasEntry (m : ObjectServiceMap) (request : KeepAlive) : Prop :=
  request.status.toNat < 5 ∧ ∀ os ∈ m.object_service_list, os.id = request.os_id → os.status.toNat < 5

def Covered (m : ObjectServiceMap) (requests : List KeepAlive) : Prop :=
  requests = [] ∨ 1 ≤ m.object_service_length.toNat ∧ ∀ request ∈ requests, HasEntry m request

theorem KeepAlive.length (request : KeepAlive) : request.received.bytes.length = 20 := by
  obtain ⟨buffer,consume_len,decoded⟩ := request.decoded
  rw [clusterRequestDecoderKeepAliveObjectService,fixedDecoder] at decoded
  split at decoded
  case isTrue => cases decoded
  case isFalse whole =>
    obtain ⟨received,-⟩ := Decoded.message.inj (Except.ok.inj decoded)
    rw [← received,receive,List.length_take]
    exact Nat.min_eq_left (Nat.le_of_not_lt whole)

theorem Installed.indexes (installed : Installed m) : indexAfter m := by
  cases installed with
  | built done => exact indexAfter_congr (parse_indexes done) rfl rfl rfl
  | parsed accepted => exact indexAfter_congr (accepted_indexes accepted) rfl rfl rfl

theorem word_lt (status : ObjectServiceStatus) : (word status).toNat < 5 := by
  cases status <;> decide

/-- A word below five is a status. -/
theorem exists_word (low : status.toNat < 5) : ∃ reported, status = word reported := by
  have cases : status.toNat = 0 ∨ status.toNat = 1 ∨ status.toNat = 2 ∨ status.toNat = 3 ∨ status.toNat = 4 := by omega
  rcases cases with value | value | value | value | value
  · exact ⟨.online,UInt32.toNat_inj.mp value⟩
  · exact ⟨.syncing,UInt32.toNat_inj.mp value⟩
  · exact ⟨.offline,UInt32.toNat_inj.mp value⟩
  · exact ⟨.readyToJoin,UInt32.toNat_inj.mp value⟩
  · exact ⟨.error,UInt32.toNat_inj.mp value⟩

/-- The tables hold what the comment documents. -/
theorem noneStatMap_documented (reported : ObjectServiceStatus) :
    read noneStatMap (word reported).toNat = .ok ⟨reported,documented none reported⟩ := by
  cases reported <;> rfl

theorem monStatMap_documented (stored reported : ObjectServiceStatus) : ∃ stat_map,
    read monStatMap (word stored).toNat = .ok stat_map ∧
      read stat_map (word reported).toNat = .ok ⟨reported,documented (some stored) reported⟩ := by
  cases stored <;> exact ⟨_,rfl,by cases reported <;> rfl⟩

/-- The object service at position `i` is the only one with its id. -/
theorem set_status (distinct : (m.object_service_list.map ObjectService.id).Nodup)
    (here : m.object_service_list[i]? = some os) (status : UInt32) :
    { m with object_service_list := m.object_service_list.set i { os with status } } = withStatus m os.id status := by
  have inside := (List.getElem?_eq_some_iff.mp here).1
  rw [withStatus]
  congr 1
  apply List.ext_getElem?
  intro j
  rw [List.getElem?_map]
  by_cases same : i = j
  · subst same
    rw [List.getElem?_set_self inside,here,Option.map_some,if_pos rfl]
  · rw [List.getElem?_set_ne same]
    cases there : m.object_service_list[j]? with
    | none => rfl
    | some other =>
      have apart : other.id ≠ os.id := by
        intro equal
        apply same
        refine (List.getElem?_inj (by simpa using inside) distinct).mp ?_
        rw [List.getElem?_map,List.getElem?_map,here,there]
        exact congrArg some equal.symm
      rw [Option.map_some,if_neg apart]

theorem withStatus_unlisted (status : UInt32) (unlisted : ∀ os ∈ m.object_service_list, os.id ≠ os_id) :
    withStatus m os_id status = m := by
  have same : (m.object_service_list.map fun os => if os.id = os_id then { os with status } else os) =
      m.object_service_list.map id :=
    List.map_congr_left fun os member => if_neg (unlisted os member)
  rw [withStatus,same,List.map_id]

theorem withStatus_ids (m : ObjectServiceMap) (os_id status : UInt32) :
    (withStatus m os_id status).object_service_list.map ObjectService.id = m.object_service_list.map ObjectService.id := by
  rw [withStatus,List.map_map]
  apply List.map_congr_left
  intro os _
  change (if os.id = os_id then _ else os).id = os.id
  split <;> rfl

theorem keepAlive_covered (addressable : Addressable m) (request : KeepAlive) (covered : HasEntry m request) :
    ∃ resp m', clusterActionKeepAliveObjectService m request.received = .ok (resp,m') ∧
      DocumentedAnswer m request.os_id request.status resp.status ∧ resp.version = m.version ∧
      m' = withStatus m request.os_id resp.status := by
  obtain ⟨low,stored⟩ := covered
  obtain ⟨reported,said⟩ := exists_word low
  obtain ⟨index,present,found⟩ := addressable.get_cases request.os_id
  rw [clusterActionKeepAliveObjectService,present]
  rcases found with ⟨missing,unlisted⟩ | ⟨i,os,found,here,named⟩
  · have row : read noneStatMap request.status.toNat = .ok ⟨reported,documented none reported⟩ := by
      rw [said]
      exact noneStatMap_documented reported
    refine ⟨_,m,bind_ok.mpr ⟨_,missing,bind_ok.mpr ⟨_,row,rfl⟩⟩,⟨none,reported,said,rfl,unlisted⟩,rfl,?_⟩
    exact (withStatus_unlisted _ unlisted).symm
  · have member := List.mem_of_getElem? here
    obtain ⟨mon_stat,kept⟩ := exists_word (stored os member named)
    obtain ⟨stat_map,table,row⟩ := monStatMap_documented mon_stat reported
    rw [← said] at row
    rw [← kept] at table
    refine ⟨_,_,bind_ok.mpr ⟨_,found,bind_ok.mpr ⟨os,read_ok.mpr here,bind_ok.mpr ⟨_,table,bind_ok.mpr ⟨_,row,rfl⟩⟩⟩⟩,
      ⟨some mon_stat,reported,said,rfl,os,member,named,kept⟩,rfl,?_⟩
    have changed := set_status addressable.distinct here (word (documented (some mon_stat) reported))
    rw [present] at changed
    rw [← named]
    exact changed

theorem monStatMap_rows (table : read monStatMap i = .ok stat_map) : i < 5 ∧ stat_map.length = 5 := by
  have here := read_ok.mp table
  refine ⟨(List.getElem?_eq_some_iff.mp here).1,?_⟩
  have all : ∀ stat_map ∈ monStatMap, stat_map.length = 5 := by decide
  exact all stat_map (List.mem_of_getElem? here)

theorem keepAlive_answered (addressable : Addressable m) (request : KeepAlive)
    (done : clusterActionKeepAliveObjectService m request.received = .ok result) : HasEntry m request := by
  obtain ⟨index,present,found⟩ := addressable.get_cases request.os_id
  rw [clusterActionKeepAliveObjectService,present] at done
  obtain ⟨ref,looked,done⟩ := bind_ok.mp done
  rcases found with ⟨missing,unlisted⟩ | ⟨i,os,found,here,named⟩
  · cases missing.symm.trans looked
    obtain ⟨row,read_row,-⟩ := bind_ok.mp done
    have low := (List.getElem?_eq_some_iff.mp (read_ok.mp read_row)).1
    exact ⟨low,fun os member same => absurd same (unlisted os member)⟩
  · cases found.symm.trans looked
    obtain ⟨os',located,done⟩ := bind_ok.mp done
    obtain ⟨stat_map,table,done⟩ := bind_ok.mp done
    obtain ⟨row,read_row,-⟩ := bind_ok.mp done
    cases here.symm.trans (read_ok.mp located)
    obtain ⟨kept,width⟩ := monStatMap_rows table
    have low := (List.getElem?_eq_some_iff.mp (read_ok.mp read_row)).1
    rw [width] at low
    refine ⟨low,?_⟩
    intro other member same
    obtain ⟨j,there⟩ := List.mem_iff_getElem?.mp member
    have position : i = j := by
      refine (List.getElem?_inj (by simpa using (List.getElem?_eq_some_iff.mp here).1) addressable.distinct).mp ?_
      rw [List.getElem?_map,List.getElem?_map,here,there,Option.map_some,Option.map_some,named,same]
    cases here.symm.trans (position ▸ there)
    exact kept

/-- An answered request leaves one of the five statuses where it was addressed. -/
theorem hasEntry_withStatus (covered : HasEntry m request) (answer : ObjectServiceStatus) (other : KeepAlive) :
    HasEntry (withStatus m request.os_id (word answer)) other ↔ HasEntry m other := by
  refine and_congr_right fun _ => ⟨fun after os member named => ?_,fun before os member named => ?_⟩
  · by_cases same : os.id = request.os_id
    · exact covered.2 os member same
    · exact after os (List.mem_map.mpr ⟨os,member,if_neg same⟩) named
  · obtain ⟨old,listed,rfl⟩ := List.mem_map.mp member
    by_cases same : old.id = request.os_id
    · rw [if_pos same]
      exact word_lt answer
    · rw [if_neg same] at named ⊢
      exact before old listed named

theorem run_followed (requests : List KeepAlive) (addressable : Addressable m) :
    TableFollowed m requests ↔ ∀ request ∈ requests, HasEntry m request := by
  induction requests generalizing m with
  | nil => exact iff_of_true trivial (by simp)
  | cons request requests ih =>
    constructor
    · rintro ⟨resp,m',done,⟨mon_stat,reported,-,answer,-⟩,-,rfl,later⟩
      have covered := keepAlive_answered addressable request done
      have rest := (ih (addressable.congr (by rfl) (withStatus_ids ..))).mp later
      rw [answer] at rest
      refine List.forall_mem_cons.mpr ⟨covered,?_⟩
      exact fun other member => (hasEntry_withStatus covered _ other).mp (rest other member)
    · intro all
      obtain ⟨covered,rest⟩ := List.forall_mem_cons.mp all
      obtain ⟨resp,m',done,answered,version,rfl⟩ := keepAlive_covered addressable request covered
      refine ⟨resp,_,done,answered,version,rfl,(ih (addressable.congr (by rfl) (withStatus_ids ..))).mpr ?_⟩
      obtain ⟨mon_stat,reported,-,answer,-⟩ := answered
      rw [answer]
      exact fun other member => (hasEntry_withStatus covered _ other).mpr (rest other member)

/-- A map without object services has no slot to look into. -/
theorem keepAlive_empty (empty : m.os_map = some ⟨0,[],0⟩) (req : ReceivedRequest) :
    clusterActionKeepAliveObjectService m req = .error .outOfBounds := by
  rw [clusterActionKeepAliveObjectService,empty]
  rfl

/-- Keep-alives are handled as documented, all along a sequence, exactly when the tables have
an entry for each of them in the map the monitor started with. -/
theorem table_followed_iff (requests : List KeepAlive) (installed : Installed m) :
    TableFollowed m requests ↔ Covered m requests := by
  have indexed := installed.indexes
  rw [indexAfter] at indexed
  rw [Covered]
  split at indexed
  case isTrue nonempty =>
    rw [run_followed requests indexed]
    constructor
    · exact fun all => .inr ⟨nonempty,all⟩
    · rintro (rfl | ⟨-,all⟩)
      · simp
      · exact all
  case isFalse none =>
    cases requests with
    | nil => exact iff_of_true trivial (.inl rfl)
    | cons request requests =>
      apply iff_of_false
      · rintro ⟨resp,m',done,-⟩
        rw [keepAlive_empty indexed] at done
        cases done
      · rintro (nothing | ⟨nonempty,-⟩)
        · cases nothing
        · exact none nonempty

def singleBytes (status : UInt8) : List UInt8 :=
  [0,0,0,0,0,0,0,0,0,0,1,0,0,0] ++ [7,0,0,0] ++ List.replicate 128 0 ++ [0,0,0,0] ++ [status] ++ [0,0,0,0]

def singleMap : ObjectServiceMap where
  version := 0
  status := .normal
  object_service_length := 1
  object_service_list := [⟨7,2,Host.ofBytes [],0,0,[]⟩]
  os_map := some ⟨2,[[],[⟨0,7⟩]],1⟩
  bset_length := 0
  bset := .live []
  bset_replica_size := 0
  reference := 1

set_option maxRecDepth 4096 in
theorem installed_single : Installed singleMap := by
  have accepted : clusterMapParseObjectServiceMap clearedMap (singleBytes 2) =
      .ok (.accepted { singleMap with reference := 0 } 155) := by rfl
  exact .parsed accepted

def reporting (status : UInt8) : KeepAlive :=
  ⟨⟨[0,0,4,0,1,0,0,0,0,0,0,0,7,0,0,0,status,0,0,0],none⟩,[0,0,4,0,1,0,0,0,0,0,0,0,7,0,0,0,status,0,0,0],20,rfl⟩

theorem table_followed_joining : TableFollowed singleMap [reporting 3,reporting 0] := by
  apply (table_followed_iff [reporting 3,reporting 0] installed_single).mpr
  refine .inr ⟨by decide,?_⟩
  intro request member
  simp only [List.mem_cons,List.not_mem_nil,or_false] at member
  rcases member with rfl | rfl <;> exact ⟨by decide,by decide⟩

theorem not_followed_wild : Installed singleMap ∧
    clusterActionKeepAliveObjectService singleMap (reporting 5).received = .error .outOfBounds ∧
      ¬TableFollowed singleMap [reporting 5] := by
  have beyond : clusterActionKeepAliveObjectService singleMap (reporting 5).received = .error .outOfBounds := by rfl
  refine ⟨installed_single,beyond,?_⟩
  rintro ⟨resp,m',done,-⟩
  rw [beyond] at done
  cases done

end Muti.ClusterKeepAlive
