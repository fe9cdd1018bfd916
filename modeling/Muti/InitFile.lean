import Muti.Cluster
import Muti.ClusterMapTotality
import Muti.Json
import Muti.ClusterMapAccepted
import Muti.Placement

/-! The init file of the monitor, as the tree `cJSON_Parse` makes of it. Every field goes
through `sscanf` or `strcpy` as a string. A field that is missing or does not begin with a
number makes the parser return false; a field of another type, a host that is too long, and
counts the placement does not work out for stop the process. -/
namespace Muti.InitFile

open Muti.Memory Muti.CJson Muti.ClusterMap Muti.ClusterMapMon Muti.Cluster

/-- What memory held before: the host of the `i`-th object service, and the blocks of words. -/
structure Heap where
  hosts : Nat → Host
  words : Nat → Nat → UInt32

def bsetLengthName : CString := ⟨['b','s','e','t','_','l','e','n','g','t','h'].map Char.toUInt8,by decide⟩

def bsetReplicaSizeName : CString :=
  ⟨['b','s','e','t','_','r','e','p','l','i','c','a','_','s','i','z','e'].map Char.toUInt8,by decide⟩

def objectServicesName : CString :=
  ⟨['o','b','j','e','c','t','_','s','e','r','v','i','c','e','s'].map Char.toUInt8,by decide⟩

def idName : CString := ⟨['i','d'].map Char.toUInt8,by decide⟩

def hostName : CString := ⟨['h','o','s','t'].map Char.toUInt8,by decide⟩

def portName : CString := ⟨['p','o','r','t'].map Char.toUInt8,by decide⟩

/-- `ObjectServiceStatus_Offline`. -/
def offline : UInt32 := 2

def scanItem (item : Option CJson) : Except Fault (Option UInt64) :=
  match item with
  | none => .ok none
  | some item => sscanf item.valuestring

def putObjectService (m : ObjectServiceMap) (os : ObjectService) : Except Fault (Bool × ObjectServiceMap) :=
  match m.os_map with
  | none => .error .nullPointer
  | some index => do
    let (v,index) ← MapHashLinked.put mparam index os.id ⟨m.object_service_list.length,os.id⟩
    if v = none then
      .ok (true,{ m with os_map := some index, object_service_list := m.object_service_list ++ [os] })
    else .ok (false,{ m with os_map := some index })

def parseObjectService (host : Host) (m : ObjectServiceMap) (js_os : Option CJson) :
    Except Fault (Bool × ObjectServiceMap) :=
  match getObjectItem js_os idName, getObjectItem js_os hostName, getObjectItem js_os portName with
  | some js_id, some js_host, some js_port => do
    match ← sscanf js_id.valuestring with
    | none => .ok (false,m)
    | some os_id => do
      let bytes ← strcpy host.bytes js_host.valuestring
      match ← sscanf js_port.valuestring with
      | none => .ok (false,m)
      | some port =>
        putObjectService m ⟨os_id.toUInt32,offline,Host.ofBytes bytes,port.toUInt32.toInt32,0,[]⟩
  | _, _, _ => .ok (false,m)

def parseObjectServices (heap : Heap) (js_object_services : Option CJson) : Nat → Nat → ObjectServiceMap →
    Except Fault (Bool × ObjectServiceMap)
  | 0, _, m => .ok (true,m)
  | n + 1, i, m => do
    let (rc,m) ← parseObjectService (heap.hosts i) m (getArrayItem js_object_services (Int32.ofNat i))
    if rc then parseObjectServices heap js_object_services n (i + 1) m
    else .ok (false,m)

/-- From the array size on. `out1` empties the list and destroys the index. -/
def parseServicesItem (heap : Heap) (m : ObjectServiceMap) (js_object_services : Option CJson) :
    Except Fault (Bool × ObjectServiceMap) := do
  let m := { m with
    object_service_length := (getArraySize js_object_services).toUInt32
    status := .updating
    version := 0 }
  let m ← clusterMapInitOSMap m
  let (rc,m) ← parseObjectServices heap js_object_services m.object_service_length.toNat 0 m
  if rc then
    let m ← cmmFillBSets heap.words m
    .ok (true,m)
  else .ok (false,{ m with object_service_list := [], os_map := none })

def cmmParseClusterMap (heap : Heap) (m : ObjectServiceMap) (root : Option CJson) :
    Except Fault (Bool × ObjectServiceMap) :=
  match root with
  | none => .ok (false,m)
  | some root => do
    match ← scanItem (getObjectItem (some root) bsetLengthName) with
    | none => .ok (false,m)
    | some bset_length =>
      let m := { m with bset_length := bset_length.toUInt32 }
      match ← scanItem (getObjectItem (some root) bsetReplicaSizeName) with
      | none => .ok (false,m)
      | some bset_replica_size =>
        let m := { m with bset_replica_size := bset_replica_size.toUInt16 }
        parseServicesItem heap m (getObjectItem (some root) objectServicesName)

def Reads (item : Option CJson) (value : UInt64) : Prop :=
  ∃ s, item = some (.string s) ∧ scanUnsigned s.bytes = some value

def Unreadable (item : Option CJson) : Prop := ∃ s, item = some (.string s) ∧ scanUnsigned s.bytes = none

/-- A string that fits the host field, its terminating zero included. -/
def FitsHost (item : Option CJson) : Prop := ∃ s, item = some (.string s) ∧ s.bytes.length < 128

structure Sound (js_os : CJson) (os_id : UInt32) : Prop where
  id : ∃ value, Reads (getObjectItem (some js_os) idName) value ∧ value.toUInt32 = os_id
  host : FitsHost (getObjectItem (some js_os) hostName)
  port : ∃ value, Reads (getObjectItem (some js_os) portName) value

/-- Why the parser returns false at an object service, the fields being read in this order. -/
inductive Refused (known : List UInt32) (js_os : CJson) : Prop
  | missing (absent : getObjectItem (some js_os) idName = none ∨ getObjectItem (some js_os) hostName = none ∨
      getObjectItem (some js_os) portName = none)
  | id (host : getObjectItem (some js_os) hostName ≠ none) (port : getObjectItem (some js_os) portName ≠ none)
      (unreadable : Unreadable (getObjectItem (some js_os) idName))
  | port (id : Reads (getObjectItem (some js_os) idName) value) (host : FitsHost (getObjectItem (some js_os) hostName))
      (unreadable : Unreadable (getObjectItem (some js_os) portName))
  | repeated (sound : Sound js_os os_id) (old : os_id ∈ known)

/-- All are sound and have new ids. -/
def Accepted (known : List UInt32) : List CJson → Prop
  | [] => True
  | js_os :: rest => ∃ os_id, Sound js_os os_id ∧ os_id ∉ known ∧ Accepted (known ++ [os_id]) rest

/-- So are those in front of the first that is refused. -/
def Rejected (known : List UInt32) : List CJson → Prop
  | [] => False
  | js_os :: rest => Refused known js_os ∨
    ∃ os_id, Sound js_os os_id ∧ os_id ∉ known ∧ Rejected (known ++ [os_id]) rest

def servicesCount (js_object_services : Option CJson) : UInt32 := (getArraySize js_object_services).toUInt32

def servicesItems (js_object_services : Option CJson) : List CJson :=
  match js_object_services with
  | none => []
  | some services => (services.child.map Prod.snd).take (servicesCount js_object_services).toNat

/-- An array that is refused at one object service, or accepted with counts that can be placed. -/
def HandledServices (bset_length : UInt32) (bset_replica_size : UInt16) (js_object_services : Option CJson) : Prop :=
  (servicesCount js_object_services).toNat ≤ 2 ^ 30 ∧
    (Rejected [] (servicesItems js_object_services) ∨ Accepted [] (servicesItems js_object_services) ∧
      Placeable bset_length bset_replica_size (servicesCount js_object_services))

def RefusedField (item : Option CJson) : Prop := item = none ∨ Unreadable item

/-- The documents the parser copes with. No document is one without fields. -/
def Handled (root : Option CJson) : Prop :=
  RefusedField (getObjectItem root bsetLengthName) ∨
    ∃ bset_length, Reads (getObjectItem root bsetLengthName) bset_length ∧
      (RefusedField (getObjectItem root bsetReplicaSizeName) ∨
        ∃ bset_replica_size, Reads (getObjectItem root bsetReplicaSizeName) bset_replica_size ∧
          HandledServices bset_length.toUInt32 bset_replica_size.toUInt16 (getObjectItem root objectServicesName))

/-- The parser returns: false with an empty list, or true with a map of distinct object
services that `cmmFillBSets` filled. -/
def Returned (heap : Heap) (result : Except Fault (Bool × ObjectServiceMap)) : Prop :=
  ∃ rc m, result = .ok (rc,m) ∧
    if rc then 1 ≤ m.object_service_length.toNat ∧ m.object_service_list.length = m.object_service_length.toNat ∧
      (m.object_service_list.map ObjectService.id).Nodup ∧ ∃ before, cmmFillBSets heap.words before = .ok m
    else m.object_service_list = []

theorem Reads.not_unreadable (reads : Reads item value) : ¬Unreadable item := by
  rintro ⟨s,here,none⟩
  obtain ⟨t,there,some⟩ := reads
  cases here.symm.trans there
  cases none.symm.trans some

theorem sscanf_cases (item : CJson) :
    (∃ value, Reads (some item) value ∧ sscanf item.valuestring = .ok (some value)) ∨
      Unreadable (some item) ∧ sscanf item.valuestring = .ok none ∨
      sscanf item.valuestring = .error .nullPointer ∧ ¬Unreadable (some item) ∧ ∀ value, ¬Reads (some item) value := by
  cases item with
  | string s =>
    cases scanned : scanUnsigned s.bytes with
    | none => exact .inr (.inl ⟨⟨s,rfl,scanned⟩,congrArg Except.ok scanned⟩)
    | some value => exact .inl ⟨value,⟨s,rfl,scanned⟩,congrArg Except.ok scanned⟩
  | _ =>
    refine .inr (.inr ⟨rfl,?_,?_⟩)
    · rintro ⟨s,here,-⟩
      cases here
    · rintro value ⟨s,here,-⟩
      cases here

theorem Reads.sscanf (reads : Reads (some item) value) : sscanf item.valuestring = .ok (some value) := by
  obtain ⟨s,here,scanned⟩ := reads
  cases here
  exact congrArg Except.ok scanned

theorem Unreadable.sscanf (unreadable : Unreadable (some item)) : CJson.sscanf item.valuestring = .ok none := by
  obtain ⟨s,here,scanned⟩ := unreadable
  cases here
  exact congrArg Except.ok scanned

theorem strcpy_cases (host : Host) (item : CJson) :
    FitsHost (some item) ∧ (∃ bytes, strcpy host.bytes item.valuestring = .ok bytes) ∨
      ¬FitsHost (some item) ∧ ∃ reason, strcpy host.bytes item.valuestring = .error reason := by
  cases item with
  | string s =>
    by_cases fits : s.bytes.length < 128
    · exact .inl ⟨⟨s,rfl,fits⟩,_,strcpy_ok s (by rwa [host.length])⟩
    · right
      constructor
      · rintro ⟨t,here,short⟩
        cases here
        exact fits short
      · refine ⟨.outOfBounds,?_⟩
        rw [valuestring,strcpy,if_pos (by rw [host.length]; omega)]
  | _ =>
    right
    constructor
    · rintro ⟨t,here,-⟩
      cases here
    · exact ⟨.nullPointer,rfl⟩

structure Listed (m0 : ObjectServiceMap) (ids : List UInt32) (m : ObjectServiceMap) : Prop where
  kept : m = { m0 with os_map := m.os_map, object_service_list := m.object_service_list }
  ids : m.object_service_list.map ObjectService.id = ids
  indexed : Indexed m
  offline : ∀ os ∈ m.object_service_list, os.status = offline

theorem putObjectService_new (listed : Listed m0 ids m) (new : os.id ∉ ids) (status : os.status = offline) :
    ∃ m', putObjectService m os = .ok (true,m') ∧ Listed m0 (ids ++ [os.id]) m' := by
  obtain ⟨kept,same,⟨index,present,stored⟩,states⟩ := listed
  have others : ∀ other ∈ m.object_service_list, other.id ≠ os.id := by
    intro other member same_id
    apply new
    rw [← same,← same_id]
    exact List.mem_map_of_mem member
  obtain ⟨index',added,stored'⟩ :=
    stored.put_fresh os.id ⟨m.object_service_list.length,os.id⟩ mparam_lawful rfl (refs_unlisted others)
  refine ⟨{ m with os_map := some index', object_service_list := m.object_service_list ++ [os] },?_,?_,?_,?_,?_⟩
  · rw [putObjectService,present]
    exact bind_ok.mpr ⟨_,added,rfl⟩
  · rw [kept]
  · rw [← same]
    exact List.map_append
  · exact ⟨index',rfl,by rwa [refs_append]⟩
  · intro other member
    rcases List.mem_append.mp member with old | last
    · exact states other old
    · rwa [List.mem_singleton.mp last]

theorem putObjectService_known (listed : Listed m0 ids m) (known : os.id ∈ ids) :
    ∃ m', putObjectService m os = .ok (false,m') := by
  obtain ⟨-,same,⟨index,present,stored⟩,-⟩ := listed
  rw [← same] at known
  obtain ⟨displaced,index',added,old⟩ := put_known stored known m.object_service_list.length
  refine ⟨{ m with os_map := some index' },?_⟩
  rw [putObjectService,present]
  refine bind_ok.mpr ⟨_,added,?_⟩
  exact if_neg old

/-- The turn at an object service whose three fields are there. -/
theorem parseObjectService_eq (host : Host) (m : ObjectServiceMap)
    (js_id : getObjectItem (some js_os) idName = some id_item) (js_host : getObjectItem (some js_os) hostName = some host_item)
    (js_port : getObjectItem (some js_os) portName = some port_item) : parseObjectService host m (some js_os) = (do
      match ← sscanf id_item.valuestring with
      | none => .ok (false,m)
      | some os_id => do
        let bytes ← strcpy host.bytes host_item.valuestring
        match ← sscanf port_item.valuestring with
        | none => .ok (false,m)
        | some port => putObjectService m ⟨os_id.toUInt32,offline,Host.ofBytes bytes,port.toUInt32.toInt32,0,[]⟩) := by
  rw [parseObjectService,js_id,js_host,js_port]

theorem Sound.items (sound : Sound js_os os_id) : ∃ id_item host_item port_item,
    getObjectItem (some js_os) idName = some id_item ∧ getObjectItem (some js_os) hostName = some host_item ∧
      getObjectItem (some js_os) portName = some port_item := by
  obtain ⟨⟨_,⟨s,id_item,-⟩,-⟩,⟨t,host_item,-⟩,⟨_,⟨u,port_item,-⟩⟩⟩ := sound
  exact ⟨_,_,_,id_item,host_item,port_item⟩

theorem parseObjectService_sound (host : Host) (m : ObjectServiceMap) (sound : Sound js_os os_id) :
    ∃ os, os.id = os_id ∧ os.status = offline ∧ parseObjectService host m (some js_os) = putObjectService m os := by
  obtain ⟨id_item,host_item,port_item,js_id,js_host,js_port⟩ := sound.items
  obtain ⟨⟨value,reads,same⟩,fits,⟨port,reads'⟩⟩ := sound
  rw [js_id] at reads
  rw [js_host] at fits
  rw [js_port] at reads'
  rcases strcpy_cases host host_item with ⟨-,bytes,copied⟩ | ⟨long,-⟩
  · refine ⟨⟨value.toUInt32,offline,Host.ofBytes bytes,port.toUInt32.toInt32,0,[]⟩,same,rfl,?_⟩
    rw [parseObjectService_eq host m js_id js_host js_port,reads.sscanf]
    change (strcpy _ _ >>= _) = _
    rw [copied]
    change (sscanf _ >>= _) = _
    rw [reads'.sscanf]
    rfl
  · exact absurd fits long

theorem parseObjectService_refused (host : Host) (listed : Listed m0 ids m) (refused : Refused ids js_os) :
    ∃ m', parseObjectService host m (some js_os) = .ok (false,m') := by
  cases refused with
  | missing absent =>
    refine ⟨m,?_⟩
    rw [parseObjectService]
    rcases absent with none | none | none <;> rw [none]
    · cases getObjectItem (some js_os) idName <;> rfl
    · cases getObjectItem (some js_os) idName <;> cases getObjectItem (some js_os) hostName <;> rfl
  | id host_item port_item unreadable =>
    obtain ⟨host_item,js_host⟩ := Option.ne_none_iff_exists'.mp host_item
    obtain ⟨port_item,js_port⟩ := Option.ne_none_iff_exists'.mp port_item
    obtain ⟨s,js_id,scanned⟩ := unreadable
    refine ⟨m,?_⟩
    rw [parseObjectService_eq host m js_id js_host js_port,Unreadable.sscanf ⟨s,rfl,scanned⟩]
    rfl
  | port reads fits unreadable =>
    obtain ⟨t,js_id,scanned⟩ := reads
    obtain ⟨s,js_host,short⟩ := fits
    obtain ⟨u,js_port,bare⟩ := unreadable
    have copied : strcpy host.bytes (some s) = .ok _ := strcpy_ok s (by rwa [host.length])
    have number : sscanf (some t) = .ok _ := congrArg Except.ok scanned
    have nothing : sscanf (some u) = .ok none := congrArg Except.ok bare
    refine ⟨m,?_⟩
    rw [parseObjectService_eq host m js_id js_host js_port]
    simp only [valuestring,number,copied,nothing,bind,Except.bind]
  | repeated sound old =>
    obtain ⟨os,rfl,status,turn⟩ := parseObjectService_sound host m sound
    rw [turn]
    exact putObjectService_known listed old

theorem parseObjectService_stops (host : Host) (m : ObjectServiceMap) (known : List UInt32) (sane : ¬Refused known js_os)
    (unsound : ∀ os_id, Sound js_os os_id → os_id ∈ known) :
    ∃ reason, parseObjectService host m (some js_os) = .error reason := by
  have present : (∃ item, getObjectItem (some js_os) idName = some item) ∧
      (∃ item, getObjectItem (some js_os) hostName = some item) ∧
      ∃ item, getObjectItem (some js_os) portName = some item := by
    refine ⟨?_,?_,?_⟩ <;> apply Option.ne_none_iff_exists'.mp <;> intro none <;> apply sane
    · exact .missing (.inl none)
    · exact .missing (.inr (.inl none))
    · exact .missing (.inr (.inr none))
  obtain ⟨⟨id_item,js_id⟩,⟨host_item,js_host⟩,⟨port_item,js_port⟩⟩ := present
  rw [parseObjectService_eq host m js_id js_host js_port]
  rcases sscanf_cases id_item with ⟨value,reads,scanned⟩ | ⟨unreadable,-⟩ | ⟨stopped,-⟩
  · rw [← js_id] at reads
    rcases strcpy_cases host host_item with ⟨fits,bytes,copied⟩ | ⟨-,reason,stopped⟩
    · rw [← js_host] at fits
      rcases sscanf_cases port_item with ⟨port,reads',-⟩ | ⟨unreadable,-⟩ | ⟨stopped,-⟩
      · rw [← js_port] at reads'
        have sound : Sound js_os value.toUInt32 := ⟨⟨value,reads,rfl⟩,fits,⟨port,reads'⟩⟩
        exact absurd (.repeated sound (unsound _ sound)) sane
      · exact absurd (.port reads fits (by rwa [js_port])) sane
      · refine ⟨.nullPointer,?_⟩
        simp only [scanned,copied,stopped,bind,Except.bind]
    · refine ⟨reason,?_⟩
      simp only [scanned,stopped,bind,Except.bind]
  · exact absurd (.id (by simp [js_host]) (by simp [js_port]) (by rwa [js_id])) sane
  · refine ⟨.nullPointer,?_⟩
    simp only [stopped,bind,Except.bind]

def At (js_object_services : Option CJson) (i : Nat) (items : List CJson) : Prop :=
  ∀ k, (inside : k < items.length) → getArrayItem js_object_services (Int32.ofNat (i + k)) = some items[k]

theorem At.head (at_ : At js i (js_os :: rest)) : getArrayItem js (Int32.ofNat i) = some js_os :=
  at_ 0 (by simp)

theorem At.tail (at_ : At js i (js_os :: rest)) : At js (i + 1) rest := by
  intro k inside
  have item := at_ (k + 1) (by simpa using inside)
  rw [Nat.add_right_comm,Nat.add_assoc]
  simpa using item

theorem parseObjectService_new (host : Host) (listed : Listed m0 ids m) (sound : Sound js_os os_id) (new : os_id ∉ ids) :
    ∃ m', parseObjectService host m (some js_os) = .ok (true,m') ∧ Listed m0 (ids ++ [os_id]) m' := by
  obtain ⟨os,rfl,status,turn⟩ := parseObjectService_sound host m sound
  rw [turn]
  exact putObjectService_new listed new status

theorem loop_accepted (heap : Heap) (items : List CJson) (accepted : Accepted ids items) (at_ : At js i items)
    (listed : Listed m0 ids m) (distinct : ids.Nodup) :
    ∃ ids' m', parseObjectServices heap js items.length i m = .ok (true,m') ∧ Listed m0 ids' m' ∧ ids'.Nodup ∧
      ids'.length = ids.length + items.length := by
  induction items generalizing ids i m with
  | nil => exact ⟨ids,m,rfl,listed,distinct,rfl⟩
  | cons js_os rest ih =>
    obtain ⟨os_id,sound,new,later⟩ := accepted
    obtain ⟨m',turn,grown⟩ := parseObjectService_new (heap.hosts i) listed sound new
    obtain ⟨ids',m'',run,filled,nodup,count⟩ := ih later at_.tail grown (nodup_append_fresh distinct new)
    refine ⟨ids',m'',?_,filled,nodup,?_⟩
    · rw [List.length_cons,parseObjectServices,at_.head]
      exact bind_ok.mpr ⟨_,turn,run⟩
    · simp only [List.length_append,List.length_cons,List.length_nil] at count ⊢
      omega

theorem loop_rejected (heap : Heap) (items : List CJson) (rejected : Rejected ids items) (at_ : At js i items)
    (listed : Listed m0 ids m) : ∃ m', parseObjectServices heap js items.length i m = .ok (false,m') := by
  induction items generalizing ids i m with
  | nil => exact rejected.elim
  | cons js_os rest ih =>
    rw [List.length_cons,parseObjectServices,at_.head]
    rcases rejected with refused | ⟨os_id,sound,new,later⟩
    · obtain ⟨m',turn⟩ := parseObjectService_refused (heap.hosts i) listed refused
      exact ⟨m',bind_ok.mpr ⟨_,turn,rfl⟩⟩
    · obtain ⟨m',turn,grown⟩ := parseObjectService_new (heap.hosts i) listed sound new
      obtain ⟨m'',run⟩ := ih later at_.tail grown
      exact ⟨m'',bind_ok.mpr ⟨_,turn,run⟩⟩

theorem loop_stops (heap : Heap) (items : List CJson) (accepted : ¬Accepted ids items) (rejected : ¬Rejected ids items)
    (at_ : At js i items) (listed : Listed m0 ids m) :
    ∃ reason, parseObjectServices heap js items.length i m = .error reason := by
  induction items generalizing ids i m with
  | nil => exact absurd trivial accepted
  | cons js_os rest ih =>
    rw [List.length_cons,parseObjectServices,at_.head]
    have sane : ¬Refused ids js_os := fun refused => rejected (.inl refused)
    by_cases unsound : ∀ os_id, Sound js_os os_id → os_id ∈ ids
    · obtain ⟨reason,turn⟩ := parseObjectService_stops (heap.hosts i) m ids sane unsound
      exact ⟨reason,by rw [turn]; rfl⟩
    · simp only [not_forall] at unsound
      obtain ⟨os_id,sound,new⟩ := unsound
      obtain ⟨m',turn,grown⟩ := parseObjectService_new (heap.hosts i) listed sound new
      obtain ⟨reason,run⟩ := ih (fun later => accepted ⟨os_id,sound,new,later⟩)
        (fun later => rejected (.inr ⟨os_id,sound,new,later⟩)) at_.tail grown
      exact ⟨reason,by rw [turn]; exact run⟩

/-- The turns find the first children, as many as are counted. -/
theorem servicesItems_at (js : Option CJson) (bound : (servicesCount js).toNat ≤ 2 ^ 30) :
    At js 0 (servicesItems js) ∧ (servicesItems js).length = (servicesCount js).toNat := by
  cases js with
  | none => exact ⟨fun k inside => absurd inside (Nat.not_lt_zero k),rfl⟩
  | some services =>
    have count : (servicesCount (some services)).toNat ≤ services.child.length := by
      change (Int32.ofNat services.child.length).toUInt32.toNat ≤ _
      exact Nat.mod_le ..
    have length : (servicesItems (some services)).length = (servicesCount (some services)).toNat := by
      rw [servicesItems,List.length_take,List.length_map,Nat.min_eq_left count]
    refine ⟨?_,length⟩
    intro k inside
    rw [length] at inside
    rw [Nat.zero_add,getArrayItem_eq services (by omega),List.getElem?_eq_getElem (by omega)]
    simp [servicesItems]

theorem not_returned_error (heap : Heap) (reason : Fault) : ¬Returned heap (.error reason) := by
  rintro ⟨rc,m,done,-⟩
  cases done

/-- A filled map keeps the object services it was given. -/
theorem returned_filled (listed : Listed m0 ids m) (distinct : ids.Nodup)
    (count : ids.length = m.object_service_length.toNat) (nonempty : 1 ≤ m.object_service_length.toNat)
    (filled : cmmFillBSets heap.words m = .ok m') : Returned heap (.ok (true,m')) := by
  obtain ⟨avg,full⟩ := cmmFillBSets_filled filled
  have same := full.shaped.ids.trans listed.ids
  have length : m'.object_service_list.length = m'.object_service_length.toNat := by
    rw [full.shaped.object_service_length,← count,← same,List.length_map]
  refine ⟨true,m',rfl,?_,length,by rwa [same],m,filled⟩
  rwa [full.shaped.object_service_length]

/-- From the array on, the parser returns exactly when the array is one it copes with. -/
theorem parseServicesItem_iff (heap : Heap) (m : ObjectServiceMap) (js : Option CJson) (empty : m.object_service_list = []) :
    Returned heap (parseServicesItem heap m js) ↔ HandledServices m.bset_length m.bset_replica_size js := by
  rw [HandledServices]
  by_cases large : 2 ^ 30 < (servicesCount js).toNat
  · have exits := initOSMap_exits (m := { m with
      object_service_length := servicesCount js
      status := .updating
      version := 0 }) large
    rw [parseServicesItem]
    change Returned heap (clusterMapInitOSMap _ >>= _) ↔ _
    rw [servicesCount] at exits
    rw [exits]
    exact iff_of_false (not_returned_error heap _) (by omega)
  have bound := Nat.le_of_not_lt large
  obtain ⟨at_,length⟩ := servicesItems_at js bound
  obtain ⟨index,made,stored⟩ := initOSMap_possible (m := { m with
    object_service_length := servicesCount js
    status := .updating
    version := 0 }) bound
  have unfolded : parseServicesItem heap m js =
      parseObjectServices heap js (servicesItems js).length 0 { m with
        object_service_length := servicesCount js
        status := .updating
        version := 0
        os_map := some index } >>= fun result =>
          if result.1 then cmmFillBSets heap.words result.2 >>= fun m => .ok (true,m)
          else .ok (false,{ result.2 with object_service_list := [], os_map := none }) := by
    rw [parseServicesItem,length]
    rw [servicesCount] at made
    rw [made]
    rfl
  rw [unfolded]
  rcases Nat.eq_zero_or_pos (servicesCount js).toNat with none | nonempty
  · have nothing : servicesItems js = [] := List.eq_nil_of_length_eq_zero (length.trans none)
    have zero : servicesCount js = 0 := UInt32.toNat_inj.mp none
    rw [nothing]
    apply iff_of_false
    · have divides : cmmFillBSets heap.words { m with
          object_service_length := servicesCount js
          status := .updating
          version := 0
          os_map := some index } = .error .division := by
        rw [cmmFillBSets,avgBSetNum,if_pos zero]
        rfl
      change ¬Returned heap (cmmFillBSets heap.words _ >>= _)
      rw [divides]
      exact not_returned_error heap _
    · rintro ⟨-,rejected | ⟨-,placeable⟩⟩
      · exact rejected
      · have services := placeable.services
        omega
  have start : Listed { m with
      object_service_length := servicesCount js
      status := .updating
      version := 0 } [] { m with
        object_service_length := servicesCount js
        status := .updating
        version := 0
        os_map := some index } := by
    refine ⟨rfl,by rw [empty]; rfl,⟨index,rfl,?_⟩,by simp [empty]⟩
    rw [empty]
    exact stored nonempty
  by_cases rejected : Rejected [] (servicesItems js)
  · obtain ⟨m',run⟩ := loop_rejected heap _ rejected at_ start
    rw [run]
    exact iff_of_true ⟨false,_,rfl,rfl⟩ ⟨bound,.inl rejected⟩
  by_cases accepted : Accepted [] (servicesItems js)
  · obtain ⟨ids,m',run,listed,distinct,count⟩ := loop_accepted heap _ accepted at_ start List.nodup_nil
    rw [run]
    change Returned heap (cmmFillBSets heap.words m' >>= _) ↔ _
    have kept := listed.kept
    have services : m'.object_service_length = servicesCount js := by rw [kept]
    have bsets : m'.bset_length = m.bset_length := by rw [kept]
    have replicas : m'.bset_replica_size = m.bset_replica_size := by rw [kept]
    have all : ids.length = m'.object_service_length.toNat := by
      rw [count,length,services]
      exact Nat.zero_add _
    have fill := cmmFillBSets_iff heap.words m' (by rw [← all,← listed.ids,List.length_map])
    rw [bsets,replicas,services] at fill
    by_cases placeable : Placeable m.bset_length m.bset_replica_size (servicesCount js)
    · obtain ⟨m'',filled⟩ := fill.mpr placeable
      rw [filled]
      exact iff_of_true (returned_filled listed distinct all (by rwa [services]) filled)
        ⟨bound,.inr ⟨accepted,placeable⟩⟩
    · apply iff_of_false
      · cases filled : cmmFillBSets heap.words m' with
        | error reason => exact not_returned_error heap reason
        | ok m'' => exact absurd (fill.mp ⟨m'',filled⟩) placeable
      · rintro ⟨-,refused | ⟨-,placed⟩⟩
        · exact rejected refused
        · exact placeable placed
  · obtain ⟨reason,run⟩ := loop_stops heap _ accepted rejected at_ start
    rw [run]
    refine iff_of_false (not_returned_error heap reason) ?_
    rintro ⟨-,refused | ⟨fine,-⟩⟩
    · exact rejected refused
    · exact accepted fine

theorem scanItem_cases (item : Option CJson) :
    RefusedField item ∧ scanItem item = .ok none ∨
      (∃ value, Reads item value ∧ scanItem item = .ok (some value) ∧ ¬RefusedField item ∧ ∀ other, Reads item other → other = value) ∨
      (∃ reason, scanItem item = .error reason) ∧ ¬RefusedField item ∧ ∀ value, ¬Reads item value := by
  cases item with
  | none => exact .inl ⟨.inl rfl,rfl⟩
  | some item =>
    rcases sscanf_cases item with ⟨value,reads,scanned⟩ | ⟨unreadable,scanned⟩ | ⟨stopped,sane,unread⟩
    · refine .inr (.inl ⟨value,reads,scanned,?_,?_⟩)
      · rintro (none | unreadable)
        · cases none
        · exact reads.not_unreadable unreadable
      · intro other also
        have again := also.sscanf
        rw [scanned] at again
        cases again
        rfl
    · exact .inl ⟨.inr unreadable,scanned⟩
    · refine .inr (.inr ⟨⟨_,stopped⟩,?_,unread⟩)
      rintro (none | unreadable)
      · cases none
      · exact sane unreadable

/-- The parser returns, with the map or without one, exactly on the documents it copes with. -/
theorem parse_returns_iff (heap : Heap) (root : Option CJson) :
    Returned heap (cmmParseClusterMap heap clearedMap root) ↔ Handled root := by
  cases root with
  | none => exact iff_of_true ⟨false,_,rfl,rfl⟩ (.inl (.inl rfl))
  | some root =>
    rw [cmmParseClusterMap,Handled]
    rcases scanItem_cases (getObjectItem (some root) bsetLengthName) with
      ⟨refused,scanned⟩ | ⟨bset_length,reads,scanned,fine,only⟩ | ⟨⟨reason,scanned⟩,fine,unread⟩
    · rw [scanned]
      exact iff_of_true ⟨false,_,rfl,rfl⟩ (.inl refused)
    · rw [scanned]
      change Returned heap (scanItem _ >>= _) ↔ _
      rcases scanItem_cases (getObjectItem (some root) bsetReplicaSizeName) with
        ⟨refused,scanned⟩ | ⟨bset_replica_size,reads',scanned,fine',only'⟩ | ⟨⟨reason,scanned⟩,fine',unread⟩
      · rw [scanned]
        exact iff_of_true ⟨false,_,rfl,rfl⟩ (.inr ⟨bset_length,reads,.inl refused⟩)
      · rw [scanned]
        refine (parseServicesItem_iff heap _ _ rfl).trans ?_
        constructor
        · intro handled
          exact .inr ⟨bset_length,reads,.inr ⟨bset_replica_size,reads',handled⟩⟩
        · rintro (refused | ⟨other,also,refused | ⟨other',also',handled⟩⟩)
          · exact absurd refused fine
          · exact absurd refused fine'
          · rwa [only other also,only' other' also'] at handled
      · rw [scanned]
        refine iff_of_false (not_returned_error heap reason) ?_
        rintro (refused | ⟨other,also,refused | ⟨other',also',-⟩⟩)
        · exact fine refused
        · exact fine' refused
        · exact unread other' also'
    · rw [scanned]
      refine iff_of_false (not_returned_error heap reason) ?_
      rintro (refused | ⟨other,also,-⟩)
      · exact fine refused
      · exact unread other also

theorem putObjectService_addressable (addressable : Addressable m) (done : putObjectService m os = .ok (true,m')) :
    Addressable m' ∧ m'.object_service_length = m.object_service_length := by
  obtain ⟨index,present,stored⟩ := addressable.indexed
  rw [putObjectService,present] at done
  by_cases known : os.id ∈ m.object_service_list.map ObjectService.id
  · obtain ⟨displaced,index',put,old⟩ := put_known stored known m.object_service_list.length
    simp only [put,bind,Except.bind,if_neg old] at done
    cases done
  · have others : ∀ other ∈ m.object_service_list, other.id ≠ os.id :=
      fun other member same => known (same ▸ List.mem_map_of_mem member)
    obtain ⟨index',added,stored'⟩ :=
      stored.put_fresh os.id ⟨m.object_service_list.length,os.id⟩ mparam_lawful rfl (refs_unlisted others)
    simp only [added,bind,Except.bind,if_true] at done
    cases done
    refine ⟨⟨⟨index',rfl,by rwa [refs_append]⟩,?_⟩,rfl⟩
    rw [List.map_append]
    exact nodup_append_fresh addressable.distinct known

/-- A turn that goes on has indexed one object service. -/
theorem parseObjectService_put (done : parseObjectService host m js_os = .ok (true,m')) :
    ∃ os, putObjectService m os = .ok (true,m') := by
  rw [parseObjectService] at done
  split at done
  case h_2 => cases done
  case h_1 js_id js_host js_port _ _ _ =>
  obtain ⟨os_id,_,done⟩ := bind_ok.mp done
  cases os_id with
  | none => cases done
  | some os_id =>
  obtain ⟨bytes,_,done⟩ := bind_ok.mp done
  obtain ⟨port,_,done⟩ := bind_ok.mp done
  cases port with
  | none => cases done
  | some port => exact ⟨_,done⟩

theorem parseObjectServices_addressable (n : Nat) (addressable : Addressable m)
    (done : parseObjectServices heap js n i m = .ok (true,m')) :
    Addressable m' ∧ m'.object_service_length = m.object_service_length := by
  induction n generalizing i m with
  | zero =>
    cases done
    exact ⟨addressable,rfl⟩
  | succ n ih =>
    rw [parseObjectServices] at done
    obtain ⟨⟨rc,m1⟩,turn,done⟩ := bind_ok.mp done
    cases rc with
    | false => cases done
    | true =>
      obtain ⟨os,put⟩ := parseObjectService_put turn
      obtain ⟨kept,length⟩ := putObjectService_addressable addressable put
      obtain ⟨all,same⟩ := ih kept done
      exact ⟨all,same.trans length⟩

theorem parseServicesItem_indexes (empty : m.object_service_list = [])
    (done : parseServicesItem heap m js = .ok (true,m')) : indexAfter m' := by
  obtain ⟨m1,made,done⟩ := bind_ok.mp done
  obtain ⟨⟨rc,m2⟩,run,done⟩ := bind_ok.mp done
  cases rc with
  | false => cases done
  | true =>
  obtain ⟨m3,filled,done⟩ := bind_ok.mp done
  cases done
  obtain ⟨indexed,index,rfl⟩ := initOSMap_indexes (by exact empty) made
  obtain ⟨avg,full⟩ := cmmFillBSets_filled filled
  have listed : indexAfter m2 := by
    rw [indexAfter] at indexed
    split at indexed
    case isTrue nonempty =>
      obtain ⟨addressable,length⟩ := parseObjectServices_addressable _ indexed run
      rw [indexAfter,length,if_pos nonempty]
      exact addressable
    case isFalse none =>
      rw [Nat.eq_zero_of_not_pos none] at run
      cases run
      rwa [indexAfter,if_neg none]
  exact indexAfter_congr listed full.shaped.object_service_length (cmmFillBSets_index filled) full.shaped.ids

/-- The index of a map built from a document. -/
theorem parse_indexes (done : cmmParseClusterMap heap clearedMap root = .ok (true,m)) : indexAfter m := by
  cases root with
  | none => cases done
  | some root =>
  obtain ⟨bset_length,_,done⟩ := bind_ok.mp done
  cases bset_length with
  | none => cases done
  | some bset_length =>
  obtain ⟨bset_replica_size,_,done⟩ := bind_ok.mp done
  cases bset_replica_size with
  | none => cases done
  | some bset_replica_size => exact parseServicesItem_indexes rfl done

/-- The document the source gives as its format: one object service, and numbers for numbers. -/
def documentedFile : CJson := .object
  [(bsetLengthName,.number),(bsetReplicaSizeName,.number),
    (objectServicesName,.array
      [.object [(idName,.number),(hostName,.string ⟨['1','2','7','.','0','.','0','.','1'].map Char.toUInt8,by decide⟩),
        (portName,.number)]])]

/-- The first field is a number, so `sscanf` reads through a null pointer. -/
theorem not_returned_documented :
    cmmParseClusterMap ⟨fun _ => Host.ofBytes [],fun _ _ => 0⟩ clearedMap (some documentedFile) = .error .nullPointer ∧
      ¬Returned ⟨fun _ => Host.ofBytes [],fun _ _ => 0⟩
        (cmmParseClusterMap ⟨fun _ => Host.ofBytes [],fun _ _ => 0⟩ clearedMap (some documentedFile)) := by
  have stops : cmmParseClusterMap ⟨fun _ => Host.ofBytes [],fun _ _ => 0⟩ clearedMap (some documentedFile) =
      .error .nullPointer := rfl
  rw [stops]
  exact ⟨rfl,not_returned_error _ _⟩

/-- The same with strings for numbers is parsed: two bsets on one object service. -/
def quotedFile : CJson := .object
  [(bsetLengthName,.string ⟨[50],by decide⟩),(bsetReplicaSizeName,.string ⟨[49],by decide⟩),
    (objectServicesName,.array
      [.object [(idName,.string ⟨[48],by decide⟩),
        (hostName,.string ⟨['1','2','7','.','0','.','0','.','1'].map Char.toUInt8,by decide⟩),
        (portName,.string ⟨['1','0','1','0','0'].map Char.toUInt8,by decide⟩)]])]

set_option maxRecDepth 4096 in
example : ((cmmParseClusterMap ⟨fun _ => Host.ofBytes [],fun _ _ => 0⟩ clearedMap (some quotedFile)).map Prod.fst) =
    .ok true := rfl

end Muti.InitFile
