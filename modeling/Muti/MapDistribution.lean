import Muti.ClusterKeepAlive
import Muti.ClusterMapObjectService
import Muti.MonitorStart
import Muti.Transition

/-! A cluster from its first start on: the monitor and the object services, each with a file of
its own, killed and started again at any point, and the maps the monitor sends to them. -/
namespace Muti.MapDistribution

open Muti.Memory Muti.Resource Muti.ClusterMap Muti.Cluster Muti.FileUtil Muti.MonitorStart Muti.ClusterKeepAlive
  Muti.Transition
open Muti.ObjectServiceJoin (ObjectServiceStatus)
open Muti.ClusterMapObjectService (ClusterMapObjectServicePrivate LatestMap MonResponse read_buffer_size
  clusterMapFetchOSMapCallback startKeepAlive)

/-- What becomes of the request for the map: it is not sent, not answered, or answered. -/
inductive Fetch where
  | refused
  | waiting
  | answered (resp : MonResponse)

/-- What a start of an object service depends on, but for its file: whether `initClient` succeeds,
the kernel's and the monitor's answers, and whether `malloc` hands out memory that is not zero. -/
structure Start where
  client : Bool
  reads : List Transfer
  fetch : Fetch
  opens : Bool
  writes : List Transfer
  stale : Bool

/-- The map that was fetched is written, or the assertions behind it fail. -/
def saveMap (env : Start) (priv : ClusterMapObjectServicePrivate) (file : Option (List UInt8)) :
    Progress (Bool × ClusterMapObjectServicePrivate) × Option (List UInt8) :=
  match priv.os_map.deref >>= fun os_map =>
      clusterMapDumpObjectServiceMap os_map (clusterMapDumpObjectServiceMapLength os_map) with
  | .error reason => (.stopped reason,file)
  | .ok buffer =>
    match fileUtilWriteAFile env.opens env.writes buffer file with
    | (.returned true,file) => (.returned (true,priv),file)
    | (.returned false,file) => (.stopped .assertion,file)
    | (.running,file) => (.running,file)
    | (.stopped reason,file) => (.stopped reason,file)

def clusterMapFetchOSMapFromMon (env : Start) (priv : ClusterMapObjectServicePrivate) (file : Option (List UInt8)) :
    Progress (Bool × ClusterMapObjectServicePrivate) × Option (List UInt8) :=
  match env.fetch with
  | .refused => (.returned (false,priv),file)
  | .waiting => (.running,file)
  | .answered resp =>
    match clusterMapFetchOSMapCallback priv resp with
    | .error reason => (.stopped reason,file)
    | .ok (false,priv) => (.returned (false,priv),file)
    | .ok (true,priv) => saveMap env priv file

/-- The end both sources of the map share, as far as it comes. -/
def epilogue (rc : Bool) (priv : ClusterMapObjectServicePrivate) : Progress (Bool × ClusterMapObjectServicePrivate) :=
  match startKeepAlive rc priv with
  | .ok result => .returned result
  | .error reason => .stopped reason

/-- `file` is what can be read under `os_map_path`; beside what is returned, what can be read
there afterwards. -/
def initClusterMapObjectService (env : Start) (file : Option (List UInt8)) :
    Progress (Bool × ClusterMapObjectServicePrivate) × Option (List UInt8) :=
  let priv := ⟨if env.stale then .undefined else .null,none,false⟩
  if env.client = false then (.returned (false,priv),file)
  else
    match fileUtilReadAFile env.reads file with
    | .running => (.running,file)
    | .stopped reason => (.stopped reason,file)
    | .returned none =>
      match clusterMapFetchOSMapFromMon env priv file with
      | (.returned (rc,priv),file) => (epilogue rc priv,file)
      | (.running,file) => (.running,file)
      | (.stopped reason,file) => (.stopped reason,file)
    | .returned (some buffer) =>
      match clusterMapParseObjectServiceMap clearedMap buffer with
      | .error reason => (.stopped reason,file)
      | .ok (.rejected os_map) =>
        match clusterMapFreeOSMap os_map with
        | .error reason => (.stopped reason,file)
        | .ok _ => clusterMapFetchOSMapFromMon env { priv with os_map := .null } file
      | .ok (.accepted os_map _) => (epilogue true { priv with os_map := .map os_map },file)

/-- `os->status = status` on the object service with this id, in its own map. -/
def setStatus (m : ObjectServiceMap) (os_id status : UInt32) : Except Fault ObjectServiceMap :=
  match m.os_map with
  | none => .error .nullPointer
  | some index => do
    match ← MapHashLinked.get mparam index os_id with
    | none => .error .nullPointer
    | some ref =>
      let os ← read m.object_service_list ref.position
      .ok { m with object_service_list := m.object_service_list.set ref.position { os with status } }

/-- `bin` and `files` are the files, `monitor` and `services` the maps of the processes that run,
`sent` the maps that were ever sent. -/
structure System where
  bin : Option (List UInt8)
  monitor : Option ObjectServiceMap
  sent : List (List UInt8)
  files : UInt32 → Option (List UInt8)
  services : UInt32 → Option ObjectServiceMap

def installed : System := ⟨none,none,[],fun _ => none,fun _ => none⟩

/-- A start includes what it has come to when it returns or is killed. The monitor handles a
keep-alive, or sends its map; an object service writes its own status. -/
inductive Action where
  | startMon (env : Environment)
  | stopMon
  | keepAlive (req : ReceivedRequest)
  | getLatest (sequence : UInt32)
  | start (os_id : UInt32) (env : Start)
  | stop (os_id : UInt32)
  | status (os_id : UInt32) (status : ObjectServiceStatus)

def monitorMap : Progress (Option ObjectServiceMap) → Option ObjectServiceMap
  | .returned m => m
  | _ => none

def serviceMap : Progress (Bool × ClusterMapObjectServicePrivate) → Option ObjectServiceMap
  | .returned (_,⟨.map m,_,_⟩) => some m
  | _ => none

/-- An answer with a map is one the monitor has sent. -/
def Fetch.among : Fetch → List (List UInt8) → Bool
  | .answered (.latest resp), sent => sent.contains resp.received
  | _, _ => true

/-- A fault is the end of the process that has it. -/
def step (s : System) : Action → Option System
  | .startMon env =>
    if s.monitor.isSome then none
    else
      let (progress,bin) := initClusterMapMon env s.bin
      some { s with bin, monitor := monitorMap progress }
  | .stopMon => some { s with monitor := none }
  | .keepAlive req =>
    match s.monitor with
    | none => none
    | some m => match clusterActionKeepAliveObjectService m req with
      | .error _ => some { s with monitor := none }
      | .ok (_,m) => some { s with monitor := some m }
  | .getLatest sequence =>
    match s.monitor with
    | none => none
    | some m => match clusterResponseEncoderGetLatestObjectServiceMap ⟨⟨0,sequence⟩,m⟩ with
      | .error _ => some { s with monitor := none }
      | .ok bytes => some { s with sent := s.sent ++ [bytes] }
  | .start os_id env =>
    if (s.services os_id).isSome ∨ env.fetch.among s.sent = false then none
    else
      let (progress,file) := initClusterMapObjectService env (s.files os_id)
      some { s with
        files := Function.update s.files os_id file
        services := Function.update s.services os_id (serviceMap progress) }
  | .stop os_id => some { s with services := Function.update s.services os_id none }
  | .status os_id status =>
    match s.services os_id with
    | none => none
    | some m => match setStatus m os_id (word status) with
      | .error _ => some { s with services := Function.update s.services os_id none }
      | .ok m => some { s with services := Function.update s.services os_id (some m) }

def Holds (s : System) (m : ObjectServiceMap) : Prop := s.monitor = some m ∨ ∃ os_id, s.services os_id = some m

/-- What a map says but for the statuses. -/
def layout (m : ObjectServiceMap) : ObjectServiceMap :=
  { content m with object_service_list := m.object_service_list.map fun os => { inUse os with status := 0 } }

def Start.environment (env : Start) (file : Option (List UInt8)) : ClusterMapObjectService.Environment where
  client := env.client
  file := file
  answer := match env.fetch with
    | .answered resp => some resp
    | _ => none
  writable := true
  stale := env.stale

theorem epilogue_returned (returned : epilogue rc priv = .returned r) : startKeepAlive rc priv = .ok r := by
  rw [epilogue] at returned
  split at returned <;> cases returned
  assumption

theorem saveMap_returned (returned : (saveMap env priv file).1 = .returned r) :
    r = (true,priv) := by
  simp only [saveMap] at returned
  split at returned
  · cases returned
  · split at returned <;> cases returned
    rfl

theorem fetch_returned (env : Start) (file' : Option (List UInt8))
    (returned : (clusterMapFetchOSMapFromMon env priv file).1 = .returned r) :
    ClusterMapObjectService.clusterMapFetchOSMapFromMon (env.environment file') priv = .ok r := by
  rw [ClusterMapObjectService.fetch_eq]
  simp only [clusterMapFetchOSMapFromMon] at returned
  cases fetched : env.fetch with
  | refused =>
    rw [fetched] at returned
    cases returned
    simp [Start.environment,fetched]
  | waiting =>
    rw [fetched] at returned
    cases returned
  | answered resp =>
    rw [fetched] at returned
    cases resp with
    | error =>
      cases returned
      simp [Start.environment,fetched]
    | latest resp =>
      simp only [clusterMapFetchOSMapCallback] at returned
      by_cases null : priv.os_map = .null
      · rw [assert,if_pos null] at returned
        obtain rfl := saveMap_returned returned
        simp [Start.environment,fetched,null]
      · rw [assert,if_neg null] at returned
        cases returned

/-- What a start that returns has come to in one step. -/
theorem init_returned (returned : (initClusterMapObjectService env file).1 = .returned r) :
    ClusterMapObjectService.initClusterMapObjectService (env.environment file) = .ok r := by
  simp only [initClusterMapObjectService] at returned
  split at returned
  · rename_i client
    cases returned
    rw [ClusterMapObjectService.initClusterMapObjectService]
    exact if_pos client
  rename_i client
  rw [ClusterMapObjectService.initClusterMapObjectService]
  refine (if_neg client).trans ?_
  cases file with
  | none =>
    simp only [fileUtilReadAFile] at returned
    cases fetched : clusterMapFetchOSMapFromMon env ⟨if env.stale then .undefined else .null,none,false⟩ none with
    | mk progress file =>
      rw [fetched] at returned
      cases progress with
      | returned r =>
        have done := fetch_returned env none (congrArg Prod.fst fetched)
        exact (congrArg (· >>= fun r => startKeepAlive r.1 r.2) done).trans (epilogue_returned returned)
      | running => cases returned
      | stopped reason => cases returned
  | some bytes =>
    simp only [fileUtilReadAFile] at returned
    rcases sysRead_whole env.reads bytes [] with read | read | ⟨read,_⟩
    · simp only [read,List.nil_append] at returned
      simp only [Start.environment]
      cases parsed : clusterMapParseObjectServiceMap clearedMap bytes with
      | error reason =>
        rw [parsed] at returned
        cases returned
      | ok result =>
        rw [parsed] at returned
        cases result with
        | accepted m len =>
          have done : epilogue true ⟨.map m,none,false⟩ = .returned r := returned
          exact epilogue_returned done
        | rejected left =>
          cases freed : clusterMapFreeOSMap left with
          | error reason =>
            simp only [freed] at returned
            cases returned
          | ok u =>
            simp only [freed] at returned
            have done := fetch_returned env (some bytes) returned
            simp only [bind,Except.bind,freed]
            exact done
    · simp only [read] at returned
      cases returned
    · simp only [read] at returned
      cases returned

theorem layout_content (m : ObjectServiceMap) : layout m =
    { content m with object_service_list := (content m).object_service_list.map fun os => { os with status := 0 } } := by
  simp only [layout,content,List.map_map]
  rfl

/-- A map that was built, laid out like this; none, and no map is. -/
structure Shows (L : Option ObjectServiceMap) (m : ObjectServiceMap) : Prop where
  built : Built m
  same : L = some (layout m)

theorem Shows.alike (shows : Shows L m) (same : content m' = content m) (roomy : Roomy m') : Shows L m' where
  built := shows.built.alike same roomy
  same := by rw [shows.same,layout_content,layout_content m',same]

/-- A status of one object service changes nothing of the layout. -/
theorem Shows.withStatus (shows : Shows L m) (here : m.object_service_list[k]? = some os) (fits : FitsInt8 status) :
    Shows L { m with object_service_list := m.object_service_list.set k { os with status } } := by
  have carried := shows.built.carried
  have members : ∀ {P : ObjectService → Prop}, (∀ os ∈ m.object_service_list, P os) → P { os with status } →
      ∀ other ∈ m.object_service_list.set k { os with status }, P other := by
    intro P old new other member
    rcases Lists.mem_set_cases member with rfl | listed
    · exact new
    · exact old other listed
  have listed := List.mem_of_getElem? here
  refine ⟨⟨⟨⟨carried.counts.bsets,carried.counts.replicas,?_,?_⟩,carried.indexable,?_,?_⟩,shows.built.nonempty,?_⟩,?_⟩
  · have length := carried.counts.services
    rw [content,List.length_map] at length ⊢
    rw [List.length_set]
    exact length
  · refine List.forall_mem_map.mpr (members ?_ ?_)
    · exact fun os member => carried.counts.members _ (List.mem_map_of_mem member)
    · exact carried.counts.members (inUse os) (List.mem_map_of_mem listed)
  · refine List.forall_mem_map.mpr (members ?_ fits)
    exact fun os member => carried.statuses _ (List.mem_map_of_mem member)
  · have ids : (m.object_service_list.set k { os with status }).map (ObjectService.id ∘ inUse) =
        m.object_service_list.map (ObjectService.id ∘ inUse) := Lists.map_set_same here rfl
    have distinct := carried.distinct
    rw [content,List.map_map] at distinct ⊢
    exact (congrArg List.Nodup ids).mpr distinct
  · exact members shows.built.roomy (shows.built.roomy os listed)
  · have services : (m.object_service_list.set k { os with status }).map (fun os => { inUse os with status := 0 }) =
        m.object_service_list.map fun os => { inUse os with status := 0 } := Lists.map_set_same here rfl
    rw [shows.same]
    exact congrArg (fun services => some { content m with object_service_list := services }) services.symm

theorem word_fits (status : ObjectServiceStatus) : FitsInt8 (word status) := by
  cases status <;> decide

theorem keepAlive_shows (shows : Shows L m) (done : clusterActionKeepAliveObjectService m req = .ok (resp,m')) :
    Shows L m' := by
  rw [clusterActionKeepAliveObjectService] at done
  cases index : m.os_map with
  | none =>
    rw [index] at done
    cases done
  | some map =>
    rw [index] at done
    obtain ⟨ref,_,done⟩ := bind_ok.mp done
    cases ref with
    | none =>
      obtain ⟨row,_,done⟩ := bind_ok.mp done
      cases done
      exact shows
    | some ref =>
      obtain ⟨os,here,done⟩ := bind_ok.mp done
      obtain ⟨stat_map,_,done⟩ := bind_ok.mp done
      obtain ⟨row,_,done⟩ := bind_ok.mp done
      cases done
      rw [← index]
      exact shows.withStatus (read_ok.mp here) (word_fits row.output)

theorem setStatus_shows (shows : Shows L m) (done : setStatus m os_id (word status) = .ok m') : Shows L m' := by
  rw [setStatus] at done
  cases index : m.os_map with
  | none =>
    rw [index] at done
    cases done
  | some map =>
    rw [index] at done
    obtain ⟨ref,_,done⟩ := bind_ok.mp done
    cases ref with
    | none => cases done
    | some ref =>
      obtain ⟨os,here,done⟩ := bind_ok.mp done
      cases done
      rw [← index]
      exact shows.withStatus (read_ok.mp here) (word_fits status)

theorem latest_image {sequence : UInt32} (shows : Shows L m)
    (done : clusterResponseEncoderGetLatestObjectServiceMap ⟨⟨0,sequence⟩,m⟩ = .ok bytes) :
    bytes = responseImage ⟨0,sequence⟩ ++ mapImage (content m) := by
  obtain ⟨buffer,dumped,same⟩ := bind_ok.mp done
  cases same
  rw [shows.built.dumps dumped]

/-- An object service is handed a map with the layout of the one that was sent. -/
theorem received_shows {sequence : UInt32} (shows : Shows L m) (resp : LatestMap)
    (sent : resp.received = responseImage ⟨0,sequence⟩ ++ mapImage (content m)) : Shows L resp.os_map := by
  obtain ⟨parsed,built,same,parses⟩ := shows.built.parses
  have accepted := parses []
  rw [List.append_nil] at accepted
  obtain ⟨received,fits,super,os_map,consume_len,decoded⟩ := resp
  simp only at sent
  have enough : ¬(responseImage ⟨0,sequence⟩ ++ mapImage (content m)).length < 8 := by simp
  have success : ¬((⟨0,sequence⟩ : Response).error_id ≠ 0) := not_not.mpr rfl
  rw [sent,clusterResponseDecoderGetLatestObjectServiceMap,errorOr,if_neg enough,responseAt_image,if_neg success,decodeMap,
    if_neg enough,List.drop_left' (responseImage_length _),accepted] at decoded
  cases decoded
  exact shows.alike same built.roomy

/-- A file that was written with such a map, as far as the process came. -/
def Torn (L : Option ObjectServiceMap) (file : List UInt8) : Prop := ∃ m, Shows L m ∧ file <+: mapImage (content m)

def Whole (L : Option ObjectServiceMap) (file : List UInt8) : Prop := ∃ m, Shows L m ∧ file = mapImage (content m)

theorem Whole.torn (whole : Whole L file) : Torn L file := by
  obtain ⟨m,shows,rfl⟩ := whole
  exact ⟨m,shows,List.prefix_refl _⟩

/-- What a start leaves: a file no worse than before, and when the process runs, its map in the file. -/
structure Left (L : Option ObjectServiceMap)
    (result : Progress (Bool × ClusterMapObjectServicePrivate) × Option (List UInt8)) : Prop where
  torn : ∀ file ∈ result.2, Torn L file
  runs : ∀ m, serviceMap result.1 = some m → Shows L m ∧ ∃ file, result.2 = some file ∧ Whole L file

theorem Left.ended {progress : Progress (Bool × ClusterMapObjectServicePrivate)} (torn : ∀ bytes ∈ file, Torn L bytes)
    (nothing : serviceMap progress = none) : Left L (progress,file) where
  torn := torn
  runs := by
    intro m runs
    cases nothing.symm.trans runs

theorem saveMap_left (env : Start) (live : priv.os_map = .map m) (shows : Shows L m) (torn : ∀ bytes ∈ file, Torn L bytes) :
    Left L (saveMap env priv file) := by
  rw [saveMap,live]
  change Left L (match clusterMapDumpObjectServiceMap m (clusterMapDumpObjectServiceMapLength m) with
    | .error reason => (.stopped reason,file)
    | .ok buffer => _)
  cases dumped : clusterMapDumpObjectServiceMap m (clusterMapDumpObjectServiceMapLength m) with
  | error reason => exact .ended torn rfl
  | ok buffer =>
    obtain rfl := shows.built.dumps dumped
    simp only [fileUtilWriteAFile]
    cases env.opens with
    | false => exact .ended torn rfl
    | true =>
      obtain ⟨written,before,became,done⟩ := sysWrite_prefix env.writes (mapImage (content m)) []
      rw [List.nil_append] at became
      have parts : ∀ bytes ∈ some written, Torn L bytes := by
        rintro bytes ⟨⟩
        exact ⟨m,shows,before⟩
      cases wrote : sysWrite env.writes (mapImage (content m)) [] with
      | mk progress bytes =>
        rw [wrote] at became done
        obtain rfl : bytes = written := became
        cases progress with
        | running => exact .ended parts rfl
        | stopped reason => exact .ended parts rfl
        | returned u =>
          refine ⟨parts,fun other runs => ?_⟩
          obtain ⟨os_map,req_status,hk_worker⟩ := priv
          obtain rfl : os_map = .map m := live
          cases runs
          exact ⟨shows,bytes,rfl,m,shows,done rfl⟩

theorem serviceMap_missing (missing : ∀ m, priv.os_map ≠ .map m) : serviceMap (.returned (rc,priv)) = none := by
  obtain ⟨os_map,req_status,hk_worker⟩ := priv
  cases os_map with
  | null => rfl
  | undefined => rfl
  | map m => exact absurd rfl (missing m)

theorem fetch_left (env : Start) (missing : ∀ m, priv.os_map ≠ .map m)
    (answers : ∀ resp, env.fetch = .answered (.latest resp) → Shows L resp.os_map) (torn : ∀ bytes ∈ file, Torn L bytes) :
    Left L (clusterMapFetchOSMapFromMon env priv file) := by
  rw [clusterMapFetchOSMapFromMon]
  cases fetched : env.fetch with
  | refused => exact .ended torn (serviceMap_missing missing)
  | waiting => exact .ended torn rfl
  | answered resp =>
    cases resp with
    | error => exact .ended torn (serviceMap_missing missing)
    | latest resp =>
      by_cases null : priv.os_map = .null
      · have called : clusterMapFetchOSMapCallback priv (.latest resp) =
            .ok (true,{ priv with os_map := .map resp.os_map }) := by
          rw [clusterMapFetchOSMapCallback,assert,if_pos null]
          rfl
        simp only [called]
        exact saveMap_left env rfl (answers resp fetched) torn
      · have called : clusterMapFetchOSMapCallback priv (.latest resp) = .error .assertion := by
          rw [clusterMapFetchOSMapCallback,assert,if_neg null]
          rfl
        simp only [called]
        exact .ended torn rfl

theorem Left.epilogue (left : Left L (.returned (rc,priv),file)) : Left L (epilogue rc priv,file) := by
  obtain ⟨os_map,req_status,hk_worker⟩ := priv
  cases os_map with
  | null => exact .ended left.torn rfl
  | undefined => exact .ended left.torn rfl
  | map m =>
    refine ⟨left.torn,fun m' runs => ?_⟩
    cases runs
    obtain ⟨shows,whole⟩ := left.runs m rfl
    exact ⟨shows.alike rfl shows.built.roomy,whole⟩

/-- With its whole file an object service needs no more than to read it, and leaves it. -/
theorem init_whole (env : Start) (whole : Whole L bytes) : ∃ m, Shows L m ∧
    initClusterMapObjectService env (some bytes) =
      if env.client = false then (.returned (false,⟨if env.stale then .undefined else .null,none,false⟩),some bytes)
      else match sysRead env.reads bytes bytes.length [] with
        | .returned _ => (.returned (true,⟨.map { m with reference := 1 },some .readyToJoin,true⟩),some bytes)
        | .running => (.running,some bytes)
        | .stopped reason => (.stopped reason,some bytes) := by
  obtain ⟨m,shows,rfl⟩ := whole
  obtain ⟨parsed,built,same,parses⟩ := shows.built.parses
  have accepted := parses []
  rw [List.append_nil] at accepted
  refine ⟨parsed,shows.alike same built.roomy,?_⟩
  rw [initClusterMapObjectService]
  by_cases client : env.client = false
  · rw [if_pos client,if_pos client]
  rw [if_neg client,if_neg client,fileUtilReadAFile]
  rcases sysRead_whole env.reads (mapImage (content m)) [] with read | read | ⟨read,_⟩
  · simp only [read,List.nil_append,accepted]
    rfl
  · simp only [read]
  · simp only [read]

theorem init_left (env : Start) (answers : ∀ resp, env.fetch = .answered (.latest resp) → Shows L resp.os_map)
    (torn : ∀ bytes ∈ file, Torn L bytes) : Left L (initClusterMapObjectService env file) := by
  have missing : ∀ m, (if env.stale then .undefined else .null) ≠ ClusterMapObjectService.OSMapPointer.map m := by
    intro m
    split <;> simp
  cases file with
  | none =>
    rw [initClusterMapObjectService]
    split
    · exact .ended torn (serviceMap_missing missing)
    · have fetched : Left L (clusterMapFetchOSMapFromMon env ⟨if env.stale then .undefined else .null,none,false⟩ none) :=
        fetch_left env missing answers torn
      simp only [fileUtilReadAFile]
      cases result : clusterMapFetchOSMapFromMon env ⟨if env.stale then .undefined else .null,none,false⟩ none with
      | mk progress file =>
        rw [result] at fetched
        cases progress with
        | returned r => exact fetched.epilogue
        | running => exact .ended fetched.torn rfl
        | stopped reason => exact .ended fetched.torn rfl
  | some bytes =>
    obtain ⟨m,shows,before⟩ := torn bytes rfl
    by_cases whole : bytes = mapImage (content m)
    · have all : Whole L bytes := ⟨m,shows,whole⟩
      obtain ⟨parsed,shown,starts⟩ := init_whole env all
      rw [starts]
      split
      · exact .ended torn (serviceMap_missing missing)
      split
      · refine ⟨torn,fun m' runs => ?_⟩
        cases runs
        exact ⟨shown.alike rfl shown.built.roomy,bytes,rfl,all⟩
      · exact .ended torn rfl
      · exact .ended torn rfl
    · obtain ⟨left,rejected⟩ := parse_short shows.built.carried shows.built.nonempty clearedMap before whole
      rw [initClusterMapObjectService]
      split
      · exact .ended torn (serviceMap_missing missing)
      rw [fileUtilReadAFile]
      rcases sysRead_whole env.reads bytes [] with read | read | ⟨read,_⟩
      · simp only [read,List.nil_append,rejected]
        cases clusterMapFreeOSMap left with
        | error reason => exact .ended torn rfl
        | ok u => exact fetch_left env (by simp) answers torn
      · simp only [read]
        exact .ended torn rfl
      · simp only [read]
        exact .ended torn rfl

def Later (L L' : Option ObjectServiceMap) : Prop := ∀ l, L = some l → L' = some l

theorem Shows.later (shows : Shows L m) (later : Later L L') : Shows L' m := ⟨shows.built,later _ shows.same⟩

theorem Torn.later (torn : Torn L file) (later : Later L L') : Torn L' file := by
  obtain ⟨m,shows,before⟩ := torn
  exact ⟨m,shows.later later,before⟩

theorem Whole.later (whole : Whole L file) (later : Later L L') : Whole L' file := by
  obtain ⟨m,shows,same⟩ := whole
  exact ⟨m,shows.later later,same⟩

/-- The monitor restores nothing but a map laid out like this, and everything else comes from it. -/
structure Inv (L : Option ObjectServiceMap) (s : System) : Prop where
  fresh : s.bin = none ↔ L = none
  restored : ∀ file, s.bin = some file → ∀ m, restore file = .returned (some m) → Shows L m
  monitor : ∀ m, s.monitor = some m → Shows L m
  sent : ∀ bytes ∈ s.sent, ∃ sequence m, Shows L m ∧ bytes = responseImage ⟨0,sequence⟩ ++ mapImage (content m)
  files : ∀ os_id, ∀ bytes ∈ s.files os_id, Torn L bytes
  services : ∀ os_id m, s.services os_id = some m → Shows L m ∧ ∃ bytes, s.files os_id = some bytes ∧ Whole L bytes

theorem installed_inv : Inv none installed where
  fresh := ⟨fun _ => rfl,fun _ => rfl⟩
  restored := nofun
  monitor := nofun
  sent := nofun
  files := nofun
  services := nofun

/-- The monitor starts: with a file, from that; without, it lays out the map, or leaves nothing. -/
theorem Inv.startMon {s : System} (inv : Inv L s) (env : Environment) : ∃ L', Later L L' ∧
    Inv L' { s with bin := (initClusterMapMon env s.bin).2, monitor := monitorMap (initClusterMapMon env s.bin).1 } := by
  cases bin : s.bin with
  | some file =>
    obtain ⟨kept,cases⟩ := init_present env file
    refine ⟨L,fun _ => id,?_,?_,?_,inv.sent,inv.files,inv.services⟩
    · rw [kept,← bin]
      exact inv.fresh
    · rw [kept,← bin]
      exact inv.restored
    · intro m starts
      rcases cases with restored | running | ⟨stopped,_⟩
      · rw [restored] at starts
        refine inv.restored file bin m ?_
        cases done : restore file with
        | returned r =>
          rw [done] at starts
          exact congrArg _ starts
        | running => simp [done,monitorMap] at starts
        | stopped reason => simp [done,monitorMap] at starts
      · simp [running,monitorMap] at starts
      · simp [stopped,monitorMap] at starts
  | none =>
    obtain rfl := inv.fresh.mp bin
    rcases init_absent env with ⟨nothing,never⟩ | ⟨text,m,file,_,_,map,left,before,done⟩
    · refine ⟨none,fun _ => id,?_,?_,?_,inv.sent,inv.files,inv.services⟩
      · rw [nothing]
        exact iff_of_true rfl rfl
      · rw [nothing]
        nofun
      · intro m starts
        cases progress : (initClusterMapMon env none).1 with
        | returned r =>
          rw [progress] at starts
          exact absurd (progress.trans (congrArg _ starts)) (never m)
        | running => simp [progress,monitorMap] at starts
        | stopped reason => simp [progress,monitorMap] at starts
    · have later : Later none (some (layout m)) := nofun
      have shows : Shows (some (layout m)) m := ⟨map,rfl⟩
      refine ⟨some (layout m),later,?_,?_,?_,?_,?_,?_⟩
      · rw [left]
        exact iff_of_false nofun nofun
      · rw [left]
        rintro _ ⟨⟩ other restored
        obtain ⟨parsed,built,same,whole⟩ := map.restores
        by_cases all : file = mapImage (content m)
        · subst all
          cases whole.symm.trans restored
          exact shows.alike same built.roomy
        · exact absurd restored (map.refuses before all other)
      · intro other starts
        cases progress : (initClusterMapMon env none).1 with
        | returned r =>
          rw [progress] at starts
          obtain ⟨rfl,_⟩ := done other (progress.trans (congrArg _ starts))
          exact shows.alike rfl map.roomy
        | running => simp [progress,monitorMap] at starts
        | stopped reason => simp [progress,monitorMap] at starts
      · intro bytes member
        obtain ⟨sequence,m,shows,same⟩ := inv.sent bytes member
        exact ⟨sequence,m,shows.later later,same⟩
      · exact fun os_id bytes held => (inv.files os_id bytes held).later later
      · intro os_id m runs
        obtain ⟨shows,bytes,held,whole⟩ := inv.services os_id m runs
        exact ⟨shows.later later,bytes,held,whole.later later⟩

theorem Inv.setService {s : System} (inv : Inv L s) (os_id : UInt32) (torn : ∀ bytes ∈ file, Torn L bytes)
    (runs : ∀ m, service = some m → Shows L m ∧ ∃ bytes, file = some bytes ∧ Whole L bytes) :
    Inv L { s with files := Function.update s.files os_id file, services := Function.update s.services os_id service } := by
  refine ⟨inv.fresh,inv.restored,inv.monitor,inv.sent,?_,?_⟩
  · intro other bytes held
    by_cases here : other = os_id
    · subst here
      simp only [Function.update_self] at held
      exact torn bytes held
    · simp only [Function.update_of_ne here] at held
      exact inv.files other bytes held
  · intro other m
    by_cases here : other = os_id
    · subst here
      simp only [Function.update_self]
      exact runs m
    · simp only [Function.update_of_ne here]
      exact inv.services other m

theorem Inv.setMap {s : System} (inv : Inv L s) (os_id : UInt32)
    (runs : ∀ m, service = some m → Shows L m ∧ ∃ bytes, s.files os_id = some bytes ∧ Whole L bytes) :
    Inv L { s with services := Function.update s.services os_id service } := by
  have set := inv.setService os_id (inv.files os_id) runs
  rwa [Function.update_eq_self] at set

/-- What an object service is sent, it may be handed. -/
theorem Inv.answers {s : System} {env : Start} (inv : Inv L s) (arrives : ¬env.fetch.among s.sent = false)
    (resp : LatestMap) (fetched : env.fetch = .answered (.latest resp)) : Shows L resp.os_map := by
  rw [fetched] at arrives
  have member : resp.received ∈ s.sent := by simpa [Fetch.among] using arrives
  obtain ⟨sequence,m,shows,same⟩ := inv.sent _ member
  exact received_shows shows resp same

def Kept (L : Option ObjectServiceMap) (s s' : System) : Prop :=
  ∀ os_id bytes, s.files os_id = some bytes → Whole L bytes → s'.files os_id = some bytes

theorem init_keeps (env : Start) (whole : Whole L bytes) : (initClusterMapObjectService env (some bytes)).2 = some bytes := by
  obtain ⟨m,_,starts⟩ := init_whole env whole
  rw [starts]
  split
  · rfl
  · split <;> rfl

theorem step_inv {s : System} (inv : Inv L s) (taken : step s a = some s') :
    ∃ L', Later L L' ∧ Inv L' s' ∧ Kept L s s' := by
  have same : Later L L := fun _ => id
  have left : ∀ m, none = some m → Shows L m := nofun
  cases a with
  | startMon env =>
    rw [step] at taken
    split at taken
    · cases taken
    · cases taken
      obtain ⟨L',later,started⟩ := inv.startMon env
      exact ⟨L',later,started,fun _ _ held _ => held⟩
  | stopMon =>
    cases taken
    exact ⟨L,same,{ inv with monitor := left },fun _ _ held _ => held⟩
  | keepAlive req =>
    rw [step] at taken
    split at taken
    · cases taken
    · rename_i m runs
      split at taken
      · cases taken
        exact ⟨L,same,{ inv with monitor := left },fun _ _ held _ => held⟩
      · rename_i resp m' done
        cases taken
        have shows := keepAlive_shows (inv.monitor m runs) done
        refine ⟨L,same,{ inv with monitor := ?_ },fun _ _ held _ => held⟩
        rintro _ ⟨⟩
        exact shows
  | getLatest sequence =>
    rw [step] at taken
    split at taken
    · cases taken
    · rename_i m runs
      split at taken
      · cases taken
        exact ⟨L,same,{ inv with monitor := left },fun _ _ held _ => held⟩
      · rename_i bytes done
        cases taken
        have shows := inv.monitor m runs
        refine ⟨L,same,{ inv with sent := ?_ },fun _ _ held _ => held⟩
        intro other member
        rcases List.mem_append.mp member with old | new
        · exact inv.sent other old
        · obtain rfl := List.mem_singleton.mp new
          exact ⟨sequence,m,shows,latest_image shows done⟩
  | start os_id env =>
    rw [step] at taken
    split at taken
    · cases taken
    · rename_i free
      rw [not_or] at free
      cases taken
      have started := init_left env (inv.answers free.2) (inv.files os_id)
      refine ⟨L,same,inv.setService os_id started.torn started.runs,fun other bytes held whole => ?_⟩
      by_cases here : other = os_id
      · subst here
        simp only [Function.update_self,held]
        exact init_keeps env whole
      · simp only [Function.update_of_ne here]
        exact held
  | stop os_id =>
    cases taken
    exact ⟨L,same,inv.setMap os_id nofun,fun _ _ held _ => held⟩
  | status os_id status =>
    rw [step] at taken
    split at taken
    · cases taken
    · rename_i m runs
      split at taken
      · cases taken
        exact ⟨L,same,inv.setMap os_id nofun,fun _ _ held _ => held⟩
      · rename_i m' done
        cases taken
        obtain ⟨shows,whole⟩ := inv.services os_id m runs
        refine ⟨L,same,inv.setMap os_id ?_,fun _ _ held _ => held⟩
        rintro _ ⟨⟩
        exact ⟨setStatus_shows shows done,whole⟩

theorem run_inv {s : System} (inv : Inv L s) (reachable : Reachable step (fun _ _ => True) s s') :
    ∃ L', Later L L' ∧ Inv L' s' ∧ Kept L s s' := by
  induction reachable with
  | start => exact ⟨L,fun _ => id,inv,fun _ _ held _ => held⟩
  | step _ _ taken ih =>
    obtain ⟨L',later,inv',kept⟩ := ih
    obtain ⟨L'',later',inv'',kept'⟩ := step_inv inv' taken
    exact ⟨L'',fun l here => later' l (later l here),inv'',fun os_id bytes held whole =>
      kept' os_id bytes (kept os_id bytes held whole) (whole.later later)⟩

theorem Inv.holds {s : System} (inv : Inv L s) (holds : Holds s m) : L = some (layout m) := by
  rcases holds with runs | ⟨os_id,runs⟩
  · exact (inv.monitor m runs).same
  · exact (inv.services os_id m runs).1.same

/-- From the first start of a cluster on, there is one layout: the maps of the monitor and of all
object services, now and later, differ in statuses only. -/
theorem one_layout (first : Reachable step (fun _ _ => True) installed s) (later : Reachable step (fun _ _ => True) s s')
    (holds : Holds s m) (holds' : Holds s' m') : layout m = layout m' := by
  obtain ⟨L,_,inv,_⟩ := run_inv installed_inv first
  obtain ⟨L',still,inv',_⟩ := run_inv inv later
  have now := inv.holds holds
  exact Option.some.inj ((still _ now).symm.trans (inv'.holds holds'))

def founding : Environment := ⟨some quotedText,[.count 200],true,[.count 400],killed.heap⟩

def latest (received : List UInt8) : Option LatestMap :=
  if fits : received.length ≤ read_buffer_size then
    match decoded : clusterResponseDecoderGetLatestObjectServiceMap received with
    | .ok (.message (.latestMap super os_map) consume_len) => some ⟨received,fits,super,os_map,consume_len,decoded⟩
    | _ => none
  else none

def followed : Option System := do
  let s ← execute step installed [.startMon founding,.getLatest 7]
  let resp ← s.sent.head?.bind latest
  step s (.start 0 ⟨true,[],.answered (.latest resp),true,[.count 400],false⟩)

theorem followed_runs : ∃ s m file, Reachable step (fun _ _ => True) installed s ∧ s.services 0 = some m ∧
    s.files 0 = some file ∧ file.length = 179 := by
  have runs : followed.map (fun s => ((s.services 0).isSome,(s.files 0).map List.length)) = some (true,some 179) := by
    decide +kernel
  obtain ⟨s,done,shown⟩ := Option.map_eq_some_iff.mp runs
  obtain ⟨held,written⟩ := Prod.mk.inj shown
  obtain ⟨m,service⟩ := Option.isSome_iff_exists.mp held
  obtain ⟨file,there,length⟩ := Option.map_eq_some_iff.mp written
  rw [followed] at done
  obtain ⟨s1,sent,done⟩ := Option.bind_eq_some_iff.mp done
  obtain ⟨resp,_,taken⟩ := Option.bind_eq_some_iff.mp done
  have first : Reachable step (fun _ _ => True) installed s1 := Reachable.run .start _ sent
  exact ⟨s,m,file,.step first trivial taken,service,there,length⟩

theorem one_layout_followed : ∃ s m, s.services 0 = some m ∧ Reachable step (fun _ _ => True) installed s ∧
    ∀ s' m', Reachable step (fun _ _ => True) s s' → Holds s' m' → layout m = layout m' := by
  obtain ⟨s,m,_,first,runs,_⟩ := followed_runs
  exact ⟨s,m,runs,first,fun s' m' later holds => one_layout first later (.inr ⟨0,runs⟩) holds⟩

/-- An object service that has run once starts again whenever it can read its file, whatever has
become of the monitor, and leaves the file as it is. -/
theorem starts_alone (first : Reachable step (fun _ _ => True) installed s) (runs : s.services os_id = some m)
    (later : Reachable step (fun _ _ => True) s s') (env : Start) (client : env.client = true) (reliable : .failed ∉ env.reads)
    (enough : ∀ file ∈ s'.files os_id, file.length ≤ (env.reads.filter Transfer.moves).length) :
    ∃ priv m', initClusterMapObjectService env (s'.files os_id) = (.returned (true,priv),s'.files os_id) ∧
      priv.os_map = .map m' ∧ layout m' = layout m ∧ ClusterMapObjectService.Ready priv := by
  obtain ⟨L,_,inv,_⟩ := run_inv installed_inv first
  obtain ⟨_,_,_,kept⟩ := run_inv inv later
  obtain ⟨shows,bytes,held,whole⟩ := inv.services os_id m runs
  have still := kept os_id bytes held whole
  obtain ⟨m',shows',starts⟩ := init_whole env whole
  have long := enough bytes still
  rw [still,starts,if_neg (by simp [client]),sysRead_enough reliable long]
  refine ⟨_,_,rfl,rfl,?_,⟨⟨_,rfl,rfl⟩,rfl,rfl⟩⟩
  have same := Option.some.inj (shows'.same.symm.trans shows.same)
  exact same

/-- Without the monitor, a byte at a time. -/
theorem starts_alone_followed : ∃ (s : System) (m : _) (priv : _) (m' : _), s.services 0 = some m ∧
    initClusterMapObjectService ⟨true,List.replicate 179 (.count 0),.refused,true,[],true⟩ (s.files 0) =
      (.returned (true,priv),s.files 0) ∧ priv.os_map = .map m' ∧ layout m' = layout m := by
  obtain ⟨s,m,file,first,runs,there,length⟩ := followed_runs
  obtain ⟨priv,m',starts,live,same,_⟩ := starts_alone first runs .start
    ⟨true,List.replicate 179 (.count 0),.refused,true,[],true⟩ rfl (fun failed => nomatch List.eq_of_mem_replicate failed)
    fun bytes held => by
      cases there.symm.trans held
      rw [length,List.filter_replicate_of_pos rfl,List.length_replicate]
  exact ⟨s,m,priv,m',runs,starts,live,same⟩

end Muti.MapDistribution
