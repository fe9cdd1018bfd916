import Muti.FileUtil
import Muti.InitFile
import Muti.JsonSafety

/-! How the monitor comes by its cluster map: out of its own file, or out of the init file, and
then it writes its own file. A start may be killed at any point; what it has written stays. -/
namespace Muti.MonitorStart

open Muti.Memory Muti.Bytes Muti.CJson Muti.ClusterMap Muti.ClusterMapMon Muti.Cluster Muti.InitFile Muti.FileUtil

/-- What a start depends on, but for the monitor's own file: the content of the init file, the
kernel's answers, whether the own file can be created, and what memory held. -/
structure Environment where
  init : Option (List UInt8)
  reads : List Transfer
  opens : Bool
  writes : List Transfer
  heap : Heap

def errorOut (m : ObjectServiceMap) : Progress (Option ObjectServiceMap) :=
  match clusterMapFreeOSMap m with
  | .ok _ => .returned none
  | .error reason => .stopped reason

def restore (buffer : List UInt8) : Progress (Option ObjectServiceMap) :=
  match clusterMapParseObjectServiceMap clearedMap buffer with
  | .error reason => .stopped reason
  | .ok (.rejected m) => errorOut m
  | .ok (.accepted m _) => .returned (some { m with reference := 1 })

/-- `cmmParseClusterMap` from the text on, which is taken up to a zero. -/
def build (heap : Heap) (buffer : List UInt8) : Except Fault (Bool × ObjectServiceMap) := do
  let root ← cJSON_Parse (CString.cut buffer)
  cmmParseClusterMap heap clearedMap root

/-- The dump is written, or the assertions behind it fail. -/
def save (env : Environment) (m : ObjectServiceMap) (bin : Option (List UInt8)) :
    Progress (Option ObjectServiceMap) × Option (List UInt8) :=
  match clusterMapDumpObjectServiceMap m (clusterMapDumpObjectServiceMapLength m) with
  | .error reason => (.stopped reason,bin)
  | .ok buffer =>
    match fileUtilWriteAFile env.opens env.writes buffer bin with
    | (.returned true,bin) => (.returned (some { m with reference := 1 }),bin)
    | (.returned false,bin) => (.stopped .assertion,bin)
    | (.running,bin) => (.running,bin)
    | (.stopped reason,bin) => (.stopped reason,bin)

/-- `bin` is what can be read under `MON_OBJECT_SERVICE_MAP_BIN_PATH`; beside the map that is
returned, if it is true, what can be read there afterwards. -/
def initClusterMapMon (env : Environment) (bin : Option (List UInt8)) :
    Progress (Option ObjectServiceMap) × Option (List UInt8) :=
  match fileUtilReadAFile env.reads bin with
  | .running => (.running,bin)
  | .stopped reason => (.stopped reason,bin)
  | .returned (some buffer) => (restore buffer,bin)
  | .returned none =>
    match fileUtilReadAFile env.reads env.init with
    | .running => (.running,bin)
    | .stopped reason => (.stopped reason,bin)
    | .returned none => (errorOut clearedMap,bin)
    | .returned (some buffer) =>
      match build env.heap buffer with
      | .error reason => (.stopped reason,bin)
      | .ok (false,m) => (errorOut m,bin)
      | .ok (true,m) => save env m bin

def starts : List Environment → Option (List UInt8) → List (Progress (Option ObjectServiceMap))
  | [], _ => []
  | env :: later, bin => (initClusterMapMon env bin).1 :: starts later (initClusterMapMon env bin).2

def inUse (os : ObjectService) : ObjectService := { os with bset_ids := os.bset_ids.take os.bset_length.toNat }

/-- What a map says: all but how it is indexed, who holds it and whether it is being updated. -/
def content (m : ObjectServiceMap) : ObjectServiceMap :=
  { m with
    status := .normal
    object_service_list := m.object_service_list.map inUse
    os_map := none
    bset := .live m.bset.cells
    reference := 0 }

/-- The blocks of bset ids are as large as their object services say, or larger. -/
def Roomy (m : ObjectServiceMap) : Prop := ∀ os ∈ m.object_service_list, os.bset_length.toNat ≤ os.bset_ids.length

theorem dumpObjectService_inUse (room : os.bset_length.toNat ≤ os.bset_ids.length) :
    dumpObjectService os = .ok (objectServiceImage (inUse os)) := by
  rw [dumpObjectService,readFirst,if_pos room]
  rfl

theorem dump_content (counts : CountsMatch (content m)) (roomy : Roomy m) (total_len : UInt64) :
    clusterMapDumpObjectServiceMap m total_len = clusterMapDumpObjectServiceMap (content m) total_len := by
  have services := Lists.mapM_ok m.object_service_list dumpObjectService (fun os => objectServiceImage (inUse os))
    fun os member => dumpObjectService_inUse (roomy os member)
  have used := Lists.mapM_ok (content m).object_service_list dumpObjectService objectServiceImage
    fun os member => dumpObjectService_ok (counts.members os member)
  have same : (content m).object_service_list.map objectServiceImage =
      m.object_service_list.map fun os => objectServiceImage (inUse os) := by
    rw [content,List.map_map]
    rfl
  rw [same] at used
  simp only [clusterMapDumpObjectServiceMap,services,used]
  rfl

structure Built (m : ObjectServiceMap) : Prop where
  carried : Carried (content m)
  nonempty : 1 ≤ m.object_service_length.toNat
  roomy : Roomy m

theorem putObjectService_appends (done : putObjectService m os = .ok (true,m')) :
    ∃ index, m' = { m with os_map := some index, object_service_list := m.object_service_list ++ [os] } := by
  rw [putObjectService] at done
  cases present : m.os_map with
  | none =>
    rw [present] at done
    cases done
  | some index =>
    rw [present] at done
    obtain ⟨⟨v,index'⟩,_,done⟩ := bind_ok.mp done
    simp only at done
    split at done
    · cases done
      exact ⟨index',rfl⟩
    · cases done

/-- A turn that goes on lists one more object service, which is offline. -/
theorem parseObjectService_appends (done : InitFile.parseObjectService host m js_os = .ok (true,m')) :
    ∃ index os, os.status = offline ∧
      m' = { m with os_map := some index, object_service_list := m.object_service_list ++ [os] } := by
  rw [InitFile.parseObjectService] at done
  split at done
  case h_2 => cases done
  case h_1 js_id js_host js_port _ _ _ =>
  obtain ⟨os_id,_,done⟩ := bind_ok.mp done
  cases os_id with
  | none => cases done
  | some os_id =>
  obtain ⟨bytes,_,done⟩ := bind_ok.mp done
  obtain ⟨port,_,done⟩ := bind_ok.mp done
  cases port with
  | none => cases done
  | some port =>
    obtain ⟨index,same⟩ := putObjectService_appends done
    exact ⟨index,_,rfl,same⟩

theorem parseObjectServices_appends (n : Nat) (done : parseObjectServices heap js n i m = .ok (true,m')) :
    ∃ index added, added.length = n ∧ (∀ os ∈ added, os.status = offline) ∧
      m' = { m with os_map := index, object_service_list := m.object_service_list ++ added } := by
  induction n generalizing i m with
  | zero =>
    cases done
    exact ⟨_,[],rfl,nofun,by rw [List.append_nil]⟩
  | succ n ih =>
    rw [parseObjectServices] at done
    obtain ⟨⟨rc,m1⟩,turn,done⟩ := bind_ok.mp done
    cases rc with
    | false => cases done
    | true =>
      obtain ⟨_,os,status,rfl⟩ := parseObjectService_appends turn
      obtain ⟨index,added,count,states,rfl⟩ := ih done
      refine ⟨index,os :: added,by rw [List.length_cons,count],?_,by simp⟩
      intro other member
      rcases List.mem_cons.mp member with rfl | later
      · exact status
      · exact states other later

/-- The placement changes nothing of an object service but its bset ids. -/
theorem cmmFillBSets_statuses (done : cmmFillBSets heap m = .ok m')
    (states : ∀ os ∈ m.object_service_list, os.status = status) :
    ∀ os ∈ m'.object_service_list, os.status = status := by
  rw [cmmFillBSets_eq] at done
  obtain ⟨avg,_,run⟩ := bind_ok.mp done
  refine Lists.foldlM_keeps (fun s => ∀ os ∈ s.object_service_list, os.status = status) _
    (fun s cell s' _ kept turn => ?_) ?_ run
  · obtain ⟨os,bset,located,-,-,-,-,rfl⟩ := assign_ok.mp turn
    intro other member
    rcases Lists.mem_set_cases member with rfl | old
    · exact kept os (List.mem_of_getElem? located)
    · exact kept other old
  · intro os member
    obtain ⟨i,inside,rfl⟩ := List.mem_mapIdx.mp member
    exact states m.object_service_list[i] (List.getElem_mem inside)

theorem parseServicesItem_built (empty : m.object_service_list = []) (done : parseServicesItem heap m js = .ok (true,m')) :
    Built m' := by
  have indexed := parseServicesItem_indexes empty done
  obtain ⟨m1,made,done⟩ := bind_ok.mp done
  obtain ⟨⟨rc,m2⟩,run,done⟩ := bind_ok.mp done
  cases rc with
  | false => cases done
  | true =>
  obtain ⟨m3,filled,done⟩ := bind_ok.mp done
  cases done
  have few : (servicesCount js).toNat ≤ 2 ^ 30 := by
    by_contra large
    have exits := initOSMap_exits (m := { m with object_service_length := servicesCount js, status := .updating, version := 0 })
      (by simpa using large)
    cases exits.symm.trans made
  obtain ⟨_,_,rfl⟩ := initOSMap_indexes (by exact empty) made
  obtain ⟨index,added,count,states,rfl⟩ := parseObjectServices_appends _ run
  rw [empty,List.nil_append] at filled
  obtain ⟨avg,full⟩ := cmmFillBSets_filled filled
  have nonempty := ((cmmFillBSets_iff _ _ count).mp ⟨m',filled⟩).services
  have length : m'.object_service_list.length = m'.object_service_length.toNat := by
    have same := congrArg List.length full.shaped.ids
    rw [List.length_map,List.length_map] at same
    rw [same,full.shaped.object_service_length]
    exact count
  have roomy : Roomy m' := by
    intro os member
    obtain ⟨k,inside,rfl⟩ := List.getElem_of_mem member
    obtain ⟨front,used⟩ := full.keeps k _ (List.getElem?_eq_getElem inside)
    have fits := congrArg List.length front
    rw [List.length_take,← used] at fits
    exact min_eq_left_iff.mp fits
  rw [indexAfter,full.shaped.object_service_length,if_pos nonempty] at indexed
  refine ⟨⟨⟨?_,?_,?_,?_⟩,?_,?_,?_⟩,?_,roomy⟩
  · exact full.shaped.bsets.trans (congrArg UInt32.toNat full.shaped.bset_length).symm
  · intro bset member
    exact (full.shaped.rows bset member).trans (congrArg UInt16.toNat full.shaped.bset_replica_size).symm
  · rw [content,List.length_map]
    exact length
  · intro os member
    obtain ⟨kept,listed,rfl⟩ := List.mem_map.mp member
    exact (List.length_take ..).trans (Nat.min_eq_left (roomy kept listed))
  · exact (congrArg UInt32.toNat full.shaped.object_service_length).trans_le few
  · intro os member
    obtain ⟨kept,listed,rfl⟩ := List.mem_map.mp member
    have still := cmmFillBSets_statuses filled states kept listed
    change FitsInt8 kept.status
    rw [still]
    decide
  · have ids : (content m').object_service_list.map ObjectService.id = m'.object_service_list.map ObjectService.id := by
      rw [content,List.map_map]
      rfl
    rw [ids]
    exact indexed.distinct
  · rw [full.shaped.object_service_length]
    exact nonempty

theorem built (done : cmmParseClusterMap heap clearedMap root = .ok (true,m)) : Built m := by
  cases root with
  | none => cases done
  | some root =>
  obtain ⟨bset_length,_,done⟩ := bind_ok.mp done
  cases bset_length with
  | none => cases done
  | some bset_length =>
  obtain ⟨bset_replica_size,_,done⟩ := bind_ok.mp done
  cases bset_replica_size with
  | none => cases done
  | some bset_replica_size => exact parseServicesItem_built rfl done

/-- A map that was built is dumped as its image, if the length computed for it is right, and
the image is taken for a map that says the same; a part of it is refused. -/
theorem Built.dumps (map : Built m) (dumped : clusterMapDumpObjectServiceMap m total_len = .ok buffer) :
    buffer = mapImage (content m) := by
  rw [dump_content map.carried.counts map.roomy,dump_eq map.carried.counts] at dumped
  split at dumped
  · exact (Except.ok.inj dumped).symm
  · cases dumped

theorem inUse_again (services : List ObjectService) : (services.map inUse).map inUse = services.map inUse := by
  rw [List.map_map]
  apply List.map_congr_left
  intro os _
  simp [inUse,List.take_take]

theorem Built.alike (map : Built m) (same : content m' = content m) (roomy : Roomy m') : Built m' where
  carried := same ▸ map.carried
  nonempty := by
    have length : (content m').object_service_length = (content m).object_service_length := by rw [same]
    rw [show m'.object_service_length = m.object_service_length from length]
    exact map.nonempty
  roomy := roomy

theorem Built.parses (map : Built m) : ∃ parsed, Built parsed ∧ content parsed = content m ∧
    ∀ t, clusterMapParseObjectServiceMap clearedMap (mapImage (content m) ++ t) =
      .ok (.accepted parsed (mapImage (content m)).length) := by
  obtain ⟨parsed,added,parses⟩ := parse_whole map.carried map.nonempty clearedMap
  have same : content parsed = content m := by
    obtain ⟨index,rfl,_⟩ := added
    have services := inUse_again m.object_service_list
    simp only [content,services]
    rfl
  obtain ⟨counts,_,_⟩ := accepted_counts (parses [])
  exact ⟨parsed,map.alike same fun os member => (counts.members os member).ge,same,parses⟩

theorem Built.restores (map : Built m) : ∃ parsed, Built parsed ∧ content parsed = content m ∧
    restore (mapImage (content m)) = .returned (some { parsed with reference := 1 }) := by
  obtain ⟨parsed,built,same,parses⟩ := map.parses
  have accepted := parses []
  rw [List.append_nil] at accepted
  exact ⟨parsed,built,same,by rw [restore,accepted]⟩

theorem Built.refuses (map : Built m) (before : p <+: mapImage (content m)) (proper : p ≠ mapImage (content m))
    (other : ObjectServiceMap) : restore p ≠ .returned (some other) := by
  obtain ⟨left,rejected⟩ := parse_short map.carried map.nonempty clearedMap before proper
  rw [restore,rejected]
  simp only [errorOut]
  split <;> simp

/-- With a file of its own the monitor reads that, and leaves it. -/
theorem init_present (env : Environment) (file : List UInt8) : (initClusterMapMon env (some file)).2 = some file ∧
    ((initClusterMapMon env (some file)).1 = restore file ∨ (initClusterMapMon env (some file)).1 = .running ∨
      (initClusterMapMon env (some file)).1 = .stopped .assertion ∧ .failed ∈ env.reads) := by
  simp only [initClusterMapMon,fileUtilReadAFile]
  rcases sysRead_whole env.reads file [] with whole | running | ⟨stopped,failed⟩
  · simp only [whole,List.nil_append]
    exact ⟨trivial,.inl trivial⟩
  · simp only [running]
    exact ⟨trivial,.inr (.inl trivial)⟩
  · simp only [stopped]
    exact ⟨trivial,.inr (.inr ⟨trivial,failed⟩)⟩

theorem errorOut_none (m other : ObjectServiceMap) : errorOut m ≠ .returned (some other) := by
  rw [errorOut]
  split <;> simp

/-- What there is of the file is a part of the dump, and all of it when the function returns. -/
theorem save_file (map : Built m) (env : Environment) :
    (save env m none).2 = none ∧ (∀ m', (save env m none).1 ≠ .returned (some m')) ∨
      ∃ file, (save env m none).2 = some file ∧ file <+: mapImage (content m) ∧
        ∀ m', (save env m none).1 = .returned (some m') → m' = { m with reference := 1 } ∧ file = mapImage (content m) := by
  rw [save]
  cases dumped : clusterMapDumpObjectServiceMap m (clusterMapDumpObjectServiceMapLength m) with
  | error reason => exact .inl ⟨rfl,nofun⟩
  | ok buffer =>
    obtain rfl := map.dumps dumped
    simp only [fileUtilWriteAFile]
    cases env.opens with
    | false => exact .inl ⟨rfl,nofun⟩
    | true =>
      obtain ⟨written,before,became,done⟩ := sysWrite_prefix env.writes (mapImage (content m)) []
      rw [List.nil_append] at became
      cases wrote : sysWrite env.writes (mapImage (content m)) [] with
      | mk progress file =>
        rw [wrote] at became done
        obtain rfl : file = written := became
        right
        cases progress with
        | returned u =>
          refine ⟨file,rfl,before,?_⟩
          rintro m' ⟨⟩
          exact ⟨rfl,done rfl⟩
        | running => exact ⟨file,rfl,before,nofun⟩
        | stopped reason => exact ⟨file,rfl,before,nofun⟩

/-- Without one, a start that leaves a file has built the map the file is a part of. -/
theorem init_absent (env : Environment) :
    (initClusterMapMon env none).2 = none ∧ (∀ m, (initClusterMapMon env none).1 ≠ .returned (some m)) ∨
      ∃ text m file, env.init = some text ∧ build env.heap text = .ok (true,m) ∧ Built m ∧
        (initClusterMapMon env none).2 = some file ∧ file <+: mapImage (content m) ∧
        ∀ m', (initClusterMapMon env none).1 = .returned (some m') →
          m' = { m with reference := 1 } ∧ file = mapImage (content m) := by
  rw [initClusterMapMon]
  simp only [fileUtilReadAFile]
  cases init : env.init with
  | none => exact .inl ⟨rfl,errorOut_none clearedMap⟩
  | some text =>
    simp only
    rcases sysRead_whole env.reads text [] with whole | running | ⟨stopped,_⟩
    · simp only [whole,List.nil_append]
      cases made : build env.heap text with
      | error reason => exact .inl ⟨rfl,nofun⟩
      | ok result =>
        obtain ⟨rc,m⟩ := result
        cases rc with
        | false => exact .inl ⟨rfl,errorOut_none m⟩
        | true =>
          obtain ⟨root,_,parsed⟩ := bind_ok.mp made
          rcases save_file (built parsed) env with nothing | ⟨file,left,before,done⟩
          · exact .inl nothing
          · exact .inr ⟨text,m,file,rfl,made,built parsed,left,before,done⟩
    · simp only [running]
      exact .inl ⟨trivial,nofun⟩
    · simp only [stopped]
      exact .inl ⟨trivial,nofun⟩

/-- Every start that finds the file gets out of it what the first one does. -/
theorem starts_present (envs : List Environment) (file : List UInt8) (started : .returned (some m) ∈ starts envs (some file)) :
    restore file = .returned (some m) := by
  induction envs with
  | nil => cases started
  | cons env envs ih =>
    obtain ⟨kept,cases⟩ := init_present env file
    rw [starts,kept] at started
    rcases List.mem_cons.mp started with now | later
    · rcases cases with restored | running | ⟨stopped,_⟩
      · exact (now.trans restored).symm
      · cases now.trans running
      · cases now.trans stopped
    · exact ih later

/-- All the starts that return true return a map that says the same. -/
def Agree (ends : List (Progress (Option ObjectServiceMap))) : Prop :=
  ∀ m m', .returned (some m) ∈ ends → .returned (some m') ∈ ends → content m = content m'

/-- Over any sequence of starts, each of them with an init file of its own and killed or stopped
anywhere, there is one cluster map. -/
theorem starts_agree (envs : List Environment) (bin : Option (List UInt8)) : Agree (starts envs bin) := by
  induction envs generalizing bin with
  | nil => exact nofun
  | cons env envs ih =>
    intro m m' started started'
    cases bin with
    | some file =>
      have first := starts_present _ _ started
      have second := starts_present _ _ started'
      cases first.symm.trans second
      rfl
    | none =>
      rw [starts] at started started'
      rcases init_absent env with ⟨nothing,never⟩ | ⟨text,built_map,file,_,_,map,left,before,done⟩
      · rw [nothing] at started started'
        rcases List.mem_cons.mp started with now | later
        · exact absurd now.symm (never m)
        rcases List.mem_cons.mp started' with now | later'
        · exact absurd now.symm (never m')
        exact ih none m m' later later'
      · rw [left] at started started'
        have holds : ∀ other, .returned (some other) ∈ (initClusterMapMon env none).1 :: starts envs (some file) →
            (initClusterMapMon env none).1 = .returned (some other) ∧ content other = content built_map ∧
              file = mapImage (content built_map) ∨ restore file = .returned (some other) := by
          intro other member
          rcases List.mem_cons.mp member with now | later
          · obtain ⟨rfl,whole⟩ := done other now.symm
            exact .inl ⟨now.symm,rfl,whole⟩
          · exact .inr (starts_present _ _ later)
        obtain ⟨parsed,_,alike,restored⟩ := map.restores
        have whole : ∀ other, file = mapImage (content built_map) → restore file = .returned (some other) →
            content other = content built_map := by
          rintro other rfl got
          cases restored.symm.trans got
          exact alike
        rcases holds m started with ⟨_,first,is⟩ | first
        · rcases holds m' started' with ⟨_,second,_⟩ | second
          · exact first.trans second.symm
          · exact first.trans (whole m' is second).symm
        · rcases holds m' started' with ⟨_,second,is⟩ | second
          · exact (whole m is first).trans second.symm
          · cases first.symm.trans second
            rfl

/-- A start that was stopped or killed while it wrote, or was not: the next one that can read
returns true just when the file is whole, and then with the map that had been built. -/
theorem restart_iff (env later : Environment) (left : (initClusterMapMon env none).2 = some file)
    (reliable : .failed ∉ later.reads) (enough : file.length ≤ (later.reads.filter Transfer.moves).length) :
    ∃ text m, env.init = some text ∧ build env.heap text = .ok (true,m) ∧
      ((∃ m', (initClusterMapMon later (some file)).1 = .returned (some m')) ↔ file = mapImage (content m)) ∧
      ∀ m', (initClusterMapMon later (some file)).1 = .returned (some m') → content m' = content m := by
  rcases init_absent env with ⟨nothing,_⟩ | ⟨text,m,file',init,made,map,left',before,_⟩
  · cases nothing.symm.trans left
  obtain rfl : file' = file := Option.some.inj (left'.symm.trans left)
  have reads : (initClusterMapMon later (some file')).1 = restore file' := by
    simp only [initClusterMapMon,fileUtilReadAFile,sysRead_enough reliable enough,List.nil_append]
  obtain ⟨parsed,_,alike,restored⟩ := map.restores
  refine ⟨text,m,init,made,⟨?_,?_⟩,?_⟩
  · rintro ⟨m',started⟩
    by_contra torn
    exact map.refuses before torn m' (reads.symm.trans started)
  · rintro rfl
    exact ⟨_,reads.trans restored⟩
  · intro m' started
    by_cases whole : file' = mapImage (content m)
    · subst whole
      cases restored.symm.trans (reads.symm.trans started)
      exact alike
    · exact absurd (reads.symm.trans started) (map.refuses before whole m')

def quotedText : List UInt8 :=
  ['{','"','b','s','e','t','_','l','e','n','g','t','h','"',':','"','2','"',',',
    '"','b','s','e','t','_','r','e','p','l','i','c','a','_','s','i','z','e','"',':','"','1','"',',',
    '"','o','b','j','e','c','t','_','s','e','r','v','i','c','e','s','"',':','[','{','"','i','d','"',':','"','0','"',',',
    '"','h','o','s','t','"',':','"','m','"',',','"','p','o','r','t','"',':','"','1','"','}',']','}'].map Char.toUInt8

def killed : Environment := ⟨some quotedText,[.count 200],true,[.count 9],⟨fun _ => Host.ofBytes [],fun _ _ => 0⟩⟩

theorem restart_iff_killed : ∃ text m, killed.init = some text ∧ build killed.heap text = .ok (true,m) ∧
    ((∃ m', (initClusterMapMon ⟨none,List.replicate 10 (.count 0),true,[],killed.heap⟩ (some [0,0,0,0,2,0,0,0,1,0])).1 =
        .returned (some m')) ↔ [0,0,0,0,2,0,0,0,1,0] = mapImage (content m)) ∧
      ∀ m', (initClusterMapMon ⟨none,List.replicate 10 (.count 0),true,[],killed.heap⟩ (some [0,0,0,0,2,0,0,0,1,0])).1 =
        .returned (some m') → content m' = content m :=
  restart_iff killed ⟨none,List.replicate 10 (.count 0),true,[],killed.heap⟩ (by decide +kernel) (by decide) (by decide)

end Muti.MonitorStart
