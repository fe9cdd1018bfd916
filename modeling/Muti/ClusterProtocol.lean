import Muti.ClusterKeepAlive

/-! The monitor and any number of object services, with the keep-alives between them as bytes
on their way. Requests and responses arrive in any order, or not at all; a client tells its
object service of an error whenever it has a request waiting. The monitor answers one request
at a time. -/
namespace Muti.ClusterProtocol

open Muti.Memory Muti.Bytes Muti.Resource Muti.ClusterMap Muti.Cluster Muti.ClusterKeepAlive Muti.InitFile Muti.Transition
open Muti.ObjectServiceJoin (ObjectServiceStatus Op Answer exec chained spawn initClusterMapObjectService)

/-- `param.os_id`, the version of the map it has, and its part in the protocol. -/
structure Node where
  os_id : UInt32
  version : UInt32
  join : ObjectServiceJoin.State
  deriving DecidableEq, Repr

/-- Each message on its way has the object service it comes from or goes to beside it. -/
structure System where
  os_map : ObjectServiceMap
  nodes : List Node
  requests : List (Nat × List UInt8)
  responses : List (Nat × List UInt8)
  fault : Option Fault
  deriving DecidableEq

/-- An object service takes a step of its own, its client with the next `sequence`; the monitor
takes a request; a response comes in; a request fails; messages are lost. -/
inductive Action where
  | node (i : Nat) (a : ObjectServiceJoin.Action) (sequence : UInt32)
  | handle (k : Nat)
  | deliver (k : Nat)
  | fail (i : Nat)
  | loseRequest (k : Nat)
  | loseResponse (k : Nat)
  deriving DecidableEq, Repr

/-- `ResourceIdCluster` and `ClusterRequestIdKeepAliveObjectService`. -/
def keepAliveHeader (sequence : UInt32) : Request := ⟨0,4,sequence⟩

def keepAliveRequest (node : Node) (sequence : UInt32) : ClusterKeepAliveObjectServiceRequest :=
  ⟨keepAliveHeader sequence,node.version,node.os_id,word node.join.req_status⟩

/-- A keep-alive that is sent takes the status that is requested now. -/
def sends (node : Node) (sequence : UInt32) : ObjectServiceJoin.Action → Except Fault (List (List UInt8))
  | .run thread true =>
    match node.join.threads[thread]? with
    | some (.sendKeepAlive :: _) => do
      let buffer ← clusterRequestEncoderKeepAliveObjectService (keepAliveRequest node sequence)
      .ok [buffer]
    | _ => .ok []
  | _ => .ok []

/-- What the callback does with the response is decided by two words of it. -/
def answerOf (version : UInt32) (bytes : List UInt8) : Answer :=
  if (responseAt bytes).error_id ≠ 0 then .error
  else if version < field32 8 bytes then .newer
  else if field32 8 bytes = version then .same
  else .older

/-- The decoder and the action of the monitor, and the encoder of the response. -/
def handleKeepAlive (os_map : ObjectServiceMap) (bytes : List UInt8) : Except Fault (List (List UInt8) × ObjectServiceMap) := do
  match ← clusterRequestDecoderKeepAliveObjectService bytes with
  | .more => .ok ([],os_map)
  | .message received _ => do
    let (resp,os_map) ← clusterActionKeepAliveObjectService os_map received
    let buffer ← clusterResponseEncoderKeepAliveObjectService resp
    .ok ([buffer],os_map)

/-- The callbacks of keep-alives come from the network only. -/
def isAnswer : ObjectServiceJoin.Action → Bool
  | .keepAliveCallback _ => true
  | _ => false

def nodeStep (s : System) (i : Nat) (a : ObjectServiceJoin.Action) : Option System :=
  match s.nodes[i]? with
  | none => none
  | some node =>
    match ObjectServiceJoin.step node.join a with
    | none => none
    | some join => some { s with nodes := s.nodes.set i { node with join } }

def step (s : System) (a : Action) : Option System :=
  if s.fault ≠ none then none
  else match a with
    | .node i a sequence =>
      match s.nodes[i]? with
      | none => none
      | some node =>
        if isAnswer a then none
        else match sends node sequence a with
          | .error reason => some { s with fault := some reason }
          | .ok buffers => (nodeStep s i a).map fun s => { s with requests := s.requests ++ buffers.map fun bytes => (i,bytes) }
    | .handle k =>
      match s.requests[k]? with
      | none => none
      | some (i,bytes) =>
        match handleKeepAlive s.os_map bytes with
        | .error reason => some { s with fault := some reason }
        | .ok (buffers,os_map) => some { s with
            os_map
            requests := s.requests.eraseIdx k
            responses := s.responses ++ buffers.map fun bytes => (i,bytes) }
    | .deliver k =>
      match s.responses[k]? with
      | none => none
      | some (i,bytes) =>
        match s.nodes[i]? with
        | none => none
        | some node =>
          (nodeStep s i (.keepAliveCallback (answerOf node.version bytes))).map fun s =>
            { s with responses := s.responses.eraseIdx k }
    | .fail i => nodeStep s i (.keepAliveCallback .error)
    | .loseRequest k => some { s with requests := s.requests.eraseIdx k }
    | .loseResponse k => some { s with responses := s.responses.eraseIdx k }

/-- Each object service is listed in the monitor's map and has that map, be it from the monitor or
from its own file, and nobody has reported anything yet. An object service that is not listed
stores its status through a null pointer. -/
structure Started (s : System) : Prop where
  addressable : Addressable s.os_map
  offline : ∀ os ∈ s.os_map.object_service_list, os.status = offline
  listed : ∀ node ∈ s.nodes, ∃ os ∈ s.os_map.object_service_list, os.id = node.os_id
  nodes : ∀ node ∈ s.nodes, node.version = s.os_map.version ∧
    ∃ os_status, node.join = initClusterMapObjectService os_status
  quiet : s.requests = [] ∧ s.responses = [] ∧ s.fault = none

/-- Somebody with this id has completed a sync with the master node. -/
def Synced (nodes : List Node) (os_id : UInt32) : Prop :=
  ∃ node ∈ nodes, node.os_id = os_id ∧ node.join.onlines ≠ []

/-- Nobody fails an assertion or asks for a change log, and the monitor shows each object service
as offline, syncing or online, as online only behind a sync. -/
structure Safe (s : System) : Prop where
  monitor : s.fault = none
  nodes : ∀ node ∈ s.nodes, node.join.fault = none ∧ node.join.changeLogs = 0
  statuses : ∀ os ∈ s.os_map.object_service_list, os.status = word .offline ∨ os.status = word .syncing ∨
    os.status = word .online ∧ Synced s.nodes os.id

@[simp] def Unequal : Op → Prop
  | .sendChangeLog | .changeLogCallback _ | .keepAliveCallback .older | .keepAliveCallback .newer => True
  | _ => False

structure Sound (s : ObjectServiceJoin.State) : Prop where
  fault : s.fault = none
  changeLogs : s.changeLogs = 0
  equal : ∀ ops ∈ s.threads, ∀ op ∈ ops, ¬Unequal op
  chain : total chained s.threads + s.keepAlives + s.changeLogs ≤ s.busy.toNat
  online : s.req_status = .online → s.onlines ≠ []
  reported : s.req_status ≠ .offline ∧ s.req_status ≠ .error

theorem init_sound (os_status : ObjectServiceStatus) : Sound (initClusterMapObjectService os_status) where
  fault := rfl
  changeLogs := rfl
  equal := nofun
  chain := Nat.le_refl 0
  online := nofun
  reported := ⟨nofun,nofun⟩

theorem Sound.advance {s s' : ObjectServiceJoin.State} {i : Nat} (sound : Sound s) (here : s.threads[i]? = some (op :: rest))
    (fault : s'.fault = none) (changeLogs : s'.changeLogs = 0) (equal : ∀ op ∈ ops, ¬Unequal op)
    (chain : (ops.map chained).sum + s'.keepAlives + s.busy.toNat ≤ chained op + s.keepAlives + s'.busy.toNat)
    (online : s'.req_status = .online → s'.onlines ≠ []) (reported : s'.req_status ≠ .offline ∧ s'.req_status ≠ .error) :
    Sound { s' with threads := s.threads.set i (ops ++ rest) } := by
  have chains := total_advance chained here ops
  have before := sound.chain
  have none := sound.changeLogs
  refine ⟨fault,changeLogs,?_,?_,online,reported⟩
  · intro later thread next inside
    rcases mem_advance thread inside with new | ⟨other,behind,old⟩
    · exact equal next new
    · obtain ⟨ops,was,there⟩ := mem_behind here behind old
      exact sound.equal ops was next there
  · simp only
    omega

theorem exec_sound {s : ObjectServiceJoin.State} {i : Nat} (sound : Sound s) (here : s.threads[i]? = some (op :: rest))
    (sent : Bool) : Sound { (exec s sent op).1 with threads := s.threads.set i ((exec s sent op).2 ++ rest) } := by
  have equal := sound.equal _ (List.mem_of_getElem? here) op List.mem_cons_self
  have chain := sound.chain
  have mine := weight_le_total chained here
  cases op with
  | sendKeepAlive =>
    cases sent with
    | true =>
      refine sound.advance here sound.fault sound.changeLogs ?_ ?_ sound.online sound.reported <;> simp [exec,Nat.add_comm]
    | false => refine sound.advance here sound.fault sound.changeLogs ?_ ?_ sound.online sound.reported <;> simp [exec]
  | keepAliveCallback answer =>
    cases answer with
    | error =>
      by_cases syncing : s.req_status = .syncing
      · refine sound.advance here sound.fault sound.changeLogs ?_ ?_ sound.online sound.reported <;> simp [exec,syncing]
      · refine sound.advance here sound.fault sound.changeLogs ?_ ?_ sound.online sound.reported <;> simp [exec,syncing]
    | same =>
      by_cases ready : s.req_status = .readyToJoin
      · refine sound.advance here sound.fault sound.changeLogs ?_ ?_ sound.online sound.reported <;> simp [exec,ready]
      · refine sound.advance here sound.fault sound.changeLogs ?_ ?_ sound.online sound.reported <;> simp [exec,ready]
    | older => exact absurd trivial equal
    | newer => exact absurd trivial equal
  | sendChangeLog => exact absurd trivial equal
  | changeLogCallback error => exact absurd trivial equal
  | osOffline tested =>
    refine sound.advance here sound.fault sound.changeLogs ?_ ?_ sound.online sound.reported <;> simp [exec]
  | reqReadyToJoin tested =>
    refine sound.advance here sound.fault sound.changeLogs ?_ ?_ ?_ ?_ <;> simp [exec]
  | reqSyncing =>
    refine sound.advance here sound.fault sound.changeLogs ?_ ?_ ?_ ?_ <;> simp [exec]
  | osSyncing =>
    refine sound.advance here sound.fault sound.changeLogs ?_ ?_ sound.online sound.reported <;> simp [exec]
  | hkCallback sync =>
    have busy : s.busy = true := by
      cases busy : s.busy with
      | true => rfl
      | false =>
        simp [busy] at chain mine
        omega
    cases sync with
    | true =>
      refine sound.advance here ?_ ?_ ?_ ?_ ?_ ?_ <;>
        simp [exec,busy,sound.fault,sound.changeLogs,sound.reported,Nat.add_comm]
      exact sound.online
    | false =>
      refine sound.advance here ?_ ?_ ?_ ?_ ?_ ?_ <;>
        simp [exec,busy,sound.fault,sound.changeLogs,sound.reported,Nat.add_comm]
      exact sound.online
  | syncMasterNode =>
    refine sound.advance here sound.fault sound.changeLogs ?_ ?_ sound.online sound.reported <;> simp [exec]
  | osOnline since =>
    refine sound.advance here sound.fault sound.changeLogs ?_ ?_ sound.online sound.reported <;> simp [exec]
  | reqOnline since =>
    refine sound.advance here sound.fault sound.changeLogs ?_ ?_ ?_ ?_ <;> simp [exec]

theorem Sound.spawn {s : ObjectServiceJoin.State} (sound : Sound s) (op : Op) (busy : Bool) (keepAlives : Nat) (syncs : List Nat)
    (equal : ¬Unequal op) (chain : chained op + keepAlives + s.busy.toNat ≤ s.keepAlives + busy.toNat) :
    Sound (ObjectServiceJoin.spawn { s with busy, keepAlives, syncs } op) := by
  have chains := total_spawn chained s.threads op
  have before := sound.chain
  refine ⟨sound.fault,sound.changeLogs,?_,?_,sound.online,sound.reported⟩
  · intro ops thread next inside
    rcases List.mem_append.mp thread with old | new
    · exact sound.equal ops old next inside
    · obtain rfl := List.mem_singleton.mp new
      obtain rfl := List.mem_singleton.mp inside
      exact equal
  · simp only [ObjectServiceJoin.spawn]
    omega

/-- A step of an object service to which only errors and equal versions are reported. -/
theorem step_sound {s s' : ObjectServiceJoin.State} (sound : Sound s)
    (equal : ∀ answer, a = .keepAliveCallback answer → answer = .error ∨ answer = .same)
    (taken : ObjectServiceJoin.step s a = some s') : Sound s' := by
  have running : ¬s.fault ≠ none := not_not.mpr sound.fault
  cases a with
  | tick =>
    simp only [ObjectServiceJoin.step,if_neg running,Option.ite_none_left_eq_some,Option.some.injEq] at taken
    obtain ⟨idle,rfl⟩ := taken
    refine sound.spawn .sendKeepAlive true s.keepAlives s.syncs (by simp) ?_
    simp [idle]
    omega
  | keepAliveCallback answer =>
    simp only [ObjectServiceJoin.step,if_neg running,Option.ite_none_right_eq_some,Option.some.injEq] at taken
    obtain ⟨waiting,rfl⟩ := taken
    refine sound.spawn _ s.busy (s.keepAlives - 1) s.syncs ?_ ?_
    · rcases equal answer rfl with rfl | rfl <;> simp
    · simp
      omega
  | changeLogCallback error =>
    simp [ObjectServiceJoin.step,sound.changeLogs] at taken
  | syncCallback since =>
    simp only [ObjectServiceJoin.step,if_neg running,Option.ite_none_right_eq_some,Option.some.injEq] at taken
    obtain ⟨_,rfl⟩ := taken
    refine sound.spawn _ s.busy s.keepAlives (s.syncs.erase since) (by simp) ?_
    simp
  | run thread sent =>
    rcases here : s.threads[thread]? with _ | _ | ⟨op,rest⟩
    · simp [ObjectServiceJoin.step,here] at taken
    · simp [ObjectServiceJoin.step,here] at taken
    · simp only [ObjectServiceJoin.step,if_neg running,here,Option.some.injEq] at taken
      subst taken
      exact exec_sound sound here sent

theorem step_onlines {s s' : ObjectServiceJoin.State} (taken : ObjectServiceJoin.step s a = some s') :
    s.onlines <:+ s'.onlines := by
  simp only [ObjectServiceJoin.step] at taken
  split at taken
  · cases taken
  split at taken
  · split at taken
    · cases taken
    · cases taken
      exact List.suffix_refl _
  · split at taken
    · cases taken
      exact List.suffix_refl _
    · cases taken
  · split at taken
    · cases taken
      exact List.suffix_refl _
    · cases taken
  · split at taken
    · cases taken
      exact List.suffix_refl _
    · cases taken
  · split at taken
    · rename_i op rest here
      cases taken
      cases op with
      | reqOnline since => exact List.suffix_cons ..
      | sendKeepAlive | sendChangeLog | hkCallback => simp only [exec]; split <;> exact List.suffix_refl _
      | keepAliveCallback answer => cases answer <;> exact List.suffix_refl _
      | _ => exact List.suffix_refl _
    · cases taken

theorem Synced.mono {nodes nodes' : List Node} (synced : Synced nodes os_id)
    (kept : ∀ node ∈ nodes, ∃ node' ∈ nodes', node'.os_id = node.os_id ∧ node.join.onlines <:+ node'.join.onlines) :
    Synced nodes' os_id := by
  obtain ⟨node,member,rfl,some⟩ := synced
  obtain ⟨node',member',same,grown⟩ := kept node member
  refine ⟨node',member',same,?_⟩
  intro none
  rw [none] at grown
  exact some (List.suffix_nil.mp grown)

def Shown (nodes : List Node) (os_id status : UInt32) : Prop :=
  status = word .offline ∨ status = word .syncing ∨ status = word .online ∧ Synced nodes os_id

def Reported (nodes : List Node) (bytes : List UInt8) : Prop :=
  ∃ sequence version os_id reported,
    bytes = requestImage (keepAliveHeader sequence) ++ (image32 version ++ (image32 os_id ++ image32 (word reported))) ∧
      (reported = .readyToJoin ∨ reported = .syncing ∨ reported = .online ∧ Synced nodes os_id)

def Answered (version : UInt32) (bytes : List UInt8) : Prop :=
  ∃ sequence status, bytes = responseImage ⟨0,sequence⟩ ++ (image32 version ++ image32 status)

structure Inv (v : UInt32) (s : System) : Prop where
  monitor : s.fault = none
  addressable : Addressable s.os_map
  version : s.os_map.version = v
  nodes : ∀ node ∈ s.nodes, node.version = v ∧ Sound node.join
  statuses : ∀ os ∈ s.os_map.object_service_list, Shown s.nodes os.id os.status
  requests : ∀ request ∈ s.requests, Reported s.nodes request.2
  responses : ∀ response ∈ s.responses, Answered v response.2

theorem Started.inv (started : Started s) : Inv s.os_map.version s := by
  obtain ⟨requests,responses,fault⟩ := started.quiet
  refine ⟨fault,started.addressable,rfl,?_,fun os member => .inl (started.offline os member),by simp [requests],
    by simp [responses]⟩
  intro node member
  obtain ⟨version,os_status,join⟩ := started.nodes node member
  exact ⟨version,join ▸ init_sound os_status⟩

theorem word_injective (same : word a = word b) : a = b := by
  cases a <;> cases b <;> first | rfl | (exfalso; revert same; decide)

/-- The words of a keep-alive, as the monitor reads them. -/
theorem request_fields (header : Muti.Request) (version os_id status : UInt32) :
    keepAliveAt (requestImage header ++ (image32 version ++ (image32 os_id ++ image32 status))) =
      ⟨header,version,os_id,status⟩ := by
  have first : field32 8 (requestImage header ++ (image32 version ++ (image32 os_id ++ image32 status))) = version := by
    rw [field32,field_skip _ _ _ _ (by simp)]
    simpa [field32] using field32_image32 version _
  have second : field32 12 (requestImage header ++ (image32 version ++ (image32 os_id ++ image32 status))) = os_id := by
    rw [field32,field_skip _ _ _ _ (by simp),field_skip _ _ _ _ (by simp)]
    simpa [field32] using field32_image32 os_id _
  have third : field32 16 (requestImage header ++ (image32 version ++ (image32 os_id ++ image32 status))) = status := by
    rw [field32,field_skip _ _ _ _ (by simp),field_skip _ _ _ _ (by simp),field_skip _ _ _ _ (by simp)]
    simpa [field32] using field32_image32 status []
  rw [keepAliveAt,first,second,third,requestAt_image]

theorem request_decoded (header : Muti.Request) (version os_id status : UInt32) :
    clusterRequestDecoderKeepAliveObjectService
        (requestImage header ++ (image32 version ++ (image32 os_id ++ image32 status))) =
      .ok (.message (receive (requestImage header ++ (image32 version ++ (image32 os_id ++ image32 status)))) 20) := by
  let encoded := requestImage header ++ (image32 version ++ (image32 os_id ++ image32 status))
  have whole := (frames_fixed receive (by simp [encoded] : encoded.length = (20 : UInt64).toNat)).whole []
  rw [List.append_nil] at whole
  rw [clusterRequestDecoderKeepAliveObjectService,whole]
  simp [encoded]

theorem answer_success (done : clusterActionKeepAliveObjectService m req = .ok (resp,m')) : resp.super.error_id = 0 := by
  rw [clusterActionKeepAliveObjectService] at done
  cases index : m.os_map with
  | none =>
    rw [index] at done
    cases done
  | some map =>
    rw [index] at done
    obtain ⟨ref,_,done⟩ := bind_ok.mp done
    cases ref with
    | none =>
      obtain ⟨row,_,done⟩ := bind_ok.mp done
      cases done
      rfl
    | some ref =>
      obtain ⟨os,_,done⟩ := bind_ok.mp done
      obtain ⟨stat_map,_,done⟩ := bind_ok.mp done
      obtain ⟨row,_,done⟩ := bind_ok.mp done
      cases done
      rfl

/-- What the monitor makes of a keep-alive: it answers, and shows what was reported. -/
theorem handle_spec (addressable : Addressable m) (statuses : ∀ os ∈ m.object_service_list, Shown nodes os.id os.status)
    (request : Reported nodes bytes) :
    ∃ response os_id status, handleKeepAlive m bytes = .ok ([response],withStatus m os_id status) ∧
      Answered m.version response ∧ ((∀ os ∈ m.object_service_list, os.id ≠ os_id) ∨ status = word .syncing ∨ status = word .online ∧ Synced nodes os_id) := by
  obtain ⟨sequence,version,os_id,reported,rfl,report⟩ := request
  have fields := request_fields (keepAliveHeader sequence) version os_id (word reported)
  have decoded := request_decoded (keepAliveHeader sequence) version os_id (word reported)
  let request : KeepAlive := ⟨_,_,_,decoded⟩
  have named : request.os_id = os_id := congrArg ClusterKeepAliveObjectServiceRequest.os_id fields
  have said : request.status = word reported := congrArg ClusterKeepAliveObjectServiceRequest.status fields
  have covered : HasEntry m request := by
    refine ⟨said ▸ word_lt reported,fun os member _ => ?_⟩
    rcases statuses os member with offline | syncing | ⟨online,_⟩
    · exact offline ▸ word_lt _
    · exact syncing ▸ word_lt _
    · exact online ▸ word_lt _
  obtain ⟨resp,m',done,⟨mon_stat,reported',same,answer,stored⟩,version',rfl⟩ := keepAlive_covered addressable request covered
  obtain rfl : reported = reported' := word_injective (said.symm.trans same)
  rw [named] at done stored
  have success := answer_success done
  refine ⟨responseImage resp.super ++ (image32 resp.version ++ image32 resp.status),os_id,resp.status,?_,
    ⟨resp.super.sequence,resp.status,?_⟩,?_⟩
  · exact bind_ok.mpr ⟨_,decoded,bind_ok.mpr ⟨_,done,rfl⟩⟩
  · obtain ⟨⟨error_id,sequence⟩,version,status⟩ := resp
    cases success
    cases version'
    rfl
  · cases mon_stat with
    | none => exact .inl stored
    | some kept =>
      right
      obtain ⟨os,member,is,status⟩ := stored
      have shown := statuses os member
      rw [status] at shown
      rw [answer]
      have settled : kept = .offline ∨ kept = .syncing ∨ kept = .online := by
        rcases shown with offline | syncing | ⟨online,_⟩
        · exact .inl (word_injective offline)
        · exact .inr (.inl (word_injective syncing))
        · exact .inr (.inr (word_injective online))
      rcases report with rfl | rfl | ⟨rfl,synced⟩
      · left
        rcases settled with rfl | rfl | rfl <;> rfl
      · left
        rcases settled with rfl | rfl | rfl <;> rfl
      · right
        refine ⟨?_,synced⟩
        rcases settled with rfl | rfl | rfl <;> rfl

theorem withStatus_shown (statuses : ∀ os ∈ m.object_service_list, Shown nodes os.id os.status)
    (answered : (∀ os ∈ m.object_service_list, os.id ≠ os_id) ∨
      status = word .syncing ∨ status = word .online ∧ Synced nodes os_id) :
    ∀ os ∈ (withStatus m os_id status).object_service_list, Shown nodes os.id os.status := by
  intro os member
  obtain ⟨old,listed,rfl⟩ := List.mem_map.mp member
  by_cases same : old.id = os_id
  · rw [if_pos same]
    rcases answered with unlisted | syncing | online
    · exact absurd same (unlisted old listed)
    · exact .inr (.inl syncing)
    · exact .inr (.inr (same ▸ online))
  · rw [if_neg same]
    exact statuses old listed

structure Grown (nodes nodes' : List Node) : Prop where
  kept : ∀ node ∈ nodes, ∃ node' ∈ nodes', node'.os_id = node.os_id ∧ node.join.onlines <:+ node'.join.onlines

theorem Grown.refl (nodes : List Node) : Grown nodes nodes :=
  ⟨fun node member => ⟨node,member,rfl,List.suffix_refl _⟩⟩

theorem Grown.shown (grown : Grown nodes nodes') (shown : Shown nodes os_id status) : Shown nodes' os_id status :=
  shown.imp_right (Or.imp_right (And.imp_right fun synced => synced.mono grown.kept))

theorem Grown.reported (grown : Grown nodes nodes') (reported : Reported nodes bytes) : Reported nodes' bytes := by
  obtain ⟨sequence,version,os_id,status,same,report⟩ := reported
  exact ⟨sequence,version,os_id,status,same,
    report.imp_right (Or.imp_right (And.imp_right fun synced => synced.mono grown.kept))⟩

theorem nodeStep_spec {s s' : System} (nodes : ∀ node ∈ s.nodes, node.version = v ∧ Sound node.join)
    (equal : ∀ answer, a = .keepAliveCallback answer → answer = .error ∨ answer = .same)
    (taken : nodeStep s i a = some s') : ∃ nodes', s' = { s with nodes := nodes' } ∧ Grown s.nodes nodes' ∧
      ∀ node ∈ nodes', node.version = v ∧ Sound node.join := by
  rw [nodeStep] at taken
  cases here : s.nodes[i]? with
  | none => simp [here] at taken
  | some node =>
    cases went : ObjectServiceJoin.step node.join a with
    | none => simp [here,went] at taken
    | some join =>
      simp only [here,went,Option.some.injEq] at taken
      have member := List.mem_of_getElem? here
      refine ⟨_,taken.symm,⟨?_⟩,?_⟩
      · intro other inside
        obtain ⟨j,there⟩ := List.mem_iff_getElem?.mp inside
        by_cases same : i = j
        · subst same
          obtain rfl : node = other := Option.some.inj (here.symm.trans there)
          exact ⟨_,List.mem_set (List.getElem?_eq_some_iff.mp here).1 _,rfl,step_onlines went⟩
        · refine ⟨other,List.mem_of_getElem? (i := j) ?_,rfl,List.suffix_refl _⟩
          rwa [List.getElem?_set_ne same]
      · intro other inside
        rcases List.mem_or_eq_of_mem_set inside with old | rfl
        · exact nodes other old
        · obtain ⟨version,sound⟩ := nodes node member
          exact ⟨version,step_sound sound equal went⟩

theorem Inv.grow {s : System} (inv : Inv v s) (grown : Grown s.nodes nodes')
    (sound : ∀ node ∈ nodes', node.version = v ∧ Sound node.join) : Inv v { s with nodes := nodes' } where
  monitor := inv.monitor
  addressable := inv.addressable
  version := inv.version
  nodes := sound
  statuses := fun os member => grown.shown (inv.statuses os member)
  requests := fun request member => grown.reported (inv.requests request member)
  responses := inv.responses

/-- What an object service sends is what it requests. -/
theorem sends_spec (member : node ∈ nodes) (sound : Sound node.join) (sequence : UInt32) (a : ObjectServiceJoin.Action) :
    ∃ buffers, sends node sequence a = .ok buffers ∧ ∀ bytes ∈ buffers, Reported nodes bytes := by
  have status : node.join.req_status = .readyToJoin ∨ node.join.req_status = .syncing ∨
      node.join.req_status = .online ∧ Synced nodes node.os_id := by
    obtain ⟨offline,error⟩ := sound.reported
    cases status : node.join.req_status with
    | readyToJoin => exact .inl rfl
    | syncing => exact .inr (.inl rfl)
    | online => exact .inr (.inr ⟨rfl,node,member,rfl,sound.online status⟩)
    | offline => exact absurd status offline
    | error => exact absurd status error
  cases a with
  | run thread sent =>
    cases sent with
    | false => exact ⟨[],rfl,nofun⟩
    | true =>
      rw [sends]
      split
      · refine ⟨_,rfl,fun bytes inside => ?_⟩
        obtain rfl := List.mem_singleton.mp inside
        exact ⟨sequence,node.version,node.os_id,node.join.req_status,rfl,status⟩
      · exact ⟨[],rfl,nofun⟩
  | _ => exact ⟨[],rfl,nofun⟩

/-- To an object service with the same version the response says so. -/
theorem answerOf_same (answered : Answered v bytes) : answerOf v bytes = .same := by
  obtain ⟨sequence,status,rfl⟩ := answered
  have version : field32 8 (responseImage ⟨0,sequence⟩ ++ (image32 v ++ image32 status)) = v := by
    rw [field32,field_skip _ _ _ _ (by simp)]
    simpa [field32] using field32_image32 v _
  rw [answerOf,responseAt_image,version,if_neg (by simp),if_neg (by simp),if_pos rfl]

def Follows (nodes : List Node) (m m' : ObjectServiceMap) : Prop :=
  m' = m ∨ ∃ os_id status, m' = withStatus m os_id status ∧
    ((∀ os ∈ m.object_service_list, os.id ≠ os_id) ∨ status = word .syncing ∨ status = word .online ∧ Synced nodes os_id)

theorem step_inv (inv : Inv v s) (taken : step s a = some s') : Inv v s' ∧ Follows s.nodes s.os_map s'.os_map := by
  have running : ¬s.fault ≠ none := not_not.mpr inv.monitor
  simp only [step,if_neg running] at taken
  cases a with
  | node i a sequence =>
    simp only at taken
    cases here : s.nodes[i]? with
    | none => simp [here] at taken
    | some node =>
      have member := List.mem_of_getElem? here
      obtain ⟨buffers,sent,reports⟩ := sends_spec member (inv.nodes node member).2 sequence a
      simp only [here,sent,Option.ite_none_left_eq_some,Option.map_eq_some_iff] at taken
      obtain ⟨own,s1,went,rfl⟩ := taken
      obtain ⟨nodes,rfl,grown,sound⟩ := nodeStep_spec inv.nodes (by rintro answer rfl; exact absurd rfl own) went
      have after := inv.grow grown sound
      refine ⟨⟨after.monitor,after.addressable,after.version,after.nodes,after.statuses,?_,after.responses⟩,.inl rfl⟩
      intro request inside
      rcases List.mem_append.mp inside with old | new
      · exact after.requests request old
      · obtain ⟨bytes,listed,rfl⟩ := List.mem_map.mp new
        exact grown.reported (reports bytes listed)
  | handle k =>
    simp only at taken
    cases here : s.requests[k]? with
    | none => simp [here] at taken
    | some request =>
      obtain ⟨i,bytes⟩ := request
      obtain ⟨response,os_id,status,handled,answers,answered⟩ :=
        handle_spec inv.addressable inv.statuses (inv.requests _ (List.mem_of_getElem? here))
      simp only [here,handled,Option.some.injEq] at taken
      subst taken
      refine ⟨⟨inv.monitor,inv.addressable.congr (by rfl) (withStatus_ids ..),inv.version,inv.nodes,
        withStatus_shown inv.statuses answered,?_,?_⟩,.inr ⟨os_id,status,rfl,answered⟩⟩
      · exact fun request inside => inv.requests request (List.mem_of_mem_eraseIdx inside)
      · intro response inside
        rcases List.mem_append.mp inside with old | new
        · exact inv.responses response old
        · obtain rfl := List.mem_singleton.mp new
          exact inv.version ▸ answers
  | deliver k =>
    simp only at taken
    cases here : s.responses[k]? with
    | none => simp [here] at taken
    | some response =>
      obtain ⟨i,bytes⟩ := response
      have answers := inv.responses _ (List.mem_of_getElem? here)
      cases there : s.nodes[i]? with
      | none => simp [here,there] at taken
      | some node =>
        have same := answerOf_same answers
        rw [← (inv.nodes node (List.mem_of_getElem? there)).1] at same
        simp only [here,there,same,Option.map_eq_some_iff] at taken
        obtain ⟨s1,went,rfl⟩ := taken
        obtain ⟨nodes,rfl,grown,sound⟩ := nodeStep_spec inv.nodes (by rintro answer ⟨⟩; exact .inr rfl) went
        have after := inv.grow grown sound
        exact ⟨⟨after.monitor,after.addressable,after.version,after.nodes,after.statuses,after.requests,
          fun response inside => inv.responses response (List.mem_of_mem_eraseIdx inside)⟩,.inl rfl⟩
  | fail i =>
    obtain ⟨nodes,rfl,grown,sound⟩ := nodeStep_spec inv.nodes (by rintro answer ⟨⟩; exact .inl rfl) taken
    exact ⟨inv.grow grown sound,.inl rfl⟩
  | loseRequest k =>
    cases taken
    exact ⟨⟨inv.monitor,inv.addressable,inv.version,inv.nodes,inv.statuses,
      fun request inside => inv.requests request (List.mem_of_mem_eraseIdx inside),inv.responses⟩,.inl rfl⟩
  | loseResponse k =>
    cases taken
    exact ⟨⟨inv.monitor,inv.addressable,inv.version,inv.nodes,inv.statuses,inv.requests,
      fun response inside => inv.responses response (List.mem_of_mem_eraseIdx inside)⟩,.inl rfl⟩

theorem Started.reaches (started : Started s0) (reachable : Reachable step (fun _ _ => True) s0 s) : Inv s0.os_map.version s :=
  reachable.invariant started.inv fun _ _ _ inv _ taken => (step_inv inv taken).1

/-- Whatever is lost, late or out of order. -/
theorem cluster_safe (started : Started s0) (reachable : Reachable step (fun _ _ => True) s0 s) : Safe s := by
  have inv := started.reaches reachable
  refine ⟨inv.monitor,fun node member => ?_,inv.statuses⟩
  have sound := (inv.nodes node member).2
  exact ⟨sound.fault,sound.changeLogs⟩

theorem Follows.shows (follows : Follows nodes m m')
    (shows : ∃ os ∈ m.object_service_list, os.id = os_id ∧ os.status ≠ word .offline) :
    ∃ os ∈ m'.object_service_list, os.id = os_id ∧ os.status ≠ word .offline := by
  obtain ⟨os,member,named,shown⟩ := shows
  rcases follows with rfl | ⟨addressed,status,rfl,answered⟩
  · exact ⟨os,member,named,shown⟩
  · refine ⟨_,List.mem_map_of_mem member,?_,?_⟩
    · split
      · exact named
      · exact named
    · split
      · rename_i same
        rcases answered with unlisted | rfl | ⟨rfl,_⟩
        · exact absurd same (unlisted os member)
        · exact (by decide : word .syncing ≠ word .offline)
        · exact (by decide : word .online ≠ word .offline)
      · exact shown

/-- Once the monitor has heard of an object service it shows it as syncing or online for ever,
though nothing may be left of it. -/
theorem never_offline_again (started : Started s0) (reachable : Reachable step (fun _ _ => True) s0 s)
    (shows : ∃ os ∈ s.os_map.object_service_list, os.id = os_id ∧ os.status ≠ word .offline)
    (later : Reachable step (fun _ _ => True) s s') :
    ∃ os ∈ s'.os_map.object_service_list, os.id = os_id ∧ os.status ≠ word .offline := by
  let kept (s : System) : Prop := Inv s0.os_map.version s ∧
    ∃ os ∈ s.os_map.object_service_list, os.id = os_id ∧ os.status ≠ word .offline
  have start : kept s := ⟨started.reaches reachable,shows⟩
  have both := later.invariant start fun _ _ _ before _ taken =>
    have after := step_inv before.1 taken
    ⟨after.1,after.2.shows before.2⟩
  exact both.2

def single : System :=
  ⟨singleMap,[⟨7,0,initClusterMapObjectService .offline⟩],[],[],none⟩

theorem single_started : Started single where
  addressable := by
    have indexed := installed_single.indexes
    rwa [indexAfter,if_pos (by decide)] at indexed
  offline := by decide
  listed := by decide
  nodes := by
    intro node member
    obtain rfl := List.mem_singleton.mp member
    exact ⟨rfl,.offline,rfl⟩
  quiet := ⟨rfl,rfl,rfl⟩

/-- The object service reports that it is ready to join, and syncs when it has the answer. -/
def joining : List Action :=
  [.node 0 .tick 1,.node 0 (.run 0 true) 1,.handle 0,.deliver 0,.node 0 (.run 1 true) 1,.node 0 (.run 1 true) 1,
    .node 0 (.run 1 true) 1,.node 0 (.run 1 true) 1,.node 0 (.run 1 true) 1]

/-- The sync completes, and the object service reports that it is online. -/
def joined : List Action :=
  [.node 0 (.syncCallback 0) 1,.node 0 (.run 2 true) 1,.node 0 (.run 2 true) 1,.node 0 .tick 2,.node 0 (.run 3 true) 2,.handle 0]

theorem cluster_safe_single : ∃ s, execute step single (joining ++ joined) = some s ∧
    s.os_map.object_service_list.map ObjectService.status = [word .online] ∧ Safe s :=
  ⟨_,rfl,by decide,cluster_safe single_started (Reachable.start.run (joining ++ joined) rfl)⟩

theorem never_offline_again_single : ∃ s s', execute step single joining = some s ∧
    execute step s [.loseRequest 0,.loseResponse 0] = some s' ∧
    ∃ os ∈ s'.os_map.object_service_list, os.id = 7 ∧ os.status ≠ word .offline :=
  ⟨_,_,rfl,rfl,never_offline_again single_started (Reachable.start.run joining rfl) ⟨_,List.mem_singleton.mpr rfl,rfl,by decide⟩
    (Reachable.start.run [.loseRequest 0,.loseResponse 0] rfl)⟩

end Muti.ClusterProtocol
