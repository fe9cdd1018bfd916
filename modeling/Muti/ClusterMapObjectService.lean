import Muti.Cluster
import Muti.ClusterMapAccepted
import Muti.ObjectServiceJoin

/-! How an object service comes by its first cluster map: out of a local file, or from the
monitor, with one epilogue for both. Touching a map that is not there is a fault. -/
namespace Muti.ClusterMapObjectService

open Muti.Memory Muti.Resource Muti.Cluster Muti.ClusterMap
open Muti.ObjectServiceJoin (ObjectServiceStatus)

/-- The word `os_map`; `undefined` is what `malloc` left there if it was not zero. -/
inductive OSMapPointer where
  | null
  | undefined
  | map (os_map : ObjectServiceMap)
  deriving DecidableEq

def OSMapPointer.deref : OSMapPointer → Except Fault ObjectServiceMap
  | .null => .error .nullPointer
  | .undefined => .error .outOfBounds
  | .map os_map => .ok os_map

/-- `hk_worker` tells whether the keep-alive worker is registered; `req_status` is none
until it is first stored. -/
structure ClusterMapObjectServicePrivate where
  os_map : OSMapPointer
  req_status : Option ObjectServiceStatus
  hk_worker : Bool
  deriving DecidableEq

/-- `param.read_buffer_size` of the monitor client. -/
def read_buffer_size : Nat := 2 ^ 22

structure LatestMap where
  received : List UInt8
  fits : received.length ≤ read_buffer_size
  super : Response
  os_map : ObjectServiceMap
  consume_len : UInt64
  decoded : clusterResponseDecoderGetLatestObjectServiceMap received = .ok (.message (.latestMap super os_map) consume_len)

inductive MonResponse where
  | error
  | latest (resp : LatestMap)

/-- What the function does not decide: whether `initClient` succeeds, the content of the
local file, the answer of the monitor (none if the request is not sent), whether the file
can be written, and whether `malloc` hands out memory that is not zero. -/
structure Environment where
  client : Bool
  file : Option (List UInt8)
  answer : Option MonResponse
  writable : Bool
  stale : Bool

def clusterMapFetchOSMapCallback (priv : ClusterMapObjectServicePrivate) :
    MonResponse → Except Fault (Bool × ClusterMapObjectServicePrivate)
  | .error => .ok (false,priv)
  | .latest resp => do
    assert (priv.os_map = .null)
    .ok (true,{ priv with os_map := .map resp.os_map })

def clusterMapFetchOSMapFromMon (env : Environment) (priv : ClusterMapObjectServicePrivate) :
    Except Fault (Bool × ClusterMapObjectServicePrivate) :=
  match env.answer with
  | none => .ok (false,priv)
  | some resp => do
    let (rc,priv) ← clusterMapFetchOSMapCallback priv resp
    if rc then
      let os_map ← priv.os_map.deref
      let _ ← clusterMapDumpObjectServiceMap os_map (clusterMapDumpObjectServiceMapLength os_map)
      assert (env.writable = true)
      .ok (true,priv)
    else .ok (false,priv)

/-- The end both sources of the map share. -/
def startKeepAlive (rc : Bool) (priv : ClusterMapObjectServicePrivate) :
    Except Fault (Bool × ClusterMapObjectServicePrivate) := do
  let os_map ← priv.os_map.deref
  .ok (rc,⟨.map { os_map with reference := 1 },some .readyToJoin,true⟩)

def initClusterMapObjectService (env : Environment) : Except Fault (Bool × ClusterMapObjectServicePrivate) :=
  let priv := ⟨if env.stale then .undefined else .null,none,false⟩
  if env.client = false then .ok (false,priv)
  else
    match env.file with
    | none => do
      let (rc,priv) ← clusterMapFetchOSMapFromMon env priv
      startKeepAlive rc priv
    | some buffer => do
      match ← clusterMapParseObjectServiceMap clearedMap buffer with
      | .rejected os_map =>
        let _ ← clusterMapFreeOSMap os_map
        clusterMapFetchOSMapFromMon env { priv with os_map := .null }
      | .accepted os_map _ => startKeepAlive true { priv with os_map := .map os_map }

/-- A map that came in one read buffer can be dumped. -/
theorem LatestMap.dumps (resp : LatestMap) :
    ∃ buffer, clusterMapDumpObjectServiceMap resp.os_map (clusterMapDumpObjectServiceMapLength resp.os_map) = .ok buffer := by
  obtain ⟨received,fits,super,os_map,consume_len,decoded⟩ := resp
  rw [clusterResponseDecoderGetLatestObjectServiceMap,errorOr] at decoded
  split at decoded
  · cases decoded
  split at decoded
  · cases decoded
  rw [decodeMap] at decoded
  split at decoded
  · cases decoded
  obtain ⟨parsed,run,ended⟩ := bind_ok.mp decoded
  cases parsed with
  | rejected left => cases ended
  | accepted m len =>
    cases ended
    obtain ⟨counts,size,inside⟩ := accepted_counts run
    rw [read_buffer_size] at fits
    rw [List.length_drop] at inside
    have small := Nat.lt_of_le_of_lt (Nat.le_of_eq size) (by omega : len < 2 ^ 31)
    exact ⟨_,dump_ok counts small⟩

theorem fetch_eq (env : Environment) (priv : ClusterMapObjectServicePrivate) :
    clusterMapFetchOSMapFromMon env priv = match env.answer with
      | some (.latest resp) =>
        if priv.os_map = .null ∧ env.writable = true then .ok (true,{ priv with os_map := .map resp.os_map })
        else .error .assertion
      | _ => .ok (false,priv) := by
  rw [clusterMapFetchOSMapFromMon]
  rcases answer : env.answer with _ | _ | resp
  · rfl
  · rfl
  · obtain ⟨buffer,dumped⟩ := resp.dumps
    by_cases null : priv.os_map = .null
    · by_cases writable : env.writable = true
      · simp [clusterMapFetchOSMapCallback,assert,null,writable,OSMapPointer.deref,dumped,bind,Except.bind]
      · simp [clusterMapFetchOSMapCallback,assert,null,writable,OSMapPointer.deref,dumped,bind,Except.bind]
    · simp [clusterMapFetchOSMapCallback,assert,null,bind,Except.bind]

structure Ready (priv : ClusterMapObjectServicePrivate) : Prop where
  os_map : ∃ m, priv.os_map = .map m ∧ m.reference = 1
  req_status : priv.req_status = some .readyToJoin
  hk_worker : priv.hk_worker = true

/-- The function returns, true only when all is ready, and false with nothing registered. -/
def WellDefined (result : Except Fault (Bool × ClusterMapObjectServicePrivate)) : Prop :=
  ∃ rc priv, result = .ok (rc,priv) ∧ if rc then Ready priv else priv.hk_worker = false

/-- The client cannot be started; or there is no file, memory came zeroed, the monitor sends
a map and it can be written; or the file is parsed; or it is too short for a header and the
monitor sends no map. -/
def Initialises (env : Environment) : Prop :=
  env.client = false ∨ match env.file with
    | none => env.stale = false ∧ env.writable = true ∧ ∃ resp, env.answer = some (.latest resp)
    | some buffer => (∃ m len, clusterMapParseObjectServiceMap clearedMap buffer = .ok (.accepted m len)) ∨
      buffer.length < 14 ∧ ∀ resp, env.answer ≠ some (.latest resp)

theorem not_wellDefined_error (reason : Fault) : ¬WellDefined (.error reason) := by
  rintro ⟨rc,priv,done,-⟩
  cases done

theorem startKeepAlive_ready (live : priv.os_map = .map m) : WellDefined (startKeepAlive true priv) := by
  refine ⟨true,⟨.map { m with reference := 1 },some .readyToJoin,true⟩,?_,⟨_,rfl,rfl⟩,rfl,rfl⟩
  rw [startKeepAlive,live]
  rfl

/-- The epilogue reaches through the pointer, map or not. -/
theorem startKeepAlive_missing (missing : ∀ m, priv.os_map ≠ .map m) : ¬WellDefined (startKeepAlive rc priv) := by
  rw [startKeepAlive]
  cases pointer : priv.os_map with
  | null => exact not_wellDefined_error _
  | undefined => exact not_wellDefined_error _
  | map m => exact absurd pointer (missing m)

theorem init_absent_iff (env : Environment) (client : env.client = true) (absent : env.file = none) :
    WellDefined (initClusterMapObjectService env) ↔
      env.stale = false ∧ env.writable = true ∧ ∃ resp, env.answer = some (.latest resp) := by
  have missing : ∀ m, (if env.stale then OSMapPointer.undefined else .null) ≠ .map m := by
    intro m
    cases env.stale <;> simp
  rw [initClusterMapObjectService,if_neg (by simp [client]),absent]
  simp only [fetch_eq]
  cases answer : env.answer with
  | none => exact iff_of_false (startKeepAlive_missing missing) (by simp)
  | some resp =>
    cases resp with
    | error => exact iff_of_false (startKeepAlive_missing missing) (by simp)
    | latest resp =>
      by_cases good : env.stale = false ∧ env.writable = true
      · have fetched : (if env.stale then OSMapPointer.undefined else .null) = .null ∧ env.writable = true := by
          simp [good]
        simp only [if_pos fetched,bind,Except.bind]
        exact iff_of_true (startKeepAlive_ready rfl) ⟨good.1,good.2,resp,rfl⟩
      · have stops : ¬((if env.stale then OSMapPointer.undefined else .null) = .null ∧ env.writable = true) := by
          simpa using good
        simp only [if_neg stops]
        exact iff_of_false (not_wellDefined_error _) fun holds => good ⟨holds.1,holds.2.1⟩

theorem init_present (env : Environment) (client : env.client = true) (present : env.file = some buffer) :
    initClusterMapObjectService env = match clusterMapParseObjectServiceMap clearedMap buffer with
      | .error reason => .error reason
      | .ok (.accepted m _) => startKeepAlive true ⟨.map m,none,false⟩
      | .ok (.rejected left) => clusterMapFreeOSMap left >>= fun _ => clusterMapFetchOSMapFromMon env ⟨.null,none,false⟩ := by
  rw [initClusterMapObjectService,if_neg (by simp [client]),present]
  simp only [bind,Except.bind]
  cases clusterMapParseObjectServiceMap clearedMap buffer with
  | error reason => rfl
  | ok result => cases result <;> rfl

/-- With a file the monitor is asked only behind a rejection, and then nothing may come of it. -/
theorem init_present_iff (env : Environment) (client : env.client = true) (present : env.file = some buffer) :
    WellDefined (initClusterMapObjectService env) ↔
      (∃ m len, clusterMapParseObjectServiceMap clearedMap buffer = .ok (.accepted m len)) ∨
        buffer.length < 14 ∧ ∀ resp, env.answer ≠ some (.latest resp) := by
  rw [init_present env client present]
  by_cases short : buffer.length < 14
  · obtain ⟨left,rejected,null,empty⟩ := parse_headless clearedMap buffer short
    simp only [rejected,freeOSMap_empty null empty,bind,Except.bind,fetch_eq]
    rcases answer : env.answer with _ | _ | resp
    · exact iff_of_true ⟨false,_,rfl,rfl⟩ (by simp [short])
    · exact iff_of_true ⟨false,_,rfl,rfl⟩ (by simp [short])
    · refine iff_of_false ?_ (by simp)
      rintro ⟨rc,priv,done,good⟩
      cases writable : env.writable with
      | true =>
        simp only [writable,and_self,if_true,Except.ok.injEq,Prod.mk.injEq] at done
        obtain ⟨rfl,rfl⟩ := done
        exact absurd good.hk_worker (by simp)
      | false => simp [writable] at done
  · cases parsed : clusterMapParseObjectServiceMap clearedMap buffer with
    | error reason => exact iff_of_false (not_wellDefined_error reason) (by simp [short])
    | ok result =>
      cases result with
      | accepted m len => exact iff_of_true (startKeepAlive_ready rfl) (.inl ⟨m,len,rfl⟩)
      | rejected left =>
        obtain ⟨-,bset⟩ := rejected_left parsed
        rw [if_neg short] at bset
        simp only [freeOSMap_again bset,bind,Except.bind]
        exact iff_of_false (not_wellDefined_error _) (by simp [short])

/-- Exactly then is the state well defined at the end. -/
theorem init_wellDefined_iff (env : Environment) :
    WellDefined (initClusterMapObjectService env) ↔ Initialises env := by
  rw [Initialises]
  cases client : env.client with
  | false =>
    rw [initClusterMapObjectService,if_pos client]
    exact iff_of_true ⟨false,_,rfl,rfl⟩ (.inl rfl)
  | true =>
    simp only [Bool.true_eq_false,false_or]
    cases file : env.file with
    | none => exact init_absent_iff env client file
    | some buffer => exact init_present_iff env client file

def lonely : Environment := ⟨true,none,none,true,false⟩

/-- A file cut off behind its header, and a monitor that cannot be reached. -/
def truncated : Environment := ⟨true,some lonelyHeader,none,true,false⟩

theorem not_wellDefined_lonely :
    initClusterMapObjectService lonely = .error .nullPointer ∧ ¬WellDefined (initClusterMapObjectService lonely) ∧
    initClusterMapObjectService truncated = .error .useAfterFree ∧
      ¬WellDefined (initClusterMapObjectService truncated) := by
  refine ⟨rfl,?_,rfl,?_⟩
  · rintro ⟨rc,priv,done,-⟩
    cases done
  · rintro ⟨rc,priv,done,-⟩
    cases done

end Muti.ClusterMapObjectService
