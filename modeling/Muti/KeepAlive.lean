import Muti.Lists
import Muti.ObjectServiceJoin

/-! The ticks of an object service's keep-alive. A tick allocates an argument that goes from
callback to callback, holds references to the cluster map on the way, and ends with one call
back of the house-keeping; the destruction of the map runs beside. -/
namespace Muti.KeepAlive

open Muti.Lists Muti.Memory Muti.Transition
open Muti.ObjectServiceJoin (ObjectServiceStatus Answer)

/-- Who calls `clusterMapGetObjectServiceMap`. A tick is known by the number of its argument. -/
inductive Caller where
  | worker (tick : Nat)
  | callback (tick : Nat) (answer : Answer)
  | other
  deriving DecidableEq, Repr

/-- Whose reference it is. The one of the keep-alive's callback may go on to the callbacks after it. -/
inductive Holder where
  | worker (tick : Nat)
  | callback (tick : Nat)
  | other
  deriving DecidableEq, Repr

def Caller.holder : Caller → Holder
  | .worker tick => .worker tick
  | .callback tick _ => .callback tick
  | .other => .other

/-- What a thread does next. `readArg` begins a callback, `storeArg` stores `os_map` and `os`.
`fromArg` tells that `hk_callback` is read from the argument, `destroy` who releases the map:
the destruction or the last put. -/
inductive Op where
  | getMap (caller : Caller)
  | refer (caller : Caller)
  | sendKeepAlive (tick : Nat)
  | readArg (tick : Nat)
  | keepAliveCallback (tick : Nat) (answer : Answer)
  | storeArg (tick : Nat)
  | sendChangeLog (tick : Nat)
  | changeLogCallback (tick : Nat) (error : Bool)
  | osOffline
  | reqReadyToJoin
  | reqSyncing
  | osSyncing
  | hkCallback (tick : Nat) (fromArg : Bool)
  | syncMasterNode (tick : Nat)
  | osOnline
  | reqOnline
  | putMap (holder : Holder)
  | putSynced (tick : Nat)
  | freeArg (tick : Nat)
  | listDel
  | waitWaiting
  | freeWorker
  | freeOSMap (destroy : Bool)
  | clear (destroy : Bool)
  | freePriv
  deriving DecidableEq, Repr

/-- What is allocated: a tick's argument, the map, the private part of the cluster map with
its client, and the house-keeping's worker. -/
inductive Block where
  | arg (tick : Nat)
  | map
  | priv
  | worker
  deriving DecidableEq, Repr

def touches : Op → List Block
  | .getMap _ | .sendChangeLog _ | .changeLogCallback _ _ | .reqReadyToJoin | .reqSyncing | .reqOnline | .clear _
  | .freePriv => [.priv]
  | .refer _ | .sendKeepAlive _ | .keepAliveCallback _ _ | .freeOSMap _ => [.map,.priv]
  | .readArg tick | .storeArg tick | .freeArg tick => [.arg tick]
  | .hkCallback tick fromArg => if fromArg then [.arg tick,.worker] else [.worker]
  | .osOffline | .osSyncing | .osOnline | .putMap _ | .putSynced _ => [.map]
  | .syncMasterNode _ => []
  | .listDel | .waitWaiting | .freeWorker => [.worker]

/-- `busy` and `counter` are the worker's, `listed` tells whether the house-keeping still has it.
`ticks` counts the arguments allocated; `keepAlives` and `changeLogs` are the requests without
an answer, `syncs` the syncs in flight, by their argument, and `held` the references others
have. `called` tells of the calls back, `freed` of the arguments freed, `gets` and `puts` of
the references taken and given back. -/
structure State where
  req_status : ObjectServiceStatus
  os_status : ObjectServiceStatus
  busy : Bool
  counter : Int
  listed : Bool
  reference : Int32
  os_map : Bool
  ticks : Nat
  keepAlives : List Nat
  changeLogs : List Nat
  syncs : List Nat
  held : Nat
  called : List Nat
  freed : List Nat
  gets : List Holder
  puts : List Holder
  destroying : Bool
  workerFreed : Bool
  released : Bool
  privFreed : Bool
  threads : List (List Op)
  fault : Option Fault
  deriving DecidableEq, Repr

def interval : Int := 5

/-- A map with the object service in it, and its worker just added. -/
def start (req_status os_status : ObjectServiceStatus) : State where
  req_status := req_status
  os_status := os_status
  busy := false
  counter := interval
  listed := true
  reference := 1
  os_map := true
  ticks := 0
  keepAlives := []
  changeLogs := []
  syncs := []
  held := 0
  called := []
  freed := []
  gets := []
  puts := []
  destroying := false
  workerFreed := false
  released := false
  privFreed := false
  threads := []
  fault := none

def gone (s : State) : Block → Bool
  | .arg tick => decide (tick ∈ s.freed)
  | .map => s.released
  | .priv => s.privFreed
  | .worker => s.workerFreed

def Caller.got (s : State) : Caller → State × List Op
  | .worker tick => (s,[.sendKeepAlive tick])
  | .callback tick answer => (s,[.keepAliveCallback tick answer])
  | .other => ({ s with held := s.held + 1 },[])

def finish (tick : Nat) : List Op := [.putMap (.callback tick),.hkCallback tick true,.freeArg tick]

def put (s : State) (holder : Holder) : State × List Op :=
  ({ s with reference := s.reference - 1, puts := holder :: s.puts },if s.reference - 1 = 0 then [.freeOSMap false] else [])

/-- One operation; `sent` is what `sendRequest` returns. -/
def exec (s : State) (sent : Bool) : Op → Except Fault (State × List Op)
  | .getMap caller =>
    if s.os_map then .ok (s,[.refer caller]) else match caller with
      | .worker _ => .error .nullPointer
      | .callback _ _ => .error .assertion
      | .other => .ok (s,[])
  | .refer caller =>
    .ok (caller.got { s with reference := s.reference + 1, gets := caller.holder :: s.gets })
  | .sendKeepAlive tick =>
    .ok (if sent then ({ s with keepAlives := tick :: s.keepAlives },[.putMap (.worker tick)])
    else (s,[.osOffline,.putMap (.worker tick),.reqReadyToJoin,.hkCallback tick false,.freeArg tick]))
  | .readArg _ | .storeArg _ => .ok (s,[])
  | .keepAliveCallback tick .error =>
    .ok (s,if s.req_status ≠ .syncing then .osOffline :: .reqReadyToJoin :: finish tick else finish tick)
  | .keepAliveCallback _ .older => .error .assertion
  | .keepAliveCallback tick .newer => .ok (s,[.storeArg tick,.sendChangeLog tick])
  | .keepAliveCallback tick .same =>
    .ok (s,if s.req_status = .readyToJoin then
      [.reqSyncing,.osSyncing,.storeArg tick,.hkCallback tick true,.syncMasterNode tick]
    else finish tick)
  | .sendChangeLog tick =>
    .ok (if sent then ({ s with changeLogs := tick :: s.changeLogs },[])
    else (s,[.osOffline,.putMap (.callback tick),.reqReadyToJoin,.hkCallback tick true,.freeArg tick]))
  | .changeLogCallback tick error =>
    .ok (s,if error = true ∧ s.req_status ≠ .syncing then .osOffline :: .reqReadyToJoin :: finish tick else finish tick)
  | .osOffline => .ok ({ s with os_status := .offline },[])
  | .reqReadyToJoin => .ok ({ s with req_status := .readyToJoin },[])
  | .reqSyncing => .ok ({ s with req_status := .syncing },[])
  | .osSyncing => .ok ({ s with os_status := .syncing },[])
  | .hkCallback tick _ =>
    if s.busy = true ∧ s.counter = 0 then
      .ok ({ s with counter := interval, busy := false, called := tick :: s.called },[])
    else .error .assertion
  | .syncMasterNode tick => .ok ({ s with syncs := tick :: s.syncs },[])
  | .osOnline => .ok ({ s with os_status := .online },[])
  | .reqOnline => .ok ({ s with req_status := .online },[])
  | .putMap holder => .ok (put s holder)
  | .putSynced tick => .ok (put s (.callback tick))
  | .freeArg tick => .ok ({ s with freed := tick :: s.freed },[])
  | .listDel => .ok ({ s with listed := false },[.waitWaiting])
  | .waitWaiting => .ok (s,[.freeWorker])
  | .freeWorker => .ok ({ s with workerFreed := true },[.freeOSMap true])
  | .freeOSMap destroy => .ok ({ s with released := true },[.clear destroy])
  | .clear destroy => .ok ({ s with os_map := false },if destroy then [.freePriv] else [])
  | .freePriv => .ok ({ s with privFreed := true },[])

/-- `second` is a round of the house-keeping's thread. Requests are answered, syncs complete,
others get the map and put what they got, `destroy` is called, or a thread goes on. -/
inductive Action where
  | second
  | keepAliveCallback (tick : Nat) (answer : Answer)
  | changeLogCallback (tick : Nat) (error : Bool)
  | syncCallback (tick : Nat)
  | get
  | put
  | destroy
  | run (thread : Nat) (sent : Bool)
  deriving DecidableEq, Repr

def spawn (s : State) (ops : List Op) : State := { s with threads := s.threads ++ [ops] }

def Sleeps (s : State) (op : Op) : Prop := op = .waitWaiting ∧ s.busy = true

instance (s : State) (op : Op) : Decidable (Sleeps s op) := inferInstanceAs (Decidable (op = .waitWaiting ∧ s.busy = true))

/-- A thread's next operation; one that touches what has been freed is a fault. -/
def advance (s : State) (sent : Bool) (thread : Nat) (op : Op) (rest : List Op) : State :=
  if ∃ block ∈ touches op, gone s block = true then { s with fault := some .useAfterFree }
  else match exec s sent op with
    | .ok done => { done.1 with threads := s.threads.set thread (done.2 ++ rest) }
    | .error fault => { s with fault := some fault }

def step (s : State) (a : Action) : Option State :=
  if s.fault ≠ none then none
  else match a with
    | .second =>
      if s.listed = false ∨ s.busy = true then none
      else if s.counter - 1 = 0 then
        some (spawn { s with counter := 0, busy := true, ticks := s.ticks + 1 } [.getMap (.worker s.ticks)])
      else some { s with counter := s.counter - 1 }
    | .keepAliveCallback tick answer =>
      if tick ∈ s.keepAlives then
        some (spawn { s with keepAlives := s.keepAlives.erase tick } [.readArg tick,.getMap (.callback tick answer)])
      else none
    | .changeLogCallback tick error =>
      if tick ∈ s.changeLogs then
        some (spawn { s with changeLogs := s.changeLogs.erase tick } [.readArg tick,.changeLogCallback tick error])
      else none
    | .syncCallback tick =>
      if tick ∈ s.syncs then
        some (spawn { s with syncs := s.syncs.erase tick } [.readArg tick,.osOnline,.reqOnline,.putSynced tick,.freeArg tick])
      else none
    | .get => some (spawn s [.getMap .other])
    | .put => if 0 < s.held then some (spawn { s with held := s.held - 1 } [.putMap .other]) else none
    | .destroy => if s.destroying then none else some (spawn { s with destroying := true } [.listDel])
    | .run thread sent => match s.threads[thread]? with
      | some (op :: rest) => if Sleeps s op then none else some (advance s sent thread op rest)
      | _ => none

@[simp] def due : Op → Option Nat
  | .getMap (.worker tick) | .refer (.worker tick) | .sendKeepAlive tick | .getMap (.callback tick _)
  | .refer (.callback tick _) | .keepAliveCallback tick _ | .sendChangeLog tick | .changeLogCallback tick _
  | .hkCallback tick _ => some tick
  | _ => none

@[simp] def owned : Op → Option Nat
  | .getMap (.worker tick) | .refer (.worker tick) | .sendKeepAlive tick | .getMap (.callback tick _)
  | .refer (.callback tick _) | .keepAliveCallback tick _ | .sendChangeLog tick | .changeLogCallback tick _
  | .syncMasterNode tick | .freeArg tick => some tick
  | _ => none

@[simp] def holds : Op → Option Holder
  | .sendKeepAlive tick => some (.worker tick)
  | .keepAliveCallback tick _ | .sendChangeLog tick | .changeLogCallback tick _ | .syncMasterNode tick
  | .putSynced tick => some (.callback tick)
  | .putMap holder => some holder
  | _ => none

@[simp] def weigh [DecidableEq κ] (role : Op → Option κ) (key : κ) (op : Op) : Nat := if role op = some key then 1 else 0

def State.due (s : State) (tick : Nat) : Nat :=
  total (weigh KeepAlive.due tick) s.threads + s.keepAlives.count tick + s.changeLogs.count tick

def State.owned (s : State) (tick : Nat) : Nat :=
  total (weigh KeepAlive.owned tick) s.threads + s.keepAlives.count tick + s.changeLogs.count tick + s.syncs.count tick

def State.kept (s : State) : Holder → Nat
  | .worker _ => 0
  | .callback tick => s.changeLogs.count tick + s.syncs.count tick
  | .other => s.held

def State.holding (s : State) (holder : Holder) : Nat :=
  total (weigh holds holder) s.threads + s.kept holder

@[simp] def chained (op : Op) : Nat := if (due op).isSome then 1 else 0

/-- A get hands on the reference to take; without a map it must be another holder's. -/
theorem getMap_cases (done : exec s sent (.getMap caller) = .ok (s',ops)) :
    s' = s ∧ (ops = [.refer caller] ∨ caller = .other ∧ ops = []) := by
  cases pointer : s.os_map with
  | true =>
    simp only [exec,pointer,if_true,Except.ok.injEq,Prod.mk.injEq] at done
    exact ⟨done.1.symm,.inl done.2.symm⟩
  | false =>
    cases caller <;> simp [exec,pointer] at done
    exact ⟨done.1.symm,.inr ⟨rfl,done.2⟩⟩

theorem keepAliveCallback_cases (done : exec s sent (.keepAliveCallback tick answer) = .ok (s',ops)) :
    s' = s ∧ (ops = finish tick ∨ ops = .osOffline :: .reqReadyToJoin :: finish tick ∨
      ops = [.storeArg tick,.sendChangeLog tick] ∨
      ops = [.reqSyncing,.osSyncing,.storeArg tick,.hkCallback tick true,.syncMasterNode tick]) := by
  cases answer with
  | older => cases done
  | newer =>
    cases done
    simp
  | error | same =>
    cases done
    split <;> simp

theorem changeLogCallback_cases (done : exec s sent (.changeLogCallback tick error) = .ok (s',ops)) :
    s' = s ∧ (ops = finish tick ∨ ops = .osOffline :: .reqReadyToJoin :: finish tick) := by
  cases done
  split <;> simp

theorem hkCallback_cases (done : exec s sent (.hkCallback tick fromArg) = .ok (s',ops)) :
    s.busy = true ∧ s.counter = 0 ∧ s' = { s with counter := interval, busy := false, called := tick :: s.called } ∧ ops = [] := by
  simp only [exec] at done
  split at done
  · next asserted =>
    cases done
    exact ⟨asserted.1,asserted.2,rfl,rfl⟩
  · cases done

/-- An operation hands on what is ahead of it, or does it. -/
structure Balanced (s : State) (op : Op) (s' : State) (ops : List Op) : Prop where
  ticks : s'.ticks = s.ticks
  called : ∀ tick, s'.called.count tick + s'.keepAlives.count tick + s'.changeLogs.count tick + (ops.map (weigh due tick)).sum =
    s.called.count tick + s.keepAlives.count tick + s.changeLogs.count tick + weigh due tick op
  freed : ∀ tick, s'.freed.count tick + s'.keepAlives.count tick + s'.changeLogs.count tick + s'.syncs.count tick +
      (ops.map (weigh owned tick)).sum =
    s.freed.count tick + s.keepAlives.count tick + s.changeLogs.count tick + s.syncs.count tick + weigh owned tick op
  held : ∀ holder, s.gets.count holder + s'.puts.count holder + s'.kept holder + (ops.map (weigh holds holder)).sum =
    s'.gets.count holder + s.puts.count holder + s.kept holder + weigh holds holder op
  chain : s'.keepAlives.length + s'.changeLogs.length + (ops.map chained).sum + s.busy.toNat =
    s.keepAlives.length + s.changeLogs.length + chained op + s'.busy.toNat
  counter : s'.busy = true → s.busy = true ∧ s'.counter = s.counter

/-- An operation that leaves the logs and the requests alone. -/
theorem Balanced.same (due : ∀ tick, (ops.map (weigh due tick)).sum = weigh KeepAlive.due tick op)
    (owned : ∀ tick, (ops.map (weigh owned tick)).sum = weigh KeepAlive.owned tick op)
    (holds : ∀ holder, (ops.map (weigh holds holder)).sum = weigh KeepAlive.holds holder op)
    (chain : (ops.map chained).sum = chained op) : Balanced s op s ops :=
  ⟨rfl,fun tick => by rw [due],fun tick => by rw [owned],fun holder => by rw [holds],by rw [chain],fun busy => ⟨busy,rfl⟩⟩

theorem exec_balanced (done : exec s sent op = .ok (s',ops)) : Balanced s op s' ops := by
  cases op with
  | getMap caller =>
    obtain ⟨rfl,rfl | ⟨rfl,rfl⟩⟩ := getMap_cases done
    · cases caller <;> apply Balanced.same <;> simp
    · apply Balanced.same <;> simp
  | refer caller =>
    cases caller <;> cases done <;> constructor <;> simp [Caller.holder,State.kept,List.count_cons]
    · omega
    · omega
    · intro holder
      cases holder <;> simp
      omega
  | sendKeepAlive tick =>
    cases sent <;> cases done <;> constructor <;> simp [State.kept,List.count_cons]
    · omega
    · omega
    · omega
  | sendChangeLog tick =>
    cases sent <;> cases done <;> constructor <;> simp [State.kept,List.count_cons]
    · omega
    · omega
    · intro holder
      cases holder <;> simp
      omega
    · omega
  | keepAliveCallback tick answer =>
    obtain ⟨rfl,rfl | rfl | rfl | rfl⟩ := keepAliveCallback_cases done <;> apply Balanced.same <;> simp [finish]
  | changeLogCallback tick error =>
    obtain ⟨rfl,rfl | rfl⟩ := changeLogCallback_cases done <;> apply Balanced.same <;> simp [finish]
  | hkCallback tick fromArg =>
    obtain ⟨busy,_,rfl,rfl⟩ := hkCallback_cases done
    constructor <;> simp [State.kept,List.count_cons,busy]
    omega
  | putMap holder | putSynced tick =>
    cases done
    split <;> constructor <;> simp [State.kept,List.count_cons]
    · omega
    · omega
  | syncMasterNode tick =>
    cases done
    constructor <;> simp [State.kept,List.count_cons]
    · omega
    · intro holder
      cases holder <;> simp
      omega
  | freeArg tick =>
    cases done
    constructor <;> simp [State.kept,List.count_cons]
    omega
  | clear destroy =>
    cases destroy <;> cases done <;> constructor <;> simp [State.kept]
  | readArg tick | storeArg tick | osOffline | reqReadyToJoin | reqSyncing | osSyncing | osOnline | reqOnline | listDel
  | waitWaiting | freeWorker | freeOSMap destroy | freePriv =>
    cases done
    constructor <;> simp [State.kept]

/-- What touches an argument comes before its release or its handing on, in the same thread. -/
def Covered : List Op → Prop
  | [] => True
  | op :: rest => (∀ tick, .arg tick ∈ touches op → ∃ later ∈ op :: rest, owned later = some tick) ∧ Covered rest

theorem Covered.append (front : Covered ops) (back : Covered rest) : Covered (ops ++ rest) := by
  induction ops with
  | nil => exact back
  | cons op ops ih =>
    obtain ⟨now,later⟩ := front
    refine ⟨?_,ih later⟩
    intro tick touched
    obtain ⟨next,member,owner⟩ := now tick touched
    exact ⟨next,List.mem_append_left rest member,owner⟩

/-- Nothing that comes behind an operation is left to the rest of its thread. -/
theorem exec_covered (done : exec s sent op = .ok (s',ops)) : Covered ops := by
  cases op with
  | getMap caller =>
    obtain ⟨_,rfl | ⟨_,rfl⟩⟩ := getMap_cases done
    · simp [Covered,touches]
    · trivial
  | refer caller =>
    cases caller <;> cases done <;> simp [Covered,touches]
  | sendKeepAlive tick | sendChangeLog tick =>
    cases sent <;> cases done <;> simp [Covered,touches]
  | keepAliveCallback tick answer =>
    obtain ⟨_,rfl | rfl | rfl | rfl⟩ := keepAliveCallback_cases done <;> simp [Covered,touches,finish]
  | changeLogCallback tick error =>
    obtain ⟨_,rfl | rfl⟩ := changeLogCallback_cases done <;> simp [Covered,touches,finish]
  | hkCallback tick fromArg =>
    obtain ⟨_,_,_,rfl⟩ := hkCallback_cases done
    trivial
  | putMap holder | putSynced tick =>
    cases done
    split <;> simp [Covered,touches]
  | clear destroy =>
    cases destroy <;> cases done <;> simp [Covered,touches]
  | _ =>
    cases done
    simp [Covered,touches]

/-- What `removeWorker` does while the worker is still there. -/
def removes : Op → Bool
  | .listDel | .waitWaiting => true
  | _ => false

/-- The answers that are lower than the local version. -/
@[simp] def outdated : Op → Nat
  | .getMap (.callback _ .older) | .refer (.callback _ .older) | .keepAliveCallback _ .older => 1
  | _ => 0

/-- How much an operation leaves to do, with all that follows from it, its own step counted. -/
@[simp] def size : Op → Nat
  | .getMap (.worker _) => 26
  | .refer (.worker _) => 25
  | .sendKeepAlive _ => 24
  | .getMap (.callback _ _) => 17
  | .refer (.callback _ _) => 16
  | .keepAliveCallback _ _ => 15
  | .getMap .other => 2
  | .refer .other => 1
  | .sendChangeLog _ => 12
  | .changeLogCallback _ _ => 9
  | .syncMasterNode _ => 10
  | .putMap _ | .putSynced _ => 4
  | .listDel => 6
  | .waitWaiting => 5
  | .freeWorker => 4
  | .freeOSMap _ => 3
  | .clear _ => 2
  | _ => 1

def State.left (s : State) : Nat :=
  total size s.threads + 19 * s.keepAlives.length + 11 * s.changeLogs.length + 9 * s.syncs.length +
    if s.fault = none then 1 else 0

/-- An operation goes on in what it leaves, and makes the rest smaller. -/
structure Onward (s : State) (op : Op) (s' : State) (ops : List Op) : Prop where
  removes : (∀ next ∈ ops, removes next = false) ∨ op = .listDel ∧ ops = [.waitWaiting]
  outdated : (ops.map outdated).sum ≤ outdated op
  size : (ops.map size).sum + 19 * s'.keepAlives.length + 11 * s'.changeLogs.length + 9 * s'.syncs.length <
    size op + 19 * s.keepAlives.length + 11 * s.changeLogs.length + 9 * s.syncs.length
  running : s'.fault = s.fault

theorem exec_onward (done : exec s sent op = .ok (s',ops)) : Onward s op s' ops := by
  cases op with
  | getMap caller =>
    obtain ⟨rfl,rfl | ⟨rfl,rfl⟩⟩ := getMap_cases done
    · rcases caller with _ | ⟨_,_ | _⟩ | _ <;> constructor <;> simp [removes]
    · constructor <;> simp
  | refer caller =>
    rcases caller with _ | ⟨_,_ | _⟩ | _ <;> cases done <;> constructor <;> simp [removes]
  | sendKeepAlive tick | sendChangeLog tick =>
    cases sent <;> cases done <;> constructor <;> simp [removes]
    omega
  | keepAliveCallback tick answer =>
    obtain ⟨rfl,rfl | rfl | rfl | rfl⟩ := keepAliveCallback_cases done <;> constructor <;> simp [removes,finish]
  | changeLogCallback tick error =>
    obtain ⟨rfl,rfl | rfl⟩ := changeLogCallback_cases done <;> constructor <;> simp [removes,finish]
  | hkCallback tick fromArg =>
    obtain ⟨_,_,rfl,rfl⟩ := hkCallback_cases done
    constructor <;> simp
  | putMap holder | putSynced tick =>
    cases done
    split <;> constructor <;> simp [removes]
  | clear destroy =>
    cases destroy <;> cases done <;> constructor <;> simp [removes]
  | syncMasterNode tick =>
    cases done
    constructor <;> simp
    omega
  | _ =>
    cases done
    constructor <;> simp [removes]

structure Inv (s : State) : Prop where
  called : ∀ tick, s.called.count tick + s.due tick = if tick < s.ticks then 1 else 0
  freed : ∀ tick, s.freed.count tick + s.owned tick = if tick < s.ticks then 1 else 0
  held : ∀ holder, s.gets.count holder = s.puts.count holder + s.holding holder
  chain : total chained s.threads + s.keepAlives.length + s.changeLogs.length = s.busy.toNat
  counter : s.busy = true → s.counter = 0
  covered : ∀ ops ∈ s.threads, Covered ops
  alone : ∀ ops ∈ s.threads, ∀ op ∈ ops, removes op = true → ops = [op]

@[simp] theorem kept_threads (s : State) (threads : List (List Op)) (holder : Holder) :
    State.kept { s with threads } holder = s.kept holder := by
  cases holder <;> rfl

theorem Inv.run {i : Nat} (inv : Inv s) (here : s.threads[i]? = some (op :: rest)) (done : exec s sent op = .ok (s',ops)) :
    Inv { s' with threads := s.threads.set i (ops ++ rest) } := by
  have balanced := exec_balanced done
  have inThreads := List.mem_of_getElem? here
  refine ⟨?_,?_,?_,?_,?_,?_,?_⟩
  · intro tick
    have advanced := total_advance (weigh due tick) here ops
    have before := inv.called tick
    have moved := balanced.called tick
    simp only [State.due,balanced.ticks] at before ⊢
    omega
  · intro tick
    have advanced := total_advance (weigh owned tick) here ops
    have before := inv.freed tick
    have moved := balanced.freed tick
    simp only [State.owned,balanced.ticks] at before ⊢
    omega
  · intro holder
    have advanced := total_advance (weigh holds holder) here ops
    have before := inv.held holder
    have moved := balanced.held holder
    simp only [State.holding,kept_threads] at before ⊢
    omega
  · have advanced := total_advance chained here ops
    have before := inv.chain
    have moved := balanced.chain
    simp only
    omega
  · intro busy
    obtain ⟨was,same⟩ := balanced.counter busy
    exact same.trans (inv.counter was)
  · intro thread member
    rcases List.mem_or_eq_of_mem_set member with old | rfl
    · exact inv.covered thread old
    · exact (exec_covered done).append (inv.covered _ inThreads).2
  · intro thread member next inside removing
    rcases List.mem_or_eq_of_mem_set member with old | rfl
    · exact inv.alone thread old next inside removing
    · have whole := inv.alone _ inThreads
      rcases List.mem_append.mp inside with new | behind
      · rcases (exec_onward done).removes with none | ⟨rfl,rfl⟩
        · simp [none next new] at removing
        · obtain rfl : rest = [] := by simpa using whole .listDel List.mem_cons_self rfl
          obtain rfl := List.mem_singleton.mp new
          rfl
      · have alone := whole next (List.mem_cons_of_mem op behind) removing
        obtain ⟨_,rfl⟩ := List.cons.inj alone
        simp at behind

/-- A thread begins with what was ahead elsewhere, or is ahead of a new tick. -/
theorem Inv.spawn {s' : State} (inv : Inv s) (threads : s'.threads = s.threads)
    (called : ∀ tick, s'.called.count tick + s'.keepAlives.count tick + s'.changeLogs.count tick +
        (ops.map (weigh due tick)).sum + (if tick < s.ticks then 1 else 0) =
      s.called.count tick + s.keepAlives.count tick + s.changeLogs.count tick + if tick < s'.ticks then 1 else 0)
    (freed : ∀ tick, s'.freed.count tick + s'.keepAlives.count tick + s'.changeLogs.count tick + s'.syncs.count tick +
        (ops.map (weigh owned tick)).sum + (if tick < s.ticks then 1 else 0) =
      s.freed.count tick + s.keepAlives.count tick + s.changeLogs.count tick + s.syncs.count tick +
        if tick < s'.ticks then 1 else 0)
    (held : ∀ holder, s.gets.count holder + s'.puts.count holder + s'.kept holder + (ops.map (weigh holds holder)).sum =
      s'.gets.count holder + s.puts.count holder + s.kept holder)
    (chain : s'.keepAlives.length + s'.changeLogs.length + (ops.map chained).sum + s.busy.toNat =
      s.keepAlives.length + s.changeLogs.length + s'.busy.toNat)
    (counter : s'.busy = true → s'.counter = 0) (covered : Covered ops)
    (alone : ∀ op ∈ ops, removes op = true → ops = [op]) : Inv (spawn s' ops) := by
  refine ⟨?_,?_,?_,?_,counter,?_,?_⟩
  · intro tick
    have before := inv.called tick
    have begun := called tick
    simp only [KeepAlive.spawn,State.due,threads,total_append,total_cons,total_nil] at before ⊢
    omega
  · intro tick
    have before := inv.freed tick
    have begun := freed tick
    simp only [KeepAlive.spawn,State.owned,threads,total_append,total_cons,total_nil] at before ⊢
    omega
  · intro holder
    have before := inv.held holder
    have begun := held holder
    simp only [KeepAlive.spawn,State.holding,kept_threads,threads,total_append,total_cons,total_nil] at before ⊢
    omega
  · have before := inv.chain
    simp only [KeepAlive.spawn,threads,total_append,total_cons,total_nil]
    omega
  · intro thread member
    simp only [KeepAlive.spawn,threads] at member
    rcases List.mem_append.mp member with old | new
    · exact inv.covered thread old
    · obtain rfl := List.mem_singleton.mp new
      exact covered
  · intro thread member
    simp only [KeepAlive.spawn,threads] at member
    rcases List.mem_append.mp member with old | new
    · exact inv.alone thread old
    · obtain rfl := List.mem_singleton.mp new
      exact alone

/-- A fault stops the run before anything else has changed. -/
theorem advance_cases (s : State) (sent : Bool) (thread : Nat) (op : Op) (rest : List Op) :
    (∃ fault, advance s sent thread op rest = { s with fault := some fault }) ∨
    ∃ s' ops, exec s sent op = .ok (s',ops) ∧
      advance s sent thread op rest = { s' with threads := s.threads.set thread (ops ++ rest) } := by
  by_cases touched : ∃ block ∈ touches op, gone s block = true
  · exact .inl ⟨.useAfterFree,if_pos touched⟩
  · rw [advance,if_neg touched]
    cases done : exec s sent op with
    | error fault => exact .inl ⟨fault,rfl⟩
    | ok result => exact .inr ⟨result.1,result.2,rfl,rfl⟩

theorem Inv.stopped (inv : Inv s) (fault : Option Fault) : Inv { s with fault } :=
  ⟨inv.called,inv.freed,inv.held,inv.chain,inv.counter,inv.covered,inv.alone⟩

theorem Inv.ticks (inv : Inv s) (idle : s.busy = false) : Inv (KeepAlive.spawn { s with
    counter := 0
    busy := true
    ticks := s.ticks + 1 } [.getMap (.worker s.ticks)]) := by
  have begun : ∀ tick, (if tick ≤ s.ticks then 1 else 0) = (if tick < s.ticks then 1 else 0) + if s.ticks = tick then 1 else 0 := by
    intro tick
    split <;> split <;> split <;> omega
  apply inv.spawn
  · rfl
  · intro tick
    have one := begun tick
    simp only [List.map_cons,weigh,due,Option.some.injEq,List.map_nil,List.sum_cons,List.sum_nil,Nat.lt_add_one_iff]
    omega
  · intro tick
    have one := begun tick
    simp only [List.map_cons,weigh,owned,Option.some.injEq,List.map_nil,List.sum_cons,List.sum_nil,Nat.lt_add_one_iff]
    omega
  · intro holder
    cases holder <;> simp [State.kept]
  · simp [idle]
  · exact fun _ => rfl
  · simp [Covered,touches]
  · simp [removes]

theorem Inv.answered (inv : Inv s) (waits : tick ∈ s.keepAlives) (answer : Answer) : Inv (KeepAlive.spawn { s with
    keepAlives := s.keepAlives.erase tick } [.readArg tick,.getMap (.callback tick answer)]) := by
  have less := count_erase waits
  have shorter := List.length_erase_add_one waits
  apply inv.spawn
  · rfl
  · intro key
    have answered := less key
    simp
    omega
  · intro key
    have answered := less key
    simp
    omega
  · intro holder
    cases holder <;> simp [State.kept]
  · simp
    omega
  · exact inv.counter
  · simp [Covered,touches]
  · simp [removes]

theorem Inv.changed (inv : Inv s) (waits : tick ∈ s.changeLogs) (error : Bool) : Inv (KeepAlive.spawn { s with
    changeLogs := s.changeLogs.erase tick } [.readArg tick,.changeLogCallback tick error]) := by
  have less := count_erase waits
  have shorter := List.length_erase_add_one waits
  apply inv.spawn
  · rfl
  · intro key
    have answered := less key
    simp
    omega
  · intro key
    have answered := less key
    simp
    omega
  · intro holder
    cases holder with
    | callback key =>
      have answered := less key
      simp [State.kept]
      omega
    | worker key | other => simp [State.kept]
  · simp
    omega
  · exact inv.counter
  · simp [Covered,touches]
  · simp [removes]

theorem Inv.synced (inv : Inv s) (waits : tick ∈ s.syncs) : Inv (KeepAlive.spawn { s with
    syncs := s.syncs.erase tick } [.readArg tick,.osOnline,.reqOnline,.putSynced tick,.freeArg tick]) := by
  have less := count_erase waits
  apply inv.spawn
  · rfl
  · intro key
    simp
  · intro key
    have completed := less key
    simp
    omega
  · intro holder
    cases holder with
    | callback key =>
      have completed := less key
      simp [State.kept]
      omega
    | worker key | other => simp [State.kept]
  · simp
  · exact inv.counter
  · simp [Covered,touches]
  · simp [removes]

/-- What has nothing to do with the ticks begins beside them. -/
theorem Inv.beside (inv : Inv s) (held : Nat) (destroying : Bool) (undue : due op = none) (unowned : owned op = none)
    (references : ∀ holder, State.kept { s with held } holder + weigh holds holder op = s.kept holder)
    (loose : ∀ tick, .arg tick ∉ touches op) : Inv (KeepAlive.spawn { s with
      held
      destroying } [op]) := by
  have called : ∀ tick, weigh due tick op = 0 := by
    intro tick
    simp only [weigh,undue]
    simp
  have freed : ∀ tick, weigh owned tick op = 0 := by
    intro tick
    simp only [weigh,unowned]
    simp
  have unchained : chained op = 0 := by
    simp only [chained,undue]
    simp
  apply inv.spawn
  · rfl
  · intro tick
    simp only [List.map_cons,List.map_nil,List.sum_cons,List.sum_nil,called]
    omega
  · intro tick
    simp only [List.map_cons,List.map_nil,List.sum_cons,List.sum_nil,freed]
    omega
  · intro holder
    have given := references holder
    simp only [List.map_cons,List.map_nil,List.sum_cons,List.sum_nil]
    cases holder <;> simp only [State.kept] at given ⊢ <;> omega
  · simp only [List.map_cons,List.map_nil,List.sum_cons,List.sum_nil,unchained]
    omega
  · exact inv.counter
  · simp [Covered,loose]
  · simp

theorem step_inv (inv : Inv s) (taken : step s a = some s') : Inv s' := by
  simp only [step,ite_not,Option.ite_none_right_eq_some] at taken
  obtain ⟨_,taken⟩ := taken
  cases a with
  | second =>
    simp only [Option.ite_none_left_eq_some,not_or,Bool.not_eq_true] at taken
    obtain ⟨⟨_,idle⟩,taken⟩ := taken
    split at taken
    · cases taken
      exact inv.ticks idle
    · cases taken
      exact { inv with counter := fun busy => by simp [idle] at busy }
  | keepAliveCallback tick answer =>
    simp only [Option.ite_none_right_eq_some,Option.some.injEq] at taken
    obtain ⟨waits,rfl⟩ := taken
    exact inv.answered waits answer
  | changeLogCallback tick error =>
    simp only [Option.ite_none_right_eq_some,Option.some.injEq] at taken
    obtain ⟨waits,rfl⟩ := taken
    exact inv.changed waits error
  | syncCallback tick =>
    simp only [Option.ite_none_right_eq_some,Option.some.injEq] at taken
    obtain ⟨waits,rfl⟩ := taken
    exact inv.synced waits
  | get =>
    cases taken
    apply inv.beside s.held s.destroying rfl rfl
    · simp
    · simp [touches]
  | put =>
    simp only [Option.ite_none_right_eq_some,Option.some.injEq] at taken
    obtain ⟨some,rfl⟩ := taken
    apply inv.beside (s.held - 1) s.destroying rfl rfl
    · intro holder
      cases holder <;> simp [State.kept]
      omega
    · simp [touches]
  | destroy =>
    simp only [Option.ite_none_left_eq_some,Option.some.injEq] at taken
    obtain ⟨_,rfl⟩ := taken
    apply inv.beside s.held true rfl rfl
    · simp
    · simp [touches]
  | run thread sent =>
    rcases here : s.threads[thread]? with _ | _ | ⟨op,rest⟩
    · simp [here] at taken
    · simp [here] at taken
    · simp only [here,Option.ite_none_left_eq_some,Option.some.injEq] at taken
      obtain ⟨_,rfl⟩ := taken
      rcases advance_cases s sent thread op rest with ⟨fault,stops⟩ | ⟨s',ops,done,goes⟩
      · rw [stops]
        exact inv.stopped (some fault)
      · rw [goes]
        exact inv.run here done

def Intact (s : State) : Prop :=
  s.os_map = true ∧ s.released = false ∧ s.privFreed = false ∧ s.workerFreed = false

def Current (_ : State) : Action → Prop
  | .keepAliveCallback _ answer => answer ≠ .older
  | _ => True

theorem Inv.unfreed (inv : Inv s) (thread : ops ∈ s.threads) (inside : op ∈ ops) (owner : owned op = some tick) : tick ∉ s.freed := by
  intro member
  have mine := weight_le_of_mem (weigh owned tick) thread inside
  have once := inv.freed tick
  have freed := List.count_pos_iff.mpr member
  simp only [weigh,owner,if_true,State.owned] at mine once
  split at once <;> omega

theorem Inv.unused (inv : Inv s) (thread : op :: rest ∈ s.threads) (touched : .arg tick ∈ touches op) : tick ∉ s.freed := by
  obtain ⟨now,_⟩ := inv.covered _ thread
  obtain ⟨later,inside,owner⟩ := now tick touched
  exact inv.unfreed thread inside owner

/-- Before a call back of the house-keeping the worker is busy. -/
theorem Inv.asserted (inv : Inv s) (thread : ops ∈ s.threads) (inside : .hkCallback tick fromArg ∈ ops) :
    s.busy = true ∧ s.counter = 0 := by
  have mine := weight_le_of_mem chained thread inside
  have chain := inv.chain
  have busy : s.busy = true := by
    by_contra idle
    simp only [Bool.not_eq_true] at idle
    simp [idle] at chain mine
    omega
  exact ⟨busy,inv.counter busy⟩

/-- As long as the pointer to the map is there, no operation fails. -/
theorem exec_ok {i : Nat} (inv : Inv s) (here : s.threads[i]? = some (op :: rest)) (current : total outdated s.threads = 0)
    (pointer : s.os_map = true) (sent : Bool) : ∃ s' ops, exec s sent op = .ok (s',ops) := by
  have thread := List.mem_of_getElem? here
  cases done : exec s sent op with
  | ok result => exact ⟨result.1,result.2,rfl⟩
  | error fault =>
    cases op with
    | getMap caller => simp [exec,pointer] at done
    | keepAliveCallback tick answer =>
      cases answer with
      | older =>
        have mine := weight_le_total outdated here
        simp [current] at mine
      | _ => cases done
    | hkCallback tick fromArg =>
      have asserted := inv.asserted thread List.mem_cons_self
      simp [exec,asserted] at done
    | _ => cases done

theorem advance_fault {i : Nat} (inv : Inv s) (here : s.threads[i]? = some (op :: rest)) (current : total outdated s.threads = 0)
    (running : s.fault = none) (sent : Bool) : (advance s sent i op rest).fault = none ∨ ¬Intact s := by
  by_cases intact : Intact s
  · obtain ⟨pointer,unreleased,priv,worker⟩ := intact
    have present : ¬∃ block ∈ touches op, gone s block = true := by
      rintro ⟨block,touched,lost⟩
      cases block with
      | arg tick => exact inv.unused (List.mem_of_getElem? here) touched (by simpa [gone] using lost)
      | map => simp [gone,unreleased] at lost
      | priv => simp [gone,priv] at lost
      | worker => simp [gone,worker] at lost
    obtain ⟨s',ops,done⟩ := exec_ok inv here current pointer sent
    rw [advance,if_neg present,done]
    exact .inl ((exec_onward done).running.trans running)
  · exact .inr intact

structure Sound (s : State) : Prop where
  current : total outdated s.threads = 0
  running : Intact s → s.fault = none

theorem step_sound (inv : Inv s) (sound : Sound s) (current : Current s a) (taken : step s a = some s') : Sound s' := by
  simp only [step,ite_not,Option.ite_none_right_eq_some] at taken
  obtain ⟨running,taken⟩ := taken
  have nobody := sound.current
  cases a with
  | second =>
    simp only [Option.ite_none_left_eq_some] at taken
    obtain ⟨_,taken⟩ := taken
    split at taken <;> cases taken
    · exact ⟨by simp [spawn,nobody],fun _ => running⟩
    · exact ⟨nobody,fun _ => running⟩
  | keepAliveCallback tick answer =>
    simp only [Option.ite_none_right_eq_some,Option.some.injEq] at taken
    obtain ⟨waits,rfl⟩ := taken
    refine ⟨?_,fun _ => running⟩
    cases answer with
    | older => exact absurd rfl current
    | _ => simp [spawn,nobody]
  | changeLogCallback tick error | syncCallback tick | put =>
    simp only [Option.ite_none_right_eq_some,Option.some.injEq] at taken
    obtain ⟨waits,rfl⟩ := taken
    exact ⟨by simp [spawn,nobody],fun _ => running⟩
  | get =>
    cases taken
    exact ⟨by simp [spawn,nobody],fun _ => running⟩
  | destroy =>
    simp only [Option.ite_none_left_eq_some,Option.some.injEq] at taken
    obtain ⟨_,rfl⟩ := taken
    exact ⟨by simp [spawn,nobody],fun _ => running⟩
  | run thread sent =>
    rcases here : s.threads[thread]? with _ | _ | ⟨op,rest⟩
    · simp [here] at taken
    · simp [here] at taken
    · simp only [here,Option.ite_none_left_eq_some,Option.some.injEq] at taken
      obtain ⟨_,rfl⟩ := taken
      have cause := advance_fault inv here nobody running sent
      rcases advance_cases s sent thread op rest with ⟨fault,stops⟩ | ⟨s',ops,done,goes⟩
      · rw [stops] at cause ⊢
        exact ⟨nobody,fun intact => cause.resolve_right (not_not.mpr intact)⟩
      · have advanced := total_advance outdated here ops
        have fewer := (exec_onward done).outdated
        rw [goes]
        refine ⟨?_,fun _ => (exec_onward done).running.trans running⟩
        simp only
        omega

/-- The answers to a tick's requests, the end of its sync, and the threads at work. -/
def Serves : Action → Prop
  | .keepAliveCallback _ _ | .changeLogCallback _ _ | .syncCallback _ | .run _ _ => True
  | _ => False

/-- Between two ticks there is an end to what they leave to do. -/
theorem step_left (serves : Serves a) (taken : step s a = some s') : s'.left < s.left := by
  simp only [step,ite_not,Option.ite_none_right_eq_some] at taken
  obtain ⟨running,taken⟩ := taken
  cases a with
  | second | get | put | destroy => exact serves.elim
  | keepAliveCallback tick answer =>
    simp only [Option.ite_none_right_eq_some,Option.some.injEq] at taken
    obtain ⟨waits,rfl⟩ := taken
    have shorter := List.length_erase_add_one waits
    simp [State.left,spawn,running]
    omega
  | changeLogCallback tick error =>
    simp only [Option.ite_none_right_eq_some,Option.some.injEq] at taken
    obtain ⟨waits,rfl⟩ := taken
    have shorter := List.length_erase_add_one waits
    simp [State.left,spawn,running]
    omega
  | syncCallback tick =>
    simp only [Option.ite_none_right_eq_some,Option.some.injEq] at taken
    obtain ⟨waits,rfl⟩ := taken
    have shorter := List.length_erase_add_one waits
    simp [State.left,spawn,running]
    omega
  | run thread sent =>
    rcases here : s.threads[thread]? with _ | _ | ⟨op,rest⟩
    · simp [here] at taken
    · simp [here] at taken
    · simp only [here,Option.ite_none_left_eq_some,Option.some.injEq] at taken
      obtain ⟨_,rfl⟩ := taken
      rcases advance_cases s sent thread op rest with ⟨fault,stops⟩ | ⟨s',ops,done,goes⟩
      · rw [stops]
        simp [State.left,running]
      · have advanced := total_advance size here ops
        have smaller := (exec_onward done).size
        have same := (exec_onward done).running
        rw [goes]
        simp only [State.left,same]
        omega

/-- Where nothing is left to do but for `removeWorker` to sleep, every tick is settled. -/
theorem Inv.settled (inv : Inv s) (running : s.fault = none) (stuck : ∀ a, Serves a → step s a = none) :
    s.keepAlives = [] ∧ s.changeLogs = [] ∧ s.syncs = [] ∧ ∀ ops ∈ s.threads, ops = [] ∨ ops = [.waitWaiting] := by
  refine ⟨?_,?_,?_,?_⟩
  · apply List.eq_nil_iff_forall_not_mem.mpr
    intro tick waits
    have never := stuck (.keepAliveCallback tick .same) trivial
    simp [step,running,waits] at never
  · apply List.eq_nil_iff_forall_not_mem.mpr
    intro tick waits
    have never := stuck (.changeLogCallback tick false) trivial
    simp [step,running,waits] at never
  · apply List.eq_nil_iff_forall_not_mem.mpr
    intro tick waits
    have never := stuck (.syncCallback tick) trivial
    simp [step,running,waits] at never
  · intro ops thread
    obtain ⟨i,here⟩ := List.mem_iff_getElem?.mp thread
    cases ops with
    | nil => exact .inl rfl
    | cons op rest =>
      have never := stuck (.run i true) trivial
      simp only [step,running,here,ne_eq,not_true_eq_false,if_false,ite_eq_left_iff,reduceCtorEq,imp_false,not_not] at never
      obtain ⟨rfl,_⟩ := never
      exact .inr (inv.alone _ thread .waitWaiting List.mem_cons_self rfl)

theorem reachable_inv (reachable : Reachable step Current (start req_status os_status) s) : Inv s ∧ Sound s := by
  induction reachable with
  | start =>
    refine ⟨⟨fun _ => rfl,fun _ => rfl,?_,rfl,nofun,nofun,nofun⟩,⟨rfl,fun _ => rfl⟩⟩
    intro holder
    cases holder <;> rfl
  | step _ current taken ih =>
    obtain ⟨inv,sound⟩ := ih
    exact ⟨step_inv inv taken,step_sound inv sound current taken⟩

/-- For every tick, whatever `req_status` was and however its requests and its sync end: the
house-keeping is called back once or has it ahead, the argument is freed once, or has it
ahead, and not used then, every reference is given back once or held, the run goes on as
long as nothing of the map is released, and when it comes to an end between two ticks,
as it must, nothing is ahead or held any more. -/
theorem keep_alive_balanced (reachable : Reachable step Current (start req_status os_status) s) (started : tick < s.ticks) :
    s.called.count tick + s.due tick = 1 ∧ s.freed.count tick + s.owned tick = 1 ∧
    (∀ holder, s.gets.count holder = s.puts.count holder + s.holding holder) ∧
    (∀ ops ∈ s.threads, ∀ op ∈ ops.head?, .arg tick ∈ touches op → tick ∉ s.freed) ∧
    (Intact s → s.fault = none) ∧ (∀ a s', Serves a → step s a = some s' → s'.left < s.left) ∧
    (s.fault = none → (∀ a, Serves a → step s a = none) →
      s.called.count tick = 1 ∧ s.freed.count tick = 1 ∧
      s.gets.count (.worker tick) = s.puts.count (.worker tick) ∧
      s.gets.count (.callback tick) = s.puts.count (.callback tick)) := by
  obtain ⟨inv,sound⟩ := reachable_inv reachable
  have called := inv.called tick
  have freed := inv.freed tick
  rw [if_pos started] at called freed
  refine ⟨called,freed,inv.held,?_,sound.running,fun a s' serves taken => step_left serves taken,?_⟩
  · intro ops thread op first touched
    obtain ⟨rest,rfl⟩ : ∃ rest, ops = op :: rest := by
      cases ops with
      | nil => simp at first
      | cons head rest => exact ⟨rest,by simpa using first⟩
    exact inv.unused thread touched
  · intro running stuck
    obtain ⟨noKeepAlive,noChangeLog,noSync,ended⟩ := inv.settled running stuck
    have nothing : ∀ weight : Op → Nat, weight .waitWaiting = 0 → total weight s.threads = 0 := by
      intro weight idle
      rw [total_eq_zero]
      intro ops thread op inside
      rcases ended ops thread with rfl | rfl
      · simp at inside
      · obtain rfl := List.mem_singleton.mp inside
        exact idle
    have worker := inv.held (.worker tick)
    have callback := inv.held (.callback tick)
    simp only [State.due,State.owned,State.holding,State.kept,noKeepAlive,noChangeLog,noSync,List.count_nil] at called freed worker callback
    rw [nothing _ rfl] at called freed worker callback
    exact ⟨called,freed,worker,callback⟩

instance (s : State) : (a : Action) → Decidable (Current s a)
  | .keepAliveCallback _ answer => inferInstanceAs (Decidable (answer ≠ .older))
  | .second | .changeLogCallback _ _ | .syncCallback _ | .get | .put | .destroy | .run _ _ => inferInstanceAs (Decidable True)

/-- A tick finds a newer version, and the request for the change log fails. -/
def changeLogFails : List Action :=
  [.second,.second,.second,.second,.second,.run 0 true,.run 0 true,.run 0 true,.run 0 true,
    .keepAliveCallback 0 .newer,.run 1 true,.run 1 true,.run 1 true,.run 1 true,.run 1 true,.run 1 true,
    .changeLogCallback 0 true,.run 2 true,.run 2 true,.run 2 true,.run 2 true,.run 2 true,.run 2 true,.run 2 true]

theorem keep_alive_balanced_changeLog :
    ∃ s, execute step (start .online .online) changeLogFails = some s ∧ s.called = [0] ∧ s.freed = [0] ∧
      s.called.count 0 + s.due 0 = 1 ∧ s.freed.count 0 + s.owned 0 = 1 := by
  have current : Permitted step Current (start .online .online) changeLogFails := by decide +kernel
  have reachable := Reachable.start.execute changeLogFails current rfl
  have started : 0 < 1 := Nat.one_pos
  have balanced := keep_alive_balanced reachable started
  exact ⟨_,rfl,rfl,rfl,balanced.1,balanced.2.1⟩

end Muti.KeepAlive
