import Muti.Memory
import Muti.Transition

/-! How an object service joins the cluster. Keep-alive ticks, their answers, the change-log
answers and the completions of syncs with the master node run as threads that share the
status it requests; every test and every store of that status is a step of its own. -/
namespace Muti.ObjectServiceJoin

open Muti.Memory Muti.Transition

inductive ObjectServiceStatus where
  | online
  | syncing
  | offline
  | readyToJoin
  | error
  deriving DecidableEq, Repr

/-- An answer to a keep-alive: an error, or the monitor's version beside the local one. -/
inductive Answer where
  | error
  | older
  | same
  | newer
  deriving DecidableEq, Repr

/-- What a thread does next. `tested` tells a store of `ReadyToJoin` behind a test of
`req_status` from one after a request that could not be sent; `since` tells when a sync was
started. -/
inductive Op where
  | sendKeepAlive
  | keepAliveCallback (answer : Answer)
  | sendChangeLog
  | changeLogCallback (error : Bool)
  | osOffline (tested : Bool)
  | reqReadyToJoin (tested : Bool)
  | reqSyncing
  | osSyncing
  | hkCallback (sync : Bool)
  | syncMasterNode
  | osOnline (since : Nat)
  | reqOnline (since : Nat)
  deriving DecidableEq, Repr

/-- `busy` is the status of the housekeeping worker. `keepAlives` and `changeLogs` are the
requests without an answer, `syncs` the syncs in flight. `joins` counts the transitions of
`req_status` to `ReadyToJoin`; `syncs` and `onlines` tell of each sync, and of each store of
`Online`, how many there had been when the sync was started, and at the store. -/
structure State where
  req_status : ObjectServiceStatus
  os_status : ObjectServiceStatus
  busy : Bool
  keepAlives : Nat
  changeLogs : Nat
  syncs : List Nat
  joins : Nat
  onlines : List (Nat × Nat)
  threads : List (List Op)
  fault : Option Fault
  deriving DecidableEq, Repr

/-- The map has been read from a file or from the monitor, with the status it has there. -/
def initClusterMapObjectService (os_status : ObjectServiceStatus) : State where
  req_status := .readyToJoin
  os_status := os_status
  busy := false
  keepAlives := 0
  changeLogs := 0
  syncs := []
  joins := 0
  onlines := []
  threads := []
  fault := none

/-- One operation; `sent` is what `sendRequest` returns. -/
def exec (s : State) (sent : Bool) : Op → State × List Op
  | .sendKeepAlive => if sent then ({ s with keepAlives := s.keepAlives + 1 },[]) else (s,[.osOffline false])
  | .keepAliveCallback .error => (s,if s.req_status ≠ .syncing then [.osOffline true] else [.hkCallback false])
  | .keepAliveCallback .newer => (s,[.sendChangeLog])
  | .keepAliveCallback .older => ({ s with fault := some .assertion },[])
  | .keepAliveCallback .same => (s,if s.req_status = .readyToJoin then [.reqSyncing] else [.hkCallback false])
  | .sendChangeLog => if sent then ({ s with changeLogs := s.changeLogs + 1 },[]) else (s,[.osOffline false])
  | .changeLogCallback error =>
    (s,if error = true ∧ s.req_status ≠ .syncing then [.osOffline true] else [.hkCallback false])
  | .osOffline tested => ({ s with os_status := .offline },[.reqReadyToJoin tested])
  | .reqReadyToJoin _ =>
    ({ s with req_status := .readyToJoin, joins := if s.req_status = .readyToJoin then s.joins else s.joins + 1 },
      [.hkCallback false])
  | .reqSyncing => ({ s with req_status := .syncing },[.osSyncing])
  | .osSyncing => ({ s with os_status := .syncing },[.hkCallback true])
  | .hkCallback sync =>
    if s.busy then ({ s with busy := false },if sync then [.syncMasterNode] else [])
    else ({ s with fault := some .assertion },[])
  | .syncMasterNode => ({ s with syncs := s.joins :: s.syncs },[])
  | .osOnline since => ({ s with os_status := .online },[.reqOnline since])
  | .reqOnline since => ({ s with req_status := .online, onlines := (since,s.joins) :: s.onlines },[])

/-- The housekeeping starts its worker again once it has been called back, a request is
answered, a sync completes, or a thread does its next operation. -/
inductive Action where
  | tick
  | keepAliveCallback (answer : Answer)
  | changeLogCallback (error : Bool)
  | syncCallback (since : Nat)
  | run (thread : Nat) (sent : Bool)
  deriving DecidableEq, Repr

def spawn (s : State) (op : Op) : State := { s with threads := s.threads ++ [[op]] }

def step (s : State) (a : Action) : Option State :=
  if s.fault ≠ none then none
  else match a with
    | .tick => if s.busy then none else some (spawn { s with busy := true } .sendKeepAlive)
    | .keepAliveCallback answer =>
      if 0 < s.keepAlives then some (spawn { s with keepAlives := s.keepAlives - 1 } (.keepAliveCallback answer)) else none
    | .changeLogCallback error =>
      if 0 < s.changeLogs then some (spawn { s with changeLogs := s.changeLogs - 1 } (.changeLogCallback error)) else none
    | .syncCallback since =>
      if since ∈ s.syncs then some (spawn { s with syncs := s.syncs.erase since } (.osOnline since)) else none
    | .run thread sent =>
      match s.threads[thread]? with
      | some (op :: rest) =>
        let done := exec s sent op
        some { done.1 with threads := s.threads.set thread (done.2 ++ rest) }
      | _ => none

@[simp] def chained : Op → Nat
  | .syncMasterNode | .osOnline _ | .reqOnline _ => 0
  | _ => 1

@[simp] def starting : Op → Nat
  | .osSyncing | .syncMasterNode => 1
  | .hkCallback sync => sync.toNat
  | _ => 0

@[simp] def completing : Op → Nat
  | .osOnline _ | .reqOnline _ => 1
  | _ => 0

@[simp] def joining : Op → Nat
  | .reqSyncing => 1
  | _ => 0

@[simp] def leaving : Op → Nat
  | .osOffline tested | .reqReadyToJoin tested => tested.toNat
  | _ => 0

/-- A completing sync that was started before the last transition to `ReadyToJoin`. -/
@[simp] def stale (joins : Nat) : Op → Nat
  | .osOnline since | .reqOnline since => if since = joins then 0 else 1
  | _ => 0

/-- A request could not be sent, and `req_status` is made `ReadyToJoin` while a sync is on its way. -/
def Interrupts (s : State) : Op → Prop
  | .reqReadyToJoin false => s.req_status = .syncing
  | _ => False

def Orderly (s : State) : Action → Prop
  | .run thread _ => ∀ ops ∈ s.threads[thread]?, ∀ op ∈ ops.head?, ¬Interrupts s op
  | _ => True

/-- The syncs, from the decision to start one to its completion, and the state they are in. -/
def State.tokens (s : State) : Nat := total starting s.threads + s.syncs.length + total completing s.threads

structure Inv (s : State) : Prop where
  chain : total chained s.threads + s.keepAlives + s.changeLogs ≤ s.busy.toNat
  token : s.tokens = if s.req_status = .syncing then 1 else 0
  ready : 0 < total joining s.threads → s.req_status = .readyToJoin
  unsynced : 0 < total leaving s.threads → s.req_status ≠ .syncing
  fresh : ∀ since ∈ s.syncs, since = s.joins
  current : total (stale s.joins) s.threads = 0
  onlines : ∀ online ∈ s.onlines, online.1 = online.2

theorem init_inv (os_status : ObjectServiceStatus) : Inv (initClusterMapObjectService os_status) where
  chain := Nat.le_refl 0
  token := rfl
  ready := nofun
  unsynced := nofun
  fresh := nofun
  current := rfl
  onlines := nofun

theorem Inv.same {s s' : State} {i : Nat} (inv : Inv s) (here : s.threads[i]? = some (op :: rest))
    (status : s'.req_status = s.req_status ∧ s'.joins = s.joins ∧ s'.onlines = s.onlines)
    (chain : (ops.map chained).sum + s'.keepAlives + s'.changeLogs + s.busy.toNat ≤
      chained op + s.keepAlives + s.changeLogs + s'.busy.toNat)
    (tokens : (ops.map starting).sum + s'.syncs.length + (ops.map completing).sum =
      starting op + s.syncs.length + completing op)
    (ready : 0 < (ops.map joining).sum → s.req_status = .readyToJoin)
    (unsynced : leaving op < (ops.map leaving).sum → s.req_status ≠ .syncing)
    (fresh : s'.syncs = s.syncs ∨ s'.syncs = s.joins :: s.syncs)
    (current : (ops.map (stale s.joins)).sum ≤ stale s.joins op) :
    Inv { s' with threads := s.threads.set i (ops ++ rest) } := by
  obtain ⟨status,joins,onlines⟩ := status
  have chains := total_advance chained here ops
  have starts := total_advance starting here ops
  have completes := total_advance completing here ops
  have joined := total_advance joining here ops
  have left := total_advance leaving here ops
  have olds := total_advance (stale s.joins) here ops
  refine ⟨?_,?_,?_,?_,?_,?_,?_⟩
  · have before := inv.chain
    simp only
    omega
  · have before := inv.token
    simp only [State.tokens,status] at before ⊢
    omega
  · intro some
    simp only [status] at some ⊢
    by_cases already : 0 < total joining s.threads
    · exact inv.ready already
    · exact ready (by omega)
  · intro some
    simp only [status] at some ⊢
    by_cases already : 0 < total leaving s.threads
    · exact inv.unsynced already
    · exact unsynced (by omega)
  · have before := inv.fresh
    rcases fresh with old | new
    · simpa only [old,joins] using before
    · simpa only [new,joins,List.forall_mem_cons,true_and] using before
  · have before := inv.current
    simp only [joins]
    omega
  · intro online inside
    simp only [onlines] at inside
    exact inv.onlines online inside

/-- One thread at a time is at work between two ticks. -/
theorem Inv.alone {i : Nat} (inv : Inv s) (here : s.threads[i]? = some (op :: rest)) (chains : chained op = 1)
    (weight : Op → Nat) (mine : weight op = 0) (less : ∀ op, weight op ≤ chained op) : total weight s.threads = 0 := by
  have chain := inv.chain
  have others := total_advance weight here []
  have chained := total_advance chained here []
  have fewer := total_mono less (s.threads.set i ([] ++ rest))
  have one : s.busy.toNat ≤ 1 := Bool.toNat_le s.busy
  simp only [List.map_nil,List.sum_nil] at others chained
  omega

theorem joining_le (op : Op) : joining op ≤ chained op := by
  cases op <;> simp

theorem leaving_le (op : Op) : leaving op ≤ chained op := by
  cases op <;> simp [Bool.toNat_le]

theorem stale_le (joins : Nat) (op : Op) : stale joins op ≤ completing op := by
  cases op <;> simp <;> split <;> simp

/-- Nothing is in flight when `req_status` becomes ready to join. -/
theorem Inv.rejoins {i : Nat} (inv : Inv s) (here : s.threads[i]? = some (.reqReadyToJoin tested :: rest))
    (settled : s.req_status ≠ .syncing) :
    Inv { s with
      req_status := .readyToJoin
      joins := if s.req_status = .readyToJoin then s.joins else s.joins + 1
      threads := s.threads.set i (.hkCallback false :: rest) } := by
  have chains := total_advance chained here [.hkCallback false]
  have starts := total_advance starting here [.hkCallback false]
  have completes := total_advance completing here [.hkCallback false]
  have token := inv.token
  rw [if_neg settled] at token
  simp only [State.tokens] at token
  simp at chains starts completes
  have uncompleted : total completing (s.threads.set i (.hkCallback false :: rest)) = 0 := by omega
  generalize now : (if s.req_status = .readyToJoin then s.joins else s.joins + 1) = joins
  have olds := total_mono (stale_le joins) (s.threads.set i (.hkCallback false :: rest))
  refine ⟨?_,?_,fun _ => rfl,fun _ => nofun,?_,?_,inv.onlines⟩
  · have before := inv.chain
    simp
    omega
  · simp only [State.tokens]
    rw [if_neg nofun]
    omega
  · intro since inside
    have none := List.length_pos_of_mem inside
    simp only at none
    omega
  · rw [uncompleted] at olds
    exact Nat.le_zero.mp olds

theorem Inv.syncs {i : Nat} (inv : Inv s) (here : s.threads[i]? = some (.reqSyncing :: rest)) :
    Inv { s with req_status := .syncing, threads := s.threads.set i (.osSyncing :: rest) } := by
  have chains := total_advance chained here [.osSyncing]
  have starts := total_advance starting here [.osSyncing]
  have completes := total_advance completing here [.osSyncing]
  have joined := total_advance joining here [.osSyncing]
  have left := total_advance leaving here [.osSyncing]
  have olds := total_advance (stale s.joins) here [.osSyncing]
  have nobody := inv.alone here rfl leaving rfl leaving_le
  have mine := weight_le_total joining here
  have ready := inv.ready mine
  have token := inv.token
  have current := inv.current
  have before := inv.chain
  have one : s.busy.toNat ≤ 1 := Bool.toNat_le s.busy
  have fewer := total_mono joining_le s.threads
  rw [ready,if_neg nofun] at token
  simp only [State.tokens] at token
  simp at chains starts completes joined left olds
  refine ⟨?_,?_,?_,?_,inv.fresh,?_,inv.onlines⟩
  · simp
    omega
  · simp only [State.tokens,if_true]
    omega
  · intro some
    simp only at some
    omega
  · intro some
    simp only at some
    omega
  · simp
    omega

/-- The one sync there is completes, and was started after the last transition. -/
theorem Inv.completes {i : Nat} (inv : Inv s) (here : s.threads[i]? = some (.reqOnline since :: rest)) :
    Inv { s with
      req_status := .online
      onlines := (since,s.joins) :: s.onlines
      threads := s.threads.set i rest } := by
  have chains := total_advance chained here []
  have starts := total_advance starting here []
  have completes := total_advance completing here []
  have joined := total_advance joining here []
  have olds := total_advance (stale s.joins) here []
  have token := inv.token
  have current := inv.current
  have before := inv.chain
  have mine := weight_le_total (stale s.joins) here
  have nobody : total joining s.threads = 0 := by
    by_contra some
    have ready := inv.ready (Nat.pos_of_ne_zero some)
    rw [ready,if_neg nofun] at token
    simp only [State.tokens] at token
    simp at completes
    omega
  have one : s.tokens ≤ 1 := by
    rw [token]
    split <;> omega
  simp only [State.tokens] at one
  simp at chains starts completes joined olds
  refine ⟨?_,?_,?_,fun _ => nofun,inv.fresh,?_,?_⟩
  · simp only
    omega
  · simp only [State.tokens]
    rw [if_neg nofun]
    omega
  · intro some
    simp only at some
    omega
  · simp only
    omega
  · intro online inside
    rcases List.mem_cons.mp inside with rfl | old
    · by_contra differ
      simp only at differ
      simp [differ] at mine
      omega
    · exact inv.onlines online old

theorem exec_inv {i : Nat} (inv : Inv s) (here : s.threads[i]? = some (op :: rest)) (orderly : ¬Interrupts s op)
    (sent : Bool) :
    Inv { (exec s sent op).1 with threads := s.threads.set i ((exec s sent op).2 ++ rest) } := by
  cases op with
  | sendKeepAlive | sendChangeLog =>
    cases sent with
    | true =>
      refine inv.same here ⟨rfl,rfl,rfl⟩ ?_ ?_ ?_ ?_ ?_ ?_ <;> simp [exec,Nat.add_comm,Nat.add_left_comm]
    | false =>
      refine inv.same here ⟨rfl,rfl,rfl⟩ ?_ ?_ ?_ ?_ ?_ ?_ <;> simp [exec]
  | keepAliveCallback answer =>
    cases answer with
    | error =>
      by_cases syncing : s.req_status = .syncing
      · refine inv.same here ⟨rfl,rfl,rfl⟩ ?_ ?_ ?_ ?_ ?_ ?_ <;> simp [exec,syncing]
      · refine inv.same here ⟨rfl,rfl,rfl⟩ ?_ ?_ ?_ ?_ ?_ ?_ <;> simp [exec,syncing]
    | older => refine inv.same here ⟨rfl,rfl,rfl⟩ ?_ ?_ ?_ ?_ ?_ ?_ <;> simp [exec]
    | newer =>
      refine inv.same here ⟨rfl,rfl,rfl⟩ ?_ ?_ ?_ ?_ ?_ ?_ <;> simp [exec]
    | same =>
      by_cases ready : s.req_status = .readyToJoin
      · refine inv.same here ⟨rfl,rfl,rfl⟩ ?_ ?_ ?_ ?_ ?_ ?_ <;> simp [exec,ready]
      · refine inv.same here ⟨rfl,rfl,rfl⟩ ?_ ?_ ?_ ?_ ?_ ?_ <;> simp [exec,ready]
  | changeLogCallback error =>
    by_cases leaves : error = true ∧ s.req_status ≠ .syncing
    · refine inv.same here ⟨rfl,rfl,rfl⟩ ?_ ?_ ?_ ?_ ?_ ?_ <;> simp [exec,leaves]
    · refine inv.same here ⟨rfl,rfl,rfl⟩ ?_ ?_ ?_ ?_ ?_ ?_ <;> simp [exec,leaves]
  | osOffline tested =>
    refine inv.same here ⟨rfl,rfl,rfl⟩ ?_ ?_ ?_ ?_ ?_ ?_ <;> simp [exec]
  | reqReadyToJoin tested =>
    have settled : s.req_status ≠ .syncing := by
      cases tested with
      | false => exact orderly
      | true =>
        have mine := weight_le_total leaving here
        exact inv.unsynced mine
    exact inv.rejoins here settled
  | reqSyncing => exact inv.syncs here
  | osSyncing =>
    refine inv.same here ⟨rfl,rfl,rfl⟩ ?_ ?_ ?_ ?_ ?_ ?_ <;> simp [exec]
  | hkCallback sync =>
    have chain := inv.chain
    have mine := weight_le_total chained here
    have busy : s.busy = true := by
      cases busy : s.busy with
      | true => rfl
      | false =>
        simp [busy] at chain mine
        omega
    cases sync with
    | true =>
      refine inv.same here ⟨?_,?_,?_⟩ ?_ ?_ ?_ ?_ ?_ ?_ <;> simp [exec,busy,Nat.add_assoc,Nat.add_comm,Nat.add_left_comm]
    | false =>
      refine inv.same here ⟨?_,?_,?_⟩ ?_ ?_ ?_ ?_ ?_ ?_ <;> simp [exec,busy,Nat.add_assoc,Nat.add_comm,Nat.add_left_comm]
  | syncMasterNode =>
    refine inv.same here ⟨rfl,rfl,rfl⟩ ?_ ?_ ?_ ?_ ?_ ?_ <;> simp [exec]
    omega
  | osOnline since =>
    refine inv.same here ⟨rfl,rfl,rfl⟩ ?_ ?_ ?_ ?_ ?_ ?_ <;> simp [exec]
  | reqOnline since => exact inv.completes here

/-- A thread starts with what the housekeeping or an answer hands over. -/
theorem spawn_inv (inv : Inv s) (op : Op) (busy : Bool) (keepAlives changeLogs : Nat) (syncs : List Nat)
    (chain : chained op + keepAlives + changeLogs + s.busy.toNat ≤ s.keepAlives + s.changeLogs + busy.toNat)
    (tokens : starting op + completing op + syncs.length = s.syncs.length)
    (quiet : joining op = 0 ∧ leaving op = 0 ∧ stale s.joins op = 0) (fresh : ∀ since ∈ syncs, since ∈ s.syncs) :
    Inv (spawn { s with busy, keepAlives, changeLogs, syncs } op) := by
  have chains := total_spawn chained s.threads op
  have starts := total_spawn starting s.threads op
  have completes := total_spawn completing s.threads op
  have joined := total_spawn joining s.threads op
  have left := total_spawn leaving s.threads op
  have olds := total_spawn (stale s.joins) s.threads op
  refine ⟨?_,?_,?_,?_,fun since inside => inv.fresh since (fresh since inside),?_,inv.onlines⟩
  · have before := inv.chain
    simp only [spawn]
    omega
  · have same : total starting (s.threads ++ [[op]]) + syncs.length + total completing (s.threads ++ [[op]]) = s.tokens := by
      simp only [State.tokens]
      omega
    exact same.trans inv.token
  · intro some
    simp only [spawn] at some ⊢
    exact inv.ready (by omega)
  · intro some
    simp only [spawn] at some ⊢
    exact inv.unsynced (by omega)
  · have before := inv.current
    simp only [spawn]
    omega

theorem step_inv (inv : Inv s) (orderly : Orderly s a) (taken : step s a = some s') : Inv s' := by
  by_cases running : s.fault ≠ none
  · simp [step,running] at taken
  cases a with
  | tick =>
    simp only [step,if_neg running,Option.ite_none_left_eq_some,Option.some.injEq] at taken
    obtain ⟨idle,rfl⟩ := taken
    refine spawn_inv inv .sendKeepAlive true s.keepAlives s.changeLogs s.syncs ?_ ?_ ⟨rfl,rfl,rfl⟩ fun _ inside => inside
    · simp [idle]
      omega
    · simp
  | keepAliveCallback answer =>
    simp only [step,if_neg running,Option.ite_none_right_eq_some,Option.some.injEq] at taken
    obtain ⟨some,rfl⟩ := taken
    refine spawn_inv inv _ s.busy (s.keepAlives - 1) s.changeLogs s.syncs ?_ ?_ ⟨rfl,rfl,rfl⟩ fun _ inside => inside
    · simp
      omega
    · simp
  | changeLogCallback error =>
    simp only [step,if_neg running,Option.ite_none_right_eq_some,Option.some.injEq] at taken
    obtain ⟨some,rfl⟩ := taken
    refine spawn_inv inv _ s.busy s.keepAlives (s.changeLogs - 1) s.syncs ?_ ?_ ⟨rfl,rfl,rfl⟩ fun _ inside => inside
    · simp
      omega
    · simp
  | syncCallback since =>
    simp only [step,if_neg running,Option.ite_none_right_eq_some,Option.some.injEq] at taken
    obtain ⟨flying,rfl⟩ := taken
    have fresh := inv.fresh since flying
    have fewer := List.length_erase_of_mem flying
    have some := List.length_pos_of_mem flying
    refine spawn_inv inv _ s.busy s.keepAlives s.changeLogs (s.syncs.erase since) ?_ ?_ ⟨rfl,rfl,?_⟩ ?_
    · simp
    · simp
      omega
    · simp [fresh]
    · exact fun _ inside => List.mem_of_mem_erase inside
  | run thread sent =>
    rcases here : s.threads[thread]? with _ | _ | ⟨op,rest⟩
    · simp [step,running,here] at taken
    · simp [step,running,here] at taken
    · simp only [step,if_neg running,here,Option.some.injEq] at taken
      subst taken
      exact exec_inv inv here (orderly _ here _ rfl) sent

def State.inFlight (s : State) : Nat := s.syncs.length + total completing s.threads

/-- As long as no request that cannot be sent interrupts a sync: there is one sync in flight
at most, and `req_status` was never made `Online` by one that was started before the last
transition to `ReadyToJoin`. -/
theorem join_protocol (reachable : Reachable step Orderly (initClusterMapObjectService os_status) s) :
    s.inFlight ≤ 1 ∧ ∀ online ∈ s.onlines, online.1 = online.2 := by
  have inv := reachable.invariant (init_inv os_status) fun _ _ _ inv orderly taken => step_inv inv orderly taken
  refine ⟨?_,inv.onlines⟩
  have token := inv.token
  have one : s.tokens ≤ 1 := by
    rw [token]
    split <;> omega
  simp only [State.tokens,State.inFlight] at one ⊢
  omega

instance (s : State) : (op : Op) → Decidable (Interrupts s op)
  | .reqReadyToJoin false => inferInstanceAs (Decidable (s.req_status = .syncing))
  | .reqReadyToJoin true | .sendKeepAlive | .keepAliveCallback _ | .sendChangeLog | .changeLogCallback _ | .osOffline _
  | .reqSyncing | .osSyncing | .hkCallback _ | .syncMasterNode | .osOnline _ | .reqOnline _ =>
    inferInstanceAs (Decidable False)

instance (s : State) : (a : Action) → Decidable (Orderly s a)
  | .run thread _ => inferInstanceAs (Decidable (∀ ops ∈ s.threads[thread]?, ∀ op ∈ ops.head?, ¬Interrupts s op))
  | .tick | .keepAliveCallback _ | .changeLogCallback _ | .syncCallback _ => inferInstanceAs (Decidable True)

/-- A keep-alive is answered, with the two versions equal, and a sync is started. -/
def startSync (sender answered : Nat) : List Action :=
  [.tick,.run sender true,.keepAliveCallback .same,.run answered true,.run answered true,.run answered true,
    .run answered true,.run answered true]

/-- Online, offline by an error, and online again, each by a sync of its own. -/
def joinedTwice : List Action :=
  startSync 0 1 ++ [.syncCallback 0,.run 2 true,.run 2 true] ++
    [.tick,.run 3 true,.keepAliveCallback .error,.run 4 true,.run 4 true,.run 4 true,.run 4 true] ++
    startSync 5 6 ++ [.syncCallback 1,.run 7 true,.run 7 true]

theorem join_protocol_twice :
    ∃ s, execute step (initClusterMapObjectService .offline) joinedTwice = some s ∧ s.onlines = [(1,1),(0,0)] ∧
      ∀ online ∈ s.onlines, online.1 = online.2 := by
  have orderly : Permitted step Orderly (initClusterMapObjectService .offline) joinedTwice := by decide +kernel
  have reachable := Reachable.start.execute joinedTwice orderly rfl
  exact ⟨_,rfl,rfl,(join_protocol reachable).2⟩

/-- While a sync is in flight, a keep-alive cannot be sent; the next one is answered. -/
def interrupted : List Action :=
  startSync 0 1 ++ [.tick,.run 2 false,.run 2 false,.run 2 false,.run 2 false] ++ startSync 3 4

/-- Two syncs are in flight, and the first one to complete makes the service `Online`,
started before `req_status` became `ReadyToJoin` again. -/
theorem stale_sync_online :
    ∃ s s', Reachable step (fun _ _ => True) (initClusterMapObjectService .offline) s ∧ s.inFlight = 2 ∧
      execute step s [.syncCallback 0,.run 5 true,.run 5 true] = some s' ∧
      s'.req_status = .online ∧ s'.onlines = [(0,1)] := by
  exact ⟨_,_,Reachable.start.run interrupted rfl,rfl,rfl,rfl,rfl⟩

end Muti.ObjectServiceJoin
