import Muti.ClusterMapLifetime
import Muti.KeepAlive

/-! The destruction of an object service's cluster map. It waits for the worker of the
keep-alive only, so that what has a reference beyond the call back of the house-keeping, a
sync, a worker that has not put its own or another holder, must be over by then. -/
namespace Muti.KeepAlive

open Muti.Lists Muti.Memory Muti.Transition
open Muti.ClusterMapLifetime (ofNat_zero ofNat_last ofNat_pred)

@[simp] def referring (op : Op) : Nat := if (holds op).isSome then 1 else 0

/-- The references that gets have returned and no put has given back. -/
def State.outstanding (s : State) : Nat :=
  total referring s.threads + s.changeLogs.length + s.syncs.length + s.held

@[simp] def syncing : Op → Nat
  | .syncMasterNode _ | .putSynced _ => 1
  | _ => 0

@[simp] def working : Op → Nat
  | .putMap (.worker _) => 1
  | _ => 0

@[simp] def others : Op → Nat
  | .getMap .other | .refer .other | .putMap .other => 1
  | _ => 0

/-- Every sync is over, every worker has made its put, and nobody else has the map. -/
structure Quiet (s : State) : Prop where
  syncs : s.syncs = []
  synced : total syncing s.threads = 0
  worked : total working s.threads = 0
  held : s.held = 0
  alone : total others s.threads = 0

/-- What the destruction does, in order. -/
inductive Stage where
  | remove
  | wait
  | free
  | release
  | clear
  | last
  deriving DecidableEq, Repr

@[simp] def stage : Op → Option Stage
  | .listDel => some .remove
  | .waitWaiting => some .wait
  | .freeWorker => some .free
  | .freeOSMap _ => some .release
  | .clear _ => some .clear
  | .freePriv => some .last
  | _ => none

@[simp] def lastPut : Op → Nat
  | .freeOSMap false | .clear false => 1
  | _ => 0

theorem lastPut_ordinary (ordinary : stage op = none) : lastPut op = 0 := by
  cases op <;> simp at ordinary ⊢

/-- A get brings the count of 32 bits around to zero. -/
def Crowded (s : State) : Op → Prop
  | .refer _ => s.reference = -1
  | _ => False

/-- The destruction comes to release the map when nobody else is in the way, nobody gets the
map afterwards, and no get finds more references than can be counted. -/
def Timely (s : State) : Action → Prop
  | .run thread _ => ∀ ops ∈ s.threads[thread]?, ∀ op ∈ ops.head?,
    (stage op = some .release → Quiet s) ∧ ¬Crowded s op
  | .keepAliveCallback _ answer => answer ≠ .older
  | .get => s.released = false
  | _ => True

/-- What an operation does to the count, and to what the destruction leaves behind. -/
structure Counts (s : State) (op : Op) (s' : State) (ops : List Op) : Prop where
  taken : s.gets.length + s'.puts.length + s'.changeLogs.length + s'.syncs.length + s'.held + (ops.map referring).sum =
    s'.gets.length + s.puts.length + s.changeLogs.length + s.syncs.length + s.held + referring op
  reference : s'.reference + Int32.ofNat s'.puts.length + Int32.ofNat s.gets.length =
    s.reference + Int32.ofNat s.puts.length + Int32.ofNat s'.gets.length
  more : s'.gets.length = s.gets.length ∧ s.puts.length ≤ s'.puts.length ∨
    (∃ caller, op = .refer caller) ∧ s'.gets.length = s.gets.length + 1 ∧ s'.puts.length = s.puts.length

theorem exec_counts (done : exec s sent op = .ok (s',ops)) : Counts s op s' ops := by
  cases op with
  | getMap caller =>
    obtain ⟨rfl,rfl | ⟨rfl,rfl⟩⟩ := getMap_cases done <;> constructor <;> simp
  | refer caller =>
    cases caller <;> cases done <;> constructor <;> simp [Int32.ofNat_add]
    all_goals first | omega | grind
  | sendKeepAlive tick =>
    cases sent <;> cases done <;> constructor <;> simp
  | sendChangeLog tick =>
    cases sent <;> cases done <;> constructor <;> simp
    omega
  | keepAliveCallback tick answer =>
    obtain ⟨rfl,rfl | rfl | rfl | rfl⟩ := keepAliveCallback_cases done <;> constructor <;> simp [finish]
  | changeLogCallback tick error =>
    obtain ⟨rfl,rfl | rfl⟩ := changeLogCallback_cases done <;> constructor <;> simp [finish]
  | hkCallback tick fromArg =>
    obtain ⟨_,_,rfl,rfl⟩ := hkCallback_cases done
    constructor <;> simp
  | putMap holder | putSynced tick =>
    cases done
    split <;> constructor <;> simp [Int32.ofNat_add]
    all_goals first | omega | grind
  | clear destroy =>
    cases destroy <;> cases done <;> constructor <;> simp
  | syncMasterNode tick =>
    cases done
    constructor <;> simp
    omega
  | _ =>
    cases done
    constructor <;> simp

/-- What a tick, a sync or another holder has left to do is told by one of its operations. -/
@[simp] def tied (op : Op) : Nat := chained op + syncing op + working op + others op

/-- The operations that may be left when nothing is tied any more. -/
def harmless : Op → Bool
  | .freeArg _ | .listDel | .waitWaiting | .freeWorker | .freeOSMap _ | .clear _ | .freePriv => true
  | _ => false

theorem harmless_referring (free : harmless op = true) : referring op = 0 := by
  cases op <;> simp [harmless] at free ⊢

theorem harmless_ordinary (free : harmless op = true) (ordinary : stage op = none) : ∃ tick, op = .freeArg tick := by
  cases op <;> simp [harmless] at free ordinary ⊢

theorem harmless_map (free : harmless op = true) (touched : .map ∈ touches op) : stage op = some .release := by
  cases op <;> simp [harmless,touches] at free touched ⊢

theorem harmless_priv (free : harmless op = true) (touched : .priv ∈ touches op) :
    stage op = some .release ∨ stage op = some .clear ∨ stage op = some .last := by
  cases op <;> simp [harmless,touches] at free touched ⊢

theorem touches_worker (touched : .worker ∈ touches op) :
    chained op = 1 ∨ stage op = some .remove ∨ stage op = some .wait ∨ stage op = some .free := by
  cases op <;> simp [touches] at touched ⊢

def Tied : List Op → Prop
  | [] => True
  | op :: rest => (harmless op = true ∨ ∃ later ∈ op :: rest, 0 < tied later) ∧ Tied rest

theorem Tied.append (front : Tied ops) (back : Tied rest) : Tied (ops ++ rest) := by
  induction ops with
  | nil => exact back
  | cons op ops ih =>
    obtain ⟨now,later⟩ := front
    refine ⟨?_,ih later⟩
    rcases now with free | ⟨next,member,ties⟩
    · exact .inl free
    · exact .inr ⟨next,List.mem_append_left rest member,ties⟩

/-- No destruction begins in the thread of another operation, but for the last put's. -/
structure Apart (s : State) (op : Op) (s' : State) (ops : List Op) : Prop where
  tied : Tied ops
  stages : ∀ next ∈ ops, stage next = none
  flags : s'.listed = s.listed ∧ s'.destroying = s.destroying ∧ s'.workerFreed = s.workerFreed ∧
    s'.released = s.released ∧ s'.os_map = s.os_map ∧ s'.privFreed = s.privFreed

theorem exec_apart (done : exec s sent op = .ok (s',ops)) (ordinary : stage op = none)
    (more : ∀ holder, holds op = some holder → s.reference - 1 ≠ 0) : Apart s op s' ops := by
  cases op with
  | getMap caller =>
    obtain ⟨rfl,rfl | ⟨rfl,rfl⟩⟩ := getMap_cases done
    · cases caller <;> constructor <;> simp [Tied]
    · constructor <;> simp [Tied]
  | refer caller =>
    cases caller <;> cases done <;> constructor <;> simp [Tied]
  | sendKeepAlive tick | sendChangeLog tick =>
    cases sent <;> cases done <;> constructor <;> simp [Tied,harmless]
  | keepAliveCallback tick answer =>
    obtain ⟨rfl,rfl | rfl | rfl | rfl⟩ := keepAliveCallback_cases done <;> constructor <;> simp [Tied,harmless,finish]
  | changeLogCallback tick error =>
    obtain ⟨rfl,rfl | rfl⟩ := changeLogCallback_cases done <;> constructor <;> simp [Tied,harmless,finish]
  | hkCallback tick fromArg =>
    obtain ⟨_,_,rfl,rfl⟩ := hkCallback_cases done
    constructor <;> simp [Tied]
  | putMap holder | putSynced tick =>
    have left := more _ rfl
    simp only [exec,put,if_neg left,Except.ok.injEq,Prod.mk.injEq] at done
    obtain ⟨rfl,rfl⟩ := done
    constructor <;> simp [Tied]
  | listDel | waitWaiting | freeWorker | freeOSMap destroy | clear destroy | freePriv => simp at ordinary
  | _ =>
    cases done
    constructor <;> simp [Tied]

structure Lifetime (s : State) : Prop where
  balance : s.gets.length = s.puts.length + s.outstanding
  counted : s.reference + Int32.ofNat s.puts.length = Int32.ofNat (s.gets.length + 1)
  small : s.outstanding + 1 < 2 ^ 32
  removed : total (weigh stage .remove) s.threads + (!s.listed).toNat = s.destroying.toNat
  waited : total (weigh stage .wait) s.threads + total (weigh stage .free) s.threads + s.workerFreed.toNat = (!s.listed).toNat
  releases : total (weigh stage .release) s.threads + s.released.toNat = s.workerFreed.toNat
  clears : total (weigh stage .clear) s.threads + (!s.os_map).toNat = s.released.toNat
  ends : total (weigh stage .last) s.threads + s.privFreed.toNat = (!s.os_map).toNat
  own : total lastPut s.threads = 0
  idle : s.listed = false → total (weigh stage .wait) s.threads = 0 → s.busy = false
  quiet : s.released = true → Quiet s
  tied : ∀ ops ∈ s.threads, Tied ops
  running : s.fault = none

/-- The counter is one more than the references outstanding. -/
theorem Lifetime.reference (life : Lifetime s) : s.reference = Int32.ofNat (s.outstanding + 1) := by
  have counted := life.counted
  have more : Int32.ofNat (s.gets.length + 1) = Int32.ofNat (s.outstanding + 1) + Int32.ofNat s.puts.length := by
    rw [life.balance,← Int32.ofNat_add]
    congr 1
    omega
  rw [more] at counted
  grind

/-- Once the destruction has waited, the worker stays idle. -/
theorem Lifetime.waits (life : Lifetime s) (freed : 0 < total (weigh stage .free) s.threads + s.workerFreed.toNat) : s.busy = false := by
  have waited := life.waited
  have one := Bool.toNat_le (!s.listed)
  have unlisted : s.listed = false := by
    cases listed : s.listed with
    | false => rfl
    | true =>
      simp only [listed,Bool.not_true,Bool.toNat_false] at waited
      omega
  exact life.idle unlisted (by omega)

theorem Tied.ties (tied : Tied ops) (member : op ∈ ops) : harmless op = true ∨ ∃ later ∈ ops, 0 < KeepAlive.tied later := by
  induction ops with
  | nil => simp at member
  | cons first rest ih =>
    obtain ⟨now,later⟩ := tied
    rcases List.mem_cons.mp member with rfl | behind
    · exact now
    · rcases ih later behind with free | ⟨next,inside,ties⟩
      · exact .inl free
      · exact .inr ⟨next,List.mem_cons_of_mem first inside,ties⟩

/-- With the worker idle, no sync on its way and nobody else at work, only arguments are left
to be freed, and no reference is outstanding. -/
theorem Quiet.settled (quiet : Quiet s) (inv : Inv s) (tied : ∀ ops ∈ s.threads, Tied ops) (idle : s.busy = false) :
    s.keepAlives = [] ∧ s.changeLogs = [] ∧ (∀ ops ∈ s.threads, ∀ op ∈ ops, harmless op = true) ∧ s.outstanding = 0 := by
  have chain := inv.chain
  simp [idle] at chain
  obtain ⟨⟨unchained,noKeepAlive⟩,noChangeLog⟩ := chain
  have untied : total KeepAlive.tied s.threads = 0 := by
    have sum : total KeepAlive.tied s.threads =
        total chained s.threads + total syncing s.threads + total working s.threads + total others s.threads := by
      change total (fun op => chained op + syncing op + working op + others op) s.threads = _
      rw [total_add,total_add,total_add]
    have unsynced := quiet.synced
    have unworked := quiet.worked
    have nobody := quiet.alone
    omega
  have left : ∀ ops ∈ s.threads, ∀ op ∈ ops, harmless op = true := by
    intro ops thread op inside
    rcases (tied ops thread).ties inside with free | ⟨later,member,ties⟩
    · exact free
    · have less := weight_le_of_mem KeepAlive.tied thread member
      omega
  have unreferred : total referring s.threads = 0 := by
    rw [total_eq_zero]
    intro ops thread op inside
    exact harmless_referring (left ops thread op inside)
  refine ⟨noKeepAlive,noChangeLog,left,?_⟩
  simp [State.outstanding,unreferred,noChangeLog,quiet.syncs,quiet.held]

/-- An operation of a tick or of another holder keeps it while the map is there; behind the
release only arguments are freed. -/
theorem Lifetime.run {i : Nat} (life : Lifetime s) (here : s.threads[i]? = some (op :: rest))
    (done : exec s sent op = .ok (s',ops)) (ordinary : stage op = none)
    (unreleased : s.released = false ∨ ∃ tick, op = .freeArg tick) (room : ¬Crowded s op) :
    Lifetime { s' with threads := s.threads.set i (ops ++ rest) } := by
  have reference := life.reference
  have small := life.small
  have refers := total_advance referring here ops
  have more : ∀ holder, holds op = some holder → s.reference - 1 ≠ 0 := by
    intro holder has last
    have one := weight_le_total referring here
    simp only [referring,has,Option.isSome_some,if_true] at one
    simp only [State.outstanding] at small reference
    rw [reference,ofNat_pred (by omega),ofNat_zero (by omega)] at last
    omega
  have counts := exec_counts done
  have apart := exec_apart done ordinary more
  obtain ⟨listed,destroying,worker,released,pointer,priv⟩ := apart.flags
  have taken := counts.taken
  have same : ∀ key, total (weigh stage key) (s.threads.set i (ops ++ rest)) = total (weigh stage key) s.threads := by
    intro key
    apply total_kept (weigh stage key) here
    · simp only [weigh,ordinary,reduceCtorEq,if_false]
    · intro next inside
      simp only [weigh,apart.stages next inside,reduceCtorEq,if_false]
  have balance : s'.gets.length = s'.puts.length + State.outstanding { s' with threads := s.threads.set i (ops ++ rest) } := by
    have before := life.balance
    simp only [State.outstanding] at before ⊢
    omega
  refine ⟨balance,?_,?_,?_,?_,?_,?_,?_,?_,?_,?_,?_,?_⟩
  · have before := life.counted
    have moved := counts.reference
    simp only [Int32.ofNat_add] at before ⊢
    grind
  · have before := life.balance
    rcases counts.more with ⟨gets,puts⟩ | ⟨⟨caller,rfl⟩,gets,puts⟩
    · omega
    · have last : s.reference ≠ -1 := room
      rw [reference,ne_eq,ofNat_last small] at last
      omega
  · rw [same,listed,destroying]
    exact life.removed
  · rw [same,same,listed,worker]
    exact life.waited
  · rw [same,released,worker]
    exact life.releases
  · rw [same,released,pointer]
    exact life.clears
  · rw [same,priv,pointer]
    exact life.ends
  · refine (total_kept lastPut here (lastPut_ordinary ordinary) ?_).trans life.own
    intro next inside
    exact lastPut_ordinary (apart.stages next inside)
  · intro unlisted waited
    rw [same] at waited
    have idle := life.idle (listed.symm.trans unlisted) waited
    by_contra busy
    have was := ((exec_balanced done).counter (by simpa using busy)).1
    simp [idle] at was
  · intro gone
    have quiet := life.quiet (released.symm.trans gone)
    rcases unreleased with still | ⟨tick,rfl⟩
    · simp [released,still] at gone
    · cases done
      have freed : ∀ weight : Op → Nat, weight (.freeArg tick) = 0 → total weight s.threads = 0 →
          total weight (s.threads.set i ([] ++ rest)) = 0 := by
        intro weight unweighed nothing
        exact (total_kept weight here unweighed (by simp)).trans nothing
      exact ⟨quiet.syncs,freed _ rfl quiet.synced,freed _ rfl quiet.worked,quiet.held,freed _ rfl quiet.alone⟩
  · intro thread member
    rcases List.mem_or_eq_of_mem_set member with old | rfl
    · exact life.tied thread old
    · have whole := life.tied _ (List.mem_of_getElem? here)
      exact apart.tied.append whole.2
  · exact (exec_onward done).running.trans life.running

theorem tied_of_stages {ops : List Op} (stages : ∀ op ∈ ops, stage op ≠ none) : Tied ops := by
  induction ops with
  | nil => trivial
  | cons op ops ih =>
    obtain ⟨first,later⟩ := List.forall_mem_cons.mp stages
    refine ⟨.inl ?_,ih later⟩
    cases op <;> simp [harmless] at first ⊢

/-- An operation of the destruction moves a flag as it goes on to its next stage. -/
theorem Lifetime.moves {i : Nat} {listed workerFreed released os_map privFreed : Bool} (life : Lifetime s)
    (here : s.threads[i]? = some (op :: rest)) (destroys : stage op ≠ none) (next : ∀ later ∈ ops, stage later ≠ none)
    (removed : (ops.map (weigh stage .remove)).sum + (!listed).toNat = weigh stage .remove op + (!s.listed).toNat)
    (waited : (ops.map (weigh stage .wait)).sum + (ops.map (weigh stage .free)).sum + workerFreed.toNat + (!s.listed).toNat =
      weigh stage .wait op + weigh stage .free op + s.workerFreed.toNat + (!listed).toNat)
    (releases : (ops.map (weigh stage .release)).sum + released.toNat + s.workerFreed.toNat =
      weigh stage .release op + s.released.toNat + workerFreed.toNat)
    (clears : (ops.map (weigh stage .clear)).sum + (!os_map).toNat + s.released.toNat =
      weigh stage .clear op + (!s.os_map).toNat + released.toNat)
    (ends : (ops.map (weigh stage .last)).sum + privFreed.toNat + (!s.os_map).toNat =
      weigh stage .last op + s.privFreed.toNat + (!os_map).toNat)
    (own : (ops.map lastPut).sum = 0)
    (idle : listed = false → total (weigh stage .wait) (s.threads.set i (ops ++ rest)) = 0 → s.busy = false)
    (quiet : released = true → Quiet s) :
    Lifetime { s with
      listed
      workerFreed
      released
      os_map
      privFreed
      threads := s.threads.set i (ops ++ rest) } := by
  have moved := fun weight : Op → Nat => total_advance weight here ops
  have still : ∀ weight : Op → Nat, (∀ op, stage op ≠ none → weight op = 0) →
      total weight (s.threads.set i (ops ++ rest)) = total weight s.threads := by
    intro weight unweighed
    exact total_kept weight here (unweighed op destroys) fun later inside => unweighed later (next later inside)
  have refers : total referring (s.threads.set i (ops ++ rest)) = total referring s.threads := by
    apply still
    intro op
    cases op <;> simp
  have same : State.outstanding { s with
      listed
      workerFreed
      released
      os_map
      privFreed
      threads := s.threads.set i (ops ++ rest) } = s.outstanding := by
    simp only [State.outstanding,refers]
  refine ⟨?_,life.counted,?_,?_,?_,?_,?_,?_,?_,idle,?_,?_,life.running⟩
  · rw [same]
    exact life.balance
  · rw [same]
    exact life.small
  · have before := life.removed
    have advanced := moved (weigh stage .remove)
    simp only
    omega
  · have before := life.waited
    have wait := moved (weigh stage .wait)
    have free := moved (weigh stage .free)
    simp only
    omega
  · have before := life.releases
    have advanced := moved (weigh stage .release)
    simp only
    omega
  · have before := life.clears
    have advanced := moved (weigh stage .clear)
    simp only
    omega
  · have before := life.ends
    have advanced := moved (weigh stage .last)
    simp only
    omega
  · have before := life.own
    have advanced := moved lastPut
    simp only
    omega
  · intro gone
    have before := quiet gone
    refine ⟨before.syncs,?_,?_,before.held,?_⟩
    · rw [still syncing fun op => by cases op <;> simp]
      exact before.synced
    · rw [still working fun op => by cases op <;> simp]
      exact before.worked
    · rw [still others fun op => by cases op <;> simp]
      exact before.alone
  · intro thread member
    rcases List.mem_or_eq_of_mem_set member with old | rfl
    · exact life.tied thread old
    · have whole := life.tied _ (List.mem_of_getElem? here)
      exact (tied_of_stages next).append whole.2

/-- The stages follow one another, and the map is released behind the wait, once. -/
theorem Lifetime.destroy {i : Nat} (life : Lifetime s) (here : s.threads[i]? = some (op :: rest)) (destroys : stage op ≠ none)
    (awake : ¬Sleeps s op) (quiet : stage op = some .release → Quiet s) (done : exec s sent op = .ok (s',ops)) :
    Lifetime { s' with threads := s.threads.set i (ops ++ rest) } := by
  have removed := life.removed
  have waited := life.waited
  have releases := life.releases
  have clears := life.clears
  have ends := life.ends
  have unlisted := Bool.toNat_le (!s.listed)
  have destroying := Bool.toNat_le s.destroying
  cases op with
  | listDel =>
    cases done
    have mine := weight_le_total (weigh stage .remove) here
    have wait := total_advance (weigh stage .wait) here [.waitWaiting]
    simp at mine wait
    have listed : (!s.listed) = false := Bool.toNat_eq_zero.mp (by omega)
    rw [Bool.not_eq_false'] at listed
    apply life.moves here destroys <;> simp [listed]
    case waited => omega
    case idle => omega
    case quiet => exact life.quiet
  | waitWaiting =>
    cases done
    have busy : s.busy = false := by simpa [Sleeps] using awake
    apply life.moves here destroys
    case idle => exact fun _ _ => busy
    case quiet => exact life.quiet
    all_goals simp
  | freeWorker =>
    cases done
    have mine := weight_le_total (weigh stage .free) here
    simp only [weigh,stage,if_true] at mine
    have idle := life.waits (by omega)
    have once : s.workerFreed = false := Bool.toNat_eq_zero.mp (by omega)
    apply life.moves here destroys <;> simp [once]
    case releases => omega
    case idle => exact fun _ _ => idle
    case quiet => exact life.quiet
  | freeOSMap destroy =>
    cases destroy with
    | false =>
      have mine := weight_le_total lastPut here
      have own := life.own
      simp [own] at mine
    | true =>
      cases done
      have mine := weight_le_total (weigh stage .release) here
      simp only [weigh,stage,if_true] at mine
      have worker := Bool.toNat_le s.workerFreed
      have idle := life.waits (by omega)
      have once : s.released = false := Bool.toNat_eq_zero.mp (by omega)
      apply life.moves here destroys <;> simp [once]
      case clears => omega
      case idle => exact fun _ _ => idle
      case quiet => exact quiet rfl
  | clear destroy =>
    cases destroy with
    | false =>
      have mine := weight_le_total lastPut here
      have own := life.own
      simp [own] at mine
    | true =>
      cases done
      have mine := weight_le_total (weigh stage .clear) here
      simp only [weigh,stage,if_true] at mine
      have released := Bool.toNat_le s.released
      have worker := Bool.toNat_le s.workerFreed
      have idle := life.waits (by omega)
      have once : (!s.os_map) = false := Bool.toNat_eq_zero.mp (by omega)
      rw [Bool.not_eq_false'] at once
      apply life.moves here destroys <;> simp [once]
      case ends => omega
      case idle => exact fun _ _ => idle
      case quiet => exact life.quiet
  | freePriv =>
    cases done
    have mine := weight_le_total (weigh stage .last) here
    simp only [weigh,stage,if_true] at mine
    have pointer := Bool.toNat_le (!s.os_map)
    have idle := life.waits (by omega)
    have once : s.privFreed = false := Bool.toNat_eq_zero.mp (by omega)
    apply life.moves here destroys <;> simp [once]
    case idle => exact fun _ _ => idle
    case quiet => exact life.quiet
  | _ => simp at destroys

/-- Behind the release the worker is idle and no longer in the list. -/
theorem Lifetime.behind (life : Lifetime s) (released : s.released = true) : s.listed = false ∧ s.busy = false := by
  have releases := life.releases
  have waited := life.waited
  simp only [released,Bool.toNat_true] at releases
  have one := Bool.toNat_le s.workerFreed
  refine ⟨?_,life.waits (by omega)⟩
  cases listed : s.listed with
  | false => rfl
  | true =>
    simp only [listed,Bool.not_true,Bool.toNat_false] at waited
    omega

/-- A thread begins before the release, or is the destruction's. -/
theorem Lifetime.begins {busy destroying : Bool} {counter : Int} {ticks held : Nat} {keepAlives changeLogs syncs : List Nat}
    (life : Lifetime s)
    (taken : (ops.map referring).sum + changeLogs.length + syncs.length + held = s.changeLogs.length + s.syncs.length + s.held)
    (removed : (ops.map (weigh stage .remove)).sum + s.destroying.toNat = destroying.toNat)
    (stages : ∀ key, key ≠ .remove → (ops.map (weigh stage key)).sum = 0) (own : (ops.map lastPut).sum = 0)
    (idle : s.listed = false → s.busy = false → busy = false) (tied : Tied ops)
    (quiet : s.released = true → syncs = s.syncs ∧ held = s.held ∧
      (ops.map syncing).sum = 0 ∧ (ops.map working).sum = 0 ∧ (ops.map others).sum = 0) :
    Lifetime (spawn { s with
      busy
      destroying
      counter
      ticks
      held
      keepAlives
      changeLogs
      syncs } ops) := by
  have same : (spawn { s with
      busy
      destroying
      counter
      ticks
      held
      keepAlives
      changeLogs
      syncs } ops).outstanding = s.outstanding := by
    simp only [spawn,State.outstanding,total_append,total_cons,total_nil]
    omega
  have added : ∀ weight : Op → Nat, total weight (s.threads ++ [ops]) = total weight s.threads + (ops.map weight).sum := by
    intro weight
    simp
  have later : ∀ key, key ≠ .remove → total (weigh stage key) (s.threads ++ [ops]) = total (weigh stage key) s.threads := by
    intro key other
    rw [added,stages key other,Nat.add_zero]
  refine ⟨?_,life.counted,?_,?_,?_,?_,?_,?_,?_,?_,?_,?_,life.running⟩
  · rw [same]
    exact life.balance
  · rw [same]
    exact life.small
  · have before := life.removed
    simp only [spawn,added]
    omega
  · simpa only [spawn,later .wait (by simp),later .free (by simp)] using life.waited
  · simpa only [spawn,later .release (by simp)] using life.releases
  · simpa only [spawn,later .clear (by simp)] using life.clears
  · simpa only [spawn,later .last (by simp)] using life.ends
  · simpa only [spawn,added,own,Nat.add_zero] using life.own
  · intro unlisted waits
    simp only [spawn,later .wait (by simp)] at waits
    exact idle unlisted (life.idle unlisted waits)
  · intro released
    have before := life.quiet released
    obtain ⟨noSync,unheld,unsynced,unworked,alone⟩ := quiet released
    refine ⟨noSync.trans before.syncs,?_,?_,unheld.trans before.held,?_⟩
    · simpa only [spawn,added,unsynced,Nat.add_zero] using before.synced
    · simpa only [spawn,added,unworked,Nat.add_zero] using before.worked
    · simpa only [spawn,added,alone,Nat.add_zero] using before.alone
  · intro thread member
    rcases List.mem_append.mp member with old | new
    · exact life.tied thread old
    · obtain rfl := List.mem_singleton.mp new
      exact tied

/-- What an operation touches has not been freed, behind the release either. -/
theorem Lifetime.present {i : Nat} (life : Lifetime s) (inv : Inv s) (here : s.threads[i]? = some (op :: rest)) :
    ∀ block ∈ touches op, gone s block = false := by
  intro block touched
  have thread := List.mem_of_getElem? here
  have removed := life.removed
  have waited := life.waited
  have releases := life.releases
  have clears := life.clears
  have ends := life.ends
  have unlisted := Bool.toNat_le (!s.listed)
  have destroying := Bool.toNat_le s.destroying
  have worker := Bool.toNat_le s.workerFreed
  have pointer := Bool.toNat_le (!s.os_map)
  have mine : ∀ key, stage op = some key → 0 < total (weigh stage key) s.threads := by
    intro key staged
    have one := weight_le_total (weigh stage key) here
    simp only [weigh,staged,if_true] at one
    exact one
  have free : s.released = true → harmless op = true := by
    intro released
    have quiet := life.quiet released
    exact (quiet.settled inv life.tied (life.behind released).2).2.2.1 _ thread op List.mem_cons_self
  rw [Bool.eq_false_iff]
  intro lost
  cases block with
  | arg tick => exact inv.unused thread touched (by simpa [gone] using lost)
  | map =>
    have release := mine .release (harmless_map (free lost) touched)
    simp only [gone] at lost
    simp only [lost,Bool.toNat_true] at releases
    omega
  | priv =>
    simp only [gone] at lost
    simp only [lost,Bool.toNat_true] at ends
    have released : s.released = true := by
      by_contra unreleased
      simp only [Bool.not_eq_true] at unreleased
      simp only [unreleased,Bool.toNat_false] at clears
      omega
    simp only [released,Bool.toNat_true] at releases clears
    rcases harmless_priv (free released) touched with release | clear | last
    · have one := mine .release release
      omega
    · have one := mine .clear clear
      omega
    · have one := mine .last last
      omega
  | worker =>
    simp only [gone] at lost
    have idle := life.waits (by simp [lost])
    have chain := inv.chain
    have tick := weight_le_total chained here
    simp only [idle,Bool.toNat_false] at chain
    simp only [lost,Bool.toNat_true] at waited
    rcases touches_worker touched with calls | remove | wait | free
    · omega
    · have one := mine .remove remove
      omega
    · have one := mine .wait wait
      omega
    · have one := mine .free free
      omega

theorem Lifetime.advance {i : Nat} (life : Lifetime s) (inv : Inv s) (here : s.threads[i]? = some (op :: rest))
    (sound : total outdated s.threads = 0) (awake : ¬Sleeps s op) (quiet : stage op = some .release → Quiet s)
    (room : ¬Crowded s op) (sent : Bool) : Lifetime (advance s sent i op rest) := by
  have there : ¬∃ block ∈ touches op, gone s block = true := by
    rintro ⟨block,touched,lost⟩
    simp [life.present inv here block touched] at lost
  rw [KeepAlive.advance,if_neg there]
  by_cases ordinary : stage op = none
  · have unreleased : s.released = false ∨ ∃ tick, op = .freeArg tick := by
      cases released : s.released with
      | false => exact .inl rfl
      | true =>
        have settled := (life.quiet released).settled inv life.tied (life.behind released).2
        exact .inr (harmless_ordinary (settled.2.2.1 _ (List.mem_of_getElem? here) op List.mem_cons_self) ordinary)
    obtain ⟨s',ops,done⟩ : ∃ s' ops, exec s sent op = .ok (s',ops) := by
      rcases unreleased with still | ⟨tick,rfl⟩
      · have clears := life.clears
        have pointer : s.os_map = true := by
          by_contra cleared
          simp only [Bool.not_eq_true] at cleared
          simp only [cleared,still,Bool.not_false,Bool.toNat_true,Bool.toNat_false] at clears
          omega
        exact exec_ok inv here sound pointer sent
      · exact ⟨_,_,rfl⟩
    rw [done]
    exact life.run here done ordinary unreleased room
  · obtain ⟨s',ops,done⟩ : ∃ s' ops, exec s sent op = .ok (s',ops) := by
      cases op with
      | listDel | waitWaiting | freeWorker | freeOSMap destroy | clear destroy | freePriv => exact ⟨_,_,rfl⟩
      | _ => simp at ordinary
    rw [done]
    exact life.destroy here ordinary awake quiet done

theorem step_life (life : Lifetime s) (inv : Inv s) (sound : total outdated s.threads = 0) (timely : Timely s a)
    (taken : step s a = some s') : Lifetime s' := by
  simp only [step,ite_not,Option.ite_none_right_eq_some] at taken
  obtain ⟨running,taken⟩ := taken
  cases a with
  | second =>
    simp only [Option.ite_none_left_eq_some,not_or] at taken
    obtain ⟨⟨listed,_⟩,taken⟩ := taken
    split at taken
    · cases taken
      apply life.begins <;> simp [Tied]
      case idle => exact fun unlisted => absurd unlisted listed
    · cases taken
      exact { life with quiet := fun released => absurd (life.behind released).1 listed }
  | keepAliveCallback tick answer =>
    simp only [Option.ite_none_right_eq_some,Option.some.injEq] at taken
    obtain ⟨waits,rfl⟩ := taken
    apply life.begins <;> simp [Tied]
  | changeLogCallback tick error =>
    simp only [Option.ite_none_right_eq_some,Option.some.injEq] at taken
    obtain ⟨waits,rfl⟩ := taken
    have shorter := List.length_erase_add_one waits
    apply life.begins <;> simp [Tied]
    omega
  | syncCallback tick =>
    simp only [Option.ite_none_right_eq_some,Option.some.injEq] at taken
    obtain ⟨waits,rfl⟩ := taken
    have shorter := List.length_erase_add_one waits
    have early : ¬s.released = true := by
      intro released
      simp [(life.quiet released).syncs] at waits
    apply life.begins <;> simp [Tied,harmless,early]
    omega
  | get =>
    cases taken
    have early : s.released = false := timely
    apply life.begins <;> simp [Tied,early]
  | put =>
    simp only [Option.ite_none_right_eq_some,Option.some.injEq] at taken
    obtain ⟨some,rfl⟩ := taken
    have early : ¬s.released = true := by
      intro released
      have held := (life.quiet released).held
      omega
    apply life.begins <;> simp [Tied,early]
    omega
  | destroy =>
    simp only [Option.ite_none_left_eq_some,Option.some.injEq] at taken
    obtain ⟨first,rfl⟩ := taken
    apply life.begins <;> simp [Tied,harmless,first]
    exact fun key other => Ne.symm other
  | run thread sent =>
    rcases here : s.threads[thread]? with _ | _ | ⟨op,rest⟩
    · simp [here] at taken
    · simp [here] at taken
    · simp only [here,Option.ite_none_left_eq_some,Option.some.injEq] at taken
      obtain ⟨awake,rfl⟩ := taken
      obtain ⟨quiet,room⟩ := timely _ here op rfl
      exact life.advance inv here sound awake quiet room sent

/-- A timely run is one whose versions are current. -/
theorem timely_current (timely : Timely s a) : Current s a := by
  cases a with
  | keepAliveCallback tick answer => exact timely
  | _ => trivial

theorem reachable_life (reachable : Reachable step Timely (start req_status os_status) s) :
    Inv s ∧ Sound s ∧ Lifetime s := by
  induction reachable with
  | start =>
    have begins : Reachable step Current (start req_status os_status) (start req_status os_status) := .start
    obtain ⟨inv,sound⟩ := reachable_inv begins
    refine ⟨inv,sound,rfl,rfl,?_,rfl,rfl,rfl,rfl,rfl,rfl,fun _ _ => rfl,nofun,nofun,rfl⟩
    simp [start,State.outstanding]
  | step _ timely taken ih =>
    obtain ⟨inv,sound,life⟩ := ih
    exact ⟨step_inv inv taken,step_sound inv sound (timely_current timely) taken,step_life life inv sound.current timely taken⟩

/-- In every run in which the destruction releases the map when every sync is over, every
worker has made its put and nobody else has the map or gets it: it has been released only
when every get is matched by a put, nothing that is to come touches it, and no operation is
a fault. -/
theorem destroy_waits (reachable : Reachable step Timely (start req_status os_status) s) :
    s.fault = none ∧ (s.released = true →
      s.outstanding = 0 ∧ s.gets.length = s.puts.length ∧ s.keepAlives = [] ∧ s.changeLogs = [] ∧ s.syncs = [] ∧
      ∀ ops ∈ s.threads, ∀ op ∈ ops, .map ∉ touches op) := by
  obtain ⟨inv,_,life⟩ := reachable_life reachable
  refine ⟨life.running,?_⟩
  intro released
  have quiet := life.quiet released
  obtain ⟨noKeepAlive,noChangeLog,left,none⟩ := quiet.settled inv life.tied (life.behind released).2
  have balance := life.balance
  refine ⟨none,by omega,noKeepAlive,noChangeLog,quiet.syncs,?_⟩
  intro ops thread op inside touched
  have release := harmless_map (left ops thread op inside) touched
  have mine := weight_le_of_mem (weigh stage .release) thread inside
  have releases := life.releases
  have worker := Bool.toNat_le s.workerFreed
  simp only [released,Bool.toNat_true] at releases
  simp only [weigh,release,if_true] at mine
  omega

theorem syncing_le (op : Op) : syncing op ≤ referring op := by
  cases op <;> simp

theorem working_le (op : Op) : working op ≤ referring op := by
  cases op with
  | putMap holder => cases holder <;> simp
  | _ => simp

/-- With the worker idle, the condition says that no reference is outstanding and that nobody
else is about to get one. -/
theorem Lifetime.quiet_iff (life : Lifetime s) (inv : Inv s) (idle : s.busy = false) :
    Quiet s ↔ s.outstanding = 0 ∧ total others s.threads = 0 := by
  constructor
  · intro quiet
    exact ⟨(quiet.settled inv life.tied idle).2.2.2,quiet.alone⟩
  · rintro ⟨none,alone⟩
    have synced := total_mono syncing_le s.threads
    have worked := total_mono working_le s.threads
    simp only [State.outstanding] at none
    exact ⟨List.eq_nil_of_length_eq_zero (by omega),by omega,by omega,by omega,alone⟩

instance (s : State) : Decidable (Quiet s) :=
  decidable_of_iff (s.syncs = [] ∧ total syncing s.threads = 0 ∧ total working s.threads = 0 ∧ s.held = 0 ∧
      total others s.threads = 0)
    ⟨fun ⟨syncs,synced,worked,held,alone⟩ => ⟨syncs,synced,worked,held,alone⟩,
      fun quiet => ⟨quiet.syncs,quiet.synced,quiet.worked,quiet.held,quiet.alone⟩⟩

instance (s : State) : (op : Op) → Decidable (Crowded s op)
  | .refer _ => inferInstanceAs (Decidable (s.reference = -1))
  | .getMap _ | .sendKeepAlive _ | .readArg _ | .keepAliveCallback _ _ | .storeArg _ | .sendChangeLog _
  | .changeLogCallback _ _ | .osOffline | .reqReadyToJoin | .reqSyncing | .osSyncing | .hkCallback _ _ | .syncMasterNode _
  | .osOnline | .reqOnline | .putMap _ | .putSynced _ | .freeArg _ | .listDel | .waitWaiting | .freeWorker | .freeOSMap _
  | .clear _ | .freePriv => inferInstanceAs (Decidable False)

instance (s : State) : (a : Action) → Decidable (Timely s a)
  | .run thread _ => inferInstanceAs (Decidable (∀ ops ∈ s.threads[thread]?, ∀ op ∈ ops.head?,
      (stage op = some .release → Quiet s) ∧ ¬Crowded s op))
  | .keepAliveCallback _ answer => inferInstanceAs (Decidable (answer ≠ .older))
  | .get => inferInstanceAs (Decidable (s.released = false))
  | .second | .changeLogCallback _ _ | .syncCallback _ | .put | .destroy => inferInstanceAs (Decidable True)

/-- A sync is started, its tick is over, and the destruction is called. -/
def syncStarts : List Action :=
  [.second,.second,.second,.second,.second,.run 0 true,.run 0 true,.run 0 true,.run 0 true,
    .keepAliveCallback 0 .same,.run 1 true,.run 1 true,.run 1 true,.run 1 true,.run 1 true,.run 1 true,.run 1 true,
    .run 1 true,.run 1 true,.destroy]

def syncFirst : List Action :=
  syncStarts ++ [.run 2 true,.run 2 true,.syncCallback 0,.run 3 true,.run 3 true,.run 3 true,.run 3 true,.run 2 true,
    .run 2 true,.run 2 true,.run 2 true,.run 3 true]

theorem destroy_waits_sync :
    ∃ s, execute step (start .readyToJoin .online) syncFirst = some s ∧ s.released = true ∧ s.fault = none ∧
      s.outstanding = 0 := by
  have timely : Permitted step Timely (start .readyToJoin .online) syncFirst := by decide +kernel
  have waits := destroy_waits (Reachable.start.execute syncFirst timely rfl)
  exact ⟨_,rfl,rfl,waits.1,(waits.2 rfl).1⟩

/-- The destruction releases the map under the sync, whose callback then finds it released. -/
theorem destroy_under_sync :
    ∃ s s', Reachable step Current (start .readyToJoin .online) s ∧ s.released = true ∧ s.outstanding = 1 ∧
      execute step s [.syncCallback 0,.run 3 true,.run 3 true] = some s' ∧ s'.fault = some .useAfterFree := by
  have current : Permitted step Current (start .readyToJoin .online) (syncStarts ++ [.run 2 true,.run 2 true,.run 2 true,.run 2 true]) := by
    decide +kernel
  exact ⟨_,_,Reachable.start.execute _ current rfl,rfl,rfl,rfl,rfl⟩

end Muti.KeepAlive
