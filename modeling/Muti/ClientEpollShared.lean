import Muti.ClientEpoll

/-! One epoll thread for all client sockets. What a locked section finds, stage by stage, is kept
by the epoll thread's own steps and handed on to the next section, so that outside of them
there is either nothing or a thread in its loop. -/
namespace Muti.ClientEpoll

open Muti.Transition

/-- What `ClientEpollFd` holds while an epoll thread is somewhere. -/
def Epoll.published : Epoll → Option Nat
  | .create | .publish _ | .returned => none
  | .loop fd | .close fd | .clear fd => some fd

/-- Between `pthread_create` and the loop. -/
def Epoll.starting : Epoll → Bool
  | .create | .publish _ => true
  | .loop _ | .close _ | .clear _ | .returned => false

def Idle (s : State) : Prop := (∀ e ∈ s.epolls, e = .returned) ∧ s.ClientEpollFd = none

/-- The thread of `ClientEpThreadId` is somewhere, and all others have returned. -/
def Runs (s : State) (e : Epoll) : Prop :=
  s.ClientEpollFd = e.published ∧ ∃ j, s.ClientEpThreadId = some j ∧ s.epolls[j]? = some e ∧
    ∀ k ≠ j, ∀ other ∈ s.epolls[k]?, other = .returned

def Up (s : State) : Prop := 0 < s.ClientNumber ∧ ∃ fd, Runs s (.loop fd)

def Settled (s : State) : Prop := s.ClientNumber = 0 ∧ Idle s ∨ Up s

/-- The last client is gone, and the epoll thread may have seen it. -/
def Leaving (s : State) : Prop := s.ClientNumber = 0 ∧ ∃ e, e.starting = false ∧ Runs s e

/-- What an operation of a locked section finds. -/
def Stage (s : State) : Op → Prop
  | .load .start | .unlock .destroy => Settled s
  | .load .destroy | .unlock .start => Up s
  | .store .start n => n = s.ClientNumber ∧ Settled s
  | .store .destroy n => n = s.ClientNumber ∧ Up s
  | .test .start => s.ClientNumber = 1 ∧ Idle s ∨ 1 < s.ClientNumber ∧ Up s
  | .test .destroy => Leaving s ∨ Up s
  | .create => s.ClientNumber = 1 ∧ Idle s
  | .await => s.ClientNumber = 1 ∧ (∃ e, e.starting = true ∧ Runs s e) ∨ Up s
  | .join => Leaving s
  | .reset => s.ClientNumber = 0 ∧ Idle s
  | .sockPrepareClient | .fetchAndAdd | .mutexInit | .lock _ | .createConnection | .add _ => True

theorem Runs.idle (runs : Runs s .returned) : Idle s := by
  obtain ⟨fd,j,_,here,others⟩ := runs
  refine ⟨?_,fd⟩
  intro e member
  obtain ⟨k,there⟩ := List.mem_iff_getElem?.mp member
  by_cases same : k = j
  · subst same
    exact Option.some.inj (there.symm.trans here)
  · exact others k same e there

theorem Idle.create (idle : Idle s) :
    Runs { s with ClientEpThreadId := some s.epolls.length, epolls := s.epolls ++ [.create] } .create := by
  refine ⟨idle.2,s.epolls.length,rfl,by simp,?_⟩
  intro k other e there
  replace there : (s.epolls ++ [Epoll.create])[k]? = some e := there
  rcases Nat.lt_or_ge k s.epolls.length with older | newer
  · rw [List.getElem?_append_left older] at there
    exact idle.1 e (List.mem_of_getElem? there)
  · rw [List.getElem?_eq_none (by simp; omega)] at there
    cases there

/-- An epoll thread leaves the other globals and the threads of the clients alone. -/
theorem turn_frame (done : turn s fd e = some (s',e')) : s' = { s with ClientEpollFd := s'.ClientEpollFd } := by
  cases e <;> cases done <;> rfl

theorem epoll_frame (taken : step s (.epoll k fd) = some s') :
    s' = { s with ClientEpollFd := s'.ClientEpollFd, epolls := s'.epolls } := by
  cases there : s.epolls[k]? with
  | none => simp [step,there] at taken
  | some e =>
    simp only [step,there,Option.map_eq_some_iff] at taken
    obtain ⟨⟨middle,next⟩,turned,rfl⟩ := taken
    have frame := turn_frame turned
    change { middle with epolls := s.epolls.set k next } = _
    rw [frame]

theorem epoll_number (taken : step s (.epoll k fd) = some s') : s'.ClientNumber = s.ClientNumber := by
  rw [epoll_frame taken]

theorem Idle.still (idle : Idle s) (taken : step s (.epoll k fd) = some s') : False := by
  cases there : s.epolls[k]? with
  | none => simp [step,there] at taken
  | some e =>
    simp only [step,there,Option.map_eq_some_iff] at taken
    obtain ⟨done,turned,_⟩ := taken
    cases idle.1 e (List.mem_of_getElem? there)
    cases turned

inductive Turned (number : Int) : Epoll → Epoll → Prop
  | create (fd : Nat) : Turned number .create (.publish fd)
  | publish (fd : Nat) : Turned number (.publish fd) (.loop fd)
  | wait (fd : Nat) (clients : number ≠ 0) : Turned number (.loop fd) (.loop fd)
  | leave (fd : Nat) (last : number = 0) : Turned number (.loop fd) (.close fd)
  | close (fd : Nat) : Turned number (.close fd) (.clear fd)
  | clear (fd : Nat) : Turned number (.clear fd) .returned

theorem turn_turned (done : turn s fd e = some (s',e')) (published : s.ClientEpollFd = e.published) :
    Turned s.ClientNumber e e' ∧ s'.ClientEpollFd = e'.published := by
  cases e with
  | create | publish | close | clear =>
    cases done
    exact ⟨by constructor,by first | rfl | exact published⟩
  | loop own =>
    cases done
    by_cases last : s.ClientNumber = 0
    · rw [if_pos last]
      exact ⟨.leave own last,published⟩
    · rw [if_neg last]
      exact ⟨.wait own last,published⟩
  | returned => cases done

/-- A step of an epoll thread is one of the thread that runs. -/
theorem Runs.turned (runs : Runs s e) (taken : step s (.epoll k fd) = some s') :
    ∃ e', Turned s.ClientNumber e e' ∧ Runs s' e' := by
  obtain ⟨published,j,thread,here,others⟩ := runs
  cases there : s.epolls[k]? with
  | none => simp [step,there] at taken
  | some e' =>
    simp only [step,there,Option.map_eq_some_iff] at taken
    obtain ⟨⟨middle,next⟩,done,rfl⟩ := taken
    by_cases same : k = j
    · subst same
      obtain rfl : e = e' := Option.some.inj (here.symm.trans there)
      obtain ⟨turned,fd_is⟩ := turn_turned done published
      have frame := turn_frame done
      refine ⟨next,turned,fd_is,k,?_,?_,?_⟩
      · change middle.ClientEpThreadId = some k
        rw [frame]
        exact thread
      · exact List.getElem?_set_self (List.getElem?_eq_some_iff.mp here).1
      · intro l other a member
        refine others l other a ?_
        replace member : (s.epolls.set k next)[l]? = some a := member
        rwa [List.getElem?_set_ne (Ne.symm other)] at member
    · cases others k same e' there
      cases done

theorem Up.turned (up : Up s) (taken : step s (.epoll k fd) = some s') : Up s' := by
  obtain ⟨clients,own,runs⟩ := up
  have number := epoll_number taken
  obtain ⟨e,turned,runs⟩ := runs.turned taken
  cases turned with
  | wait => exact ⟨number ▸ clients,own,runs⟩
  | leave _ last => omega

theorem Settled.turned (settled : Settled s) (taken : step s (.epoll k fd) = some s') : Settled s' := by
  rcases settled with ⟨_,idle⟩ | up
  · exact (idle.still taken).elim
  · exact .inr (up.turned taken)

theorem Leaving.turned (leaving : Leaving s) (taken : step s (.epoll k fd) = some s') : Leaving s' := by
  obtain ⟨last,e,past,runs⟩ := leaving
  have number := epoll_number taken
  obtain ⟨e',turned,runs⟩ := runs.turned taken
  refine ⟨number ▸ last,e',?_,runs⟩
  cases turned <;> first | rfl | cases past

/-- What a client finds in a locked section does not depend on the epoll thread's pace. -/
theorem Stage.turned (stage : Stage s op) (taken : step s (.epoll k fd) = some s') : Stage s' op := by
  have number := epoll_number taken
  cases op with
  | load caller =>
    cases caller with
    | start => exact Settled.turned stage taken
    | destroy => exact Up.turned stage taken
  | store caller n =>
    cases caller with
    | start => exact ⟨stage.1.trans number.symm,stage.2.turned taken⟩
    | destroy => exact ⟨stage.1.trans number.symm,stage.2.turned taken⟩
  | test caller =>
    cases caller with
    | start =>
      rcases stage with ⟨_,idle⟩ | ⟨more,up⟩
      · exact (idle.still taken).elim
      · exact .inr ⟨number ▸ more,up.turned taken⟩
    | destroy =>
      rcases stage with leaving | up
      · exact .inl (leaving.turned taken)
      · exact .inr (up.turned taken)
  | create => exact (stage.2.still taken).elim
  | await =>
    rcases stage with ⟨one,e,starting,runs⟩ | up
    · obtain ⟨e',turned,runs⟩ := runs.turned taken
      cases turned with
      | create fd => exact .inl ⟨number ▸ one,_,rfl,runs⟩
      | publish fd => exact .inr ⟨by omega,fd,runs⟩
      | _ => cases starting
    · exact .inr (up.turned taken)
  | join => exact Leaving.turned stage taken
  | reset => exact (stage.2.still taken).elim
  | unlock caller =>
    cases caller with
    | start => exact Up.turned stage taken
    | destroy => exact Settled.turned stage taken
  | _ => trivial

/-- A locked section goes from stage to stage, and is left when the next one may be entered. -/
theorem Stage.onward (stage : Stage s op) (mine : critical op = 1) (done : exec s connected op = some (s',ops)) :
    ∀ next ∈ ops, Stage s' next := by
  cases op with
  | load caller =>
    cases done
    rw [List.forall_mem_singleton]
    cases caller <;> exact ⟨rfl,stage⟩
  | store caller n =>
    cases caller with
    | start =>
      obtain ⟨loaded,settled⟩ := stage
      cases done
      rw [List.forall_mem_singleton]
      rcases settled with ⟨none,idle⟩ | ⟨clients,fd,runs⟩
      · refine .inl ⟨?_,idle⟩
        change n + 1 = 1
        omega
      · refine .inr ⟨?_,?_,fd,runs⟩
        · change 1 < n + 1
          omega
        · change 0 < n + 1
          omega
    | destroy =>
      obtain ⟨loaded,clients,fd,runs⟩ := stage
      cases done
      rw [List.forall_mem_singleton]
      by_cases last : n - 1 = 0
      · exact .inl ⟨last,.loop fd,rfl,runs⟩
      · refine .inr ⟨?_,fd,runs⟩
        change 0 < n - 1
        omega
  | test caller =>
    cases caller with
    | start =>
      cases done
      by_cases first : s.ClientNumber = 1
      · rw [if_pos first,List.forall_mem_singleton]
        rcases stage with idle | ⟨more,_⟩
        · exact idle
        · omega
      · rw [if_neg first,List.forall_mem_singleton]
        rcases stage with ⟨one,_⟩ | ⟨_,up⟩
        · exact absurd one first
        · exact .inr up
    | destroy =>
      cases done
      by_cases last : s.ClientNumber = 0
      · rw [if_pos last,List.forall_mem_singleton]
        rcases stage with leaving | ⟨clients,_⟩
        · exact leaving
        · omega
      · rw [if_neg last,List.forall_mem_singleton]
        rcases stage with ⟨none,_⟩ | up
        · exact absurd none last
        · exact .inr up
  | create =>
    obtain ⟨one,idle⟩ := stage
    cases done
    rw [List.forall_mem_singleton]
    exact .inl ⟨one,.create,rfl,idle.create⟩
  | await =>
    cases done
    by_cases waiting : s.ClientEpollFd = none
    · rw [if_pos waiting,List.forall_mem_singleton]
      exact stage
    · rw [if_neg waiting,List.forall_mem_singleton]
      rcases stage with ⟨_,e,starting,published,_⟩ | up
      · cases e <;> first | exact absurd published waiting | cases starting
      · exact up
  | join =>
    simp only [exec,Option.ite_none_right_eq_some] at done
    obtain ⟨returned,done⟩ := done
    obtain ⟨last,e,_,runs⟩ := stage
    cases done
    rw [List.forall_mem_singleton]
    obtain ⟨j,thread,here,_⟩ := id runs.2
    rw [thread,Option.bind_some,here] at returned
    cases returned
    exact ⟨last,runs.idle⟩
  | reset =>
    cases done
    rw [List.forall_mem_singleton]
    exact .inl stage
  | unlock caller =>
    cases caller <;> cases done <;> simp [Stage]
  | _ => cases mine

structure Balances (s : State) (op : Op) (s' : State) (ops : List Op) : Prop where
  lock : (ops.map critical).sum + s.locked.toNat = critical op + s'.locked.toNat
  number : s'.ClientNumber + (s.sockets + inside op + outside op : Nat) =
    s.ClientNumber + (s'.sockets + (ops.map inside).sum + (ops.map outside).sum : Nat)

theorem Balances.counted {i : Nat} (balances : Balances s op s' ops) (counted : Counted s)
    (here : s.threads[i]? = some (op :: rest)) : Counted { s' with threads := s.threads.set i (ops ++ rest) } where
  lock := by
    have lock := counted.lock
    have moved := balances.lock
    have enters := total_advance critical here ops
    change total critical (s.threads.set i (ops ++ rest)) = s'.locked.toNat
    omega
  number := by
    have number := counted.number
    have moved := balances.number
    have within := total_advance inside here ops
    have without := total_advance outside here ops
    change s'.ClientNumber =
      (s'.sockets + total inside (s.threads.set i (ops ++ rest)) + total outside (s.threads.set i (ops ++ rest)) : Nat)
    omega

theorem Counted.locked {i : Nat} (counted : Counted s) (here : s.threads[i]? = some (op :: rest)) (mine : critical op = 1) :
    s.locked = true := by
  have share := weight_le_total critical here
  have lock := counted.lock
  cases free : s.locked with
  | false =>
    rw [free,Bool.toNat_false] at lock
    omega
  | true => rfl

/-- The first initialisation comes before anybody is in a locked section. -/
theorem free_of_mutexInit {i : Nat} (initialised : Initialised s) (counted : Counted s)
    (here : s.threads[i]? = some (.mutexInit :: rest)) : s.locked = false := by
  have once := initialised.once
  have before := initialised.before
  have mine := weight_le_total initialising here
  have lock := counted.lock
  simp at mine
  rw [← Bool.toNat_eq_zero]
  omega

theorem exec_balances {i : Nat} (initialised : Initialised s) (counted : Counted s) (here : s.threads[i]? = some (op :: rest))
    (stage : critical op = 1 → Stage s op) (done : exec s connected op = some (s',ops)) : Balances s op s' ops := by
  cases op with
  | sockPrepareClient =>
    cases done
    cases connected <;> constructor <;> simp
  | fetchAndAdd =>
    cases done
    by_cases first : s.ClientLockInit = 0 <;> constructor <;> simp [first]
  | mutexInit =>
    have free := free_of_mutexInit initialised counted here
    cases done
    constructor <;> simp [free]
  | lock caller =>
    simp only [exec,Option.ite_none_left_eq_some,Bool.not_eq_true] at done
    obtain ⟨free,done⟩ := done
    cases done
    cases caller <;> constructor <;> simp [free]
  | load caller =>
    cases done
    cases caller <;> constructor <;> simp
  | store caller n =>
    cases caller with
    | start =>
      have loaded := (stage rfl).1
      cases done
      constructor <;> simp
      omega
    | destroy =>
      have loaded := (stage rfl).1
      cases done
      constructor <;> simp
      omega
  | test caller =>
    cases caller with
    | start =>
      cases done
      by_cases first : s.ClientNumber = 1 <;> constructor <;> simp [first]
    | destroy =>
      cases done
      by_cases last : s.ClientNumber = 0 <;> constructor <;> simp [last]
  | await =>
    cases done
    by_cases waiting : s.ClientEpollFd = none <;> constructor <;> simp [waiting]
  | create | reset | createConnection =>
    cases done
    constructor <;> simp
  | join =>
    simp only [exec,Option.ite_none_right_eq_some] at done
    cases done.2
    constructor <;> simp
  | unlock caller =>
    have held := counted.locked here rfl
    cases caller <;> cases done <;> constructor <;> simp [held]
  | add fd =>
    simp only [exec,Option.ite_none_left_eq_some] at done
    cases done.2
    constructor <;> simp

/-- The sockets that a start has counted and no destroy has discounted. -/
def clients (s : State) : Nat := s.sockets + total inside s.threads + total outside s.threads

structure Staged (s : State) : Prop where
  free : s.locked = false → Settled s
  stage : ∀ ops ∈ s.threads, ∀ op ∈ ops, critical op = 1 → Stage s op

theorem Settled.up (settled : Settled s) (some : 0 < s.ClientNumber) : Up s := by
  rcases settled with ⟨none,_⟩ | up
  · omega
  · exact up

/-- A thread in its locked section is the only one in any. -/
theorem Counted.alone {i : Nat} (counted : Counted s) (here : s.threads[i]? = some (op :: rest)) (mine : critical op = 1) :
    total critical (s.threads.set i rest) = 0 := by
  have lock := counted.lock
  have without := total_advance critical here []
  have short := s.locked.toNat_le
  simp only [List.nil_append,List.map_nil,List.sum_nil,mine] at without
  omega

/-- While the lock is taken, some thread is in its locked section. -/
theorem Counted.holder (counted : Counted s) (held : s.locked = true) : ∃ ops ∈ s.threads, ∃ op ∈ ops, critical op = 1 := by
  have lock := counted.lock
  rw [held,Bool.toNat_true] at lock
  obtain ⟨ops,thread,op,member,mine⟩ := exists_of_total (lock.trans_ne Nat.one_ne_zero)
  exact ⟨ops,thread,op,member,by cases op <;> simp at mine ⊢⟩

/-- In a locked section there are clients and a thread in its loop, or no clients but the one that
is in the section. -/
theorem Stage.place (stage : Stage s op) (mine : critical op = 1) :
    Up s ∨ s.ClientNumber = inside op ∧ (Idle s ∨ ∃ e, Runs s e) := by
  have settle : Settled s → Up s ∨ s.ClientNumber = (0 : Nat) ∧ (Idle s ∨ ∃ e, Runs s e) := by
    rintro (⟨none,idle⟩ | up)
    · exact .inr ⟨none,.inl idle⟩
    · exact .inl up
  cases op with
  | load caller =>
    cases caller with
    | start => exact settle stage
    | destroy => exact .inl stage
  | store caller n =>
    cases caller with
    | start => exact settle stage.2
    | destroy => exact .inl stage.2
  | test caller =>
    cases caller with
    | start =>
      rcases stage with ⟨one,idle⟩ | ⟨_,up⟩
      · exact .inr ⟨one,.inl idle⟩
      · exact .inl up
    | destroy =>
      rcases stage with ⟨none,e,_,runs⟩ | up
      · exact .inr ⟨none,.inr ⟨e,runs⟩⟩
      · exact .inl up
  | create => exact .inr ⟨stage.1,.inl stage.2⟩
  | await =>
    rcases stage with ⟨one,e,_,runs⟩ | up
    · exact .inr ⟨one,.inr ⟨e,runs⟩⟩
    · exact .inl up
  | join =>
    obtain ⟨none,e,_,runs⟩ := stage
    exact .inr ⟨none,.inr ⟨e,runs⟩⟩
  | reset => exact .inr ⟨stage.1,.inl stage.2⟩
  | unlock caller =>
    cases caller with
    | start => exact .inl stage
    | destroy => exact settle stage
  | _ => simp at mine

/-- A client that is counted and in no locked section relies on the epoll thread. -/
theorem up_of_outside (counted : Counted s) (staged : Staged s) (some : 0 < s.sockets + total outside s.threads) : Up s := by
  have number := counted.number
  cases held : s.locked with
  | false => exact (staged.free held).up (by omega)
  | true =>
    obtain ⟨ops,thread,op,member,mine⟩ := counted.holder held
    have share := weight_le_of_mem inside thread member
    rcases (staged.stage ops thread op member mine).place mine with up | ⟨only,_⟩
    · exact up
    · omega

/-- The end of a locked section leaves it to the next. -/
theorem Stage.settles (stage : Stage s op) (mine : critical op = 1) (done : exec s connected op = some (s',ops))
    (free : s'.locked = false) (held : s.locked = true) : Settled s' := by
  cases op with
  | unlock caller =>
    cases caller with
    | start =>
      cases done
      exact .inr stage
    | destroy =>
      cases done
      exact stage
  | store caller n =>
    cases caller <;> cases done <;> cases held.symm.trans free
  | test caller =>
    cases caller <;> cases done <;> cases held.symm.trans free
  | load caller | create | await | reset =>
    cases done
    cases held.symm.trans free
  | join =>
    simp only [exec,Option.ite_none_right_eq_some] at done
    cases done.2
    cases held.symm.trans free
  | _ => cases mine

/-- An operation out of the locked sections leaves what they look at, and enters one where it may. -/
theorem exec_apart {i : Nat} (initialised : Initialised s) (counted : Counted s) (staged : Staged s)
    (here : s.threads[i]? = some (op :: rest)) (apart : critical op = 0) (done : exec s connected op = some (s',ops)) :
    (∀ next ∈ ops, critical next = 1 → Stage s' next) ∧ (s'.locked = false → Settled s') ∧
      ∀ next, Stage s next → Stage s' next := by
  cases op with
  | sockPrepareClient =>
    cases done
    refine ⟨?_,staged.free,fun _ stage => stage⟩
    cases connected <;> simp
  | fetchAndAdd =>
    cases done
    refine ⟨?_,staged.free,fun _ stage => stage⟩
    by_cases first : s.ClientLockInit = 0 <;> simp [first]
  | mutexInit =>
    have free := free_of_mutexInit initialised counted here
    cases done
    exact ⟨by simp,fun _ => staged.free free,fun _ stage => stage⟩
  | lock caller =>
    simp only [exec,Option.ite_none_left_eq_some,Bool.not_eq_true] at done
    obtain ⟨free,done⟩ := done
    cases done
    have settled := staged.free free
    refine ⟨?_,fun held => (by cases held),fun _ stage => stage⟩
    intro next member _
    cases List.mem_singleton.mp member
    cases caller with
    | start => exact settled
    | destroy =>
      have mine := weight_le_total outside here
      have up : Up s := by
        apply up_of_outside counted staged
        simp at mine
        omega
      exact up
  | createConnection =>
    cases done
    exact ⟨by simp,staged.free,fun _ stage => stage⟩
  | add fd =>
    simp only [exec,Option.ite_none_left_eq_some] at done
    cases done.2
    exact ⟨by simp,staged.free,fun _ stage => stage⟩
  | _ => simp at apart

theorem exec_staged {i : Nat} (initialised : Initialised s) (counted : Counted s) (staged : Staged s)
    (here : s.threads[i]? = some (op :: rest)) (done : exec s connected op = some (s',ops)) :
    Staged { s' with threads := s.threads.set i (ops ++ rest) } := by
  have thread := List.mem_of_getElem? here
  by_cases mine : critical op = 1
  · have stage := staged.stage _ thread op List.mem_cons_self mine
    have alone := counted.alone here mine
    have held := counted.locked here mine
    have settles : s'.locked = false → Settled s' := fun free => stage.settles mine done free held
    refine ⟨settles,?_⟩
    intro later member next inside entered
    rcases mem_advance member inside with new | ⟨other,old,behind⟩
    · exact stage.onward mine done next new
    · have none := (total_eq_zero critical).mp alone other old next behind
      omega
  · have apart : critical op = 0 := by cases op <;> simp at mine ⊢
    obtain ⟨enters,free,keeps⟩ := exec_apart initialised counted staged here apart done
    refine ⟨free,?_⟩
    intro later member next inside entered
    rcases mem_advance member inside with new | ⟨other,old,behind⟩
    · exact enters next new entered
    · obtain ⟨ops,before,older⟩ := mem_behind here old behind
      exact keeps next (staged.stage ops before next older entered)

def Fetched (s : State) : Prop := ∀ ops ∈ s.threads, ∀ fd, .add fd ∈ ops → fd = s.ClientEpollFd

theorem exec_fetched {i : Nat} (fetched : Fetched s) (here : s.threads[i]? = some (op :: rest))
    (done : exec s connected op = some (s',ops)) : Fetched { s' with threads := s.threads.set i (ops ++ rest) } := by
  have new : s'.ClientEpollFd = s.ClientEpollFd ∧ ∀ fd, .add fd ∈ ops → fd = s.ClientEpollFd := by
    cases op with
    | sockPrepareClient =>
      cases done
      cases connected <;> simp
    | fetchAndAdd =>
      cases done
      by_cases first : s.ClientLockInit = 0 <;> simp [first]
    | lock caller | add fd =>
      simp only [exec,Option.ite_none_left_eq_some] at done
      cases done.2
      simp
    | join =>
      simp only [exec,Option.ite_none_right_eq_some] at done
      cases done.2
      simp
    | store caller n | unlock caller =>
      cases caller <;> cases done <;> simp
    | test caller =>
      cases caller with
      | start =>
        cases done
        by_cases first : s.ClientNumber = 1 <;> simp [first]
      | destroy =>
        cases done
        by_cases last : s.ClientNumber = 0 <;> simp [last]
    | await =>
      cases done
      by_cases waiting : s.ClientEpollFd = none <;> simp [waiting]
    | mutexInit | load caller | create | reset | createConnection =>
      cases done
      simp
  intro later member fd inside
  refine Eq.trans ?_ new.1.symm
  rcases mem_advance member inside with added | ⟨other,old,behind⟩
  · exact new.2 fd added
  · obtain ⟨ops,before,older⟩ := mem_behind here old behind
    exact fetched ops before fd older

structure Inv (s : State) : Prop where
  initialised : Initialised s
  counted : Counted s
  staged : Staged s
  fetched : Fetched s

theorem inv_globals : Inv globals where
  initialised := by constructor <;> simp [globals]
  counted := by constructor <;> simp [globals]
  staged := ⟨fun _ => .inl ⟨rfl,by simp [globals],rfl⟩,by simp [globals]⟩
  fetched := by simp [Fetched,globals]

/-- A thread starts; with a destroy, a socket is in its hands. -/
theorem Inv.spawn (inv : Inv s) (op : Op) (sockets : Nat) (apart : critical op = 0)
    (before : initialising op + locking op + inside op = 0) (moved : sockets + outside op = s.sockets)
    (reads : ∀ fd, op ≠ .add fd) : Inv { s with sockets := sockets, threads := s.threads ++ [[op]] } := by
  have initialises := total_spawn initialising s.threads op
  have locks := total_spawn locking s.threads op
  have enters := total_spawn critical s.threads op
  have within := total_spawn inside s.threads op
  have without := total_spawn outside s.threads op
  obtain ⟨initialised,counted,staged,fetched⟩ := inv
  refine ⟨⟨initialised.counter,initialised.bound,?_,?_,?_,initialised.early⟩,⟨?_,?_⟩,⟨staged.free,?_⟩,?_⟩
  · have once := initialised.once
    change s.inits + total initialising (s.threads ++ [[op]]) = min s.starts 1
    omega
  · intro none
    have begun := initialised.begun none
    change total locking (s.threads ++ [[op]]) = 0
    omega
  · intro none
    have empty := initialised.before none
    change sockets + total critical (s.threads ++ [[op]]) + total outside (s.threads ++ [[op]]) = 0
    omega
  · have lock := counted.lock
    change total critical (s.threads ++ [[op]]) = s.locked.toNat
    omega
  · have number := counted.number
    change s.ClientNumber = (sockets + total inside (s.threads ++ [[op]]) + total outside (s.threads ++ [[op]]) : Nat)
    omega
  · intro ops member next inside entered
    rcases List.mem_append.mp member with old | new
    · exact staged.stage ops old next inside entered
    · cases List.mem_singleton.mp new
      cases List.mem_singleton.mp inside
      omega
  · intro ops member fd inside
    rcases List.mem_append.mp member with old | new
    · exact fetched ops old fd inside
    · cases List.mem_singleton.mp new
      exact absurd (List.mem_singleton.mp inside).symm (reads fd)

theorem Up.published (up : Up s) (taken : step s (.epoll k fd) = some s') : s'.ClientEpollFd = s.ClientEpollFd := by
  obtain ⟨clients,own,runs⟩ := up
  obtain ⟨e,turned,after⟩ := runs.turned taken
  cases turned with
  | wait => exact after.1.trans runs.1.symm
  | leave _ last => omega

theorem Inv.turned (inv : Inv s) (taken : step s (.epoll k fd) = some s') : Inv s' := by
  have frame := epoll_frame taken
  obtain ⟨initialised,counted,staged,fetched⟩ := inv
  have threads : s'.threads = s.threads := by rw [frame]
  have locked : s'.locked = s.locked := by rw [frame]
  refine ⟨?_,?_,⟨?_,?_⟩,?_⟩
  · rw [frame]
    obtain ⟨counter,bound,once,begun,before,early⟩ := initialised
    exact ⟨counter,bound,once,begun,before,early⟩
  · rw [frame]
    obtain ⟨lock,number⟩ := counted
    exact ⟨lock,number⟩
  · intro free
    exact (staged.free (locked ▸ free)).turned taken
  · intro ops member op inside entered
    rw [threads] at member
    exact (staged.stage ops member op inside entered).turned taken
  · intro ops member own inside
    rw [threads] at member
    have share := weight_le_of_mem outside member inside
    have up : Up s := by
      apply up_of_outside counted staged
      simp at share
      omega
    exact (fetched ops member own inside).trans (up.published taken).symm

theorem step_inv (inv : Inv s) (orderly : Orderly s a) (taken : step s a = some s') : Inv s' := by
  cases a with
  | start =>
    cases taken
    exact inv.spawn .sockPrepareClient s.sockets rfl rfl rfl (by simp)
  | destroy =>
    simp only [step,Option.ite_none_right_eq_some] at taken
    obtain ⟨present,taken⟩ := taken
    cases taken
    exact inv.spawn (.lock .destroy) (s.sockets - 1) rfl rfl (Nat.sub_add_cancel present) (by simp)
  | run thread connected =>
    rcases here : s.threads[thread]? with _ | _ | ⟨op,rest⟩
    · simp [step,here] at taken
    · simp [step,here] at taken
    · simp only [step,here,Option.map_eq_some_iff] at taken
      obtain ⟨⟨s',ops⟩,done,rfl⟩ := taken
      have waits : Waits s op := orderly _ here op rfl
      have stage : critical op = 1 → Stage s op := inv.staged.stage _ (List.mem_of_getElem? here) op List.mem_cons_self
      exact ⟨exec_initialised inv.initialised here waits done,
        (exec_balances inv.initialised inv.counted here stage done).counted inv.counted here,
        exec_staged inv.initialised inv.counted inv.staged here done,exec_fetched inv.fetched here done⟩
  | epoll thread fd => exact inv.turned taken

def Single (s : State) : Prop :=
  ∀ j k : Nat, ∀ e ∈ s.epolls[j]?, ∀ other ∈ s.epolls[k]?, e ≠ .returned → other ≠ .returned → j = k

theorem Idle.single (idle : Idle s) : Single s := by
  intro j k e here other _ live _
  exact absurd (idle.1 e (List.mem_of_getElem? here)) live

theorem Runs.single (runs : Runs s e) : Single s := by
  obtain ⟨_,l,_,_,others⟩ := runs
  intro j k a here b there first second
  have left : j = l := by
    by_contra other
    exact first (others j other a here)
  have right : k = l := by
    by_contra other
    exact second (others k other b there)
  exact left.trans right.symm

theorem Up.single (up : Up s) : Single s := by
  obtain ⟨_,_,runs⟩ := up
  exact runs.single

theorem Inv.single (inv : Inv s) : Single s := by
  cases held : s.locked with
  | false =>
    rcases inv.staged.free held with ⟨_,idle⟩ | up
    · exact idle.single
    · exact up.single
  | true =>
    obtain ⟨ops,thread,op,member,mine⟩ := inv.counted.holder held
    rcases (inv.staged.stage ops thread op member mine).place mine with up | ⟨_,idle | ⟨_,runs⟩⟩
    · exact up.single
    · exact idle.single
    · exact runs.single

/-- What the shared epoll thread needs: the lock is initialised once and before it is taken, the
counter is right, one epoll thread at most, and a descriptor that is given to `epoll_ctl` is
that of the thread in its loop. -/
structure Shared (s : State) : Prop where
  early : s.early = false
  once : s.inits ≤ 1
  number : s.ClientNumber = clients s
  single : Single s
  added : ∀ ops ∈ s.threads, ∀ fd, .add fd ∈ ops → ∃ own, fd = some own ∧ .loop own ∈ s.epolls

theorem Inv.shared (inv : Inv s) : Shared s where
  early := inv.initialised.early
  once := by
    have once := inv.initialised.once
    omega
  number := inv.counted.number
  single := inv.single
  added := by
    intro ops member fd inside
    have share := weight_le_of_mem outside member inside
    have up : Up s := by
      apply up_of_outside inv.counted inv.staged
      simp at share
      omega
    obtain ⟨_,own,published,j,_,here,_⟩ := up
    exact ⟨own,(inv.fetched ops member fd inside).trans published,List.mem_of_getElem? here⟩

/-- Where no start takes the lock while another is about to initialise it, and `ClientLockInit`
does not come round to zero, the client sockets share one epoll thread. -/
theorem client_epoll_shared (reachable : Reachable step Orderly globals s) : Shared s := by
  have inv := reachable.invariant inv_globals fun _ _ _ inv orderly taken => step_inv inv orderly taken
  exact inv.shared

instance (s : State) : (op : Op) → Decidable (Waits s op)
  | .lock .start => inferInstanceAs (Decidable (total initialising s.threads = 0))
  | .fetchAndAdd => inferInstanceAs (Decidable (s.starts < UInt32.size))
  | .lock .destroy | .sockPrepareClient | .mutexInit | .load _ | .store _ _ | .test _ | .create | .await | .join | .reset
  | .unlock _ | .createConnection | .add _ => inferInstanceAs (Decidable True)

instance (s : State) : (a : Action) → Decidable (Orderly s a)
  | .run thread _ => inferInstanceAs (Decidable (∀ ops ∈ s.threads[thread]?, ∀ op ∈ ops.head?, Waits s op))
  | .start | .destroy | .epoll _ _ => inferInstanceAs (Decidable True)

/-- Two clients start; the second one comes before the lock is initialised, and takes it afterwards. -/
def twoClients : List Action :=
  [.start,.start,.run 0 true,.run 0 true,.run 1 true,.run 1 true,.run 0 true,.run 0 true,.run 0 true,.run 0 true,.run 0 true,
    .run 0 true,.run 0 true,.epoll 0 7,.epoll 0 7,.run 0 true,.run 0 true,.run 0 true,.run 0 true,
    .run 1 true,.run 1 true,.run 1 true,.run 1 true,.run 1 true,.run 1 true,.run 1 true]

theorem client_epoll_shared_two : ∃ s, execute step globals twoClients = some s ∧ s.threads = [[],[.add (some 7)]] ∧
    s.ClientNumber = 2 ∧ Shared s := by
  have permitted : Permitted step Orderly globals twoClients := by decide +kernel
  exact ⟨_,rfl,rfl,rfl,client_epoll_shared (Reachable.start.execute twoClients permitted rfl)⟩

/-- The second start locks in the window, and the first one initialises the lock it holds. -/
def lockedEarly : List Action :=
  [.start,.start,.run 0 true,.run 0 true,.run 1 true,.run 1 true,.run 1 true,.run 1 true,
    .run 0 true,.run 0 true,.run 0 true,.run 0 true,.run 0 true,.run 0 true,.run 1 true,.run 1 true,.run 1 true]

/-- Both count themselves as the first, and create an epoll thread each. -/
theorem two_epoll_threads : ∃ s, Reachable step (fun _ _ => True) globals s ∧ s.early = true ∧ s.ClientNumber = 1 ∧
    clients s = 2 ∧ ¬Single s ∧ ¬Shared s := by
  refine ⟨_,Reachable.start.run lockedEarly rfl,rfl,rfl,rfl,?_,fun shared => (by cases shared.early)⟩
  intro single
  have same := single 0 1 .create rfl .create rfl (by decide) (by decide)
  cases same

end Muti.ClientEpoll
