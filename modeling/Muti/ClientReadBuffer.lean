import Muti.Lists
import Muti.Memory
import Muti.SharedBuffers
import Muti.Transition

/-! The read buffers of a client's connection, and the responses its users hold. Read
callbacks, response jobs and the users' deferred releases run as threads over the shared
counts, beside the wait of `clientOnClose`, which loads the two counters one after the other. -/
namespace Muti.ClientReadBuffer

open Muti.Lists Muti.Memory Muti.Transition Muti.SharedBuffers Muti.SharedBuffers.Buffers

/-- What a share of a buffer is for: its outstanding read, the guard of a read callback, or a response. -/
inductive Share where
  | read
  | guard
  | response
  deriving DecidableEq, Repr

/-- What an operation finds: too few bytes, with room for more in the same buffer or not; a
sequence nobody waits for; a response; the connection's answer to a read; or a callback
that lets its response be freed, or not. -/
inductive Outcome where
  | starved (same : Bool)
  | unknown
  | decoded
  | accepted (rrc : Bool)
  | called (free_resp : Bool)
  deriving DecidableEq, Repr

inductive Op where
  | enter (rbuf : Nat)
  | turn (rbuf : Nat)
  | refer (rbuf : Nat)
  | insertTail (rbuf : Nat)
  | freeReadBuffer (share : Share) (rbuf : Nat)
  | readDone
  | countRead (rbuf old_rbuf : Nat)
  | read (rbuf : Nat)
  | callback (rbuf : Nat)
  deriving DecidableEq, Repr

/-- How far the read wait of `clientOnClose` is: either counter may be loaded first. -/
inductive Wait where
  | notClosed
  | testing
  | loadedCounter (read_counter : Nat)
  | loadedDone (read_done_counter : Nat)
  | ended
  deriving DecidableEq, Repr

/-- `jobs` are the buffers of the responses that wait for a worker, `responses` of those whose
user has set `*free_resp` to false and has not called `freeResp` yet. -/
structure State where
  buffers : Buffers
  read_counter : Nat
  read_done_counter : Nat
  reads : List Nat
  jobs : List Nat
  responses : List Nat
  threads : List (List Op)
  wait : Wait
  fault : Option Fault

def clientOnConnect : State where
  buffers := Buffers.empty.create
  read_counter := 1
  read_done_counter := 0
  reads := [0]
  jobs := []
  responses := []
  threads := []
  wait := .notClosed
  fault := none

def touch (s : State) (rbuf : Nat) (result : State × List Op) : State × List Op :=
  if rbuf ∈ s.buffers.live then result else ({ s with fault := some .useAfterFree },[])

/-- A turn of the loop of `clientReadCallback`, `clientRead` included up to its next atomic
operation, and the end of the callback. -/
def turn (s : State) (rbuf : Nat) : Outcome → Option (State × List Op)
  | .starved true => some (s,[.read rbuf,.freeReadBuffer .guard rbuf])
  | .starved false =>
    some ({ s with buffers := s.buffers.create },[.freeReadBuffer .read rbuf,.countRead s.buffers.allocated rbuf])
  | .unknown => some (s,[.freeReadBuffer .guard rbuf,.freeReadBuffer .read rbuf])
  | .decoded => some (s,[.refer rbuf])
  | _ => none

def exec (s : State) (outcome : Outcome) : Op → Option (State × List Op)
  | .enter rbuf => some (touch s rbuf ({ s with buffers := s.buffers.refer rbuf },[.turn rbuf]))
  | .turn rbuf => (turn s rbuf outcome).map (touch s rbuf)
  | .refer rbuf => some (touch s rbuf ({ s with buffers := s.buffers.refer rbuf },[.insertTail rbuf]))
  | .insertTail rbuf => some ({ s with jobs := rbuf :: s.jobs },[.turn rbuf])
  | .freeReadBuffer _ rbuf =>
    some (touch s rbuf ({ s with buffers := s.buffers.release rbuf },
      if s.buffers.reference rbuf = 1 then [.readDone] else []))
  | .readDone => some ({ s with read_done_counter := s.read_done_counter + 1 },[])
  | .countRead rbuf old_rbuf =>
    some ({ s with read_counter := s.read_counter + 1 },[.read rbuf,.freeReadBuffer .guard old_rbuf])
  | .read rbuf => match outcome with
    | .accepted true => some (touch s rbuf ({ s with reads := rbuf :: s.reads },[]))
    | .accepted false => some (s,[.freeReadBuffer .read rbuf])
    | _ => none
  | .callback rbuf => match outcome with
    | .called true => some (s,[.freeReadBuffer .response rbuf])
    | .called false => some ({ s with responses := rbuf :: s.responses },[])
    | _ => none

/-- The wait loads a counter, the first one of a test or the second one; when they are equal it ends. -/
def onClose (s : State) (counterFirst : Bool) : Wait → Option State
  | .notClosed => some { s with wait := .testing }
  | .testing => some { s with wait := if counterFirst then .loadedCounter s.read_counter else .loadedDone s.read_done_counter }
  | .loadedCounter read_counter =>
    some { s with wait := if read_counter = s.read_done_counter then .ended else .testing }
  | .loadedDone read_done_counter =>
    some { s with wait := if s.read_counter = read_done_counter then .ended else .testing }
  | .ended => none

/-- A read ends, a worker takes a response, a user releases one, `clientOnClose` goes on, or a
thread does its next operation. -/
inductive Action where
  | readCallback (rbuf : Nat) (rc : Bool)
  | doJob (rbuf : Nat)
  | freeResp (rbuf : Nat)
  | onClose (counterFirst : Bool)
  | run (thread : Nat) (outcome : Outcome)
  deriving DecidableEq, Repr

def spawn (s : State) (op : Op) : State := { s with threads := s.threads ++ [[op]] }

def step (s : State) (a : Action) : Option State :=
  if s.fault ≠ none then none
  else match a with
    | .readCallback rbuf rc =>
      if rbuf ∈ s.reads then
        some (spawn { s with reads := s.reads.erase rbuf } (if rc then .enter rbuf else .freeReadBuffer .read rbuf))
      else none
    | .doJob rbuf => if rbuf ∈ s.jobs then some (spawn { s with jobs := s.jobs.erase rbuf } (.callback rbuf)) else none
    | .freeResp rbuf =>
      if rbuf ∈ s.responses then
        some (spawn { s with responses := s.responses.erase rbuf } (.freeReadBuffer .response rbuf))
      else none
    | .onClose counterFirst => onClose s counterFirst s.wait
    | .run thread outcome =>
      match s.threads[thread]? with
      | some (op :: rest) =>
        (exec s outcome op).map fun done => { done.1 with threads := s.threads.set thread (done.2 ++ rest) }
      | _ => none

@[simp] def shares (share : Share) (b : Nat) : Op → Nat
  | .enter rbuf | .read rbuf => on (share,b) (.read,rbuf)
  | .turn rbuf | .refer rbuf => on (share,b) (.read,rbuf) + on (share,b) (.guard,rbuf)
  | .insertTail rbuf => on (share,b) (.read,rbuf) + on (share,b) (.guard,rbuf) + on (share,b) (.response,rbuf)
  | .freeReadBuffer x rbuf => on (share,b) (x,rbuf)
  | .countRead rbuf old_rbuf => on (share,b) (.read,rbuf) + on (share,b) (.guard,old_rbuf)
  | .callback rbuf => on (share,b) (.response,rbuf)
  | .readDone => 0

def State.readShare (s : State) (b : Nat) : Nat := s.reads.count b + total (shares .read b) s.threads

def State.guardShare (s : State) (b : Nat) : Nat := total (shares .guard b) s.threads

/-- The responses decoded from a buffer that are held: by the pool, in a callback, or by a user. -/
def State.responseShare (s : State) (b : Nat) : Nat :=
  s.jobs.count b + s.responses.count b + total (shares .response b) s.threads

/-- There is one read to be made, at most: the continuation of the stream. -/
@[simp] def continues : Op → Nat
  | .enter _ | .turn _ | .refer _ | .insertTail _ | .countRead _ _ | .read _ => 1
  | _ => 0

@[simp] def counting : Op → Nat
  | .countRead _ _ => 1
  | _ => 0

/-- A buffer is counted while its predecessor, another one, is still held. -/
@[simp] def confused : Op → Nat
  | .countRead rbuf old_rbuf => on old_rbuf rbuf
  | _ => 0

@[simp] def discounting : Op → Nat
  | .readDone => 1
  | _ => 0

@[simp] def held (b : Nat) (op : Op) : Nat := shares .read b op + shares .guard b op + shares .response b op

@[simp] def State.users (s : State) (b : Nat) : Nat := s.reads.count b + s.jobs.count b + s.responses.count b

structure Inv (s : State) : Prop where
  running : s.fault = none
  sound : s.buffers.Sound
  balanced : ∀ b, s.buffers.refs b = s.users b + total (held b) s.threads
  counted : s.read_counter + total counting s.threads =
    s.buffers.live.length + total discounting s.threads + s.read_done_counter
  stream : s.reads.length + total continues s.threads ≤ 1
  distinct : total confused s.threads = 0
  single : ∀ b, s.readShare b ≤ 1

/-- Nobody has a share of a buffer that is not in use. -/
theorem Inv.unused (inv : Inv s) (dead : b ∉ s.buffers.live) : s.readShare b = 0 := by
  have balanced := inv.balanced b
  have none := refs_dead dead
  have mine : total (shares .read b) s.threads ≤ total (held b) s.threads := total_mono (fun op => by simp; omega) s.threads
  simp only [State.users,State.readShare] at balanced ⊢
  omega

structure Settles (s : State) (op : Op) (s' : State) (ops : List Op) : Prop where
  running : s'.fault = none
  sound : s'.buffers.Sound
  balances : ∀ b, s'.buffers.refs b + s.users b + held b op = s.buffers.refs b + s'.users b + (ops.map (held b)).sum
  counters : s'.read_counter + (ops.map counting).sum + s.buffers.live.length + discounting op + s.read_done_counter =
    s.read_counter + counting op + s'.buffers.live.length + (ops.map discounting).sum + s'.read_done_counter
  streams : s'.reads.length + (ops.map continues).sum ≤ s.reads.length + continues op
  distinct : (ops.map confused).sum ≤ confused op
  single : ∀ b, s'.reads.count b + (ops.map (shares .read b)).sum ≤
    s.reads.count b + shares .read b op + if s.buffers.allocated = b then 1 else 0

theorem Settles.inv {i : Nat} (settles : Settles s op s' ops) (inv : Inv s)
    (here : s.threads[i]? = some (op :: rest)) : Inv { s' with threads := s.threads.set i (ops ++ rest) } where
  running := settles.running
  sound := settles.sound
  balanced := by
    intro b
    have before := inv.balanced b
    have moved := settles.balances b
    have threads := total_advance (held b) here ops
    change s'.buffers.refs b = s'.users b + total (held b) (s.threads.set i (ops ++ rest))
    omega
  counted := by
    have before := inv.counted
    have moved := settles.counters
    have more := total_advance counting here ops
    have fewer := total_advance discounting here ops
    simp only
    omega
  stream := by
    have before := inv.stream
    have moved := settles.streams
    have threads := total_advance continues here ops
    simp only
    omega
  distinct := by
    have before := inv.distinct
    have moved := settles.distinct
    have threads := total_advance confused here ops
    simp only
    omega
  single := by
    intro b
    have before := inv.single b
    have moved := settles.single b
    have threads := total_advance (shares .read b) here ops
    simp only [State.readShare] at before ⊢
    split at moved
    · rename_i new
      have unused := inv.unused (b := b) (by simpa [← new] using inv.sound.fresh)
      simp only [State.readShare] at unused
      omega
    · omega

theorem touch_live (live : rbuf ∈ s.buffers.live) (result : State × List Op) : touch s rbuf result = result := by
  simp [touch,live]

theorem Inv.holder {i : Nat} (inv : Inv s) (b : Nat) (here : s.threads[i]? = some (op :: rest))
    (holds : 0 < held b op) : b ∈ s.buffers.live := by
  have balanced := inv.balanced b
  have share := weight_le_total (held b) here
  exact live_of_refs (by omega)

theorem turn_settles (inv : Inv s) (live : rbuf ∈ s.buffers.live) (done : turn s rbuf outcome = some (s',ops)) :
    Settles s (.turn rbuf) s' ops := by
  cases outcome with
  | starved same =>
    cases same with
    | true =>
      cases done
      refine ⟨inv.running,inv.sound,?_,?_,?_,?_,?_⟩ <;> simp
    | false =>
      cases done
      refine ⟨inv.running,sound_create inv.sound,?_,?_,?_,?_,?_⟩ <;> simp
      · intro b
        have stored := refs_create inv.sound b
        omega
      · omega
      · intro same
        have fresh := inv.sound.fresh
        rw [same] at fresh
        exact fresh live
      · intro b
        omega
  | unknown =>
    cases done
    refine ⟨inv.running,inv.sound,?_,?_,?_,?_,?_⟩ <;> simp [Nat.add_comm]
  | decoded =>
    cases done
    refine ⟨inv.running,inv.sound,?_,?_,?_,?_,?_⟩ <;> simp
  | _ => cases done

theorem exec_settles {i : Nat} (inv : Inv s) (here : s.threads[i]? = some (op :: rest))
    (done : exec s outcome op = some (s',ops)) : Settles s op s' ops := by
  have running := inv.running
  have sound := inv.sound
  cases op with
  | enter rbuf =>
    have live := inv.holder rbuf here (by simp)
    simp only [exec,touch_live live] at done
    cases done
    refine ⟨running,sound_refer sound rbuf,?_,?_,?_,?_,?_⟩ <;> simp
    intro b
    have stored := refs_refer live b
    omega
  | turn rbuf =>
    have live := inv.holder rbuf here (by simp)
    simp only [exec,Option.map_eq_some_iff,touch_live live] at done
    obtain ⟨result,turned,rfl⟩ := done
    exact turn_settles inv live turned
  | refer rbuf =>
    have live := inv.holder rbuf here (by simp)
    simp only [exec,touch_live live] at done
    cases done
    refine ⟨running,sound_refer sound rbuf,?_,?_,?_,?_,?_⟩ <;> simp
    intro b
    have stored := refs_refer live b
    omega
  | insertTail rbuf =>
    cases done
    refine ⟨running,sound,?_,?_,?_,?_,?_⟩ <;> simp [List.count_cons]
    intro b
    omega
  | freeReadBuffer share rbuf =>
    have live := inv.holder rbuf here (by cases share <;> simp)
    simp only [exec,touch_live live] at done
    have length := live_release live
    have stored := refs_release sound live
    cases done
    by_cases last : s.buffers.reference rbuf = 1
    · refine ⟨running,sound_release sound live,?_,?_,?_,?_,?_⟩ <;> simp [last] at length ⊢
      · intro b
        have left := stored b
        cases share <;> simp <;> omega
      · omega
      · intro b
        omega
    · refine ⟨running,sound_release sound live,?_,?_,?_,?_,?_⟩ <;> simp [last] at length ⊢
      · intro b
        have left := stored b
        cases share <;> simp <;> omega
      · omega
      · intro b
        omega
  | readDone =>
    cases done
    refine ⟨running,sound,?_,?_,?_,?_,?_⟩ <;> simp
    omega
  | countRead rbuf old_rbuf =>
    cases done
    refine ⟨running,sound,?_,?_,?_,?_,?_⟩ <;> simp
  | read rbuf =>
    have live := inv.holder rbuf here (by simp)
    cases outcome with
    | accepted rrc =>
      cases rrc with
      | true =>
        simp only [exec,touch_live live] at done
        cases done
        refine ⟨running,sound,?_,?_,?_,?_,?_⟩ <;> simp [List.count_cons]
        intro b
        omega
      | false =>
        cases done
        refine ⟨running,sound,?_,?_,?_,?_,?_⟩ <;> simp
    | _ => cases done
  | callback rbuf =>
    cases outcome with
    | called free_resp =>
      cases free_resp with
      | true =>
        cases done
        refine ⟨running,sound,?_,?_,?_,?_,?_⟩ <;> simp
      | false =>
        cases done
        refine ⟨running,sound,?_,?_,?_,?_,?_⟩ <;> simp [List.count_cons]
        intro b
        omega
    | _ => cases done

theorem clientOnConnect_inv : Inv clientOnConnect where
  running := rfl
  sound := sound_create sound_empty
  balanced := by
    intro b
    have first := refs_create sound_empty b
    simp [clientOnConnect,Buffers.empty,List.count_cons,refs] at first ⊢
    exact first
  counted := rfl
  stream := Nat.le_refl 1
  distinct := rfl
  single := by
    intro b
    simp [clientOnConnect,State.readShare,List.count_cons]
    split <;> omega

/-- A thread starts with the share of a read or of a response. -/
theorem spawn_inv (inv : Inv s) (reads jobs responses : List Nat) (op : Op)
    (users : ∀ b, reads.count b + jobs.count b + responses.count b + held b op = s.users b)
    (streams : reads.length + continues op ≤ s.reads.length)
    (quiet : counting op = 0 ∧ discounting op = 0 ∧ confused op = 0)
    (single : ∀ b, reads.count b + shares .read b op ≤ s.reads.count b) :
    Inv (spawn { s with reads, jobs, responses } op) where
  running := inv.running
  sound := inv.sound
  balanced := by
    intro b
    have before := inv.balanced b
    have moved := users b
    have threads := total_spawn (held b) s.threads op
    change s.buffers.refs b = reads.count b + jobs.count b + responses.count b + total (held b) (s.threads ++ [[op]])
    omega
  counted := by
    have before := inv.counted
    have counts := total_spawn counting s.threads op
    have discounts := total_spawn discounting s.threads op
    simp only [spawn]
    omega
  stream := by
    have before := inv.stream
    have threads := total_spawn continues s.threads op
    simp only [spawn]
    omega
  distinct := by
    have before := inv.distinct
    have threads := total_spawn confused s.threads op
    simp only [spawn]
    omega
  single := by
    intro b
    have before := inv.single b
    have moved := single b
    have threads := total_spawn (shares .read b) s.threads op
    simp only [spawn,State.readShare] at before ⊢
    omega

theorem onClose_inv (inv : Inv s) (taken : onClose s counterFirst wait = some s') : Inv s' := by
  obtain ⟨running,sound,balanced,counted,stream,distinct,single⟩ := inv
  cases wait <;> cases taken <;> exact ⟨running,sound,balanced,counted,stream,distinct,single⟩

theorem step_inv (inv : Inv s) (taken : step s a = some s') : Inv s' := by
  have running : ¬s.fault ≠ none := not_not.mpr inv.running
  simp only [step,if_neg running] at taken
  cases a with
  | readCallback rbuf rc =>
    simp only [Option.ite_none_right_eq_some,Option.some.injEq] at taken
    obtain ⟨outstanding,rfl⟩ := taken
    have fewer := List.length_erase_of_mem outstanding
    have some := List.length_pos_of_mem outstanding
    apply spawn_inv inv (s.reads.erase rbuf) s.jobs s.responses
    · intro b
      have share := count_erase outstanding b
      cases rc <;> simp <;> omega
    · cases rc <;> simp <;> omega
    · cases rc <;> simp
    · intro b
      have share := count_erase outstanding b
      cases rc <;> simp <;> omega
  | doJob rbuf =>
    simp only [Option.ite_none_right_eq_some,Option.some.injEq] at taken
    obtain ⟨waits,rfl⟩ := taken
    apply spawn_inv inv s.reads (s.jobs.erase rbuf) s.responses
    · intro b
      have share := count_erase waits b
      simp
      omega
    · simp
    · simp
    · simp
  | freeResp rbuf =>
    simp only [Option.ite_none_right_eq_some,Option.some.injEq] at taken
    obtain ⟨waits,rfl⟩ := taken
    apply spawn_inv inv s.reads s.jobs (s.responses.erase rbuf)
    · intro b
      have share := count_erase waits b
      simp
      omega
    · simp
    · simp
    · simp
  | onClose counterFirst => exact onClose_inv inv taken
  | run thread outcome =>
    rcases here : s.threads[thread]? with _ | _ | ⟨op,rest⟩
    · simp [here] at taken
    · simp [here] at taken
    · simp only [here,Option.map_eq_some_iff] at taken
      obtain ⟨⟨s1,ops⟩,done,rfl⟩ := taken
      exact (exec_settles inv here done).inv inv here

/-- When no buffer is left, nobody has a share of one. -/
theorem Inv.nobody (inv : Inv s) (gone : s.buffers.live = []) (b : Nat) :
    s.users b = 0 ∧ total (held b) s.threads = 0 := by
  have balanced := inv.balanced b
  have dead : s.buffers.refs b = 0 := refs_dead (by simp [gone])
  omega

/-- No buffer is left when as many are done with as have been counted. -/
theorem Inv.gone (inv : Inv s) (meet : s.read_counter ≤ s.read_done_counter) : s.buffers.live = [] := by
  have counted := inv.counted
  have stream := inv.stream
  by_cases quiet : total counting s.threads = 0
  · exact List.length_eq_zero_iff.mp (by omega)
  · have fewer : total counting s.threads ≤ total continues s.threads := by
      apply total_mono
      intro op
      cases op <;> simp
    have one : s.buffers.live.length ≤ 1 := by omega
    rw [total_eq_zero] at quiet
    push Not at quiet
    obtain ⟨ops,thread,op,inside,counts⟩ := quiet
    cases op with
    | countRead rbuf old_rbuf =>
      have mine := weight_le_of_mem (held rbuf) thread inside
      have older := weight_le_of_mem (held old_rbuf) thread inside
      have apart := weight_le_of_mem confused thread inside
      have distinct := inv.distinct
      have first := inv.balanced rbuf
      have second := inv.balanced old_rbuf
      simp only [held,shares,on] at mine older
      simp at mine older
      have new : rbuf ∈ s.buffers.live := live_of_refs (by omega)
      have old : old_rbuf ∈ s.buffers.live := live_of_refs (by omega)
      have same := eq_of_short one new old
      simp [same] at apart
      omega
    | _ => simp at counts

theorem step_gone (inv : Inv s) (gone : s.buffers.live = []) (taken : step s a = some s') : s'.buffers.live = [] := by
  have running : ¬s.fault ≠ none := not_not.mpr inv.running
  simp only [step,if_neg running] at taken
  cases a with
  | readCallback rbuf rc | doJob rbuf | freeResp rbuf =>
    simp only [Option.ite_none_right_eq_some,Option.some.injEq] at taken
    obtain ⟨_,rfl⟩ := taken
    exact gone
  | onClose counterFirst =>
    have same : s'.buffers = s.buffers := by
      cases wait : s.wait <;> simp only [wait] at taken <;> cases taken <;> rfl
    rw [same]
    exact gone
  | run thread outcome =>
    rcases here : s.threads[thread]? with _ | _ | ⟨op,rest⟩
    · simp [here] at taken
    · simp [here] at taken
    · simp only [here,Option.map_eq_some_iff] at taken
      obtain ⟨⟨s1,ops⟩,done,rfl⟩ := taken
      have idle : ∀ b, held b op = 0 := by
        intro b
        have share := weight_le_total (held b) here
        have nobody := (inv.nobody gone b).2
        omega
      cases op with
      | readDone =>
        cases done
        exact gone
      | enter rbuf | turn rbuf | refer rbuf | insertTail rbuf | countRead rbuf old_rbuf | read rbuf | callback rbuf =>
        have none := idle rbuf
        simp at none
      | freeReadBuffer share rbuf =>
        have none := idle rbuf
        cases share <;> simp at none

/-- The second load of a test finds as many buffers done with as had been counted at the
first load, and more have been counted since. -/
def Stale (s : State) : Wait → Prop
  | .loadedCounter read_counter => read_counter = s.read_done_counter ∧ read_counter ≠ s.read_counter
  | _ => False

def Timely (s : State) : Action → Prop
  | .onClose _ => ¬Stale s s.wait
  | _ => True

/-- The wait has not seen more buffers done with than there are, and when it has ended none is left. -/
structure Waits (s : State) : Prop where
  loaded : ∀ read_done_counter, s.wait = .loadedDone read_done_counter → read_done_counter ≤ s.read_done_counter
  ended : s.wait = .ended → s.buffers.live = []

theorem exec_wait (done : exec s outcome op = some result) :
    result.1.wait = s.wait ∧ s.read_done_counter ≤ result.1.read_done_counter := by
  have touched : ∀ rbuf result, result.1.wait = s.wait → result.1.read_done_counter = s.read_done_counter →
      (touch s rbuf result).1.wait = s.wait ∧ s.read_done_counter ≤ (touch s rbuf result).1.read_done_counter := by
    intro rbuf result wait same
    unfold touch
    split
    · exact ⟨wait,Nat.le_of_eq same.symm⟩
    · exact ⟨rfl,Nat.le_refl _⟩
  cases op with
  | enter rbuf | refer rbuf | freeReadBuffer share rbuf =>
    cases done
    exact touched rbuf _ rfl rfl
  | turn rbuf =>
    simp only [exec,Option.map_eq_some_iff] at done
    obtain ⟨result,turned,rfl⟩ := done
    cases outcome with
    | starved same => cases same <;> cases turned <;> exact touched rbuf _ rfl rfl
    | unknown | decoded =>
      cases turned
      exact touched rbuf _ rfl rfl
    | _ => cases turned
  | insertTail rbuf | countRead rbuf old_rbuf =>
    cases done
    exact ⟨rfl,Nat.le_refl _⟩
  | readDone =>
    cases done
    exact ⟨rfl,Nat.le_succ _⟩
  | read rbuf =>
    cases outcome with
    | accepted rrc =>
      cases rrc with
      | true =>
        cases done
        exact touched rbuf _ rfl rfl
      | false =>
        cases done
        exact ⟨rfl,Nat.le_refl _⟩
    | _ => cases done
  | callback rbuf =>
    cases outcome with
    | called free_resp => cases free_resp <;> cases done <;> exact ⟨rfl,Nat.le_refl _⟩
    | _ => cases done

theorem step_waits (inv : Inv s) (waits : Waits s) (timely : Timely s a) (taken : step s a = some s') : Waits s' := by
  have running : ¬s.fault ≠ none := not_not.mpr inv.running
  have gone : s.buffers.live = [] → s'.buffers.live = [] := fun empty => step_gone inv empty taken
  simp only [step,if_neg running] at taken
  cases a with
  | readCallback rbuf rc | doJob rbuf | freeResp rbuf =>
    simp only [Option.ite_none_right_eq_some,Option.some.injEq] at taken
    obtain ⟨_,rfl⟩ := taken
    exact ⟨waits.loaded,waits.ended⟩
  | onClose counterFirst =>
    cases wait : s.wait with
    | notClosed =>
      simp only [wait] at taken
      cases taken
      exact ⟨nofun,nofun⟩
    | testing =>
      simp only [wait] at taken
      cases counterFirst <;> cases taken
      · refine ⟨?_,nofun⟩
        rintro read_done_counter ⟨⟩
        exact Nat.le_refl _
      · exact ⟨nofun,nofun⟩
    | loadedCounter read_counter =>
      simp only [Timely,wait,Stale] at timely
      simp only [wait,onClose,Option.some.injEq] at taken
      subst taken
      by_cases equal : read_counter = s.read_done_counter
      · have now : read_counter = s.read_counter := by
          by_contra older
          exact timely ⟨equal,older⟩
        exact ⟨by simp [equal],fun _ => inv.gone (by omega)⟩
      · exact ⟨by simp [equal],by simp [equal]⟩
    | loadedDone read_done_counter =>
      have earlier := waits.loaded read_done_counter wait
      simp only [wait,onClose,Option.some.injEq] at taken
      subst taken
      by_cases equal : s.read_counter = read_done_counter
      · exact ⟨by simp [equal],fun _ => inv.gone (by omega)⟩
      · exact ⟨by simp [equal],by simp [equal]⟩
    | ended => simp [wait,onClose] at taken
  | run thread outcome =>
    rcases here : s.threads[thread]? with _ | _ | ⟨op,rest⟩
    · simp [here] at taken
    · simp [here] at taken
    · simp only [here,Option.map_eq_some_iff] at taken
      obtain ⟨⟨s1,ops⟩,done,rfl⟩ := taken
      obtain ⟨same,more⟩ := exec_wait done
      refine ⟨?_,?_⟩
      · intro read_done_counter wait
        exact Nat.le_trans (waits.loaded read_done_counter (same.symm.trans wait)) more
      · intro wait
        exact gone (waits.ended (same.symm.trans wait))

structure Counted (s : State) : Prop where
  unfaulted : s.fault = none
  reference : ∀ b ∈ s.buffers.live, s.buffers.reference b = s.readShare b + s.guardShare b + s.responseShare b
  one_read : ∀ b, s.readShare b ≤ 1
  once : (s.buffers.live ++ s.buffers.zeroed).Perm (List.range s.buffers.allocated)
  positive : ∀ b ∈ s.buffers.live, 0 < s.buffers.reference b
  responses : ∀ b, 0 < s.responseShare b → b ∈ s.buffers.live
  quiet : (∀ ops ∈ s.threads, ops = []) → s.read_counter = s.read_done_counter + s.buffers.live.length

theorem total_held (b : Nat) (threads : List (List Op)) : total (held b) threads =
    total (shares .read b) threads + total (shares .guard b) threads + total (shares .response b) threads := by
  have all := total_add (fun op => shares .read b op + shares .guard b op) (shares .response b) threads
  have two := total_add (shares .read b) (shares .guard b) threads
  rw [two] at all
  exact all

theorem Inv.counts (inv : Inv s) : Counted s := by
  have balanced : ∀ b, s.buffers.refs b = s.readShare b + s.guardShare b + s.responseShare b := by
    intro b
    have balanced := inv.balanced b
    have parts := total_held b s.threads
    simp only [State.users,State.readShare,State.guardShare,State.responseShare] at balanced ⊢
    omega
  refine ⟨inv.running,?_,inv.single,inv.sound.numbered,inv.sound.positive,?_,?_⟩
  · intro b live
    exact (refs_live live).symm.trans (balanced b)
  · intro b responses
    have all := balanced b
    exact live_of_refs (by omega)
  · intro idle
    have counted := inv.counted
    simp only [total_idle _ idle] at counted
    omega

/-- In every run the counts are right; and when the read wait has ended no buffer is in use,
as long as no test of it ends it with a counter loaded before more buffers were counted. -/
theorem read_buffers_counted (reachable : Reachable step (fun _ _ => True) clientOnConnect s) :
    Counted s ∧ (Reachable step Timely clientOnConnect s → s.wait = .ended → s.buffers.live = []) := by
  constructor
  · exact (reachable.invariant clientOnConnect_inv fun _ _ _ inv _ taken => step_inv inv taken).counts
  · intro timely ended
    have start : Inv clientOnConnect ∧ Waits clientOnConnect := ⟨clientOnConnect_inv,nofun,nofun⟩
    have keeps : ∀ s a s', Inv s ∧ Waits s → Timely s a → step s a = some s' → Inv s' ∧ Waits s' := by
      rintro s a s' ⟨inv,waits⟩ timely taken
      exact ⟨step_inv inv taken,step_waits inv waits timely taken⟩
    have both := timely.invariant start keeps
    exact both.2.ended ended

instance (s : State) : (wait : Wait) → Decidable (Stale s wait)
  | .loadedCounter read_counter =>
    inferInstanceAs (Decidable (read_counter = s.read_done_counter ∧ read_counter ≠ s.read_counter))
  | .notClosed | .testing | .loadedDone _ | .ended => inferInstanceAs (Decidable False)

instance (s : State) : (a : Action) → Decidable (Timely s a)
  | .onClose _ => inferInstanceAs (Decidable (¬Stale s s.wait))
  | .readCallback _ _ | .doJob _ | .freeResp _ | .run _ _ => inferInstanceAs (Decidable True)

/-- A response is decoded and kept by its user, the connection closed, and the response
released while the wait has loaded a counter. -/
def keptLong : List Action :=
  [.readCallback 0 true,.run 0 .unknown,.run 0 .decoded,.run 0 .unknown,.run 0 .unknown,.doJob 0,.run 1 (.called false),
    .run 0 (.starved true),.run 0 (.accepted true),.run 0 .unknown,.readCallback 0 false,.run 2 .unknown,
    .onClose true,.onClose true,.freeResp 0,.run 3 .unknown,.run 3 .unknown,.onClose true]

theorem read_buffers_counted_kept :
    ∃ s, execute step clientOnConnect keptLong = some s ∧ s.wait = .ended ∧ s.buffers.zeroed = [0] ∧ s.buffers.live = [] := by
  have timely : Permitted step Timely clientOnConnect keptLong := by decide +kernel
  have counted := read_buffers_counted (Reachable.start.run keptLong rfl)
  exact ⟨_,rfl,rfl,rfl,counted.2 (Reachable.start.execute keptLong timely rfl) rfl⟩

/-- The wait has loaded the counter of the buffers when a read callback goes on in a second
one; the read in it is refused, and the wait loads the counter of those done with. -/
def loadedEarly : List Action :=
  [.readCallback 0 true,.run 0 .unknown,.onClose true,.onClose true,
    .run 0 (.starved false),.run 0 .unknown,.run 0 .unknown,.run 0 (.accepted false),.run 0 .unknown,.run 0 .unknown,.onClose true]

/-- The wait has ended, and the first buffer is in use: the callback's guard is still to be released. -/
theorem wait_ended_early : ∃ s, Reachable step (fun _ _ => True) clientOnConnect s ∧ s.wait = .ended ∧
    s.buffers.live = [0] ∧ s.threads = [[.freeReadBuffer .guard 0]] := by
  exact ⟨_,Reachable.start.run loadedEarly rfl,rfl,rfl,rfl⟩

end Muti.ClientReadBuffer
