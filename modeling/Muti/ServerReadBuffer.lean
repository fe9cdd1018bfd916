import Muti.Lists
import Muti.Memory
import Muti.SharedBuffers
import Muti.Transition

/-! The reference counts of a server connection's read buffers. Read callbacks and
finished requests run as threads over the shared counts; every atomic operation, and
every section under the lock of the parked read, is a step of its own. -/
namespace Muti.ServerReadBuffer

open Muti.Lists Muti.Memory Muti.Transition Muti.SharedBuffers Muti.SharedBuffers.Buffers

/-- How one turn of the loop of `serverReadCallback` goes: it needs more bytes, and
follows up in the same buffer or a new one; it has no decoder; or it has a request. -/
inductive Turn where
  | starved (same : Bool)
  | undecodable
  | decoded
  deriving DecidableEq, Repr

inductive Op where
  | enter (rbuf : Nat)
  | turn (rbuf : Nat)
  | refer (rbuf : Nat)
  | insertTail (rbuf : Nat)
  | unrefer (rbuf : Nat)
  | freeReadBuffer (rbuf : Nat)
  | readDone
  | readParked
  | clearParked
  | countRead (rbuf : Nat)
  | park (rbuf : Nat)
  | read (rbuf : Nat)
  deriving DecidableEq, Repr

/-- A connection's buffers, and their users: the outstanding reads, the parked one, the
requests without a response, and the threads. -/
structure State where
  buffers : Buffers
  read_counter : Int
  to_read_buf : Option Nat
  locked : Bool
  reads : List Nat
  requests : List Nat
  threads : List (List Op)
  fault : Option Fault

def onConnect : State where
  buffers := Buffers.empty.create
  read_counter := 1
  to_read_buf := none
  locked := false
  reads := [0]
  requests := []
  threads := []
  fault := none

def touch (s : State) (rbuf : Nat) (result : State × List Op) : State × List Op :=
  if rbuf ∈ s.buffers.live then result else ({ s with fault := some .useAfterFree },[])

/-- A turn of the loop, `serverRead` included up to its next atomic operation. -/
def turn (s : State) (rbuf : Nat) : Turn → State × List Op
  | .starved true => (s,[.read rbuf,.freeReadBuffer rbuf])
  | .starved false =>
    ({ s with buffers := s.buffers.create },
      [.freeReadBuffer rbuf,.countRead s.buffers.allocated,.freeReadBuffer rbuf])
  | .undecodable => (s,[.freeReadBuffer rbuf,.freeReadBuffer rbuf])
  | .decoded => (s,[.refer rbuf])

variable (max_read_buffer_counter : Nat)

/-- One operation; `accepted` is the answer of the connection or of the worker pool. -/
def exec (s : State) (outcome : Turn) (accepted : Bool) : Op → Option (State × List Op)
  | .enter rbuf => some (touch s rbuf ({ s with buffers := s.buffers.refer rbuf },[.turn rbuf]))
  | .turn rbuf => some (touch s rbuf (turn s rbuf outcome))
  | .refer rbuf => some (touch s rbuf ({ s with buffers := s.buffers.refer rbuf },[.insertTail rbuf]))
  | .insertTail rbuf =>
    if accepted then some ({ s with requests := rbuf :: s.requests },[.turn rbuf])
    else some (s,[.unrefer rbuf])
  | .unrefer rbuf =>
    some (touch s rbuf ({ s with buffers := s.buffers.unrefer rbuf },[.freeReadBuffer rbuf,.freeReadBuffer rbuf]))
  | .freeReadBuffer rbuf =>
    some (touch s rbuf ({ s with buffers := s.buffers.release rbuf },
      if s.buffers.reference rbuf = 1 then [.readDone] else []))
  | .readDone =>
    let left := s.read_counter - 1
    some ({ s with read_counter := left },if left = (max_read_buffer_counter / 2 : Nat) then [.readParked] else [])
  | .readParked =>
    if s.locked then none
    else match s.to_read_buf with
      | none => some (s,[])
      | some rbuf =>
        some (touch s rbuf (if accepted then ({ s with locked := true, reads := rbuf :: s.reads },[.clearParked])
          else ({ s with locked := true },[.freeReadBuffer rbuf,.clearParked])))
  | .clearParked => some ({ s with locked := false, to_read_buf := none },[])
  | .countRead rbuf =>
    let left := s.read_counter + 1
    some ({ s with read_counter := left },if left = max_read_buffer_counter then [.park rbuf] else [.read rbuf])
  | .park rbuf =>
    if s.locked then none
    else if s.to_read_buf = none then some ({ s with to_read_buf := some rbuf },[])
    else some ({ s with fault := some .assertion },[])
  -- both of the source's releases of a refused read
  | .read rbuf =>
    some (touch s rbuf (if accepted then ({ s with reads := rbuf :: s.reads },[])
      else (s,[.freeReadBuffer rbuf,.freeReadBuffer rbuf])))

/-- A read ends, a request's response is produced, or a thread does its next operation. -/
inductive Action where
  | readCallback (rbuf : Nat) (rc : Bool)
  | doActionCallback (rbuf : Nat)
  | run (thread : Nat) (outcome : Turn) (accepted : Bool)
  deriving DecidableEq, Repr

def spawn (s : State) (ops : List Op) : State := { s with threads := s.threads ++ [ops] }

def step (s : State) (a : Action) : Option State :=
  if s.fault ≠ none then none
  else match a with
    | .readCallback rbuf rc =>
      if rbuf ∈ s.reads then
        some (spawn { s with reads := s.reads.erase rbuf } [if rc then .enter rbuf else .freeReadBuffer rbuf])
      else none
    | .doActionCallback rbuf =>
      if rbuf ∈ s.requests then
        some (spawn { s with requests := s.requests.erase rbuf } [.freeReadBuffer rbuf])
      else none
    | .run thread outcome accepted =>
      match s.threads[thread]? with
      | some (op :: rest) =>
        (exec max_read_buffer_counter s outcome accepted op).map fun done =>
          { done.1 with threads := s.threads.set thread (done.2 ++ rest) }
      | _ => none

/-- The share of a read: of one being processed, or about to be made. -/
@[simp] def reading (b : Nat) : Op → Nat
  | .enter rbuf | .turn rbuf | .refer rbuf | .insertTail rbuf | .unrefer rbuf => on b rbuf
  | .countRead rbuf | .park rbuf | .read rbuf => on b rbuf
  | _ => 0

@[simp] def processing (b : Nat) : Op → Nat
  | .turn rbuf | .refer rbuf | .insertTail rbuf | .unrefer rbuf => on b rbuf
  | _ => 0

@[simp] def decoding (b : Nat) : Op → Nat
  | .insertTail rbuf | .unrefer rbuf => on b rbuf
  | _ => 0

@[simp] def leaving (b : Nat) : Op → Nat
  | .freeReadBuffer rbuf => on b rbuf
  | _ => 0

@[simp] def held (b : Nat) (op : Op) : Nat := reading b op + processing b op + decoding b op + leaving b op

@[simp] def State.parked (s : State) : Option Nat := bif s.locked then none else s.to_read_buf

@[simp] def State.users (s : State) (b : Nat) : Nat :=
  s.reads.count b + s.parked.toList.count b + s.requests.count b

/-- There is one read to be made, at most: the continuation of the stream. -/
@[simp] def continues : Op → Nat
  | .enter _ | .turn _ | .refer _ | .insertTail _ | .unrefer _ | .countRead _ | .park _ | .read _ => 1
  | _ => 0

@[simp] def State.streams (s : State) : Nat := s.reads.length + s.parked.toList.length

@[simp] def counting : Op → Nat
  | .countRead _ => 1
  | _ => 0

@[simp] def discounting : Op → Nat
  | .readDone => 1
  | _ => 0

@[simp] def unlocking : Op → Nat
  | .clearParked => 1
  | _ => 0

structure Inv (s : State) : Prop where
  running : s.fault = none
  sound : s.buffers.Sound
  balanced : ∀ b, s.buffers.refs b = s.users b + total (held b) s.threads
  counted : s.read_counter + total counting s.threads = s.buffers.live.length + total discounting s.threads
  unlocks : total unlocking s.threads = s.locked.toNat
  stream : s.streams + total continues s.threads ≤ 1

structure Settles (s : State) (op : Op) (s' : State) (ops : List Op) : Prop where
  running : s'.fault = none
  sound : s'.buffers.Sound
  shares : ∀ b, s'.buffers.refs b + s.users b + held b op = s.buffers.refs b + s'.users b + (ops.map (held b)).sum
  counters : s'.read_counter + (ops.map counting).sum + s.buffers.live.length + discounting op =
    s.read_counter + counting op + s'.buffers.live.length + (ops.map discounting).sum
  locks : s'.locked.toNat + unlocking op = s.locked.toNat + (ops.map unlocking).sum
  streams : s'.streams + (ops.map continues).sum ≤ s.streams + continues op

theorem Settles.inv {i : Nat} (settles : Settles s op s' ops) (inv : Inv s)
    (here : s.threads[i]? = some (op :: rest)) : Inv { s' with threads := s.threads.set i (ops ++ rest) } where
  running := settles.running
  sound := settles.sound
  balanced := by
    intro b
    have before := inv.balanced b
    have moved := settles.shares b
    have threads := total_advance (held b) here ops
    change s'.buffers.refs b = s'.users b + total (held b) (s.threads.set i (ops ++ rest))
    omega
  counted := by
    have before := inv.counted
    have moved := settles.counters
    have more := total_advance counting here ops
    have fewer := total_advance discounting here ops
    simp only
    omega
  unlocks := by
    have before := inv.unlocks
    have moved := settles.locks
    have threads := total_advance unlocking here ops
    simp only
    omega
  stream := by
    have before := inv.stream
    have moved := settles.streams
    have threads := total_advance continues here ops
    change s'.streams + total continues (s.threads.set i (ops ++ rest)) ≤ 1
    omega

theorem touch_live (live : rbuf ∈ s.buffers.live) (result : State × List Op) : touch s rbuf result = result := by
  simp [touch,live]

/-- Whoever holds a share may use the buffer, and its count covers the share. -/
theorem Inv.holder {i : Nat} (inv : Inv s) (b : Nat) (here : s.threads[i]? = some (op :: rest))
    (holds : 0 < held b op) : b ∈ s.buffers.live ∧ held b op ≤ s.buffers.reference b := by
  have balanced := inv.balanced b
  have share := weight_le_total (held b) here
  have live : b ∈ s.buffers.live := live_of_refs (by omega)
  have count := refs_live live
  exact ⟨live,by omega⟩

theorem Inv.parked_live (inv : Inv s) (rbuf : Nat) (parked : s.parked = some rbuf) : rbuf ∈ s.buffers.live := by
  have balanced := inv.balanced rbuf
  rw [State.users,parked] at balanced
  simp at balanced
  exact live_of_refs (by omega)

/-- A section of `serverReadDone` finds no buffer parked, or issues the read of the one that is. -/
inductive Unparked (s : State) : Bool → State → List Op → Prop
  | nothing (waiting : s.to_read_buf = none) : Unparked s accepted s []
  | reads (waiting : s.to_read_buf = some rbuf) :
    Unparked s true { s with locked := true, reads := rbuf :: s.reads } [.clearParked]
  | refused (waiting : s.to_read_buf = some rbuf) :
    Unparked s false { s with locked := true } [.freeReadBuffer rbuf,.clearParked]

theorem Inv.unparked (inv : Inv s) (done : exec max_read_buffer_counter s outcome accepted .readParked = some (s',ops)) :
    s.locked = false ∧ Unparked s accepted s' ops := by
  cases locked : s.locked with
  | true => simp [exec,locked] at done
  | false =>
    refine ⟨rfl,?_⟩
    cases waiting : s.to_read_buf with
    | none =>
      simp [exec,locked,waiting] at done
      obtain ⟨rfl,rfl⟩ := done
      exact .nothing waiting
    | some rbuf =>
      have live := inv.parked_live rbuf (by simp [locked,waiting])
      simp only [exec,locked,waiting,touch_live live] at done
      cases accepted with
      | true =>
        simp at done
        obtain ⟨rfl,rfl⟩ := done
        rw [← waiting]
        exact .reads waiting
      | false =>
        simp at done
        obtain ⟨rfl,rfl⟩ := done
        rw [← waiting]
        exact .refused waiting

/-- Whoever is to clear the parked buffer has the lock. -/
theorem Inv.clearing {i : Nat} (inv : Inv s) (here : s.threads[i]? = some (.clearParked :: rest)) : s.locked = true := by
  have pending := weight_le_total unlocking here
  have unlocks := inv.unlocks
  cases locked : s.locked with
  | true => rfl
  | false =>
    simp [locked] at pending unlocks
    omega

theorem Inv.parks {i : Nat} (inv : Inv s) (here : s.threads[i]? = some (.park rbuf :: rest))
    (done : exec max_read_buffer_counter s outcome accepted (.park rbuf) = some (s',ops)) :
    s.locked = false ∧ s.to_read_buf = none ∧ s' = { s with to_read_buf := some rbuf } ∧ ops = [] := by
  have stream := inv.stream
  have mine := weight_le_total continues here
  cases locked : s.locked with
  | true => simp [exec,locked] at done
  | false =>
    cases waiting : s.to_read_buf with
    | none =>
      simp [exec,locked,waiting] at done
      obtain ⟨rfl,rfl⟩ := done
      exact ⟨rfl,rfl,rfl,rfl⟩
    | some other =>
      simp [locked,waiting] at stream mine
      omega

/-- An operation's accounts always settle, unless it is a refused read. -/
theorem exec_settles {i : Nat} (inv : Inv s) (here : s.threads[i]? = some (op :: rest))
    (allow : ∀ rbuf, op = .read rbuf → accepted = true)
    (done : exec max_read_buffer_counter s outcome accepted op = some (s',ops)) : Settles s op s' ops := by
  have running := inv.running
  cases op with
  | enter rbuf =>
    obtain ⟨live,share⟩ := inv.holder rbuf here (by simp)
    simp only [exec,touch_live live] at done
    cases done
    refine ⟨running,sound_refer inv.sound rbuf,?_,?_,?_,?_⟩ <;> simp
    intro b
    have stored := refs_refer live b
    omega
  | turn rbuf =>
    obtain ⟨live,share⟩ := inv.holder rbuf here (by simp)
    simp only [exec,touch_live live,Option.some.injEq] at done
    rw [Prod.ext_iff] at done
    obtain ⟨rfl,rfl⟩ := done
    cases outcome with
    | starved same =>
      cases same with
      | true => refine ⟨running,inv.sound,?_,?_,?_,?_⟩ <;> simp [turn]
      | false =>
        refine ⟨running,sound_create inv.sound,?_,?_,?_,?_⟩ <;> simp [turn]
        · intro b
          have stored := refs_create inv.sound b
          omega
        · omega
    | undecodable => refine ⟨running,inv.sound,?_,?_,?_,?_⟩ <;> simp [turn]
    | decoded => refine ⟨running,inv.sound,?_,?_,?_,?_⟩ <;> simp [turn]
  | refer rbuf =>
    obtain ⟨live,share⟩ := inv.holder rbuf here (by simp)
    simp only [exec,touch_live live] at done
    cases done
    refine ⟨running,sound_refer inv.sound rbuf,?_,?_,?_,?_⟩ <;> simp
    intro b
    have stored := refs_refer live b
    omega
  | insertTail rbuf =>
    cases accepted with
    | true =>
      cases done
      refine ⟨running,inv.sound,?_,?_,?_,?_⟩ <;> simp [List.count_cons]
      intro b
      omega
    | false =>
      cases done
      refine ⟨running,inv.sound,?_,?_,?_,?_⟩ <;> simp
  | unrefer rbuf =>
    obtain ⟨live,share⟩ := inv.holder rbuf here (by simp)
    simp only [exec,touch_live live] at done
    cases done
    simp at share
    refine ⟨running,sound_unrefer inv.sound (by omega),?_,?_,?_,?_⟩ <;> simp
    intro b
    have stored := refs_unrefer inv.sound live b
    omega
  | freeReadBuffer rbuf =>
    obtain ⟨live,share⟩ := inv.holder rbuf here (by simp)
    simp only [exec,touch_live live] at done
    have length := live_release live
    have stored := refs_release inv.sound live
    cases done
    by_cases last : s.buffers.reference rbuf = 1
    · refine ⟨running,sound_release inv.sound live,?_,?_,?_,?_⟩ <;> simp [last] at length ⊢
      · intro b
        have left := stored b
        omega
      · omega
    · refine ⟨running,sound_release inv.sound live,?_,?_,?_,?_⟩ <;> simp [last] at length ⊢
      · intro b
        have left := stored b
        omega
      · omega
  | readDone =>
    by_cases half : s.read_counter - 1 = (max_read_buffer_counter / 2 : Nat)
    · simp only [exec,if_pos half] at done
      cases done
      refine ⟨running,inv.sound,?_,?_,?_,?_⟩ <;> simp
      omega
    · simp only [exec,if_neg half] at done
      cases done
      refine ⟨running,inv.sound,?_,?_,?_,?_⟩ <;> simp
      omega
  | readParked =>
    obtain ⟨locked,unparked⟩ := inv.unparked max_read_buffer_counter done
    cases unparked with
    | nothing => refine ⟨running,inv.sound,?_,?_,?_,?_⟩ <;> simp
    | reads waiting => refine ⟨running,inv.sound,?_,?_,?_,?_⟩ <;> simp [locked,waiting,List.count_cons]
    | refused waiting =>
      refine ⟨running,inv.sound,?_,?_,?_,?_⟩ <;> simp [locked,waiting,List.count_cons]
      intro b
      omega
  | clearParked =>
    have locked := inv.clearing here
    cases done
    refine ⟨running,inv.sound,?_,?_,?_,?_⟩ <;> simp [locked]
  | countRead rbuf =>
    by_cases full : s.read_counter + 1 = max_read_buffer_counter
    · simp only [exec,if_pos full] at done
      cases done
      refine ⟨running,inv.sound,?_,?_,?_,?_⟩ <;> simp
    · simp only [exec,if_neg full] at done
      cases done
      refine ⟨running,inv.sound,?_,?_,?_,?_⟩ <;> simp
  | park rbuf =>
    obtain ⟨locked,waiting,rfl,rfl⟩ := inv.parks max_read_buffer_counter here done
    refine ⟨running,inv.sound,?_,?_,?_,?_⟩ <;> simp [locked,waiting,List.count_cons]
    intro b
    omega
  | read rbuf =>
    obtain ⟨live,share⟩ := inv.holder rbuf here (by simp)
    simp only [exec,touch_live live,allow rbuf rfl] at done
    cases done
    refine ⟨running,inv.sound,?_,?_,?_,?_⟩ <;> simp [List.count_cons]
    · intro b
      omega
    · omega

theorem onConnect_inv : Inv onConnect where
  running := rfl
  sound := sound_create sound_empty
  balanced := by
    intro b
    have first := refs_create sound_empty b
    simp [onConnect,Buffers.empty,List.count_cons,refs] at first ⊢
    exact first
  counted := rfl
  unlocks := rfl
  stream := Nat.le_refl 1

/-- A thread starts with a share that a read or a request gives up. -/
theorem spawn_inv (inv : Inv s) (reads requests : List Nat) (op : Op)
    (shares : ∀ b, reads.count b + requests.count b + held b op = s.reads.count b + s.requests.count b)
    (streams : reads.length + continues op ≤ s.reads.length)
    (quiet : counting op = 0 ∧ discounting op = 0 ∧ unlocking op = 0) :
    Inv (spawn { s with reads, requests } [op]) where
  running := inv.running
  sound := inv.sound
  balanced := by
    intro b
    have before := inv.balanced b
    have moved := shares b
    have threads := total_spawn (held b) s.threads op
    change s.buffers.refs b = reads.count b + s.parked.toList.count b + requests.count b + total (held b) (s.threads ++ [[op]])
    simp only [State.users] at before
    omega
  counted := by
    have before := inv.counted
    have counts := total_spawn counting s.threads op
    have discounts := total_spawn discounting s.threads op
    change s.read_counter + (total counting (s.threads ++ [[op]]) : Nat) =
      s.buffers.live.length + (total discounting (s.threads ++ [[op]]) : Nat)
    omega
  unlocks := by
    have before := inv.unlocks
    have locks := total_spawn unlocking s.threads op
    change total unlocking (s.threads ++ [[op]]) = s.locked.toNat
    omega
  stream := by
    have before := inv.stream
    have threads := total_spawn continues s.threads op
    change reads.length + s.parked.toList.length + total continues (s.threads ++ [[op]]) ≤ 1
    simp only [State.streams] at before
    omega

def Accepts (s : State) (a : Action) : Prop :=
  ∀ thread outcome rbuf rest, a = .run thread outcome false → s.threads[thread]? ≠ some (.read rbuf :: rest)

theorem step_inv (inv : Inv s) (accepts : Accepts s a) (taken : step max_read_buffer_counter s a = some s') :
    Inv s' := by
  have running : ¬s.fault ≠ none := not_not.mpr inv.running
  cases a with
  | readCallback rbuf rc =>
    by_cases outstanding : rbuf ∈ s.reads
    · simp only [step,if_neg running,if_pos outstanding,Option.some.injEq] at taken
      subst taken
      have fewer := List.length_erase_of_mem outstanding
      have some := List.length_pos_of_mem outstanding
      apply spawn_inv inv (s.reads.erase rbuf) s.requests
      · intro b
        have share := count_erase outstanding b
        cases rc <;> simp <;> omega
      · cases rc <;> simp <;> omega
      · cases rc <;> simp
    · simp [step,running,outstanding] at taken
  | doActionCallback rbuf =>
    by_cases pending : rbuf ∈ s.requests
    · simp only [step,if_neg running,if_pos pending,Option.some.injEq] at taken
      subst taken
      apply spawn_inv inv s.reads (s.requests.erase rbuf)
      · intro b
        have share := count_erase pending b
        simp
        omega
      · simp
      · simp
    · simp [step,running,pending] at taken
  | run thread outcome accepted =>
    cases here : s.threads[thread]? with
    | none => simp [step,running,here] at taken
    | some ops =>
      cases ops with
      | nil => simp [step,running,here] at taken
      | cons op rest =>
        simp only [step,if_neg running,here,Option.map_eq_some_iff] at taken
        obtain ⟨⟨s1,ops⟩,done,rfl⟩ := taken
        have allow : ∀ rbuf, op = .read rbuf → accepted = true := by
          rintro rbuf rfl
          cases accepted with
          | true => rfl
          | false => exact absurd here (accepts thread outcome rbuf rest rfl)
        exact (exec_settles max_read_buffer_counter inv here allow done).inv inv here

/-- The read whose continuation a buffer is for: outstanding, parked, or in a callback's hands. -/
def State.readShare (s : State) (b : Nat) : Nat :=
  s.reads.count b + s.parked.toList.count b + total (reading b) s.threads

def State.requestShare (s : State) (b : Nat) : Nat := s.requests.count b + total (decoding b) s.threads

structure Counted (s : State) : Prop where
  unfaulted : s.fault = none
  reference : ∀ b ∈ s.buffers.live, s.buffers.reference b =
    s.readShare b + total (processing b) s.threads + s.requestShare b + total (leaving b) s.threads
  one_read : ∀ b, s.readShare b ≤ 1
  one_callback : ∀ b, total (processing b) s.threads ≤ 1
  once : (s.buffers.live ++ s.buffers.zeroed).Perm (List.range s.buffers.allocated)
  positive : ∀ b ∈ s.buffers.live, 0 < s.buffers.reference b
  requests : ∀ b, 0 < s.requestShare b → b ∈ s.buffers.live
  quiet : (∀ ops ∈ s.threads, ops = []) → s.read_counter = s.buffers.live.length ∧
    ∀ b ∈ s.buffers.live, s.buffers.reference b = s.reads.count b + s.parked.toList.count b + s.requests.count b

theorem total_held (b : Nat) (threads : List (List Op)) : total (held b) threads =
    total (reading b) threads + total (processing b) threads + total (decoding b) threads +
      total (leaving b) threads := by
  have all := total_add (fun op => reading b op + processing b op + decoding b op) (leaving b) threads
  have three := total_add (fun op => reading b op + processing b op) (decoding b) threads
  have two := total_add (reading b) (processing b) threads
  rw [two] at three
  rw [three] at all
  exact all

/-- As long as no follow-up read of `serverRead` is refused, the counts are right. -/
theorem reference_counts (reachable : Reachable (step max_read_buffer_counter) Accepts onConnect s) : Counted s := by
  have inv := reachable.invariant onConnect_inv fun s a s' inv accepts taken =>
    step_inv max_read_buffer_counter inv accepts taken
  have balanced : ∀ b, s.buffers.refs b =
      s.readShare b + total (processing b) s.threads + s.requestShare b + total (leaving b) s.threads := by
    intro b
    have balanced := inv.balanced b
    have parts := total_held b s.threads
    simp only [State.users,State.readShare,State.requestShare] at balanced ⊢
    omega
  have counts : ∀ b ∈ s.buffers.live, s.buffers.refs b = s.buffers.reference b := by
    intro b live
    exact refs_live live
  have stream := inv.stream
  refine ⟨inv.running,?_,?_,?_,inv.sound.numbered,inv.sound.positive,?_,?_⟩
  · intro b live
    exact (counts b live).symm.trans (balanced b)
  · intro b
    have outstanding := List.count_le_length (a := b) (l := s.reads)
    have parked := List.count_le_length (a := b) (l := s.parked.toList)
    have fewer : total (reading b) s.threads ≤ total continues s.threads := by
      apply total_mono
      intro op
      cases op <;> simp <;> split <;> omega
    simp only [State.streams,State.readShare] at stream ⊢
    omega
  · intro b
    have fewer : total (processing b) s.threads ≤ total continues s.threads := by
      apply total_mono
      intro op
      cases op <;> simp <;> split <;> omega
    omega
  · intro b pending
    by_contra dead
    have nobody := refs_dead dead
    have all := balanced b
    omega
  · intro idle
    have counted := inv.counted
    simp only [total_idle _ idle] at counted
    refine ⟨by simpa using counted,?_⟩
    intro b live
    have all := balanced b
    simp only [State.readShare,State.requestShare,total_idle _ idle] at all
    have here := counts b live
    omega

/-- A request is decoded, the read continues in a new buffer, and the request is answered. -/
def answered : List Action :=
  [.readCallback 0 true,.run 0 .decoded true,.run 0 .decoded true,.run 0 .decoded true,.run 0 .decoded true,
    .run 0 (.starved false) true,.run 0 .decoded true,.run 0 .decoded true,.run 0 .decoded true,
    .run 0 .decoded true,.doActionCallback 0,.run 1 .decoded true,.run 1 .decoded true]

theorem reference_counts_answered :
    ∃ s, execute (step 8) onConnect answered = some s ∧ s.buffers.zeroed = [0] ∧ Counted s := by
  have accepts : ∀ s, ∀ a ∈ answered, Accepts s a := by
    intro s a member thread outcome rbuf rest same
    subst same
    simp [answered] at member
  refine ⟨_,rfl,rfl,reference_counts 8 (Reachable.start.execute answered (permitted_of_forall answered accepts _) rfl)⟩

/-- The follow-up read is refused while a request waits: the source gives back two shares
for it, and the callback its own. -/
def refused : List Action :=
  [.readCallback 0 true,.run 0 .decoded true,.run 0 .decoded true,.run 0 .decoded true,.run 0 .decoded true,
    .run 0 (.starved true) true,.run 0 .decoded false,.run 0 .decoded true,.run 0 .decoded true,
    .run 0 .decoded true]

/-- A request is left pointing into freed memory, and its own release comes after that. -/
theorem refused_read_frees_early :
    ∃ s s', Reachable (step 8) (fun _ _ => True) onConnect s ∧ 0 ∈ s.requests ∧ 0 ∉ s.buffers.live ∧
      execute (step 8) s [.doActionCallback 0,.run 1 .decoded true] = some s' ∧ s'.fault = some .useAfterFree := by
  refine ⟨_,_,Reachable.start.run refused rfl,?_,?_,rfl,rfl⟩
  · decide
  · decide

end Muti.ServerReadBuffer
