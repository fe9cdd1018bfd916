import Muti.ServerReadBuffer

/-! The lifetime of a server connection's context. Read callbacks and the buffers are those
of `Muti.ServerReadBuffer`; beside them requests are answered, writes end, and
`serverOnClose` waits for the counters before it frees the context. -/
namespace Muti.ServerContext

open Muti.Lists Muti.Memory Muti.Transition Muti.SharedBuffers Muti.SharedBuffers.Buffers
open Muti.ServerReadBuffer (Turn held reading processing decoding leaving continues counting discounting unlocking)

/-- What a thread has left to do of `serverDoActionCallback`, for a request of this buffer,
or of `serverWriteCallback`. -/
inductive Op where
  | countWrite (rbuf : Nat)
  | write (rbuf : Nat)
  | countSent
  | countDone
  | freeReadBuffer (rbuf : Nat)
  deriving DecidableEq, Repr

/-- Where `serverOnClose` is; `comparing` has read `write_counter`. -/
inductive Closing where
  | uncalled
  | called
  | awaitingReads
  | awaitingWrites
  | comparing (write_counter : Nat)
  | leaving
  | returned
  deriving DecidableEq, Repr

/-- The context, with its read side, the writes without a callback, and whether it has been
freed and used after that. -/
structure State where
  base : ServerReadBuffer.State
  write_counter : Nat
  write_done_counter : Nat
  received_request_counter : Nat
  sent_request_counter : Nat
  writes : Nat
  threads : List (List Op)
  closing : Closing
  released : Bool
  misused : Bool

def onConnect : State where
  base := ServerReadBuffer.onConnect
  write_counter := 0
  write_done_counter := 0
  received_request_counter := 0
  sent_request_counter := 0
  writes := 0
  threads := []
  closing := .uncalled
  released := false
  misused := false

def readsContext : ServerReadBuffer.Op → Bool
  | .insertTail _ | .unrefer _ | .readDone | .readParked | .clearParked | .countRead _ | .park _ => true
  | _ => false

/-- What `serverReadCallback` counts beside these operations. -/
def countRequest (s : State) : ServerReadBuffer.Op → State
  | .insertTail _ => { s with received_request_counter := s.received_request_counter + 1 }
  | .unrefer _ => { s with sent_request_counter := s.sent_request_counter + 1 }
  | _ => s

def usesContext : Op → Bool
  | .countWrite _ | .countSent | .countDone => true
  | _ => false

@[simp] def answering (b : Nat) : Op → Nat
  | .countWrite rbuf | .write rbuf | .freeReadBuffer rbuf => on b rbuf
  | _ => 0

/-- The section of `serverOnClose` under the lock, for a parked buffer. -/
def freeParked (s : ServerReadBuffer.State) (rbuf : Nat) : ServerReadBuffer.State :=
  if rbuf ∈ s.buffers.live then { s with
    buffers := s.buffers.discard rbuf
    to_read_buf := none
    read_counter := s.read_counter - 1 }
  else { s with fault := some .useAfterFree }

/-- The next step of `serverOnClose`; the lock is taken to work on after `pthread_mutex_destroy`. -/
def onClose (s : State) : Option State :=
  match s.closing with
  | .uncalled => some { s with closing := .called }
  | .called =>
    if s.base.locked then none
    else match s.base.to_read_buf with
      | none => some { s with closing := .awaitingReads }
      | some rbuf => some { s with
        base := freeParked s.base rbuf
        closing := .awaitingReads }
  | .awaitingReads => if s.base.read_counter = 0 then some { s with closing := .awaitingWrites } else none
  | .awaitingWrites => some { s with closing := .comparing s.write_counter }
  | .comparing write_counter =>
    some { s with closing := if write_counter = s.write_done_counter then .leaving else .awaitingWrites }
  | .leaving => some { s with
    closing := .returned
    released := true }
  | .returned => none

variable (max_read_buffer_counter : Nat)

/-- One operation; `accepted` is the answer of the connection. -/
def exec (s : State) (accepted : Bool) : Op → Option (State × List Op)
  | .countWrite rbuf => some ({ s with write_counter := s.write_counter + 1 },[.write rbuf])
  | .write rbuf =>
    if accepted then some ({ s with writes := s.writes + 1 },[.freeReadBuffer rbuf])
    else some (s,[.countSent,.countDone,.freeReadBuffer rbuf])
  | .countSent => some ({ s with sent_request_counter := s.sent_request_counter + 1 },[])
  | .countDone => some ({ s with write_done_counter := s.write_done_counter + 1 },[])
  | .freeReadBuffer rbuf =>
    (ServerReadBuffer.step max_read_buffer_counter s.base (.doActionCallback rbuf)).map fun base => ({ s with base },[])

/-- A read ends; a thread of a read callback goes on; a response is produced; a write ends;
another thread goes on; `serverOnClose` does. -/
inductive Action where
  | readCallback (rbuf : Nat) (rc : Bool)
  | runRead (thread : Nat) (outcome : Turn) (accepted : Bool)
  | doActionCallback (rbuf : Nat)
  | writeCallback
  | run (thread : Nat) (accepted : Bool)
  | onClose
  deriving DecidableEq, Repr

def step (s : State) (a : Action) : Option State :=
  if s.base.fault ≠ none ∨ s.misused then none
  else match a with
    | .readCallback rbuf rc =>
      (ServerReadBuffer.step max_read_buffer_counter s.base (.readCallback rbuf rc)).map fun base => { s with base }
    | .runRead thread outcome accepted =>
      match s.base.threads[thread]? with
      | some (op :: _) =>
        if readsContext op && s.released then some { s with misused := true }
        else (ServerReadBuffer.step max_read_buffer_counter s.base (.run thread outcome accepted)).map fun base =>
          { countRequest s op with base }
      | _ => none
    | .doActionCallback rbuf =>
      if total (answering rbuf) s.threads < s.base.requests.count rbuf then
        some { s with threads := s.threads ++ [[.countWrite rbuf]] }
      else none
    | .writeCallback =>
      if 0 < s.writes then some { s with
        writes := s.writes - 1
        threads := s.threads ++ [[.countDone,.countSent]] }
      else none
    | .run thread accepted =>
      match s.threads[thread]? with
      | some (op :: rest) =>
        if usesContext op && s.released then some { s with misused := true }
        else (exec max_read_buffer_counter s accepted op).map fun done =>
          { done.1 with threads := s.threads.set thread (done.2 ++ rest) }
      | _ => none
    | .onClose => onClose s

def refusedRead (s : State) : Action → Bool
  | .runRead thread _ false => match s.base.threads[thread]? with
    | some (.read _ :: _) => true
    | _ => false
  | _ => false

/-- No follow-up read is refused, and the context is freed while no thread is between the
counters of a write callback, or at a section of `serverReadDone`. -/
def Orderly (s : State) (a : Action) : Prop :=
  refusedRead s a = false ∧ (a = .onClose → s.closing = .leaving → (∀ ops ∈ s.threads, .countSent ∉ ops) ∧
    ∀ ops ∈ s.base.threads, .readParked ∉ ops ∧ .clearParked ∉ ops)

instance : Decidable (Orderly s a) := inferInstanceAs (Decidable (_ ∧ _))

@[simp] def fresh (b : Nat) : ServerReadBuffer.Op → Nat
  | .countRead rbuf | .park rbuf => on b rbuf
  | _ => 0

/-- The other shares of a thread. -/
@[simp] def stale (b : Nat) (op : ServerReadBuffer.Op) : Nat := held b op - fresh b op

/-- Nobody else has a share of a new buffer, parked or about to be. -/
def Fresh (s : ServerReadBuffer.State) : Prop :=
  ∀ b, 0 < s.parked.toList.count b + total (fresh b) s.threads → s.buffers.refs b ≤ 1

theorem fresh_le_held (b : Nat) (op : ServerReadBuffer.Op) : fresh b op ≤ held b op := by
  cases op <;> simp

theorem total_fresh (b : Nat) (threads : List (List ServerReadBuffer.Op)) :
    total (held b) threads = total (fresh b) threads + total (stale b) threads := by
  rw [← total_add]
  congr 1
  funext op
  have less := fresh_le_held b op
  simp only [stale]
  omega

/-- Whoever has another share does not have one of a new buffer. -/
theorem Fresh.apart {s : ServerReadBuffer.State} {i : Nat} (unread : Fresh s) (inv : ServerReadBuffer.Inv s)
    (here : s.threads[i]? = some (op :: rest)) (b : Nat) (new : 0 < s.parked.toList.count b + total (fresh b) s.threads) :
    stale b op = 0 := by
  have single := unread b new
  have balanced := inv.balanced b
  have parts := total_fresh b s.threads
  have share := weight_le_total (stale b) here
  simp only [ServerReadBuffer.State.users] at balanced
  omega

/-- An operation makes no buffer new but the one it creates, and only whoever has another
share takes one more. -/
theorem exec_unread {s : ServerReadBuffer.State} {i : Nat} (inv : ServerReadBuffer.Inv s)
    (here : s.threads[i]? = some (op :: rest)) (allow : ∀ rbuf, op = .read rbuf → accepted = true)
    (done : ServerReadBuffer.exec max_read_buffer_counter s outcome accepted op = some (s',ops)) (b : Nat) :
    s'.buffers.refs b ≤ 1 ∨ s'.parked.toList.count b + (ops.map (fresh b)).sum ≤ s.parked.toList.count b + fresh b op ∧
      s'.buffers.refs b ≤ s.buffers.refs b + stale b op := by
  cases op with
  | enter rbuf =>
    obtain ⟨live,-⟩ := inv.holder rbuf here (by simp)
    simp only [ServerReadBuffer.exec,ServerReadBuffer.touch_live live] at done
    cases done
    have raised := refs_refer live b
    right
    simp
    omega
  | turn rbuf =>
    obtain ⟨live,-⟩ := inv.holder rbuf here (by simp)
    simp only [ServerReadBuffer.exec,ServerReadBuffer.touch_live live,Option.some.injEq] at done
    rw [Prod.ext_iff] at done
    obtain ⟨rfl,rfl⟩ := done
    cases outcome with
    | starved same =>
      cases same with
      | true => simp [ServerReadBuffer.turn]
      | false =>
        have created := refs_create inv.sound b
        by_cases own : s.buffers.allocated = b
        · left
          have nobody : s.buffers.refs b = 0 := refs_dead (own ▸ inv.sound.fresh)
          rw [if_pos own,nobody] at created
          exact Nat.le_of_eq created
        · right
          rw [if_neg own] at created
          simp [ServerReadBuffer.turn,own]
          omega
    | undecodable => simp [ServerReadBuffer.turn]
    | decoded => simp [ServerReadBuffer.turn]
  | refer rbuf =>
    obtain ⟨live,-⟩ := inv.holder rbuf here (by simp)
    simp only [ServerReadBuffer.exec,ServerReadBuffer.touch_live live] at done
    cases done
    have raised := refs_refer live b
    right
    simp
    omega
  | insertTail rbuf => cases accepted <;> cases done <;> simp
  | unrefer rbuf =>
    obtain ⟨live,-⟩ := inv.holder rbuf here (by simp)
    simp only [ServerReadBuffer.exec,ServerReadBuffer.touch_live live] at done
    cases done
    have lowered := refs_unrefer inv.sound live b
    right
    simp
    omega
  | freeReadBuffer rbuf =>
    obtain ⟨live,-⟩ := inv.holder rbuf here (by simp)
    simp only [ServerReadBuffer.exec,ServerReadBuffer.touch_live live] at done
    cases done
    have lowered := refs_release inv.sound live b
    right
    by_cases last : s.buffers.reference rbuf = 1
    · simp [last]
      omega
    · simp [last]
      omega
  | readDone =>
    by_cases half : s.read_counter - 1 = (max_read_buffer_counter / 2 : Nat)
    · simp only [ServerReadBuffer.exec,if_pos half] at done
      cases done
      simp
    · simp only [ServerReadBuffer.exec,if_neg half] at done
      cases done
      simp
  | readParked =>
    obtain ⟨-,unparked⟩ := inv.unparked max_read_buffer_counter done
    cases unparked with
    | nothing | reads | refused => simp
  | clearParked =>
    cases done
    simp
  | countRead rbuf =>
    by_cases full : s.read_counter + 1 = max_read_buffer_counter
    · simp only [ServerReadBuffer.exec,if_pos full] at done
      cases done
      simp
    · simp only [ServerReadBuffer.exec,if_neg full] at done
      cases done
      simp
  | park rbuf =>
    obtain ⟨locked,waiting,rfl,rfl⟩ := inv.parks max_read_buffer_counter here done
    simp [locked,List.count_cons]
  | read rbuf =>
    obtain ⟨live,-⟩ := inv.holder rbuf here (by simp)
    simp only [ServerReadBuffer.exec,ServerReadBuffer.touch_live live,allow rbuf rfl] at done
    cases done
    simp

theorem exec_fresh {s : ServerReadBuffer.State} {i : Nat} (inv : ServerReadBuffer.Inv s) (unread : Fresh s)
    (here : s.threads[i]? = some (op :: rest)) (allow : ∀ rbuf, op = .read rbuf → accepted = true)
    (done : ServerReadBuffer.exec max_read_buffer_counter s outcome accepted op = some (s',ops)) :
    Fresh { s' with threads := s.threads.set i (ops ++ rest) } := by
  intro b new
  have moved := total_advance (fresh b) here ops
  change 0 < s'.parked.toList.count b + total (fresh b) (s.threads.set i (ops ++ rest)) at new
  change s'.buffers.refs b ≤ 1
  rcases exec_unread max_read_buffer_counter inv here allow done b with single | ⟨fewer,raised⟩
  · exact single
  · have before : 0 < s.parked.toList.count b + total (fresh b) s.threads := by omega
    have apart := unread.apart inv here b before
    have single := unread b before
    omega

/-- A thread that is about to count a new buffer still has the old one. -/
def Behind : List ServerReadBuffer.Op → Prop
  | [] => True
  | op :: rest => (counting op = 1 → ∃ old, .freeReadBuffer old ∈ rest) ∧ Behind rest

theorem behind_append (plain : ∀ op ∈ ops, counting op = 0) (behind : Behind rest) : Behind (ops ++ rest) := by
  induction ops with
  | nil => exact behind
  | cons op ops ih =>
    refine ⟨?_,ih fun next member => plain next (List.mem_cons_of_mem _ member)⟩
    intro counts
    have none := plain op List.mem_cons_self
    omega

theorem exec_counting {s : ServerReadBuffer.State}
    (done : ServerReadBuffer.exec max_read_buffer_counter s outcome accepted op = some (s',ops)) :
    (∀ next ∈ ops, counting next = 0) ∨ ∃ old new, ops = [.freeReadBuffer old,.countRead new,.freeReadBuffer old] := by
  cases op <;> simp only [ServerReadBuffer.exec,ServerReadBuffer.touch,ServerReadBuffer.turn] at done
  all_goals
    repeat' split at done
  all_goals
    cases done
  all_goals first
    | exact .inr ⟨_,_,rfl⟩
    | (left; simp)

theorem exec_behind {s : ServerReadBuffer.State}
    (done : ServerReadBuffer.exec max_read_buffer_counter s outcome accepted op = some (s',ops))
    (behind : Behind (op :: rest)) : Behind (ops ++ rest) := by
  rcases exec_counting max_read_buffer_counter done with plain | ⟨old,new,rfl⟩
  · exact behind_append plain behind.2
  · refine ⟨?_,fun _ => ⟨old,List.mem_cons_self⟩,?_,behind.2⟩ <;> simp

/-- What runs without a refused follow-up read keep of the read side. -/
structure Kept (s : ServerReadBuffer.State) : Prop where
  inv : ServerReadBuffer.Inv s
  unread : Fresh s
  behind : ∀ ops ∈ s.threads, Behind ops

/-- How a step of the read side goes: a thread starts with a share somebody had, or one goes on. -/
theorem base_cases {s : ServerReadBuffer.State} (taken : ServerReadBuffer.step max_read_buffer_counter s a = some s') :
    (∃ reads requests op, s' = ServerReadBuffer.spawn { s with reads, requests } [op] ∧ (∀ b, fresh b op = 0) ∧
      counting op = 0 ∧ ∃ b, 0 < s.users b) ∨
    ∃ thread outcome accepted op rest s1 ops, a = .run thread outcome accepted ∧ s.threads[thread]? = some (op :: rest) ∧
      ServerReadBuffer.exec max_read_buffer_counter s outcome accepted op = some (s1,ops) ∧
      s' = { s1 with threads := s.threads.set thread (ops ++ rest) } := by
  unfold ServerReadBuffer.step at taken
  split at taken
  case isTrue => cases taken
  case isFalse =>
  cases a with
  | readCallback rbuf rc =>
    simp only at taken
    split at taken
    case isFalse => cases taken
    case isTrue outstanding =>
      cases taken
      have some := List.count_pos_iff.mpr outstanding
      exact .inl ⟨_,s.requests,_,rfl,by cases rc <;> simp,by cases rc <;> rfl,rbuf,by simp only [ServerReadBuffer.State.users]; omega⟩
  | doActionCallback rbuf =>
    simp only at taken
    split at taken
    case isFalse => cases taken
    case isTrue pending =>
      cases taken
      have some := List.count_pos_iff.mpr pending
      exact .inl ⟨s.reads,_,_,rfl,by simp,rfl,rbuf,by simp only [ServerReadBuffer.State.users]; omega⟩
  | run thread outcome accepted =>
    simp only at taken
    split at taken
    case h_2 => cases taken
    case h_1 op rest here =>
      obtain ⟨⟨s1,ops⟩,done,rfl⟩ := Option.map_eq_some_iff.mp taken
      exact .inr ⟨thread,outcome,accepted,op,rest,s1,ops,rfl,here,done,rfl⟩

theorem base_step {s : ServerReadBuffer.State} (kept : Kept s) (accepts : ServerReadBuffer.Accepts s a)
    (taken : ServerReadBuffer.step max_read_buffer_counter s a = some s') : Kept s' := by
  obtain ⟨inv,unread,behind⟩ := kept
  refine ⟨ServerReadBuffer.step_inv max_read_buffer_counter inv accepts taken,?_,?_⟩
  · rcases base_cases max_read_buffer_counter taken with ⟨reads,requests,op,rfl,old,-,-⟩ |
      ⟨thread,outcome,accepted,op,rest,s1,ops,rfl,here,done,rfl⟩
    · intro b new
      apply unread b
      have threads := total_spawn (fresh b) s.threads op
      rw [old b] at threads
      change 0 < s.parked.toList.count b + total (fresh b) (s.threads ++ [[op]]) at new
      omega
    · apply exec_fresh max_read_buffer_counter inv unread here ?_ done
      rintro rbuf rfl
      cases accepted with
      | true => rfl
      | false => exact absurd here (accepts thread outcome rbuf rest rfl)
  · rcases base_cases max_read_buffer_counter taken with ⟨reads,requests,op,rfl,-,plain,-⟩ |
      ⟨thread,outcome,accepted,op,rest,s1,ops,rfl,here,done,rfl⟩
    · intro ops member
      rcases List.mem_append.mp member with old | new
      · exact behind ops old
      · obtain rfl := List.mem_singleton.mp new
        refine ⟨fun counts => ?_,trivial⟩
        omega
    · intro others member
      rcases mem_set_cases member with rfl | old
      · exact exec_behind max_read_buffer_counter done (behind _ (List.mem_of_getElem? here))
      · exact behind others old

structure Drained (s : ServerReadBuffer.State) : Prop where
  buffers : s.buffers.live = []
  discounts : total discounting s.threads = 0

theorem Behind.countRead (behind : Behind ops) (counts : .countRead new ∈ ops) : ∃ old, .freeReadBuffer old ∈ ops := by
  induction ops with
  | nil => cases counts
  | cons op rest ih =>
    rcases List.mem_cons.mp counts with rfl | later
    · obtain ⟨old,member⟩ := behind.1 rfl
      exact ⟨old,List.mem_cons_of_mem _ member⟩
    · obtain ⟨old,member⟩ := ih behind.2 later
      exact ⟨old,List.mem_cons_of_mem _ member⟩

theorem Kept.live {s : ServerReadBuffer.State} (kept : Kept s) (thread : ops ∈ s.threads) (inside : op ∈ ops) (b : Nat)
    (holds : 0 < held b op) : b ∈ s.buffers.live := by
  have share := weight_le_of_mem (held b) thread inside
  have balanced := kept.inv.balanced b
  exact live_of_refs (by omega)

/-- The count is zero only when there is nothing left to count. -/
theorem Kept.drained {s : ServerReadBuffer.State} (kept : Kept s) (zero : s.read_counter = 0) : Drained s := by
  have counted := kept.inv.counted
  have stream := kept.inv.stream
  have few : total counting s.threads ≤ total continues s.threads := total_mono (fun op => by cases op <;> simp) _
  by_cases quiet : total counting s.threads = 0
  · exact ⟨List.eq_nil_of_length_eq_zero (by omega),by omega⟩
  · exfalso
    obtain ⟨ops,thread,new,counts⟩ : ∃ ops ∈ s.threads, ∃ new, .countRead new ∈ ops := by
      by_contra none
      apply quiet
      apply (total_eq_zero counting).mpr
      intro ops thread op inside
      cases op with
      | countRead new => exact absurd ⟨ops,thread,new,inside⟩ none
      | _ => rfl
    obtain ⟨old,leaves⟩ := (kept.behind ops thread).countRead counts
    have first := kept.live thread counts new (by simp)
    have second := kept.live thread leaves old (by simp)
    have apart : new ≠ old := by
      rintro rfl
      have single := kept.unread new (by
        have share := weight_le_of_mem (fresh new) thread counts
        simp at share
        omega)
      have balanced := kept.inv.balanced new
      have parts := ServerReadBuffer.total_held new s.threads
      have reads := weight_le_of_mem (reading new) thread counts
      have frees := weight_le_of_mem (leaving new) thread leaves
      simp at reads frees
      omega
    have two : 2 ≤ s.buffers.live.length := by
      have pair : [new,old].Nodup := by simpa using apart
      exact (List.subperm_of_subset pair (by simp [first,second])).length_le
    omega

/-- Then no read is outstanding and no request unanswered. -/
theorem Drained.users {s : ServerReadBuffer.State} (drained : Drained s) (kept : Kept s) (b : Nat) :
    s.users b = 0 ∧ total (held b) s.threads = 0 := by
  have dead : b ∉ s.buffers.live := by simp [drained.buffers]
  have nobody := refs_dead dead
  have balanced := kept.inv.balanced b
  omega

/-- What threads still do is a section of `serverReadDone`. -/
theorem Drained.sections {s : ServerReadBuffer.State} (drained : Drained s) (kept : Kept s) (thread : ops ∈ s.threads)
    (inside : op ∈ ops) : op = .readParked ∨ op = .clearParked := by
  have none : ∀ b, held b op = 0 := by
    intro b
    have share := weight_le_of_mem (held b) thread inside
    have nobody := (drained.users kept b).2
    omega
  have discounts := weight_le_of_mem discounting thread inside
  rw [drained.discounts] at discounts
  cases op
  case readParked => exact .inl rfl
  case clearParked => exact .inr rfl
  case readDone => simp at discounts
  all_goals
    rename_i rbuf
    simpa using none rbuf

theorem drained_step {s : ServerReadBuffer.State} (drained : Drained s) (kept : Kept s)
    (taken : ServerReadBuffer.step max_read_buffer_counter s a = some s') : Drained s' := by
  rcases base_cases max_read_buffer_counter taken with ⟨reads,requests,op,-,-,-,b,some⟩ |
    ⟨thread,outcome,accepted,op,rest,s1,ops,rfl,here,done,rfl⟩
  · have nobody := (drained.users kept b).1
    omega
  have discounts := total_advance discounting here ops
  rw [drained.discounts] at discounts
  rcases drained.sections kept (List.mem_of_getElem? here) List.mem_cons_self with rfl | rfl
  · obtain ⟨locked,unparked⟩ := kept.inv.unparked max_read_buffer_counter done
    cases unparked with
    | nothing => exact ⟨drained.buffers,by simpa using discounts⟩
    | @reads rbuf waiting | @refused rbuf waiting =>
      have nobody := (drained.users kept rbuf).1
      simp [locked,waiting] at nobody
  · cases done
    exact ⟨drained.buffers,by simpa using discounts⟩

theorem run_requests {s : ServerReadBuffer.State} (b : Nat)
    (taken : ServerReadBuffer.step max_read_buffer_counter s (.run thread outcome accepted) = some s') :
    s.requests.count b ≤ s'.requests.count b := by
  unfold ServerReadBuffer.step at taken
  split at taken
  case isTrue => cases taken
  case isFalse =>
  simp only at taken
  split at taken
  case h_2 => cases taken
  case h_1 op rest here =>
  obtain ⟨⟨s1,ops⟩,done,rfl⟩ := Option.map_eq_some_iff.mp taken
  change s.requests.count b ≤ s1.requests.count b
  cases op <;> simp only [ServerReadBuffer.exec,ServerReadBuffer.touch,ServerReadBuffer.turn] at done
  all_goals
    repeat' split at done
  all_goals
    cases done
  all_goals first
    | exact Nat.le_refl _
    | simp [List.count_cons]

/-- A write that has been counted and has not been counted as done. -/
@[simp] def unfinished : Op → Nat
  | .write _ | .countDone => 1
  | _ => 0

def Closing.drains : Closing → Bool
  | .awaitingWrites | .comparing _ | .leaving | .returned => true
  | _ => false

def Closing.settles : Closing → Bool
  | .leaving | .returned => true
  | _ => false

structure Inv (s : State) : Prop where
  kept : Kept s.base
  answers : ∀ b, total (answering b) s.threads ≤ s.base.requests.count b
  written : s.write_counter = s.write_done_counter + s.writes + total unfinished s.threads
  drained : s.closing.drains → Drained s.base
  compared : ∀ write_counter, s.closing = .comparing write_counter → write_counter = s.write_counter
  settled : s.closing.settles → s.writes = 0 ∧ total unfinished s.threads = 0
  idle : s.released → s.closing = .returned ∧ (∀ ops ∈ s.threads, ops = []) ∧ ∀ ops ∈ s.base.threads, ops = []
  unused : s.misused = false

/-- A request that waits for its response keeps the close waiting. -/
theorem Inv.undrained (inv : Inv s) (rbuf : Nat) (pending : 0 < s.base.requests.count rbuf) : s.closing.drains = false := by
  cases drains : s.closing.drains with
  | false => rfl
  | true =>
    have nobody := ((inv.drained drains).users inv.kept rbuf).1
    simp only [ServerReadBuffer.State.users] at nobody
    omega

theorem Closing.settles_drains {closing : Closing} (settles : closing.settles = true) : closing.drains = true := by
  cases closing <;> simp_all [Closing.settles,Closing.drains]

theorem Inv.unreleased (inv : Inv s) (drains : s.closing.drains = false) : s.released = false := by
  cases released : s.released with
  | false => rfl
  | true =>
    rw [(inv.idle released).1] at drains
    cases drains

theorem Inv.base_step (inv : Inv s) (accepts : ServerReadBuffer.Accepts s.base a) (unreleased : s.released = false)
    (taken : ServerReadBuffer.step max_read_buffer_counter s.base a = some base)
    (requests : ∀ b, total (answering b) threads ≤ base.requests.count b)
    (written : total unfinished threads = total unfinished s.threads) (received sent : Nat) :
    Inv { s with
      base
      threads
      received_request_counter := received
      sent_request_counter := sent } where
  kept := ServerContext.base_step max_read_buffer_counter inv.kept accepts taken
  answers := requests
  written := by
    change s.write_counter = _ + _ + total unfinished threads
    rw [written]
    exact inv.written
  drained := fun drains => drained_step max_read_buffer_counter (inv.drained drains) inv.kept taken
  compared := inv.compared
  settled := by
    intro settles
    change s.writes = 0 ∧ total unfinished threads = 0
    rw [written]
    exact inv.settled settles
  idle := by
    intro released
    change s.released = true at released
    rw [unreleased] at released
    cases released
  unused := inv.unused

/-- While reads are awaited there is no more to it than the accounts. -/
theorem Inv.of_undrained (kept : Kept s.base) (answers : ∀ b, total (answering b) s.threads ≤ s.base.requests.count b)
    (written : s.write_counter = s.write_done_counter + s.writes + total unfinished s.threads)
    (undrained : s.closing.drains = false) (unreleased : s.released = false) (unused : s.misused = false) : Inv s where
  kept := kept
  answers := answers
  written := written
  drained := by
    intro drains
    rw [undrained] at drains
    cases drains
  compared := by
    intro write_counter comparing
    rw [comparing] at undrained
    cases undrained
  settled := by
    intro settles
    have drains := Closing.settles_drains settles
    rw [undrained] at drains
    cases drains
  idle := by
    intro released
    rw [unreleased] at released
    cases released
  unused := unused

/-- Threads that have something left to do find the context in place. -/
theorem Inv.in_place {i : Nat} (inv : Inv s) (here : s.threads[i]? = some (op :: rest)) : s.released = false := by
  cases released : s.released with
  | false => rfl
  | true => cases (inv.idle released).2.1 _ (List.mem_of_getElem? here)

theorem Inv.in_place_read {i : Nat} (inv : Inv s) (here : s.base.threads[i]? = some (op :: rest)) : s.released = false := by
  cases released : s.released with
  | false => rfl
  | true => cases (inv.idle released).2.2 _ (List.mem_of_getElem? here)

theorem doActionCallback_requests {s : ServerReadBuffer.State}
    (taken : ServerReadBuffer.step max_read_buffer_counter s (.doActionCallback rbuf) = some s') :
    rbuf ∈ s.requests ∧ s'.requests = s.requests.erase rbuf := by
  unfold ServerReadBuffer.step at taken
  split at taken
  case isTrue => cases taken
  case isFalse =>
  simp only at taken
  split at taken
  case isTrue pending =>
    cases taken
    exact ⟨pending,rfl⟩
  case isFalse => cases taken

theorem Inv.answers_on {i : Nat} (inv : Inv s) (here : s.threads[i]? = some (op :: rest))
    (same : ∀ b, (ops.map (answering b)).sum = answering b op) (b : Nat) :
    total (answering b) (s.threads.set i (ops ++ rest)) ≤ s.base.requests.count b := by
  have all := inv.answers b
  have threads := total_advance (answering b) here ops
  rw [same b] at threads
  omega

theorem Inv.unanswered {i : Nat} (inv : Inv s) (here : s.threads[i]? = some (op :: rest)) (rbuf : Nat)
    (mine : 0 < answering rbuf op) : s.closing.drains = false := by
  apply inv.undrained rbuf
  have share := weight_le_total (answering rbuf) here
  have all := inv.answers rbuf
  omega

theorem Inv.writes_on {i : Nat} (inv : Inv s) (here : s.threads[i]? = some (op :: rest)) (rbuf : Nat)
    (mine : 0 < answering rbuf op) (same : ∀ b, (ops.map (answering b)).sum = answering b op)
    (written : write_counter + unfinished op = s.write_done_counter + writes + total unfinished s.threads + (ops.map unfinished).sum) :
    Inv { s with
      write_counter, writes
      threads := s.threads.set i (ops ++ rest) } := by
  have undrained := inv.unanswered here rbuf mine
  have finished := total_advance unfinished here ops
  apply Inv.of_undrained
  · exact inv.kept
  · exact inv.answers_on here same
  · change write_counter = s.write_done_counter + writes + total unfinished (s.threads.set i (ops ++ rest))
    omega
  · exact undrained
  · exact inv.unreleased undrained
  · exact inv.unused

theorem exec_inv {i : Nat} (inv : Inv s) (here : s.threads[i]? = some (op :: rest))
    (done : exec max_read_buffer_counter s accepted op = some (s',ops)) :
    Inv { s' with threads := s.threads.set i (ops ++ rest) } := by
  have unreleased := inv.in_place here
  have written := inv.written
  have finished := total_advance unfinished here ops
  cases op with
  | countWrite rbuf =>
    cases done
    apply inv.writes_on here rbuf (by simp) (by simp)
    simp
    omega
  | write rbuf =>
    cases accepted with
    | true =>
      cases done
      apply inv.writes_on here rbuf (by simp) (by simp)
      simp
      omega
    | false =>
      cases done
      apply inv.writes_on here rbuf (by simp) (by simp)
      simp
      omega
  | countSent =>
    cases done
    refine ⟨inv.kept,inv.answers_on here (by simp),?_,inv.drained,inv.compared,?_,?_,inv.unused⟩
    · simp at finished ⊢
      omega
    · intro settles
      have none := inv.settled settles
      simp at finished ⊢
      omega
    · intro released
      cases unreleased.symm.trans released
  | countDone =>
    cases done
    refine ⟨inv.kept,inv.answers_on here (by simp),?_,inv.drained,inv.compared,?_,?_,inv.unused⟩
    · simp at finished ⊢
      omega
    · intro settles
      have none := (inv.settled settles).2
      simp at finished
      omega
    · intro released
      cases unreleased.symm.trans released
  | freeReadBuffer rbuf =>
    obtain ⟨base,taken,done⟩ := Option.map_eq_some_iff.mp done
    cases done
    obtain ⟨member,requests⟩ := doActionCallback_requests max_read_buffer_counter taken
    apply inv.base_step max_read_buffer_counter (by rintro _ _ _ _ ⟨⟩) unreleased taken
    · intro b
      have all := inv.answers b
      have threads := total_advance (answering b) here []
      have fewer := count_erase member b
      rw [requests]
      simp at threads fewer ⊢
      omega
    · simpa using finished

/-- The parked buffer has one share, which goes with it. -/
theorem freeParked_kept {s : ServerReadBuffer.State} (kept : Kept s) (unlocked : s.locked = false)
    (parked : s.to_read_buf = some rbuf) : Kept (freeParked s rbuf) ∧ (freeParked s rbuf).requests = s.requests := by
  have here : s.parked = some rbuf := by simp [unlocked,parked]
  have inv := kept.inv
  have live := inv.parked_live rbuf here
  have positive := inv.sound.positive rbuf live
  have count := refs_live live
  have single := kept.unread rbuf (by simp [unlocked,parked])
  have fewer := List.length_erase_of_mem live
  have some := List.length_pos_of_mem live
  rw [freeParked,if_pos live]
  refine ⟨⟨⟨inv.running,sound_discard inv.sound live,?_,?_,inv.unlocks,?_⟩,?_,kept.behind⟩,rfl⟩
  · intro b
    have balanced := inv.balanced b
    have left := refs_discard inv.sound (b := rbuf) b
    simp [unlocked,parked,List.count_cons] at balanced
    simp [unlocked]
    rw [left]
    by_cases same : rbuf = b
    · subst same
      simp at balanced ⊢
      omega
    · simp [same] at balanced ⊢
      omega
  · have counted := inv.counted
    change s.read_counter - 1 + (total counting s.threads : Nat) =
      ((s.buffers.live.erase rbuf).length : Nat) + (total discounting s.threads : Nat)
    omega
  · have stream := inv.stream
    simp [unlocked,parked] at stream
    simp [unlocked]
    omega
  · intro b new
    have left := refs_discard inv.sound (b := rbuf) b
    change (s.buffers.discard rbuf).refs b ≤ 1
    rw [left]
    by_cases same : rbuf = b
    · simp [same]
    · rw [if_neg same]
      apply kept.unread b
      simp [unlocked] at new
      omega

/-- When the close leaves, these are all that threads can have left to do. -/
theorem Inv.leftover (inv : Inv s) (leaving : s.closing = .leaving) : (∀ ops ∈ s.threads, ∀ op ∈ ops, op = .countSent) ∧
    ∀ ops ∈ s.base.threads, ∀ op ∈ ops, op = .readParked ∨ op = .clearParked := by
  have drained := inv.drained (by rw [leaving]; rfl)
  have settled := (inv.settled (by rw [leaving]; rfl)).2
  refine ⟨?_,fun ops thread op inside => drained.sections inv.kept thread inside⟩
  intro ops thread op inside
  have finished := weight_le_of_mem unfinished thread inside
  have answered : ∀ b, answering b op = 0 := by
    intro b
    have share := weight_le_of_mem (answering b) thread inside
    have all := inv.answers b
    have nobody := (drained.users inv.kept b).1
    simp only [ServerReadBuffer.State.users] at nobody
    omega
  cases op with
  | countSent => rfl
  | countWrite rbuf => simpa using answered rbuf
  | write rbuf => simpa using answered rbuf
  | freeReadBuffer rbuf => simpa using answered rbuf
  | countDone =>
    simp at finished
    omega

theorem Inv.leaves (inv : Inv s) (leaving : s.closing = .leaving) (sent : ∀ ops ∈ s.threads, .countSent ∉ ops)
    (sections : ∀ ops ∈ s.base.threads, .readParked ∉ ops ∧ .clearParked ∉ ops) :
    (∀ ops ∈ s.threads, ops = []) ∧ ∀ ops ∈ s.base.threads, ops = [] := by
  obtain ⟨writes,reads⟩ := inv.leftover leaving
  constructor
  · intro ops thread
    apply List.eq_nil_iff_forall_not_mem.mpr
    intro op inside
    cases writes ops thread op inside
    exact sent ops thread inside
  · intro ops thread
    apply List.eq_nil_iff_forall_not_mem.mpr
    intro op inside
    obtain ⟨unread,uncleared⟩ := sections ops thread
    rcases reads ops thread op inside with rfl | rfl
    · exact unread inside
    · exact uncleared inside

/-- And each of them uses the context once it has been freed. -/
theorem Inv.late_misuses (inv : Inv s) (leaving : s.closing = .leaving) (freed : onClose s = some s')
    (left : (∃ ops ∈ s.threads, ops ≠ []) ∨ ∃ ops ∈ s.base.threads, ops ≠ []) :
    ∃ a s'', step max_read_buffer_counter s' a = some s'' ∧ s''.misused = true := by
  obtain ⟨writes,reads⟩ := inv.leftover leaving
  have running : ¬(s.base.fault ≠ none ∨ s.misused = true) := by simp [inv.kept.inv.running,inv.unused]
  unfold onClose at freed
  simp only [leaving] at freed
  cases freed
  rcases left with ⟨ops,thread,some⟩ | ⟨ops,thread,some⟩
  · obtain ⟨op,rest,rfl⟩ := List.exists_cons_of_ne_nil some
    obtain ⟨i,here⟩ := List.mem_iff_getElem?.mp thread
    cases writes _ thread op List.mem_cons_self
    refine ⟨.run i true,{ s with
      closing := .returned
      released := true
      misused := true },?_,rfl⟩
    unfold step
    rw [if_neg running]
    simp only [here]
    rfl
  · obtain ⟨op,rest,rfl⟩ := List.exists_cons_of_ne_nil some
    obtain ⟨i,here⟩ := List.mem_iff_getElem?.mp thread
    have uses : readsContext op = true := by
      rcases reads _ thread op List.mem_cons_self with rfl | rfl <;> rfl
    refine ⟨.runRead i .decoded true,{ s with
      closing := .returned
      released := true
      misused := true },?_,rfl⟩
    unfold step
    rw [if_neg running]
    simp only [here,uses]
    rfl

theorem onClose_inv (inv : Inv s) (late : s.closing = .leaving → (∀ ops ∈ s.threads, .countSent ∉ ops) ∧
    ∀ ops ∈ s.base.threads, .readParked ∉ ops ∧ .clearParked ∉ ops) (taken : onClose s = some s') : Inv s' := by
  unfold onClose at taken
  have unreleased : s.closing ≠ .returned → s.released = false := by
    intro before
    cases released : s.released with
    | false => rfl
    | true => exact absurd (inv.idle released).1 before
  have place : s.closing ≠ .returned → ¬s.released = true := fun before => by simp [unreleased before]
  cases closing : s.closing with
  | uncalled =>
    simp only [closing] at taken place unreleased
    cases taken
    exact Inv.of_undrained inv.kept inv.answers inv.written rfl (unreleased (by simp)) inv.unused
  | called =>
    simp only [closing] at taken unreleased
    cases locked : s.base.locked with
    | true => simp [locked] at taken
    | false =>
      cases parked : s.base.to_read_buf with
      | none =>
        simp [locked,parked] at taken
        subst taken
        exact Inv.of_undrained inv.kept inv.answers inv.written rfl (unreleased (by simp)) inv.unused
      | some rbuf =>
        simp [locked,parked] at taken
        subst taken
        obtain ⟨kept,requests⟩ := freeParked_kept inv.kept locked parked
        apply Inv.of_undrained
        · exact kept
        · intro b
          change _ ≤ (freeParked s.base rbuf).requests.count b
          rw [requests]
          exact inv.answers b
        · exact inv.written
        · rfl
        · exact unreleased (by simp)
        · exact inv.unused
  | awaitingReads =>
    simp only [closing] at taken place
    split at taken
    case isFalse => cases taken
    case isTrue zero =>
      cases taken
      refine ⟨inv.kept,inv.answers,inv.written,fun _ => inv.kept.drained zero,?_,?_,?_,inv.unused⟩
      · rintro write_counter ⟨⟩
      · rintro ⟨⟩
      · exact fun released => absurd released (place (by simp))
  | awaitingWrites =>
    simp only [closing] at taken place
    cases taken
    refine ⟨inv.kept,inv.answers,inv.written,fun _ => inv.drained (by rw [closing]; rfl),?_,?_,?_,inv.unused⟩
    · rintro write_counter ⟨⟩
      rfl
    · rintro ⟨⟩
    · exact fun released => absurd released (place (by simp))
  | comparing write_counter =>
    simp only [closing] at taken place
    have drained := inv.drained (by rw [closing]; rfl)
    have written := inv.written
    have same := inv.compared write_counter closing
    cases taken
    refine ⟨inv.kept,inv.answers,inv.written,fun _ => drained,?_,?_,?_,inv.unused⟩
    · intro other comparing
      change (if _ then _ else _) = _ at comparing
      split at comparing <;> cases comparing
    · intro settles
      change Closing.settles (if _ then _ else _) = true at settles
      change s.writes = 0 ∧ total unfinished s.threads = 0
      by_cases equal : write_counter = s.write_done_counter
      · omega
      · rw [if_neg equal] at settles
        cases settles
    · exact fun released => absurd released (place (by simp))
  | leaving =>
    simp only [closing] at taken
    obtain ⟨sent,sections⟩ := late closing
    obtain ⟨idle,quiet⟩ := inv.leaves closing sent sections
    cases taken
    refine ⟨inv.kept,inv.answers,inv.written,fun _ => inv.drained (by rw [closing]; rfl),?_,?_,?_,inv.unused⟩
    · rintro write_counter ⟨⟩
    · exact fun _ => inv.settled (by rw [closing]; rfl)
    · exact fun _ => ⟨rfl,idle,quiet⟩
  | returned =>
    simp only [closing] at taken
    cases taken

theorem Inv.base_in_place (inv : Inv s) (taken : ServerReadBuffer.step max_read_buffer_counter s.base a = some base) :
    s.released = false := by
  cases released : s.released with
  | false => rfl
  | true =>
    exfalso
    obtain ⟨returned,-,quiet⟩ := inv.idle released
    rcases base_cases max_read_buffer_counter taken with ⟨reads,requests,op,-,-,-,b,some⟩ |
      ⟨thread,outcome,accepted,op,rest,s1,ops,-,here,-,-⟩
    · have nobody := ((inv.drained (by rw [returned]; rfl)).users inv.kept b).1
      omega
    · cases quiet _ (List.mem_of_getElem? here)

theorem readCallback_requests {s : ServerReadBuffer.State}
    (taken : ServerReadBuffer.step max_read_buffer_counter s (.readCallback rbuf rc) = some s') :
    s'.requests = s.requests := by
  unfold ServerReadBuffer.step at taken
  split at taken
  case isTrue => cases taken
  case isFalse =>
  simp only at taken
  split at taken
  case isTrue => cases taken; rfl
  case isFalse => cases taken

theorem step_inv (inv : Inv s) (orderly : Orderly s a) (taken : step max_read_buffer_counter s a = some s') : Inv s' := by
  unfold step at taken
  split at taken
  case isTrue => cases taken
  case isFalse =>
  cases a with
  | readCallback rbuf rc =>
    obtain ⟨base,moved,rfl⟩ := Option.map_eq_some_iff.mp taken
    have requests := readCallback_requests max_read_buffer_counter moved
    have answers : ∀ b, total (answering b) s.threads ≤ base.requests.count b := by
      rw [requests]
      exact inv.answers
    exact inv.base_step max_read_buffer_counter (by rintro _ _ _ _ ⟨⟩) (inv.base_in_place max_read_buffer_counter moved) moved
      answers rfl s.received_request_counter s.sent_request_counter
  | runRead thread outcome accepted =>
    simp only at taken
    split at taken
    case h_2 => cases taken
    case h_1 op rest here =>
    have unreleased := inv.in_place_read here
    rw [unreleased,Bool.and_false,if_neg Bool.false_ne_true] at taken
    obtain ⟨base,moved,rfl⟩ := Option.map_eq_some_iff.mp taken
    have accepts : ServerReadBuffer.Accepts s.base (.run thread outcome accepted) := by
      rintro _ _ rbuf rest' ⟨⟩ reads
      have granted := orderly.1
      simp only [refusedRead,reads] at granted
      cases granted
    have answers : ∀ b, total (answering b) s.threads ≤ base.requests.count b :=
      fun b => Nat.le_trans (inv.answers b) (run_requests max_read_buffer_counter b moved)
    have kept := inv.base_step max_read_buffer_counter accepts unreleased moved answers rfl
      (countRequest s op).received_request_counter (countRequest s op).sent_request_counter
    cases op <;> exact kept
  | doActionCallback rbuf =>
    simp only at taken
    split at taken
    case isFalse => cases taken
    case isTrue pending =>
      cases taken
      have undrained := inv.undrained rbuf (by omega)
      apply Inv.of_undrained
      · exact inv.kept
      · intro b
        have all := inv.answers b
        change total (answering b) (s.threads ++ [[.countWrite rbuf]]) ≤ s.base.requests.count b
        rw [total_spawn]
        by_cases same : rbuf = b
        · subst same
          simp
          omega
        · simpa [same] using all
      · simpa using inv.written
      · exact undrained
      · exact inv.unreleased undrained
      · exact inv.unused
  | writeCallback =>
    simp only at taken
    split at taken
    case isFalse => cases taken
    case isTrue outstanding =>
      cases taken
      have written := inv.written
      have unsettled : s.closing.settles = false := by
        cases settles : s.closing.settles with
        | false => rfl
        | true =>
          have none := (inv.settled settles).1
          omega
      refine ⟨inv.kept,?_,?_,inv.drained,inv.compared,?_,?_,inv.unused⟩
      · simpa using inv.answers
      · simp
        omega
      · intro settles
        cases unsettled.symm.trans settles
      · intro released
        rw [(inv.idle released).1] at unsettled
        cases unsettled
  | run thread accepted =>
    simp only at taken
    split at taken
    case h_2 => cases taken
    case h_1 op rest here =>
    rw [inv.in_place here,Bool.and_false,if_neg Bool.false_ne_true] at taken
    obtain ⟨⟨s1,ops⟩,done,rfl⟩ := Option.map_eq_some_iff.mp taken
    exact exec_inv max_read_buffer_counter inv here done
  | onClose => exact onClose_inv inv (orderly.2 rfl) taken

theorem onConnect_inv : Inv onConnect where
  kept := by
    refine ⟨ServerReadBuffer.onConnect_inv,?_,by simp [onConnect,ServerReadBuffer.onConnect]⟩
    intro b new
    simp [onConnect,ServerReadBuffer.onConnect] at new
  answers := by simp [onConnect]
  written := rfl
  drained := by rintro ⟨⟩
  compared := by rintro write_counter ⟨⟩
  settled := by rintro ⟨⟩
  idle := by rintro ⟨⟩
  unused := rfl

/-- In every orderly run the context is not used after its release. -/
theorem context_not_misused (reachable : Reachable (step max_read_buffer_counter) Orderly onConnect s) :
    s.misused = false ∧ s.base.fault = none := by
  have inv := reachable.invariant onConnect_inv fun s a s' inv orderly taken =>
    step_inv max_read_buffer_counter inv orderly taken
  exact ⟨inv.unused,inv.kept.inv.running⟩

/-- A request is decoded and its response written, and the read ends with an error. -/
def answered : List Action :=
  [.readCallback 0 true,.runRead 0 .decoded true,.runRead 0 .decoded true,.runRead 0 .decoded true,.runRead 0 .decoded true,
    .doActionCallback 0,.run 0 true,.run 0 true,.run 0 true,.runRead 1 .decoded true,.runRead 0 .undecodable true,
    .runRead 0 .decoded true,.runRead 0 .decoded true,.runRead 0 .decoded true,.writeCallback,.run 1 true]

def closed : List Action := [.onClose,.onClose,.onClose,.onClose,.onClose,.onClose]

theorem context_not_misused_answered : ∃ s, execute (step 8) onConnect (answered ++ [.run 1 true] ++ closed) = some s ∧
    s.released = true ∧ s.misused = false ∧ s.base.fault = none := by
  refine ⟨_,rfl,rfl,context_not_misused 8
    (Reachable.start.execute (answered ++ [.run 1 true] ++ closed) ?_ rfl)⟩
  decide

/-- The write is done for the close, and its callback goes on to the next counter. -/
theorem context_misused_late : ∃ s s', Reachable (step 8) (fun _ _ => True) onConnect s ∧ s.released = true ∧
    s.misused = false ∧ step 8 s (.run 1 true) = some s' ∧ s'.misused = true := by
  refine ⟨_,_,Reachable.start.run (answered ++ closed) rfl,rfl,rfl,rfl,rfl⟩

/-- A section of `serverReadDone` comes too late as well. -/
example : ∃ s, execute (step 1) onConnect ([.readCallback 0 false,.runRead 0 .decoded true,.runRead 0 .decoded true] ++ closed ++
    [.runRead 0 .decoded true]) = some s ∧ s.misused = true := ⟨_,rfl,rfl⟩

end Muti.ServerContext
