import Muti.ClientNotify

/-! The accounts of a client's connection. The read side counts the shares of its
buffers; every request is in one place at a time: with its sender, in a slot, in a
response job, with a thread about to notify it, or notified. Every operation settles both
accounts when it comes at a right moment. -/
namespace Muti.ClientNotify

open Muti.Lists Muti.Transition Muti.SharedBuffers Muti.SharedBuffers.Buffers

/-- The shares of a read buffer. -/
@[simp] def held (b : Nat) : Op → Nat
  | .enter rbuf | .freeReadBuffer rbuf | .read rbuf | .doJob rbuf _ => on b rbuf
  | .turn rbuf | .decode rbuf _ | .refer rbuf _ | .listAdd rbuf _ _ => on b rbuf + on b rbuf
  | .insertTail rbuf _ => on b rbuf + on b rbuf + on b rbuf
  | .countRead rbuf old_rbuf => on b rbuf + on b old_rbuf
  | _ => 0

/-- There is one read to be made, at most: the continuation of the stream. -/
@[simp] def continues : Op → Nat
  | .enter _ | .turn _ | .decode _ _ | .refer _ _ | .insertTail _ _ | .listAdd _ _ _ | .countRead _ _ | .read _ => 1
  | _ => 0

@[simp] def counting : Op → Nat
  | .countRead _ _ => 1
  | _ => 0

/-- A buffer is counted while its predecessor, another one, is still held. -/
@[simp] def confused : Op → Nat
  | .countRead rbuf old_rbuf => on old_rbuf rbuf
  | _ => 0

@[simp] def discounting : Op → Nat
  | .readDone => 1
  | _ => 0

def State.users (s : State) (b : Nat) : Nat := s.reads.count b + (s.jobs.map Prod.snd).count b

/-- The read side of the connection: its buffers and their two counters. -/
structure Reads (s : State) : Prop where
  running : s.fault = none
  sound : s.buffers.Sound
  balanced : ∀ b, s.buffers.refs b = s.users b + total (held b) s.threads
  counted : s.read_counter + total counting s.threads =
    s.buffers.live.length + total discounting s.threads + s.read_done_counter
  stream : s.reads.length + total continues s.threads ≤ 1
  distinct : total confused s.threads = 0

structure ReadsSettle (s : State) (op : Op) (s' : State) (ops : List Op) : Prop where
  running : s'.fault = none
  sound : s'.buffers.Sound
  shares : ∀ b, s'.buffers.refs b + s.users b + held b op = s.buffers.refs b + s'.users b + (ops.map (held b)).sum
  counters : s'.read_counter + (ops.map counting).sum + s.buffers.live.length + discounting op + s.read_done_counter =
    s.read_counter + counting op + s'.buffers.live.length + (ops.map discounting).sum + s'.read_done_counter
  streams : s'.reads.length + (ops.map continues).sum ≤ s.reads.length + continues op
  distinct : (ops.map confused).sum ≤ confused op

theorem ReadsSettle.reads {i : Nat} (settles : ReadsSettle s op s' ops) (reads : Reads s)
    (here : s.threads[i]? = some (op :: rest)) : Reads { s' with threads := s.threads.set i (ops ++ rest) } where
  running := settles.running
  sound := settles.sound
  balanced := by
    intro b
    have before := reads.balanced b
    have moved := settles.shares b
    have threads := total_advance (held b) here ops
    simp only [State.users] at *
    omega
  counted := by
    have before := reads.counted
    have moved := settles.counters
    have more := total_advance counting here ops
    have fewer := total_advance discounting here ops
    simp only
    omega
  stream := by
    have before := reads.stream
    have moved := settles.streams
    have threads := total_advance continues here ops
    simp only
    omega
  distinct := by
    have before := reads.distinct
    have moved := settles.distinct
    have threads := total_advance confused here ops
    simp only
    omega

/-- Senders and write callbacks leave the read side alone. -/
theorem send_reads (reads : Reads s) (done : send s outcome op = some (s',ops)) : ReadsSettle s op s' ops := by
  have running := reads.running
  have sound := reads.sound
  cases op with
  | readConn r =>
    cases conn : s.conn <;> simp [send,conn] at done <;> obtain ⟨rfl,rfl⟩ := done <;>
      refine ⟨running,sound,?_,?_,?_,?_⟩ <;> simp [State.users,State.returns]
  | nextSequence r =>
    cases done
    refine ⟨running,sound,?_,?_,?_,?_⟩ <;> simp [State.users]
  | encode r =>
    cases outcome with
    | answer rc =>
      cases rc <;> cases done <;> refine ⟨running,sound,?_,?_,?_,?_⟩ <;> simp [State.users,State.returns]
    | _ => cases done
  | listAddTail r =>
    cases done
    refine ⟨running,sound,?_,?_,?_,?_⟩ <;> simp [State.users]
  | connWrite r =>
    cases closed : s.is_closed <;> simp [send,closed] at done <;> obtain ⟨rfl,rfl⟩ := done <;>
      refine ⟨running,sound,?_,?_,?_,?_⟩ <;> simp [State.users]
  | countWrite r | append r | refused r | listDel r | failWrite r | failCallback r | writeDone =>
    cases done
    refine ⟨running,sound,?_,?_,?_,?_⟩ <;> simp [State.users,State.returns,State.callback]
  | _ => cases done

theorem touch_live (live : rbuf ∈ s.buffers.live) (result : State × List Op) : touch s rbuf result = result := by
  simp [touch,live]

/-- Whoever holds a share may use the buffer, and its count covers the share. -/
theorem Reads.holder {i : Nat} (reads : Reads s) (b : Nat) (here : s.threads[i]? = some (op :: rest))
    (holds : 0 < held b op) : b ∈ s.buffers.live ∧ held b op ≤ s.buffers.reference b := by
  have balanced := reads.balanced b
  have share := weight_le_total (held b) here
  have live : b ∈ s.buffers.live := live_of_refs (by omega)
  have count := refs_live live
  exact ⟨live,by omega⟩

/-- A turn of the loop starts a follow-up read, or finds a header whose request it looks up. -/
inductive Turned (s : State) (rbuf : Nat) : Outcome → State → List Op → Prop
  | starved (same : Bool) : Turned s rbuf (.starved same) (clientRead s rbuf same).1 (clientRead s rbuf same).2
  | unknown {sequence : UInt32} (absent : lookup s sequence = none) :
    Turned s rbuf (.header sequence) s [.freeReadBuffer rbuf,.freeReadBuffer rbuf]
  | known {sequence : UInt32} (r : Nat) (found : lookup s sequence = some r) :
    Turned s rbuf (.header sequence) { s with waiting := s.waiting.erase r } [.decode rbuf r]

theorem Reads.turned {i : Nat} (reads : Reads s) (here : s.threads[i]? = some (.turn rbuf :: rest))
    (done : receive s outcome (.turn rbuf) = some (s',ops)) : rbuf ∈ s.buffers.live ∧ Turned s rbuf outcome s' ops := by
  obtain ⟨live,-⟩ := reads.holder rbuf here (by simp)
  refine ⟨live,?_⟩
  simp only [receive,Option.map_eq_some_iff,touch_live live] at done
  obtain ⟨result,turned,rfl⟩ := done
  cases outcome with
  | starved same =>
    have read : Turned s rbuf (.starved same) _ _ := .starved same
    rw [Option.some.inj turned] at read
    exact read
  | header sequence =>
    cases found : lookup s sequence with
    | none =>
      simp only [turn,found,Option.some.injEq,Prod.mk.injEq] at turned
      obtain ⟨rfl,rfl⟩ := turned
      exact .unknown found
    | some r =>
      simp only [turn,found,Option.some.injEq,Prod.mk.injEq] at turned
      obtain ⟨rfl,rfl⟩ := turned
      exact .known r found
  | _ => cases turned

/-- The follow-up read takes over both shares of its callback. -/
theorem clientRead_reads (running : s.fault = none) (sound : s.buffers.Sound) (live : rbuf ∈ s.buffers.live)
    (same : Bool) : ReadsSettle s (.turn rbuf) (clientRead s rbuf same).1 (clientRead s rbuf same).2 := by
  cases same with
  | true =>
    refine ⟨running,sound,?_,?_,?_,?_⟩ <;> simp [clientRead,State.users]
  | false =>
    refine ⟨running,sound_create sound,?_,?_,?_,?_⟩ <;> simp [clientRead,State.users]
    · intro b
      have stored := refs_create sound b
      omega
    · omega
    · intro same
      have fresh := sound.fresh
      rw [same] at fresh
      exact fresh live

theorem receive_reads {i : Nat} (reads : Reads s) (here : s.threads[i]? = some (op :: rest))
    (done : receive s outcome op = some (s',ops)) : ReadsSettle s op s' ops := by
  have running := reads.running
  have sound := reads.sound
  cases op with
  | enter rbuf =>
    obtain ⟨live,share⟩ := reads.holder rbuf here (by simp)
    simp only [receive,touch_live live] at done
    cases done
    refine ⟨running,sound_refer sound rbuf,?_,?_,?_,?_⟩ <;> simp [State.users]
    intro b
    have stored := refs_refer live b
    omega
  | turn rbuf =>
    obtain ⟨live,turned⟩ := reads.turned here done
    cases turned with
    | starved same => exact clientRead_reads running sound live same
    | unknown absent => refine ⟨running,sound,?_,?_,?_,?_⟩ <;> simp [State.users]
    | known r found => refine ⟨running,sound,?_,?_,?_,?_⟩ <;> simp [State.users]
  | decode rbuf r =>
    cases outcome with
    | message =>
      cases done
      refine ⟨running,sound,?_,?_,?_,?_⟩ <;> simp [State.users]
    | starved same =>
      cases done
      refine ⟨running,sound,?_,?_,?_,?_⟩ <;> simp [State.users]
    | _ => cases done
  | refer rbuf r =>
    obtain ⟨live,share⟩ := reads.holder rbuf here (by simp)
    simp only [receive,touch_live live] at done
    cases done
    refine ⟨running,sound_refer sound rbuf,?_,?_,?_,?_⟩ <;> simp [State.users]
    intro b
    have stored := refs_refer live b
    omega
  | insertTail rbuf r =>
    cases done
    refine ⟨running,sound,?_,?_,?_,?_⟩ <;> simp [State.users,List.count_cons]
    intro b
    omega
  | listAdd rbuf r same =>
    obtain ⟨live,share⟩ := reads.holder rbuf here (by simp)
    simp only [receive,Option.some.injEq] at done
    have read := clientRead_reads (s := { s with waiting := r :: s.waiting }) running sound live same
    rw [done] at read
    obtain ⟨running',sound',shares,counters,streams,distinct⟩ := read
    exact ⟨running',sound',shares,counters,streams,distinct⟩
  | freeReadBuffer rbuf =>
    obtain ⟨live,share⟩ := reads.holder rbuf here (by simp)
    simp only [receive,touch_live live] at done
    have length := live_release live
    have stored := refs_release sound live
    cases done
    by_cases last : s.buffers.reference rbuf = 1
    · refine ⟨running,sound_release sound live,?_,?_,?_,?_⟩ <;> simp [State.users,last] at length ⊢
      · intro b
        have left := stored b
        omega
      · omega
    · refine ⟨running,sound_release sound live,?_,?_,?_,?_⟩ <;> simp [State.users,last] at length ⊢
      · intro b
        have left := stored b
        omega
      · omega
  | readDone =>
    cases done
    refine ⟨running,sound,?_,?_,?_,?_⟩ <;> simp [State.users]
    omega
  | countRead rbuf old_rbuf =>
    cases done
    refine ⟨running,sound,?_,?_,?_,?_⟩ <;> simp [State.users]
  | read rbuf =>
    obtain ⟨live,share⟩ := reads.holder rbuf here (by simp)
    cases outcome with
    | answer rc =>
      cases rc with
      | true =>
        simp only [receive,touch_live live] at done
        cases done
        refine ⟨running,sound,?_,?_,?_,?_⟩ <;> simp [State.users,List.count_cons]
        intro b
        omega
      | false =>
        cases done
        refine ⟨running,sound,?_,?_,?_,?_⟩ <;> simp [State.users]
    | _ => cases done
  | doJob rbuf r =>
    cases done
    refine ⟨running,sound,?_,?_,?_,?_⟩ <;> simp [State.users,State.callback]
  | _ => cases done

theorem exec_reads {i : Nat} (reads : Reads s) (here : s.threads[i]? = some (op :: rest))
    (done : exec s outcome op = some (s',ops)) : ReadsSettle s op s' ops := by
  cases sent : send s outcome op with
  | some result =>
    simp only [exec,sent,Option.some.injEq] at done
    subst done
    exact send_reads reads sent
  | none =>
    simp only [exec,sent] at done
    exact receive_reads reads here done

/-- A request its sender has not put into its slot yet. -/
@[simp] def preparing (r : Nat) : Op → Nat
  | .readConn x | .nextSequence x | .encode x | .listAddTail x => on r x
  | _ => 0

/-- A request whose `clientSendRequest` has not returned. -/
@[simp] def sending (r : Nat) : Op → Nat
  | .readConn x | .nextSequence x | .encode x | .listAddTail x | .countWrite x | .connWrite x | .append x
  | .refused x | .listDel x => on r x
  | _ => 0

@[simp] def refusing (r : Nat) : Op → Nat
  | .refused x | .listDel x => on r x
  | _ => 0

/-- A request that is out of its slot, its callback still to come. -/
@[simp] def carries (r : Nat) : Op → Nat
  | .failCallback x | .decode _ x | .refer _ x | .insertTail _ x | .listAdd _ x _ | .doJob _ x => on r x
  | _ => 0

@[simp] def failing (r : Nat) : Op → Nat
  | .failWrite x => on r x
  | _ => 0

@[simp] def writing : Op → Nat
  | .connWrite _ | .append _ | .refused _ | .failWrite _ | .failCallback _ | .writeDone => 1
  | _ => 0

def declined (returned : Nat → Option Bool) (r : Nat) : Nat := if returned r = some false then 1 else 0

def accepted (returned : Nat → Option Bool) (r : Nat) : Nat := if returned r = some true then 1 else 0

theorem declined_false (unreturned : returned x = none) (r : Nat) :
    declined (Function.update returned x (some false)) r = declined returned r + on r x := by
  by_cases same : x = r
  · subst same
    simp [declined,unreturned]
  · simp [declined,same,Ne.symm same]

theorem accepted_false (unreturned : returned x = none) (r : Nat) :
    accepted (Function.update returned x (some false)) r = accepted returned r := by
  by_cases same : x = r
  · subst same
    simp [accepted,unreturned]
  · simp [accepted,Ne.symm same]

theorem declined_true (unreturned : returned x = none) (r : Nat) :
    declined (Function.update returned x (some true)) r = declined returned r := by
  by_cases same : x = r
  · subst same
    simp [declined,unreturned]
  · simp [declined,Ne.symm same]

theorem accepted_true (unreturned : returned x = none) (r : Nat) :
    accepted (Function.update returned x (some true)) r = accepted returned r + on r x := by
  by_cases same : x = r
  · subst same
    simp [accepted,unreturned]
  · simp [accepted,same,Ne.symm same]

def State.places (s : State) (r : Nat) : Nat :=
  s.callbacks r + s.waiting.count r + (s.jobs.map Prod.fst).count r + declined s.returned r

/-- Every request made is in one place, and its sender is at work or has returned. -/
structure Requests (s : State) : Prop where
  placed : ∀ r, s.places r + total (carries r) s.threads + total (preparing r) s.threads = if r < s.started then 1 else 0
  sender : ∀ r, total (sending r) s.threads + declined s.returned r + accepted s.returned r = if r < s.started then 1 else 0
  written : s.write_counter = s.write_done_counter + s.writes.length + total writing s.threads
  failed : ∀ r, s.writes.count r + total (failing r) s.threads ≤ accepted s.returned r
  refused : ∀ r, total (refusing r) s.threads ≤ s.waiting.count r

structure RequestsSettle (s : State) (op : Op) (s' : State) (ops : List Op) : Prop where
  started : s'.started = s.started
  placed : ∀ r, s'.places r + (ops.map (carries r)).sum + (ops.map (preparing r)).sum =
    s.places r + carries r op + preparing r op
  sender : ∀ r, (ops.map (sending r)).sum + declined s'.returned r + accepted s'.returned r = sending r op + declined s.returned r + accepted s.returned r
  written : s'.write_counter + s.write_done_counter + s.writes.length + writing op =
    s.write_counter + s'.write_done_counter + s'.writes.length + (ops.map writing).sum
  failed : ∀ r, s'.writes.count r + (ops.map (failing r)).sum + accepted s.returned r ≤
    s.writes.count r + failing r op + accepted s'.returned r
  refused : ∀ r, total (refusing r) s.threads + (ops.map (refusing r)).sum ≤ s'.waiting.count r + refusing r op

theorem RequestsSettle.requests {i : Nat} (settles : RequestsSettle s op s' ops) (requests : Requests s)
    (here : s.threads[i]? = some (op :: rest)) : Requests { s' with threads := s.threads.set i (ops ++ rest) } where
  placed := by
    intro r
    have before := requests.placed r
    have moved := settles.placed r
    have carried := total_advance (carries r) here ops
    have prepared := total_advance (preparing r) here ops
    simp only [settles.started]
    change s'.places r + total (carries r) (s.threads.set i (ops ++ rest)) +
      total (preparing r) (s.threads.set i (ops ++ rest)) = _
    omega
  sender := by
    intro r
    have before := requests.sender r
    have moved := settles.sender r
    have sent := total_advance (sending r) here ops
    simp only [settles.started]
    change total (sending r) (s.threads.set i (ops ++ rest)) + declined s'.returned r + accepted s'.returned r = _
    omega
  written := by
    have before := requests.written
    have moved := settles.written
    have threads := total_advance writing here ops
    simp only
    omega
  failed := by
    intro r
    have before := requests.failed r
    have moved := settles.failed r
    have threads := total_advance (failing r) here ops
    change s'.writes.count r + total (failing r) (s.threads.set i (ops ++ rest)) ≤ accepted s'.returned r
    omega
  refused := by
    intro r
    have before := requests.refused r
    have moved := settles.refused r
    have threads := total_advance (refusing r) here ops
    change total (refusing r) (s.threads.set i (ops ++ rest)) ≤ s'.waiting.count r
    omega

/-- When an operation comes at a right moment: a failed write, and a refused one, find
their request in its slot, and no response takes a request whose write was refused. -/
def Proper (s : State) (outcome : Outcome) : Op → Prop
  | .failWrite r => r ∈ s.waiting
  | .connWrite r => s.is_closed = true → r ∈ s.waiting
  | .turn _ => match outcome with
    | .header sequence => ∀ r ∈ lookup s sequence, total (refusing r) s.threads = 0
    | _ => True
  | _ => True

/-- And no sender is still at work on a request of the slot about to be drained. -/
def Orderly (s : State) : Action → Prop
  | .run thread outcome => ∀ ops ∈ s.threads[thread]?, ∀ op ∈ ops.head?, Proper s outcome op
  | .onClose => match s.onClose with
    | .drain slot => ∀ r ∈ s.slot slot, total (sending r) s.threads = 0
    | _ => True
  | _ => True

instance (s : State) (outcome : Outcome) : (op : Op) → Decidable (Proper s outcome op)
  | .failWrite r => inferInstanceAs (Decidable (r ∈ s.waiting))
  | .connWrite r => inferInstanceAs (Decidable (s.is_closed = true → r ∈ s.waiting))
  | .turn _ => match outcome with
    | .header sequence => inferInstanceAs (Decidable (∀ r ∈ lookup s sequence, total (refusing r) s.threads = 0))
    | .answer _ | .starved _ | .message => inferInstanceAs (Decidable True)
  | .readConn _ | .nextSequence _ | .encode _ | .listAddTail _ | .countWrite _ | .append _ | .refused _ | .listDel _
  | .failCallback _ | .writeDone | .enter _ | .decode _ _ | .refer _ _ | .insertTail _ _ | .listAdd _ _ _
  | .freeReadBuffer _ | .readDone | .countRead _ _ | .read _ | .doJob _ _ => inferInstanceAs (Decidable True)

instance (s : State) : (a : Action) → Decidable (Orderly s a)
  | .run thread outcome => inferInstanceAs (Decidable (∀ ops ∈ s.threads[thread]?, ∀ op ∈ ops.head?, Proper s outcome op))
  | .onClose => match phase : s.onClose with
    | .drain slot => decidable_of_iff (∀ r ∈ s.slot slot, total (sending r) s.threads = 0) (by simp [Orderly,phase])
    | .notClosed | .clearConn | .waitReads | .waitWrites => .isTrue (by simp [Orderly,phase])
  | .sendRequest | .writeCallback _ _ | .readCallback _ _ | .doJob _ _ | .closeConnection => inferInstanceAs (Decidable True)

theorem Requests.unreturned {i : Nat} (requests : Requests s) (r : Nat) (here : s.threads[i]? = some (op :: rest))
    (sends : 0 < sending r op) : s.returned r = none := by
  have sender := requests.sender r
  have share := weight_le_total (sending r) here
  have one : total (sending r) s.threads + declined s.returned r + accepted s.returned r ≤ 1 := by
    rw [sender]
    split <;> omega
  simp only [declined,accepted] at one
  cases returned : s.returned r with
  | none => rfl
  | some rc => cases rc <;> simp [returned] at one <;> omega

theorem lookup_waiting {sequence : UInt32} (found : lookup s sequence = some r) : r ∈ s.waiting := by
  have inside := List.mem_of_find?_eq_some found
  exact (List.mem_filter.mp inside).1

theorem refusing_le (r : Nat) (op : Op) : refusing r op ≤ sending r op := by
  cases op <;> simp

theorem Requests.one_sender (requests : Requests s) (r : Nat) :
    total (sending r) s.threads + accepted s.returned r ≤ 1 := by
  have sender := requests.sender r
  by_cases started : r < s.started
  · rw [if_pos started] at sender
    omega
  · rw [if_neg started] at sender
    omega

/-- A request whose write was accepted is not refused too. -/
theorem Requests.not_refusing (requests : Requests s) (success : 0 < accepted s.returned r) :
    total (refusing r) s.threads = 0 := by
  have one := requests.one_sender r
  have fewer := total_mono (refusing_le r) s.threads
  omega

/-- Nor is one whose sender is still about to do something else. -/
theorem Requests.sender_not_refusing {i : Nat} (requests : Requests s) (r : Nat)
    (here : s.threads[i]? = some (op :: rest)) (sends : sending r op = 1) (other : refusing r op = 0) :
    total (refusing r) s.threads = 0 := by
  have one := requests.one_sender r
  have sent := total_advance (sending r) here []
  have refused := total_advance (refusing r) here []
  have fewer := total_mono (refusing_le r) (s.threads.set i ([] ++ rest))
  simp only [List.map_nil,List.sum_nil] at sent refused
  omega

theorem callback_count (callbacks : Nat → Nat) (x r : Nat) :
    Function.update callbacks x (callbacks x + 1) r = callbacks r + on r x := by
  by_cases same : x = r
  · subst same
    simp
  · simp [same,Ne.symm same]

theorem send_requests {i : Nat} (requests : Requests s) (here : s.threads[i]? = some (op :: rest))
    (proper : Proper s outcome op) (done : send s outcome op = some (s',ops)) : RequestsSettle s op s' ops := by
  have kept := requests.refused
  cases op with
  | readConn r =>
    have unreturned := requests.unreturned r here (by simp)
    cases conn : s.conn with
    | true =>
      simp [send,conn] at done
      obtain ⟨rfl,rfl⟩ := done
      constructor <;> simp [kept]
    | false =>
      simp [send,conn] at done
      obtain ⟨rfl,rfl⟩ := done
      constructor <;>
        simp [State.places,State.returns,declined_false unreturned,accepted_false unreturned,kept]
      · intro c
        omega
      · intro c
        omega
  | nextSequence r =>
    cases done
    constructor <;> simp [State.places,kept]
  | encode r =>
    have unreturned := requests.unreturned r here (by simp)
    cases outcome with
    | answer rc =>
      cases rc with
      | true =>
        cases done
        constructor <;> simp [kept]
      | false =>
        cases done
        constructor <;>
          simp [State.places,State.returns,declined_false unreturned,accepted_false unreturned,kept]
        · intro c
          omega
        · intro c
          omega
    | _ => cases done
  | listAddTail r =>
    cases done
    constructor <;> simp [State.places,List.count_cons]
    · intro c
      omega
    · intro c
      have before := kept c
      omega
  | countWrite r =>
    cases done
    constructor <;> simp [State.places,kept]
    omega
  | connWrite r =>
    cases closed : s.is_closed with
    | true =>
      simp [send,closed] at done
      obtain ⟨rfl,rfl⟩ := done
      have nobody := requests.sender_not_refusing r here (by simp) rfl
      have waits := List.count_pos_iff.mpr (proper closed)
      constructor <;> simp
      intro c
      have before := kept c
      by_cases same : r = c
      · subst same
        simp only [if_true]
        omega
      · simp only [if_neg same]
        omega
    | false =>
      simp [send,closed] at done
      obtain ⟨rfl,rfl⟩ := done
      constructor <;> simp [kept]
  | append r =>
    have unreturned := requests.unreturned r here (by simp)
    cases done
    constructor <;>
      simp [State.places,State.returns,declined_true unreturned,accepted_true unreturned,kept,List.count_cons]
    · intro c
      omega
    · omega
    · intro c
      omega
  | refused r =>
    cases done
    constructor <;> simp [State.places,kept]
    omega
  | listDel r =>
    have unreturned := requests.unreturned r here (by simp)
    have mine := weight_le_total (refusing r) here
    have waits : r ∈ s.waiting := by
      have before := kept r
      simp at mine
      exact List.count_pos_iff.mp (by omega)
    have unlinked := count_erase waits
    cases done
    constructor <;>
      simp [State.places,State.returns,declined_false unreturned,accepted_false unreturned]
    · intro c
      have left := unlinked c
      omega
    · intro c
      omega
    · intro c
      have before := kept c
      have left := unlinked c
      omega
  | failWrite r =>
    have mine := weight_le_total (failing r) here
    have failed := requests.failed r
    have nobody := requests.not_refusing (r := r) (by simp at mine; omega)
    have unlinked := count_erase (a := r) proper
    cases done
    constructor <;> simp [State.places]
    · intro c
      have left := unlinked c
      omega
    · intro c
      have before := kept c
      have left := unlinked c
      by_cases same : r = c
      · subst same
        omega
      · simp only [if_neg same] at left
        omega
  | failCallback r =>
    cases done
    constructor <;> simp [State.places,State.callback,callback_count]
    · intro c
      omega
    · exact kept
  | writeDone =>
    cases done
    constructor <;> simp [State.places,kept]
    omega
  | _ => cases done

theorem clientRead_requests (requests : Requests s) (rbuf : Nat) (same : Bool) :
    RequestsSettle s (.turn rbuf) (clientRead s rbuf same).1 (clientRead s rbuf same).2 := by
  have kept := requests.refused
  cases same <;> constructor <;> simp [clientRead,State.places,kept]

theorem receive_requests {i : Nat} (reads : Reads s) (requests : Requests s)
    (here : s.threads[i]? = some (op :: rest)) (proper : Proper s outcome op)
    (done : receive s outcome op = some (s',ops)) : RequestsSettle s op s' ops := by
  have kept := requests.refused
  cases op with
  | enter rbuf =>
    obtain ⟨live,share⟩ := reads.holder rbuf here (by simp)
    simp only [receive,touch_live live] at done
    cases done
    constructor <;> simp [State.places,kept]
  | turn rbuf =>
    obtain ⟨-,turned⟩ := reads.turned here done
    cases turned with
    | starved same => exact clientRead_requests requests rbuf same
    | unknown absent => constructor <;> simp [kept]
    | known r found =>
      have unlinked := count_erase (lookup_waiting found)
      have nobody := proper r found
      constructor <;> simp [State.places]
      · intro c
        have left := unlinked c
        omega
      · intro c
        have before := kept c
        have left := unlinked c
        by_cases same : r = c
        · subst same
          omega
        · simp only [if_neg same] at left
          omega
  | decode rbuf r =>
    cases outcome with
    | message | starved same =>
      cases done
      constructor <;> simp [kept]
    | _ => cases done
  | refer rbuf r =>
    obtain ⟨live,share⟩ := reads.holder rbuf here (by simp)
    simp only [receive,touch_live live] at done
    cases done
    constructor <;> simp [State.places,kept]
  | insertTail rbuf r =>
    cases done
    constructor <;> simp [State.places,kept,List.count_cons]
    intro c
    omega
  | listAdd rbuf r same =>
    have placed : ∀ c, (s.waiting.count c + if r = c then 1 else 0) = (r :: s.waiting).count c := by
      simp [List.count_cons]
    cases same with
    | true | false =>
      cases done
      constructor <;> simp [State.places,← placed]
      · intro c
        omega
      · intro c
        have before := kept c
        omega
  | freeReadBuffer rbuf =>
    obtain ⟨live,share⟩ := reads.holder rbuf here (by simp)
    simp only [receive,touch_live live] at done
    cases done
    by_cases last : s.buffers.reference rbuf = 1
    · constructor <;> simp [State.places,kept,last]
    · constructor <;> simp [State.places,kept,last]
  | readDone | countRead rbuf old_rbuf =>
    cases done
    constructor <;> simp [State.places,kept]
  | read rbuf =>
    obtain ⟨live,share⟩ := reads.holder rbuf here (by simp)
    cases outcome with
    | answer rc =>
      cases rc with
      | true =>
        simp only [receive,touch_live live] at done
        cases done
        constructor <;> simp [State.places,kept]
      | false =>
        cases done
        constructor <;> simp [kept]
    | _ => cases done
  | doJob rbuf r =>
    cases done
    constructor <;> simp [State.places,State.callback,callback_count,kept]
    intro c
    omega
  | _ => cases done

theorem exec_requests {i : Nat} (reads : Reads s) (requests : Requests s)
    (here : s.threads[i]? = some (op :: rest)) (proper : Proper s outcome op)
    (done : exec s outcome op = some (s',ops)) : RequestsSettle s op s' ops := by
  cases sent : send s outcome op with
  | some result =>
    simp only [exec,sent,Option.some.injEq] at done
    subst done
    exact send_requests requests here proper sent
  | none =>
    simp only [exec,sent] at done
    exact receive_requests reads requests here proper done

/-- A thread starts with what a read, a response job or a write hands over. -/
theorem Reads.spawn (reads : Reads s) (op : Op) (buffers : s'.buffers = s.buffers) (fault : s'.fault = s.fault)
    (counters : s'.read_counter = s.read_counter ∧ s'.read_done_counter = s.read_done_counter)
    (threads : s'.threads = s.threads) (shares : ∀ b, s'.users b + held b op = s.users b)
    (streams : s'.reads.length + continues op ≤ s.reads.length)
    (quiet : counting op = 0 ∧ discounting op = 0 ∧ confused op = 0) : Reads (spawn s' op) where
  running := fault.trans reads.running
  sound := by
    change s'.buffers.Sound
    rw [buffers]
    exact reads.sound
  balanced := by
    intro b
    have before := reads.balanced b
    have moved := shares b
    have spawned := total_spawn (held b) s.threads op
    change s'.buffers.refs b = s'.users b + total (held b) (s'.threads ++ [[op]])
    rw [buffers,threads]
    omega
  counted := by
    have before := reads.counted
    have counts := total_spawn counting s.threads op
    have discounts := total_spawn discounting s.threads op
    change s'.read_counter + total counting (s'.threads ++ [[op]]) =
      s'.buffers.live.length + total discounting (s'.threads ++ [[op]]) + s'.read_done_counter
    rw [buffers,threads]
    omega
  stream := by
    have before := reads.stream
    have spawned := total_spawn continues s.threads op
    change s'.reads.length + total continues (s'.threads ++ [[op]]) ≤ 1
    rw [threads]
    omega
  distinct := by
    have before := reads.distinct
    have spawned := total_spawn confused s.threads op
    change total confused (s'.threads ++ [[op]]) = 0
    rw [threads]
    omega

theorem Reads.sendRequest (reads : Reads s) : Reads (ClientNotify.spawn { s with started := s.started + 1 } (.readConn s.started)) :=
  reads.spawn _ rfl rfl ⟨rfl,rfl⟩ rfl (fun _ => rfl) (Nat.le_refl _) ⟨rfl,rfl,rfl⟩

theorem Reads.writeCallback (reads : Reads s) (r : Nat) (rc : Bool) :
    Reads (ClientNotify.spawn { s with writes := s.writes.erase r } (if rc then .writeDone else .failWrite r)) := by
  cases rc <;> exact reads.spawn _ rfl rfl ⟨rfl,rfl⟩ rfl (fun _ => rfl) (Nat.le_refl _) ⟨rfl,rfl,rfl⟩

theorem Reads.readCallback (reads : Reads s) (rc : Bool) (outstanding : rbuf ∈ s.reads) :
    Reads (ClientNotify.spawn { s with reads := s.reads.erase rbuf } (if rc then .enter rbuf else .freeReadBuffer rbuf)) := by
  have left := count_erase outstanding
  have fewer := List.length_erase_of_mem outstanding
  have some := List.length_pos_of_mem outstanding
  have shares : ∀ b, ((s.reads.erase rbuf).count b + (s.jobs.map Prod.snd).count b + if rbuf = b then 1 else 0) =
      s.reads.count b + (s.jobs.map Prod.snd).count b := by
    intro b
    have before := left b
    omega
  cases rc <;> refine reads.spawn _ rfl rfl ⟨rfl,rfl⟩ rfl ?_ ?_ ?_ <;> simp [State.users,shares] <;> omega

theorem Reads.doJob (reads : Reads s) (given : (r,rbuf) ∈ s.jobs) :
    Reads (ClientNotify.spawn { s with jobs := s.jobs.erase (r,rbuf) } (.doJob rbuf r)) := by
  have left := List.perm_cons_erase given
  refine reads.spawn _ rfl rfl ⟨rfl,rfl⟩ rfl ?_ ?_ ?_ <;> simp [State.users]
  intro b
  have before := (left.map Prod.snd).count_eq b
  simp [List.count_cons] at before
  omega

theorem Reads.closeConnection (reads : Reads s) : Reads (ClientNotify.closeConnection s) := by
  obtain ⟨running,sound,balanced,counted,stream,distinct⟩ := reads
  unfold ClientNotify.closeConnection
  split <;> exact ⟨running,sound,balanced,counted,stream,distinct⟩

theorem Reads.onClose (reads : Reads s) (taken : onClose s = some s') : Reads s' := by
  obtain ⟨running,sound,balanced,counted,stream,distinct⟩ := reads
  cases phase : s.onClose with
  | notClosed => simp [ClientNotify.onClose,phase] at taken
  | clearConn =>
    simp only [ClientNotify.onClose,phase,Option.some.injEq] at taken
    subst taken
    exact ⟨running,sound,balanced,counted,stream,distinct⟩
  | waitReads | waitWrites | drain slot =>
    simp only [ClientNotify.onClose,phase,Option.ite_none_right_eq_some,Option.some.injEq] at taken
    obtain ⟨_,rfl⟩ := taken
    exact ⟨running,sound,balanced,counted,stream,distinct⟩

theorem Reads.onConnect : Reads ClientNotify.onConnect where
  running := rfl
  sound := sound_create sound_empty
  balanced := by
    intro b
    have first := refs_create sound_empty b
    simp [ClientNotify.onConnect,State.users,Buffers.empty,List.count_cons,refs] at first ⊢
    exact first
  counted := rfl
  stream := Nat.le_refl 1
  distinct := rfl

/-- Every step settles the accounts of the read side. -/
theorem step_reads (reads : Reads s) (taken : step s a = some s') : Reads s' := by
  have running : ¬s.fault ≠ none := not_not.mpr reads.running
  simp only [step,if_neg running] at taken
  cases a with
  | sendRequest =>
    cases taken
    exact reads.sendRequest
  | writeCallback r rc =>
    simp only [Option.ite_none_right_eq_some,Option.some.injEq] at taken
    obtain ⟨_,rfl⟩ := taken
    exact reads.writeCallback r rc
  | readCallback rbuf rc =>
    simp only [Option.ite_none_right_eq_some,Option.some.injEq] at taken
    obtain ⟨outstanding,rfl⟩ := taken
    exact reads.readCallback rc outstanding
  | doJob r rbuf =>
    simp only [Option.ite_none_right_eq_some,Option.some.injEq] at taken
    obtain ⟨given,rfl⟩ := taken
    exact reads.doJob given
  | closeConnection =>
    cases taken
    exact reads.closeConnection
  | onClose => exact reads.onClose taken
  | run thread outcome =>
    rcases here : s.threads[thread]? with _ | _ | ⟨op,rest⟩
    · simp [here] at taken
    · simp [here] at taken
    · simp only [here,Option.map_eq_some_iff] at taken
      obtain ⟨⟨s',ops⟩,done,rfl⟩ := taken
      exact (exec_reads reads here done).reads reads here

def State.made (s : State) (r : Nat) : Nat := if r < s.started then 1 else 0

theorem made_next (s : State) (r : Nat) :
    State.made { s with started := s.started + 1 } r = s.made r + on r s.started := by
  by_cases new : s.started = r
  · subst new
    simp [State.made]
  · simp only [State.made,on,if_neg new]
    by_cases older : r < s.started
    · rw [if_pos older,if_pos (by omega)]
    · rw [if_neg older,if_neg (by omega)]

theorem Requests.spawn (requests : Requests s) (op : Op) (threads : s'.threads = s.threads)
    (placed : ∀ r, s'.places r + carries r op + preparing r op + s.made r = s.places r + s'.made r)
    (sender : ∀ r, sending r op + declined s'.returned r + accepted s'.returned r + s.made r =
      declined s.returned r + accepted s.returned r + s'.made r)
    (written : s'.write_counter + s.write_done_counter + s.writes.length =
      s.write_counter + s'.write_done_counter + s'.writes.length + writing op)
    (failed : ∀ r, s'.writes.count r + failing r op + accepted s.returned r ≤
      s.writes.count r + accepted s'.returned r)
    (refused : ∀ r, refusing r op + s.waiting.count r ≤ s'.waiting.count r) : Requests (spawn s' op) where
  placed := by
    intro r
    have before := requests.placed r
    have moved := placed r
    have carried := total_spawn (carries r) s.threads op
    have prepared := total_spawn (preparing r) s.threads op
    change s'.places r + total (carries r) (s'.threads ++ [[op]]) + total (preparing r) (s'.threads ++ [[op]]) = s'.made r
    rw [threads]
    simp only [State.made] at *
    omega
  sender := by
    intro r
    have before := requests.sender r
    have moved := sender r
    have sent := total_spawn (sending r) s.threads op
    change total (sending r) (s'.threads ++ [[op]]) + declined s'.returned r + accepted s'.returned r = s'.made r
    rw [threads]
    simp only [State.made] at *
    omega
  written := by
    have before := requests.written
    have spawned := total_spawn writing s.threads op
    change s'.write_counter = s'.write_done_counter + s'.writes.length + total writing (s'.threads ++ [[op]])
    rw [threads]
    omega
  failed := by
    intro r
    have before := requests.failed r
    have moved := failed r
    have spawned := total_spawn (failing r) s.threads op
    change s'.writes.count r + total (failing r) (s'.threads ++ [[op]]) ≤ accepted s'.returned r
    rw [threads]
    omega
  refused := by
    intro r
    have before := requests.refused r
    have moved := refused r
    have spawned := total_spawn (refusing r) s.threads op
    change total (refusing r) (s'.threads ++ [[op]]) ≤ s'.waiting.count r
    rw [threads]
    omega

end Muti.ClientNotify
