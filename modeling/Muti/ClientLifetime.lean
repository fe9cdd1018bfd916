import Muti.ClientOnce

/-! What the notifications keep in memory. A request's `ClientSendArg` is freed by whoever drops
the last of its two shares, or at once where its request fails; `clientOnClose` frees the counters
after its waits, and the connection goes after that. A wait loads its two counters one after the
other. Every use of freed memory, and unlinking a request that is in no list, is a fault. -/
namespace Muti.ClientLifetime

open Muti.Lists Muti.Memory Muti.Transition Muti.SharedBuffers
open Muti.ClientNotify hiding State onConnect onClose step Orderly

inductive Load where
  | counter (n : Nat)
  | done (n : Nat)
  deriving DecidableEq, Repr

def Load.meets (counter done : Nat) : Load → Prop
  | .counter n => n = done
  | .done n => counter = n

instance (counter done : Nat) : (load : Load) → Decidable (load.meets counter done)
  | .counter n => inferInstanceAs (Decidable (n = done))
  | .done n => inferInstanceAs (Decidable (counter = n))

/-- `ref` is 0 as long as a request has no `ClientSendArg`; `responses` are held by their callbacks,
`context` stands for `ccxt`. -/
structure State where
  client : ClientNotify.State
  ref : Nat → Nat
  responses : List Nat
  context : Bool
  connection : Bool
  loaded : Option Load
  fault : Option Fault

def onConnect : State where
  client := ClientNotify.onConnect
  ref := fun _ => 0
  responses := []
  context := true
  connection := true
  loaded := none
  fault := none

/-- The requests whose `ClientSendArg` an operation uses: its own, and those of the slot it is
linked into or searched in. -/
def sendArgs (s : ClientNotify.State) (outcome : Outcome) : Op → List Nat
  | .encode r | .connWrite r | .failCallback r | .decode _ r | .refer _ r | .insertTail _ r | .doJob _ r => [r]
  | .listAddTail r | .listDel r | .failWrite r | .listAdd _ r _ => r :: s.slot (Client.hash (s.sequences r)).val
  | .turn _ => match outcome with
    | .header sequence => s.slot (Client.hash sequence).val
    | _ => []
  | _ => []

/-- A callback of the connection's own holds a reference of it; a sender and a response job do not. -/
def usesConnection : Op → Bool
  | .connWrite _ | .append _ | .doJob _ _ => true
  | _ => false

def usesContext : Op → Bool
  | .countWrite _ | .refused _ | .writeDone | .countRead _ _ | .readDone => true
  | _ => false

/-- The request a failed write unlinks, wherever it is. -/
def unlinks : Op → Option Nat
  | .listDel r | .failWrite r => some r
  | _ => none

/-- `listDel` leaves `NULL` links behind, so a request can be unlinked once. -/
def misuse (m : State) (outcome : Outcome) (op : Op) : Option Fault :=
  if (∃ r ∈ sendArgs m.client outcome op, m.ref r = 0) ∨ (usesConnection op = true ∧ m.connection = false) ∨
    (usesContext op = true ∧ m.context = false) then some .useAfterFree
  else if ∃ r ∈ unlinks op, r ∉ m.client.waiting ∧ r ∉ m.client.jobs.map Prod.fst then some .nullPointer
  else none

/-- The link to a slot and the link to the pool's jobs are one union. -/
def unqueue (s : ClientNotify.State) (op : Op) : ClientNotify.State :=
  match unlinks op with
  | some r => if r ∈ s.waiting then s else { s with jobs := s.jobs.filter fun job => job.1 ≠ r }
  | none => s

@[simp] def allocates (r : Nat) : Op → Nat
  | .nextSequence x => on r x
  | _ => 0

@[simp] def frees (r : Nat) (outcome : Outcome) : Op → Nat
  | .encode x => if outcome = .answer false then on r x else 0
  | .listDel x | .failCallback x => on r x
  | _ => 0

theorem once (r : Nat) (outcome : Outcome) (op : Op) : frees r outcome op + allocates r op ≤ 1 := by
  have one : ∀ x, on r x ≤ 1 := by
    intro x
    by_cases same : x = r <;> simp [same]
  cases op with
  | encode x =>
    by_cases failed : outcome = .answer false
    · simpa [failed] using one x
    · simp [failed]
  | nextSequence x | listDel x | failCallback x => simpa using one x
  | _ => exact Nat.zero_le 1

def hands (responses : List Nat) : Op → List Nat
  | .doJob _ r => r :: responses
  | _ => responses

def run (m : State) (thread : Nat) (outcome : Outcome) : Option State :=
  match m.client.threads[thread]? with
  | some (op :: _) => match misuse m outcome op with
    | some fault => some { m with fault := some fault }
    | none => (ClientNotify.step (unqueue m.client op) (.run thread outcome)).map fun client =>
      { m with
        client
        ref := fun r => if allocates r op = 1 then 2 else if frees r outcome op = 1 then 0 else m.ref r
        responses := hands m.responses op }
  | _ => none

def release (m : State) (r : Nat) : State :=
  if m.ref r = 0 then { m with fault := some .useAfterFree }
  else { m with ref := Function.update m.ref r (m.ref r - 1) }

def waits (s : ClientNotify.State) : Option (Nat × Nat) :=
  match s.onClose with
  | .waitReads => some (s.read_counter,s.read_done_counter)
  | .waitWrites => some (s.write_counter,s.write_done_counter)
  | _ => none

def load (m : State) (first : Bool) : Option State :=
  match m.loaded, waits m.client with
  | none, some (counter,done) => some { m with loaded := some (if first then .counter counter else .done done) }
  | _, _ => none

/-- The second load of a wait, which ends it or starts it again, and the other steps of `clientOnClose`. -/
def onClose (m : State) : Option State :=
  match m.client.onClose, m.loaded with
  | .notClosed, _ | .waitReads, none | .waitWrites, none => none
  | .clearConn, _ => (ClientNotify.onClose m.client).map fun client => { m with client }
  | .waitReads, some load =>
    if load.meets m.client.read_counter m.client.read_done_counter then
      some { m with client := { m.client with onClose := .waitWrites }, loaded := none }
    else some { m with loaded := none }
  | .waitWrites, some load =>
    if load.meets m.client.write_counter m.client.write_done_counter then
      some { m with client := { m.client with onClose := .drain 0 }, loaded := none, context := false }
    else some { m with loaded := none }
  | .drain slot, _ =>
    if ∃ r ∈ m.client.slot slot, m.ref r = 0 then some { m with fault := some .useAfterFree }
    else (ClientNotify.onClose m.client).map fun client =>
      { m with client, ref := fun r => if r ∈ m.client.slot slot then 0 else m.ref r }

/-- `freeResp` is the end of `clientDoJob` or of `clientFreeResp`, whichever the callback chose. -/
inductive Event where
  | client (a : Action)
  | load (first : Bool)
  | freeResp (r : Nat)
  | freeConnection
  deriving DecidableEq, Repr

/-- The connection is freed at the earliest when `onClose` has returned and no `IOContext` is left. -/
def step (m : State) (event : Event) : Option State :=
  if m.fault ≠ none ∨ m.client.fault ≠ none then none
  else match event with
    | .client (.run thread outcome) => run m thread outcome
    | .client .onClose => onClose m
    | .client (.writeCallback r rc) => (ClientNotify.step m.client (.writeCallback r rc)).map fun client =>
      if rc then release { m with client } r else { m with client }
    | .client a => (ClientNotify.step m.client a).map fun client => { m with client }
    | .load first => load m first
    | .freeResp r => if r ∈ m.responses then some (release { m with responses := m.responses.erase r } r) else none
    | .freeConnection =>
      if m.client.onClose = .drain 128 ∧ m.client.reads = [] ∧ m.client.writes = [] then some { m with connection := false }
      else none

@[simp] def entered : Op → Nat
  | .nextSequence _ | .encode _ | .listAddTail _ | .countWrite _ | .connWrite _ | .append _ | .refused _ | .listDel _ => 1
  | _ => 0

/-- A wait ends where its counters are equal, and the second one while no sender is under way. -/
def Ended (m : State) : Prop :=
  match m.client.onClose, m.loaded with
  | .waitReads, some load => load.meets m.client.read_counter m.client.read_done_counter →
    m.client.read_counter = m.client.read_done_counter
  | .waitWrites, some load => load.meets m.client.write_counter m.client.write_done_counter →
    m.client.write_counter = m.client.write_done_counter ∧ total entered m.client.threads = 0
  | _, _ => True

/-- Failed and refused writes find their requests in the slots, no response takes a request whose
write was refused, and the waits end at right moments. -/
def Orderly (m : State) : Event → Prop
  | .client .onClose => Ended m
  | .client a => ClientNotify.Orderly m.client a
  | _ => True

instance (m : State) : Decidable (Ended m) :=
  match phase : m.client.onClose, loaded : m.loaded with
  | .waitReads, some load => decidable_of_iff (load.meets m.client.read_counter m.client.read_done_counter →
    m.client.read_counter = m.client.read_done_counter) (by simp only [Ended,phase,loaded])
  | .waitWrites, some load => decidable_of_iff (load.meets m.client.write_counter m.client.write_done_counter →
    m.client.write_counter = m.client.write_done_counter ∧ total entered m.client.threads = 0)
    (by simp only [Ended,phase,loaded])
  | .waitReads, none | .waitWrites, none | .notClosed, _ | .clearConn, _ | .drain _, _ =>
    .isTrue (by simp only [Ended,phase,loaded])

instance (m : State) : (event : Event) → Decidable (Orderly m event)
  | .client .onClose => inferInstanceAs (Decidable (Ended m))
  | .client .sendRequest | .client (.writeCallback _ _) | .client (.readCallback _ _) | .client (.doJob _ _)
  | .client .closeConnection => .isTrue trivial
  | .client (.run thread outcome) => inferInstanceAs (Decidable (ClientNotify.Orderly m.client (.run thread outcome)))
  | .load _ | .freeResp _ | .freeConnection => .isTrue trivial

@[simp] def writeShare (r : Nat) : Op → Nat
  | .encode x | .listAddTail x | .countWrite x | .connWrite x | .append x | .refused x | .listDel x | .failWrite x
  | .failCallback x => on r x
  | _ => 0

@[simp] def replyShare (r : Nat) : Op → Nat
  | .encode x | .listAddTail x | .failCallback x | .decode _ x | .refer _ x | .insertTail _ x | .listAdd _ x _
  | .doJob _ x => on r x
  | _ => 0

@[simp] def active : Op → Nat
  | .readConn _ => 0
  | _ => 1

def writers (s : ClientNotify.State) (r : Nat) : Nat := s.writes.count r + total (writeShare r) s.threads

def repliers (s : ClientNotify.State) (responses : List Nat) (r : Nat) : Nat :=
  s.waiting.count r + (s.jobs.map Prod.fst).count r + responses.count r + total (replyShare r) s.threads

structure Quiet (s : ClientNotify.State) : Prop where
  reads : s.reads = []
  writes : s.writes = []
  jobs : s.jobs = []
  threads : total active s.threads = 0

structure Alive (m : State) : Prop where
  running : m.fault = none
  inv : ClientNotify.Inv m.client
  shared : ∀ r, m.ref r = writers m.client r + repliers m.client m.responses r
  writer : ∀ r, writers m.client r ≤ 1
  called : ∀ r, m.responses.count r ≤ m.client.callbacks r
  cleared : m.client.onClose = .notClosed ∨ m.client.onClose = .clearConn ∨ m.client.conn = false
  counted : m.client.onClose.ReadsOver → total discounting m.client.threads = 0
  present : (∀ slot, m.client.onClose ≠ .drain slot) → m.context = true ∧ m.connection = true
  quiet : ∀ slot, m.client.onClose = .drain slot → Quiet m.client

theorem replyShare_le (r : Nat) (op : Op) : replyShare r op ≤ carries r op + preparing r op := by
  cases op <;> simp

theorem writeShare_le (r : Nat) (op : Op) : writeShare r op ≤ sending r op + failing r op + carries r op := by
  cases op <;> simp

theorem one_place {s : ClientNotify.State} (requests : Requests s) (r : Nat) :
    s.places r + total (carries r) s.threads + total (preparing r) s.threads ≤ 1 := by
  rw [requests.placed r]
  split <;> omega

theorem Alive.replier (alive : Alive m) (r : Nat) : repliers m.client m.responses r ≤ 1 := by
  have placed := one_place alive.inv.requests r
  have called := alive.called r
  have shares := total_mono (replyShare_le r) m.client.threads
  rw [total_add] at shares
  simp only [ClientNotify.State.places] at placed
  simp only [repliers]
  omega

/-- A request that has no number yet has no `ClientSendArg`. -/
theorem Alive.unallocated {i : Nat} (alive : Alive m) (here : m.client.threads[i]? = some (.nextSequence r :: rest)) :
    writers m.client r = 0 ∧ repliers m.client m.responses r = 0 := by
  have placed := one_place alive.inv.requests r
  have called := alive.called r
  have unreturned := alive.inv.requests.unreturned r here (by simp)
  have failed := alive.inv.requests.failed r
  have sender := alive.inv.requests.one_sender r
  have unaccepted : accepted m.client.returned r = 0 := by simp [accepted,unreturned]
  have writes := total_advance (writeShare r) here []
  have replies := total_advance (replyShare r) here []
  have prepared := total_advance (preparing r) here []
  have sent := total_advance (sending r) here []
  have carried := total_advance (carries r) here []
  have failing := total_advance (failing r) here []
  have first := total_mono (writeShare_le r) (m.client.threads.set i ([] ++ rest))
  have second := total_mono (replyShare_le r) (m.client.threads.set i ([] ++ rest))
  rw [total_add,total_add] at first
  rw [total_add] at second
  simp only [ClientNotify.State.places] at placed
  simp at writes replies prepared sent carried failing first second
  simp only [writers,repliers]
  omega

/-- The shares of one operation: what it allocates has two, what it frees had two. -/
structure SharesSettle (s : ClientNotify.State) (responses : List Nat) (outcome : Outcome) (op : Op)
    (s' : ClientNotify.State) (ops : List Op) : Prop where
  writes : ∀ r, s'.writes.count r + (ops.map (writeShare r)).sum + frees r outcome op =
    s.writes.count r + writeShare r op + allocates r op
  replies : ∀ r, s'.waiting.count r + (s'.jobs.map Prod.fst).count r + (hands responses op).count r +
    (ops.map (replyShare r)).sum + frees r outcome op =
    s.waiting.count r + (s.jobs.map Prod.fst).count r + responses.count r + replyShare r op + allocates r op
  called : ∀ r, s'.callbacks r + responses.count r ≥ s.callbacks r + (hands responses op).count r
  conn : s'.conn = s.conn

/-- A request whose write was refused is still in its slot. -/
theorem refused_waits {s : ClientNotify.State} {i : Nat} (requests : Requests s)
    (here : s.threads[i]? = some (.listDel r :: rest)) : r ∈ s.waiting := by
  have mine := weight_le_total (refusing r) here
  have refused := requests.refused r
  simp at mine
  exact List.count_pos_iff.mp (by omega)

theorem sendArgs_shared (used : r ∈ sendArgs s outcome op) :
    r ∈ s.waiting ∨ 0 < writeShare r op + replyShare r op := by
  have linked : ∀ slot, r ∈ s.slot slot → r ∈ s.waiting := fun slot member => (List.mem_filter.mp member).1
  cases op with
  | listAddTail x | listAdd rbuf x same =>
    rcases List.mem_cons.mp used with rfl | member
    · simp
    · exact .inl (linked _ member)
  | listDel x | failWrite x =>
    rcases List.mem_cons.mp used with rfl | member
    · simp
    · exact .inl (linked _ member)
  | turn rbuf =>
    cases outcome with
    | header sequence => exact .inl (linked _ used)
    | _ => cases used
  | encode x | connWrite x | failCallback x | decode rbuf x | refer rbuf x | insertTail rbuf x | doJob rbuf x =>
    obtain rfl := List.mem_singleton.mp used
    simp
  | _ => cases used

/-- Whatever an operation uses is there. -/
theorem Alive.used {i : Nat} (alive : Alive m) (here : m.client.threads[i]? = some (op :: rest))
    (proper : Proper m.client outcome op) : misuse m outcome op = none ∧ unqueue m.client op = m.client := by
  have waits : ∀ r ∈ unlinks op, r ∈ m.client.waiting := by
    intro r unlinked
    cases op with
    | listDel x =>
      cases unlinked
      exact refused_waits alive.inv.requests here
    | failWrite x =>
      cases unlinked
      exact proper
    | _ => cases unlinked
  have owned : ∀ r ∈ sendArgs m.client outcome op, m.ref r ≠ 0 := by
    intro r used
    have shared := alive.shared r
    have written := weight_le_total (writeShare r) here
    have replied := weight_le_total (replyShare r) here
    simp only [writers,repliers] at shared
    rcases sendArgs_shared used with linked | share
    · have one := List.count_pos_iff.mpr linked
      omega
    · omega
  have there : (usesConnection op = true → m.connection = true) ∧ (usesContext op = true → m.context = true) := by
    by_cases draining : ∃ slot, m.client.onClose = .drain slot
    · obtain ⟨slot,draining⟩ := draining
      have mine := weight_le_total active here
      have quiet := (alive.quiet slot draining).threads
      cases op with
      | readConn r => exact ⟨by rintro ⟨⟩,by rintro ⟨⟩⟩
      | _ =>
        simp at mine
        omega
    · push Not at draining
      obtain ⟨context,connection⟩ := alive.present draining
      exact ⟨fun _ => connection,fun _ => context⟩
  constructor
  · have unused : ¬((∃ r ∈ sendArgs m.client outcome op, m.ref r = 0) ∨
        (usesConnection op = true ∧ m.connection = false) ∨ (usesContext op = true ∧ m.context = false)) := by
      rintro (⟨r,used,freed⟩ | ⟨uses,gone⟩ | ⟨uses,gone⟩)
      · exact owned r used freed
      · simp [there.1 uses] at gone
      · simp [there.2 uses] at gone
    have linked : ¬∃ r ∈ unlinks op, r ∉ m.client.waiting ∧ r ∉ m.client.jobs.map Prod.fst := by
      rintro ⟨r,unlinked,absent,_⟩
      exact absent (waits r unlinked)
    simp only [misuse,if_neg unused,if_neg linked]
  · cases unlinked : unlinks op with
    | none => simp only [unqueue,unlinked]
    | some r => simp only [unqueue,unlinked,if_pos (waits r unlinked)]

theorem Alive.settled {i : Nat} {s' : ClientNotify.State} (alive : Alive m) (here : m.client.threads[i]? = some (op :: rest))
    (settles : SharesSettle m.client m.responses outcome op s' ops) (r : Nat) :
    (if allocates r op = 1 then 2 else if frees r outcome op = 1 then 0 else m.ref r) =
      writers { s' with threads := m.client.threads.set i (ops ++ rest) } r +
      repliers { s' with threads := m.client.threads.set i (ops ++ rest) } (hands m.responses op) r ∧
    writers { s' with threads := m.client.threads.set i (ops ++ rest) } r ≤ 1 := by
  have shared := alive.shared r
  have writer := alive.writer r
  have replier := alive.replier r
  have written := settles.writes r
  have replied := settles.replies r
  have writes := total_advance (writeShare r) here ops
  have replies := total_advance (replyShare r) here ops
  have one := once r outcome op
  simp only [writers,repliers] at *
  by_cases allocated : allocates r op = 1
  · obtain ⟨unwritten,unreplied⟩ : writers m.client r = 0 ∧ repliers m.client m.responses r = 0 := by
      cases op with
      | nextSequence x =>
        obtain rfl : x = r := by
          by_contra other
          simp [other] at allocated
        exact alive.unallocated here
      | _ => cases allocated
    simp only [writers,repliers] at unwritten unreplied
    rw [if_pos allocated]
    omega
  · rw [if_neg allocated]
    by_cases freed : frees r outcome op = 1
    · rw [if_pos freed]
      omega
    · rw [if_neg freed]
      omega

/-- A new thread takes the shares it works with from where they were. -/
theorem Alive.spawn {s' : ClientNotify.State} (alive : Alive m) (op : Op) (inv : ClientNotify.Inv (ClientNotify.spawn s' op))
    (phase : s'.onClose = m.client.onClose) (conn : s'.conn = m.client.conn) (callbacks : s'.callbacks = m.client.callbacks)
    (threads : s'.threads = m.client.threads) (uncounted : discounting op = 0) (ref : Nat → Nat)
    (written : ∀ r, s'.writes.count r + writeShare r op + m.ref r = m.client.writes.count r + ref r)
    (replied : ∀ r, s'.waiting.count r + (s'.jobs.map Prod.fst).count r + replyShare r op =
      m.client.waiting.count r + (m.client.jobs.map Prod.fst).count r)
    (fewer : ∀ r, ref r ≤ m.ref r)
    (quiet : ∀ slot, m.client.onClose = .drain slot → Quiet (ClientNotify.spawn s' op)) :
    Alive { m with client := ClientNotify.spawn s' op, ref } := by
  have writes : ∀ r, writers (ClientNotify.spawn s' op) r + m.ref r = writers m.client r + ref r := by
    intro r
    have moved := written r
    have spawned := total_spawn (writeShare r) m.client.threads op
    change s'.writes.count r + total (writeShare r) (s'.threads ++ [[op]]) + m.ref r = _
    rw [threads]
    simp only [writers]
    omega
  have replies : ∀ r, repliers (ClientNotify.spawn s' op) m.responses r = repliers m.client m.responses r := by
    intro r
    have moved := replied r
    have spawned := total_spawn (replyShare r) m.client.threads op
    change s'.waiting.count r + (s'.jobs.map Prod.fst).count r + m.responses.count r +
      total (replyShare r) (s'.threads ++ [[op]]) = _
    rw [threads]
    simp only [repliers]
    omega
  constructor
  · exact alive.running
  · exact inv
  · intro r
    have shared := alive.shared r
    have moved := writes r
    have kept := replies r
    simp only
    omega
  · intro r
    have writer := alive.writer r
    have moved := writes r
    have less := fewer r
    simp only
    omega
  · intro r
    change _ ≤ s'.callbacks r
    rw [callbacks]
    exact alive.called r
  · change s'.onClose = _ ∨ s'.onClose = _ ∨ s'.conn = false
    rw [phase,conn]
    exact alive.cleared
  · intro finished
    change s'.onClose.ReadsOver at finished
    rw [phase] at finished
    have none := alive.counted finished
    have spawned := total_spawn discounting m.client.threads op
    change total discounting (s'.threads ++ [[op]]) = 0
    rw [threads]
    omega
  · change (∀ slot, s'.onClose ≠ .drain slot) → _
    rw [phase]
    exact alive.present
  · change ∀ slot, s'.onClose = .drain slot → _
    rw [phase]
    exact quiet

theorem Quiet.writers (quiet : Quiet s) (r : Nat) : writers s r = 0 ∧ total (replyShare r) s.threads = 0 := by
  have idle := quiet.threads
  have none : total (writeShare r) s.threads ≤ total active s.threads ∧
      total (replyShare r) s.threads ≤ total active s.threads := by
    constructor
    · apply total_mono
      intro op
      cases op <;> simp <;> split <;> omega
    · apply total_mono
      intro op
      cases op <;> simp <;> split <;> omega
  simp only [ClientLifetime.writers,quiet.writes,List.count_nil]
  omega

/-- Behind the waits only the slots and the responses hold a share. -/
theorem Alive.left (alive : Alive m) (quiet : Quiet m.client) (r : Nat) :
    m.ref r = m.client.waiting.count r + m.responses.count r := by
  have shared := alive.shared r
  obtain ⟨unwritten,unreplied⟩ := quiet.writers r
  simp [repliers,quiet.jobs,unwritten,unreplied] at shared
  exact shared

def sent : List Event :=
  [.client .sendRequest,.client (.run 0 .message),.client (.run 0 .message),.client (.run 0 (.answer true)),
    .client (.run 0 .message),.client (.run 0 .message),.client (.run 0 .message),.client (.run 0 .message)]

def received : List Event :=
  [.client (.readCallback 0 true),.client (.run 2 .message),.client (.run 2 (.header 1023)),.client (.run 2 .message),
    .client (.run 2 .message),.client (.run 2 .message)]

def calledBack : List Event := [.client (.doJob 0 0),.client (.run 3 .message),.client (.run 3 .message),.freeResp 0]

def waited : List Event := [.load true,.client .onClose]

def drained : List Event := List.replicate 128 (.client .onClose)

/-- A request is answered, and the connection closed, drained and freed after that. -/
def answered : List Event :=
  sent ++ [.client (.writeCallback 0 true),.client (.run 1 .message)] ++ received ++ calledBack ++
    [.client (.run 2 (.starved true)),.client (.run 2 (.answer true)),.client (.run 2 .message),
      .client .closeConnection,.client (.readCallback 0 false),.client (.run 4 .message),.client (.run 4 .message),
      .client .onClose] ++ waited ++ waited ++ drained ++ [.freeConnection]

end Muti.ClientLifetime
