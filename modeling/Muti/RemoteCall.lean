import Muti.CallLedger
import Muti.Pipe

/-! Remote calls, from `clientSendRequest` to the callback of the request. A client's
requests go to a server through one direction of a connection, the workers there answer
them in any order, and the responses come back through the other direction. -/
namespace Muti.RemoteCall

open Muti.Bytes Muti.Memory Muti.Resource Muti.Framing Muti.ReadBuffer Muti.Transition Muti.Object Muti.Cluster
  Muti.Server Muti.Client Muti.Reassembly

structure Param where
  service : Service
  server_read_buffer_size : Nat
  client_read_buffer_size : Nat
  heap : Nat → Nat → UInt8

/-- The parsers of the two read callbacks; the worker pool takes every request. -/
def Param.serverNext (param : Param) : Parser Unit UInt8 SRequest Fault :=
  Server.serverNext (serverParam param.service.request_handler param.server_read_buffer_size) true

def Param.requestStep (param : Param) :=
  Pipe.step param.serverNext param.server_read_buffer_size param.heap

def Param.responseStep (param : Param) :=
  Pipe.step clientNext param.client_read_buffer_size param.heap

/-- `calls` are the requests `clientSendRequest` returned true for, by `arg`. `working` lists
the requests the workers have, `answers` what they answered, `dropped` the answers that found
the connection closed; `written` counts the write callbacks of the client that have run, and
`failed` the calls they notified of a failure. -/
structure State where
  sequence : UInt32
  calls : List (List UInt8)
  requests : Pipe.State Unit SRequest Fault
  working : List SRequest
  answers : List (SRequest × List UInt8)
  dropped : List (List UInt8)
  responses : Pipe.State WaitingHashSlots ClientJob Fault
  written : Nat
  failed : List Nat

def onConnect (param : Param) : State where
  sequence := 1022
  calls := []
  requests := Pipe.onConnect param.server_read_buffer_size param.heap ()
  working := []
  answers := []
  dropped := []
  responses := Pipe.onConnect param.client_read_buffer_size param.heap fun _ => []
  written := 0
  failed := []

def State.slots (s : State) : WaitingHashSlots := (Pipe.parser s.responses.reading).getD fun _ => []

def State.relink (s : State) (change : WaitingHashSlots → WaitingHashSlots) : State :=
  { s with responses := s.responses.update change }

/-- Requests and responses are only queued by the calls and the workers. -/
def queues : Pipe.Action → Bool
  | .write (.connWrite _) => true
  | _ => false

inductive Action where
  | call (request : List UInt8)
  | requests (a : Pipe.Action)
  | answer (i : Nat) (response : List UInt8)
  | responses (a : Pipe.Action)
  | writeCallback
  deriving DecidableEq

/-- The request under its new sequence, stored in its slot before it is given to `connWrite`;
where that refuses, it is taken out again. -/
def clientSendRequest (param : Param) (s : State) (request : List UInt8) : Option State :=
  let s := { s with sequence := s.sequence + 1 }
  if s.requests.writer.is_closed then some s
  else (param.service.decoder request).bind fun decoder =>
    (param.requestStep s.requests (.write (.connWrite request))).map fun requests =>
      { s.relink (listAddTail · ⟨s.sequence,decoder,s.calls.length⟩) with requests, calls := s.calls ++ [request] }

def serverDoActionCallback (param : Param) (s : State) (i : Nat) (response : List UInt8) : Option State :=
  s.working[i]?.bind fun req =>
    (param.responseStep s.responses (.write (.connWrite response))).map fun responses =>
      { s with
        responses
        working := s.working.eraseIdx i
        answers := s.answers ++ [(req,response)]
        dropped := if s.responses.writer.is_closed then response :: s.dropped else s.dropped }

def clientWriteCallback (s : State) : Option State :=
  s.requests.writer.callbacks[s.written]?.map fun (number,rc) =>
    let s := { s with written := s.written + 1 }
    let sequence := sequenceOf (s.requests.writer.buffer number)
    match rc, (s.slots (Client.hash sequence)).find? (·.sequence == sequence) with
    | false, some send_arg => { s.relink (unlinked · sequence) with failed := s.failed ++ [send_arg.arg] }
    | _, _ => s

def step (param : Param) (s : State) : Action → Option State
  | .call request => clientSendRequest param s request
  | .requests a =>
    if queues a then none
    else (param.requestStep s.requests a).map fun requests =>
      { s with requests, working := s.working ++ requests.items.drop s.requests.items.length }
  | .answer i response => serverDoActionCallback param s i response
  | .responses a =>
    if queues a then none
    else (param.responseStep s.responses a).map fun responses => { s with responses }
  | .writeCallback => clientWriteCallback s

/-- Calls send requests the buffer of the server has room for, under a sequence that no
request waits with; workers answer each request by a response of its kind under its
sequence, and the client's buffer has room for it. After write(2) has failed in the middle of
a buffer, it sends nothing more. -/
def Allowed (param : Param) (s : State) : Action → Prop
  | .call request => Sent param.service.request_handler request ∧ request.length ≤ param.server_read_buffer_size ∧
      sequenceOf request = s.sequence + 1 ∧ ∀ i, ∀ a ∈ s.slots i, a.sequence ≠ s.sequence + 1
  | .answer i response => ∀ req ∈ s.working[i]?, Replies param.service req.request.bytes response ∧
      response.length ≤ param.client_read_buffer_size
  | .requests (.write w) => SocketWrite.Final s.requests.writer w
  | .responses (.write w) => SocketWrite.Final s.responses.writer w
  | _ => True

def State.refused (s : State) : List Nat := s.requests.writer.refused s.written

def State.asked (s : State) : List (List UInt8) :=
  s.requests.ahead s.refused ++ s.working.map fun req => req.request.bytes

/-- The responses that may still come, or never will because the connection was closed. -/
def State.replied (s : State) : List (List UInt8) := s.responses.ahead [] ++ s.dropped

def State.ended (s : State) : List Nat := s.responses.items.map ClientJob.arg ++ s.failed

/-- A response that was given to a callback is what a worker answered to its own request. -/
def Answered (param : Param) (s : State) (job : ClientJob) : Prop :=
  ∃ x ∈ s.answers, s.calls[job.arg]? = some x.1.request.bytes ∧
    ∃ decoder, param.service.decoder x.1.request.bytes = some decoder ∧
      decodeResponse decoder x.2 = .ok (.message job.response (UInt64.ofNat x.2.length))

/-- A request handed to the workers: with the handler of its resource, under its id, as it
was sent. -/
def Handed (m : Message UInt8 SRequest) : Prop :=
  m.item.req_handler = 0 ∧ m.item.request_id = field16 2 m.encoded ∧ m.item.request.bytes = m.encoded

structure Inv (param : Param) (s : State) : Prop where
  requests : Pipe.Inv param.server_read_buffer_size s.requests
  responses : Pipe.Inv param.client_read_buffer_size s.responses
  placed : SocketWrite.Placed s.requests.writer
  written : s.written ≤ s.requests.writer.callbacks.length
  calls : (s.requests.writer.callers ++ s.requests.writer.queued).Perm s.calls
  sent : ∀ request ∈ s.calls, Sent param.service.request_handler request ∧ request.length ≤ param.server_read_buffer_size
  placed_responses : SocketWrite.Placed s.responses.writer
  served : ∃ front, Pipe.Taken param.server_read_buffer_size s.requests front ∧ ∀ m ∈ front, Handed m
  handed : (s.answers.map Prod.fst ++ s.working).Perm s.requests.items
  replies : ∀ x ∈ s.answers, Replies param.service x.1.request.bytes x.2 ∧ x.2.length ≤ param.client_read_buffer_size
  done : ∃ front, Pipe.Taken param.client_read_buffer_size s.responses front
  jobs : ∀ job ∈ s.responses.items, Answered param s job
  parses : ∃ slots, Pipe.parser s.responses.reading = some slots
  ledger : Ledger param.service s.calls s.answers s.slots s.ended s.asked s.replied

theorem onConnect_inv (param : Param) : Inv param (onConnect param) where
  requests := Pipe.onConnect_inv _ _ ()
  responses := Pipe.onConnect_inv _ _ _
  placed := .refl _
  written := Nat.le_refl _
  calls := .refl _
  sent := by simp [onConnect]
  placed_responses := .refl _
  served := ⟨[],Pipe.onConnect_taken (),by simp⟩
  handed := .refl _
  replies := by simp [onConnect]
  done := ⟨[],Pipe.onConnect_taken _⟩
  jobs := by simp [onConnect,Pipe.onConnect]
  parses := ⟨_,rfl⟩
  ledger := onConnect_ledger

theorem sent_header (sent : Sent request_handler bytes) : 4 ≤ bytes.length := by
  obtain ⟨path,message⟩ := sent_message sent 0
  exact message.header

/-- What waits in a slot carries its own number. -/
theorem slots_relink {s : State} (parses : Pipe.parser s.responses.reading = some slots)
    (change : WaitingHashSlots → WaitingHashSlots) : (s.relink change).slots = change s.slots := by
  simp [State.slots,State.relink,Pipe.parser_update,parses]

theorem Answered.mono {s s' : State} (answered : Answered param s job) (answers : s.answers ⊆ s'.answers)
    (calls : s.calls <+: s'.calls) : Answered param s' job := by
  obtain ⟨x,member,call,rest⟩ := answered
  obtain ⟨more,same⟩ := calls
  refine ⟨x,answers member,?_,rest⟩
  rw [← same,List.getElem?_append_left (List.getElem?_eq_some_iff.mp call).1]
  exact call

theorem call_inv (inv : Inv param s) (allowed : Allowed param s (.call request))
    (taken : clientSendRequest param s request = some s') : Inv param s' := by
  obtain ⟨sent,small,sequence,fresh⟩ := allowed
  simp only [clientSendRequest] at taken
  split at taken
  · cases taken
    exact ⟨inv.requests,inv.responses,inv.placed,inv.written,inv.calls,inv.sent,inv.placed_responses,inv.served,inv.handed,
      inv.replies,inv.done,inv.jobs,inv.parses,inv.ledger⟩
  · rename_i opened
    simp only [Option.bind_eq_some_iff,Option.map_eq_some_iff] at taken
    obtain ⟨decoder,found,requests,moved,rfl⟩ := taken
    have final : ∀ w, Pipe.Action.write (.connWrite request) = .write w → SocketWrite.Final s.requests.writer w := by
      rintro w ⟨⟩
      exact List.ne_nil_of_length_pos (by have header := sent_header sent; omega)
    have kept := Pipe.write_inv inv.requests (final _ rfl) moved
    obtain ⟨front,tk,images⟩ := inv.served
    have tk' := tk.write inv.requests (final _ rfl) moved
    rw [Param.requestStep,Pipe.step_connWrite,if_neg opened,Option.some.injEq] at moved
    subst moved
    obtain ⟨slots,parses⟩ := inv.parses
    obtain ⟨done,tkr⟩ := inv.done
    have calls : (request :: (s.requests.writer.callers ++ s.requests.writer.queued)).Perm (s.calls ++ [request]) :=
      (inv.calls.cons request).trans (List.perm_append_singleton request s.calls).symm
    refine ⟨kept,inv.responses.update _,inv.placed,inv.written,calls,?_,?_,⟨front,tk',images⟩,inv.handed,inv.replies,
      ⟨done,tkr.update _⟩,?_,⟨_,(Pipe.parser_update _ s.responses).trans (congrArg _ parses)⟩,?_⟩
    · intro other member
      rcases List.mem_append.mp member with old | new
      · exact inv.sent other old
      · obtain rfl := List.mem_singleton.mp new
        exact ⟨sent,small⟩
    · rw [State.relink,Pipe.update_writer]
      exact inv.placed_responses
    · intro job member
      rw [State.relink,Pipe.update_items] at member
      exact (inv.jobs job member).mono (List.Subset.refl _) (List.prefix_append ..)
    · rw [← sequence] at fresh
      have ledger := inv.ledger.call fresh found
      rw [sequence] at ledger
      have slots' := slots_relink (s := s) parses (listAddTail · ⟨s.sequence + 1,decoder,s.calls.length⟩)
      rw [← slots'] at ledger
      refine ledger.perm ?_ (.refl _) ?_
      · simp [State.ended,State.relink]
      · simp [State.replied,State.relink]

theorem requests_inv {requests : Pipe.State Unit SRequest Fault} (inv : Inv param s)
    (final : ∀ w, a = .write w → SocketWrite.Final s.requests.writer w) (old : queues a = false)
    (taken : param.requestStep s.requests a = some requests) :
    Inv param { s with requests, working := s.working ++ requests.items.drop s.requests.items.length } := by
  have other : ∀ buf, a ≠ .write (.connWrite buf) := by
    rintro buf rfl
    cases old
  obtain ⟨front,tk,images⟩ := inv.served
  obtain ⟨writes,places⟩ := inv.requests.writer_kept final other taken
  have known : ∀ n ∈ s.refused, n < s.requests.writer.queued.length := fun n => inv.placed.refused_known
  have refused : requests.writer.refused s.written = s.refused := SocketWrite.refused_kept writes.callbacks inv.written
  let s' : State := { s with requests, working := s.working ++ requests.items.drop s.requests.items.length }
  -- whatever was taken, the rest of the account follows
  have onward : (∃ front, Pipe.Taken param.server_read_buffer_size requests front ∧ ∀ m ∈ front, Handed m) →
      ∀ more, requests.items = s.requests.items ++ more →
        (s.requests.ahead s.refused).Perm ((more.map fun req => req.request.bytes) ++ requests.ahead s.refused) →
          Inv param s' := by
    intro served more items ahead
    have later : requests.items.drop s.requests.items.length = more := by rw [items,List.drop_left]
    have working : s'.working = s.working ++ more := congrArg (s.working ++ ·) later
    refine ⟨Pipe.step_inv inv.requests final taken,inv.responses,places inv.placed,?_,writes.asked.trans inv.calls,inv.sent,
      inv.placed_responses,served,?_,inv.replies,inv.done,inv.jobs,inv.parses,?_⟩
    · exact Nat.le_trans inv.written writes.callbacks.length_le
    · rw [working,← List.append_assoc]
      exact (inv.handed.append_right more).trans (.of_eq items.symm)
    · refine inv.ledger.perm (.refl _) ?_ (.refl _)
      change (requests.ahead (requests.writer.refused s.written) ++ s'.working.map _).Perm _
      rw [refused,working,List.map_append]
      refine List.Perm.trans ?_ (ahead.append_right (s.working.map fun req => req.request.bytes)).symm
      rw [List.append_assoc,← List.append_assoc (requests.ahead _)]
      exact List.perm_append_comm
  by_cases callback : a = .callback
  · subst callback
    obtain ⟨n,⟨⟩,rbuf,reading,⟨data,called⟩ | called⟩ := Pipe.callback_cases taken
    · obtain ⟨extra,begun⟩ := inv.requests.writer.begins
      let request : List UInt8 → Message UInt8 SRequest → Prop := fun bytes m =>
        m.encoded = bytes ∧ RequestMessage (serverParam param.service.request_handler param.server_read_buffer_size) m ∧
          Handed m ∧ m.encoded.length ≤ param.server_read_buffer_size
      have each : ∀ buf ∈ s.requests.writer.accepted.drop front.length ++ extra.map s.requests.writer.buffer,
          ∃ m, request buf m := by
        intro buf member
        have queued : buf ∈ s.requests.writer.queued := begun.queued inv.requests.writer
          (((List.drop_sublist _ _).append_right _).subset member)
        obtain ⟨sent,small⟩ := inv.sent buf (inv.calls.subset (List.mem_append_right _ queued))
        obtain ⟨path,message⟩ := sent_message sent param.server_read_buffer_size
        exact ⟨_,rfl,message,⟨rfl,rfl,rfl⟩,small⟩
      obtain ⟨ahead,same,pairs⟩ := tk.messages each fun buf m related => related.1
      have valid : ∀ m ∈ ahead, RequestMessage (serverParam param.service.request_handler param.server_read_buffer_size) m ∧
          Handed m ∧ m.encoded.length ≤ param.server_read_buffer_size := by
        intro m member
        obtain ⟨buf,_,_,message⟩ := Lists.partner_origin pairs member
        exact message
      obtain ⟨more,left,_,_,split,_,tk',writer,_⟩ := tk.callback inv.requests
        (serverNext_serves (serverParam param.service.request_handler param.server_read_buffer_size)) called reading begun
        same (fun m member => (valid m member).1) (fun m member => (valid m member).2.2) taken
      have images' : ∀ m ∈ front ++ more, Handed m := by
        intro m member
        rcases List.mem_append.mp member with old | new
        · exact images m old
        · exact (valid m (by rw [split]; exact List.mem_append_left _ new)).2.1
      refine onward ⟨_,tk',images'⟩ (more.map Message.item) ?_ ?_
      · rw [tk'.items,List.map_append,tk.items]
      · have bytes : (more.map Message.item).map (fun req => req.request.bytes) = more.map Message.encoded := by
          rw [List.map_map]
          exact List.map_congr_left fun m member => (images' m (List.mem_append_right _ member)).2.2
        rw [bytes]
        exact tk.ahead_callback inv.requests tk' writer fun n member => inv.placed.unrefused member
    · obtain ⟨tk',writer,_⟩ := tk.gives_up called reading taken
      have items : requests.items = s.requests.items := tk'.items.trans tk.items.symm
      refine onward ⟨front,tk',images⟩ [] (by rw [items,List.append_nil]) ?_
      rw [Pipe.State.ahead,Pipe.State.ahead,writer,items]
      exact .refl _
  · obtain ⟨tk',items,_,ahead⟩ := tk.goes_on inv.requests final other callback taken
    exact onward ⟨front,tk',images⟩ [] (by rw [items,List.append_nil]) (ahead s.refused known).symm

theorem eraseIdx_perm {items : List α} (here : items[i]? = some a) : items.Perm (a :: items.eraseIdx i) := by
  obtain ⟨inside,rfl⟩ := List.getElem?_eq_some_iff.mp here
  exact (List.getElem_cons_eraseIdx_perm inside).symm

theorem replies_header (replies : Replies service request response) :
    8 ≤ response.length ∧ sequenceOf response = sequenceOf request := by
  obtain ⟨decoder,_,responds⟩ := replies
  obtain ⟨_,_,sequence,header⟩ := responds_framed responds
  exact ⟨header,sequence⟩

theorem answer_inv (inv : Inv param s) (allowed : Allowed param s (.answer i response))
    (taken : serverDoActionCallback param s i response = some s') : Inv param s' := by
  simp only [serverDoActionCallback,Option.bind_eq_some_iff,Option.map_eq_some_iff] at taken
  obtain ⟨req,here,responses,moved,rfl⟩ := taken
  obtain ⟨replies,small⟩ := allowed req here
  obtain ⟨header,sequence⟩ := replies_header replies
  have final : SocketWrite.Final s.responses.writer (.connWrite response) :=
    List.ne_nil_of_length_pos (by omega)
  have kept := Pipe.write_inv inv.responses final moved
  obtain ⟨done,tk⟩ := inv.done
  have tk' := tk.write inv.responses final moved
  rw [Param.responseStep,Pipe.step_connWrite,Option.some.injEq] at moved
  subst moved
  have working := eraseIdx_perm here
  refine ⟨inv.requests,kept,inv.placed,inv.written,inv.calls,inv.sent,?_,inv.served,?_,?_,⟨done,tk'⟩,?_,inv.parses,?_⟩
  · change SocketWrite.Placed (if _ then _ else _)
    split
    · exact inv.placed_responses
    · exact inv.placed_responses
  · refine List.Perm.trans ?_ inv.handed
    rw [List.map_append,List.map_singleton,List.append_assoc]
    exact working.symm.append_left _
  · intro x member
    rcases List.mem_append.mp member with old | new
    · exact inv.replies x old
    · obtain rfl := List.mem_singleton.mp new
      exact ⟨replies,small⟩
  · intro job member
    exact (inv.jobs job member).mono (List.subset_append_left ..) (List.prefix_refl _)
  · have asked : (req.request.bytes :: (s.requests.ahead s.refused ++ (s.working.eraseIdx i).map fun req => req.request.bytes)).Perm
        s.asked := by
      refine List.perm_middle.symm.trans ?_
      exact (working.symm.map fun req => req.request.bytes).append_left _
    have ledger := (inv.ledger.perm (.refl _) asked (.refl _)).answer sequence
    refine ledger.perm (.refl _) (.refl _) ?_
    by_cases closed : s.responses.writer.is_closed = true
    · simp only [State.replied,Pipe.State.ahead,closed,if_true]
      exact List.perm_middle
    · simp only [State.replied,Pipe.State.ahead,if_neg closed]
      exact .refl _

/-- What the client does with a response: the request that waits under its sequence leaves
its slot. -/
theorem clientNext_item (look : clientNext slots buf = .item job len slots') :
    ∃ a ∈ slots (Client.hash (sequenceOf buf)), a.sequence = sequenceOf buf ∧ job.arg = a.arg ∧
      slots' = unlinked slots (sequenceOf buf) := by
  simp only [clientNext] at look
  split at look
  · cases look
  · split at look
    · cases look
    · rename_i send_arg found
      have matched := List.find?_some found
      have same : send_arg.sequence = sequenceOf buf := beq_iff_eq.mp matched
      refine ⟨send_arg,List.mem_of_find?_eq_some found,same,?_⟩
      split at look
      · cases look
      · cases look
      · cases look
        rw [same]
        exact ⟨rfl,rfl⟩

theorem found_perm {p : α → Bool} {items : List α} (found : items.find? p = some a) : (a :: items.eraseP p).Perm items := by
  induction items with
  | nil => cases found
  | cons first items ih =>
    by_cases here : p first
    · rw [List.find?_cons_of_pos here,Option.some.injEq] at found
      rw [List.eraseP_cons_of_pos here,found]
    · rw [List.find?_cons_of_neg here] at found
      rw [List.eraseP_cons_of_neg here]
      exact (List.Perm.swap ..).trans ((ih found).cons first)

/-- A response that is not complete leaves the slots as they were, but for their order. -/
theorem clientNext_more (look : clientNext slots buf = .more slots') (i : Fin 128) : (slots' i).Perm (slots i) := by
  simp only [clientNext] at look
  split at look
  · cases look
    exact .refl _
  · split at look
    · cases look
    · rename_i send_arg found
      have matched := List.find?_some found
      have same : send_arg.sequence = sequenceOf buf := beq_iff_eq.mp matched
      split at look
      · cases look
      · cases look
        by_cases here : i = Client.hash send_arg.sequence
        · subst here
          rw [listAdd,Function.update_self]
          change (send_arg :: (slots (Client.hash (sequenceOf buf))).eraseP (·.sequence == sequenceOf buf)).Perm _
          change (slots (Client.hash (sequenceOf buf))).find? (·.sequence == sequenceOf buf) = some send_arg at found
          rw [same]
          exact found_perm found
        · rw [listAdd,Function.update_of_ne here]
      · cases look

/-- A message for a response under way, which answers the request of its own call. -/
def Response (param : Param) (s : State) (bytes : List UInt8) (m : Message UInt8 ClientJob) : Prop :=
  m.encoded = bytes ∧ (∃ a, Answers s.slots m a) ∧ Answered param s m.item ∧
    m.encoded.length ≤ param.client_read_buffer_size

theorem Inv.response (inv : Inv param s) (member : bytes ∈ s.replied) : ∃ m, Response param s bytes m := by
  obtain ⟨x,inside,rfl,_,a,waits,same,call⟩ := inv.ledger.responded bytes member
  obtain ⟨⟨decoder,found,responds⟩,small⟩ := inv.replies x inside
  obtain ⟨request,here,_,decodes⟩ := inv.ledger.known _ a waits
  rw [call,Option.some.injEq] at here
  subst here
  obtain rfl : decoder = a.decoder := Option.some.inj (found.symm.trans decodes)
  obtain ⟨reply,frames,sequence,header⟩ := responds_framed responds
  have alone := frames.whole []
  rw [List.append_nil] at alone
  refine ⟨⟨x.2,⟨a.arg,reply⟩⟩,rfl,⟨a,?_⟩,⟨x,inside,call,_,found,alone⟩,small⟩
  rw [same.symm] at waits
  exact {
    waiting := waits
    only := fun other member equal => inv.ledger.one member waits equal
    arg := rfl
    frames := frames
    sequence := sequence.trans same.symm
    header := header }

theorem responses_inv {responses : Pipe.State WaitingHashSlots ClientJob Fault} (inv : Inv param s)
    (final : ∀ w, a = .write w → SocketWrite.Final s.responses.writer w) (old : queues a = false)
    (taken : param.responseStep s.responses a = some responses) : Inv param { s with responses } := by
  have other : ∀ buf, a ≠ .write (.connWrite buf) := by
    rintro buf rfl
    cases old
  obtain ⟨front,tk⟩ := inv.done
  have kept := Pipe.step_inv inv.responses final taken
  have places := (inv.responses.writer_kept final other taken).2 inv.placed_responses
  obtain ⟨slots,parses⟩ := inv.parses
  -- nothing was taken
  have still : Pipe.Taken param.client_read_buffer_size responses front → Pipe.parser responses.reading =
      Pipe.parser s.responses.reading → (responses.ahead []).Perm (s.responses.ahead []) → Inv param { s with responses } := by
    intro tk' parser ahead
    have items : responses.items = s.responses.items := tk'.items.trans tk.items.symm
    refine ⟨inv.requests,kept,inv.placed,inv.written,inv.calls,inv.sent,places,inv.served,inv.handed,inv.replies,
      ⟨front,tk'⟩,?_,⟨slots,parser.trans parses⟩,?_⟩
    · intro job member
      rw [items] at member
      exact inv.jobs job member
    · have ledger := inv.ledger.perm (.refl _) (.refl _) (ahead.append_right s.dropped)
      simp only [State.slots,State.ended,parser,items]
      exact ledger
  by_cases callback : a = .callback
  · subst callback
    obtain ⟨n,slots',rbuf,reading,⟨data,called⟩ | called⟩ := Pipe.callback_cases taken
    · obtain rfl : slots' = s.slots := by simp [State.slots,reading,Pipe.parser]
      obtain ⟨extra,begun⟩ := inv.responses.writer.begins
      obtain ⟨others,ahead⟩ := tk.ahead_begun inv.responses begun
      have each : ∀ buf ∈ s.responses.writer.accepted.drop front.length ++ extra.map s.responses.writer.buffer,
          ∃ m, Response param s buf m := by
        intro buf member
        exact inv.response (List.mem_append_left _ (ahead.symm.subset (List.mem_append_left _ member)))
      obtain ⟨messages,same,pairs⟩ := tk.messages each fun buf m related => related.1
      have valid : ∀ m ∈ messages, (∃ a, Answers s.slots m a) ∧ Answered param s m.item ∧
          m.encoded.length ≤ param.client_read_buffer_size := by
        intro m member
        obtain ⟨buf,_,_,message⟩ := Lists.partner_origin pairs member
        exact message
      have images : s.responses.writer.accepted.drop front.length ++ extra.map s.responses.writer.buffer =
          messages.map Message.encoded := by
        have equal := Lists.partners_map id Message.encoded pairs fun buf m related => related.1.symm
        rwa [List.map_id] at equal
      rw [images] at ahead
      have replied : s.replied.Perm (messages.map Message.encoded ++ (others ++ s.dropped)) := by
        rw [← List.append_assoc]
        exact ahead.append_right _
      have ledger := inv.ledger.perm (.refl _) (.refl _) replied.symm
      -- the messages taken so far and the account after them
      let keep : WaitingHashSlots → List (Message UInt8 ClientJob) → Prop := fun slots left =>
        ∃ taken, messages = taken ++ left ∧ Ledger param.service s.calls s.answers slots
          (s.ended ++ taken.map fun m => m.item.arg) s.asked (left.map Message.encoded ++ (others ++ s.dropped))
      have start : keep s.slots messages := ⟨[],rfl,by simpa using ledger⟩
      have awaits : Awaits s.slots messages := by
        refine ⟨fun m member => (valid m member).1,?_⟩
        have distinct := ledger.distinct
        rw [List.map_append,List.map_append] at distinct
        have mine := (List.nodup_append.mp (List.nodup_append.mp distinct).2.1).1
        rwa [List.map_map] at mine
      have serves := clientNext_serves.keeping keep
        (by
          rintro slots m left back slots' ⟨before,split,account⟩ look
          have header : 8 ≤ m.encoded.length := by
            obtain ⟨⟨a,answers⟩,_⟩ := valid m (by simp [split])
            exact answers.header
          obtain ⟨a,waits,sequence,arg,rfl⟩ := clientNext_item look
          have mine : sequenceOf (m.encoded ++ back) = sequenceOf m.encoded :=
            congrArg Response.sequence (responseAt_append m.encoded back header)
          rw [mine] at waits sequence ⊢
          have settled := account.settle waits sequence (List.Subset.refl _)
            (List.subset_cons_of_subset _ (List.Subset.refl _)) List.perm_middle
          refine ⟨before ++ [m],by simp [split],?_⟩
          simpa [arg] using settled)
        (by
          rintro slots left unread slots' ⟨before,split,account⟩ look
          exact ⟨before,split,account.relink (clientNext_more look)⟩)
      obtain ⟨more,left,slots',rbuf',split,⟨_,before,split',account⟩,tk',writer,reading'⟩ :=
        tk.callback inv.responses serves called reading begun same ⟨awaits,start⟩
          (fun m member => (valid m member).2.2) taken
      obtain rfl : before = more := List.append_cancel_right (split'.symm.trans split)
      have items : responses.items = s.responses.items ++ before.map Message.item := by
        rw [tk'.items,List.map_append,tk.items]
      have rest : (responses.ahead []).Perm (left.map Message.encoded ++ others) := by
        have later : (s.responses.ahead []).Perm (before.map Message.encoded ++ responses.ahead []) :=
          tk.ahead_callback inv.responses tk' writer (by simp)
        rw [split,List.map_append,List.append_assoc] at ahead
        exact (List.perm_append_left_iff _).mp (later.symm.trans ahead)
      refine ⟨inv.requests,kept,inv.placed,inv.written,inv.calls,inv.sent,places,inv.served,inv.handed,inv.replies,⟨_,tk'⟩,?_,
        ⟨slots',by simp [reading',Pipe.parser]⟩,?_⟩
      · intro job member
        change job ∈ responses.items at member
        rw [items] at member
        rcases List.mem_append.mp member with old | new
        · exact inv.jobs job old
        · obtain ⟨m,inside,rfl⟩ := List.mem_map.mp new
          exact (valid m (by rw [split]; exact List.mem_append_left _ inside)).2.1
      · have slots_now : State.slots { s with responses } = slots' := by simp [State.slots,reading',Pipe.parser]
        rw [slots_now]
        refine account.perm ?_ (.refl _) ?_
        · simp only [State.ended,items,List.map_append,List.map_map,List.append_assoc]
          exact List.perm_append_comm.append_left _
        · simp only [State.replied]
          rw [← List.append_assoc]
          exact rest.append_right _
    · obtain ⟨tk',writer,reading'⟩ := tk.gives_up called reading taken
      have items : responses.items = s.responses.items := tk'.items.trans tk.items.symm
      refine still tk' (by simp [reading,reading',Pipe.parser]) ?_
      rw [Pipe.State.ahead,Pipe.State.ahead,writer,items]
  · obtain ⟨tk',_,parser,ahead⟩ := tk.goes_on inv.responses final other callback taken
    exact still tk' parser (ahead [] (by simp))

theorem writeCallback_inv (inv : Inv param s) (taken : clientWriteCallback s = some s') : Inv param s' := by
  simp only [clientWriteCallback,Option.map_eq_some_iff] at taken
  obtain ⟨⟨number,rc⟩,called,result⟩ := taken
  have past := (List.getElem?_eq_some_iff.mp called).1
  have refused := SocketWrite.refused_next called
  cases rc with
  | true =>
    subst result
    refine ⟨inv.requests,inv.responses,inv.placed,past,inv.calls,inv.sent,inv.placed_responses,inv.served,inv.handed,
      inv.replies,inv.done,inv.jobs,inv.parses,?_⟩
    have same : State.refused { s with written := s.written + 1 } = s.refused := by
      change s.requests.writer.refused (s.written + 1) = _
      rw [refused,if_pos rfl,List.append_nil]
      rfl
    have asked : State.asked { s with written := s.written + 1 } = s.asked := by
      simp only [State.asked,same]
    change Ledger _ _ _ _ _ (State.asked { s with written := s.written + 1 }) _
    rw [asked]
    exact inv.ledger
  | false =>
    rw [if_neg Bool.false_ne_true] at refused
    have mine : number ∈ s.requests.writer.refused (s.written + 1) := by simp [refused]
    let taken := s.requests.writer.sent.take s.requests.items.length
    have ahead : (s.requests.ahead s.refused).Perm (s.requests.writer.buffer number ::
        s.requests.ahead (s.requests.writer.refused (s.written + 1))) := by
      have leaves : (s.requests.ahead s.refused).Perm ([number].map s.requests.writer.buffer ++
          s.requests.writer.ahead (s.refused ++ taken ++ [number])) := by
        refine SocketWrite.ahead_take (List.nodup_singleton number) fun n member => ?_
        obtain rfl := List.mem_singleton.mp member
        refine ⟨inv.placed.called_known (List.mem_of_getElem? called),?_⟩
        rw [List.mem_append,not_or]
        exact ⟨inv.placed.unrefused_before called,fun sent => inv.placed.unrefused (List.mem_of_mem_take sent) mine⟩
      have order : s.requests.writer.ahead (s.refused ++ taken ++ [number]) =
          s.requests.ahead (s.requests.writer.refused (s.written + 1)) := by
        apply SocketWrite.ahead_congr
        intro n
        rw [refused]
        simp only [List.mem_append]
        exact or_right_comm
      rwa [order] at leaves
    have ledger := inv.ledger.perm (.refl _) (ahead.append_right (s.working.map fun req => req.request.bytes)).symm (.refl _)
    obtain ⟨a,waits,sequence,_⟩ := ledger.requested _ List.mem_cons_self
    have found : (s.slots (Client.hash (sequenceOf (s.requests.writer.buffer number)))).find?
        (·.sequence == sequenceOf (s.requests.writer.buffer number)) = some a := by
      cases looked : (s.slots (Client.hash (sequenceOf (s.requests.writer.buffer number)))).find?
          (·.sequence == sequenceOf (s.requests.writer.buffer number)) with
      | none =>
        have missed := List.find?_eq_none.mp looked a waits
        simp [sequence] at missed
      | some other =>
        have matched := List.find?_some looked
        have equal : other.sequence = a.sequence := (beq_iff_eq.mp matched).trans sequence.symm
        rw [ledger.one (List.mem_of_find?_eq_some looked) waits equal]
    have settled := ledger.settle waits sequence (List.subset_cons_self _ _) (List.Subset.refl _) (.refl _)
    have result : { State.relink { s with written := s.written + 1 } (unlinked · (sequenceOf (s.requests.writer.buffer number)))
        with failed := s.failed ++ [a.arg] } = s' := by
      rw [← result]
      simp only
      change _ = match false, (s.slots _).find? _ with
        | false, some send_arg => _
        | _, _ => _
      rw [found]
    subst result
    obtain ⟨slots,parses⟩ := inv.parses
    obtain ⟨done,tkr⟩ := inv.done
    refine ⟨inv.requests,inv.responses.update _,inv.placed,past,inv.calls,inv.sent,?_,inv.served,inv.handed,inv.replies,
      ⟨done,tkr.update _⟩,?_,⟨_,(Pipe.parser_update _ s.responses).trans (congrArg _ parses)⟩,?_⟩
    · rw [State.relink,Pipe.update_writer]
      exact inv.placed_responses
    · intro job member
      rw [State.relink,Pipe.update_items] at member
      exact inv.jobs job member
    · have slots' := slots_relink (s := s) parses (unlinked · (sequenceOf (s.requests.writer.buffer number)))
      rw [← slots'] at settled
      refine settled.perm ?_ (.refl _) ?_
      · simp [State.ended,State.relink]
      · simp [State.replied,State.relink]

theorem step_inv (inv : Inv param s) (allowed : Allowed param s a) (taken : step param s a = some s') : Inv param s' := by
  cases a with
  | call request => exact call_inv inv allowed taken
  | answer i response => exact answer_inv inv allowed taken
  | writeCallback => exact writeCallback_inv inv taken
  | requests a =>
    simp only [step] at taken
    split at taken
    · cases taken
    · rename_i old
      obtain ⟨requests,moved,rfl⟩ := Option.map_eq_some_iff.mp taken
      refine requests_inv inv ?_ (by simpa using old) moved
      rintro w rfl
      exact allowed
  | responses a =>
    simp only [step] at taken
    split at taken
    · cases taken
    · rename_i old
      obtain ⟨responses,moved,rfl⟩ := Option.map_eq_some_iff.mp taken
      refine responses_inv inv ?_ (by simpa using old) moved
      rintro w rfl
      exact allowed

theorem reachable_inv (reachable : Reachable (step param) (Allowed param) (onConnect param) s) : Inv param s :=
  reachable.invariant (onConnect_inv param) fun _ _ _ inv allowed taken => step_inv inv allowed taken

/-- Nothing is under way: both directions have settled, no write waits, no worker has a
request, every callback of the client has run, and no response was given up. -/
structure Quiet (s : State) : Prop where
  requests : Pipe.Settled s.requests
  responses : Pipe.Settled s.responses
  asked : s.requests.writer.callers = [] ∧ s.requests.writer.items = []
  answered : s.responses.writer.callers = [] ∧ s.responses.writer.items = []
  working : s.working = []
  notified : s.written = s.requests.writer.callbacks.length
  accepted : ∀ callback ∈ s.responses.writer.callbacks, callback.2 = true
  dropped : s.dropped = []

theorem permitted_append {σ α : Type} {step : σ → α → Option σ} {allowed : σ → α → Prop} {s : σ} {front back : List α}
    (first : Permitted step allowed s front) (later : ∀ s', execute step s front = some s' → Permitted step allowed s' back) :
    Permitted step allowed s (front ++ back) := by
  induction front generalizing s with
  | nil => exact later s rfl
  | cons a front ih =>
    obtain ⟨here,rest⟩ := first
    refine ⟨here,fun s' taken => ih (rest s' taken) fun s'' run => later s'' ?_⟩
    rw [execute,Option.mem_def.mp taken]
    exact run

def Plain (s : State) : Action → Prop
  | .requests (.write w) => SocketWrite.Final s.requests.writer w
  | .responses (.write w) => SocketWrite.Final s.responses.writer w
  | .requests (.read _) | .requests .callback | .responses (.read _) | .responses .callback | .writeCallback => True
  | .call _ | .answer .. => False

instance (s : State) : (a : Action) → Decidable (Plain s a)
  | .requests (.write w) => inferInstanceAs (Decidable (SocketWrite.Final s.requests.writer w))
  | .responses (.write w) => inferInstanceAs (Decidable (SocketWrite.Final s.responses.writer w))
  | .requests (.read _) | .requests .callback | .responses (.read _) | .responses .callback | .writeCallback =>
    inferInstanceAs (Decidable True)
  | .call _ | .answer .. => inferInstanceAs (Decidable False)

theorem plain_permitted {param : Param} {s : State} {actions : List Action}
    (plain : Permitted (step param) Plain s actions) : Permitted (step param) (Allowed param) s actions := by
  induction actions generalizing s with
  | nil => trivial
  | cons a actions ih =>
    obtain ⟨here,later⟩ := plain
    refine ⟨?_,fun s' taken => ih (later s' taken)⟩
    match a with
    | .requests (.write w) | .responses (.write w) => exact here
    | .requests (.read _) | .requests .callback | .responses (.read _) | .responses .callback | .writeCallback => trivial

/-- One buffer of eight bytes, queued, sent, read and given to the callback. -/
def carries (direction : Pipe.Action → Action) (bytes : List UInt8) : List Action :=
  [.write (.listAddTail bytes),.write .take,.write .testClosed,.write (.write (.returned 8)),.write .leave,
    .read (.connRead 8),.read (.listAddTail 8),.read .take,.read .testClosed,.read (.read (.returned bytes)),.read .leave,
    .callback].map direction

def stopRequest : List UInt8 := [0,0,8,0,255,3,0,0]

def stopResponse : List UInt8 := [0,0,0,0,255,3,0,0]

def eightBytes : Param := ⟨.mon,8,8,fun _ _ => 0⟩

def asksToStop : List Action := .call stopRequest :: carries .requests stopRequest

def stops : List Action := carries .responses stopResponse ++ [.writeCallback]

theorem stop_permitted : Permitted (step eightBytes) (Allowed eightBytes) (onConnect eightBytes)
    (asksToStop ++ .answer 0 stopResponse :: stops) := by
  refine permitted_append ⟨?_,?_⟩ ?_
  · exact ⟨.cluster (.stop ⟨⟨0,8,1023⟩⟩) ⟨rfl,rfl⟩ rfl,by decide,by decide,
      by simp [State.slots,onConnect,Pipe.onConnect,Pipe.parser]⟩
  · intro s taken
    cases taken
    exact plain_permitted (by decide +kernel)
  · intro s run
    refine ⟨?_,?_⟩
    · intro req here
      have bytes : ((execute (step eightBytes) (onConnect eightBytes) asksToStop).map fun s =>
          s.working[0]?.map fun req => req.request.bytes) = some (some stopRequest) := by decide +kernel
      rw [run,Option.map_some,Option.mem_def.mp here,Option.map_some,Option.some.injEq,Option.some.injEq] at bytes
      rw [bytes]
      exact ⟨⟨_,rfl,.cluster (.stop ⟨⟨0,1023⟩⟩) (fun _ => trivial) rfl rfl⟩,by decide⟩
    · intro s' taken
      apply plain_permitted
      cases run
      cases taken
      decide +kernel

/-- The first call asks the monitor to stop, and gets its answer. -/
theorem stop_called : ∃ s, Reachable (step eightBytes) (Allowed eightBytes) (onConnect eightBytes) s ∧
    s.calls = [stopRequest] ∧ s.ended = [0] ∧ Quiet s := by
  refine ⟨_,Reachable.start.execute _ stop_permitted rfl,rfl,rfl,⟨?_,?_,⟨rfl,rfl⟩,⟨rfl,rfl⟩,rfl,rfl,?_,rfl⟩⟩
  · exact ⟨rfl,rfl,rfl,rfl,_,_,rfl⟩
  · exact ⟨rfl,rfl,rfl,rfl,_,_,rfl⟩
  · decide +kernel

/-- The workers get the requests the client's kernel has accepted, each once and in the order
of the queue, with their handler, their id and their bytes, and answer each at most once. -/
theorem requests_in_order (reachable : Reachable (step param) (Allowed param) (onConnect param) s) :
    (s.requests.items.map fun req => (req.req_handler,req.request_id,req.request.bytes)) <+:
        (s.requests.writer.accepted.map fun bytes => (0,field16 2 bytes,bytes)) ∧
      (Pipe.Settled s.requests → s.requests.items.length = s.requests.writer.accepted.length) ∧
      (s.answers.map Prod.fst ++ s.working).Perm s.requests.items := by
  have inv := reachable_inv reachable
  obtain ⟨front,tk,handed⟩ := inv.served
  refine ⟨?_,fun settled => ?_,inv.handed⟩
  · have items : s.requests.items.map (fun req => (req.req_handler,req.request_id,req.request.bytes)) =
        (front.map Message.encoded).map fun bytes => (0,field16 2 bytes,bytes) := by
      rw [tk.items,List.map_map,List.map_map]
      apply List.map_congr_left
      intro m member
      obtain ⟨handler,id,bytes⟩ := handed m member
      exact Prod.ext handler (Prod.ext id bytes)
    rw [items]
    exact tk.accepted.map _
  · rw [tk.items,← tk.all inv.requests settled,List.length_map,List.length_map]

theorem requests_in_order_stop : ∃ s : State, s.calls = [stopRequest] ∧
    (s.requests.items.map fun req => (req.req_handler,req.request_id,req.request.bytes)) <+:
        (s.requests.writer.accepted.map fun bytes => (0,field16 2 bytes,bytes)) ∧
      (Pipe.Settled s.requests → s.requests.items.length = s.requests.writer.accepted.length) ∧
      (s.answers.map Prod.fst ++ s.working).Perm s.requests.items := by
  obtain ⟨s,reachable,calls,_,_⟩ := stop_called
  exact ⟨s,calls,requests_in_order reachable⟩

/-- No callback runs twice, and a response is given to the callback of the request it was made
for: a worker answered that request, once, and the response is what its decoder makes of the
answer. -/
theorem remote_calls (reachable : Reachable (step param) (Allowed param) (onConnect param) s) :
    s.ended.Nodup ∧ (∀ arg ∈ s.ended, arg < s.calls.length) ∧ (∀ job ∈ s.responses.items, Answered param s job) ∧
      (s.answers.map fun x => x.1.request.bytes).Subperm s.calls := by
  have inv := reachable_inv reachable
  refine ⟨inv.ledger.once,fun arg member => (inv.ledger.every arg).mpr (.inl member),inv.jobs,?_⟩
  obtain ⟨front,tk,handed⟩ := inv.served
  have bytes : s.requests.items.map (fun req => req.request.bytes) = front.map Message.encoded := by
    rw [tk.items,List.map_map]
    exact List.map_congr_left fun m member => (handed m member).2.2
  have answered : (s.answers.map fun x => x.1.request.bytes).Subperm (s.requests.items.map fun req => req.request.bytes) := by
    have images := inv.handed.map fun req => req.request.bytes
    rw [List.map_append,List.map_map] at images
    exact (List.sublist_append_left ..).subperm.trans images.subperm
  have queued := SocketWrite.accepted_subperm inv.requests.writer
  have called := (List.sublist_append_right s.requests.writer.callers s.requests.writer.queued).subperm.trans inv.calls.subperm
  rw [bytes] at answered
  exact answered.trans (tk.accepted.sublist.subperm.trans (queued.trans called))

theorem remote_calls_stop : ∃ s : State, s.calls = [stopRequest] ∧ s.ended = [0] ∧ s.ended.Nodup ∧
    (∀ arg ∈ s.ended, arg < s.calls.length) ∧ (∀ job ∈ s.responses.items, Answered eightBytes s job) ∧
      (s.answers.map fun x => x.1.request.bytes).Subperm s.calls := by
  obtain ⟨s,reachable,calls,ended,_⟩ := stop_called
  exact ⟨s,calls,ended,remote_calls reachable⟩

end Muti.RemoteCall
