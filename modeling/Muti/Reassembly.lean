import Muti.Client
import Muti.Server

/-! Reassembly of both streams: however the bytes are split into reads, the server hands
out exactly the requests sent and the client exactly the responses, each once and in
order, and no byte is left over. -/
namespace Muti.Reassembly

open Muti.Bytes Muti.Memory Muti.Resource Muti.Framing Muti.ReadBuffer Muti.Agreement Muti.Object Muti.Cluster
  Muti.Server Muti.Client

/-- The bytes of a response the server sends to the request that `decoder` belongs to. -/
inductive Responds (decoder : Decoder Reply) : UInt32 → List UInt8 → Prop where
  | cluster (resp : ClusterResponse) (fits : resp.super.error_id = 0 → clusterFits resp)
      (kind : clusterResponseDecoder[resp.id]? = some decoder)
      (encoded : encodeResponse ClusterResponse.super clusterResponseEncoder resp = .ok bytes) :
      Responds decoder resp.super.sequence bytes
  | object (resp : ObjectResponse) (fits : resp.super.error_id = 0 → objectFits resp)
      (kind : objectResponseDecoder[resp.id]? = some decoder)
      (encoded : encodeResponse ObjectResponse.super objectResponseEncoder resp = .ok bytes) :
      Responds decoder resp.super.sequence bytes

/-- A response on the wire, and the waiting request it is meant for. -/
structure Exchange where
  send_arg : ClientSendArg
  bytes : List UInt8

/-- `send_arg` waits in its slot, and is the only request there with its sequence. -/
def Waiting (slots : WaitingHashSlots) (send_arg : ClientSendArg) : Prop :=
  send_arg ∈ slots (hash send_arg.sequence) ∧
    ∀ other ∈ slots (hash send_arg.sequence), other.sequence = send_arg.sequence → other = send_arg

theorem responds_framed {sequence : UInt32} (responds : Responds decoder sequence bytes) :
    ∃ reply, Frames (decodeResponse decoder) bytes reply ∧ (responseAt bytes).sequence = sequence ∧
      8 ≤ bytes.length := by
  cases responds with
  | cluster resp fits kind encoded =>
    obtain ⟨bytes',reply,decoder',encoded',kind',frames,back,split⟩ := cluster_response_framed resp fits
    obtain rfl : bytes' = bytes := Except.ok.inj (encoded'.symm.trans encoded)
    obtain rfl : decoder' = decoder := Option.some.inj (kind'.symm.trans kind)
    exact ⟨reply,frames,by rw [split,responseAt_image],by simp [split]⟩
  | object resp fits kind encoded =>
    obtain ⟨bytes',reply,decoder',encoded',kind',frames,back,split⟩ := object_response_framed resp fits
    obtain rfl : bytes' = bytes := Except.ok.inj (encoded'.symm.trans encoded)
    obtain rfl : decoder' = decoder := Option.some.inj (kind'.symm.trans kind)
    exact ⟨reply,frames,by rw [split,responseAt_image],by simp [split]⟩

theorem no_chunk {next : Parser σ UInt8 α ε}
    (chunked : Chunked next 0 heap n (.reading s rbuf) chunks) : chunks = [] := by
  cases chunks with
  | nil => rfl
  | cons chunk chunks =>
    obtain ⟨⟨some_bytes,fits⟩,_⟩ := chunked
    have none_ : chunk.length = 0 := by omega
    exact absurd (List.length_eq_zero_iff.mp none_) some_bytes

/-- Reassembly for any parser that serves the messages. -/
theorem receive_whole {next : Parser σ UInt8 α ε} {ready : σ → List (Message UInt8 α) → Prop}
    (serves : Serves next ready) (heap : Nat → UInt8) (heaps : Nat → Nat → UInt8) (start : ready s messages)
    (sizes : ∀ m ∈ messages, m.encoded.length ≤ read_buffer_size)
    (chunked : Chunked next read_buffer_size heaps 0 (startReading heap read_buffer_size s) chunks)
    (bytes : chunks.flatten = stream messages) :
    ∃ s' rbuf, receive next read_buffer_size heaps 0 (startReading heap read_buffer_size s) chunks =
        (messages.map Message.item,.reading s' rbuf) ∧ unread rbuf 0 = [] := by
  by_cases room : read_buffer_size = 0
  · subst room
    obtain rfl := no_chunk chunked
    cases messages with
    | nil => exact ⟨s,_,rfl,by simp [unread,createReadBuffer]⟩
    | cons m messages =>
      have empty : m.encoded = [] := List.length_eq_zero_iff.mp (Nat.le_zero.mp (sizes m List.mem_cons_self))
      exact absurd empty (serves.nonempty s m messages start)
  · have keeps : Keeps read_buffer_size (createReadBuffer heap read_buffer_size) [] :=
      ⟨by simp [createReadBuffer],by simp [createReadBuffer]; omega,rfl,rfl⟩
    have begun : Begins ([] : List UInt8) messages := by
      cases messages with
      | nil => rfl
      | cons m messages => exact ⟨List.nil_prefix,(serves.nonempty s m messages start).symm⟩
    obtain ⟨taken,left,s',rbuf',rest,split,sum,kept,begun',keeps',run⟩ :=
      receive_stream heaps 0 serves start sizes keeps chunked begun (by simp [bytes])
    rw [List.nil_append,bytes,split,stream_append] at sum
    have tail := List.append_cancel_left sum
    cases left with
    | nil =>
      obtain rfl : rest = [] := begun'
      refine ⟨s',rbuf',by simpa [split,startReading] using run,?_⟩
      have order := keeps'.order
      simp [unread,← order]
    | cons m left =>
      have shorter := Lists.proper_prefix_length begun'.1 begun'.2
      have lengths := congrArg List.length tail
      simp only [stream,List.flatMap_cons,List.length_append] at lengths
      omega

theorem server_reassembly (request_handler : List RequestHandler) (read_buffer_size : Nat) (heap : Nat → UInt8)
    (heaps : Nat → Nat → UInt8) (messages : List (List UInt8)) (sent : ∀ bytes ∈ messages, Sent request_handler bytes)
    (sizes : ∀ bytes ∈ messages, bytes.length ≤ read_buffer_size)
    (chunked : Chunked (serverNext (serverParam request_handler read_buffer_size) true) read_buffer_size heaps 0
      (startReading heap read_buffer_size ()) chunks)
    (bytes : chunks.flatten = messages.flatten) :
    ∃ reqs rbuf, receive (serverNext (serverParam request_handler read_buffer_size) true) read_buffer_size heaps 0
        (startReading heap read_buffer_size ()) chunks = (reqs,.reading () rbuf) ∧ unread rbuf 0 = [] ∧
      reqs.map (fun req => (req.req_handler,req.request_id,req.request.bytes)) =
        messages.map fun bytes => (0,field16 2 bytes,bytes) := by
  let param := serverParam request_handler read_buffer_size
  let Wired := fun (bytes : List UInt8) (m : Message UInt8 SRequest) => m.encoded = bytes ∧ RequestMessage param m ∧
    (0,field16 2 bytes,bytes) = (m.item.req_handler,m.item.request_id,m.item.request.bytes)
  obtain ⟨wire,pairs⟩ := Lists.exists_partners Wired messages fun bytes member => by
    obtain ⟨path,valid⟩ := sent_message (sent bytes member) read_buffer_size
    exact ⟨_,rfl,valid,rfl⟩
  have encoded : messages.flatten = stream wire := by
    have images := Lists.partners_map id Message.encoded pairs fun bytes m wired => wired.1.symm
    rw [List.map_id] at images
    rw [images,stream,List.flatMap_def]
  have valid : ∀ m ∈ wire, RequestMessage param m := by
    intro m member
    obtain ⟨_,_,_,valid,_⟩ := Lists.partner_origin pairs member
    exact valid
  have small : ∀ m ∈ wire, m.encoded.length ≤ read_buffer_size := by
    intro m member
    obtain ⟨bytes,inside,same,_⟩ := Lists.partner_origin pairs member
    rw [same]
    exact sizes bytes inside
  obtain ⟨_,rbuf,run,nothing⟩ := receive_whole (serverNext_serves param) heap heaps valid small chunked
    (bytes.trans encoded)
  refine ⟨_,rbuf,run,nothing,?_⟩
  rw [List.map_map]
  exact (Lists.partners_map _ _ pairs fun bytes m wired => wired.2.2).symm

def Wired (slots : WaitingHashSlots) (x : Exchange) (m : Message UInt8 ClientJob) : Prop :=
  m.encoded = x.bytes ∧ (responseAt m.encoded).sequence = x.send_arg.sequence ∧ Answers slots m x.send_arg

theorem exchanges_wired (slots : WaitingHashSlots) (exchanges : List Exchange)
    (framed : ∀ x ∈ exchanges, ∃ reply, Frames (decodeResponse x.send_arg.decoder) x.bytes reply ∧
      (responseAt x.bytes).sequence = x.send_arg.sequence ∧ 8 ≤ x.bytes.length)
    (waiting : ∀ x ∈ exchanges, Waiting slots x.send_arg) :
    ∃ wire, List.Forall₂ (Wired slots) exchanges wire := by
  apply Lists.exists_partners (Wired slots) exchanges
  intro x member
  obtain ⟨reply,frames,sequence,header⟩ := framed x member
  obtain ⟨here,only⟩ := waiting x member
  exact ⟨⟨x.bytes,⟨x.send_arg.arg,reply⟩⟩,rfl,sequence,here,only,rfl,frames,sequence,header⟩

theorem wired_stream (pairs : List.Forall₂ (Wired slots) exchanges wire) :
    exchanges.flatMap Exchange.bytes = stream wire := by
  have images := Lists.partners_map Exchange.bytes Message.encoded pairs fun x m wired => wired.1.symm
  rw [List.flatMap_def,images,stream,List.flatMap_def]

theorem wired_awaits (pairs : List.Forall₂ (Wired slots) exchanges wire)
    (distinct : (exchanges.map fun x => x.send_arg.sequence).Nodup) : Awaits slots wire := by
  constructor
  · intro m member
    obtain ⟨x,_,_,_,answers⟩ := Lists.partner_origin pairs member
    exact ⟨x.send_arg,answers⟩
  · have sequences := Lists.partners_map (fun x => x.send_arg.sequence)
      (fun m => (responseAt m.encoded).sequence) pairs fun x m wired => wired.2.1.symm
    rwa [sequences] at distinct

/-- A job is what the decoder of its request makes of the response's own bytes. -/
def Handed (x : Exchange) (job : ClientJob) : Prop :=
  job.arg = x.send_arg.arg ∧ decodeResponse x.send_arg.decoder x.bytes =
    .ok (.message job.response (UInt64.ofNat x.bytes.length))

theorem wired_jobs (pairs : List.Forall₂ (Wired slots) exchanges wire) :
    List.Forall₂ Handed exchanges (wire.map Message.item) := by
  rw [List.forall₂_map_right_iff]
  apply pairs.imp
  rintro x m ⟨same,_,answers⟩
  have alone := answers.frames.whole []
  rw [List.append_nil,same] at alone
  exact ⟨answers.arg,alone⟩

theorem client_reassembly (slots : WaitingHashSlots) (read_buffer_size : Nat) (heap : Nat → UInt8)
    (heaps : Nat → Nat → UInt8) (exchanges : List Exchange)
    (responds : ∀ x ∈ exchanges, Responds x.send_arg.decoder x.send_arg.sequence x.bytes)
    (waiting : ∀ x ∈ exchanges, Waiting slots x.send_arg)
    (distinct : (exchanges.map fun x => x.send_arg.sequence).Nodup)
    (sizes : ∀ x ∈ exchanges, x.bytes.length ≤ read_buffer_size)
    (chunked : Chunked clientNext read_buffer_size heaps 0 (startReading heap read_buffer_size slots) chunks)
    (bytes : chunks.flatten = exchanges.flatMap Exchange.bytes) :
    ∃ jobs slots' rbuf, receive clientNext read_buffer_size heaps 0 (startReading heap read_buffer_size slots) chunks =
        (jobs,.reading slots' rbuf) ∧ unread rbuf 0 = [] ∧
      List.Forall₂ Handed exchanges jobs := by
  obtain ⟨wire,pairs⟩ := exchanges_wired slots exchanges (fun x member => responds_framed (responds x member)) waiting
  have small : ∀ m ∈ wire, m.encoded.length ≤ read_buffer_size := by
    intro m member
    obtain ⟨x,inside,same,_⟩ := Lists.partner_origin pairs member
    rw [same]
    exact sizes x inside
  obtain ⟨slots',rbuf,run,nothing⟩ := receive_whole clientNext_serves heap heaps (wired_awaits pairs distinct) small
    chunked (bytes.trans (wired_stream pairs))
  exact ⟨_,slots',rbuf,run,nothing,wired_jobs pairs⟩

/-- Both directions: the split into reads does not show in what is handed out. -/
theorem reassembly_of_both_streams :
    (∀ request_handler read_buffer_size heap heaps (messages chunks : List (List UInt8)),
      (∀ bytes ∈ messages, Sent request_handler bytes) →
      (∀ bytes ∈ messages, bytes.length ≤ read_buffer_size) →
      Chunked (serverNext (serverParam request_handler read_buffer_size) true) read_buffer_size heaps 0
        (startReading heap read_buffer_size ()) chunks →
      chunks.flatten = messages.flatten →
      ∃ reqs rbuf, receive (serverNext (serverParam request_handler read_buffer_size) true) read_buffer_size heaps 0
          (startReading heap read_buffer_size ()) chunks = (reqs,.reading () rbuf) ∧ unread rbuf 0 = [] ∧
        reqs.map (fun req => (req.req_handler,req.request_id,req.request.bytes)) =
          messages.map fun bytes => (0,field16 2 bytes,bytes)) ∧
    (∀ slots read_buffer_size heap heaps (exchanges : List Exchange) (chunks : List (List UInt8)),
      (∀ x ∈ exchanges, Responds x.send_arg.decoder x.send_arg.sequence x.bytes) →
      (∀ x ∈ exchanges, Waiting slots x.send_arg) →
      (exchanges.map fun x => x.send_arg.sequence).Nodup →
      (∀ x ∈ exchanges, x.bytes.length ≤ read_buffer_size) →
      Chunked clientNext read_buffer_size heaps 0 (startReading heap read_buffer_size slots) chunks →
      chunks.flatten = exchanges.flatMap Exchange.bytes →
      ∃ jobs slots' rbuf, receive clientNext read_buffer_size heaps 0 (startReading heap read_buffer_size slots) chunks =
          (jobs,.reading slots' rbuf) ∧ unread rbuf 0 = [] ∧
        List.Forall₂ Handed exchanges jobs) := by
  constructor
  · intro request_handler read_buffer_size heap heaps messages chunks sent sizes chunked bytes
    exact server_reassembly request_handler read_buffer_size heap heaps messages sent sizes chunked bytes
  · intro slots read_buffer_size heap heaps exchanges chunks responds waiting distinct sizes chunked bytes
    exact client_reassembly slots read_buffer_size heap heaps exchanges responds waiting distinct sizes chunked bytes

/-- Two status requests in twelve-byte reads; the second message straddles two buffers. -/
def straddling : List (List UInt8) := [[0,0,7,0,1],[0,0,0,0,0,7,0],[2,0,0,0]]

def statusRequest (sequence : UInt8) : List UInt8 := [0,0,7,0,sequence,0,0,0]

theorem straddling_chunked : Chunked (serverNext (serverParam monHandlers 12) true) 12 (fun _ _ => 0) 0
    (startReading (fun _ => 0) 12 ()) straddling :=
  ⟨⟨by decide,by decide⟩,⟨by decide,by decide⟩,⟨by decide,by decide⟩,trivial⟩

theorem statusRequest_sent (sequence : UInt8) (member : sequence = 1 ∨ sequence = 2) :
    Sent monHandlers (statusRequest sequence) := by
  rcases member with rfl | rfl
  · exact Sent.cluster (.status ⟨⟨0,7,1⟩⟩) ⟨rfl,rfl⟩ rfl
  · exact Sent.cluster (.status ⟨⟨0,7,2⟩⟩) ⟨rfl,rfl⟩ rfl

/-- Two waiting requests and their responses, also in twelve-byte reads. -/
def stopArg : ClientSendArg := ⟨5,clusterResponseDecoderStop,3⟩

def keepAliveArg : ClientSendArg := ⟨6,clusterResponseDecoderKeepAliveClient,4⟩

def twoSlots : WaitingHashSlots :=
  Function.update (Function.update (fun _ => []) (hash 5) [stopArg]) (hash 6) [keepAliveArg]

def twoExchanges : List Exchange := [⟨stopArg,[0,0,0,0,5,0,0,0]⟩,⟨keepAliveArg,[0,0,0,0,6,0,0,0,9,0,0,0]⟩]

def straddlingReplies : List (List UInt8) := [[0,0,0,0,5],[0,0,0,0,0,0,0],[6,0,0,0,9,0,0,0]]

theorem two_respond : ∀ x ∈ twoExchanges, Responds x.send_arg.decoder x.send_arg.sequence x.bytes := by
  intro x member
  rcases List.mem_pair.mp member with rfl | rfl
  · exact Responds.cluster (.stop ⟨⟨0,5⟩⟩) (fun _ => trivial) rfl rfl
  · exact Responds.cluster (.keepAliveClient ⟨⟨0,6⟩,9⟩) (fun _ => trivial) rfl rfl

theorem two_waiting : ∀ x ∈ twoExchanges, Waiting twoSlots x.send_arg := by
  have other : Client.hash 5 ≠ Client.hash 6 := by decide
  intro x member
  rcases List.mem_pair.mp member with rfl | rfl
  · constructor <;> simp [twoSlots,stopArg,Function.update_of_ne other]
  · constructor <;> simp [twoSlots,keepAliveArg]

theorem straddlingReplies_chunked : Chunked clientNext 12 (fun _ _ => 0) 0 (startReading (fun _ => 0) 12 twoSlots)
    straddlingReplies :=
  ⟨⟨by decide,by decide⟩,⟨by decide,by decide⟩,⟨by decide,by decide⟩,trivial⟩

theorem reassembly_of_both_streams_straddling :
    (∃ reqs rbuf, receive (serverNext (serverParam monHandlers 12) true) 12 (fun _ _ => 0) 0
        (startReading (fun _ => 0) 12 ()) straddling = (reqs,.reading () rbuf) ∧ unread rbuf 0 = [] ∧
      reqs.map (fun req => (req.req_handler,req.request_id,req.request.bytes)) =
        [statusRequest 1,statusRequest 2].map fun bytes => (0,field16 2 bytes,bytes)) ∧
    (∃ jobs slots' rbuf, receive clientNext 12 (fun _ _ => 0) 0 (startReading (fun _ => 0) 12 twoSlots)
        straddlingReplies = (jobs,.reading slots' rbuf) ∧ unread rbuf 0 = [] ∧
      List.Forall₂ Handed twoExchanges jobs) := by
  constructor
  · apply reassembly_of_both_streams.1 monHandlers 12 (fun _ => 0) (fun _ _ => 0)
      [statusRequest 1,statusRequest 2] straddling
    · intro bytes member
      rcases List.mem_pair.mp member with rfl | rfl
      · exact statusRequest_sent 1 (.inl rfl)
      · exact statusRequest_sent 2 (.inr rfl)
    · decide
    · exact straddling_chunked
    · rfl
  · apply reassembly_of_both_streams.2 twoSlots 12 (fun _ => 0) (fun _ _ => 0) twoExchanges straddlingReplies
    · exact two_respond
    · exact two_waiting
    · decide
    · intro x member
      rcases List.mem_pair.mp member with rfl | rfl <;> decide
    · exact straddlingReplies_chunked
    · rfl

end Muti.Reassembly
