import Muti.Reassembly
import Muti.ResponseBlock

/-! Framing agreement over the whole protocol: client and server cut the byte streams of
both resources at the same places, except where a latest map is decoded: its pointer is
stored behind the block for it. -/
namespace Muti.Protocol

open Muti.Bytes Muti.Memory Muti.Resource Muti.Framing Muti.Agreement Muti.Object Muti.Cluster Muti.Server
  Muti.Client Muti.Reassembly

/-- The server's loop takes exactly these bytes as a request to its first handler. -/
def RequestFramed (request_handler : List RequestHandler) (bytes : List UInt8) : Prop :=
  ∀ read_buffer_size, ∃ req : SRequest,
    (∀ back, serverNext (serverParam request_handler read_buffer_size) true () (bytes ++ back) =
      .item req bytes.length ()) ∧
    (∀ p, p <+: bytes → p ≠ bytes → serverNext (serverParam request_handler read_buffer_size) true () p = .more ()) ∧
    req.request.bytes = bytes

theorem sent_framed (sent : Sent request_handler bytes) : RequestFramed request_handler bytes := by
  intro read_buffer_size
  obtain ⟨path,valid⟩ := sent_message sent read_buffer_size
  have serves := serverNext_serves (serverParam request_handler read_buffer_size)
  let m : Message UInt8 SRequest := ⟨bytes,⟨0,field16 2 bytes,⟨bytes,path⟩⟩⟩
  have ready : ∀ other ∈ [m], RequestMessage (serverParam request_handler read_buffer_size) other := by
    simpa using valid
  refine ⟨m.item,?_,?_,rfl⟩
  · intro back
    obtain ⟨_,taken,_⟩ := serves.whole () m [] back ready
    exact taken
  · intro p before proper
    obtain ⟨_,waits,_⟩ := serves.short () m [] p ready before proper
    exact waits

inductive ServiceRequest where
  | cluster (req : ClusterRequest)
  | object (req : ObjectRequest)

namespace ServiceRequest

def Sent : ServiceRequest → Prop
  | .cluster req => SentClusterRequest req
  | .object req => SentObjectRequest req

/-- What `clientSendRequest` sends. -/
def encode : ServiceRequest → Except Fault (List UInt8)
  | .cluster req => clusterRequestEncoder req
  | .object req => objectRequestEncoder req

def request_handler : ServiceRequest → List RequestHandler
  | .cluster _ => monHandlers
  | .object _ => osHandlers

def Framed (req : ServiceRequest) : Prop :=
  ∃ bytes, req.encode = .ok bytes ∧ RequestFramed req.request_handler bytes

end ServiceRequest

theorem request_framed {req : ServiceRequest} (sent : req.Sent) : req.Framed := by
  cases req with
  | cluster req =>
    obtain ⟨bytes,_,encoded,_⟩ := cluster_request_framed req
    exact ⟨bytes,encoded,sent_framed (.cluster req sent encoded)⟩
  | object req =>
    obtain ⟨bytes,_,_,encoded,_⟩ := object_request_framed req sent
    exact ⟨bytes,encoded,sent_framed (.object req sent encoded)⟩

inductive ServiceResponse where
  | cluster (resp : ClusterResponse)
  | object (resp : ObjectResponse)

namespace ServiceResponse

def super : ServiceResponse → Response
  | .cluster resp => resp.super
  | .object resp => resp.super

def Fits : ServiceResponse → Prop
  | .cluster resp => resp.super.error_id = 0 → clusterFits resp
  | .object resp => resp.super.error_id = 0 → objectFits resp

/-- What `serverDoActionCallback` sends. -/
def encode : ServiceResponse → Except Fault (List UInt8)
  | .cluster resp => encodeResponse ClusterResponse.super clusterResponseEncoder resp
  | .object resp => encodeResponse ObjectResponse.super objectResponseEncoder resp

/-- The decoder of the request it answers. -/
def decoder : ServiceResponse → Option (Decoder Reply)
  | .cluster resp => ResponseBlock.clusterResponseDecoder[resp.id]?
  | .object resp => objectResponseDecoder[resp.id]?

def LatestMap : ServiceResponse → Prop
  | .cluster (.getLatestObjectServiceMap resp) => resp.super.error_id = 0
  | _ => False

def Framed (resp : ServiceResponse) : Prop :=
  ∃ bytes reply decoder, resp.encode = .ok bytes ∧ resp.decoder = some decoder ∧ Frames (decodeResponse decoder) bytes reply

end ServiceResponse

/-- Blocks play no part unless a map is accepted. -/
theorem block_decoder (resp : ClusterResponse) (other : ¬(ServiceResponse.cluster resp).LatestMap)
    (success : resp.super.error_id = 0) : ResponseBlock.clusterResponseDecoder[resp.id]? = clusterResponseDecoder[resp.id]? := by
  cases resp with
  | getLatestObjectServiceMap resp => exact absurd success other
  | status resp => exact congrArg some ResponseBlock.status_same
  | getObjectServiceMapLatestVersion | keepAliveObjectService | keepAliveClient | stop => rfl

theorem response_framed {resp : ServiceResponse} (fits : resp.Fits) (other : ¬resp.LatestMap) :
    ∃ bytes reply decoder, resp.encode = .ok bytes ∧ resp.decoder = some decoder ∧ Frames (decodeResponse decoder) bytes reply ∧
      ∃ back, bytes = responseImage resp.super ++ back := by
  cases resp with
  | object resp => exact object_response_framed resp fits
  | cluster resp =>
    by_cases success : resp.super.error_id = 0
    · obtain ⟨bytes,reply,decoder,encoded,found,rest⟩ := cluster_response_framed resp fits
      exact ⟨bytes,reply,decoder,encoded,(block_decoder resp other success).trans found,rest⟩
    · obtain ⟨decoder,found⟩ : ∃ decoder, ResponseBlock.clusterResponseDecoder[resp.id]? = some decoder := by
        cases resp <;> exact ⟨_,rfl⟩
      exact ⟨_,_,decoder,if_neg success,found,frames_failure decoder success,[],by simp [errorResponseEncoder,ServiceResponse.super]⟩

/-- The decoder of a latest map stores behind its block. -/
theorem latestMap_beyond {resp : ServiceResponse} (fits : resp.Fits) (latest : resp.LatestMap) :
    ∃ bytes decoder, resp.encode = .ok bytes ∧ resp.decoder = some decoder ∧
      decodeResponse decoder bytes = .error .outOfBounds := by
  cases resp with
  | object resp => exact latest.elim
  | cluster resp =>
    cases resp with
    | getLatestObjectServiceMap resp =>
      obtain ⟨bytes,reply,decoder,encoded,found,frames,back,split⟩ := cluster_response_framed (.getLatestObjectServiceMap resp) fits
      obtain rfl : clusterResponseDecoderGetLatestObjectServiceMap = decoder := Option.some.inj found
      have whole := frames.whole []
      rw [List.append_nil] at whole
      have enough : ¬bytes.length < 8 := by simp [split]
      have success : ¬(responseAt bytes).error_id ≠ 0 := by
        rw [split,responseAt_image]
        exact not_not.mpr latest
      simp only [decodeResponse,clusterResponseDecoderGetLatestObjectServiceMap,errorOr,if_neg enough,if_neg success] at whole
      refine ⟨bytes,_,encoded,rfl,?_⟩
      simp only [decodeResponse,ResponseBlock.clusterResponseDecoderGetLatestObjectServiceMap,errorOr,if_neg enough,
        if_neg success]
      exact ResponseBlock.decodeMap_beyond (by decide) whole
    | getObjectServiceMapLatestVersion | keepAliveObjectService | keepAliveClient | status | stop => exact latest.elim

theorem response_framed_iff {resp : ServiceResponse} (fits : resp.Fits) : resp.Framed ↔ ¬resp.LatestMap := by
  constructor
  · rintro ⟨bytes,reply,decoder,encoded,found,frames⟩ latest
    obtain ⟨bytes',decoder',encoded',found',beyond⟩ := latestMap_beyond fits latest
    cases encoded.symm.trans encoded'
    cases found.symm.trans found'
    have whole := frames.whole []
    rw [List.append_nil,beyond] at whole
    cases whole
  · intro other
    obtain ⟨bytes,reply,decoder,encoded,found,frames,-⟩ := response_framed fits other
    exact ⟨bytes,reply,decoder,encoded,found,frames⟩

structure Replies (x : Exchange) (resp : ServiceResponse) : Prop where
  fits : resp.Fits
  kind : resp.decoder = some x.send_arg.decoder
  encoded : resp.encode = .ok x.bytes
  sequence : resp.super.sequence = x.send_arg.sequence

theorem replies_framed (replies : Replies x resp) (other : ¬resp.LatestMap) :
    ∃ reply, Frames (decodeResponse x.send_arg.decoder) x.bytes reply ∧
      (responseAt x.bytes).sequence = x.send_arg.sequence ∧ 8 ≤ x.bytes.length := by
  obtain ⟨bytes,reply,decoder,encoded,found,frames,back,split⟩ := response_framed replies.fits other
  cases encoded.symm.trans replies.encoded
  cases found.symm.trans replies.kind
  refine ⟨reply,frames,?_,by simp [split]⟩
  rw [split,responseAt_image,replies.sequence]

/-- The client splits a stream of responses at the right boundaries, and hands each to its request. -/
def SplitsRight (slots : WaitingHashSlots) (exchanges : List Exchange) (fuel : Nat) : Prop :=
  ∃ jobs slots', drain clientNext fuel slots (exchanges.flatMap Exchange.bytes) = (jobs,.starved slots' []) ∧
    List.Forall₂ Handed exchanges jobs

theorem splits_right_iff (replies : List.Forall₂ Replies exchanges responses) (waiting : ∀ x ∈ exchanges, Waiting slots x.send_arg)
    (distinct : (exchanges.map fun x => x.send_arg.sequence).Nodup)
    (enough : (exchanges.flatMap Exchange.bytes).length < fuel) :
    SplitsRight slots exchanges fuel ↔ ∀ resp ∈ responses, ¬resp.LatestMap := by
  constructor
  · rintro ⟨jobs,slots',-,handed⟩ resp member latest
    obtain ⟨x,inside,reply⟩ := Lists.partner_origin replies member
    obtain ⟨bytes,decoder,encoded,found,beyond⟩ := latestMap_beyond reply.fits latest
    cases encoded.symm.trans reply.encoded
    cases found.symm.trans reply.kind
    obtain ⟨job,-,-,decoded⟩ := Lists.partner_origin handed.flip inside
    cases beyond.symm.trans decoded
  · intro others
    have framed : ∀ x ∈ exchanges, ∃ reply, Frames (decodeResponse x.send_arg.decoder) x.bytes reply ∧
        (responseAt x.bytes).sequence = x.send_arg.sequence ∧ 8 ≤ x.bytes.length := by
      intro x inside
      obtain ⟨resp,member,reply⟩ := Lists.partner_origin replies.flip inside
      exact replies_framed reply (others resp member)
    obtain ⟨wire,pairs⟩ := exchanges_wired slots exchanges framed waiting
    rw [wired_stream pairs] at enough
    obtain ⟨slots',_,run⟩ := drain_whole_stream clientNext_serves fuel (wired_awaits pairs distinct) enough
    refine ⟨_,slots',?_,wired_jobs pairs⟩
    rw [wired_stream pairs,run]

/-- Every request is framed; a response is exactly when it is not an accepted latest map, and so
is a stream of them. -/
theorem framing_agreement_iff (req : ServiceRequest) (resp : ServiceResponse) (slots : WaitingHashSlots)
    (exchanges : List Exchange) (responses : List ServiceResponse) (fuel : Nat) :
    (req.Sent → req.Framed) ∧
    (resp.Fits → (resp.Framed ↔ ¬resp.LatestMap)) ∧
    (List.Forall₂ Replies exchanges responses → (∀ x ∈ exchanges, Waiting slots x.send_arg) →
      (exchanges.map fun x => x.send_arg.sequence).Nodup → (exchanges.flatMap Exchange.bytes).length < fuel →
      (SplitsRight slots exchanges fuel ↔ ∀ resp ∈ responses, ¬resp.LatestMap)) := by
  refine ⟨?_,?_,?_⟩
  · intro sent
    exact request_framed sent
  · intro fits
    exact response_framed_iff fits
  · intro replies waiting distinct enough
    exact splits_right_iff replies waiting distinct enough

/-- A stop request of each resource, a refused list, and two responses one behind the other. -/
theorem framing_agreement_iff_stop :
    (ServiceRequest.cluster (.stop ⟨⟨0,8,1⟩⟩)).Framed ∧ (ServiceRequest.object (.stop ⟨⟨0,4,1⟩⟩)).Framed ∧
    (ServiceResponse.object (.list ⟨⟨1,1⟩,0,[]⟩)).Framed ∧ SplitsRight twoSlots twoExchanges 21 := by
  let stops : List ServiceResponse := [.cluster (.stop ⟨⟨0,5⟩⟩),.cluster (.keepAliveClient ⟨⟨0,6⟩,9⟩)]
  obtain ⟨cluster,response,exchanged⟩ :=
    framing_agreement_iff (.cluster (.stop ⟨⟨0,8,1⟩⟩)) (.object (.list ⟨⟨1,1⟩,0,[]⟩)) twoSlots twoExchanges stops 21
  obtain ⟨object,-⟩ := framing_agreement_iff (.object (.stop ⟨⟨0,4,1⟩⟩)) (.object (.list ⟨⟨1,1⟩,0,[]⟩)) twoSlots [] [] 21
  refine ⟨cluster ⟨rfl,rfl⟩,object ⟨rfl,rfl,nofun⟩,(response fun _ => by simp [objectFits]).mpr id,?_⟩
  have replies : List.Forall₂ Replies twoExchanges stops :=
    .cons ⟨fun _ => trivial,rfl,rfl,rfl⟩ (.cons ⟨fun _ => trivial,rfl,rfl,rfl⟩ .nil)
  apply (exchanged replies two_waiting (by decide) (by decide)).mpr
  intro resp member
  rcases List.mem_pair.mp member with rfl | rfl <;> exact id

def latestReply : ServiceResponse := .cluster (.getLatestObjectServiceMap ⟨⟨0,1⟩,ClusterMap.sampleMap⟩)

theorem latest_map_unframed : latestReply.Fits ∧
    (∃ bytes decoder, latestReply.encode = .ok bytes ∧ latestReply.decoder = some decoder ∧
      decodeResponse decoder bytes = .error .outOfBounds) ∧ ¬latestReply.Framed := by
  have fits : latestReply.Fits := fun _ => ClusterMap.sampleMap_encodable
  have latest : latestReply.LatestMap := rfl
  exact ⟨fits,latestMap_beyond fits latest,fun framed => (response_framed_iff fits).mp framed latest⟩

end Muti.Protocol
