import Muti.Agreement
import Muti.ReadBuffer

/-! The server's read callback: it looks the decoder up by the two ids of a request and
hands each decoded request to the worker pool. -/
namespace Muti

structure RequestHandler (δ : Type := Resource.Decoder ReceivedRequest) where
  id : Nat
  request_decoders : Option (List (Option δ))

structure ServerParam (δ : Type := Resource.Decoder ReceivedRequest) where
  request_handler : List (RequestHandler δ)
  request_handler_length : UInt16
  read_buffer_size : Nat

/-- A request given to the worker pool, with the index of its handler. -/
structure SRequest where
  req_handler : Nat
  request_id : UInt16
  request : ReceivedRequest
  deriving DecidableEq, Repr

namespace Server

open Muti.Bytes Muti.Memory Muti.Resource Muti.Framing Muti.ReadBuffer Muti.Agreement Muti.Object Muti.Cluster

/-- Find the decoder for a header; `none` makes the callback close the connection. The
first comparison lets one index too many through. -/
def selectDecoder (param : ServerParam δ) (resource_id request_id : UInt16) : Except Fault (Option δ) :=
  if param.request_handler_length < resource_id then .ok none
  else do
    let handler ← read param.request_handler resource_id.toNat
    match handler.request_decoders with
    | none => .ok none
    | some req_decoders => read req_decoders request_id.toNat

/-- One turn of the loop of `serverReadCallback` with decoders that only read; `inserted` is what `insertTail` answers. -/
def serverNext (param : ServerParam) (inserted : Bool) : Parser Unit UInt8 SRequest Fault := fun _ buf =>
  if buf.length < 4 then .more ()
  else match selectDecoder param (field16 0 buf) (field16 2 buf) with
    | .error reason => .fault reason
    | .ok none => .stop ()
    | .ok (some reqDecoder) => match reqDecoder buf with
      | .error reason => .fault reason
      | .ok .more => .more ()
      | .ok (.message req consume_len) =>
        if inserted then .item ⟨(field16 0 buf).toNat,field16 2 buf,req⟩ consume_len.toNat ()
        else .stop ()

def serverReadCallback (param : ServerParam) := readCallback (serverNext param true) param.read_buffer_size

def monHandlers : List RequestHandler := [⟨0,some (clusterRequestDecoder.map some)⟩]

def osHandlers : List RequestHandler := [⟨0,some (objectRequestDecoder.map some)⟩]

def serverParam (request_handler : List (RequestHandler δ)) (read_buffer_size : Nat) : ServerParam δ :=
  ⟨request_handler,UInt16.ofNat request_handler.length,read_buffer_size⟩

structure RequestMessage (param : ServerParam) (m : Message UInt8 SRequest) : Prop where
  selected : ∃ decoder, selectDecoder param (field16 0 m.encoded) (field16 2 m.encoded) = .ok (some decoder) ∧
    Frames decoder m.encoded m.item.request
  resource : (field16 0 m.encoded).toNat = m.item.req_handler
  request : field16 2 m.encoded = m.item.request_id
  header : 4 ≤ m.encoded.length

theorem field16_append (front back : List UInt8) (inside : offset + 2 ≤ front.length) :
    field16 offset (front ++ back) = field16 offset front := by
  rw [field16,field16,field_append _ _ _ _ inside]

theorem serverNext_serves (param : ServerParam) :
    Serves (serverNext param true) (fun _ messages => ∀ m ∈ messages, RequestMessage param m) where
  hungry := by
    intro s _
    exact ⟨(),rfl,by simp⟩
  whole := by
    intro s m messages back valid
    obtain ⟨⟨decoder,selected,frames⟩,resource,request,header⟩ := valid m List.mem_cons_self
    refine ⟨(),?_,fun m member => valid m (List.mem_cons_of_mem _ member)⟩
    have enough : ¬(m.encoded ++ back).length < 4 := by
      rw [List.length_append]
      omega
    have first := field16_append m.encoded back (by omega : 0 + 2 ≤ _)
    have second := field16_append m.encoded back (by omega : 2 + 2 ≤ _)
    have size := toNat_ofNat_small frames.fits
    simp only [serverNext,if_neg enough,first,second,selected,frames.whole,size]
    simp [resource,request]
  short := by
    intro s m messages p valid before proper
    obtain ⟨⟨decoder,selected,frames⟩,resource,request,header⟩ := valid m List.mem_cons_self
    refine ⟨(),?_,valid⟩
    by_cases early : p.length < 4
    · simp [serverNext,early]
    · have stop := frames.short p before proper
      obtain ⟨rest,split⟩ := before
      have first := field16_append p rest (by omega : 0 + 2 ≤ _)
      have second := field16_append p rest (by omega : 2 + 2 ≤ _)
      rw [split] at first second
      rw [first,second] at selected
      simp [serverNext,early,selected,stop]
  nonempty := by
    intro s m messages valid
    have header := (valid m List.mem_cons_self).header
    exact List.ne_nil_of_length_pos (by omega)

/-- Bytes a client sends as one request to a server of one of the two services. -/
inductive Sent : List RequestHandler → List UInt8 → Prop where
  | cluster (req : ClusterRequest) (sent : SentClusterRequest req)
      (encoded : clusterRequestEncoder req = .ok bytes) : Sent monHandlers bytes
  | object (req : ObjectRequest) (sent : SentObjectRequest req)
      (encoded : objectRequestEncoder req = .ok bytes) : Sent osHandlers bytes

theorem request_header (r : Request) (back : List UInt8) :
    field16 0 (requestImage r ++ back) = r.resource_id ∧ field16 2 (requestImage r ++ back) = r.request_id := by
  have header := requestAt_image r back
  exact ⟨congrArg Request.resource_id header,congrArg Request.request_id header⟩

/-- A sent request goes to handler zero, under its request id, with exactly its bytes. -/
theorem sent_message (sent : Sent request_handler bytes) (read_buffer_size : Nat) :
    ∃ path, RequestMessage (serverParam request_handler read_buffer_size)
      ⟨bytes,⟨0,field16 2 bytes,⟨bytes,path⟩⟩⟩ := by
  cases sent with
  | cluster req sent encoded =>
    obtain ⟨bytes',decoder,encoded',found,frames,back,split⟩ := cluster_request_framed req
    obtain rfl : bytes' = bytes := Except.ok.inj (encoded'.symm.trans encoded)
    obtain ⟨first,second⟩ := request_header req.super back
    rw [← split,sent.resource] at first
    rw [← split,sent.request] at second
    refine ⟨none,⟨decoder,?_,frames⟩,by simp [first],rfl,by simp [split]; omega⟩
    rw [first,second]
    cases req <;> cases found <;> rfl
  | object req sent encoded =>
    obtain ⟨bytes',path,decoder,encoded',found,frames,back,split⟩ := object_request_framed req sent
    obtain rfl : bytes' = bytes := Except.ok.inj (encoded'.symm.trans encoded)
    obtain ⟨first,second⟩ := request_header req.super back
    rw [← split,sent.resource] at first
    rw [← split,sent.request] at second
    refine ⟨path,⟨decoder,?_,frames⟩,by simp [first],rfl,by simp [split]; omega⟩
    rw [first,second]
    cases req <;> cases found <;> rfl

end Server
end Muti
