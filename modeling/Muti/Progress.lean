import Muti.DecoderBounds
import Muti.TurnInPlace

/-! Progress of the read loops. As long as no path length wraps around on the way, the
loops of both read callbacks end, with at most one message for every eight bytes; a put
whose length wraps to zero keeps the server's loop running for good. -/
namespace Muti.Progress

open Muti.Bytes Muti.Memory Muti.InPlace Muti.DecodeInPlace Muti.DecoderBounds Muti.Server Muti.Client
open Muti.Framing hiding Parser drain
open Muti.Resource hiding decodeResponse decodeResponse_eq errorOr

def Ends (next : Parser σ UInt8 α Fault) (s : σ) (w : Window UInt8) : Prop :=
  ∃ fuel, (drain next fuel s w).2 ≠ .unfinished ∧ (drain next fuel s w).1.length * 8 ≤ w.bytes.length

/-- Every decoder's result on the way is bounded, and therefore the loop ends. -/
structure LoopProgress (next : Parser σ UInt8 α Fault) (bounded : σ → Window UInt8 → Prop) (s : σ)
    (w : Window UInt8) : Prop where
  messages : Throughout next bounded s w
  ends : Ends next s w

theorem ends_of_bounded {next : Parser σ UInt8 α Fault} {bounded : σ → Window UInt8 → Prop}
    (sizes : ∀ s w left a size s', bounded s w → next.look s w = (left,.item a size s') →
      8 ≤ size ∧ size ≤ w.bytes.length) (always : Throughout next bounded s w) : Ends next s w :=
  ⟨w.bytes.length + 1,drain_ends (progress_throughout (by decide) sizes) (w.bytes.length + 1) always (Nat.lt_succ_self _)⟩

theorem loopProgress_iff {next : Parser σ UInt8 α Fault} {bounded fits : σ → Window UInt8 → Prop}
    (ends : Throughout next bounded s w → Ends next s w)
    (same : Throughout next bounded s w ↔ Throughout next fits s w) :
    LoopProgress next bounded s w ↔ Throughout next fits s w := by
  constructor
  · intro progress
    exact same.mp progress.messages
  · intro fit
    exact ⟨same.mpr fit,ends (same.mpr fit)⟩

theorem selectDecoder_one {decoders : List δ}
    (selected : selectDecoder (oneHandler decoders read_buffer_size) resource_id request_id = .ok (some decoder)) :
    resource_id = 0 ∧ decoders[request_id.toNat]? = some decoder := by
  rw [select_one] at selected
  by_cases zero : resource_id.toNat = 0
  · rw [if_pos zero] at selected
    have listed : (decoders.map some)[request_id.toNat]? = some (some decoder) := read_ok.mp selected
    exact ⟨UInt16.toNat_inj.mp zero,by simpa using listed⟩
  · rw [if_neg zero] at selected
    split at selected <;> cases selected

/-- What the server's loop finds at the front of these bytes is bounded. -/
def ServerBounded (decoders : List (InPlaceDecoder ReceivedRequest)) (fixed : Nat → Nat) (_ : Nat) (w : Window UInt8) :
    Prop :=
  field16 0 w.bytes = 0 → ∀ decoder, decoders[(field16 2 w.bytes).toNat]? = some decoder →
    BoundedAt decoder (fixed (field16 2 w.bytes).toNat) w

theorem server_ends (decoders : List (InPlaceDecoder ReceivedRequest)) (fixed : Nat → Nat) (least : ∀ id, 8 ≤ fixed id)
    (always : Throughout (serverTurn (oneHandler decoders read_buffer_size) inserted) (ServerBounded decoders fixed)
      jobs w) : Ends (serverTurn (oneHandler decoders read_buffer_size) inserted) jobs w := by
  refine ends_of_bounded ?_ always
  intro jobs w left reqw size jobs' bounded look
  obtain ⟨decoder,req,consume_len,selected,decoded,rfl,-⟩ := serverTurn_item look
  obtain ⟨resource,listed⟩ := selectDecoder_one selected
  obtain ⟨lower,upper⟩ := bounded resource decoder listed left req consume_len decoded
  exact ⟨Nat.le_trans (least _) lower,upper⟩

/-- The put request at the front of these bytes, if there is one, has a path that fits. -/
def ServerFits (_ : Nat) (w : Window UInt8) : Prop :=
  field16 0 w.bytes = 0 → objectRequestFits (field16 2 w.bytes).toNat w.bytes

theorem objectServer_bounded_iff (jobs : Nat) (w : Window UInt8) :
    ServerBounded objectRequestDecoder objectRequestFixed jobs w ↔ ServerFits jobs w := by
  constructor
  · intro bounded resource put
    have listed : objectRequestDecoder[(field16 2 w.bytes).toNat]? = some objectRequestDecoderPut := by
      rw [put]
      rfl
    exact (object_request_bounded_iff listed w).mp (bounded resource _ listed) put
  · intro fits resource decoder listed
    exact (object_request_bounded_iff listed w).mpr (fits resource)

theorem object_server_progress_iff (read_buffer_size : Nat) (inserted : Nat → Bool) (jobs : Nat) (w : Window UInt8) :
    LoopProgress (serverTurn (oneHandler objectRequestDecoder read_buffer_size) inserted)
      (ServerBounded objectRequestDecoder objectRequestFixed) jobs w ↔
    Throughout (serverTurn (oneHandler objectRequestDecoder read_buffer_size) inserted) ServerFits jobs w := by
  have always : Throughout (serverTurn (oneHandler objectRequestDecoder read_buffer_size) inserted) (fun _ _ => True)
      jobs w := fun _ _ _ => trivial
  have least : ∀ id, 8 ≤ objectRequestFixed id := by
    intro id
    unfold objectRequestFixed
    split <;> decide
  exact loopProgress_iff (server_ends objectRequestDecoder objectRequestFixed least)
    (throughout_congr always fun jobs w _ => objectServer_bounded_iff jobs w)

theorem cluster_server_progress (read_buffer_size : Nat) (inserted : Nat → Bool) (jobs : Nat) (w : Window UInt8) :
    LoopProgress (serverTurn (oneHandler clusterRequestDecoder read_buffer_size) inserted)
      (ServerBounded clusterRequestDecoder clusterRequestFixed) jobs w := by
  have always : Throughout (serverTurn (oneHandler clusterRequestDecoder read_buffer_size) inserted)
      (ServerBounded clusterRequestDecoder clusterRequestFixed) jobs w :=
    fun _ w _ _ decoder listed => cluster_request_bounded listed w
  have least : ∀ id, 8 ≤ clusterRequestFixed id := by
    intro id
    unfold clusterRequestFixed
    split <;> decide
  exact ⟨always,server_ends clusterRequestDecoder clusterRequestFixed least always⟩

/-- Every waiting request was given one of the response decoders of the two resources. -/
def Known (slots : WaitingHashSlots (UInt64 → InPlaceDecoder Reply)) : Prop :=
  ∀ h, ∀ send_arg ∈ slots h, (∃ id : Nat, objectResponseDecoder[id]? = some send_arg.decoder) ∨
    ∃ id : Nat, clusterResponseDecoder[id]? = some send_arg.decoder

/-- What the client's loop finds at the front of these bytes is bounded. -/
def ClientBounded (block : Nat → UInt64) (s : ClientLoop) (w : Window UInt8) : Prop :=
  ∀ send_arg, requestFor s.slots w.bytes = some send_arg →
    (∀ id : Nat, objectResponseDecoder[id]? = some send_arg.decoder →
      BoundedAt (decodeResponse (send_arg.decoder (block s.decoded))) (replyFixed (objectResponseFixed id) w.bytes) w) ∧
    ∀ id : Nat, clusterResponseDecoder[id]? = some send_arg.decoder →
      BoundedAt (decodeResponse (send_arg.decoder (block s.decoded))) (replyFixed (clusterResponseFixed id) w.bytes) w

def ClientFits (block : Nat → UInt64) (s : ClientLoop) (w : Window UInt8) : Prop :=
  ∀ send_arg, requestFor s.slots w.bytes = some send_arg →
    ∀ id : Nat, objectResponseDecoder[id]? = some send_arg.decoder → objectResponseFits id (block s.decoded) w

theorem bounded_decodeResponse (decoder : InPlaceDecoder Reply) (success : Nat) (w : Window UInt8) :
    BoundedAt (decodeResponse decoder) (replyFixed success w.bytes) w ↔
      (Succeeds w.bytes → BoundedAt decoder (replyFixed success w.bytes) w) := by
  rw [decodeResponse_eq,bounded_errorOr_iff]
  apply imp_congr_right
  intro success'
  rw [replyFixed,if_neg (not_not.mpr success'.2)]

theorem client_bounded_iff (block : Nat → UInt64) (s : ClientLoop) (small : w.bytes.length < 2 ^ 63) :
    ClientBounded block s w ↔ ClientFits block s w := by
  constructor
  · intro bounded send_arg found id listed success
    have decoded := (bounded_decodeResponse _ _ w).mp ((bounded send_arg found).1 id listed) success
    exact (object_response_bounded_iff listed _ w small).mp decoded success
  · intro fits send_arg found
    constructor
    · intro id listed
      apply (bounded_decodeResponse _ _ w).mpr
      intro _
      exact (object_response_bounded_iff listed _ w small).mpr (fits send_arg found id listed)
    · intro id listed
      apply (bounded_decodeResponse _ _ w).mpr
      intro _
      exact cluster_response_bounded listed _ w small

theorem replyFixed_least (least : 8 ≤ success) (buf : List UInt8) : 8 ≤ replyFixed success buf := by
  unfold replyFixed
  split
  · exact Nat.le_refl 8
  · exact least

theorem objectResponseFixed_least (id : Nat) : 8 ≤ objectResponseFixed id := by
  unfold objectResponseFixed
  split <;> decide

theorem clusterResponseFixed_least (id : Nat) : 8 ≤ clusterResponseFixed id := by
  unfold clusterResponseFixed
  split <;> decide

theorem client_item_size {size : Nat} (known : Known s.slots) (bounded : ClientBounded block s w)
    (look : (clientTurn block).look s w = (left,.item job size s')) : 8 ≤ size ∧ size ≤ w.bytes.length := by
  obtain ⟨send_arg,a,consume_len,found,decoded,rfl,_⟩ := clientTurn_item look
  rcases known _ send_arg (List.mem_of_find?_eq_some found) with ⟨id,listed⟩ | ⟨id,listed⟩
  · obtain ⟨lower,upper⟩ := (bounded send_arg found).1 id listed left a consume_len decoded
    exact ⟨Nat.le_trans (replyFixed_least (objectResponseFixed_least id) w.bytes) lower,upper⟩
  · obtain ⟨lower,upper⟩ := (bounded send_arg found).2 id listed left a consume_len decoded
    exact ⟨Nat.le_trans (replyFixed_least (clusterResponseFixed_least id) w.bytes) lower,upper⟩

theorem client_progress_iff (block : Nat → UInt64) (known : Known s.slots) (small : w.bytes.length < 2 ^ 63) :
    LoopProgress (clientTurn block) (ClientBounded block) s w ↔ Throughout (clientTurn block) (ClientFits block) s w := by
  have always : Throughout (clientTurn block) (fun s w => Known s.slots ∧ w.bytes.length < 2 ^ 63) s w := by
    refine throughout_of_kept ?_ ⟨known,small⟩
    rintro s w left job size s' ⟨known,small⟩ look
    obtain ⟨_,_,_,_,_,_,fewer⟩ := clientTurn_item look
    refine ⟨fun h send_arg member => known h send_arg (fewer h member),?_⟩
    rw [past_length,look_length look]
    omega
  refine loopProgress_iff ?_ (throughout_congr always fun s w kept => client_bounded_iff block s kept.2)
  intro bounded
  have both : Throughout (clientTurn block) (fun s w => Known s.slots ∧ ClientBounded block s w) s w := by
    intro s' w' reached
    exact ⟨(always s' w' reached).1,bounded s' w' reached⟩
  refine ends_of_bounded ?_ both
  rintro s w left job size s' ⟨known,bounded⟩ look
  exact client_item_size known bounded look

/-- Every decoder is bounded, and the loops over a buffer progress, exactly when the
paths fit. -/
theorem parsing_progress_iff (w : Window UInt8) (small : w.bytes.length < 2 ^ 63) :
    (∀ (id : Nat) decoder, objectRequestDecoder[id]? = some decoder →
      (BoundedAt decoder (objectRequestFixed id) w ↔ objectRequestFits id w.bytes)) ∧
    (∀ (id : Nat) decoder, clusterRequestDecoder[id]? = some decoder →
      BoundedAt decoder (clusterRequestFixed id) w) ∧
    (∀ (id : Nat) decoder block, objectResponseDecoder[id]? = some decoder →
      (BoundedAt (decoder block) (replyFixed (objectResponseFixed id) w.bytes) w ↔ objectResponseFits id block w)) ∧
    (∀ (id : Nat) decoder block, clusterResponseDecoder[id]? = some decoder →
      BoundedAt (decoder block) (replyFixed (clusterResponseFixed id) w.bytes) w) ∧
    (∀ read_buffer_size inserted jobs,
      LoopProgress (serverTurn (oneHandler objectRequestDecoder read_buffer_size) inserted)
        (ServerBounded objectRequestDecoder objectRequestFixed) jobs w ↔
      Throughout (serverTurn (oneHandler objectRequestDecoder read_buffer_size) inserted) ServerFits jobs w) ∧
    (∀ read_buffer_size inserted jobs,
      LoopProgress (serverTurn (oneHandler clusterRequestDecoder read_buffer_size) inserted)
        (ServerBounded clusterRequestDecoder clusterRequestFixed) jobs w) ∧
    (∀ block s, Known s.slots →
      (LoopProgress (clientTurn block) (ClientBounded block) s w ↔
        Throughout (clientTurn block) (ClientFits block) s w)) := by
  refine ⟨?_,?_,?_,?_,?_,?_,?_⟩
  · intro id decoder listed
    exact object_request_bounded_iff listed w
  · intro id decoder listed
    exact cluster_request_bounded listed w
  · intro id decoder block listed
    exact object_response_bounded_iff listed block w small
  · intro id decoder block listed
    exact cluster_response_bounded listed block w small
  · intro read_buffer_size inserted jobs
    exact object_server_progress_iff read_buffer_size inserted jobs w
  · intro read_buffer_size inserted jobs
    exact cluster_server_progress read_buffer_size inserted jobs w
  · intro block s known
    exact client_progress_iff block known small

def emptyPut : Window UInt8 := ⟨4096,[0,0,1,0,1,0,0,0] ++ List.replicate 40 0⟩

def stopWaits : ClientLoop := ⟨fun _ => [⟨5,fun _ => reads Cluster.clusterResponseDecoderStop,0⟩],0⟩

theorem parsing_progress_iff_emptyPut :
    BoundedAt objectRequestDecoderPut 48 emptyPut ∧
    BoundedAt (reads Object.objectResponseDecoderStop) (replyFixed 8 emptyPut.bytes) emptyPut ∧
    LoopProgress (serverTurn (oneHandler clusterRequestDecoder 1024) fun _ => true)
      (ServerBounded clusterRequestDecoder clusterRequestFixed) 0 emptyPut ∧
    (LoopProgress (clientTurn fun _ => 0) (ClientBounded fun _ => 0) stopWaits emptyPut ↔
      Throughout (clientTurn fun _ => 0) (ClientFits fun _ => 0) stopWaits emptyPut) := by
  obtain ⟨objectRequest,_,objectResponse,_,_,clusterServer,client⟩ := parsing_progress_iff emptyPut (by decide)
  refine ⟨(objectRequest 1 _ rfl).mpr fun _ _ => by decide,(objectResponse 4 _ 0 rfl).mpr fun _ => ⟨nofun,nofun⟩,
    clusterServer 1024 (fun _ => true) 0,client _ _ ?_⟩
  intro h send_arg member
  obtain rfl := List.mem_singleton.mp member
  exact .inr ⟨8,rfl⟩

/-- A put whose path length is 2^64 - 48, and whose path is any pointer. -/
def spinningHeader : List UInt8 := [0,0,1,0,1,0,0,0] ++ (List.replicate 16 0 ++ [208,255,255,255,255,255,255,255])

def spinningPut (path : UInt64) : List UInt8 := spinningHeader ++ (image64 path ++ List.replicate 8 0)

theorem spinningPut_decoded (address path : UInt64) : objectRequestDecoderPut.decode address (spinningPut path) =
    .ok (spinningPut (address + 48),.message ⟨[],some 48⟩ 0) := by
  have stored : storePointer (spinningPut path) 32 (address + 48) = spinningPut (address + 48) :=
    store_append (by simp)
  have enough : ¬(spinningPut path).length < 48 := by simp [spinningPut,spinningHeader]
  have wraps : 48 + field64 24 (spinningPut path) = 0 := by
    rw [spinningPut,field64,field_append _ _ _ _ (by decide)]
    decide
  simp only [objectRequestDecoderPut,if_neg enough,wraps,stored]
  rfl

/-- Nothing is consumed, so the server's loop never leaves it. -/
theorem put_without_progress :
    objectRequestDecoderPut.decode 4096 (spinningPut 0) = .ok (spinningPut 4144,.message ⟨[],some 48⟩ 0) ∧
    ∀ fuel, (drain (serverTurn (oneHandler objectRequestDecoder 1024) fun _ => true) fuel 0 ⟨4096,spinningPut 0⟩).2 =
      .unfinished := by
  refine ⟨spinningPut_decoded 4096 0,?_⟩
  have look : ∀ jobs path, (serverTurn (oneHandler objectRequestDecoder 1024) fun _ => true).look jobs
      ⟨4096,spinningPut path⟩ = (spinningPut 4144,.item ⟨0,1,⟨[],some 48⟩⟩ 0 (jobs + 1)) := by
    intro jobs path
    have whole : 4 ≤ (spinningPut path).length := by simp [spinningPut,spinningHeader]
    have selected : selectDecoder (oneHandler objectRequestDecoder 1024) (field16 0 (spinningPut path))
      (field16 2 (spinningPut path)) = .ok (some objectRequestDecoderPut) := rfl
    rw [serverTurn_decodes _ _ whole selected,spinningPut_decoded]
    rfl
  have spins : ∀ fuel jobs path, (drain (serverTurn (oneHandler objectRequestDecoder 1024) fun _ => true) fuel jobs
      ⟨4096,spinningPut path⟩).2 = .unfinished := by
    intro fuel
    induction fuel with
    | zero => exact fun _ _ => rfl
    | succ fuel ih =>
      intro jobs path
      simp only [drain,look]
      exact ih (jobs + 1) 4144
  exact fun fuel => spins fuel 0 0

end Muti.Progress
