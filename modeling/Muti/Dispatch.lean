import Muti.ReadInPlace
import Muti.TurnInPlace

/-! Dispatch through the handler tables of a server. The two ids of a request index them
three times: for its decoder, for its action, and for the encoder of its response. The
first is checked for one handler too many, the second not at all. -/
namespace Muti

/-- A handler with its other two tables; the three of them have one length. -/
structure Handler (α ρ : Type) where
  super : RequestHandler (InPlaceDecoder ReceivedRequest)
  actions : List α
  response_encoders : List ρ
  same : ∀ decoders, super.request_decoders = some decoders →
    actions.length = decoders.length ∧ response_encoders.length = decoders.length

structure HandlerTables (α ρ : Type) where
  request_handler : List (Handler α ρ)
  read_buffer_size : Nat
  small : request_handler.length < 2 ^ 16

def HandlerTables.param (tables : HandlerTables α ρ) : ServerParam (InPlaceDecoder ReceivedRequest) :=
  Server.serverParam (tables.request_handler.map Handler.super) tables.read_buffer_size

namespace Dispatch

open Muti.Bytes Muti.Memory Muti.Resource Muti.ReadBuffer Muti.InPlace Muti.ReadInPlace Muti.Server
open Muti.Framing hiding Parser drain
open Muti.ReadBuffer hiding readCallback receive

variable (tables : HandlerTables α ρ)

def serverDoAction (reqw : SRequest) : Except Fault α := do
  let handler ← read tables.request_handler reqw.req_handler
  read handler.actions reqw.request_id.toNat

/-- The encoder for the response; an error response has one of its own. -/
def serverDoActionCallback (reqw : SRequest) (error_id : Int32) : Except Fault (Option ρ) :=
  if error_id = 0 then do
    let handler ← read tables.request_handler reqw.req_handler
    let encoder ← read handler.response_encoders reqw.request_id.toNat
    .ok (some encoder)
  else .ok none

def InTables (resource_id request_id : UInt16) : Prop :=
  ∃ handler, tables.request_handler[resource_id.toNat]? = some handler ∧
    ∃ decoders, handler.super.request_decoders = some decoders ∧ request_id.toNat < decoders.length

structure Served (reqw : SRequest) : Prop where
  action : ∃ action, serverDoAction tables reqw = .ok action
  encoder : ∀ error_id, ∃ encoder, serverDoActionCallback tables reqw error_id = .ok encoder

/-- One turn stays inside the tables, or closes the connection. What it hands out can be
served and lies in the bytes received. -/
structure Inside (inserted : Nat → Bool) (jobs : Nat) (w : Window UInt8) : Prop where
  header : 4 ≤ w.bytes.length → InTables tables (field16 0 w.bytes) (field16 2 w.bytes) ∨
    ((serverTurn tables.param inserted).look jobs w).2 = .stop jobs
  request : ∀ left reqw size jobs', (serverTurn tables.param inserted).look jobs w = (left,.item reqw size jobs') →
    Served tables reqw ∧ size ≤ w.bytes.length

/-- The resource id is not the number of handlers; where it names a handler with decoders, the request id is one of
theirs, and what is decoded there leaves one of theirs and consumes no more than there is. -/
def Safe (inserted : Nat → Bool) (jobs : Nat) (w : Window UInt8) : Prop :=
  4 ≤ w.bytes.length → (field16 0 w.bytes).toNat ≠ tables.request_handler.length ∧
    ∀ handler decoders, tables.request_handler[(field16 0 w.bytes).toNat]? = some handler →
      handler.super.request_decoders = some decoders → (field16 2 w.bytes).toNat < decoders.length ∧
        ∀ decoder left req consume_len, decoders[(field16 2 w.bytes).toNat]? = some (some decoder) →
          decoder.decode w.address w.bytes = .ok (left,.message req consume_len) → inserted jobs = true →
          (field16 2 left).toNat < decoders.length ∧ consume_len.toNat ≤ w.bytes.length

variable {tables}

theorem next_short (early : w.bytes.length < 4) :
    (serverTurn tables.param inserted).look jobs w = (w.bytes,.more jobs) := by
  simp only [serverTurn,if_pos early]

/-- Where the comparison of the source lets a resource id through. -/
theorem compared (resource_id : UInt16) :
    tables.param.request_handler_length < resource_id ↔ tables.request_handler.length < resource_id.toNat := by
  rw [UInt16.lt_iff_toNat_lt]
  change (UInt16.ofNat (tables.request_handler.map Handler.super).length).toNat < _ ↔ _
  rw [List.length_map,UInt16.toNat_ofNat_of_lt' tables.small]

theorem select_behind (behind : tables.request_handler.length < resource_id.toNat) :
    selectDecoder tables.param resource_id request_id = .ok none :=
  if_pos ((compared _).mpr behind)

/-- The resource id one past the handlers reads behind their table. -/
theorem select_equal (boundary : resource_id.toNat = tables.request_handler.length) :
    selectDecoder tables.param resource_id request_id = .error .outOfBounds := by
  have missing : tables.param.request_handler[resource_id.toNat]? = none := by
    rw [boundary]
    exact List.getElem?_eq_none (Nat.le_of_eq (List.length_map _))
  rw [selectDecoder,if_neg (by rw [compared]; omega),Memory.read,missing]
  rfl

theorem select_handler (request_id : UInt16) (found : tables.request_handler[resource_id.toNat]? = some handler) :
    selectDecoder tables.param resource_id request_id =
      handler.super.request_decoders.elim (.ok none) fun decoders => read decoders request_id.toNat := by
  have inside := (List.getElem?_eq_some_iff.mp found).1
  have listed : tables.param.request_handler[resource_id.toNat]? = some handler.super := by
    change (tables.request_handler.map Handler.super)[_]? = _
    rw [List.getElem?_map,found]
    rfl
  rw [selectDecoder,if_neg (by rw [compared]; omega),Memory.read,listed]
  simp only [bind,Except.bind]
  cases handler.super.request_decoders <;> rfl

theorem read_iff {table : List γ} : (∃ entry, Memory.read table i = .ok entry) ↔ i < table.length := by
  simp only [read_ok,List.getElem?_eq_some_iff]
  exact ⟨fun ⟨_,inside,_⟩ => inside,fun inside => ⟨_,inside,rfl⟩⟩

/-- A request can be served when its own id lies in the tables of its handler. -/
theorem served_iff (found : tables.request_handler[reqw.req_handler]? = some handler)
    (present : handler.super.request_decoders = some decoders) :
    Served tables reqw ↔ reqw.request_id.toNat < decoders.length := by
  obtain ⟨actions,encoders⟩ := handler.same decoders present
  have action : serverDoAction tables reqw = Memory.read handler.actions reqw.request_id.toNat := by
    rw [serverDoAction,Memory.read,found]
    rfl
  constructor
  · rintro ⟨done,-⟩
    rw [action,read_iff,actions] at done
    exact done
  · intro inside
    refine ⟨by rwa [action,read_iff,actions],?_⟩
    intro error_id
    by_cases success : error_id = 0
    · obtain ⟨encoder,done⟩ := read_iff.mpr (encoders ▸ inside : reqw.request_id.toNat < handler.response_encoders.length)
      refine ⟨some encoder,?_⟩
      rw [serverDoActionCallback,if_pos success]
      exact bind_ok.mpr ⟨handler,read_ok.mpr found,bind_ok.mpr ⟨encoder,done,rfl⟩⟩
    · exact ⟨none,if_neg success⟩

theorem inTables_iff (found : tables.request_handler[resource_id.toNat]? = some handler)
    (present : handler.super.request_decoders = some decoders) :
    InTables tables resource_id request_id ↔ request_id.toNat < decoders.length := by
  constructor
  · rintro ⟨handler',found',decoders',present',inside⟩
    cases found.symm.trans found'
    cases present.symm.trans present'
    exact inside
  · intro inside
    exact ⟨handler,found,decoders,present,inside⟩

theorem inside_iff_handler (inserted : Nat → Bool) (jobs : Nat) (whole : 4 ≤ w.bytes.length)
    (found : tables.request_handler[(field16 0 w.bytes).toNat]? = some handler) :
    Inside tables inserted jobs w ↔ Safe tables inserted jobs w := by
  have selected := select_handler (field16 2 w.bytes) found
  have low := (List.getElem?_eq_some_iff.mp found).1
  cases present : handler.super.request_decoders with
  | none =>
    rw [present] at selected
    have look := serverTurn_closes inserted jobs whole selected
    refine iff_of_true ⟨fun _ => .inr (congrArg Prod.snd look),?_⟩ fun _ => ⟨by omega,?_⟩
    · intro left reqw size jobs' handed
      cases look.symm.trans handed
    · intro handler' decoders found' present'
      cases found.symm.trans found'
      cases present.symm.trans present'
  | some decoders =>
    replace selected : selectDecoder tables.param (field16 0 w.bytes) (field16 2 w.bytes) =
      Memory.read decoders (field16 2 w.bytes).toNat := by rw [selected,present]; rfl
    by_cases within : (field16 2 w.bytes).toNat < decoders.length
    · constructor
      · intro inside _
        refine ⟨by omega,?_⟩
        intro handler' decoders' found' present'
        cases found.symm.trans found'
        cases present.symm.trans present'
        refine ⟨within,?_⟩
        intro decoder left req consume_len entry decoded accepted
        have look := serverTurn_decodes inserted jobs whole (selected.trans (read_ok.mpr entry))
        simp only [decoded,accepted,if_true] at look
        obtain ⟨served,fits⟩ := inside.request _ _ _ _ look
        exact ⟨(served_iff found present).mp served,fits⟩
      · intro safe
        obtain ⟨-,safe⟩ := (safe whole).2 handler decoders found present
        refine ⟨fun _ => .inl ((inTables_iff found present).mpr within),?_⟩
        intro left reqw size jobs' handed
        obtain ⟨decoder,req,consume_len,chosen,decoded,rfl,rfl,accepted⟩ := serverTurn_item handed
        obtain ⟨id,fits⟩ := safe decoder left req consume_len (read_ok.mp (selected.symm.trans chosen)) decoded accepted
        exact ⟨(served_iff found present).mpr id,fits⟩
    · have missing : Memory.read decoders (field16 2 w.bytes).toNat = .error .outOfBounds := by
        rw [Memory.read,List.getElem?_eq_none (Nat.le_of_not_lt within)]
      have look := serverTurn_faults inserted jobs whole (selected.trans missing)
      refine iff_of_false ?_ fun safe => within ((safe whole).2 handler decoders found present).1
      intro inside
      rcases inside.header whole with listed | stops
      · exact within ((inTables_iff found present).mp listed)
      · rw [look] at stops
        cases stops

theorem inside_iff (inserted : Nat → Bool) (jobs : Nat) (w : Window UInt8) :
    Inside tables inserted jobs w ↔ Safe tables inserted jobs w := by
  by_cases whole : 4 ≤ w.bytes.length
  rotate_left
  · have waits : (serverTurn tables.param inserted).look jobs w = (w.bytes,.more jobs) :=
      next_short (Nat.lt_of_not_le whole)
    refine iff_of_true ⟨fun more => absurd more whole,?_⟩ fun more => absurd more whole
    intro left reqw size jobs' look
    cases waits.symm.trans look
  rcases Nat.lt_trichotomy (field16 0 w.bytes).toNat tables.request_handler.length with low | boundary | behind
  · obtain ⟨handler,found⟩ : ∃ handler, tables.request_handler[(field16 0 w.bytes).toNat]? = some handler :=
      ⟨_,List.getElem?_eq_getElem low⟩
    exact inside_iff_handler inserted jobs whole found
  · have look := serverTurn_faults inserted jobs whole (select_equal boundary)
    refine iff_of_false ?_ fun safe => (safe whole).1 boundary
    intro inside
    rcases inside.header whole with ⟨handler,found,-⟩ | stops
    · exact absurd (List.getElem?_eq_some_iff.mp found).1 (by omega)
    · rw [look] at stops
      cases stops
  · have look := serverTurn_closes inserted jobs whole (select_behind behind)
    refine iff_of_true ⟨fun _ => .inr (congrArg Prod.snd look),?_⟩ fun _ => ⟨by omega,?_⟩
    · intro left reqw size jobs' handed
      cases look.symm.trans handed
    · intro handler decoders found
      exact absurd (List.getElem?_eq_some_iff.mp found).1 (by omega)

variable (tables)

/-- A decoder that leaves the request id and consumes no more than it is given. -/
def Fits (decoder : InPlaceDecoder ReceivedRequest) : Prop :=
  ∀ address buf left req consume_len, decoder.decode address buf = .ok (left,.message req consume_len) →
    field16 2 left = field16 2 buf ∧ consume_len.toNat ≤ buf.length

theorem fits_reads {decode : Decoder ReceivedRequest}
    (inside : ∀ buf req consume_len, decode buf = .ok (.message req consume_len) → consume_len.toNat ≤ buf.length) :
    Fits (DecodeInPlace.reads decode) := by
  intro address buf left req consume_len decoded
  rcases answer : decode buf with reason | result
  · simp [DecodeInPlace.reads,answer,Except.map] at decoded
  · simp only [DecodeInPlace.reads,answer,Except.map,Except.ok.injEq,Prod.mk.injEq] at decoded
    obtain ⟨rfl,rfl⟩ := decoded
    exact ⟨rfl,inside _ _ _ answer⟩

theorem fits_todo : Fits (DecodeInPlace.reads todoDecoder) := by
  refine fits_reads ?_
  intro buf req consume_len decoded
  cases decoded

theorem fits_fixed (size : UInt64) (value : List UInt8 → ReceivedRequest) :
    Fits (DecodeInPlace.reads (fixedDecoder size value)) := by
  refine fits_reads ?_
  intro buf req consume_len decoded
  rw [fixedDecoder] at decoded
  split at decoded
  · cases decoded
  · cases decoded
    omega

theorem fits_put : Fits DecodeInPlace.objectRequestDecoderPut := by
  intro address buf left req consume_len decoded
  simp only [DecodeInPlace.objectRequestDecoderPut] at decoded
  split at decoded
  · cases decoded
  · split at decoded
    · cases decoded
    · cases decoded
      exact ⟨DecodeInPlace.field16_storePointer (by omega),by omega⟩

/-- The request decoders of both services fit. -/
theorem services_fit (listed : decoder ∈ DecodeInPlace.clusterRequestDecoder ∨
    decoder ∈ DecodeInPlace.objectRequestDecoder) : Fits decoder := by
  rcases listed with cluster | object
  · simp only [DecodeInPlace.clusterRequestDecoder,Cluster.clusterRequestDecoder,List.map_cons,List.map_nil,
      List.mem_cons,List.not_mem_nil,or_false] at cluster
    rcases cluster with rfl | rfl | rfl | rfl | rfl | rfl | rfl | rfl | rfl
    all_goals first | exact fits_fixed _ _ | exact fits_todo
  · simp only [DecodeInPlace.objectRequestDecoder,List.mem_cons,List.not_mem_nil,or_false] at object
    rcases object with rfl | rfl | rfl | rfl | rfl
    all_goals first | exact fits_fixed _ _ | exact fits_put

/-- With such decoders a turn is safe by its two ids alone. -/
theorem safe_iff_ids (fit : ∀ handler ∈ tables.request_handler, ∀ decoders, handler.super.request_decoders = some decoders →
      ∀ decoder, some decoder ∈ decoders → Fits decoder) :
    Safe tables inserted jobs w ↔ (4 ≤ w.bytes.length → (field16 0 w.bytes).toNat ≠ tables.request_handler.length ∧
      ∀ handler decoders, tables.request_handler[(field16 0 w.bytes).toNat]? = some handler →
        handler.super.request_decoders = some decoders → (field16 2 w.bytes).toNat < decoders.length) := by
  constructor
  · intro safe whole
    obtain ⟨inner,within⟩ := safe whole
    exact ⟨inner,fun handler decoders found present => (within handler decoders found present).1⟩
  · intro ids whole
    obtain ⟨inner,within⟩ := ids whole
    refine ⟨inner,fun handler decoders found present => ⟨within handler decoders found present,?_⟩⟩
    intro decoder left req consume_len entry decoded _
    obtain ⟨same,inside⟩ :=
      fit handler (List.mem_of_getElem? found) decoders present decoder (List.mem_of_getElem? entry) _ _ _ _ _ decoded
    exact ⟨same ▸ within handler decoders found present,inside⟩

/-- A connection of the server, from its first read on; the unread bytes of its `n`-th callback lie at `buf n`. -/
def Turns (good : Nat → Window UInt8 → Prop) (inserted : Nat → Bool) (fuel : Nat) (heap : Nat → Nat → UInt8)
    (buf : Nat → UInt64) (chunks : List (List UInt8)) : Prop :=
  EveryTurn (serverTurn tables.param inserted) tables.read_buffer_size fuel heap buf good 1
    (startReading (heap 0) tables.read_buffer_size 0) chunks

/-- Every turn of a run stays inside, and every request it hands out can be served. -/
structure StaysInside (inserted : Nat → Bool) (fuel : Nat) (heap : Nat → Nat → UInt8) (buf : Nat → UInt64)
    (chunks : List (List UInt8)) : Prop where
  turns : Turns tables (Inside tables inserted) inserted fuel heap buf chunks
  requests : ∀ reqw ∈ (receive (serverTurn tables.param inserted) tables.read_buffer_size fuel heap buf 1
    (startReading (heap 0) tables.read_buffer_size 0) chunks).1, Served tables reqw

/-- A run stays inside the tables exactly when each of its turns is safe. -/
theorem dispatch_inside_iff (inserted : Nat → Bool) (fuel : Nat) (heap : Nat → Nat → UInt8) (buf : Nat → UInt64)
    (chunks : List (List UInt8)) : StaysInside tables inserted fuel heap buf chunks ↔
      Turns tables (Safe tables inserted) inserted fuel heap buf chunks := by
  have same : Turns tables (Inside tables inserted) inserted fuel heap buf chunks ↔
      Turns tables (Safe tables inserted) inserted fuel heap buf chunks :=
    everyTurn_congr _ _ _ heap buf (inside_iff inserted) 1 _ chunks
  constructor
  · intro inside
    exact same.mp inside.turns
  · intro safe
    refine ⟨same.mpr safe,receive_items _ _ _ heap buf ?_ (same.mpr safe)⟩
    intro jobs w left reqw size jobs' inside look
    exact (inside.request left reqw size jobs' look).1

def monTables (read_buffer_size : Nat) : HandlerTables Unit Unit where
  request_handler := [⟨⟨0,some (DecodeInPlace.clusterRequestDecoder.map some)⟩,List.replicate 9 (),List.replicate 9 (),by
    rintro decoders ⟨⟩
    exact ⟨rfl,rfl⟩⟩]
  read_buffer_size := read_buffer_size
  small := by decide

/-- At the monitor the two ids alone decide. -/
theorem mon_safe_iff : Safe (monTables read_buffer_size) inserted jobs w ↔ (4 ≤ w.bytes.length →
    (field16 0 w.bytes).toNat ≠ 1 ∧ ((field16 0 w.bytes).toNat = 0 → (field16 2 w.bytes).toNat < 9)) := by
  rw [safe_iff_ids]
  · simp only [monTables,List.length_singleton,List.getElem?_singleton]
    constructor
    · intro ids whole
      obtain ⟨inner,within⟩ := ids whole
      exact ⟨inner,fun first => within _ _ (if_pos first) rfl⟩
    · intro ids whole
      obtain ⟨inner,within⟩ := ids whole
      refine ⟨inner,fun handler decoders found present => ?_⟩
      by_cases first : (field16 0 w.bytes).toNat = 0
      · rw [if_pos first] at found
        cases found
        cases present
        exact within first
      · simp [first] at found
  · intro handler member decoders present decoder listed
    cases List.mem_singleton.mp member
    cases present
    obtain ⟨_,member,same⟩ := List.mem_map.mp listed
    cases same
    exact services_fit (.inl member)

/-- The boundary resource id, and the boundary request id. -/
theorem not_inside_boundary :
    ¬StaysInside (monTables 16) (fun _ => true) 8 (fun _ _ => 0) (fun _ => 4096) [[1,0,0,0]] ∧
    ¬StaysInside (monTables 16) (fun _ => true) 8 (fun _ _ => 0) (fun _ => 4096) [[0,0,9,0]] := by
  constructor
  · intro inside
    have safe := (inside_iff _ _ _).mp (inside.turns.1 _ _ .here)
    exact (safe (by decide)).1 (by decide)
  · intro inside
    have safe := (inside_iff _ _ _).mp (inside.turns.1 _ _ .here)
    have within := ((safe (by decide)).2 _ _ rfl rfl).1
    exact absurd within (by decide)

end Dispatch
end Muti
