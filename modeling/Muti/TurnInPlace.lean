import Muti.Client
import Muti.DecodeInPlace
import Muti.InPlace
import Muti.Server

/-! The loops of the two read callbacks, over decoders that may write to the bytes they look at. -/
namespace Muti

namespace Server

open Muti.Bytes Muti.Memory Muti.Resource Muti.Framing

/-- Both servers have one handler, and a decoder for every entry of its table. -/
def oneHandler (decoders : List δ) (read_buffer_size : Nat) : ServerParam δ :=
  serverParam [⟨0,some (decoders.map some)⟩] read_buffer_size

theorem select_one (decoders : List δ) (read_buffer_size : Nat) (resource_id request_id : UInt16) :
    selectDecoder (oneHandler decoders read_buffer_size) resource_id request_id =
      if resource_id.toNat = 0 then read (decoders.map some) request_id.toNat
      else if resource_id.toNat = 1 then .error .outOfBounds else .ok none := by
  have compared : (oneHandler decoders read_buffer_size).request_handler_length < resource_id ↔ 1 < resource_id.toNat :=
    UInt16.lt_iff_toNat_lt
  have table : (oneHandler decoders read_buffer_size).request_handler = [⟨0,some (decoders.map some)⟩] := rfl
  rw [selectDecoder]
  by_cases zero : resource_id.toNat = 0
  · rw [if_neg (by rw [compared]; omega),if_pos zero,table,zero]
    rfl
  by_cases one : resource_id.toNat = 1
  · rw [if_neg (by rw [compared]; omega),if_neg zero,if_pos one,table,one]
    rfl
  · rw [if_pos (by rw [compared]; omega),if_neg zero,if_neg one]

/-- One turn of the loop of `serverReadCallback`; `inserted n` is what the `n`-th `insertTail` answers.
The actions find the request id where the decoder has left it. -/
def serverTurn (param : ServerParam (InPlaceDecoder ReceivedRequest)) (inserted : Nat → Bool) :
    InPlace.Parser Nat UInt8 SRequest Fault where
  look jobs w :=
    if w.bytes.length < 4 then (w.bytes,.more jobs)
    else match selectDecoder param (field16 0 w.bytes) (field16 2 w.bytes) with
      | .error reason => (w.bytes,.fault reason)
      | .ok none => (w.bytes,.stop jobs)
      | .ok (some reqDecoder) => match reqDecoder.decode w.address w.bytes with
        | .error reason => (w.bytes,.fault reason)
        | .ok (left,.more) => (left,.more jobs)
        | .ok (left,.message req consume_len) =>
          if inserted jobs then
            (left,.item ⟨(field16 0 w.bytes).toNat,field16 2 left,req⟩ consume_len.toNat (jobs + 1))
          else (left,.stop jobs)
  sized := by
    intro jobs w
    split
    · rfl
    rcases selectDecoder param (field16 0 w.bytes) (field16 2 w.bytes) with _ | _ | reqDecoder
    · rfl
    · rfl
    rcases decoded : reqDecoder.decode w.address w.bytes with _ | ⟨left,_ | ⟨req,consume_len⟩⟩
    · simp only [decoded]
    · simpa only [decoded] using reqDecoder.sized decoded
    · cases accepted : inserted jobs <;> simpa [decoded] using reqDecoder.sized decoded

theorem serverTurn_closes {param : ServerParam (InPlaceDecoder ReceivedRequest)} (inserted : Nat → Bool) (jobs : Nat)
    (whole : 4 ≤ w.bytes.length) (selected : selectDecoder param (field16 0 w.bytes) (field16 2 w.bytes) = .ok none) :
    (serverTurn param inserted).look jobs w = (w.bytes,.stop jobs) := by
  simp only [serverTurn,if_neg (Nat.not_lt.mpr whole),selected]

theorem serverTurn_faults {param : ServerParam (InPlaceDecoder ReceivedRequest)} (inserted : Nat → Bool) (jobs : Nat)
    (whole : 4 ≤ w.bytes.length)
    (selected : selectDecoder param (field16 0 w.bytes) (field16 2 w.bytes) = .error reason) :
    (serverTurn param inserted).look jobs w = (w.bytes,.fault reason) := by
  simp only [serverTurn,if_neg (Nat.not_lt.mpr whole),selected]

theorem serverTurn_decodes {param : ServerParam (InPlaceDecoder ReceivedRequest)} (inserted : Nat → Bool) (jobs : Nat)
    (whole : 4 ≤ w.bytes.length)
    (selected : selectDecoder param (field16 0 w.bytes) (field16 2 w.bytes) = .ok (some decoder)) :
    (serverTurn param inserted).look jobs w = match decoder.decode w.address w.bytes with
      | .error reason => (w.bytes,.fault reason)
      | .ok (left,.more) => (left,.more jobs)
      | .ok (left,.message req consume_len) =>
        if inserted jobs then
          (left,.item ⟨(field16 0 w.bytes).toNat,field16 2 left,req⟩ consume_len.toNat (jobs + 1))
        else (left,.stop jobs) := by
  simp only [serverTurn,if_neg (Nat.not_lt.mpr whole),selected]

/-- The items of a loop are requests whose decoder its header selected. -/
theorem serverTurn_item {param : ServerParam (InPlaceDecoder ReceivedRequest)} {size : Nat}
    (look : (serverTurn param inserted).look jobs w = (left,.item reqw size jobs')) :
    ∃ decoder req consume_len, selectDecoder param (field16 0 w.bytes) (field16 2 w.bytes) = .ok (some decoder) ∧
      decoder.decode w.address w.bytes = .ok (left,.message req consume_len) ∧ size = consume_len.toNat ∧
      reqw = ⟨(field16 0 w.bytes).toNat,field16 2 left,req⟩ ∧ inserted jobs = true := by
  by_cases early : w.bytes.length < 4
  · simp [serverTurn,early] at look
  rcases selected : selectDecoder param (field16 0 w.bytes) (field16 2 w.bytes) with reason | _ | decoder
  · simp [serverTurn,early,selected] at look
  · simp [serverTurn,early,selected] at look
  rw [serverTurn_decodes _ _ (Nat.le_of_not_lt early) selected] at look
  rcases decoded : decoder.decode w.address w.bytes with reason | ⟨left',_ | ⟨req,consume_len⟩⟩
  · simp [decoded] at look
  · simp [decoded] at look
  · cases accepted : inserted jobs with
    | false => simp [decoded,accepted] at look
    | true =>
      simp only [decoded,accepted,if_true,Prod.mk.injEq,Next.item.injEq] at look
      obtain ⟨rfl,rfl,same,-⟩ := look
      exact ⟨decoder,req,consume_len,rfl,decoded,same.symm,rfl,rfl⟩

end Server

/-- What the client's loop goes on with: the waiting requests, and how many decoders have been called. -/
structure ClientLoop where
  slots : WaitingHashSlots (UInt64 → InPlaceDecoder Reply)
  decoded : Nat

namespace Client

open Muti.Bytes Muti.Memory Muti.Resource Muti.Framing

/-- The waiting request a response at the front of these bytes is for. -/
def requestFor (slots : WaitingHashSlots δ) (buf : List UInt8) : Option (ClientSendArg δ) :=
  (slots (hash (responseAt buf).sequence)).find? (·.sequence == (responseAt buf).sequence)

/-- One turn of the loop of `clientReadCallback`; `block n` is what `malloc` returns to the `n`-th decoder. The request
is unlinked before its response is decoded, and put back when that is not complete. -/
def clientTurn (block : Nat → UInt64) : InPlace.Parser ClientLoop UInt8 ClientJob Fault where
  look s w :=
    if w.bytes.length < 8 then (w.bytes,.more s)
    else match requestFor s.slots w.bytes with
      | none => (w.bytes,.stop s)
      | some send_arg =>
        let others := (s.slots (hash send_arg.sequence)).eraseP (·.sequence == send_arg.sequence)
        match (DecodeInPlace.decodeResponse (send_arg.decoder (block s.decoded))).decode w.address w.bytes with
        | .error reason => (w.bytes,.fault reason)
        | .ok (left,.more) => (left,.more ⟨listAdd s.slots send_arg others,s.decoded + 1⟩)
        | .ok (left,.message resp consume_len) =>
          (left,.item ⟨send_arg.arg,resp⟩ consume_len.toNat
            ⟨Function.update s.slots (hash send_arg.sequence) others,s.decoded + 1⟩)
  sized := by
    intro s w
    split
    · rfl
    rcases requestFor s.slots w.bytes with _ | send_arg
    · rfl
    rcases decoded : (DecodeInPlace.decodeResponse (send_arg.decoder (block s.decoded))).decode w.address w.bytes with
      _ | ⟨left,_ | ⟨resp,consume_len⟩⟩
    · simp [decoded]
    · simpa [decoded] using InPlaceDecoder.sized _ decoded
    · simpa [decoded] using InPlaceDecoder.sized _ decoded

theorem clientTurn_item {size : Nat} (look : (clientTurn block).look s w = (left,.item job size s')) :
    ∃ send_arg resp consume_len, requestFor s.slots w.bytes = some send_arg ∧
      (DecodeInPlace.decodeResponse (send_arg.decoder (block s.decoded))).decode w.address w.bytes =
        .ok (left,.message resp consume_len) ∧ size = consume_len.toNat ∧ ∀ h, s'.slots h ⊆ s.slots h := by
  by_cases early : w.bytes.length < 8
  · simp [clientTurn,early] at look
  cases found : requestFor s.slots w.bytes with
  | none => simp [clientTurn,early,found] at look
  | some send_arg =>
    rcases decoded : (DecodeInPlace.decodeResponse (send_arg.decoder (block s.decoded))).decode w.address w.bytes with
      reason | ⟨left',_ | ⟨resp,consume_len⟩⟩
    · simp [clientTurn,early,found,decoded] at look
    · simp [clientTurn,early,found,decoded] at look
    simp only [clientTurn,if_neg early,found,decoded,Prod.mk.injEq,Next.item.injEq] at look
    obtain ⟨rfl,-,same,rfl⟩ := look
    refine ⟨send_arg,resp,consume_len,rfl,decoded,same.symm,?_⟩
    intro h
    dsimp only
    by_cases here : h = hash send_arg.sequence
    · subst here
      rw [Function.update_self]
      exact List.eraseP_subset
    · rw [Function.update_of_ne here]
      exact List.Subset.refl _

end Client
end Muti
