import Mathlib.Logic.Function.Basic
import Muti.Agreement
import Muti.ReadBuffer

/-! The client's read callback: a response is given to the waiting request that carries
its sequence, and decoded by the decoder of that request. -/
namespace Muti

/-- A waiting request; `arg` identifies the caller's callback. -/
structure ClientSendArg (δ : Type := Resource.Decoder Reply) where
  sequence : UInt32
  decoder : δ
  arg : Nat

structure ClientJob where
  arg : Nat
  response : Reply
  deriving DecidableEq

/-- The `CLIENT_WAITING_HASH_LEN` lists of waiting requests. -/
abbrev WaitingHashSlots (δ : Type := Resource.Decoder Reply) : Type := Fin 128 → List (ClientSendArg δ)

namespace Client

open Muti.Bytes Muti.Memory Muti.Resource Muti.Framing Muti.ReadBuffer Muti.Agreement Muti.Object Muti.Cluster

/-- `sequence & (CLIENT_WAITING_HASH_LEN - 1)`. -/
def hash (sequence : UInt32) : Fin 128 :=
  ⟨(sequence &&& 127).toNat,by
    have masked : sequence.toNat &&& 127 ≤ 127 := Nat.and_le_right
    rw [UInt32.toNat_and]
    exact Nat.lt_of_le_of_lt masked (by omega)⟩

/-- Put a request back at the head of its slot, whose other requests are `others`. -/
def listAdd (slots : WaitingHashSlots δ) (send_arg : ClientSendArg δ) (others : List (ClientSendArg δ)) :
    WaitingHashSlots δ :=
  Function.update slots (hash send_arg.sequence) (send_arg :: others)

/-- One turn of the loop of `clientReadCallback` with decoders that only read. The request is unlinked before its
response is decoded, and put back when that is not complete. -/
def clientNext : Parser WaitingHashSlots UInt8 ClientJob Fault := fun slots buf =>
  if buf.length < 8 then .more slots
  else
    let resp := responseAt buf
    let slot := slots (hash resp.sequence)
    match slot.find? (·.sequence == resp.sequence) with
    | none => .stop slots
    | some send_arg =>
      let others := slot.eraseP (·.sequence == resp.sequence)
      match decodeResponse send_arg.decoder buf with
      | .error reason => .fault reason
      | .ok .more => .more (listAdd slots send_arg others)
      | .ok (.message resp consume_len) =>
        .item ⟨send_arg.arg,resp⟩ consume_len.toNat (Function.update slots (hash send_arg.sequence) others)

def clientReadCallback (read_buffer_size : Nat) := readCallback clientNext read_buffer_size

/-- The waiting request a message answers: the only one in its slot with the message's
sequence, and its decoder frames the message. -/
structure Answers (slots : WaitingHashSlots) (m : Message UInt8 ClientJob) (send_arg : ClientSendArg) : Prop where
  waiting : send_arg ∈ slots (hash send_arg.sequence)
  only : ∀ other ∈ slots (hash send_arg.sequence), other.sequence = send_arg.sequence → other = send_arg
  arg : m.item.arg = send_arg.arg
  frames : Frames (decodeResponse send_arg.decoder) m.encoded m.item.response
  sequence : (responseAt m.encoded).sequence = send_arg.sequence
  header : 8 ≤ m.encoded.length

/-- Every message answers a waiting request, no two messages the same sequence. -/
structure Awaits (slots : WaitingHashSlots) (messages : List (Message UInt8 ClientJob)) : Prop where
  each : ∀ m ∈ messages, ∃ send_arg, Answers slots m send_arg
  distinct : (messages.map fun m => (responseAt m.encoded).sequence).Nodup

theorem responseAt_append (front back : List UInt8) (header : 8 ≤ front.length) :
    responseAt (front ++ back) = responseAt front := by
  have error_id : field32 0 (front ++ back) = field32 0 front := by
    rw [field32,field32,field_append _ _ _ _ (by omega)]
  have sequence : field32 4 (front ++ back) = field32 4 front := by
    rw [field32,field32,field_append _ _ _ _ (by omega)]
  rw [responseAt,responseAt,error_id,sequence]

/-- The search in a slot finds the request a message answers. -/
theorem Answers.found (answers : Answers slots m send_arg) :
    (slots (hash send_arg.sequence)).find? (·.sequence == send_arg.sequence) = some send_arg := by
  cases looked : (slots (hash send_arg.sequence)).find? (·.sequence == send_arg.sequence) with
  | none =>
    have missed := List.find?_eq_none.mp looked send_arg answers.waiting
    simp at missed
  | some other =>
    have matched := List.find?_some looked
    rw [answers.only other (List.mem_of_find?_eq_some looked) (by simpa using matched)]

def unlinked (slots : WaitingHashSlots) (sequence : UInt32) : WaitingHashSlots :=
  Function.update slots (hash sequence) ((slots (hash sequence)).eraseP (·.sequence == sequence))

theorem answers_unlinked (answers : Answers slots m send_arg) {taken : UInt32} (other : send_arg.sequence ≠ taken) :
    Answers (unlinked slots taken) m send_arg := by
  obtain ⟨waiting,only,arg,frames,same,header⟩ := answers
  refine ⟨?_,?_,arg,frames,same,header⟩
  · by_cases here : hash send_arg.sequence = hash taken
    · rw [unlinked,← here,Function.update_self]
      exact (List.mem_eraseP_of_neg (by simpa using other)).mpr waiting
    · rwa [unlinked,Function.update_of_ne here]
  · by_cases here : hash send_arg.sequence = hash taken
    · rw [unlinked,← here,Function.update_self]
      exact fun entry member => only entry (List.mem_of_mem_eraseP member)
    · rwa [unlinked,Function.update_of_ne here]

/-- Unlinking a request and putting it back at the head keeps who is waiting. -/
theorem mem_relinked (answers : Answers slots m send_arg) (i : Fin 128) (entry : ClientSendArg) :
    entry ∈ listAdd slots send_arg ((slots (hash send_arg.sequence)).eraseP (·.sequence == send_arg.sequence)) i ↔
      entry ∈ slots i := by
  by_cases here : i = hash send_arg.sequence
  · subst here
    rw [listAdd,Function.update_self,List.mem_cons]
    constructor
    · rintro (rfl | member)
      · exact answers.waiting
      · exact List.mem_of_mem_eraseP member
    · intro member
      by_cases same : entry.sequence = send_arg.sequence
      · exact .inl (answers.only entry member same)
      · exact .inr ((List.mem_eraseP_of_neg (by simpa using same)).mpr member)
  · rw [listAdd,Function.update_of_ne here]

theorem answers_relinked {slots slots' : WaitingHashSlots} (answers : Answers slots m send_arg)
    (same : ∀ i entry, entry ∈ slots' i ↔ entry ∈ slots i) : Answers slots' m send_arg where
  waiting := (same _ _).mpr answers.waiting
  only := fun other member => answers.only other ((same _ _).mp member)
  arg := answers.arg
  frames := answers.frames
  sequence := answers.sequence
  header := answers.header

theorem clientNext_serves : Serves clientNext Awaits where
  hungry := by
    intro slots awaits
    exact ⟨slots,rfl,awaits⟩
  whole := by
    intro slots m messages back awaits
    obtain ⟨send_arg,answers⟩ := awaits.each m List.mem_cons_self
    have enough : ¬(m.encoded ++ back).length < 8 := by
      have header := answers.header
      rw [List.length_append]
      omega
    have header := responseAt_append m.encoded back answers.header
    have size := toNat_ofNat_small answers.frames.fits
    refine ⟨unlinked slots send_arg.sequence,?_,?_,?_⟩
    · simp only [clientNext,if_neg enough,header,answers.sequence,answers.found,answers.frames.whole,size]
      rw [← answers.arg]
      rfl
    · intro m' member
      obtain ⟨send_arg',answers'⟩ := awaits.each m' (List.mem_cons_of_mem _ member)
      refine ⟨send_arg',answers_unlinked answers' ?_⟩
      rw [← answers'.sequence,← answers.sequence]
      intro same
      exact (List.nodup_cons.mp awaits.distinct).1 (List.mem_map.mpr ⟨m',member,same⟩)
    · exact (List.nodup_cons.mp awaits.distinct).2
  short := by
    intro slots m messages p awaits before proper
    by_cases early : p.length < 8
    · exact ⟨slots,by simp [clientNext,early],awaits⟩
    · obtain ⟨send_arg,answers⟩ := awaits.each m List.mem_cons_self
      have stop := answers.frames.short p before proper
      obtain ⟨rest,split⟩ := before
      have header := responseAt_append p rest (by omega)
      rw [split] at header
      let others := (slots (hash send_arg.sequence)).eraseP (·.sequence == send_arg.sequence)
      refine ⟨listAdd slots send_arg others,?_,fun m' member => ?_,awaits.distinct⟩
      · simp only [clientNext,if_neg early,← header,answers.sequence,answers.found,stop]
        rfl
      · obtain ⟨send_arg',answers'⟩ := awaits.each m' member
        exact ⟨send_arg',answers_relinked answers' (mem_relinked answers)⟩
  nonempty := by
    intro slots m messages awaits
    obtain ⟨send_arg,answers⟩ := awaits.each m List.mem_cons_self
    have header := answers.header
    exact List.ne_nil_of_length_pos (by omega)

end Client
end Muti
