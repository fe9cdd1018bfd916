import Muti.Agreement
import Muti.ResponseBlock

/-! Decoders that write to the buffer they decode. A put gets the pointer to its path, the objects
of a list are linked where they lie, also when the list turns out to be incomplete; what is stored
is what the next look at the buffer finds. -/
namespace Muti

open Muti.Memory Muti.Resource

/-- What a decoder leaves of a buffer at some address, and what it makes of it. -/
@[ext] structure InPlaceDecoder (α : Type) where
  decode : UInt64 → List UInt8 → Except Fault (List UInt8 × Decoded α)
  sized : ∀ {address buffer left decoded}, decode address buffer = .ok (left,decoded) → left.length = buffer.length

namespace DecodeInPlace

open Muti.Bytes Muti.Object

def reads (decode : Decoder α) : InPlaceDecoder α where
  decode _ buffer := (decode buffer).map fun decoded => (buffer,decoded)
  sized := by
    intro _ buffer left decoded done
    cases answer : decode buffer with
    | error reason => simp [answer,Except.map] at done
    | ok value =>
      simp only [answer,Except.map,Except.ok.injEq,Prod.mk.injEq] at done
      rw [done.1]

def storePointer (buffer : List UInt8) (i : Nat) (pointer : UInt64) : List UInt8 := store buffer i (image64 pointer)

@[simp] theorem storePointer_length (buffer : List UInt8) (i : Nat) (pointer : UInt64) :
    (storePointer buffer i pointer).length = buffer.length := store_length ..

theorem field_storePointer {buffer : List UInt8} (before : offset + k ≤ i) :
    field offset k (storePointer buffer i pointer) = field offset k buffer := by
  rw [field,field,List.take_drop,List.take_drop,storePointer,store_take before]

theorem field16_storePointer {buffer : List UInt8} (before : offset + 2 ≤ i) :
    field16 offset (storePointer buffer i pointer) = field16 offset buffer := by
  rw [field16,field16,field_storePointer before]

/-- The path is made to point behind the struct. -/
def objectRequestDecoderPut : InPlaceDecoder ReceivedRequest where
  decode address buffer :=
    if buffer.length < 48 then .ok (buffer,.more)
    else
      let req_len := 48 + field64 24 buffer
      if buffer.length < req_len.toNat then .ok (buffer,.more)
      else
        let buffer := storePointer buffer 32 (address + 48)
        .ok (buffer,.message (receive (some 48) (buffer.take req_len.toNat)) req_len)
  sized := by
    intro address buffer left decoded done
    split at done
    · cases done
      rfl
    simp only at done
    split at done
    · cases done
      rfl
    · cases done
      exact storePointer_length ..

def objectRequestDecoder : List (InPlaceDecoder ReceivedRequest) :=
  [reads objectRequestDecoderGet,objectRequestDecoderPut,reads objectRequestDecoderList,reads objectRequestDecoderDelete,
    reads objectRequestDecoderStop]

def clusterRequestDecoder : List (InPlaceDecoder ReceivedRequest) := Cluster.clusterRequestDecoder.map reads

/-- The object at `s` becomes the last of the list at `head`; the last before it lies at `tail`. -/
def listAddTail (address head : UInt64) (tail : Option Nat) (s : Nat) (buffer : List UInt8) : List UInt8 :=
  let element := address + UInt64.ofNat s
  let prev := (tail.map fun t => address + UInt64.ofNat t).getD head
  let buffer := storePointer (storePointer buffer s head) (s + 8) prev
  match tail with
  | none => buffer
  | some t => storePointer buffer t element

@[simp] theorem listAddTail_length (address head : UInt64) (tail : Option Nat) (s : Nat) (buffer : List UInt8) :
    (listAddTail address head tail s buffer).length = buffer.length := by
  cases tail <;> simp [listAddTail]

/-- `n` more objects from position `s` on, the `i`-th being next, behind the one at `tail`: where they
lie and where they end. The buffer ends before them in `err_out`. -/
def objectListLoop (address head : UInt64) : Nat → Nat → Option Nat → UInt64 → List UInt8 →
    Except Fault (List UInt8 × Option (List Nat × UInt64))
  | 0, _, _, len, buffer => .ok (buffer,some ([],len))
  | n + 1, i, tail, s, buffer =>
    if buffer.length < (s + 40).toNat then .ok (buffer,none)
    else
      let len := s + 40 + field64 (s.toNat + 16) buffer
      if buffer.length < len.toNat then .ok (buffer,none)
      else if i + 1 = 2 ^ 31 then .error .overflow
      else do
        match ← objectListLoop address head n (i + 1) (some s.toNat) len (listAddTail address head tail s.toNat buffer) with
        | (left,none) => .ok (left,none)
        | (left,some (objects,len)) => .ok (left,some (s.toNat :: objects,len))

/-- One turn of the loop: the buffer ends before its object, or it goes on behind that. -/
theorem objectListLoop_turn {address head : UInt64} {tail : Option Nat}
    (done : objectListLoop address head (n + 1) i tail s buffer = .ok (left,found)) :
    (left = buffer ∧ found = none) ∨
    ((s + 40).toNat ≤ buffer.length ∧ (s + 40 + field64 (s.toNat + 16) buffer).toNat ≤ buffer.length ∧ i + 1 ≠ 2 ^ 31 ∧
      ∃ found', objectListLoop address head n (i + 1) (some s.toNat) (s + 40 + field64 (s.toNat + 16) buffer)
        (listAddTail address head tail s.toNat buffer) = .ok (left,found') ∧
        found = found'.map fun rest => (s.toNat :: rest.1,rest.2)) := by
  by_cases header : buffer.length < (s + 40).toNat
  · simp only [objectListLoop,if_pos header] at done
    cases done
    exact .inl ⟨rfl,rfl⟩
  by_cases path : buffer.length < (s + 40 + field64 (s.toNat + 16) buffer).toNat
  · simp only [objectListLoop,if_neg header,if_pos path] at done
    cases done
    exact .inl ⟨rfl,rfl⟩
  by_cases counter : i + 1 = 2 ^ 31
  · simp only [objectListLoop,if_neg header,if_neg path,if_pos counter] at done
    cases done
  simp only [objectListLoop,if_neg header,if_neg path,if_neg counter] at done
  obtain ⟨⟨left',found'⟩,rest,ended⟩ := bind_ok.mp done
  refine .inr ⟨Nat.le_of_not_lt header,Nat.le_of_not_lt path,counter,found',?_⟩
  cases found' with
  | none =>
    cases ended
    exact ⟨rest,rfl⟩
  | some found' =>
    cases ended
    exact ⟨rest,rfl⟩

theorem objectListLoop_sized {address head : UInt64} {tail : Option Nat}
    (done : objectListLoop address head n i tail s buffer = .ok (left,found)) : left.length = buffer.length := by
  induction n generalizing i tail s buffer found with
  | zero =>
    cases done
    rfl
  | succ n ih =>
    rcases objectListLoop_turn done with ⟨rfl,-⟩ | ⟨-,-,-,found',rest,-⟩
    · rfl
    · rw [ih rest,listAddTail_length]

/-- The objects are handed out where they lie, as the links have left them. -/
def decodeObjectList (head : UInt64) : InPlaceDecoder Reply where
  decode address buffer :=
    if buffer.length < 12 then .ok (buffer,.more)
    else do
      match ← objectListLoop address head (field32 8 buffer).toNat 0 none 12 buffer with
      | (left,none) => .ok (left,.more)
      | (left,some (objects,len)) =>
        .ok (left,.message (.objectList (responseAt buffer) (field32 8 buffer) (objects.map fun s => objectAt s left)) len)
  sized := by
    intro address buffer left decoded done
    split at done
    · cases done
      rfl
    obtain ⟨⟨left',found⟩,run,ended⟩ := bind_ok.mp done
    have same := objectListLoop_sized run
    cases found <;> (cases ended; exact same)

def errorOr (decoder : InPlaceDecoder Reply) : InPlaceDecoder Reply where
  decode address buffer :=
    if buffer.length < 8 then .ok (buffer,.more)
    else if (responseAt buffer).error_id ≠ 0 then .ok (buffer,.message (.inPlace (buffer.take 8)) 8)
    else decoder.decode address buffer
  sized := by
    intro address buffer left decoded done
    split at done
    · cases done
      rfl
    split at done
    · cases done
      rfl
    · exact decoder.sized done

/-- `head` is the list's head, in the block that is allocated for the response. -/
def objectResponseDecoderList (head : UInt64) : InPlaceDecoder Reply := errorOr (decodeObjectList head)

/-- The decoders of responses, given what `malloc` returns to them. -/
def objectResponseDecoder : List (UInt64 → InPlaceDecoder Reply) :=
  [fun _ => reads objectResponseDecoderGet,fun _ => reads objectResponseDecoderPut,objectResponseDecoderList,
    fun _ => reads objectResponseDecoderDelete,fun _ => reads objectResponseDecoderStop]

def clusterResponseDecoder : List (UInt64 → InPlaceDecoder Reply) :=
  ResponseBlock.clusterResponseDecoder.map fun decode _ => reads decode

/-- The choice made by `clientReadCallback`, once it has a whole header. -/
def decodeResponse (decoder : InPlaceDecoder Reply) : InPlaceDecoder Reply where
  decode address buffer :=
    if buffer.length < 8 then .ok (buffer,.more)
    else if (responseAt buffer).error_id ≠ 0 then (reads errorResponseDecoder).decode address buffer
    else decoder.decode address buffer
  sized := by
    intro address buffer left decoded done
    split at done
    · cases done
      rfl
    split at done
    · exact (reads errorResponseDecoder).sized done
    · exact decoder.sized done

theorem decodeResponse_eq (decoder : InPlaceDecoder Reply) : decodeResponse decoder = errorOr decoder := by
  ext address buffer : 3
  by_cases early : buffer.length < 8
  · simp only [decodeResponse,errorOr,if_pos early]
  · have enough : ¬buffer.length < (8 : UInt64).toNat := early
    simp only [decodeResponse,errorOr,if_neg early,reads,errorResponseDecoder,fixedDecoder,if_neg enough,Except.map]
    rfl

theorem reads_errorOr (decode : Decoder Reply) : reads (Resource.errorOr decode) = errorOr (reads decode) := by
  ext address buffer : 3
  simp only [reads,errorOr,Resource.errorOr]
  split
  · rfl
  split
  · rfl
  · rfl

end DecodeInPlace
end Muti
