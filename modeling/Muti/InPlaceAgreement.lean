import Muti.Progress

/-! Where no path length wraps around, decoding in place finds what reading finds: a pointer stored in
a put, and the links stored in the objects of a list, are never read again as anything else. -/
namespace Muti.InPlaceAgreement

open Muti.Bytes Muti.Memory Muti.InPlace Muti.DecodeInPlace Muti.DecoderBounds Muti.Server Muti.Progress
open Muti.Framing hiding Parser drain
open Muti.Resource hiding decodeResponse decodeResponse_eq errorOr

/-- What is decoded in place is what is read: `again` holds of the bytes when more are asked for, and a
message keeps the bytes behind it. -/
inductive DecodesAs (again : List UInt8 → Prop) (item : List UInt8 → α → γ → Prop) (buffer : List UInt8) :
    Except Fault (List UInt8 × Decoded α) → Except Fault (Decoded γ) → Prop
  | more (kept : again left) : DecodesAs again item buffer (.ok (left,.more)) (.ok .more)
  | message (items : item left a c) (behind : left.drop consume_len.toNat = buffer.drop consume_len.toNat) :
    DecodesAs again item buffer (.ok (left,.message a consume_len)) (.ok (.message c consume_len))
  | error : DecodesAs again item buffer (.error reason) (.error reason)

theorem reads_decodesAs {again : List UInt8 → Prop} {item : List UInt8 → α → α → Prop} (decode : Decoder α)
    (address : UInt64) (kept : again buffer) (same : ∀ a, item buffer a a) :
    DecodesAs again item buffer ((reads decode).decode address buffer) (decode buffer) := by
  rcases answer : decode buffer with reason | _ | ⟨a,consume_len⟩
  · simp only [reads,answer,Except.map]
    exact .error
  · simp only [reads,answer,Except.map]
    exact .more kept
  · simp only [reads,answer,Except.map]
    exact .message (same a) rfl

def SameRequest (req plain : ReceivedRequest) : Prop :=
  req = plain ∨ ∃ pointer, req = { plain with bytes := storePointer plain.bytes 32 pointer }

def LeftAs (buffer left : List UInt8) (req plain : ReceivedRequest) : Prop :=
  field16 2 left = field16 2 buffer ∧ SameRequest req plain

theorem put_decodesAs (fits : PathFits 48 24 buffer) (address : UInt64) : DecodesAs (· = buffer) (LeftAs buffer) buffer
    (objectRequestDecoderPut.decode address buffer) (Object.objectRequestDecoderPut buffer) := by
  have same : (48 : UInt64).toNat = 48 := rfl
  by_cases early : buffer.length < 48
  · simp only [objectRequestDecoderPut,Object.objectRequestDecoderPut,pathDecoder,same,if_pos early]
    exact .more rfl
  by_cases short : buffer.length < (48 + field64 24 buffer).toNat
  · simp only [objectRequestDecoderPut,Object.objectRequestDecoderPut,pathDecoder,same,if_neg early,if_pos short]
    exact .more rfl
  simp only [objectRequestDecoderPut,Object.objectRequestDecoderPut,pathDecoder,same,if_neg early,if_neg short]
  have unwrapped : 48 + (field64 24 buffer).toNat < 2 ^ 64 := fits (Nat.le_of_not_lt early)
  have size : (48 + field64 24 buffer).toNat = 48 + (field64 24 buffer).toNat := by
    rw [UInt64.toNat_add,same,Nat.mod_eq_of_lt unwrapped]
  refine .message ⟨field16_storePointer (by omega),.inr ⟨address + 48,?_⟩⟩ (store_drop (by simp; omega) (by simp; omega))
  rw [Object.receive,storePointer,store_take_comm (by simp; omega)]
  rfl

structure SameItem (reqw plain : SRequest) : Prop where
  req_handler : reqw.req_handler = plain.req_handler
  request_id : reqw.request_id = plain.request_id
  request : SameRequest reqw.request plain.request

/-- One turn in place agrees with one that reads where the decoders do. -/
theorem serverTurn_agrees (decoders : List (InPlaceDecoder ReceivedRequest)) (plain : List (Decoder ReceivedRequest))
    (each : field16 0 w.bytes = 0 → ∀ decoder decode, decoders[(field16 2 w.bytes).toNat]? = some decoder →
      plain[(field16 2 w.bytes).toNat]? = some decode →
      DecodesAs (· = w.bytes) (LeftAs w.bytes) w.bytes (decoder.decode w.address w.bytes) (decode w.bytes))
    (same : decoders.length = plain.length) (read_buffer_size jobs : Nat) :
    Agrees (fun _ _ => True) SameItem w.bytes
      ((serverTurn (oneHandler decoders read_buffer_size) fun _ => true).look jobs w)
      (serverNext (oneHandler plain read_buffer_size) true () w.bytes) := by
  by_cases early : w.bytes.length < 4
  · simp only [serverTurn,serverNext,if_pos early]
    exact .more trivial
  simp only [serverTurn,serverNext,if_neg early,select_one]
  by_cases zero : (field16 0 w.bytes).toNat = 0
  rotate_left
  · by_cases one : (field16 0 w.bytes).toNat = 1
    · simp only [if_neg zero,if_pos one]
      exact .fault
    · simp only [if_neg zero,if_neg one]
      exact .stop trivial
  simp only [if_pos zero,Memory.read,List.getElem?_map]
  by_cases within : (field16 2 w.bytes).toNat < decoders.length
  · have listed := List.getElem?_eq_getElem within
    have listed' := List.getElem?_eq_getElem (same ▸ within)
    have decoded := each (UInt16.toNat_inj.mp zero) _ _ listed listed'
    rw [listed,listed']
    simp only [Option.map_some]
    generalize decoders[(field16 2 w.bytes).toNat].decode w.address w.bytes = inPlace at decoded
    generalize plain[(field16 2 w.bytes).toNat] w.bytes = plainly at decoded
    cases decoded with
    | more kept =>
      rw [kept]
      exact .more trivial
    | message items behind => exact .item trivial ⟨rfl,items.1,items.2⟩ behind
    | error => exact .fault
  · rw [List.getElem?_eq_none (Nat.le_of_not_lt within),List.getElem?_eq_none (same ▸ Nat.le_of_not_lt within)]
    exact .fault

theorem objectServer_agrees (read_buffer_size : Nat) (fits : ServerFits jobs w) : Agrees (fun _ _ => True) SameItem w.bytes
    ((serverTurn (oneHandler objectRequestDecoder read_buffer_size) fun _ => true).look jobs w)
    (serverNext (serverParam osHandlers read_buffer_size) true () w.bytes) := by
  refine serverTurn_agrees objectRequestDecoder Object.objectRequestDecoder ?_ rfl read_buffer_size jobs
  intro resource decoder decode listed listed'
  have put := fits resource
  generalize (field16 2 w.bytes).toNat = id at listed listed' put
  match id with
  | 0 | 2 | 3 | 4 =>
    cases listed
    cases listed'
    exact reads_decodesAs _ w.address rfl fun _ => ⟨rfl,.inl rfl⟩
  | 1 =>
    cases listed
    cases listed'
    exact put_decodesAs (put rfl) w.address
  | id + 5 => cases listed

theorem clusterServer_agrees (read_buffer_size jobs : Nat) (w : Window UInt8) : Agrees (fun _ _ => True) SameItem w.bytes
    ((serverTurn (oneHandler clusterRequestDecoder read_buffer_size) fun _ => true).look jobs w)
    (serverNext (serverParam monHandlers read_buffer_size) true () w.bytes) := by
  refine serverTurn_agrees clusterRequestDecoder Cluster.clusterRequestDecoder ?_ rfl read_buffer_size jobs
  intro resource decoder decode listed listed'
  rw [clusterRequestDecoder,List.getElem?_map,listed'] at listed
  cases listed
  exact reads_decodesAs _ w.address rfl fun _ => ⟨rfl,.inl rfl⟩

/-- As long as the paths of the puts fit, the loop of an object service hands out what it does over decoders
that only read. -/
theorem objectServer_drains (read_buffer_size fuel : Nat)
    (fits : Throughout (serverTurn (oneHandler objectRequestDecoder read_buffer_size) fun _ => true) ServerFits jobs w) :
    List.Forall₂ SameItem (drain (serverTurn (oneHandler objectRequestDecoder read_buffer_size) fun _ => true) fuel jobs w).1
      (Framing.drain (serverNext (serverParam osHandlers read_buffer_size) true) fuel () w.bytes).1 ∧
    EndsAs (fun _ _ => True)
      (drain (serverTurn (oneHandler objectRequestDecoder read_buffer_size) fun _ => true) fuel jobs w).2
      (Framing.drain (serverNext (serverParam osHandlers read_buffer_size) true) fuel () w.bytes).2 :=
  drain_agrees (fun _ _ _ _ fits => objectServer_agrees read_buffer_size fits) fuel trivial fits

/-- The loop of the monitor always does. -/
theorem clusterServer_drains (read_buffer_size fuel jobs : Nat) (w : Window UInt8) :
    List.Forall₂ SameItem (drain (serverTurn (oneHandler clusterRequestDecoder read_buffer_size) fun _ => true) fuel jobs w).1
      (Framing.drain (serverNext (serverParam monHandlers read_buffer_size) true) fuel () w.bytes).1 ∧
    EndsAs (fun _ _ => True)
      (drain (serverTurn (oneHandler clusterRequestDecoder read_buffer_size) fun _ => true) fuel jobs w).2
      (Framing.drain (serverNext (serverParam monHandlers read_buffer_size) true) fuel () w.bytes).2 := by
  have always : Throughout (serverTurn (oneHandler clusterRequestDecoder read_buffer_size) fun _ => true)
    (fun _ _ => True) jobs w := fun _ _ _ => trivial
  exact drain_agrees (fun jobs w _ _ _ => clusterServer_agrees read_buffer_size jobs w) fuel trivial always

/-- Adding the lengths of `n` objects from position `s` on does not wrap around, as far as they lie in the buffer. -/
def Unwrapped (buffer : List UInt8) : Nat → UInt64 → Prop
  | 0, _ => True
  | n + 1, s => s.toNat + 40 ≤ buffer.length → s.toNat + 40 + (field64 (s.toNat + 16) buffer).toNat < 2 ^ 64 ∧
      Unwrapped buffer n (s + 40 + field64 (s.toNat + 16) buffer)

theorem object_end {s path_length : UInt64} (ends : (s + 40).toNat = s.toNat + 40)
    (room : s.toNat + 40 + path_length.toNat < 2 ^ 64) : (s + 40 + path_length).toNat = s.toNat + 40 + path_length.toNat := by
  rw [UInt64.toNat_add,ends,Nat.mod_eq_of_lt room]

/-- The buffer `linked` is `buffer` from position `s` on, and `tail` lies before that. -/
structure Behind (buffer linked : List UInt8) (tail : Option Nat) (s : Nat) : Prop where
  length : linked.length = buffer.length
  bytes : linked.drop s = buffer.drop s
  before : ∀ t ∈ tail, t + 40 ≤ s
  inside : s ≤ buffer.length

theorem Behind.field {linked : List UInt8} {tail : Option Nat} (behind : Behind buffer linked tail s) (offset : Nat) :
    field64 (s + offset) linked = field64 (s + offset) buffer := by
  rw [field64,field64,Bytes.field,Bytes.field,← List.drop_drop,← List.drop_drop,behind.bytes]

/-- Linking an object leaves what lies behind it. -/
theorem Behind.linked {linked : List UInt8} {tail : Option Nat} (behind : Behind buffer linked tail s) (address head : UInt64)
    (room : s + 40 ≤ e) (whole : e ≤ buffer.length) : Behind buffer (listAddTail address head tail s linked) (some s) e := by
  obtain ⟨length,bytes,before,inside⟩ := behind
  refine ⟨by rw [listAddTail_length,length],?_,by simpa using room,whole⟩
  have kept : linked.drop e = buffer.drop e := by
    obtain ⟨more,rfl⟩ := Nat.exists_eq_add_of_le (Nat.le_trans (Nat.le_add_right s 40) room)
    rw [← List.drop_drop,← List.drop_drop,bytes]
  have skip : ∀ (block : List UInt8) (i : Nat) (pointer : UInt64), block.length = buffer.length → i + 8 ≤ e →
      (storePointer block i pointer).drop e = block.drop e := by
    intro block i pointer same low
    exact store_drop (by simpa using low) (by simp; omega)
  cases tail with
  | none =>
    simp only [listAddTail]
    rw [skip _ _ _ (by simpa) (by omega),skip _ _ _ length (by omega),kept]
  | some t =>
    have early := before t rfl
    simp only [listAddTail]
    rw [skip _ _ _ (by simpa) (by omega),skip _ _ _ (by simpa) (by omega),skip _ _ _ length (by omega),kept]

/-- The loop in place ends as the one that reads; its objects lie where that one reads them. -/
inductive LoopsAs (buffer : List UInt8) : Except Fault (List UInt8 × Option (List Nat × UInt64)) →
    Except Fault (Option (List Object × UInt64)) → Prop
  | short : LoopsAs buffer (.ok (left,none)) (.ok none)
  | whole (behind : left.drop len.toNat = buffer.drop len.toNat) :
    LoopsAs buffer (.ok (left,some (objects,len))) (.ok (some (objects.map fun s => Object.objectAt s buffer,len)))
  | error : LoopsAs buffer (.error reason) (.error reason)

theorem objectListLoop_loopsAs {linked : List UInt8} {tail : Option Nat} (small : buffer.length < 2 ^ 63)
    (unwrapped : Unwrapped buffer n s) (behind : Behind buffer linked tail s.toNat) (address head : UInt64) (i : Nat) :
    LoopsAs buffer (objectListLoop address head n i tail s linked) (Records.loop Object.objectLayout buffer n i s) := by
  have size : Object.objectLayout.size = 40 := rfl
  have offset : Object.objectLayout.offset = 16 := rfl
  induction n generalizing i tail s linked with
  | zero => exact .whole behind.bytes
  | succ n ih =>
    have ends := header_end small behind.inside
    have same : linked.length = buffer.length := behind.length
    by_cases header : buffer.length < (s + 40).toNat
    · simp only [objectListLoop,Records.loop,size,same,if_pos header]
      exact .short
    obtain ⟨room,later⟩ := unwrapped (by omega)
    have len := object_end ends room
    by_cases path : buffer.length < (s + 40 + field64 (s.toNat + 16) buffer).toNat
    · simp only [objectListLoop,Records.loop,size,offset,same,behind.field,if_neg header,if_pos path]
      exact .short
    by_cases counter : i + 1 = 2 ^ 31
    · simp only [objectListLoop,Records.loop,size,offset,same,behind.field,if_neg header,if_neg path,if_pos counter]
      exact .error
    have rest := ih later (behind.linked address head (e := (s + 40 + field64 (s.toNat + 16) buffer).toNat) (by omega)
      (by omega)) (i + 1)
    simp only [objectListLoop,Records.loop,size,offset,same,behind.field,if_neg header,if_neg path,if_neg counter]
    generalize objectListLoop address head n (i + 1) (some s.toNat) (s + 40 + field64 (s.toNat + 16) buffer)
      (listAddTail address head tail s.toNat linked) = inPlace at rest
    generalize Records.loop Object.objectLayout buffer n (i + 1) (s + 40 + field64 (s.toNat + 16) buffer) = plainly at rest
    cases rest with
    | short => exact .short
    | whole behind => exact .whole behind
    | error => exact .error

theorem objectsFit_of_unwrapped {linked : List UInt8} {tail : Option Nat} (small : buffer.length < 2 ^ 63)
    (unwrapped : Unwrapped buffer n s) (behind : Behind buffer linked tail s.toNat) (address head : UInt64) :
    ObjectsFit address head n tail s linked := by
  induction n generalizing tail s linked with
  | zero => exact trivial
  | succ n ih =>
    have ends := header_end small behind.inside
    have same : linked.length = buffer.length := behind.length
    cases n with
    | zero =>
      intro header
      have room := (unwrapped (by omega)).1
      rw [behind.field,ends]
      exact .inl room
    | succ n =>
      intro header path
      obtain ⟨room,later⟩ := unwrapped (by omega)
      rw [behind.field] at path ⊢
      have len := object_end ends room
      exact ih later (behind.linked address head (by omega) (by omega))

theorem listFits_of_unwrapped (small : w.bytes.length < 2 ^ 63)
    (unwrapped : 12 ≤ w.bytes.length → Unwrapped w.bytes (field32 8 w.bytes).toNat 12) (head : UInt64) : ListFits head w :=
  fun inside _ => objectsFit_of_unwrapped small (unwrapped inside) ⟨rfl,rfl,by simp,inside⟩ w.address head

def SameList (reply plain : Reply) : Prop :=
  ∃ super length objects objects', reply = .objectList super length objects ∧ plain = .objectList super length objects' ∧
    objects.length = objects'.length

/-- A list whose lengths do not wrap around is decoded in place as it is read. -/
theorem decodeObjectList_decodesAs (small : buffer.length < 2 ^ 63)
    (unwrapped : 12 ≤ buffer.length → Unwrapped buffer (field32 8 buffer).toNat 12) (address head : UInt64) :
    DecodesAs (fun _ => True) (fun _ => SameList) buffer ((decodeObjectList head).decode address buffer)
      (Object.decodeObjectList buffer) := by
  by_cases early : buffer.length < 12
  · simp only [decodeObjectList,Object.decodeObjectList,if_pos early]
    exact .more trivial
  have inside : (12 : UInt64).toNat ≤ buffer.length := Nat.le_of_not_lt early
  have behind : Behind buffer buffer none (12 : UInt64).toNat := ⟨rfl,rfl,by simp,inside⟩
  have run := objectListLoop_loopsAs small (unwrapped inside) behind address head 0
  simp only [decodeObjectList,Object.decodeObjectList,if_neg early]
  generalize objectListLoop address head (field32 8 buffer).toNat 0 none 12 buffer = inPlace at run
  generalize Records.loop Object.objectLayout buffer (field32 8 buffer).toNat 0 12 = plainly at run
  cases run with
  | short => exact .more trivial
  | whole behind => exact .message ⟨_,_,_,_,rfl,rfl,by simp⟩ behind
  | error => exact .error

end Muti.InPlaceAgreement
