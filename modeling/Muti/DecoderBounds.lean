import Muti.ClusterMapCodec
import Muti.DecodeInPlace
import Muti.InPlace

/-! What a decoder says it consumes. A decoded message holds its fixed part and lies in
the buffer, unless adding a path length of 64 bits wraps around; for each decoder this is
an equivalence. -/
namespace Muti

namespace ClusterMap

open Muti.Memory Muti.Reader

theorem parseHeader_advances (i : Nat) (m : ObjectServiceMap) :
    Advances (parseHeader i m) (if i = 2 then 2 else 4) := by
  rcases i with _ | _ | _ | i
  · exact advances_word32.bind fun _ => advances_pure _
  · exact advances_word32.bind fun _ => advances_pure _
  · exact advances_word16.bind fun _ => advances_pure _
  · exact advances_word32.bind fun _ => advances_pure _

theorem parseBSet_advances (i : Nat) (m : ObjectServiceMap) : Advances (parseBSet i m) 0 := by
  have bset : Advances (readBSet (m.bset_replica_size)) 4 :=
    advances_word32.bind fun _ => (advances_times advances_word32 _).bind fun _ => advances_pure _
  exact (bset.bind fun b => advances_lift (storeBSet i m b)).weaken (Nat.zero_le _)

theorem parseObjectService_advances (i : Nat) (m : ObjectServiceMap) : Advances (parseObjectService i m) 0 := by
  have os : Advances readObjectService 141 :=
    advances_word32.bind fun _ => (advances_bytes 128).bind fun _ => advances_word32.bind fun _ =>
      advances_word8.bind fun _ => advances_word32.bind fun _ => (advances_times advances_word32 _).bind fun _ =>
        advances_pure _
  exact (os.bind fun o => advances_lift (addObjectService m o)).weaken (Nat.zero_le _)

theorem parseServices_bounds (inside : c.len ≤ buf_len) (done : parseServices m buf_len c = .ok (.accepted m' len)) :
    c.len ≤ len ∧ len ≤ buf_len := by
  obtain ⟨outcome,ended,rest⟩ := bind_ok.mp done
  cases outcome with
  | short s => exact absurd rest (errorOut_rejects s)
  | finished s c' =>
    cases rest
    obtain ⟨lower,upper⟩ := loop_advances parseObjectService_advances ended
    exact ⟨by omega,upper inside⟩

theorem parseBody_bounds (inside : c.len ≤ buf_len) (done : parseBody m buf_len c = .ok (.accepted m' len)) :
    c.len ≤ len ∧ len ≤ buf_len := by
  obtain ⟨ready,_,body⟩ := bind_ok.mp done
  obtain ⟨outcome,ended,rest⟩ := bind_ok.mp body
  cases outcome with
  | short s => exact absurd rest (errorOut_rejects s)
  | finished s c' =>
    obtain ⟨lower,upper⟩ := loop_advances parseBSet_advances ended
    obtain ⟨lower',upper'⟩ := parseServices_bounds (upper inside) rest
    exact ⟨by omega,upper'⟩

/-- An accepted map holds the fourteen bytes of its header and lies in the buffer. -/
theorem parse_bounds (done : clusterMapParseObjectServiceMap m buffer = .ok (.accepted m' len)) :
    14 ≤ len ∧ len ≤ buffer.length := by
  obtain ⟨outcome,ended,rest⟩ := bind_ok.mp done
  cases outcome with
  | short s => exact absurd rest (errorOut_rejects s)
  | finished s c' =>
    obtain ⟨lower,upper⟩ := loop_advances parseHeader_advances ended
    obtain ⟨lower',upper'⟩ := parseBody_bounds (upper (Nat.zero_le _)) rest
    replace lower : 14 ≤ c'.len := by simpa [List.range'] using lower
    exact ⟨by omega,upper'⟩

end ClusterMap

namespace DecoderBounds

open Muti.Bytes Muti.Memory Muti.ClusterMap Muti.InPlace Muti.DecodeInPlace
open Muti.Resource hiding errorOr
open Muti.Cluster hiding clusterRequestDecoder clusterResponseDecoder

/-- What a decoder that only reads takes from this buffer holds the fixed part and lies in the buffer. -/
def Bounded (decode : Decoder α) (fixed : Nat) (buffer : List UInt8) : Prop :=
  ∀ a consume_len, decode buffer = .ok (.message a consume_len) →
    fixed ≤ consume_len.toNat ∧ consume_len.toNat ≤ buffer.length

def BoundedAt (decoder : InPlaceDecoder α) (fixed : Nat) (w : Window UInt8) : Prop :=
  ∀ left a consume_len, decoder.decode w.address w.bytes = .ok (left,.message a consume_len) →
    fixed ≤ consume_len.toNat ∧ consume_len.toNat ≤ w.bytes.length

theorem boundedAt_iff {decoder : InPlaceDecoder α} {decode : Decoder α}
    (sizes : ∀ consume_len, (∃ left a, decoder.decode w.address w.bytes = .ok (left,.message a consume_len)) ↔
      ∃ a, decode w.bytes = .ok (.message a consume_len)) : BoundedAt decoder fixed w ↔ Bounded decode fixed w.bytes := by
  constructor
  · intro bounded a consume_len done
    obtain ⟨left,a',done'⟩ := (sizes consume_len).mpr ⟨a,done⟩
    exact bounded left a' consume_len done'
  · intro bounded left a consume_len done
    obtain ⟨a',done'⟩ := (sizes consume_len).mp ⟨left,a,done⟩
    exact bounded a' consume_len done'

theorem boundedAt_reads (decode : Decoder α) (w : Window UInt8) :
    BoundedAt (reads decode) fixed w ↔ Bounded decode fixed w.bytes := by
  refine boundedAt_iff fun consume_len => ?_
  rcases answer : decode w.bytes with reason | decoded
  · simp [reads,answer,Except.map]
  · simp [reads,answer,Except.map]

theorem bounded_todo (fixed : Nat) (buffer : List UInt8) : Bounded (todoDecoder : Decoder α) fixed buffer := by
  intro a consume_len done
  cases done

theorem bounded_fixed (value : List UInt8 → α) (size : UInt64) (buffer : List UInt8) :
    Bounded (fixedDecoder size value) size.toNat buffer := by
  intro a consume_len done
  by_cases early : buffer.length < size.toNat
  · simp [fixedDecoder,early] at done
  · simp only [fixedDecoder,if_neg early,Except.ok.injEq,Decoded.message.injEq] at done
    obtain ⟨_,rfl⟩ := done
    exact ⟨Nat.le_refl _,by omega⟩

/-- The fixed part is there, and adding the path length announced in it does not wrap. -/
def PathFits (size : UInt64) (offset : Nat) (buffer : List UInt8) : Prop :=
  size.toNat ≤ buffer.length → size.toNat + (field64 offset buffer).toNat < 2 ^ 64

theorem bounded_path_iff (value : List UInt8 → α) (size : UInt64) (offset : Nat) (buffer : List UInt8) :
    Bounded (pathDecoder size offset value) size.toNat buffer ↔ PathFits size offset buffer := by
  have path := (field64 offset buffer).toNat_lt
  have sum : (size + field64 offset buffer).toNat = (size.toNat + (field64 offset buffer).toNat) % 2 ^ 64 :=
    UInt64.toNat_add _ _
  constructor
  · intro bounded enough
    by_contra wraps
    have low : (size + field64 offset buffer).toNat < size.toNat := by
      have := size.toNat_lt
      omega
    have taken : pathDecoder size offset value buffer =
        .ok (.message (value (buffer.take (size + field64 offset buffer).toNat)) (size + field64 offset buffer)) := by
      simp only [pathDecoder,if_neg (Nat.not_lt.mpr enough)]
      rw [if_neg (by omega)]
    obtain ⟨lower,_⟩ := bounded _ _ taken
    omega
  · intro fits a consume_len done
    by_cases early : buffer.length < size.toNat
    · simp [pathDecoder,early] at done
    · have unwrapped := fits (Nat.le_of_not_lt early)
      by_cases short : buffer.length < (size + field64 offset buffer).toNat
      · simp only [pathDecoder,if_neg early,if_pos short] at done
        cases done
      · simp only [pathDecoder,if_neg early,if_neg short,Except.ok.injEq,Decoded.message.injEq] at done
        obtain ⟨_,rfl⟩ := done
        omega

theorem bounded_put_iff (w : Window UInt8) : BoundedAt objectRequestDecoderPut 48 w ↔ PathFits 48 24 w.bytes := by
  refine Iff.trans (boundedAt_iff fun consume_len => ?_) (bounded_path_iff (Object.receive (some 48)) 48 24 w.bytes)
  by_cases early : w.bytes.length < 48
  · have early' : w.bytes.length < (48 : UInt64).toNat := early
    simp [objectRequestDecoderPut,pathDecoder,if_pos early]
  have early' : ¬w.bytes.length < (48 : UInt64).toNat := early
  by_cases short : w.bytes.length < (48 + field64 24 w.bytes).toNat
  · simp only [objectRequestDecoderPut,pathDecoder,if_neg early,if_neg early',if_pos short]
    simp
  · simp only [objectRequestDecoderPut,pathDecoder,if_neg early,if_neg early',if_neg short]
    simp

/-- The last of the `n` objects announced from position `s` on does not bring the running length around
into the twelve bytes of the header; the lengths are read as the links of the objects before have left them. -/
def ObjectsFit (address head : UInt64) : Nat → Option Nat → UInt64 → List UInt8 → Prop
  | 0, _, _, _ => True
  | 1, _, s, buffer => (s + 40).toNat ≤ buffer.length →
    (s + 40).toNat + (field64 (s.toNat + 16) buffer).toNat < 2 ^ 64 ∨
      2 ^ 64 + 12 ≤ (s + 40).toNat + (field64 (s.toNat + 16) buffer).toNat
  | n + 2, tail, s, buffer => (s + 40).toNat ≤ buffer.length →
    (s + 40 + field64 (s.toNat + 16) buffer).toNat ≤ buffer.length →
      ObjectsFit address head (n + 1) (some s.toNat) (s + 40 + field64 (s.toNat + 16) buffer)
        (listAddTail address head tail s.toNat buffer)

/-- Counts that overflow the loop counter never yield a message. -/
def ListFits (head : UInt64) (w : Window UInt8) : Prop :=
  12 ≤ w.bytes.length → (field32 8 w.bytes).toNat < 2 ^ 31 →
    ObjectsFit w.address head (field32 8 w.bytes).toNat none 12 w.bytes

theorem objectListLoop_handed {tail : Option Nat}
    (done : objectListLoop address head (n + 1) i tail s buffer = .ok (left,some (objects,len))) :
    (s + 40).toNat ≤ buffer.length ∧ (s + 40 + field64 (s.toNat + 16) buffer).toNat ≤ buffer.length ∧ i + 1 ≠ 2 ^ 31 ∧
      ∃ others, objectListLoop address head n (i + 1) (some s.toNat) (s + 40 + field64 (s.toNat + 16) buffer)
        (listAddTail address head tail s.toNat buffer) = .ok (left,some (others,len)) := by
  rcases objectListLoop_turn done with ⟨-,none⟩ | ⟨header,path,counter,found,rest,handed⟩
  · cases none
  · cases found with
    | none => cases handed
    | some found =>
      cases handed
      exact ⟨header,path,counter,_,rest⟩

/-- No list has more objects than the loop counter can count. -/
theorem objectListLoop_count {tail : Option Nat} (start : i < 2 ^ 31)
    (done : objectListLoop address head n i tail s buffer = .ok (left,some (objects,len))) : i + n < 2 ^ 31 := by
  induction n generalizing i tail s buffer objects with
  | zero => exact start
  | succ n ih =>
    obtain ⟨_,_,counter,others,rest⟩ := objectListLoop_handed done
    have := ih (by omega) rest
    omega

theorem header_end {buffer : List UInt8} {s : UInt64} (small : buffer.length < 2 ^ 63) (inside : s.toNat ≤ buffer.length) :
    (s + 40).toNat = s.toNat + 40 := by
  have sum : (s + 40).toNat = (s.toNat + 40) % 2 ^ 64 := UInt64.toNat_add _ _
  omega

/-- The list ends in the buffer, and behind its header when its objects fit. -/
theorem objectListLoop_bounds {tail : Option Nat} (small : buffer.length < 2 ^ 63) (inside : s.toNat ≤ buffer.length)
    (fits : ObjectsFit address head n tail s buffer) (start : n = 0 → 12 ≤ s.toNat)
    (done : objectListLoop address head n i tail s buffer = .ok (left,some (objects,len))) :
    12 ≤ len.toNat ∧ len.toNat ≤ buffer.length := by
  induction n generalizing i tail s buffer objects with
  | zero =>
    cases done
    exact ⟨start rfl,inside⟩
  | succ n ih =>
    obtain ⟨header,path,_,others,rest⟩ := objectListLoop_handed done
    cases n with
    | zero =>
      cases rest
      have ends := header_end small inside
      have sum := UInt64.toNat_add (s + 40) (field64 (s.toNat + 16) buffer)
      have announced := (field64 (s.toNat + 16) buffer).toNat_lt
      rcases fits header with room | around <;> omega
    | succ n =>
      have same : (listAddTail address head tail s.toNat buffer).length = buffer.length := listAddTail_length ..
      rw [← same]
      exact ih (by rwa [same]) (by rwa [same]) (fits header path) (by simp) rest

/-- A list whose objects do not fit is handed out all the same, ending in its header. -/
theorem objectListLoop_around {tail : Option Nat} (small : buffer.length < 2 ^ 63) (inside : s.toNat ≤ buffer.length)
    (count : i + n < 2 ^ 31) (around : ¬ObjectsFit address head n tail s buffer) :
    ∃ left objects len, objectListLoop address head n i tail s buffer = .ok (left,some (objects,len)) ∧ len.toNat < 12 := by
  induction n generalizing i tail s buffer with
  | zero => exact absurd trivial around
  | succ n ih =>
    have counter : ¬i + 1 = 2 ^ 31 := by omega
    have go : (s + 40).toNat ≤ buffer.length → (s + 40 + field64 (s.toNat + 16) buffer).toNat ≤ buffer.length →
        (∃ left objects len, objectListLoop address head n (i + 1) (some s.toNat) (s + 40 + field64 (s.toNat + 16) buffer)
          (listAddTail address head tail s.toNat buffer) = .ok (left,some (objects,len)) ∧ len.toNat < 12) →
        ∃ left objects len, objectListLoop address head (n + 1) i tail s buffer = .ok (left,some (objects,len)) ∧
          len.toNat < 12 := by
      rintro header path ⟨left,objects,len,rest,low⟩
      refine ⟨left,s.toNat :: objects,len,?_,low⟩
      simp only [objectListLoop,if_neg (Nat.not_lt.mpr header),if_neg (Nat.not_lt.mpr path),if_neg counter,rest]
      rfl
    cases n with
    | zero =>
      simp only [ObjectsFit] at around
      push Not at around
      obtain ⟨header,wraps,low⟩ := around
      have sum := UInt64.toNat_add (s + 40) (field64 (s.toNat + 16) buffer)
      have announced := (field64 (s.toNat + 16) buffer).toNat_lt
      have ends := header_end small inside
      exact go header (by omega) ⟨_,[],_,rfl,by omega⟩
    | succ n =>
      simp only [ObjectsFit] at around
      push Not at around
      obtain ⟨header,path,later⟩ := around
      have same : (listAddTail address head tail s.toNat buffer).length = buffer.length := listAddTail_length ..
      exact go header path (ih (by rwa [same]) (by rwa [same]) (by omega) later)

theorem bounded_objectList_iff (head : UInt64) (w : Window UInt8) (small : w.bytes.length < 2 ^ 63) :
    BoundedAt (decodeObjectList head) 12 w ↔ ListFits head w := by
  constructor
  · intro bounded enough count
    by_contra around
    have inside : (12 : UInt64).toNat ≤ w.bytes.length := enough
    obtain ⟨left,objects,len,run,low⟩ := objectListLoop_around (i := 0) small inside (by omega) around
    have taken : (decodeObjectList head).decode w.address w.bytes = .ok (left,.message
        (.objectList (responseAt w.bytes) (field32 8 w.bytes) (objects.map fun s => Object.objectAt s left)) len) := by
      simp only [decodeObjectList,if_neg (Nat.not_lt.mpr enough),run]
      rfl
    obtain ⟨lower,_⟩ := bounded _ _ _ taken
    omega
  · intro fits left a consume_len done
    by_cases early : w.bytes.length < 12
    · simp only [decodeObjectList,if_pos early] at done
      cases done
    · simp only [decodeObjectList,if_neg early] at done
      obtain ⟨⟨left',found⟩,run,ended⟩ := bind_ok.mp done
      cases found with
      | none => cases ended
      | some found =>
        cases ended
        have inside : (12 : UInt64).toNat ≤ w.bytes.length := by simpa using Nat.le_of_not_lt early
        have count := objectListLoop_count (by decide) run
        exact objectListLoop_bounds small inside (fits inside (by omega)) (fun _ => Nat.le_refl _) run

def Succeeds (buffer : List UInt8) : Prop := 8 ≤ buffer.length ∧ (responseAt buffer).error_id = 0

/-- The fixed part of a response: an error response is its header. -/
def replyFixed (success : Nat) (buffer : List UInt8) : Nat :=
  if (responseAt buffer).error_id ≠ 0 then 8 else success

theorem bounded_errorOr_iff (decoder : InPlaceDecoder Reply) (success : Nat) (w : Window UInt8) :
    BoundedAt (errorOr decoder) (replyFixed success w.bytes) w ↔ (Succeeds w.bytes → BoundedAt decoder success w) := by
  by_cases early : w.bytes.length < 8
  · have waits : (errorOr decoder).decode w.address w.bytes = .ok (w.bytes,.more) := by simp only [errorOr,if_pos early]
    constructor
    · rintro _ ⟨enough,_⟩
      omega
    · intro _ left a consume_len done
      rw [waits] at done
      cases done
  by_cases failed : (responseAt w.bytes).error_id ≠ 0
  · have refused : (errorOr decoder).decode w.address w.bytes =
        .ok (w.bytes,.message (.inPlace (w.bytes.take 8)) 8) := by
      simp only [errorOr,if_neg early,if_pos failed]
    constructor
    · rintro _ ⟨_,success⟩
      exact absurd success failed
    · intro _ left a consume_len done
      rw [refused] at done
      cases done
      rw [replyFixed,if_pos failed]
      exact ⟨Nat.le_refl 8,Nat.le_of_not_lt early⟩
  · have passed : (errorOr decoder).decode w.address w.bytes = decoder.decode w.address w.bytes := by
      simp only [errorOr,if_neg early,if_neg failed]
    have here : Succeeds w.bytes := ⟨Nat.le_of_not_lt early,not_not.mp failed⟩
    simp only [BoundedAt,passed,replyFixed,if_neg failed,here,true_imp_iff]

theorem bounded_response_iff (decode : Decoder Reply) (success : Nat) (w : Window UInt8) :
    BoundedAt (reads (Resource.errorOr decode)) (replyFixed success w.bytes) w ↔
      (Succeeds w.bytes → Bounded decode success w.bytes) := by
  rw [reads_errorOr,bounded_errorOr_iff,boundedAt_reads]

theorem bounded_sender (size : UInt64) (w : Window UInt8) :
    BoundedAt (reads (senderResponseDecoder size)) (replyFixed size.toNat w.bytes) w :=
  (bounded_response_iff _ _ w).mpr fun _ => bounded_fixed Reply.inPlace size w.bytes

theorem bounded_decodeMap (reply : List UInt8 → ObjectServiceMap → Reply) (header_len : Nat)
    (small : buffer.length < 2 ^ 63) : Bounded (decodeMap header_len reply) (header_len + 14) buffer := by
  intro a consume_len done
  by_cases early : buffer.length < header_len
  · simp only [decodeMap,if_pos early] at done
    cases done
  · simp only [decodeMap,if_neg early] at done
    obtain ⟨parsed,run,ended⟩ := bind_ok.mp done
    cases parsed with
    | rejected m => cases ended
    | accepted m len =>
      cases ended
      obtain ⟨lower,upper⟩ := parse_bounds run
      rw [List.length_drop] at upper
      have whole : (UInt64.ofNat header_len + UInt64.ofNat len).toNat = header_len + len := by
        rw [← UInt64.ofNat_add,toNat_ofNat_small (by omega)]
      omega

theorem bounded_block (size offset header_len : Nat) (reply : List UInt8 → ObjectServiceMap → Reply)
    (small : buffer.length < 2 ^ 63) : Bounded (ResponseBlock.decodeMap size offset header_len reply) (header_len + 14) buffer :=
  fun a consume_len done => bounded_decodeMap reply header_len small a consume_len (ResponseBlock.decodeMap_message done)

/-- The fixed parts of the requests and of the successful responses, by request id. -/
def objectRequestFixed : Nat → Nat
  | 0 => 24
  | 1 => 48
  | 2 => 32
  | 3 => 24
  | _ => 8

def clusterRequestFixed : Nat → Nat
  | 4 => 20
  | _ => 8

def objectResponseFixed : Nat → Nat
  | 0 => 48
  | 2 => 12
  | _ => 8

def clusterResponseFixed : Nat → Nat
  | 0 => 12
  | 1 => 22
  | 4 => 16
  | 5 => 12
  | 7 => 46
  | _ => 8

def objectRequestFits (id : Nat) (buffer : List UInt8) : Prop := id = 1 → PathFits 48 24 buffer

def objectResponseFits (id : Nat) (block : UInt64) (w : Window UInt8) : Prop :=
  Succeeds w.bytes → (id = 0 → PathFits 48 24 w.bytes) ∧ (id = 2 → ListFits block w)

theorem object_request_bounded_iff {id : Nat} (found : objectRequestDecoder[id]? = some decoder) (w : Window UInt8) :
    BoundedAt decoder (objectRequestFixed id) w ↔ objectRequestFits id w.bytes := by
  match id with
  | 0 =>
    cases found
    exact iff_of_true ((boundedAt_reads _ w).mpr (bounded_fixed _ 24 w.bytes)) nofun
  | 1 =>
    cases found
    exact (bounded_put_iff w).trans ⟨fun fits _ => fits,fun fits => fits rfl⟩
  | 2 =>
    cases found
    exact iff_of_true ((boundedAt_reads _ w).mpr (bounded_fixed _ 32 w.bytes)) nofun
  | 3 =>
    cases found
    exact iff_of_true ((boundedAt_reads _ w).mpr (bounded_fixed _ 24 w.bytes)) nofun
  | 4 =>
    cases found
    exact iff_of_true ((boundedAt_reads _ w).mpr (bounded_fixed _ 8 w.bytes)) nofun
  | id + 5 => cases found

theorem cluster_request_bounded {id : Nat} (found : clusterRequestDecoder[id]? = some decoder) (w : Window UInt8) :
    BoundedAt decoder (clusterRequestFixed id) w := by
  match id with
  | 0 | 1 | 5 | 7 | 8 =>
    cases found
    exact (boundedAt_reads _ w).mpr (bounded_fixed _ 8 w.bytes)
  | 4 =>
    cases found
    exact (boundedAt_reads _ w).mpr (bounded_fixed _ 20 w.bytes)
  | 2 | 3 | 6 =>
    cases found
    exact (boundedAt_reads _ w).mpr (bounded_todo _ w.bytes)
  | id + 9 => cases found

theorem object_response_bounded_iff {id : Nat} (found : objectResponseDecoder[id]? = some decoder) (block : UInt64)
    (w : Window UInt8) (small : w.bytes.length < 2 ^ 63) :
    BoundedAt (decoder block) (replyFixed (objectResponseFixed id) w.bytes) w ↔ objectResponseFits id block w := by
  match id with
  | 0 =>
    cases found
    refine (bounded_response_iff _ _ w).trans (imp_congr_right fun _ => ?_)
    exact (bounded_path_iff _ 48 24 w.bytes).trans ⟨fun fits => ⟨fun _ => fits,nofun⟩,fun fits => fits.1 rfl⟩
  | 2 =>
    cases found
    refine (bounded_errorOr_iff _ _ w).trans (imp_congr_right fun _ => ?_)
    exact (bounded_objectList_iff block w small).trans ⟨fun fits => ⟨nofun,fun _ => fits⟩,fun fits => fits.2 rfl⟩
  | 1 | 3 | 4 =>
    cases found
    exact iff_of_true (bounded_sender 8 w) fun _ => ⟨nofun,nofun⟩
  | id + 5 => cases found

theorem cluster_response_bounded {id : Nat} (found : clusterResponseDecoder[id]? = some decoder) (block : UInt64)
    (w : Window UInt8) (small : w.bytes.length < 2 ^ 63) :
    BoundedAt (decoder block) (replyFixed (clusterResponseFixed id) w.bytes) w := by
  match id with
  | 0 | 5 =>
    cases found
    exact bounded_sender 12 w
  | 1 =>
    cases found
    exact (bounded_response_iff _ _ w).mpr fun _ => bounded_block 8 8 8 _ small
  | 4 =>
    cases found
    exact bounded_sender 16 w
  | 7 =>
    cases found
    exact (bounded_response_iff _ _ w).mpr fun _ => bounded_block 40 32 32 _ small
  | 8 =>
    cases found
    exact bounded_sender 8 w
  | 2 | 3 | 6 =>
    cases found
    exact (boundedAt_reads _ w).mpr (bounded_todo _ w.bytes)
  | id + 9 => cases found

end DecoderBounds
end Muti
