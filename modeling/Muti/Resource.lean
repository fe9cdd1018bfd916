import Muti.ClusterMap
import Muti.Framing

/-! Headers of requests and responses, and the shapes their decoders have in common. A
decoder compares the sizes it computes, in `size_t`, with the bytes it is given, and
returns the message with its `consume_len`, or a null pointer to ask for more. -/
namespace Muti

structure Request where
  resource_id : UInt16
  request_id : UInt16
  sequence : UInt32
  deriving DecidableEq, Repr

structure Response where
  error_id : Int32
  sequence : UInt32
  deriving DecidableEq, Repr

/-- The fields of an `Object` as they lie in memory; `data` is its flexible array. -/
structure Object where
  next : UInt64
  prev : UInt64
  path_length : UInt64
  path : UInt64
  size : UInt64
  data : List UInt8
  deriving DecidableEq, Repr

/-- What a response decoder hands out: a pointer into the buffer, or a structure it built. -/
inductive Reply where
  | inPlace (bytes : List UInt8)
  | objectList (super : Response) (length : UInt32) (objects : List Object)
  | latestMap (super : Response) (os_map : ObjectServiceMap)
  | status (super : Response) (total_objects used free : UInt64) (os_map : ObjectServiceMap)
  deriving DecidableEq

/-- A request handed out in place, and where in it the decoder made `path` point to. -/
structure ReceivedRequest where
  bytes : List UInt8
  path : Option Nat
  deriving DecidableEq, Repr

namespace Resource

open Muti.Bytes Muti.Memory

def requestImage (r : Request) : List UInt8 :=
  image16 r.resource_id ++ (image16 r.request_id ++ image32 r.sequence)

def responseImage (r : Response) : List UInt8 := image32 r.error_id.toUInt32 ++ image32 r.sequence

def requestAt (buffer : List UInt8) : Request :=
  ⟨field16 0 buffer,field16 2 buffer,field32 4 buffer⟩

def responseAt (buffer : List UInt8) : Response :=
  ⟨(field32 0 buffer).toInt32,field32 4 buffer⟩

inductive Decoded (α : Type) where
  | more
  | message (value : α) (consume_len : UInt64)
  deriving DecidableEq

abbrev Decoder (α : Type) : Type := List UInt8 → Except Fault (Decoded α)

def fixedDecoder (size : UInt64) (value : List UInt8 → α) : Decoder α := fun buffer =>
  if buffer.length < size.toNat then .ok .more
  else .ok (.message (value (buffer.take size.toNat)) size)

/-- A fixed part followed by as many bytes as the word at `offset` says. -/
def pathDecoder (size : UInt64) (offset : Nat) (value : List UInt8 → α) : Decoder α := fun buffer =>
  if buffer.length < size.toNat then .ok .more
  else
    let len := size + field64 offset buffer
    if buffer.length < len.toNat then .ok .more
    else .ok (.message (value (buffer.take len.toNat)) len)

/-- Decoders the source leaves to do return a null pointer. -/
def todoDecoder : Decoder α := fun _ => .ok .more

/-- Every response decoder takes an error response as its header alone. -/
def errorOr (decode : Decoder Reply) : Decoder Reply := fun buffer =>
  if buffer.length < 8 then .ok .more
  else if (responseAt buffer).error_id ≠ 0 then .ok (.message (.inPlace (buffer.take 8)) 8)
  else decode buffer

/-- The macro `SENDER_RESPONSE_DECODER`, given the size of its type. -/
def senderResponseDecoder (size : UInt64) : Decoder Reply := errorOr (fixedDecoder size .inPlace)

def errorResponseDecoder : Decoder Reply := fixedDecoder 8 .inPlace

def errorResponseEncoder (resp : Response) : List UInt8 := responseImage resp

/-- The choice made by `serverDoActionCallback`. -/
def encodeResponse (super : ρ → Response) (encoder : ρ → Except Fault (List UInt8)) (resp : ρ) :
    Except Fault (List UInt8) :=
  if (super resp).error_id = 0 then encoder resp else .ok (errorResponseEncoder (super resp))

/-- The choice made by `clientReadCallback`, once it has a whole header. -/
def decodeResponse (decoder : Decoder Reply) : Decoder Reply := fun buffer =>
  if buffer.length < 8 then .ok .more
  else if (responseAt buffer).error_id ≠ 0 then errorResponseDecoder buffer
  else decoder buffer

/-- The decoder takes exactly `encoded`, whatever follows it, and asks for more before
that. -/
structure Frames (decode : Decoder α) (encoded : List UInt8) (a : α) : Prop where
  whole : ∀ back, decode (encoded ++ back) = .ok (.message a (UInt64.ofNat encoded.length))
  short : ∀ p, p <+: encoded → p ≠ encoded → decode p = .ok .more
  fits : encoded.length < 2 ^ 64

@[simp] theorem requestImage_length (r : Request) : (requestImage r).length = 8 := by
  simp [requestImage]

@[simp] theorem responseImage_length (r : Response) : (responseImage r).length = 8 := by
  simp [responseImage]

theorem responseAt_image (r : Response) (back : List UInt8) : responseAt (responseImage r ++ back) = r := by
  have sequence : field32 4 (responseImage r ++ back) = r.sequence := by
    rw [responseImage,List.append_assoc,field32,field_skip _ _ 4 4 (by simp)]
    simpa [field32] using field32_image32 r.sequence back
  have error_id : field32 0 (responseImage r ++ back) = r.error_id.toUInt32 := by
    rw [responseImage,List.append_assoc,field32_image32]
  rw [responseAt,sequence,error_id,Int32.toInt32_toUInt32]

theorem requestAt_image (r : Request) (back : List UInt8) : requestAt (requestImage r ++ back) = r := by
  have resource_id : field16 0 (requestImage r ++ back) = r.resource_id := by
    rw [requestImage,List.append_assoc,field16_image16]
  have request_id : field16 2 (requestImage r ++ back) = r.request_id := by
    rw [requestImage,List.append_assoc,field16,field_skip _ _ 2 2 (by simp),List.append_assoc]
    simpa [field16] using field16_image16 r.request_id (image32 r.sequence ++ back)
  have sequence : field32 4 (requestImage r ++ back) = r.sequence := by
    rw [requestImage,List.append_assoc,field32,field_skip _ _ 4 4 (by simp),List.append_assoc,
      field_skip _ _ _ 4 (by simp)]
    simpa [field32] using field32_image32 r.sequence back
  rw [requestAt,resource_id,request_id,sequence]

theorem frames_fixed (value : List UInt8 → α) (count : encoded.length = size.toNat) :
    Frames (fixedDecoder size value) encoded (value encoded) where
  whole := by
    intro back
    have enough : ¬(encoded ++ back).length < size.toNat := by
      rw [List.length_append]
      omega
    have taken : (encoded ++ back).take size.toNat = encoded := by
      rw [← count,List.take_left]
    rw [fixedDecoder,if_neg enough,taken,count,UInt64.ofNat_toNat]
  short := by
    intro p before proper
    have fewer := Lists.proper_prefix_length before proper
    rw [fixedDecoder,if_pos (by omega)]
  fits := by
    rw [count]
    exact size.toNat_lt

theorem frames_path (value : List UInt8 → α) (front path : List UInt8) (count : front.length = size.toNat)
    (inside : offset + 8 ≤ front.length) (announced : (field64 offset front).toNat = path.length)
    (fits : (front ++ path).length < 2 ^ 64) :
    Frames (pathDecoder size offset value) (front ++ path) (value (front ++ path)) where
  whole := by
    intro back
    rw [List.length_append] at fits
    have word : field64 offset (front ++ path ++ back) = field64 offset front := by
      rw [field64,List.append_assoc,field_append _ _ _ _ inside,field64]
    have len : (size + field64 offset front).toNat = (front ++ path).length := by
      rw [UInt64.toNat_add,announced,← count,List.length_append]
      exact Nat.mod_eq_of_lt fits
    have enough : ¬(front ++ path ++ back).length < size.toNat := by
      rw [List.length_append,List.length_append]
      omega
    have enough' : ¬(front ++ path ++ back).length < (front ++ path).length := by
      have length : (front ++ path ++ back).length = (front ++ path).length + back.length := List.length_append
      omega
    simp only [pathDecoder,if_neg enough,word,len,if_neg enough',List.take_left]
    rw [← len,UInt64.ofNat_toNat]
  short := by
    intro p before proper
    rw [List.length_append] at fits
    have fewer := Lists.proper_prefix_length before proper
    rw [List.length_append] at fewer
    by_cases early : p.length < size.toNat
    · rw [pathDecoder,if_pos early]
    · have word : field64 offset p = field64 offset front := by
        obtain ⟨rest,split⟩ := before
        have low := field_append p rest offset 8 (by omega)
        have high := field_append front path offset 8 inside
        rw [split] at low
        rw [field64,field64,← low,high]
      have len : (size + field64 offset front).toNat = front.length + path.length := by
        rw [UInt64.toNat_add,announced,← count]
        exact Nat.mod_eq_of_lt fits
      have short : p.length < (size + field64 offset p).toNat := by
        rw [word,len]
        exact fewer
      simp only [pathDecoder,if_neg early,if_pos short]
  fits := fits

/-- A success response framed by a decoder is framed by it behind the error check. -/
theorem Frames.errorOr {decode : Decoder Reply} (frames : Frames decode encoded a) (room : 8 ≤ encoded.length)
    (success : (responseAt encoded).error_id = 0) : Frames (errorOr decode) encoded a where
  whole := by
    intro back
    have header : responseAt (encoded ++ back) = responseAt encoded := by
      rw [responseAt,responseAt,field32,field32,field_append _ _ _ _ (by omega),field_append _ _ _ _ (by omega)]
      rfl
    have enough : ¬(encoded ++ back).length < 8 := by
      rw [List.length_append]
      omega
    rw [Resource.errorOr,if_neg enough,header,if_neg (not_not.mpr success),frames.whole]
  short := by
    intro p before proper
    by_cases early : p.length < 8
    · rw [Resource.errorOr,if_pos early]
    · obtain ⟨rest,split⟩ := before
      have header : responseAt encoded = responseAt p := by
        rw [← split,responseAt,responseAt,field32,field32,field_append _ _ _ _ (by omega),
          field_append _ _ _ _ (by omega)]
        rfl
      rw [header] at success
      rw [Resource.errorOr,if_neg early,if_neg (not_not.mpr success),frames.short p ⟨rest,split⟩ proper]
  fits := frames.fits

/-- The client makes the same choice before it calls a decoder as the decoder makes. -/
theorem decodeResponse_eq (decoder : Decoder Reply) : decodeResponse decoder = errorOr decoder := by
  funext buffer
  by_cases early : buffer.length < 8
  · rw [decodeResponse,errorOr,if_pos early,if_pos early]
  · have enough : ¬buffer.length < (8 : UInt64).toNat := early
    rw [decodeResponse,errorOr,if_neg early,if_neg early,errorResponseDecoder,fixedDecoder,if_neg enough]
    rfl

theorem frames_error (decode : Decoder Reply) (failed : r.error_id ≠ 0) :
    Frames (errorOr decode) (responseImage r) (.inPlace (responseImage r)) where
  whole := by
    intro back
    have enough : ¬(responseImage r ++ back).length < 8 := by
      rw [List.length_append,responseImage_length]
      omega
    have taken : (responseImage r ++ back).take 8 = responseImage r :=
      List.take_left' (responseImage_length r)
    rw [errorOr,if_neg enough,responseAt_image,if_pos failed,taken,responseImage_length]
    rfl
  short := by
    intro p before proper
    have fewer := Lists.proper_prefix_length before proper
    rw [responseImage_length] at fewer
    rw [errorOr,if_pos fewer]
  fits := by
    rw [responseImage_length]
    omega

end Resource
end Muti
