import Muti.Agreement

/-! Where the path of an object request is once the request has crossed the connection. The
client stores it behind the struct and sends a pointer along; the server hands the request
out where it lies in its own buffer, at whatever address that is. -/
namespace Muti.ObjectPaths

open Muti.Bytes Muti.Memory Muti.Resource Muti.Object Muti.Agreement

/-- The path length of a request, or its prefix path length, and the bytes of its data area. -/
def variablePart : ObjectRequest → Option (UInt64 × List UInt8)
  | .get req => some (req.path_length,req.data)
  | .put req => some (req.object.path_length,req.object.data)
  | .list req => some (req.prefix_path_length,req.data)
  | .delete req => some (req.path_length,req.data)
  | .stop _ => none

def Stores (req : ObjectRequest) (path : List UInt8) : Prop :=
  ∃ path_length, variablePart req = some (path_length,path) ∧ path_length.toNat = path.length

/-- `offsetof` of the path length. -/
def pathLengthOffset : ObjectRequest → Nat
  | .put _ => 24
  | _ => 8

/-- `offsetof` of the pointer to the path. -/
def pathOffset : ObjectRequest → Nat
  | .put _ => 32
  | _ => 16

/-- The pointer the server finds in a request at `base`: where its decoder made it point to,
or what came from the client. -/
def pathPointer (req : ObjectRequest) (base : UInt64) (received : ReceivedRequest) : UInt64 :=
  match received.path with
  | some offset => base + UInt64.ofNat offset
  | none => field64 (pathOffset req) received.bytes

/-- Wherever the emitted bytes arrive, and whatever follows them, the server finds the path
inside the part its decoder consumes. -/
def CarriesPath (req : ObjectRequest) (path : List UInt8) : Prop :=
  ∃ emitted decoder, objectRequestEncoder req = .ok emitted ∧ objectRequestDecoder[req.id]? = some decoder ∧
    ∀ back base, ∃ received consume_len offset, decoder (emitted ++ back) = .ok (.message received consume_len) ∧
      (field64 (pathLengthOffset req) received.bytes).toNat = path.length ∧
      pathPointer req base received = base + UInt64.ofNat offset ∧ offset + path.length ≤ consume_len.toNat ∧
      ((emitted ++ back).drop offset).take path.length = path

/-- A pointer that came from the client is not near every buffer of the server. -/
theorem raw_pointer_lost {taken : ReceivedRequest} (unmoved : taken.path = none)
    (first : pathPointer req 4096 taken = 4096 + UInt64.ofNat i)
    (second : pathPointer req 8192 taken = 8192 + UInt64.ofNat j) (low : i ≤ 32) (low' : j ≤ 32) : False := by
  have same : (4096 : UInt64) + UInt64.ofNat i = 8192 + UInt64.ofNat j := by
    rw [← first,← second,pathPointer,pathPointer,unmoved]
  have sums := congrArg UInt64.toNat same
  rw [UInt64.toNat_add,UInt64.toNat_add,toNat_ofNat_small (by omega),toNat_ofNat_small (by omega)] at sums
  change (4096 + i) % 2 ^ 64 = (8192 + j) % 2 ^ 64 at sums
  omega

/-- A decoder that takes the struct alone leaves the pointer where it was. -/
theorem fixed_loses {size : UInt64} {path : List UInt8} (small : size.toNat ≤ 32)
    (alone : objectRequestDecoder[req.id]? = some (fixedDecoder size (receive none))) : ¬CarriesPath req path := by
  rintro ⟨emitted,decoder,-,selected,carried⟩
  cases alone.symm.trans selected
  have outcome : ∀ base, ∃ consume_len received offset, received = receive none ((emitted ++ []).take size.toNat) ∧
      consume_len = size ∧ pathPointer req base received = base + UInt64.ofNat offset ∧
      offset + path.length ≤ consume_len.toNat := by
    intro base
    obtain ⟨received,consume_len,offset,decoded,-,pointer,inside,-⟩ := carried [] base
    rw [fixedDecoder] at decoded
    split at decoded
    · cases decoded
    · cases decoded
      exact ⟨_,_,offset,rfl,rfl,pointer,inside⟩
  obtain ⟨_,_,i,rfl,rfl,first,inside⟩ := outcome 4096
  obtain ⟨_,_,j,rfl,rfl,second,inside'⟩ := outcome 8192
  exact raw_pointer_lost rfl first second (by omega) (by omega)

theorem field_path_length_put (put : ObjectPutRequest) (back : List UInt8) :
    field64 24 (requestImage put.super ++ (headerImage put.object ++ back)) = put.object.path_length := by
  have word := field_path_length (requestImage put.super) put.object back
  rwa [requestImage_length] at word

/-- A put is taken with its path, and points behind the struct. -/
theorem put_carries (put : ObjectPutRequest) (length : put.object.path_length.toNat = put.object.data.length)
    (fits : 48 + put.object.data.length < 2 ^ 64) : CarriesPath (.put put) put.object.data := by
  have holds : HoldsPath put.object := ⟨Nat.le_of_eq length,by omega⟩
  obtain ⟨object,image,frames⟩ := frames_object (receive (some 48)) (requestImage put.super) (by simp) holds
  have whole := objectImage_ok (s := put.object) (Nat.le_of_eq length)
  rw [length,List.take_length] at whole
  cases image.symm.trans whole
  refine ⟨_,_,bind_ok.mpr ⟨_,image,rfl⟩,rfl,?_⟩
  intro back base
  have emitted : (requestImage put.super ++ (headerImage put.object ++ put.object.data)).length =
      48 + put.object.data.length := by
    simp only [List.length_append,requestImage_length,headerImage_length]
    omega
  have data : ((requestImage put.super ++ (headerImage put.object ++ put.object.data)) ++ back).drop 48 =
      put.object.data ++ back := by
    have split : requestImage put.super ++ (headerImage put.object ++ put.object.data) ++ back =
        (requestImage put.super ++ headerImage put.object) ++ (put.object.data ++ back) := by
      simp only [List.append_assoc]
    rw [split,List.drop_left' (by simp)]
  refine ⟨_,_,48,frames.whole back,?_,rfl,?_,?_⟩
  · change (field64 24 (requestImage put.super ++ (headerImage put.object ++ put.object.data))).toNat = _
    rw [field_path_length_put,length]
  · rw [emitted,toNat_ofNat_small fits]
  · rw [data,List.take_left]

/-- The size of a longer put wraps, so that the decoder takes fewer bytes than the path has. -/
theorem put_wraps (put : ObjectPutRequest) (length : put.object.path_length.toNat = put.object.data.length)
    (long : 2 ^ 64 ≤ 48 + put.object.data.length) : ¬CarriesPath (.put put) put.object.data := by
  rintro ⟨emitted,decoder,encoded,selected,carried⟩
  cases selected
  have whole := objectImage_ok (s := put.object) (Nat.le_of_eq length)
  obtain ⟨object,image,same⟩ := bind_ok.mp encoded
  cases image.symm.trans whole
  cases same
  obtain ⟨received,consume_len,offset,decoded,-,-,inside,-⟩ := carried [] 0
  rw [objectRequestDecoderPut,pathDecoder,List.append_nil,field_path_length_put] at decoded
  split at decoded
  · cases decoded
  simp only at decoded
  split at decoded
  · cases decoded
  cases decoded
  have word := put.object.path_length.toNat_lt
  rw [UInt64.toNat_add,length] at inside
  rw [length] at word
  change _ ≤ (48 + put.object.data.length) % 2 ^ 64 at inside
  omega

/-- Of the requests that have a path only a put carries it, if its size is a `size_t`. -/
theorem carriesPath_iff (req : ObjectRequest) (path : List UInt8) (stores : Stores req path) :
    CarriesPath req path ↔ (∃ put, req = .put put) ∧ 48 + path.length < 2 ^ 64 := by
  obtain ⟨path_length,part,length⟩ := stores
  cases req with
  | get req => exact iff_of_false (fixed_loses (by decide) rfl) (by simp)
  | put put =>
    cases part
    by_cases fits : 48 + put.object.data.length < 2 ^ 64
    · exact iff_of_true (put_carries put length fits) ⟨⟨put,rfl⟩,fits⟩
    · exact iff_of_false (put_wraps put length (Nat.le_of_not_lt fits)) fun holds => fits holds.2
  | list req => exact iff_of_false (fixed_loses (by decide) rfl) (by simp)
  | delete req => exact iff_of_false (fixed_loses (by decide) rfl) (by simp)
  | stop req => cases part

def samplePut : ObjectRequest := .put ⟨⟨0,1,7⟩,⟨0,0,2,0x7f0000001030,5,[47,97]⟩⟩

theorem carriesPath_put : CarriesPath samplePut [47,97] :=
  (carriesPath_iff samplePut [47,97] ⟨2,rfl,rfl⟩).mpr ⟨⟨_,rfl⟩,by decide⟩

def sampleGet : ObjectRequest := .get ⟨⟨0,0,8⟩,2,0x7f0000002018,[47,97]⟩

/-- Not a byte of the path is sent, and the server gets the client's pointer. -/
theorem not_carriesPath_get : Stores sampleGet [47,97] ∧ ¬CarriesPath sampleGet [47,97] ∧
    objectRequestEncoder sampleGet = .ok [0,0,0,0,8,0,0,0,2,0,0,0,0,0,0,0,0x18,0x20,0,0,0,0x7f,0,0] :=
  ⟨⟨2,rfl,rfl⟩,fixed_loses (by decide) rfl,rfl⟩

end Muti.ObjectPaths
