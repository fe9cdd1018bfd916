import Muti.Records
import Muti.Resource

/-! The object resource of services/os: its requests and responses, the encoders of each
side and the decoders of the other. A struct is sent as it lies in memory, pointers
included, without padding. -/
namespace Muti

structure ObjectGetRequest where
  super : Request
  path_length : UInt64
  path : UInt64
  data : List UInt8
  deriving DecidableEq, Repr

structure ObjectPutRequest where
  super : Request
  object : Object
  deriving DecidableEq, Repr

structure ObjectListRequest where
  super : Request
  prefix_path_length : UInt64
  prefix_path : UInt64
  page : Int32
  page_size : Int32
  data : List UInt8
  deriving DecidableEq, Repr

structure ObjectDeleteRequest where
  super : Request
  path_length : UInt64
  path : UInt64
  data : List UInt8
  deriving DecidableEq, Repr

structure ObjectStopRequest where
  super : Request
  deriving DecidableEq, Repr

structure ObjectGetResponse where
  super : Response
  object : Object
  deriving DecidableEq, Repr

structure ObjectListResponse where
  super : Response
  length : UInt32
  object_list : List Object
  deriving DecidableEq, Repr

/-- `ObjectPutResponse`, `ObjectDeleteResponse` and `ObjectStopResponse` hold their header only. -/
structure ObjectPlainResponse where
  super : Response
  deriving DecidableEq, Repr

namespace Object

open Muti.Bytes Muti.Memory Muti.Resource

def headerImage (s : Object) : List UInt8 :=
  image64 s.next ++ (image64 s.prev ++ (image64 s.path_length ++ (image64 s.path ++ image64 s.size)))

/-- `sizeof(*s) + s->path_length` bytes of memory from `s` on. -/
def objectImage (s : Object) : Except Fault (List UInt8) := do
  let path ← readFirst s.path_length.toNat s.data
  .ok (headerImage s ++ path)

def objectAt (pos : Nat) (buffer : List UInt8) : Object where
  next := field64 pos buffer
  prev := field64 (pos + 8) buffer
  path_length := field64 (pos + 16) buffer
  path := field64 (pos + 24) buffer
  size := field64 (pos + 32) buffer
  data := (buffer.drop (pos + 40)).take (field64 (pos + 16) buffer).toNat

def objectRequestEncoderGet (req : ObjectGetRequest) : Except Fault (List UInt8) :=
  .ok (requestImage req.super ++ (image64 req.path_length ++ image64 req.path))

def objectRequestEncoderPut (req : ObjectPutRequest) : Except Fault (List UInt8) := do
  let object ← objectImage req.object
  .ok (requestImage req.super ++ object)

def objectRequestEncoderList (req : ObjectListRequest) : Except Fault (List UInt8) :=
  .ok (requestImage req.super ++ (image64 req.prefix_path_length ++ (image64 req.prefix_path ++
    (image32 req.page.toUInt32 ++ image32 req.page_size.toUInt32))))

def objectRequestEncoderDelete (req : ObjectDeleteRequest) : Except Fault (List UInt8) :=
  .ok (requestImage req.super ++ (image64 req.path_length ++ image64 req.path))

def objectRequestEncoderStop (req : ObjectStopRequest) : Except Fault (List UInt8) :=
  .ok (requestImage req.super)

def receive (path : Option Nat) (bytes : List UInt8) : ReceivedRequest := ⟨bytes,path⟩

def objectRequestDecoderGet : Decoder ReceivedRequest := fixedDecoder 24 (receive none)

/-- The path is made to point behind the struct. -/
def objectRequestDecoderPut : Decoder ReceivedRequest := pathDecoder 48 24 (receive (some 48))

def objectRequestDecoderList : Decoder ReceivedRequest := fixedDecoder 32 (receive none)

def objectRequestDecoderDelete : Decoder ReceivedRequest := fixedDecoder 24 (receive none)

def objectRequestDecoderStop : Decoder ReceivedRequest := fixedDecoder 8 (receive none)

def objectRequestDecoder : List (Decoder ReceivedRequest) :=
  [objectRequestDecoderGet,objectRequestDecoderPut,objectRequestDecoderList,objectRequestDecoderDelete,
    objectRequestDecoderStop]

def objectResponseEncoderGet (resp : ObjectGetResponse) : Except Fault (List UInt8) := do
  let object ← objectImage resp.object
  .ok (responseImage resp.super ++ object)

def plainResponseEncoder (resp : ObjectPlainResponse) : Except Fault (List UInt8) :=
  .ok (responseImage resp.super)

def objectResponseEncoderPut := plainResponseEncoder

/-- The block is sized for paths of 1024 bytes on average; the loop counter is an `int`. -/
def objectResponseEncoderList (resp : ObjectListResponse) : Except Fault (List UInt8) := do
  let objects ← readFirst resp.length.toNat resp.object_list
  let images ← objects.mapM objectImage
  let buf := responseImage resp.super ++ (image32 resp.length ++ images.flatten)
  if 2 ^ 31 ≤ resp.length.toNat then .error .overflow
  else if 8 + 4 + resp.length.toNat * (40 + 1024) < buf.length then .error .outOfBounds
  else .ok buf

def objectResponseEncoderDelete := plainResponseEncoder

def objectResponseEncoderStop := plainResponseEncoder

def objectResponseDecoderGet : Decoder Reply := errorOr (pathDecoder 48 24 .inPlace)

def objectResponseDecoderPut : Decoder Reply := senderResponseDecoder 8

def objectLayout : Records.Layout Object where
  size := 40
  offset := 16
  value := objectAt

def decodeObjectList (buffer : List UInt8) : Except Fault (Decoded Reply) :=
  if buffer.length < 12 then .ok .more
  else do
    match ← Records.loop objectLayout buffer (field32 8 buffer).toNat 0 12 with
    | none => .ok .more
    | some (objects,len) => .ok (.message (.objectList (responseAt buffer) (field32 8 buffer) objects) len)

def objectResponseDecoderList : Decoder Reply := errorOr decodeObjectList

def objectResponseDecoderDelete : Decoder Reply := senderResponseDecoder 8

def objectResponseDecoderStop : Decoder Reply := senderResponseDecoder 8

def objectResponseDecoder : List (Decoder Reply) :=
  [objectResponseDecoderGet,objectResponseDecoderPut,objectResponseDecoderList,objectResponseDecoderDelete,
    objectResponseDecoderStop]

/-- The requests of the resource, each with the encoder its request id selects. -/
inductive ObjectRequest where
  | get (req : ObjectGetRequest)
  | put (req : ObjectPutRequest)
  | list (req : ObjectListRequest)
  | delete (req : ObjectDeleteRequest)
  | stop (req : ObjectStopRequest)

def ObjectRequest.super : ObjectRequest → Request
  | .get req => req.super
  | .put req => req.super
  | .list req => req.super
  | .delete req => req.super
  | .stop req => req.super

def ObjectRequest.id : ObjectRequest → Nat
  | .get _ => 0
  | .put _ => 1
  | .list _ => 2
  | .delete _ => 3
  | .stop _ => 4

def objectRequestEncoder : ObjectRequest → Except Fault (List UInt8)
  | .get req => objectRequestEncoderGet req
  | .put req => objectRequestEncoderPut req
  | .list req => objectRequestEncoderList req
  | .delete req => objectRequestEncoderDelete req
  | .stop req => objectRequestEncoderStop req

inductive ObjectResponse where
  | get (resp : ObjectGetResponse)
  | put (resp : ObjectPlainResponse)
  | list (resp : ObjectListResponse)
  | delete (resp : ObjectPlainResponse)
  | stop (resp : ObjectPlainResponse)

def ObjectResponse.super : ObjectResponse → Response
  | .get resp => resp.super
  | .put resp => resp.super
  | .list resp => resp.super
  | .delete resp => resp.super
  | .stop resp => resp.super

def ObjectResponse.id : ObjectResponse → Nat
  | .get _ => 0
  | .put _ => 1
  | .list _ => 2
  | .delete _ => 3
  | .stop _ => 4

def objectResponseEncoder : ObjectResponse → Except Fault (List UInt8)
  | .get resp => objectResponseEncoderGet resp
  | .put resp => objectResponseEncoderPut resp
  | .list resp => objectResponseEncoderList resp
  | .delete resp => objectResponseEncoderDelete resp
  | .stop resp => objectResponseEncoderStop resp

end Object
end Muti
