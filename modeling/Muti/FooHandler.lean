import Muti.FooDao

/-! The example service from end to end: a request as a client encodes it, the action on the
records, the response as the server encodes it, and what the client is handed. -/
namespace Muti

open Muti.Bytes Muti.Memory Muti.Resource Muti.Foo

/-- The responses the actions make. A list is given by the element before its first record. -/
inductive FooResponse where
  | get (resp : FooGetResponse)
  | put (resp : FooPutResponse)
  | list (super : Response) (length : UInt32) (foo_list : Option UInt64)
  | failed (super : Response)

def FooResponse.super : FooResponse → Response
  | .get resp => resp.super
  | .put resp => resp.super
  | .list super _ _ => super
  | .failed super => super

inductive FooRequest where
  | get (req : FooGetRequest)
  | put (req : FooPutRequest)
  | list (req : FooListRequest)
  deriving DecidableEq, Repr

namespace FooDao

/-- A record and its path, read from memory; the list's head is none. -/
def readFoo (dao : FooDao) (s : UInt64) : Except Fault Foo :=
  match dao.blocks s with
  | none => .error .outOfBounds
  | some fields => do
    let path ← readFirst fields.path_length.toNat fields.data
    .ok { fields with data := path, element := ⟨(dao.heap.next s).getD 0,(dao.heap.prev s).getD 0⟩ }

def fooActionGet (dao : FooDao) (request : FooGetRequest) : Except Fault FooResponse := do
  match ← getFoo dao request.id with
  | none => .ok (.failed ⟨1,request.super.sequence⟩)
  | some s => do
    let foo ← readFoo dao s
    .ok (.get ⟨⟨0,request.super.sequence⟩,foo⟩)

def fooActionPut (dao : FooDao) (block : UInt64) (request : FooPutRequest) : Except Fault (FooResponse × FooDao) := do
  let dao ← putFoo dao block request.foo
  .ok (.put ⟨⟨0,request.super.sequence⟩⟩,dao)

def fooActionList (fuel : Nat) (dao : FooDao) (request : FooListRequest) : Except Fault (Option FooResponse) := do
  let listed ← listFoo fuel dao request.page request.page_size
  .ok (listed.map fun (length,head) =>
    .list ⟨0,request.super.sequence⟩ (UInt32.ofInt length) head)

/-- The loop of `FooResponseEncoderList`, with the room that is left in its buffer. -/
def encodeFoos (dao : FooDao) : Nat → Nat → Option UInt64 → Nat → Except Fault (List UInt8)
  | 0, _, _, _ => .ok []
  | n + 1, i, head, room =>
    match head.bind dao.heap.next with
    | none => .error .nullPointer
    | some s => do
      let foo ← readFoo dao s
      let bytes ← fooImage foo
      if room < bytes.length then .error .outOfBounds
      else if i + 1 = 2 ^ 31 then .error .overflow
      else
        let rest ← encodeFoos dao n (i + 1) (some s) (room - bytes.length)
        .ok (bytes ++ rest)

/-- The buffer is sized for paths of 1024 bytes on average. -/
def fooResponseEncoderList (dao : FooDao) (super : Response) (length : UInt32) (foo_list : Option UInt64) :
    Except Fault (List UInt8) := do
  let foos ← encodeFoos dao length.toNat 0 foo_list (length.toNat * (112 + 1024))
  .ok (responseImage super ++ (image32 length ++ foos))

def fooResponseEncoder (dao : FooDao) : FooResponse → Except Fault (List UInt8)
  | .get resp => fooResponseEncoderGet resp
  | .put resp => fooResponseEncoderPut resp
  | .list super length foo_list => fooResponseEncoderList dao super length foo_list
  | .failed super => .ok (errorResponseEncoder super)

def fooGetRequestAt (buffer : List UInt8) : FooGetRequest := ⟨requestAt buffer,(field32 8 buffer).toInt32⟩

/-- The decoder made the path point behind the struct, which is at `address`. -/
def fooPutRequestAt (address : UInt64) (buffer : List UInt8) : FooPutRequest :=
  ⟨requestAt buffer,{ fooAt 8 buffer with path := address + 120 }⟩

def fooListRequestAt (buffer : List UInt8) : FooListRequest :=
  ⟨requestAt buffer,(field32 8 buffer).toInt32,(field32 12 buffer).toInt32⟩

/-- A request, where the server has read it to, and what `malloc` returns for a new record. -/
structure Call where
  request : FooRequest
  address : UInt64
  block : UInt64
  deriving DecidableEq, Repr

inductive Answer where
  | get (foo : FooFields)
  | put
  | list (foos : List FooFields)
  | failed (error_id : Int32)
  deriving DecidableEq, Repr

/-- Why there is no answer: a fault of the process, or bytes or a loop that are waited for. -/
inductive Stop where
  | fault (fault : Fault)
  | waiting
  deriving DecidableEq, Repr

def take (decode : Decoder α) (bytes : List UInt8) : Except Stop α :=
  match decode bytes with
  | .error fault => .error (.fault fault)
  | .ok .more => .error .waiting
  | .ok (.message a len) => if len.toNat = bytes.length then .ok a else .error .waiting

def replied (bytes : List UInt8) (answer : Answer) : Answer :=
  if (responseAt bytes).error_id = 0 then answer else .failed (responseAt bytes).error_id

/-- A request on its way to the action and the response on its way back. -/
def exchange (fuel : Nat) (dao : FooDao) (call : Call) : Except Stop (Answer × FooDao) :=
  match call.request with
  | .get req => do
    let bytes ← (fooRequestEncoderGet req).mapError .fault
    let request ← take fooRequestDecoderGet bytes
    let resp ← (fooActionGet dao (fooGetRequestAt request.bytes)).mapError .fault
    let bytes ← (encodeResponse FooResponse.super (fooResponseEncoder dao) resp).mapError .fault
    match ← take (decodeResponse fooResponseDecoderGet) bytes with
    | .inPlace bytes => .ok (replied bytes (.get (fieldsAt 8 bytes)),dao)
    | _ => .error .waiting
  | .put req => do
    let bytes ← (fooRequestEncoderPut req).mapError .fault
    let request ← take fooRequestDecoderPut bytes
    let (resp,dao) ← (fooActionPut dao call.block (fooPutRequestAt call.address request.bytes)).mapError .fault
    let bytes ← (encodeResponse FooResponse.super (fooResponseEncoder dao) resp).mapError .fault
    match ← take (decodeResponse fooResponseDecoderPut) bytes with
    | .inPlace bytes => .ok (replied bytes .put,dao)
    | _ => .error .waiting
  | .list req => do
    let bytes ← (fooRequestEncoderList req).mapError .fault
    let request ← take fooRequestDecoderList bytes
    match ← (fooActionList fuel dao (fooListRequestAt request.bytes)).mapError .fault with
    | none => .error .waiting
    | some resp =>
      let bytes ← (encodeResponse FooResponse.super (fooResponseEncoder dao) resp).mapError .fault
      match ← take fooResponseDecoderList bytes with
      | .inPlace bytes => .ok (.failed (responseAt bytes).error_id,dao)
      | .list resp => .ok (.list resp.foo_head,dao)

/-- The answers of calls one after another, and the records behind the last of them. -/
def run (fuel : Nat) (dao : FooDao) : List Call → List Answer × Except Stop FooDao
  | [] => ([],.ok dao)
  | call :: calls => match exchange fuel dao call with
    | .error stop => ([],.error stop)
    | .ok (answer,dao) => (answer :: (run fuel dao calls).1,(run fuel dao calls).2)

end FooDao
end Muti
