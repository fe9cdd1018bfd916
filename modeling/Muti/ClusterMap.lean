import Muti.MapHashLinked
import Muti.Reader

/-! The object service map of libs/cluster, its id index and its binary format. The
index holds addresses of list entries; an entry's address is its position, since the
program only ever appends to the list. Only `user_define` is left out of the records. -/
namespace Muti

/-- `char host[NETWORK_HOST_LEN + 1]`. -/
structure Host where
  bytes : List UInt8
  length : bytes.length = 128
  deriving DecidableEq

structure ObjectService where
  id : UInt32
  status : UInt32
  host : Host
  port : Int32
  bset_length : UInt32
  bset_ids : List UInt32
  deriving DecidableEq

structure BSet where
  id : UInt32
  object_service_ids : List UInt32
  deriving DecidableEq, Repr

inductive BSetArray where
  | null
  | live (cells : List BSet)
  | freed
  deriving DecidableEq, Repr

inductive ObjectServiceMapStatus where
  | normal
  | updating
  deriving DecidableEq, Repr

/-- A pointer to an object service, with the id that stays where it points. -/
structure ObjectServiceRef where
  position : Nat
  id : UInt32
  deriving DecidableEq, Repr

structure ObjectServiceMap where
  version : UInt32
  status : ObjectServiceMapStatus
  object_service_length : UInt32
  object_service_list : List ObjectService
  os_map : Option (MapHashLinked ObjectServiceRef)
  bset_length : UInt32
  bset : BSetArray
  bset_replica_size : UInt16
  reference : Int32
  deriving DecidableEq

def Host.ofBytes (b : List UInt8) : Host := ⟨(b ++ List.replicate 128 0).take 128,by simp⟩

/-- No cell can be read through a null or a released pointer. -/
def BSetArray.cells : BSetArray → List BSet
  | .live cells => cells
  | _ => []

namespace ClusterMap

open Muti.Memory Muti.Bytes Muti.Reader Muti.MapHashLinked

def osInt32KeyCompare (key key1 : UInt32) : Int32 := (key - key1).toInt32

def osInt32Hash (key : UInt32) : UInt64 := key.toUInt64

def mparam : MapHashLinkedParam UInt32 ObjectServiceRef where
  compareMethod := osInt32KeyCompare
  hashMethod := osInt32Hash
  key := ObjectServiceRef.id

/-- `1 << i` as an `int`, converted to `size_t`. -/
def intShift (i : Nat) : UInt64 := (Int32.ofNat (2 ^ i)).toInt64.toUInt64

/-- The `while` loop choosing the slot size. An `int` shifted by 31 exceeds every 32-bit
length after the conversion, so `32` turns cover all of them. -/
def slotSize (object_service_length : UInt32) : Nat → UInt64 → Nat → UInt64
  | 0, ssize, _ => ssize
  | turns + 1, ssize, i =>
    if ssize < object_service_length.toUInt64 then
      slotSize object_service_length turns (intShift i) (i + 1)
    else ssize

def clusterMapInitOSMap (m : ObjectServiceMap) : Except Fault ObjectServiceMap := do
  let index ← initMapHashLinked (slotSize m.object_service_length 32 0 1)
  .ok { m with os_map := some index }

/-- The product and the sums before the loop are 32-bit; the result is an `ssize_t`. -/
def clusterMapDumpObjectServiceMapLength (m : ObjectServiceMap) : UInt64 :=
  let fixed : UInt32 := 14 + m.bset_length * (4 + m.bset_replica_size.toUInt32 * 4) +
    m.object_service_length * (13 + 127 + 1)
  m.object_service_list.foldl (fun total_len os => total_len + (os.bset_length * 4).toUInt64)
    fixed.toUInt64

def dumpBSet (bset_replica_size : UInt16) (bset : BSet) : Except Fault (List UInt8) := do
  let ids ← readFirst bset_replica_size.toNat bset.object_service_ids
  .ok (image32 bset.id ++ ids.flatMap image32)

def dumpObjectService (os : ObjectService) : Except Fault (List UInt8) := do
  let ids ← readFirst os.bset_length.toNat os.bset_ids
  .ok (image32 os.id ++ (os.host.bytes ++ (image32 os.port.toUInt32 ++ ([os.status.toUInt8] ++
    (image32 os.bset_length ++ ids.flatMap image32)))))

def dumpHeader (m : ObjectServiceMap) : List UInt8 :=
  image32 m.version ++ image32 m.bset_length ++ image16 m.bset_replica_size ++
    image32 m.object_service_length

def clusterMapDumpObjectServiceMap (m : ObjectServiceMap) (total_len : UInt64) :
    Except Fault (List UInt8) := do
  let cells ← readFirst m.bset_length.toNat m.bset.cells
  let bsets ← cells.mapM (dumpBSet m.bset_replica_size)
  let services ← m.object_service_list.mapM dumpObjectService
  let buf := dumpHeader m ++ bsets.flatten ++ services.flatten
  assert (buf.length = total_len.toNat)
  .ok buf

def freeBSets (m : ObjectServiceMap) : Except Fault BSetArray :=
  match m.bset with
  | .null => .ok .null
  | .live cells => do
    let _ ← readFirst m.bset_length.toNat cells
    .ok .freed
  | .freed => .error .useAfterFree

/-- Release the object services, and the index when there were any. -/
def freeServices (m : ObjectServiceMap) : Except Fault ObjectServiceMap :=
  if m.object_service_list = [] then .ok m
  else
    match m.os_map with
    | none => .error .nullPointer
    | some _ => .ok { m with object_service_list := [], os_map := none }

/-- The `bset` pointer keeps its value. -/
def clusterMapFreeOSMap (m : ObjectServiceMap) : Except Fault ObjectServiceMap := do
  let bset ← freeBSets m
  freeServices { m with bset }

def parseHeader (i : Nat) (m : ObjectServiceMap) : Reader UInt8 Fault ObjectServiceMap :=
  match i with
  | 0 => do
    let version ← word32
    pure { m with version }
  | 1 => do
    let bset_length ← word32
    pure { m with bset_length }
  | 2 => do
    let bset_replica_size ← word16
    pure { m with bset_replica_size }
  | _ => do
    let object_service_length ← word32
    pure { m with object_service_length }

def readBSet (bset_replica_size : UInt16) : Reader UInt8 Fault BSet := do
  let id ← word32
  let object_service_ids ← times word32 bset_replica_size.toNat
  pure ⟨id,object_service_ids⟩

def storeBSet (i : Nat) (m : ObjectServiceMap) (bset : BSet) : Except Fault ObjectServiceMap := do
  let cells ← write m.bset.cells i bset
  .ok { m with bset := .live cells }

def parseBSet (i : Nat) (m : ObjectServiceMap) : Reader UInt8 Fault ObjectServiceMap := do
  let bset ← readBSet m.bset_replica_size
  lift (storeBSet i m bset)

def readObjectService : Reader UInt8 Fault ObjectService := do
  let id ← word32
  let host ← bytes 128
  let port ← word32
  let status ← word8
  let bset_length ← word32
  let bset_ids ← times word32 bset_length.toNat
  pure ⟨id,status.toInt8.toInt32.toUInt32,Host.ofBytes host,port.toInt32,bset_length,bset_ids⟩

/-- Index the new object service under its id, which must be new, and append it. -/
def addObjectService (m : ObjectServiceMap) (os : ObjectService) : Except Fault ObjectServiceMap :=
  match m.os_map with
  | none => .error .nullPointer
  | some index => do
    let (v,index) ← put mparam index os.id ⟨m.object_service_list.length,os.id⟩
    assert (v = none)
    .ok { m with os_map := some index, object_service_list := m.object_service_list ++ [os] }

def parseObjectService (_ : Nat) (m : ObjectServiceMap) : Reader UInt8 Fault ObjectServiceMap := do
  let os ← readObjectService
  lift (addObjectService m os)

/-- `rejected` is the return value `false`; both carry the map as it is left. -/
inductive Parsed where
  | accepted (m : ObjectServiceMap) (consume_len : Nat)
  | rejected (m : ObjectServiceMap)
  deriving DecidableEq

def errorOut (m : ObjectServiceMap) : Except Fault Parsed := do
  let m ← clusterMapFreeOSMap m
  .ok (.rejected m)

def parseServices (m : ObjectServiceMap) (buf_len : Nat) (c : Cursor UInt8) : Except Fault Parsed := do
  match ← loop parseObjectService buf_len 0 m.object_service_length.toNat m c with
  | .short m => errorOut m
  | .finished m c => .ok (.accepted m c.len)

/-- Allocate the index and the bsets the header announces, then parse what follows. -/
def parseBody (m : ObjectServiceMap) (buf_len : Nat) (c : Cursor UInt8) : Except Fault Parsed := do
  let m ← clusterMapInitOSMap m
  let m := { m with bset := .live (List.replicate m.bset_length.toNat ⟨0,[]⟩) }
  match ← loop parseBSet buf_len 0 m.bset_length.toNat m c with
  | .short m => errorOut m
  | .finished m c => parseServices m buf_len c

def clusterMapParseObjectServiceMap (m : ObjectServiceMap) (buffer : List UInt8) :
    Except Fault Parsed := do
  let m := { m with bset := .null, object_service_list := [], status := .normal }
  match ← loop parseHeader buffer.length 0 4 m ⟨buffer,0⟩ with
  | .short m => errorOut m
  | .finished m c => parseBody m buffer.length c

def clusterMapGetObjectService (m : ObjectServiceMap) (os_id : UInt32) :
    Except Fault (Option ObjectService) :=
  match m.os_map with
  | none => .error .nullPointer
  | some index => do
    match ← get mparam index os_id with
    | none => .ok none
    | some ref => do
      let os ← read m.object_service_list ref.position
      .ok (some os)

end ClusterMap
end Muti
