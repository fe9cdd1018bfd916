import Muti.Foo
import Muti.LinkedList
import Muti.MapHashLinked

/-! The records of the example service: a block of memory for each, a hash map that finds
it by its id, and a list in the order in which the ids arrived. A record that is put again
is copied over the one there is, list element included. -/
namespace Muti

open Muti.Memory Muti.Rings Muti.LinkedList

/-- Blocks and list links by their addresses; `list` is the address of the list's head. -/
structure FooDao where
  heap : Links UInt64
  blocks : UInt64 → Option FooFields
  map : MapHashLinked UInt64
  list : UInt64
  list_size : Nat

namespace FooDao

def fooCompareMethod (key key1 : Int32) : Int32 := key - key1

def fooHashMethod (key : Int32) : UInt64 := key.toInt64.toUInt64

/-- The map holds pointers, and reads the key behind one. -/
def mapParam (blocks : UInt64 → Option FooFields) : MapHashLinkedParam Int32 UInt64 where
  compareMethod := fooCompareMethod
  hashMethod := fooHashMethod
  key s := ((blocks s).map FooFields.id).getD 0

def initFooDao (list : UInt64) : Except Fault FooDao := do
  let map ← MapHashLinked.initMapHashLinked ((1 : UInt64) <<< 20)
  .ok ⟨listHeadInit ⟨fun _ => none,fun _ => none⟩ list,fun _ => none,map,list,0⟩

/-- The difference of two keys is no `int`. -/
def overflows (key key1 : Int32) : Bool := 2 ^ 31 ≤ key.toInt - key1.toInt || key.toInt - key1.toInt < -2 ^ 31

/-- The subtractions in the slot of an id, up to the record that has it. -/
def fooCompared (dao : FooDao) (id : Int32) : Except Fault Unit := do
  let param := mapParam dao.blocks
  let items ← read dao.map.slots (MapHashLinked.slot param dao.map id)
  if (items.takeWhile fun s => !MapHashLinked.found param id s).any fun s => overflows (param.key s) id then .error .overflow
  else .ok ()

def getFoo (dao : FooDao) (id : Int32) : Except Fault (Option UInt64) := do
  fooCompared dao id
  MapHashLinked.get (mapParam dao.blocks) dao.map id

def pointer (address : UInt64) : Option UInt64 := if address = 0 then none else some address

/-- The `memcpy` of a record and its path over the block at `s`, which has this room for paths. -/
def copyFoo (dao : FooDao) (s : UInt64) (room : List UInt8) (foo : Foo) : Except Fault FooDao := do
  let path ← readFirst foo.path_length.toNat foo.data
  if room.length < path.length then .error .outOfBounds
  else
    let heap := dao.heap.setNext s (pointer foo.element.next)
    let heap := heap.setPrev s (pointer foo.element.prev)
    let fields := { foo.toFooFields with data := path ++ room.drop path.length }
    .ok { dao with heap, blocks := Function.update dao.blocks s (some fields) }

/-- `block` is what `malloc` returns where it is called; the map's `put` makes the subtractions of
its `get` again. -/
def putFoo (dao : FooDao) (block : UInt64) (foo : Foo) : Except Fault FooDao := do
  match ← getFoo dao foo.id with
  | none =>
    let dao ← copyFoo dao block (List.replicate foo.path_length.toNat 0) foo
    let (_,map) ← MapHashLinked.put (mapParam dao.blocks) dao.map foo.id block
    match listAddTail dao.heap block dao.list with
    | none => .error .nullPointer
    | some heap =>
      if dao.list_size + 1 = 2 ^ 31 then .error .overflow
      else .ok { dao with heap, map, list_size := dao.list_size + 1 }
  | some s => match dao.blocks s with
    | none => .error .outOfBounds
    | some fields => copyFoo dao s fields.data foo

/-- `listForEachEntry` with its count of the records passed: the element it stops at, the
head's own when there are no more. Without fuel it is not known to stop. -/
def seek (heap : Links UInt64) (list : UInt64) (offset : Int) : Nat → UInt64 → Nat → Except Fault (Option UInt64)
  | 0, _, _ => .ok none
  | fuel + 1, s, off =>
    if s = list then .ok (some s)
    else if offset = off then .ok (some s)
    else if off + 1 = 2 ^ 31 then .error .overflow
    else match heap.next s with
      | none => .error .nullPointer
      | some next => seek heap list offset fuel next (off + 1)

/-- How many records there are on the page and the element before them, which is left
unset when there are none; nothing when the walk does not stop in time. -/
def listFoo (fuel : Nat) (dao : FooDao) (page page_size : Int32) : Except Fault (Option (Int × Option UInt64)) := do
  let offset := page.toInt * page_size.toInt
  if offset < -2 ^ 31 ∨ 2 ^ 31 ≤ offset then .error .overflow
  else if dao.list_size ≤ offset then .ok (some (0,none))
  else
    let left := dao.list_size - offset
    if 2 ^ 31 ≤ left then .error .overflow
    else match dao.heap.next dao.list with
      | none => .error .nullPointer
      | some first =>
        let stopped ← seek dao.heap dao.list offset fuel first 0
        .ok (stopped.map fun head => (if left < page_size.toInt then left else page_size.toInt,some head))

def freeValues (blocks : UInt64 → Option FooFields) : List (Option UInt64) → Except Fault (UInt64 → Option FooFields)
  | [] => .ok blocks
  | none :: _ => .error .useAfterFree
  | some s :: values => match blocks s with
    | none => .error .useAfterFree
    | some _ => freeValues (Function.update blocks s none) values

def destroy (dao : FooDao) : Except Fault (UInt64 → Option FooFields) := do
  if dao.list_size = 0 then .ok dao.blocks
  else
    assert (dao.map.size = dao.list_size)
    let (values,_) ← MapHashLinked.clear dao.map (some (List.replicate dao.list_size none))
    freeValues dao.blocks (values.getD [])

end FooDao
end Muti
