import Muti.Rings

/-! The intrusive lists. A pointer that is followed is no null pointer: where a link that is
to be followed holds one, there is no result. -/
namespace Muti.LinkedList

open Muti.Rings

universe u

variable {α : Type u} [DecidableEq α]

def listHeadInit (heap : Links α) (head : α) : Links α :=
  let heap := heap.setNext head (some head)
  heap.setPrev head (some head)

def __listAdd (heap : Links α) (element prev next : α) : Links α :=
  let heap := heap.setPrev next (some element)
  let heap := heap.setNext element (some next)
  let heap := heap.setPrev element (some prev)
  heap.setNext prev (some element)

def listAdd (heap : Links α) (element head : α) : Option (Links α) := do
  let next ← heap.next head
  some (__listAdd heap element head next)

def listAddTail (heap : Links α) (element head : α) : Option (Links α) := do
  let prev ← heap.prev head
  some (__listAdd heap element prev head)

def __listDel (heap : Links α) (prev next : α) : Links α :=
  let heap := heap.setPrev next (some prev)
  heap.setNext prev (some next)

def __listDelEntry (heap : Links α) (element : α) : Option (Links α) := do
  let prev ← heap.prev element
  let next ← heap.next element
  some (__listDel heap prev next)

def listDel (heap : Links α) (element : α) : Option (Links α) := do
  let prev ← heap.prev element
  let next ← heap.next element
  let heap := __listDel heap prev next
  let heap := heap.setNext element none
  some (heap.setPrev element none)

def listReplace (heap : Links α) (old_element new_element : α) : Option (Links α) := do
  let heap := heap.setNext new_element (heap.next old_element)
  let next ← heap.next new_element
  let heap := heap.setPrev next (some new_element)
  let heap := heap.setPrev new_element (heap.prev old_element)
  let prev ← heap.prev new_element
  some (heap.setNext prev (some new_element))

def listMove (heap : Links α) (element head : α) : Option (Links α) := do
  let heap ← __listDelEntry heap element
  listAdd heap element head

def listMoveTail (heap : Links α) (element head : α) : Option (Links α) := do
  let heap ← __listDelEntry heap element
  listAddTail heap element head

def listEmpty (heap : Links α) (head : α) : Bool := heap.next head = some head

def listRotateLeft (heap : Links α) (head : α) : Option (Links α) :=
  if !listEmpty heap head then do
    let first ← heap.next head
    listMoveTail heap first head
  else some heap

def listIsSingular (heap : Links α) (head : α) : Bool := !listEmpty heap head && heap.next head = heap.prev head

def __listCutPosition (heap : Links α) (element head entry : α) : Option (Links α) := do
  let new_first := heap.next entry
  let heap := heap.setNext element (heap.next head)
  let next ← heap.next element
  let heap := heap.setPrev next (some element)
  let heap := heap.setPrev element (some entry)
  let heap := heap.setNext entry (some element)
  let heap := heap.setNext head new_first
  let new_first ← new_first
  some (heap.setPrev new_first (some head))

def listCutPosition (heap : Links α) (element head entry : α) : Option (Links α) :=
  if listEmpty heap head then some heap
  else if listIsSingular heap head && (heap.next head ≠ some entry && head ≠ entry) then some heap
  else if entry = head then some (listHeadInit heap element)
  else __listCutPosition heap element head entry

def __listJoin (heap : Links α) (element prev next : α) : Option (Links α) := do
  let first ← heap.next element
  let last ← heap.prev element
  let heap := heap.setPrev first (some prev)
  let heap := heap.setNext prev (some first)
  let heap := heap.setNext last (some next)
  some (heap.setPrev next (some last))

def listJoinInit (heap : Links α) (list_from list_to : α) : Option (Links α) :=
  if !listEmpty heap list_from then do
    let next ← heap.next list_to
    let heap ← __listJoin heap list_from list_to next
    some (listHeadInit heap list_from)
  else some heap

def listJoinTailInit (heap : Links α) (list_from list_to : α) : Option (Links α) :=
  if !listEmpty heap list_from then do
    let prev ← heap.prev list_to
    let heap ← __listJoin heap list_from prev list_to
    some (listHeadInit heap list_from)
  else some heap

inductive Call (α : Type u) where
  | listAdd (element head : α)
  | listAddTail (element head : α)
  | listDel (element : α)
  | listMove (element head : α)
  | listMoveTail (element head : α)
  | listReplace (old_element new_element : α)
  | listRotateLeft (head : α)
  | listCutPosition (element head entry : α)
  | listJoinInit (list_from list_to : α)
  | listJoinTailInit (list_from list_to : α)

def exec (heap : Links α) : Call α → Option (Links α)
  | .listAdd element head => listAdd heap element head
  | .listAddTail element head => listAddTail heap element head
  | .listDel element => listDel heap element
  | .listMove element head => listMove heap element head
  | .listMoveTail element head => listMoveTail heap element head
  | .listReplace old_element new_element => listReplace heap old_element new_element
  | .listRotateLeft head => listRotateLeft heap head
  | .listCutPosition element head entry => listCutPosition heap element head entry
  | .listJoinInit list_from list_to => listJoinInit heap list_from list_to
  | .listJoinTailInit list_from list_to => listJoinTailInit heap list_from list_to

/-- The pointers that are given in a call. -/
def Call.arguments : Call α → List α
  | .listAdd element head | .listAddTail element head | .listMove element head | .listMoveTail element head => [element,head]
  | .listDel element => [element]
  | .listReplace old_element new_element => [old_element,new_element]
  | .listRotateLeft head => [head]
  | .listCutPosition element head entry => [element,head,entry]
  | .listJoinInit list_from list_to | .listJoinTailInit list_from list_to => [list_from,list_to]

end Muti.LinkedList
