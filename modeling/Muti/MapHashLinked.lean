import Muti.Lists
import Muti.Memory

/-! The chained hash map of corecode/util. A slot is a linked list of stored values; the
key is found inside the value, so a map is used through its key method, its compare
method and its hash method. Abstractly a map is the list of its values in the order
in which their keys arrived. -/
namespace Muti

/-- The methods given to `initMapHashLinked`; `key` reads the key at its offset in a value. -/
structure MapHashLinkedParam (K V : Type) where
  compareMethod : K → K → Int32
  hashMethod : K → UInt64
  key : V → K

structure MapHashLinked (V : Type) where
  slot_size : UInt64
  slots : List (List V)
  size : Nat
  deriving DecidableEq, Repr

namespace MapHashLinked

open Muti.Memory

/-- The slots are initialised by a loop over an `int`. -/
def initMapHashLinked (slot_size : UInt64) : Except Fault (MapHashLinked V) :=
  if slot_size &&& (slot_size - 1) ≠ 0 then .error .exit
  else if 2 ^ 31 ≤ slot_size.toNat then .error .overflow
  else .ok ⟨slot_size,List.replicate slot_size.toNat [],0⟩

/-- The item loop of `put`: the first matching item takes the value, else one is appended. -/
def replaceOrAppend (matching : V → Bool) (value : V) : List V → Option V × List V
  | [] => (none,[value])
  | item :: items =>
    if matching item then (some item,value :: items)
    else
      let rest := replaceOrAppend matching value items
      (rest.1,item :: rest.2)

variable (param : MapHashLinkedParam K V)

def found (key : K) (value : V) : Bool := param.compareMethod (param.key value) key == 0

def slot (map : MapHashLinked V) (key : K) : Nat :=
  (param.hashMethod key &&& (map.slot_size - 1)).toNat

def get (map : MapHashLinked V) (key : K) : Except Fault (Option V) := do
  let items ← read map.slots (slot param map key)
  .ok (items.find? (found param key))

def put (map : MapHashLinked V) (key : K) (value : V) :
    Except Fault (Option V × MapHashLinked V) :=
  if param.compareMethod (param.key value) key ≠ 0 then .error .exit
  else do
    let items ← read map.slots (slot param map key)
    let (displaced,items) := replaceOrAppend (found param key) value items
    let size := if displaced.isSome then map.size else map.size + 1
    .ok (displaced,{ map with slots := map.slots.set (slot param map key) items, size })

def remove (map : MapHashLinked V) (key : K) : Except Fault (Option V × MapHashLinked V) := do
  let items ← read map.slots (slot param map key)
  match items.find? (found param key) with
  | none => .ok (none,map)
  | some item =>
    let slots := map.slots.set (slot param map key) (items.eraseP (found param key))
    .ok (some item,{ map with slots, size := map.size - 1 })

def isEmpty (map : MapHashLinked V) : Bool := map.size == 0

/-- The item loop of `clear`: each value goes to the next cell, when there are cells. -/
def clearItems (values : Option (List (Option V))) (j : Nat) : List V → Except Fault (Option (List (Option V)) × Nat)
  | [] => .ok (values,j)
  | item :: items => match values with
    | none => clearItems none j items
    | some cells => do
      let cells ← write cells j (some item)
      clearItems (some cells) (j + 1) items

/-- The cells given for the values, as they are afterwards, and the map without its items. -/
def clear (map : MapHashLinked V) (values : Option (List (Option V))) :
    Except Fault (Option (List (Option V)) × MapHashLinked V) := do
  let (values,_) ← map.slots.foldlM (fun s items => clearItems s.1 s.2 items) (values,0)
  .ok (values,{ map with slots := map.slots.map fun _ => [], size := 0 })

def Lawful : Prop := ∀ a b, param.compareMethod a b = 0 ↔ a = b

def Hashed : Prop := ∀ a b, param.compareMethod a b = 0 → param.hashMethod a = param.hashMethod b

/-- The map holds exactly these values, each in the slot of its key. -/
structure Represents (map : MapHashLinked V) (values : List V) : Prop where
  room : 0 < map.slot_size.toNat
  slots : map.slots = (List.range map.slot_size.toNat).map fun i =>
    values.filter fun value => slot param map (param.key value) == i
  size : map.size = values.length

theorem replaceOrAppend_fresh (new : ∀ item ∈ items, matching item = false) :
    replaceOrAppend matching value items = (none,items ++ [value]) := by
  induction items with
  | nil => rfl
  | cons item items ih =>
    have other := new item List.mem_cons_self
    have tail := ih fun item member => new item (List.mem_cons_of_mem _ member)
    simp [replaceOrAppend,other,tail]

variable {param : MapHashLinkedParam K V}

theorem replaceOrAppend_known (value : V) (known : ∃ item ∈ items, matching item = true) :
    (replaceOrAppend matching value items).1 ≠ none := by
  induction items with
  | nil => simp at known
  | cons item items ih =>
    cases here : matching item with
    | true => simp [replaceOrAppend,here]
    | false =>
      simp only [List.mem_cons,exists_eq_or_imp,here,Bool.false_eq_true,false_or] at known
      simpa [replaceOrAppend,here] using ih known

theorem Lawful.hashed (lawful : Lawful param) : Hashed param := fun a b same => by rw [(lawful a b).mp same]

theorem Hashed.slot_eq (hashed : Hashed param) (map : MapHashLinked V) (matched : found param key value = true) :
    slot param map (param.key value) = slot param map key := by
  rw [slot,slot,hashed _ _ (beq_iff_eq.mp matched)]

/-- In the part of a list that holds every match, replacing is replacing in the list. -/
theorem replaceOrAppend_filter (matching keep : V → Bool) (inside : ∀ item, matching item = true → keep item = true)
    (kept : keep value = true) (items : List V) : replaceOrAppend matching value (items.filter keep) =
      ((replaceOrAppend matching value items).1,(replaceOrAppend matching value items).2.filter keep) := by
  induction items with
  | nil => simp [replaceOrAppend,kept]
  | cons item items ih =>
    cases matched : matching item with
    | true => simp [replaceOrAppend,matched,inside item matched,kept]
    | false => cases keep_item : keep item <;> simp [replaceOrAppend,matched,keep_item,ih]

theorem replaceOrAppend_other {keep : V → Bool} (outside : ∀ item, matching item = true → keep item = false)
    (left : keep value = false) (items : List V) :
    (replaceOrAppend matching value items).2.filter keep = items.filter keep := by
  induction items with
  | nil => simp [replaceOrAppend,left]
  | cons item items ih =>
    cases matched : matching item with
    | true => simp [replaceOrAppend,matched,outside item matched,left]
    | false => simp [replaceOrAppend,matched,List.filter_cons,ih]

theorem replaceOrAppend_length (matching : V → Bool) (value : V) (items : List V) :
    (replaceOrAppend matching value items).2.length =
      if (replaceOrAppend matching value items).1.isSome then items.length else items.length + 1 := by
  induction items with
  | nil => rfl
  | cons item items ih =>
    cases matched : matching item with
    | true => simp [replaceOrAppend,matched]
    | false =>
      simp only [replaceOrAppend,matched,Bool.false_eq_true,if_false,List.length_cons,ih]
      split <;> rfl

theorem eraseP_filter (matching keep : V → Bool) (inside : ∀ item, matching item = true → keep item = true) (items : List V) :
    (items.filter keep).eraseP matching = (items.eraseP matching).filter keep := by
  induction items with
  | nil => rfl
  | cons item items ih =>
    cases matched : matching item with
    | true => simp [matched,inside item matched]
    | false => cases keep_item : keep item <;> simp [matched,keep_item,ih]

theorem eraseP_other {keep : V → Bool} (outside : ∀ item, matching item = true → keep item = false) (items : List V) :
    (items.eraseP matching).filter keep = items.filter keep := by
  induction items with
  | nil => rfl
  | cons item items ih =>
    cases matched : matching item with
    | true => simp [matched,outside item matched]
    | false => simp [matched,List.filter_cons,ih]

variable (param)

/-- Masking with `slot_size - 1` stays below a nonzero slot size. -/
theorem slot_lt (map : MapHashLinked V) (room : 0 < map.slot_size.toNat) (key : K) :
    slot param map key < map.slot_size.toNat := by
  have below : (map.slot_size - 1).toNat = map.slot_size.toNat - 1 := by
    rw [UInt64.toNat_sub_of_le]
    · rfl
    · rw [UInt64.le_iff_toNat_le]
      exact room
  have masked : (param.hashMethod key).toNat &&& (map.slot_size - 1).toNat ≤ (map.slot_size - 1).toNat :=
    Nat.and_le_right
  rw [slot,UInt64.toNat_and]
  omega

theorem init_represents {count : UInt64} (power : count &&& (count - 1) = 0)
    (room : 0 < count.toNat) (small : count.toNat < 2 ^ 31) :
    ∃ map, initMapHashLinked count = .ok map ∧ Represents param map [] := by
  refine ⟨⟨count,List.replicate count.toNat [],0⟩,?_,room,?_,rfl⟩
  · have bounded : ¬2 ^ 31 ≤ count.toNat := by omega
    rw [initMapHashLinked,if_neg (not_not.mpr power),if_neg bounded]
  · simp [List.map_const']

namespace Represents

variable {param : MapHashLinkedParam K V}

theorem read_slot (stored : Represents param map values) (key : K) :
    read map.slots (slot param map key) =
      .ok (values.filter fun value => slot param map (param.key value) == slot param map key) := by
  have inside := slot_lt param map stored.room key
  rw [read_ok,stored.slots]
  simp [inside]

/-- The slot of the key holds the matches of the list. -/
theorem find_slot (hashed : Hashed param) (map : MapHashLinked V) (key : K) (values : List V) :
    (values.filter fun value => slot param map (param.key value) == slot param map key).find? (found param key) =
      values.find? (found param key) := by
  rw [List.find?_filter]
  congr 1
  funext value
  cases matched : found param key value with
  | true => simp [hashed.slot_eq map matched]
  | false => simp

/-- Looking a key up is looking it up in the list of values. -/
theorem get_found (stored : Represents param map values) (hashed : Hashed param) (key : K) :
    get param map key = .ok (values.find? (found param key)) := by
  rw [get,stored.read_slot key]
  exact congrArg Except.ok (find_slot hashed map key values)

theorem get_eq (stored : Represents param map values) (lawful : Lawful param) (key : K) :
    get param map key = .ok (values.find? (found param key)) := stored.get_found lawful.hashed key

/-- A new list for one slot, when the others keep theirs. -/
theorem relist {count : Nat} (stored : Represents param map values) (key : K) (values' : List V)
    (others : ∀ i, i ≠ slot param map key → (values'.filter fun value => slot param map (param.key value) == i) =
      values.filter fun value => slot param map (param.key value) == i) (counted : count = values'.length) :
    Represents param { map with
      slots := map.slots.set (slot param map key)
        (values'.filter fun value => slot param map (param.key value) == slot param map key)
      size := count } values' := by
  refine ⟨stored.room,?_,counted⟩
  change map.slots.set _ _ = _
  rw [stored.slots]
  exact Lists.range_map_set (g := fun i => values'.filter fun value => slot param map (param.key value) == i) others

/-- Putting a value is replacing the first match in the list of values. -/
theorem put_found (stored : Represents param map values) (hashed : Hashed param)
    (own : param.compareMethod (param.key value) key = 0) :
    ∃ map', put param map key value = .ok ((replaceOrAppend (found param key) value values).1,map') ∧
      Represents param map' (replaceOrAppend (found param key) value values).2 := by
  have here : slot param map (param.key value) = slot param map key := hashed.slot_eq map (beq_iff_eq.mpr own)
  have inside := replaceOrAppend_filter (found param key)
    (fun value => slot param map (param.key value) == slot param map key)
    (fun item matched => beq_iff_eq.mpr (hashed.slot_eq map matched)) (beq_iff_eq.mpr here) values
  have count := replaceOrAppend_length (found param key) value values
  rw [← stored.size] at count
  have listed := stored.relist key (replaceOrAppend (found param key) value values).2 (fun i other =>
    replaceOrAppend_other (fun item matched => by simp [hashed.slot_eq map matched,Ne.symm other])
      (by simp [here,Ne.symm other]) values) count.symm
  refine ⟨_,?_,listed⟩
  rw [put,if_neg (not_not.mpr own),stored.read_slot key]
  simp only [bind,Except.bind,inside]

/-- Removing a key is removing the first match from the list of values. -/
theorem remove_found (stored : Represents param map values) (hashed : Hashed param) (key : K) :
    ∃ map', remove param map key = .ok (values.find? (found param key),map') ∧
      Represents param map' (values.eraseP (found param key)) := by
  have looked := find_slot hashed map key values
  have inside := eraseP_filter (found param key) (fun value => slot param map (param.key value) == slot param map key)
    (fun item matched => beq_iff_eq.mpr (hashed.slot_eq map matched)) values
  cases present : values.find? (found param key) with
  | none =>
    have absent : ∀ value ∈ values, ¬found param key value = true := List.find?_eq_none.mp present
    refine ⟨map,?_,?_⟩
    · rw [remove,stored.read_slot key]
      change (match (List.filter _ values).find? _ with | none => _ | some _ => _) = _
      rw [looked,present]
    · rwa [List.eraseP_of_forall_not absent]
  | some item =>
    have member := List.mem_of_find?_eq_some present
    have matched := List.find?_some present
    have count : map.size - 1 = (values.eraseP (found param key)).length := by
      rw [List.length_eraseP_of_mem member matched,stored.size]
    have listed := stored.relist key (values.eraseP (found param key)) (fun i other =>
      eraseP_other (fun item matched => by simp [hashed.slot_eq map matched,Ne.symm other]) values) count
    refine ⟨_,?_,listed⟩
    rw [remove,stored.read_slot key]
    change (match (List.filter _ values).find? _ with | none => _ | some _ => _) = _
    rw [looked,present,← inside]

/-- A value under a key not yet present is appended and displaces nothing. -/
theorem put_fresh (stored : Represents param map values) (key : K) (value : V) (lawful : Lawful param)
    (named : param.key value = key) (new : ∀ other ∈ values, param.key other ≠ key) :
    ∃ map', put param map key value = .ok (none,map') ∧ Represents param map' (values ++ [value]) := by
  have unmatched : ∀ other ∈ values, found param key other = false := by
    intro other member
    simp [found,(lawful _ _).not.mpr (new other member)]
  have put := stored.put_found lawful.hashed ((lawful _ _).mpr named)
  rwa [replaceOrAppend_fresh unmatched] at put

/-- The items, slot after slot, are the values in some order. -/
theorem items_perm (stored : Represents param map values) : map.slots.flatten.Perm values := by
  rw [stored.slots]
  exact Lists.flatMap_filter_perm (fun value => slot param map (param.key value)) map.slot_size.toNat
    fun value _ => slot_lt param map stored.room (param.key value)

theorem cleared (stored : Represents param map values) :
    Represents param { map with slots := map.slots.map fun _ => [], size := 0 } [] := by
  refine ⟨stored.room,?_,rfl⟩
  change map.slots.map _ = _
  rw [stored.slots,List.map_map]
  rfl

end Represents

theorem clearItems_none (j : Nat) (items : List V) : clearItems none j items = .ok (none,j) := by
  induction items with
  | nil => rfl
  | cons item items ih => exact ih

theorem clearItems_append (values : Option (List (Option V))) (j : Nat) (front back : List V) :
    clearItems values j (front ++ back) = (clearItems values j front).bind fun s => clearItems s.1 s.2 back := by
  induction front generalizing values j with
  | nil => rfl
  | cons item front ih =>
    cases values with
    | none => exact ih none j
    | some cells =>
      cases written : write cells j (some item) with
      | error reason => simp [clearItems,written,bind,Except.bind]
      | ok cells' =>
        have later := ih (some cells') (j + 1)
        simpa [clearItems,written,bind,Except.bind] using later

/-- `clear` goes through the items of all slots in one row. -/
theorem foldlM_clearItems (slots : List (List V)) (s : Option (List (Option V)) × Nat) :
    slots.foldlM (fun s items => clearItems s.1 s.2 items) s = clearItems s.1 s.2 slots.flatten := by
  induction slots generalizing s with
  | nil => rfl
  | cons items slots ih =>
    rw [List.foldlM_cons,List.flatten_cons,clearItems_append]
    cases first : clearItems s.1 s.2 items with
    | error reason => rfl
    | ok s' => exact ih s'

theorem clearItems_fits (cells : List (Option V)) (fits : j + items.length ≤ cells.length) :
    clearItems (some cells) j items =
      .ok (some (cells.take j ++ items.map some ++ cells.drop (j + items.length)),j + items.length) := by
  induction items generalizing cells j with
  | nil => simp [clearItems]
  | cons item items ih =>
    rw [List.length_cons] at fits
    have inside : j < cells.length := by omega
    have later := ih (cells.set j (some item)) (j := j + 1) (by rw [List.length_set]; omega)
    have taken : (cells.set j (some item)).take (j + 1) = cells.take j ++ [some item] := by
      rw [List.take_succ_eq_append_getElem (by simpa using inside),List.take_set_of_le (Nat.le_refl j)]
      simp
    have dropped : (cells.set j (some item)).drop (j + 1 + items.length) = cells.drop (j + (items.length + 1)) := by
      rw [List.drop_set_of_lt (by omega)]
      congr 1
      omega
    rw [clearItems,write,if_pos inside]
    change clearItems (some (cells.set j (some item))) (j + 1) items = _
    have counted : j + 1 + items.length = j + (items.length + 1) := by omega
    rw [later,taken,dropped,counted]
    simp

theorem clearItems_short (cells : List (Option V)) (start : j ≤ cells.length) (short : cells.length < j + items.length) :
    clearItems (some cells) j items = .error .outOfBounds := by
  induction items generalizing cells j with
  | nil =>
    simp at short
    omega
  | cons item items ih =>
    rw [List.length_cons] at short
    by_cases inside : j < cells.length
    · rw [clearItems,write,if_pos inside]
      exact ih (cells.set j (some item)) (by rw [List.length_set]; omega) (by rw [List.length_set]; omega)
    · rw [clearItems,write,if_neg inside]
      rfl

end MapHashLinked
end Muti
