import Muti.FiniteMap
import Muti.MapHashLinked

/-! What MapHashLinked is for: a finite map. Over every sequence of operations it answers
as the map does, a put of a value under another key than its own and a clear into too few
cells included. Keys are the same when their identities are. -/
namespace Muti.MapHashLinked

open Muti.Memory Muti.FiniteMap
open scoped Classical

inductive Op (K V : Type) where
  | put (key : K) (value : V)
  | get (key : K)
  | remove (key : K)
  | clear (values : Option (List (Option V)))
  | size
  | isEmpty
  deriving DecidableEq, Repr

inductive Result (V : Type) where
  | value (value : Option V)
  | values (values : Option (List (Option V)))
  | size (size : Nat)
  | isEmpty (empty : Bool)
  deriving DecidableEq, Repr

variable {κ : Type} (param : MapHashLinkedParam K V)

def exec (map : MapHashLinked V) : Op K V → Except Fault (Result V × MapHashLinked V)
  | .put key value => (put param map key value).map fun done => (.value done.1,done.2)
  | .get key => (get param map key).map fun value => (.value value,map)
  | .remove key => (remove param map key).map fun done => (.value done.1,done.2)
  | .clear values => (clear map values).map fun done => (.values done.1,done.2)
  | .size => .ok (.size map.size,map)
  | .isEmpty => .ok (.isEmpty map.isEmpty,map)

/-- The results of the operations, up to the one that ends the process. -/
def run (map : MapHashLinked V) : List (Op K V) → List (Result V) × Option Fault
  | [] => ([],none)
  | op :: ops => match exec param map op with
    | .error fault => ([],some fault)
    | .ok (result,map') => (result :: (run map' ops).1,(run map' ops).2)

/-- The comparator returns zero exactly on the same keys, and these have the same hashes. -/
structure Respects (identity : K → κ) : Prop where
  compare : ∀ a b, param.compareMethod a b = 0 ↔ identity a = identity b
  hash : ∀ a b, identity a = identity b → param.hashMethod a = param.hashMethod b

def embedded (identity : K → κ) (value : V) : κ := identity (param.key value)

inductive Answer (identity : K → κ) (m : κ → Option V) : Op K V → Except Fault (Result V × (κ → Option V)) → Prop
  | put (own : embedded param identity value = identity key) :
    Answer identity m (.put key value)
      (.ok (.value (m (identity key)),Function.update m (identity key) (some value)))
  | exit (other : embedded param identity value ≠ identity key) :
    Answer identity m (.put key value) (.error .exit)
  | get : Answer identity m (.get key) (.ok (.value (m (identity key)),m))
  | remove :
    Answer identity m (.remove key) (.ok (.value (m (identity key)),Function.update m (identity key) none))
  | clear : Answer identity m (.clear none) (.ok (.values none,fun _ => none))
  | clearInto (all : Enumerates (embedded param identity) m values) (room : values.length ≤ cells.length) :
    Answer identity m (.clear (some cells))
      (.ok (.values (some (values.map some ++ cells.drop values.length)),fun _ => none))
  | clearShort (short : cells.length < FiniteMap.size m) : Answer identity m (.clear (some cells)) (.error .outOfBounds)
  | size : Answer identity m .size (.ok (.size (FiniteMap.size m),m))
  | isEmpty : Answer identity m .isEmpty (.ok (.isEmpty (FiniteMap.size m == 0),m))

inductive Answers (identity : K → κ) : (κ → Option V) → List (Op K V) → List (Result V) × Option Fault → Prop
  | done : Answers identity m [] ([],none)
  | next (first : Answer param identity m op (.ok (result,m'))) (later : Answers identity m' ops (results,fault)) :
    Answers identity m (op :: ops) (result :: results,fault)
  | fault (first : Answer param identity m op (.error fault)) : Answers identity m (op :: ops) ([],some fault)

/-- A new map is made, and answers every sequence of operations as the empty finite map. -/
def Refines (identity : K → κ) (slot_size : UInt64) : Prop :=
  ∃ map, initMapHashLinked slot_size = .ok map ∧ ∀ ops, Answers param identity (fun _ => none) ops (run param map ops)

def Abstracts (identity : K → κ) (map : MapHashLinked V) (m : κ → Option V) : Prop :=
  ∃ values, Represents param map values ∧ Enumerates (embedded param identity) m values

variable {param} {identity : K → κ}

theorem Respects.hashed (respects : Respects param identity) : Hashed param :=
  fun a b same => respects.hash a b ((respects.compare a b).mp same)

theorem Respects.found_iff (respects : Respects param identity) (key : K) (value : V) :
    found param key value = true ↔ embedded param identity value = identity key :=
  beq_iff_eq.trans (respects.compare _ _)

theorem replaceOrAppend_middle (before : ∀ item ∈ front, matching item = false) (matched : matching item = true) :
    replaceOrAppend matching value (front ++ item :: back) = (some item,front ++ value :: back) := by
  induction front with
  | nil => simp [replaceOrAppend,matched]
  | cons first front ih =>
    have other := before first List.mem_cons_self
    have tail := ih fun item member => before item (List.mem_cons_of_mem _ member)
    simp [replaceOrAppend,other,tail]

/-- The first match of a list that enumerates the finite map, if there is one. -/
theorem find_cases (respects : Respects param identity) (all : Enumerates (embedded param identity) m values) (key : K) :
    (m (identity key) = none ∧ ∀ value ∈ values, found param key value = false) ∨
      ∃ front old back, m (identity key) = some old ∧ values = front ++ old :: back ∧
        (∀ value ∈ front, found param key value = false) ∧ found param key old = true := by
  rw [← all.find (identity key) (respects.found_iff key)]
  cases looked : values.find? (found param key) with
  | none =>
    have unmatched := List.find?_eq_none.mp looked
    exact .inl ⟨rfl,fun value member => by simpa using unmatched value member⟩
  | some old =>
    obtain ⟨matched,front,back,rfl,before⟩ := List.find?_eq_some_iff_append.mp looked
    exact .inr ⟨front,old,back,rfl,rfl,fun value member => by simpa using before value member,matched⟩

theorem put_answers (respects : Respects param identity) (stored : Represents param map values)
    (all : Enumerates (embedded param identity) m values) (own : embedded param identity value = identity key) :
    ∃ map', put param map key value = .ok (m (identity key),map') ∧
      Abstracts param identity map' (Function.update m (identity key) (some value)) := by
  obtain ⟨map',result,listed⟩ := stored.put_found respects.hashed ((respects.compare _ _).mpr own)
  rcases find_cases respects all key with ⟨absent,unmatched⟩ | ⟨front,old,back,present,rfl,before,matched⟩
  · rw [replaceOrAppend_fresh unmatched] at result listed
    rw [← own] at absent ⊢
    have more := (all.insert absent).perm (List.perm_append_singleton value values).symm
    refine ⟨map',?_,_,listed,more⟩
    rw [absent]
    exact result
  · rw [replaceOrAppend_middle before matched] at result listed
    have same : embedded param identity value = embedded param identity old :=
      own.trans ((respects.found_iff key old).mp matched).symm
    have moved := (all.perm List.perm_middle).replace same
    rw [own] at moved
    refine ⟨map',?_,_,listed,moved.perm List.perm_middle.symm⟩
    rw [present]
    exact result

theorem remove_answers (respects : Respects param identity) (stored : Represents param map values)
    (all : Enumerates (embedded param identity) m values) (key : K) :
    ∃ map', remove param map key = .ok (m (identity key),map') ∧
      Abstracts param identity map' (Function.update m (identity key) none) := by
  obtain ⟨map',result,listed⟩ := stored.remove_found respects.hashed key
  rw [all.find (identity key) (respects.found_iff key)] at result
  refine ⟨map',result,_,listed,?_⟩
  rcases find_cases respects all key with ⟨absent,unmatched⟩ | ⟨front,old,back,present,rfl,before,matched⟩
  · rw [List.eraseP_of_forall_not fun value member => by simp [unmatched value member]]
    rwa [Function.update_eq_self_iff.mpr absent.symm]
  · have taken : (front ++ old :: back).eraseP (found param key) = front ++ back := by
      rw [List.eraseP_append_right _ fun value member => by simp [before value member],List.eraseP_cons_of_pos matched]
    have out := (all.perm List.perm_middle).erase
    rw [(respects.found_iff key old).mp matched] at out
    rwa [taken]

theorem clear_answers (stored : Represents param map values) (all : Enumerates (embedded param identity) m values)
    (cells : Option (List (Option V))) :
    (∃ written map', clear map cells = .ok (written,map') ∧
      Answer param identity m (.clear cells) (.ok (.values written,fun _ => none)) ∧ Represents param map' []) ∨
    clear map cells = .error .outOfBounds ∧ Answer param identity m (.clear cells) (.error .outOfBounds) := by
  have items := all.perm stored.items_perm.symm
  cases cells with
  | none =>
    left
    refine ⟨none,_,?_,.clear,stored.cleared⟩
    rw [clear,foldlM_clearItems,clearItems_none]
    rfl
  | some cells =>
    by_cases room : map.slots.flatten.length ≤ cells.length
    · left
      refine ⟨some (map.slots.flatten.map some ++ cells.drop map.slots.flatten.length),_,?_,.clearInto items room,stored.cleared⟩
      rw [clear,foldlM_clearItems,clearItems_fits cells (by simpa using room)]
      simp [bind,Except.bind]
    · right
      constructor
      · rw [clear,foldlM_clearItems,clearItems_short cells (Nat.zero_le _) (by simpa using room)]
        rfl
      · refine .clearShort ?_
        rw [items.size_eq]
        exact Nat.lt_of_not_le room

/-- One operation on the map is answered as by the finite map, and they have the same values again. -/
theorem exec_answers (respects : Respects param identity) (same : Abstracts param identity map m) (op : Op K V) :
    (∃ result map' m', exec param map op = .ok (result,map') ∧ Answer param identity m op (.ok (result,m')) ∧
      Abstracts param identity map' m') ∨
    ∃ fault, exec param map op = .error fault ∧ Answer param identity m op (.error fault) := by
  obtain ⟨values,stored,all⟩ := same
  cases op with
  | put key value =>
    by_cases own : embedded param identity value = identity key
    · left
      obtain ⟨map',result,after⟩ := put_answers respects stored all own
      exact ⟨_,map',_,by simp [exec,result,Except.map],.put own,after⟩
    · right
      refine ⟨.exit,?_,.exit own⟩
      have foreign : param.compareMethod (param.key value) key ≠ 0 := mt (respects.compare _ _).mp own
      have exits : put param map key value = .error .exit := if_pos foreign
      simp [exec,exits,Except.map]
  | get key =>
    left
    have result := stored.get_found respects.hashed key
    rw [all.find (identity key) (respects.found_iff key)] at result
    exact ⟨_,map,m,by simp [exec,result,Except.map],.get,values,stored,all⟩
  | remove key =>
    left
    obtain ⟨map',result,after⟩ := remove_answers respects stored all key
    exact ⟨_,map',_,by simp [exec,result,Except.map],.remove,after⟩
  | clear cells =>
    rcases clear_answers stored all cells with ⟨written,map',result,answer,after⟩ | ⟨fault,answer⟩
    · left
      exact ⟨_,map',_,by simp [exec,result,Except.map],answer,[],after,enumerates_empty⟩
    · right
      exact ⟨_,by simp [exec,fault,Except.map],answer⟩
  | size =>
    left
    refine ⟨_,map,m,rfl,?_,values,stored,all⟩
    rw [stored.size,← all.size_eq]
    exact .size
  | isEmpty =>
    left
    refine ⟨_,map,m,rfl,?_,values,stored,all⟩
    rw [isEmpty,stored.size,← all.size_eq]
    exact .isEmpty

theorem run_answers (respects : Respects param identity) (same : Abstracts param identity map m) (ops : List (Op K V)) :
    Answers param identity m ops (run param map ops) := by
  induction ops generalizing map m with
  | nil => exact .done
  | cons op ops ih =>
    rcases exec_answers respects same op with ⟨result,map',m',done,answer,after⟩ | ⟨fault,done,answer⟩
    · simp only [run,done]
      exact .next answer (ih after)
    · simp only [run,done]
      exact .fault answer

theorem and_pred_of_power {slot_size : UInt64} (power : slot_size.toNat.isPowerOfTwo) :
    0 < slot_size.toNat ∧ slot_size &&& (slot_size - 1) = 0 := by
  obtain ⟨k,exponent⟩ := power
  have positive : 0 < slot_size.toNat := exponent ▸ Nat.two_pow_pos k
  have pred : (slot_size - 1).toNat = slot_size.toNat - 1 := by
    rw [UInt64.toNat_sub_of_le]
    · rfl
    · rw [UInt64.le_iff_toNat_le]
      exact positive
  refine ⟨positive,UInt64.toNat_inj.mp ?_⟩
  rw [UInt64.toNat_and,pred,exponent,Nat.and_two_pow_sub_one_eq_mod]
  exact Nat.mod_self _

/-- With a power of two of slots, the map answers every sequence of operations as the finite
map exactly when the `int` of the initialising loop counts them. -/
theorem refines_iff {slot_size : UInt64} (respects : Respects param identity) (power : slot_size.toNat.isPowerOfTwo) :
    Refines param identity slot_size ↔ slot_size.toNat < 2 ^ 31 := by
  obtain ⟨room,masked⟩ := and_pred_of_power power
  constructor
  · rintro ⟨map,made,-⟩
    by_contra large
    rw [initMapHashLinked,if_neg (not_not.mpr masked),if_pos (Nat.le_of_not_lt large)] at made
    cases made
  · intro small
    obtain ⟨map,made,empty⟩ := init_represents param masked room small
    exact ⟨map,made,run_answers respects ⟨[],empty,enumerates_empty⟩⟩

/-- Values with the key behind them, compared and hashed by the key alone. -/
def keyedParam : MapHashLinkedParam UInt64 (UInt64 × UInt64) where
  compareMethod a b := if a = b then 0 else 1
  hashMethod := id
  key := Prod.snd

theorem keyedParam_respects : Respects keyedParam id := by
  refine ⟨fun a b => ?_,fun a b same => congrArg _ same⟩
  by_cases same : a = b <;> simp [keyedParam,same]

theorem refines_iff_four : Refines keyedParam id 4 :=
  (refines_iff keyedParam_respects ⟨2,rfl⟩).mpr (by decide)

/-- With `2 ^ 32` slots the loop's counter overflows. -/
theorem not_refines_large : ¬Refines keyedParam id 4294967296 := by
  rintro ⟨map,made,-⟩
  have overflow : initMapHashLinked (V := UInt64 × UInt64) 4294967296 = .error .overflow := rfl
  cases overflow.symm.trans made

end Muti.MapHashLinked
