import Muti.FooHandler
import Muti.LinkedListSequences

/-! What the example service keeps: a table of records, one for each id, in the order in
which the ids arrived, each with the room its block has for paths. A get and a put do to the
blocks, the map and the list what they do to the table. -/
namespace Muti.FooDao

open Muti.Memory Muti.Rings Muti.LinkedList Muti.MapHashLinked Muti.Foo

structure Record where
  foo : FooFields
  room : Nat
  deriving DecidableEq, Repr

abbrev Table := List Record

namespace Table

def ids (table : Table) : List Int32 := table.map fun r => r.foo.id

def find (table : Table) (id : Int32) : Option Record := table.find? fun r => r.foo.id == id

/-- A new id goes to the end; a known one keeps its place and its room. -/
def put (table : Table) (foo : FooFields) : Except Fault Table :=
  match find table foo.id with
  | none => if table.length + 1 = 2 ^ 31 then .error .overflow else .ok (table ++ [⟨foo,foo.data.length⟩])
  | some old =>
    if old.room < foo.data.length then .error .outOfBounds
    else .ok (table.map fun r => if r.foo.id = foo.id then ⟨foo,r.room⟩ else r)

/-- How many records stand up to the element a page begins behind. -/
def first (offset : Int) : Nat := if offset < 0 then 0 else offset.toNat + 1

/-- A page begins behind the record at its offset, or at the first one when that is negative; where
the records end before it does, or their paths have no room, there is no answer. -/
def list (table : Table) (page page_size : Int32) : Except Fault (List FooFields) :=
  let offset := page.toInt * page_size.toInt
  if offset < -2 ^ 31 ∨ 2 ^ 31 ≤ offset then .error .overflow
  else if table.length ≤ offset then .ok []
  else if 2 ^ 31 ≤ table.length - offset then .error .overflow
  else
    let length := (UInt32.ofInt (min (table.length - offset) page_size.toInt)).toNat
    let foos := ((table.drop (first offset)).take length).map Record.foo
    if table.length < first offset + length ∨ length * 1024 < (foos.map fun s => s.data.length).sum then .error .outOfBounds
    else .ok foos

theorem find_none_iff (table : Table) (id : Int32) : find table id = none ↔ id ∉ ids table := by
  simp [find,ids]

theorem ids_replace (table : Table) (foo : FooFields) :
    ids (table.map fun r => if r.foo.id = foo.id then ⟨foo,r.room⟩ else r) = ids table := by
  rw [ids,ids,List.map_map]
  refine List.map_congr_left fun r _ => ?_
  by_cases same : r.foo.id = foo.id <;> simp [same]

theorem put_ids {table table' : Table} (done : put table foo = .ok table') :
    (∀ id, id ∈ ids table' ↔ id ∈ ids table ∨ id = foo.id) ∧ table'.length ≤ table.length + 1 := by
  rw [put] at done
  cases known : find table foo.id with
  | none =>
    simp only [known] at done
    split at done
    · cases done
    · cases done
      simp [ids]
  | some old =>
    have listed : foo.id ∈ ids table := by
      by_contra absent
      simp [(find_none_iff table foo.id).mpr absent] at known
    simp only [known] at done
    split at done
    · cases done
    · cases done
      rw [ids_replace]
      exact ⟨fun id => ⟨.inl,fun either => either.elim (fun old => old) fun new => new ▸ listed⟩,by simp⟩

end Table

/-- What a block holds: a record with its path, and the room for paths. -/
def record (fields : FooFields) : Record :=
  ⟨{ fields with data := fields.data.take fields.path_length.toNat },fields.data.length⟩

def recordAt (dao : FooDao) (s : UInt64) : Option Record := (dao.blocks s).map record

/-- The blocks at these addresses hold the records of the table, and the map finds them. -/
structure Stores (dao : FooDao) (addresses : List UInt64) (table : Table) : Prop where
  records : addresses.map (recordAt dao) = table.map some
  unlisted : ∀ s ∉ addresses, dao.blocks s = none
  distinct : table.ids.Nodup
  whole : ∀ r ∈ table, Whole r.foo
  fits : ∀ r ∈ table, r.foo.data.length ≤ r.room
  map : MapHashLinked.Represents (mapParam dao.blocks) dao.map addresses
  size : dao.list_size = table.length
  small : table.length < 2 ^ 31
  apart : (dao.list :: addresses).Nodup
  tail : dao.heap.prev dao.list ≠ none

theorem mapParam_lawful (blocks : UInt64 → Option FooFields) : Lawful (mapParam blocks) := by
  intro a b
  change a - b = 0 ↔ a = b
  constructor
  · intro zero
    have back : a - b + b = a := by simp
    simpa [zero] using back.symm
  · rintro rfl
    simp

theorem rekey {blocks blocks' : UInt64 → Option FooFields} {map : MapHashLinked UInt64}
    (stored : MapHashLinked.Represents (mapParam blocks) map values)
    (keys : ∀ s ∈ values, (mapParam blocks').key s = (mapParam blocks).key s) :
    MapHashLinked.Represents (mapParam blocks') map values := by
  refine ⟨stored.room,stored.slots.trans ?_,stored.size⟩
  refine List.map_congr_left fun i _ => List.filter_congr fun s member => ?_
  rw [slot,slot,keys s member]
  rfl

theorem recordAt_some (held : dao.blocks s = some fields) : recordAt dao s = some (record fields) := by
  rw [recordAt,held,Option.map_some]

/-- A copy that finds room over the block at `s`, whose links and fields become those of the record. -/
theorem copyFoo_whole (dao : FooDao) (s : UInt64) {room : List UInt8} {foo : Foo} (whole : Whole foo.toFooFields)
    (fits : foo.data.length ≤ room.length) : ∃ heap fields,
      copyFoo dao s room foo = .ok { dao with heap, blocks := Function.update dao.blocks s (some fields) } ∧
      (∀ a ≠ s, Agree dao.heap heap a) ∧ record fields = ⟨foo.toFooFields,room.length⟩ ∧ fields.id = foo.id := by
  refine ⟨(dao.heap.setNext s (pointer foo.element.next)).setPrev s (pointer foo.element.prev),
    { foo.toFooFields with data := foo.data ++ room.drop foo.data.length },?_,fun a other => ?_,?_,rfl⟩
  · rw [copyFoo,readFirst_all whole.path.symm]
    exact if_neg (Nat.not_lt.mpr fits)
  · exact ⟨Function.update_of_ne other ..,Function.update_of_ne other ..⟩
  · have counted : foo.data.length + (room.length - foo.data.length) = room.length := by omega
    simp [record,List.take_left' whole.path,counted]

theorem copyFoo_short (dao : FooDao) (s : UInt64) {room : List UInt8} {foo : Foo} (whole : Whole foo.toFooFields)
    (short : room.length < foo.data.length) : copyFoo dao s room foo = .error .outOfBounds := by
  rw [copyFoo,readFirst_all whole.path.symm]
  exact if_pos short

theorem putFoo_known {dao : FooDao} {foo : Foo} (looked : getFoo dao foo.id = .ok (some s))
    (held : dao.blocks s = some fields) : putFoo dao block foo = copyFoo dao s fields.data foo := by
  simp only [putFoo,looked,held,bind,Except.bind]

namespace Stores

variable {dao : FooDao} {addresses : List UInt64} {table : Table}

theorem length (stores : Stores dao addresses table) : addresses.length = table.length := by
  simpa using congrArg List.length stores.records

theorem held (stores : Stores dao addresses table) (member : s ∈ addresses) :
    ∃ fields, dao.blocks s = some fields ∧ record fields ∈ table := by
  have inside : recordAt dao s ∈ table.map some := stores.records ▸ List.mem_map_of_mem member
  obtain ⟨r,listed,same⟩ := List.mem_map.mp inside
  obtain ⟨fields,held,rfl⟩ := Option.map_eq_some_iff.mp same.symm
  exact ⟨fields,held,listed⟩

theorem key (stores : Stores dao addresses table) (member : s ∈ addresses) :
    some ((mapParam dao.blocks).key s) = (recordAt dao s).map fun r => r.foo.id := by
  obtain ⟨fields,held,_⟩ := stores.held member
  simp [mapParam,recordAt,held,record]

/-- The ids behind the addresses are those of the table. -/
theorem keys (stores : Stores dao addresses table) :
    addresses.map (mapParam dao.blocks).key = table.ids := by
  have both := congrArg (List.map (Option.map fun r : Record => r.foo.id)) stores.records
  rw [List.map_map,List.map_map] at both
  have named : addresses.map (fun s => some ((mapParam dao.blocks).key s)) = table.map fun r => some r.foo.id := by
    rw [List.map_congr_left fun s member => stores.key member]
    exact both
  have same := congrArg (List.map fun id => id.getD 0) named
  simpa only [List.map_map,Function.comp_def,Option.getD_some,Table.ids] using same

theorem same_key (stores : Stores dao addresses table) (first : s ∈ addresses) (second : t ∈ addresses)
    (same : (mapParam dao.blocks).key s = (mapParam dao.blocks).key t) : s = t :=
  List.inj_on_of_nodup_map (stores.keys ▸ stores.distinct) first second same

/-- Ids that are not far from those there are can be compared with them. -/
theorem compared (stores : Stores dao addresses table) {id : Int32} (near : ∀ key ∈ table.ids, overflows key id = false) :
    fooCompared dao id = .ok () := by
  have each : ∀ s ∈ addresses, overflows ((mapParam dao.blocks).key s) id = false := fun s member =>
    near _ (stores.keys ▸ List.mem_map_of_mem member)
  simp only [fooCompared,stores.map.read_slot id,bind,Except.bind]
  refine if_neg ?_
  rw [List.any_eq_true]
  rintro ⟨s,member,far⟩
  have inside := List.mem_of_mem_filter ((List.takeWhile_sublist _).subset member)
  exact Bool.false_ne_true ((each s inside).symm.trans far)

/-- An id that can be compared is in neither, or at one address in both. -/
theorem find_cases (stores : Stores dao addresses table) {id : Int32} (compared : fooCompared dao id = .ok ()) :
    (table.find id = none ∧ getFoo dao id = .ok none ∧ ∀ s ∈ addresses, (mapParam dao.blocks).key s ≠ id) ∨
      ∃ s fields, s ∈ addresses ∧ dao.blocks s = some fields ∧ fields.id = id ∧ record fields ∈ table ∧
        table.find id = some (record fields) ∧ getFoo dao id = .ok (some s) := by
  have looked : getFoo dao id = .ok (addresses.find? (found (mapParam dao.blocks) id)) := by
    rw [getFoo,compared]
    exact stores.map.get_eq (mapParam_lawful dao.blocks) id
  have matching : ∀ s, found (mapParam dao.blocks) id s = true ↔ (mapParam dao.blocks).key s = id := fun s =>
    beq_iff_eq.trans (mapParam_lawful dao.blocks _ _)
  have distinct := stores.distinct
  cases there : addresses.find? (found (mapParam dao.blocks) id) with
  | none =>
    left
    rw [there] at looked
    have absent : ∀ s ∈ addresses, (mapParam dao.blocks).key s ≠ id := fun s member same =>
      List.find?_eq_none.mp there s member ((matching s).mpr same)
    refine ⟨List.find?_eq_none.mpr fun r member => ?_,looked,absent⟩
    have named : r.foo.id ∈ addresses.map (mapParam dao.blocks).key := by
      rw [stores.keys]
      exact List.mem_map_of_mem (f := fun r : Record => r.foo.id) member
    obtain ⟨s,inside,same⟩ := List.mem_map.mp named
    simpa [same] using absent s inside
  | some s =>
    right
    rw [there] at looked
    have member := List.mem_of_find?_eq_some there
    obtain ⟨fields,held,listed⟩ := stores.held member
    have named : fields.id = id := by
      have same := (matching s).mp (List.find?_some there)
      simpa [mapParam,held] using same
    refine ⟨s,fields,member,held,named,listed,?_,looked⟩
    cases first : table.find id with
    | none => exact absurd named (by simpa [record] using List.find?_eq_none.mp first (record fields) listed)
    | some r =>
      have inside := List.mem_of_find?_eq_some first
      have same : r.foo.id = (record fields).foo.id := by
        have matched := List.find?_some first
        exact (beq_iff_eq.mp matched).trans named.symm
      rw [List.inj_on_of_nodup_map distinct inside listed same]

/-- A new record gets a block of its own, behind the others in the list, while the count is an `int`. -/
theorem put_new (stores : Stores dao addresses table) {foo : Foo} (whole : Whole foo.toFooFields)
    (compared : fooCompared dao foo.id = .ok ()) (absent : table.find foo.id = none) (fresh : block ∉ dao.list :: addresses) :
    ∃ dao', putFoo dao block foo = (if table.length + 1 = 2 ^ 31 then .error .overflow else .ok dao') ∧
      (table.length + 1 ≠ 2 ^ 31 →
        Stores dao' (addresses ++ [block]) (table ++ [⟨foo.toFooFields,foo.data.length⟩])) ∧ dao'.list = dao.list ∧
      ∃ heap, (∀ a ≠ block, Agree dao.heap heap a) ∧ listAddTail heap block dao.list = some dao'.heap := by
  obtain ⟨-,looked,others⟩ := (stores.find_cases compared).resolve_right (by
    rintro ⟨_,_,_,_,_,_,found,_⟩
    exact Option.some_ne_none _ (found.symm.trans absent))
  rw [List.mem_cons,not_or] at fresh
  obtain ⟨notList,unused⟩ := fresh
  have long : (List.replicate foo.path_length.toNat (0 : UInt8)).length = foo.data.length := by
    rw [List.length_replicate,whole.path]
  obtain ⟨heap,fields,copied,agree,held,named⟩ := copyFoo_whole dao block whole (Nat.le_of_eq long.symm)
  rw [long] at held
  let blocks := Function.update dao.blocks block (some fields)
  have kept : ∀ s ∈ addresses, blocks s = dao.blocks s := fun s member =>
    Function.update_of_ne (ne_of_mem_of_not_mem member unused) ..
  have keys : ∀ s ∈ addresses, (mapParam blocks).key s = (mapParam dao.blocks).key s := fun s member => by
    simp only [mapParam,kept s member]
  have own : (mapParam blocks).key block = foo.id := by simp [mapParam,blocks,named]
  obtain ⟨map,put,listed⟩ := (rekey stores.map keys).put_fresh foo.id block (mapParam_lawful blocks) own
    fun s member => keys s member ▸ others s member
  obtain ⟨last,tail⟩ := Option.ne_none_iff_exists'.mp stores.tail
  have prev : heap.prev dao.list = some last := (agree dao.list (Ne.symm notList)).2.trans tail
  have added : listAddTail heap block dao.list = some (__listAdd heap block last dao.list) := by
    rw [listAddTail,prev]
    rfl
  refine ⟨⟨__listAdd heap block last dao.list,blocks,map,dao.list,dao.list_size + 1⟩,?_,?_,rfl,heap,agree,added⟩
  · rw [putFoo,looked]
    change (copyFoo dao block _ foo >>= _) = _
    rw [copied]
    change (MapHashLinked.put (mapParam blocks) dao.map foo.id block >>= _) = _
    rw [put]
    simp only [bind,Except.bind,added]
    rw [← stores.size]
  · intro room
    have small := stores.small
    constructor
    · have before : addresses.map (fun s => (blocks s).map record) = table.map some := by
        rw [← stores.records]
        exact List.map_congr_left fun s member => by rw [kept s member,recordAt]
      have new : (blocks block).map record = some ⟨foo.toFooFields,foo.data.length⟩ := by
        simp [blocks,held]
      rw [List.map_append,List.map_append]
      exact congrArg₂ (· ++ ·) before (congrArg (fun r => [r]) new)
    · intro s absent
      simp only [List.mem_append,List.mem_singleton,not_or] at absent
      exact (Function.update_of_ne absent.2 ..).trans (stores.unlisted s absent.1)
    · rw [Table.ids,List.map_append,List.nodup_append]
      refine ⟨stores.distinct,List.nodup_singleton _,fun a member b other => ?_⟩
      change a ∈ table.ids at member
      rw [← stores.keys] at member
      obtain ⟨s,inside,rfl⟩ := List.mem_map.mp member
      simp only [List.map_cons,List.map_nil,List.mem_singleton] at other
      exact other ▸ others s inside
    · simpa [or_imp,forall_and,whole] using stores.whole
    · simpa [or_imp,forall_and] using stores.fits
    · exact listed
    · simp [stores.size]
    · rw [List.length_append,List.length_singleton]
      omega
    · rw [← List.cons_append]
      refine stores.apart.append (List.nodup_singleton block) ?_
      simpa [List.disjoint_singleton] using ⟨notList,unused⟩
    · have other : dao.list ≠ block := Ne.symm notList
      simp [__listAdd,Links.setNext,Links.setPrev,other]

/-- A known record is copied over, its links with it. -/
theorem put_known (stores : Stores dao addresses table) {foo : Foo} (whole : Whole foo.toFooFields)
    (compared : fooCompared dao foo.id = .ok ()) (known : table.find foo.id = some old) (fits : foo.data.length ≤ old.room) (block : UInt64) :
    ∃ dao', putFoo dao block foo = .ok dao' ∧ dao'.list = dao.list ∧
      Stores dao' addresses (table.map fun r => if r.foo.id = foo.id then ⟨foo.toFooFields,r.room⟩ else r) := by
  obtain ⟨s,fields,member,held,named,listed,found,looked⟩ := (stores.find_cases compared).resolve_left fun absent =>
    Option.some_ne_none _ (known.symm.trans absent.1)
  obtain rfl : record fields = old := Option.some.inj (found.symm.trans known)
  obtain ⟨heap,fields',copied,agree,held',named'⟩ := copyFoo_whole dao s whole fits
  let blocks := Function.update dao.blocks s (some fields')
  have keys : ∀ t, (mapParam blocks).key t = (mapParam dao.blocks).key t := by
    intro t
    by_cases same : t = s
    · subst same
      simp [mapParam,blocks,held,named,named']
    · simp only [mapParam,blocks,Function.update_of_ne same]
  refine ⟨{ dao with heap, blocks },?_,rfl,?_⟩
  · rw [putFoo_known looked held]
    exact copied
  · have replaced : ∀ t ∈ addresses, (blocks t).map record = (recordAt dao t).map fun r =>
        if r.foo.id = foo.id then ⟨foo.toFooFields,r.room⟩ else r := by
      intro t inside
      by_cases same : t = s
      · subst same
        have new : blocks t = some fields' := Function.update_self ..
        have same : (record fields).foo.id = foo.id := named
        rw [new,recordAt_some held,Option.map_some,Option.map_some,held',if_pos same]
        rfl
      · obtain ⟨other,there,_⟩ := stores.held inside
        have apart : other.id ≠ foo.id := fun equal => same (stores.same_key inside member (by
          simp [mapParam,there,held,equal,named]))
        simp [blocks,recordAt,Function.update_of_ne same,there,record,apart]
    constructor
    · change addresses.map (fun t => (blocks t).map record) = _
      rw [List.map_congr_left replaced,List.map_map]
      have both := congrArg (List.map (Option.map fun r : Record =>
        if r.foo.id = foo.id then (⟨foo.toFooFields,r.room⟩ : Record) else r)) stores.records
      rwa [List.map_map,List.map_map] at both
    · intro t absent
      exact (Function.update_of_ne (ne_of_mem_of_not_mem member absent).symm ..).trans (stores.unlisted t absent)
    · rw [Table.ids_replace]
      exact stores.distinct
    · intro r inside
      obtain ⟨r,older,rfl⟩ := List.mem_map.mp inside
      split
      · exact whole
      · exact stores.whole r older
    · intro r inside
      obtain ⟨r,older,rfl⟩ := List.mem_map.mp inside
      split
      · rename_i same
        have one : r = record fields := List.inj_on_of_nodup_map stores.distinct older listed (same.trans named.symm)
        exact one ▸ fits
      · exact stores.fits r older
    · exact rekey stores.map fun t _ => keys t
    · simpa using stores.size
    · simpa using stores.small
    · exact stores.apart
    · have other : dao.list ≠ s := fun same => (List.nodup_cons.mp stores.apart).1 (same ▸ member)
      change heap.prev dao.list ≠ none
      rw [(agree dao.list other).2]
      exact stores.tail

end Stores

theorem ring_add {links heap heap' : Links UInt64} {list block : UInt64} {addresses : List UInt64}
    (ring : Ring links list addresses) (apart : (list :: addresses).Nodup) (fresh : block ∉ list :: addresses)
    (agree : ∀ a ≠ block, Agree links heap a) (added : listAddTail heap block list = some heap') :
    Ring heap' list (addresses ++ [block]) := by
  let family : Family UInt64 := Function.update (fun _ => none) list (some addresses)
  have here : family list = some addresses := Function.update_self ..
  have only : ∀ h, ∀ xs ∈ family h, h = list ∧ xs = addresses := by
    intro h xs inside
    by_cases same : h = list
    · subst same
      exact ⟨rfl,Option.some.inj (inside.symm.trans here)⟩
    · simp [family,Function.update_of_ne same] at inside
  have represents : Rings.Represents heap family := by
    constructor
    · intro h xs inside
      obtain ⟨rfl,rfl⟩ := only h xs inside
      exact ring.agree fun a member => agree a (ne_of_mem_of_not_mem member fresh)
    · intro h xs inside
      obtain ⟨rfl,rfl⟩ := only h xs inside
      exact apart
    · intro h k distinct xs first ys second
      exact absurd ((only h xs first).1.trans (only k ys second).1.symm) distinct
  have unused : Fresh family block := by
    intro h xs inside
    obtain ⟨rfl,rfl⟩ := only h xs inside
    exact fresh
  obtain ⟨heap'',done,changes⟩ := listAddTail_changes represents unused here
  obtain rfl := Option.some.inj (added.symm.trans done)
  apply changes.represents.ring
  simp [change,here]

end Muti.FooDao
