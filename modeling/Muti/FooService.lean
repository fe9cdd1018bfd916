import Muti.FooPages

/-! The example service answers its clients as the table does, over every run of calls: a get
with the record last put under its id, a list with its page in the order in which the ids
arrived. When it is over, every block is freed once. -/
namespace Muti.FooDao

open Muti.Memory Muti.Rings Muti.Resource Muti.Foo

namespace Table

/-- What a client learns of the table; the path of a record it puts comes to lie behind the struct. -/
def answer (table : Table) (call : Call) : Except Fault (Answer × Table) :=
  match call.request with
  | .get req => .ok (match find table req.id with
    | none => .failed 1
    | some r => .get r.foo,table)
  | .put req => (put table { req.foo.toFooFields with path := call.address + 120 }).map fun table => (.put,table)
  | .list req => (list table req.page req.page_size).map fun foos => (.list foos,table)

def run (table : Table) : List Call → List Answer × Except Fault Table
  | [] => ([],.ok table)
  | call :: calls => match answer table call with
    | .error fault => ([],.error fault)
    | .ok (reply,table) => (reply :: (run table calls).1,(run table calls).2)

end Table

theorem take_frames (frames : Frames decode bytes a) : take decode bytes = .ok a := by
  have whole := frames.whole []
  rw [List.append_nil] at whole
  rw [take,whole]
  exact if_pos (Bytes.toNat_ofNat_small frames.fits)

theorem fieldsAt_image (front : List UInt8) (count : front.length = 8) (whole : Whole s.toFooFields) :
    fieldsAt 8 (front ++ image s) = s.toFooFields := by
  have read := fooAt_image front whole []
  rw [List.append_nil,count] at read
  exact congrArg Foo.toFooFields read

theorem fooGetRequestAt_image (req : FooGetRequest) :
    fooGetRequestAt (requestImage req.super ++ Bytes.image32 req.id.toUInt32) = req := by
  have id : Bytes.field32 ((requestImage req.super).length + 0) (requestImage req.super ++ Bytes.image32 req.id.toUInt32) =
      req.id.toUInt32 := word32 (requestImage req.super) [] (List.append_nil _).symm rfl
  rw [requestImage_length] at id
  rw [fooGetRequestAt,requestAt_image,id,Int32.toInt32_toUInt32]

theorem fooPutRequestAt_image (req : FooPutRequest) (whole : Whole req.foo.toFooFields) (address : UInt64) :
    fooPutRequestAt address (requestImage req.super ++ image req.foo) = ⟨req.super,{ req.foo with path := address + 120 }⟩ := by
  have read := fooAt_image (requestImage req.super) whole []
  rw [requestImage_length,List.append_nil] at read
  rw [fooPutRequestAt,requestAt_image,read]

theorem fooListRequestAt_image (req : FooListRequest) : fooListRequestAt (requestImage req.super ++
    (Bytes.image32 req.page.toUInt32 ++ Bytes.image32 req.page_size.toUInt32)) = req := by
  let written := Bytes.image32 req.page.toUInt32 ++ Bytes.image32 req.page_size.toUInt32
  have page : Bytes.field32 ((requestImage req.super).length + 0) (requestImage req.super ++ written) = req.page.toUInt32 :=
    word32 (requestImage req.super) [] rfl rfl
  have page_size : Bytes.field32 ((requestImage req.super).length + 4) (requestImage req.super ++ written) =
      req.page_size.toUInt32 :=
    word32 (requestImage req.super) (Bytes.image32 req.page.toUInt32) (congrArg _ (List.append_nil _).symm) rfl
  rw [requestImage_length] at page page_size
  rw [fooListRequestAt,requestAt_image,page,page_size,Int32.toInt32_toUInt32,Int32.toInt32_toUInt32]

theorem get_reply (dao : FooDao) (resp : FooGetResponse) (success : resp.super.error_id = 0)
    (whole : Whole resp.foo.toFooFields) :
    ∃ bytes, encodeResponse FooResponse.super (fooResponseEncoder dao) (.get resp) = .ok bytes ∧
      take (decodeResponse fooResponseDecoderGet) bytes = .ok (.inPlace bytes) ∧
      replied bytes (.get (fieldsAt 8 bytes)) = .get resp.foo.toFooFields := by
  have frames := frames_foo Reply.inPlace (responseImage resp.super) (responseImage_length _) whole
  refine ⟨responseImage resp.super ++ image resp.foo,?_,take_frames (Agreement.frames_success frames success),?_⟩
  · rw [encodeResponse,FooResponse.super,if_pos success,fooResponseEncoder,fooResponseEncoderGet,fooImage_whole whole]
    rfl
  · rw [replied,responseAt_image,if_pos success,fieldsAt_image _ (responseImage_length _) whole]

theorem failed_reply (dao : FooDao) (decoder : Decoder Reply) (super : Response) (failed : super.error_id ≠ 0) :
    ∃ bytes, encodeResponse FooResponse.super (fooResponseEncoder dao) (.failed super) = .ok bytes ∧
      take (decodeResponse decoder) bytes = .ok (.inPlace bytes) ∧ ∀ answer, replied bytes answer = .failed super.error_id := by
  refine ⟨responseImage super,?_,take_frames (Agreement.frames_failure decoder failed),fun answer => ?_⟩
  · rw [encodeResponse,FooResponse.super,if_neg failed,errorResponseEncoder]
  · have header := responseAt_image super []
    rw [List.append_nil] at header
    rw [replied,header,if_neg failed]

theorem put_reply (dao : FooDao) (resp : FooPutResponse) (success : resp.super.error_id = 0) :
    ∃ bytes, encodeResponse FooResponse.super (fooResponseEncoder dao) (.put resp) = .ok bytes ∧
      take (decodeResponse fooResponseDecoderPut) bytes = .ok (.inPlace bytes) ∧ ∀ answer, replied bytes answer = answer := by
  refine ⟨responseImage resp.super,?_,take_frames (Agreement.frames_plain resp.super success),fun answer => ?_⟩
  · rw [encodeResponse,FooResponse.super,if_pos success]
    rfl
  · have header := responseAt_image resp.super []
    rw [List.append_nil] at header
    rw [replied,header,if_pos success]

section Exchange

variable {dao : FooDao} {addresses : List UInt64} {table : Table}

theorem get_exchange (stores : Stores dao addresses table) (fuel : Nat) (req : FooGetRequest)
    (compared : fooCompared dao req.id = .ok ()) (address block : UInt64) :
    exchange fuel dao ⟨.get req,address,block⟩ = .ok (match table.find req.id with
      | none => .failed 1
      | some r => .get r.foo,dao) := by
  have received : take fooRequestDecoderGet (requestImage req.super ++ Bytes.image32 req.id.toUInt32) = .ok ⟨_,none⟩ :=
    take_frames (frames_fixed (receive none) (by simp))
  simp only [exchange,fooRequestEncoderGet,Except.mapError,bind,Except.bind,received,fooGetRequestAt_image]
  rcases stores.find_cases compared with ⟨absent,looked,-⟩ | ⟨s,fields,-,held,-,listed,found,looked⟩
  · have failed : (1 : Int32) ≠ 0 := by decide
    obtain ⟨bytes,encoded,taken,answered⟩ := failed_reply dao fooResponseDecoderGet ⟨1,req.super.sequence⟩ failed
    simp only [fooActionGet,looked,bind,Except.bind,encoded,taken,absent,answered]
  · have whole := stores.whole _ listed
    let foo : Foo := { (record fields).foo with element := ⟨(dao.heap.next s).getD 0,(dao.heap.prev s).getD 0⟩ }
    obtain ⟨bytes,encoded,taken,answered⟩ := get_reply dao ⟨⟨0,req.super.sequence⟩,foo⟩ rfl whole
    have acted : fooActionGet dao req = .ok (.get ⟨⟨0,req.super.sequence⟩,foo⟩) := by
      simp only [fooActionGet,looked,bind,Except.bind,readFoo_held held whole]
      rfl
    simp only [acted,encoded,taken,found,answered]
    rfl

theorem put_exchange (dao : FooDao) (fuel : Nat) (req : FooPutRequest) (whole : Whole req.foo.toFooFields)
    (address block : UInt64) :
    exchange fuel dao ⟨.put req,address,block⟩ =
      match putFoo dao block { req.foo with path := address + 120 } with
      | .error fault => .error (.fault fault)
      | .ok dao' => .ok (.put,dao') := by
  have received : take fooRequestDecoderPut (requestImage req.super ++ image req.foo) = .ok ⟨_,some 120⟩ :=
    take_frames (frames_foo (receive (some 120)) (requestImage req.super) (by simp) whole)
  simp only [exchange,fooRequestEncoderPut,fooImage_whole whole,Except.mapError,bind,Except.bind,received,
    fooPutRequestAt_image req whole address,fooActionPut]
  cases putFoo dao block { req.foo with path := address + 120 } with
  | error fault => rfl
  | ok dao' =>
    obtain ⟨bytes,encoded,taken,answered⟩ := put_reply dao' ⟨⟨0,req.super.sequence⟩⟩ rfl
    simp only [encoded,taken,answered]

theorem list_exchange (stores : Stores dao addresses table) (ring : Ring dao.heap dao.list addresses)
    (enough : table.length < fuel) (req : FooListRequest) (address block : UInt64) :
    exchange fuel dao ⟨.list req,address,block⟩ =
      match table.list req.page req.page_size with
      | .error fault => .error (.fault fault)
      | .ok foos => .ok (.list foos,dao) := by
  have received : take fooRequestDecoderList (requestImage req.super ++
      (Bytes.image32 req.page.toUInt32 ++ Bytes.image32 req.page_size.toUInt32)) = .ok ⟨_,none⟩ :=
    take_frames (frames_fixed (receive none) (by simp))
  have listed := listed_page stores ring enough req.page req.page_size ⟨0,req.super.sequence⟩
  simp only [exchange,fooRequestEncoderList,Except.mapError,bind,Except.bind,received,fooListRequestAt_image,fooActionList]
  cases answered : table.list req.page req.page_size with
  | error fault =>
    rw [answered] at listed
    rcases listed with failed | ⟨length,head,found,failed⟩
    · simp only [failed]
    · simp only [found,Option.map_some,encodeResponse,FooResponse.super,fooResponseEncoder,failed]
      rfl
  | ok fields =>
    rw [answered] at listed
    obtain ⟨length,head,foos,found,encoded,count,fewer,room,whole,rfl⟩ := listed
    have small := stores.small
    have size : (listImage ⟨0,req.super.sequence⟩ (UInt32.ofInt length) foos).length < 2 ^ 64 := by
      rw [listImage_length,sum_headers]
      omega
    have taken := take_frames (frames_list ⟨0,req.super.sequence⟩ rfl count (by omega) whole size)
    simp only [found,Option.map_some,encodeResponse,FooResponse.super,fooResponseEncoder,encoded,↓reduceIte,taken]

end Exchange

/-- A put does to the records what it does to the table, and keeps the list when the id is new. -/
theorem put_follows (stores : Stores dao addresses table) (foo : Foo) (whole : Whole foo.toFooFields)
    (compared : fooCompared dao foo.id = .ok ()) (fresh : block ∉ dao.list :: addresses) :
    match table.put foo.toFooFields with
    | .error fault => putFoo dao block foo = .error fault
    | .ok table' => ∃ dao' addresses', putFoo dao block foo = .ok dao' ∧ Stores dao' addresses' table' ∧
        dao'.list = dao.list ∧ addresses' ⊆ addresses ++ [block] ∧
        (table.find foo.id = none → Ring dao.heap dao.list addresses → Ring dao'.heap dao'.list addresses') := by
  cases known : table.find foo.id with
  | none =>
    obtain ⟨dao',done,listed,same,heap,agree,added⟩ := stores.put_new whole compared known fresh
    rw [Table.put,known]
    by_cases full : table.length + 1 = 2 ^ 31
    · simpa only [full,↓reduceIte] using done
    · rw [if_neg full] at done
      simp only [full,↓reduceIte]
      refine ⟨dao',addresses ++ [block],done,listed full,same,fun s member => member,fun _ ring => ?_⟩
      rw [same]
      exact ring_add ring stores.apart fresh agree added
  | some old =>
    rw [Table.put,known]
    by_cases short : old.room < foo.data.length
    · simp only [short,↓reduceIte]
      obtain ⟨s,fields,_,held,_,_,found,looked⟩ := (stores.find_cases compared).resolve_left fun absent =>
        Option.some_ne_none _ (known.symm.trans absent.1)
      obtain rfl : record fields = old := Option.some.inj (found.symm.trans known)
      rw [putFoo_known looked held]
      exact copyFoo_short dao s whole short
    · simp only [short,↓reduceIte]
      obtain ⟨dao',done,same,listed⟩ := stores.put_known whole compared known (Nat.le_of_not_lt short) block
      exact ⟨dao',addresses,done,listed,same,List.subset_append_left ..,fun absent => absurd absent (Option.some_ne_none old)⟩

def Sent (call : Call) : Prop := ∀ req, call.request = .put req → Whole req.foo.toFooFields

def ids (calls : List Call) : List Int32 := calls.filterMap fun call => match call.request with
  | .put req => some req.foo.id
  | _ => none

/-- Whenever a list is asked for, no id has been put twice. -/
def Unbroken (calls : List Call) : Prop :=
  ∀ past call later, calls = past ++ call :: later → ∀ req, call.request = .list req → (ids past).Nodup

theorem unbroken_of_nodup (distinct : (ids calls).Nodup) : Unbroken calls := by
  rintro past call later rfl _ _
  have split : ids (past ++ call :: later) = ids past ++ ids (call :: later) := by simp [ids]
  rw [split] at distinct
  exact distinct.of_append_left

def about (call : Call) : Option Int32 := match call.request with
  | .get req => some req.id
  | .put req => some req.foo.id
  | .list _ => none

/-- No id is too far from one that is put for their difference to be an `int`. -/
def Near (calls : List Call) : Prop := ∀ key ∈ ids calls, ∀ id ∈ calls.filterMap about, overflows key id = false

/-- What holds behind these calls, whatever has become of the list. -/
structure Holds (head : UInt64) (past : List Call) (dao : FooDao) (addresses : List UInt64) (table : Table) : Prop where
  stores : Stores dao addresses table
  at_head : dao.list = head
  given : addresses ⊆ past.map Call.block

/-- What holds as long as the list can be walked. -/
structure Serves (head : UInt64) (past : List Call) (dao : FooDao) (addresses : List UInt64) (table : Table) : Prop
    extends Holds head past dao addresses table where
  known : ∀ id, id ∈ table.ids ↔ id ∈ ids past
  counted : table.length ≤ past.length
  ring : (ids past).Nodup → Ring dao.heap dao.list addresses

theorem ids_append (past : List Call) (call : Call) : ids (past ++ [call]) = ids past ++ ids [call] := by
  simp [ids]

theorem Holds.more (holds : Holds head past dao addresses table) (call : Call) :
    Holds head (past ++ [call]) dao addresses table := by
  refine ⟨holds.stores,holds.at_head,?_⟩
  rw [List.map_append]
  exact fun s member => List.mem_append_left _ (holds.given member)

/-- The block a put would fill is none of those there are. -/
theorem Holds.fresh (holds : Holds head past dao addresses table)
    (distinct : (head :: (past ++ [call]).map Call.block).Nodup) : call.block ∉ dao.list :: addresses := by
  rw [List.map_append,← List.cons_append,List.nodup_append] at distinct
  intro member
  have used : call.block ∈ head :: past.map Call.block := by
    rw [← holds.at_head]
    exact List.cons_subset_cons _ holds.given member
  exact distinct.2.2 _ used _ (by simp) rfl

theorem Holds.put (holds : Holds head past dao addresses table) (same : dao'.list = dao.list)
    (stores : Stores dao' addresses' table') (given : addresses' ⊆ addresses ++ [call.block]) :
    Holds head (past ++ [call]) dao' addresses' table' := by
  refine ⟨stores,same.trans holds.at_head,fun s member => ?_⟩
  rw [List.map_append]
  rcases List.mem_append.mp (given member) with old | new
  · exact List.mem_append_left _ (holds.given old)
  · exact List.mem_append_right _ new

theorem Serves.read (serves : Serves head past dao addresses table) (reads : ids [call] = []) :
    Serves head (past ++ [call]) dao addresses table := by
  have same : ids (past ++ [call]) = ids past := by rw [ids_append,reads,List.append_nil]
  refine ⟨serves.toHolds.more call,?_,?_,?_⟩
  · rw [same]
    exact serves.known
  · rw [List.length_append]
    exact Nat.le_add_right_of_le serves.counted
  · rw [same]
    exact serves.ring

/-- One call is answered from the table. -/
theorem Serves.step (serves : Serves head past dao addresses table) (sent : Sent call)
    (fresh : (head :: (past ++ [call]).map Call.block).Nodup)
    (unbroken : ∀ req, call.request = .list req → (ids past).Nodup)
    (near : ∀ key ∈ ids past, ∀ id ∈ about call, overflows key id = false) (enough : past.length < fuel) :
    match table.answer call with
    | .error fault => exchange fuel dao call = .error (.fault fault)
    | .ok (answer,table') => ∃ dao' addresses', exchange fuel dao call = .ok (answer,dao') ∧
        Serves head (past ++ [call]) dao' addresses' table' := by
  have compared : ∀ id ∈ about call, fooCompared dao id = .ok () := fun id asked =>
    serves.stores.compared fun key listed => near key ((serves.known key).mp listed) id asked
  obtain ⟨request,address,block⟩ := call
  cases request with
  | get req =>
    exact ⟨dao,addresses,get_exchange serves.stores fuel req (compared _ rfl) address block,serves.read rfl⟩
  | list req =>
    have ring := serves.ring (unbroken req rfl)
    have listed := list_exchange serves.stores ring (Nat.lt_of_le_of_lt serves.counted enough) req address block
    cases answered : table.list req.page req.page_size with
    | error fault =>
      rw [answered] at listed
      simpa only [Table.answer,answered,Except.map] using listed
    | ok foos =>
      rw [answered] at listed
      simp only [Table.answer,answered,Except.map]
      exact ⟨dao,addresses,listed,serves.read rfl⟩
  | put req =>
    have whole : Whole { req.foo.toFooFields with path := address + 120 } := ⟨(sent req rfl).path,(sent req rfl).fits⟩
    have put := put_follows serves.stores { req.foo with path := address + 120 } whole (compared _ rfl) (serves.fresh fresh)
    have exchanged := put_exchange dao fuel req (sent req rfl) address block
    cases stored : table.put { req.foo.toFooFields with path := address + 120 } with
    | error fault =>
      rw [stored] at put
      rw [put] at exchanged
      simpa only [Table.answer,stored,Except.map] using exchanged
    | ok table' =>
      rw [stored] at put
      obtain ⟨dao',addresses',done,stores,same,given,ring⟩ := put
      obtain ⟨known,counted⟩ := Table.put_ids stored
      rw [done] at exchanged
      simp only [Table.answer,stored,Except.map]
      refine ⟨dao',addresses',exchanged,serves.toHolds.put same stores given,?_,?_,?_⟩
      · intro id
        rw [known,serves.known,ids_append]
        simp [ids]
      · rw [List.length_append]
        exact Nat.le_trans counted (Nat.add_le_add_right serves.counted 1)
      · intro distinct
        rw [ids_append,List.nodup_append] at distinct
        refine ring ((Table.find_none_iff ..).mpr fun listed => ?_) (serves.ring distinct.1)
        exact distinct.2.2 req.foo.id ((serves.known _).mp listed) req.foo.id (by simp [ids]) rfl

/-- The answers to a run are those of the table, and so is its end. -/
theorem Serves.run (serves : Serves head past dao addresses table) (sent : ∀ call ∈ calls, Sent call)
    (fresh : (head :: (past ++ calls).map Call.block).Nodup) (unbroken : Unbroken (past ++ calls))
    (near : Near (past ++ calls)) (enough : (past ++ calls).length ≤ fuel) :
    (FooDao.run fuel dao calls).1 = (table.run calls).1 ∧
      match (table.run calls).2 with
      | .error fault => (FooDao.run fuel dao calls).2 = .error (.fault fault)
      | .ok table' => ∃ dao' addresses', (FooDao.run fuel dao calls).2 = .ok dao' ∧
          Serves head (past ++ calls) dao' addresses' table' := by
  induction calls generalizing past dao addresses table with
  | nil =>
    rw [List.append_nil]
    exact ⟨rfl,dao,addresses,rfl,serves⟩
  | cons call calls ih =>
    have split : past ++ call :: calls = (past ++ [call]) ++ calls := by simp
    have first : (head :: (past ++ [call]).map Call.block).Nodup := by
      refine fresh.sublist (List.Sublist.cons_cons _ (List.Sublist.map _ ?_))
      rw [split]
      exact List.sublist_append_left ..
    have count : past.length < fuel := by
      rw [List.length_append,List.length_cons] at enough
      omega
    have close : ∀ key ∈ ids past, ∀ id ∈ about call, overflows key id = false := by
      intro key put id asked
      apply near key ?_ id ?_
      · rw [ids,List.filterMap_append]
        exact List.mem_append_left _ put
      · exact List.mem_filterMap.mpr ⟨call,by simp,asked⟩
    have step := serves.step (sent call List.mem_cons_self) first
      (fun req listed => unbroken past call calls rfl req listed) close count
    cases answered : table.answer call with
    | error fault =>
      rw [answered] at step
      simp only [FooDao.run,Table.run,step,answered]
      exact ⟨trivial,trivial⟩
    | ok done =>
      obtain ⟨answer,table'⟩ := done
      rw [answered] at step
      obtain ⟨dao',addresses',exchanged,after⟩ := step
      rw [split] at fresh unbroken near enough ⊢
      obtain ⟨same,ends⟩ := ih after (fun c member => sent c (List.mem_cons_of_mem _ member)) fresh unbroken near enough
      simp only [FooDao.run,Table.run,exchanged,answered]
      exact ⟨congrArg _ same,ends⟩

theorem serves_start (head : UInt64) : ∃ dao, initFooDao head = .ok dao ∧ Serves head [] dao [] [] := by
  obtain ⟨map,made,empty⟩ := MapHashLinked.init_represents (mapParam fun _ => none)
    (by decide : ((1 : UInt64) <<< 20) &&& (((1 : UInt64) <<< 20) - 1) = 0) (by decide) (by decide)
  refine ⟨⟨LinkedList.listHeadInit ⟨fun _ => none,fun _ => none⟩ head,fun _ => none,map,head,0⟩,?_,⟨?_,rfl,List.nil_subset _⟩,?_,?_,?_⟩
  · rw [initFooDao,made]
    rfl
  · constructor
    · rfl
    · exact fun _ _ => rfl
    · exact List.nodup_nil
    · simp
    · simp
    · exact empty
    · rfl
    · simp
    · exact List.nodup_singleton head
    · simp [LinkedList.listHeadInit,Links.setPrev]
  · simp [Table.ids,ids]
  · simp
  · exact fun _ => ring_empty _ head

theorem freeValues_all (blocks : UInt64 → Option FooFields) {values : List UInt64} (nodup : values.Nodup)
    (held : ∀ s, blocks s ≠ none ↔ s ∈ values) :
    freeValues blocks (values.map some) = .ok fun _ => none := by
  induction values generalizing blocks with
  | nil =>
    have empty : blocks = fun _ => none := funext fun s => by simpa using held s
    rw [empty]
    rfl
  | cons s values ih =>
    obtain ⟨fields,here⟩ := Option.ne_none_iff_exists'.mp ((held s).mpr List.mem_cons_self)
    obtain ⟨absent,rest⟩ := List.nodup_cons.mp nodup
    rw [List.map_cons,freeValues,here]
    refine ih _ rest fun t => ?_
    by_cases same : t = s
    · subst same
      simp [absent]
    · simp [held t,same]

/-- Every block is freed once, and none is left. -/
theorem Stores.destroyed (stores : Stores dao addresses table) : destroy dao = .ok fun _ => none := by
  have held : ∀ s, dao.blocks s ≠ none ↔ s ∈ addresses := fun s =>
    ⟨fun held => by_contra fun absent => held (stores.unlisted s absent),fun member => by
      obtain ⟨fields,held,_⟩ := stores.held member
      simp [held]⟩
  by_cases empty : dao.list_size = 0
  · have none : addresses = [] := List.length_eq_zero_iff.mp (stores.length.trans (stores.size.symm.trans empty))
    subst none
    rw [destroy,if_pos empty]
    exact congrArg _ (funext fun s => by simpa using held s)
  · have items := stores.map.items_perm
    have counted : dao.map.size = dao.list_size := stores.map.size.trans (stores.length.trans stores.size.symm)
    have long : dao.map.slots.flatten.length = dao.list_size := items.length_eq.trans (stores.map.size.symm.trans counted)
    have filled := MapHashLinked.clearItems_fits (List.replicate dao.list_size none)
      (by simp [long] : 0 + dao.map.slots.flatten.length ≤ _)
    have freed := freeValues_all dao.blocks (items.nodup_iff.mpr stores.apart.of_cons) fun s => by
      rw [held,items.mem_iff]
    rw [destroy,if_neg empty,Memory.assert,if_pos counted]
    change (MapHashLinked.clear dao.map _ >>= _) = _
    rw [MapHashLinked.clear,MapHashLinked.foldlM_clearItems,filled]
    change freeValues dao.blocks _ = _
    simpa [long] using freed

def Pages (s : Nat) (pages : List Call) : Prop := ∀ (i : Nat) call, pages[i]? = some call →
  ∃ req, call.request = .list req ∧ req.page.toInt = i ∧ req.page_size.toInt = s

def received (call : Call) : Option FooFields := match call.request with
  | .put req => some { req.foo.toFooFields with path := call.address + 120 }
  | _ => none

namespace Table

theorem run_append (table : Table) (calls later : List Call) : run table (calls ++ later) = match (run table calls).2 with
    | .error fault => ((run table calls).1,.error fault)
    | .ok table' => ((run table calls).1 ++ (run table' later).1,(run table' later).2) := by
  induction calls generalizing table with
  | nil => rfl
  | cons call calls ih =>
    rw [List.cons_append,run,run]
    cases answered : answer table call with
    | error fault => rfl
    | ok done =>
      simp only [ih]
      cases (run done.2 calls).2 <;> rfl

/-- Calls that list nothing and put no id twice are answered while their number is an `int`, and the
records are those that were put, in their order. -/
theorem run_puts (distinct : (ids table ++ FooDao.ids calls).Nodup) (few : table.length + calls.length < 2 ^ 31)
    (unlisted : ∀ call ∈ calls, ∀ req, call.request ≠ .list req) :
    ∃ answers table', run table calls = (answers,.ok table') ∧ answers.length = calls.length ∧
      table'.map Record.foo = table.map Record.foo ++ calls.filterMap received := by
  induction calls generalizing table with
  | nil => exact ⟨[],table,rfl,rfl,by simp⟩
  | cons call calls ih =>
    rw [List.length_cons] at few
    have later : ∀ call ∈ calls, ∀ req, call.request ≠ .list req := fun c member => unlisted c (List.mem_cons_of_mem _ member)
    obtain ⟨request,address,block⟩ := call
    cases request with
    | get req =>
      obtain ⟨answers,table',done,count,records⟩ := ih distinct (by omega) later
      simp only [run,answer,done]
      exact ⟨_,table',rfl,congrArg _ count,records⟩
    | list req => exact absurd rfl (unlisted _ List.mem_cons_self req)
    | put req =>
      let foo : FooFields := { req.foo.toFooFields with path := address + 120 }
      have again : ids table ++ FooDao.ids (⟨.put req,address,block⟩ :: calls) = ids (table ++ [⟨foo,foo.data.length⟩]) ++
          FooDao.ids calls := by
        simp [FooDao.ids,ids,foo]
      rw [again] at distinct
      have new : find table req.foo.id = none := (find_none_iff ..).mpr fun listed => by
        have fresh := distinct.of_append_left
        rw [ids,List.map_append,List.nodup_append] at fresh
        exact fresh.2.2 _ listed _ (List.mem_singleton_self _) rfl
      have room : ¬table.length + 1 = 2 ^ 31 := by omega
      obtain ⟨answers,table',done,count,records⟩ := ih distinct
        (by simp only [List.length_append,List.length_singleton]; omega) later
      have first : answer table ⟨.put req,address,block⟩ = .ok (.put,table ++ [⟨foo,foo.data.length⟩]) := by
        simp only [answer,put,new,if_neg room,Except.map,foo]
      simp only [run,first,done]
      exact ⟨_,table',rfl,congrArg _ count,by simpa [received,foo] using records⟩

theorem toNat_ofInt_small {n : Nat} (small : n < 2 ^ 32) : (UInt32.ofInt (n : Int)).toNat = n := by
  simp [UInt32.ofInt]
  omega

/-- A page with a record before it is answered where there are records behind it. -/
theorem list_page {table : Table} {page page_size : Int32} {n s : Nat} (here : page.toInt = n)
    (size : page_size.toInt = s) (inside : n * s < table.length) (small : table.length < 2 ^ 31)
    (short : ∀ r ∈ table, r.foo.data.length ≤ 1024) : list table page page_size =
      if n * s + s < table.length then .ok (((table.map Record.foo).drop (n * s + 1)).take s) else .error .outOfBounds := by
  have product : page.toInt * page_size.toInt = ((n * s : Nat) : Int) := by
    rw [here,size]
    push_cast
    rfl
  have offset : first ((n * s : Nat) : Int) = n * s + 1 := by
    rw [first,if_neg (by omega),Int.toNat_natCast]
  have least : min ((table.length : Int) - (n * s : Nat)) page_size.toInt = (min (table.length - n * s) s : Nat) := by
    rw [size]
    omega
  have paths : ((((table.drop (n * s + 1)).take (min (table.length - n * s) s)).map Record.foo).map fun s => s.data.length).sum ≤
      ((table.drop (n * s + 1)).take (min (table.length - n * s) s)).length * 1024 := by
    rw [List.map_map]
    refine (List.sum_le_card_nsmul _ 1024 fun size member => ?_).trans (by simp)
    obtain ⟨r,listed,rfl⟩ := List.mem_map.mp member
    exact short r (List.mem_of_mem_drop (List.mem_of_mem_take listed))
  rw [List.length_take,List.length_drop] at paths
  rw [list,product,if_neg (by omega),if_neg (by omega),if_neg (by omega),least,offset,toNat_ofInt_small (by omega)]
  by_cases further : n * s + s < table.length
  · have whole : min (table.length - n * s) s = s := by omega
    rw [whole] at paths ⊢
    rw [if_pos further]
    refine (if_neg (by omega)).trans ?_
    rw [List.map_take,List.map_drop]
  · rw [if_neg further]
    exact if_pos (.inl (by omega))

/-- Page after page of one size: the records from the second on, as long as there are more of them. -/
theorem run_pages {table : Table} {s : Nat} (filled : table ≠ []) (small : table.length < 2 ^ 31)
    (short : ∀ r ∈ table, r.foo.data.length ≤ 1024) (pages : List Call) (each : Pages s pages) :
    (pages = [] ∨ pages.length * s < table.length → ∃ foos : List (List FooFields),
      run table pages = (foos.map Answer.list,.ok table) ∧
      foos.flatten = ((table.map Record.foo).drop 1).take (pages.length * s)) ∧
    (¬(pages = [] ∨ pages.length * s < table.length) → (run table pages).2 = .error .outOfBounds) := by
  induction pages using List.reverseRecOn with
  | nil => exact ⟨fun _ => ⟨[],rfl,by simp⟩,fun fails => absurd (.inl rfl) fails⟩
  | append_singleton pages call ih =>
    have length : (pages ++ [call]).length * s = pages.length * s + s := by
      rw [List.length_append,List.length_singleton,Nat.add_mul,Nat.one_mul]
    obtain ⟨answered,fails⟩ := ih fun i c there => each i c (by
      rw [List.getElem?_append_left (List.getElem?_eq_some_iff.mp there).1,there])
    obtain ⟨req,listed,page,size⟩ := each pages.length call (by simp)
    rw [length,run_append]
    by_cases before : pages = [] ∨ pages.length * s < table.length
    · obtain ⟨foos,done,shown⟩ := answered before
      have inside : pages.length * s < table.length := by
        rcases before with rfl | before
        · simpa using List.length_pos_of_ne_nil filled
        · exact before
      have found := list_page page size inside small short
      have next : answer table call = (list table req.page req.page_size).map fun foos => (.list foos,table) := by
        rw [answer,listed]
      simp only [done,run,next,found]
      by_cases further : pages.length * s + s < table.length
      · rw [if_pos further]
        refine ⟨fun _ => ⟨foos ++ [((table.map Record.foo).drop (pages.length * s + 1)).take s],by simp [Except.map],?_⟩,
          fun fails => absurd (.inr further) fails⟩
        rw [List.take_add,List.drop_drop,Nat.add_comm 1]
        simp [shown]
      · rw [if_neg further]
        exact ⟨fun either => absurd either (by simp [further]),fun _ => rfl⟩
    · rw [fails before]
      refine ⟨fun either => absurd (.inr ?_) before,fun _ => rfl⟩
      simp at either
      omega

end Table

/-- Clients are answered from the table over every run: a get with the record last put under its id, a
list with the records behind the one its page begins at, in the order in which the ids arrived. The
run ends in a fault where the table's does. -/
theorem answers_follow_table (head : UInt64) (calls : List Call) (sent : ∀ call ∈ calls, Sent call)
    (fresh : (head :: calls.map Call.block).Nodup) (unbroken : Unbroken calls) (near : Near calls) (enough : calls.length ≤ fuel) :
    ∃ dao, initFooDao head = .ok dao ∧ (run fuel dao calls).1 = (Table.run [] calls).1 ∧
      match (Table.run [] calls).2 with
      | .error fault => (run fuel dao calls).2 = .error (.fault fault)
      | .ok _ => ∃ dao', (run fuel dao calls).2 = .ok dao' := by
  obtain ⟨dao,made,serves⟩ := serves_start head
  obtain ⟨same,ends⟩ := serves.run sent fresh unbroken near enough
  refine ⟨dao,made,same,?_⟩
  cases finished : (Table.run [] calls).2 with
  | error fault =>
    rw [finished] at ends
    exact ends
  | ok table =>
    rw [finished] at ends
    obtain ⟨dao',_,done,_⟩ := ends
    exact ⟨dao',done⟩

def plainFoo (id : Int32) : Foo := ⟨⟨id,Vector.replicate 64 0,0,0,0,0,[]⟩,⟨0,0⟩⟩

def putCall (id : Int32) (address block : UInt64) : Call := ⟨.put ⟨⟨0,1,0⟩,plainFoo id⟩,address,block⟩

def listCall (page page_size : Int32) (block : UInt64) : Call := ⟨.list ⟨⟨0,2,0⟩,page,page_size⟩,0,block⟩

theorem putCall_sent (id : Int32) (address block : UInt64) : Sent (putCall id address block) := by
  rintro _ ⟨⟩
  exact ⟨rfl,by simp [plainFoo]⟩

theorem listCall_sent (page page_size : Int32) (block : UInt64) : Sent (listCall page page_size block) := by
  rintro _ ⟨⟩

/-- Two records, and a page of one. -/
theorem answers_follow_table_two : ∃ dao, initFooDao 8 = .ok dao ∧
    (run 3 dao [putCall 7 1000 16,putCall 9 2000 24,listCall 0 1 32]).1 =
      [.put,.put,.list [{ (plainFoo 9).toFooFields with path := 2120 }]] ∧
    ∃ dao', (run 3 dao [putCall 7 1000 16,putCall 9 2000 24,listCall 0 1 32]).2 = .ok dao' := by
  let calls := [putCall 7 1000 16,putCall 9 2000 24,listCall 0 1 32]
  have sent : ∀ call ∈ calls, Sent call := by simp [calls,putCall_sent,listCall_sent]
  have answered : Table.run [] calls = ([.put,.put,.list [{ (plainFoo 9).toFooFields with path := 2120 }]],.ok
      [⟨{ (plainFoo 7).toFooFields with path := 1120 },0⟩,⟨{ (plainFoo 9).toFooFields with path := 2120 },0⟩]) := by
    decide
  obtain ⟨dao,made,same,ends⟩ := answers_follow_table 8 calls sent (by decide) (unbroken_of_nodup (by decide))
    (by simp [Near,calls,ids,about,putCall,listCall,plainFoo]; decide) (by decide : _ ≤ 3)
  rw [answered] at same ends
  exact ⟨dao,made,same,ends⟩

/-- Only a put changes the records, and it has compared its id. -/
theorem exchange_changes (exchanged : exchange fuel dao call = .ok (answer,dao')) : match call.request with
    | .put req => Whole req.foo.toFooFields → putFoo dao call.block { req.foo with path := call.address + 120 } = .ok dao' ∧
        fooCompared dao req.foo.id = .ok ()
    | _ => dao' = dao := by
  obtain ⟨request,address,block⟩ := call
  cases request with
  | get req =>
    simp only [exchange] at exchanged
    obtain ⟨_,-,exchanged⟩ := bind_ok.mp exchanged
    obtain ⟨_,-,exchanged⟩ := bind_ok.mp exchanged
    obtain ⟨_,-,exchanged⟩ := bind_ok.mp exchanged
    obtain ⟨_,-,exchanged⟩ := bind_ok.mp exchanged
    obtain ⟨reply,-,exchanged⟩ := bind_ok.mp exchanged
    cases reply <;> cases exchanged
    rfl
  | list req =>
    simp only [exchange] at exchanged
    obtain ⟨_,-,exchanged⟩ := bind_ok.mp exchanged
    obtain ⟨_,-,exchanged⟩ := bind_ok.mp exchanged
    obtain ⟨resp,-,exchanged⟩ := bind_ok.mp exchanged
    cases resp with
    | none => cases exchanged
    | some resp =>
      obtain ⟨_,-,exchanged⟩ := bind_ok.mp exchanged
      obtain ⟨reply,-,exchanged⟩ := bind_ok.mp exchanged
      cases reply <;> cases exchanged <;> rfl
  | put req =>
    intro whole
    rw [put_exchange dao fuel req whole address block] at exchanged
    cases done : putFoo dao block { req.foo with path := address + 120 } with
    | error fault =>
      rw [done] at exchanged
      cases exchanged
    | ok dao1 =>
      rw [done] at exchanged
      cases exchanged
      obtain ⟨found,looked,-⟩ := bind_ok.mp done
      obtain ⟨_,compared,-⟩ := bind_ok.mp looked
      exact ⟨rfl,compared⟩

/-- Whatever a list call makes of the links, the map keeps the blocks. -/
theorem Holds.step (holds : Holds head past dao addresses table) (sent : Sent call)
    (fresh : (head :: (past ++ [call]).map Call.block).Nodup) (exchanged : exchange fuel dao call = .ok (answer,dao')) :
    ∃ addresses' table', Holds head (past ++ [call]) dao' addresses' table' := by
  have changes := exchange_changes exchanged
  obtain ⟨request,address,block⟩ := call
  cases request with
  | get req => exact ⟨addresses,table,changes ▸ holds.more _⟩
  | list req => exact ⟨addresses,table,changes ▸ holds.more _⟩
  | put req =>
    obtain ⟨done,compared⟩ := changes (sent req rfl)
    have whole : Whole { req.foo.toFooFields with path := address + 120 } := ⟨(sent req rfl).path,(sent req rfl).fits⟩
    have put := put_follows holds.stores { req.foo with path := address + 120 } whole compared (holds.fresh fresh)
    cases stored : table.put { req.foo.toFooFields with path := address + 120 } with
    | error fault =>
      rw [stored] at put
      cases put.symm.trans done
    | ok table' =>
      rw [stored] at put
      obtain ⟨dao1,addresses',done',stores,same,given,-⟩ := put
      cases done'.symm.trans done
      exact ⟨addresses',table',holds.put same stores given⟩

theorem Holds.run (holds : Holds head past dao addresses table) (sent : ∀ call ∈ calls, Sent call)
    (fresh : (head :: (past ++ calls).map Call.block).Nodup) (done : (FooDao.run fuel dao calls).2 = .ok dao') :
    ∃ addresses' table', Holds head (past ++ calls) dao' addresses' table' := by
  induction calls generalizing past dao addresses table with
  | nil =>
    cases done
    exact ⟨addresses,table,by rwa [List.append_nil]⟩
  | cons call calls ih =>
    have split : past ++ call :: calls = (past ++ [call]) ++ calls := by simp
    rw [split] at fresh ⊢
    simp only [FooDao.run] at done
    cases exchanged : exchange fuel dao call with
    | error stop =>
      rw [exchanged] at done
      cases done
    | ok after =>
      obtain ⟨answer,dao1⟩ := after
      rw [exchanged] at done
      have first : (head :: (past ++ [call]).map Call.block).Nodup :=
        fresh.sublist (List.Sublist.cons_cons _ (List.Sublist.map _ (List.sublist_append_left ..)))
      obtain ⟨_,_,next⟩ := holds.step (sent call List.mem_cons_self) first exchanged
      exact ih next (fun c member => sent c (List.mem_cons_of_mem _ member)) fresh done

/-- Behind every run, the service frees each block once and leaves none. -/
theorem destroy_frees (head : UInt64) (calls : List Call) (sent : ∀ call ∈ calls, Sent call)
    (fresh : (head :: calls.map Call.block).Nodup) :
    ∃ dao, initFooDao head = .ok dao ∧
      ∀ fuel dao', (run fuel dao calls).2 = .ok dao' → destroy dao' = .ok fun _ => none := by
  obtain ⟨dao,made,serves⟩ := serves_start head
  refine ⟨dao,made,fun fuel dao' done => ?_⟩
  obtain ⟨_,_,holds⟩ := serves.toHolds.run sent fresh done
  exact holds.stores.destroyed

/-- A record that is put twice. -/
theorem destroy_frees_twice : ∃ dao, initFooDao 8 = .ok dao ∧
    ∀ fuel dao', (run fuel dao [putCall 7 1000 16,putCall 9 2000 24,putCall 7 3000 32,listCall 0 1 40]).2 = .ok dao' →
      destroy dao' = .ok fun _ => none :=
  destroy_frees 8 [putCall 7 1000 16,putCall 9 2000 24,putCall 7 3000 32,listCall 0 1 40]
    (by simp [putCall_sent,listCall_sent]) (by decide)

/-- Asked for page after page of one size, the service lists the records from the second on, each once,
as long as there are more of them, and reads beyond them when there are not. -/
theorem pages_skip_first (head : UInt64) (calls pages : List Call) (sent : ∀ call ∈ calls, Sent call)
    (unlisted : ∀ call ∈ calls, ∀ req, call.request ≠ .list req) (distinct : (ids calls).Nodup) (near : Near calls)
    (fresh : (head :: (calls ++ pages).map Call.block).Nodup) (enough : (calls ++ pages).length ≤ fuel)
    (few : calls.length < 2 ^ 31) (short : ∀ foo ∈ calls.filterMap received, foo.data.length ≤ 1024)
    (filled : calls.filterMap received ≠ []) {s : Nat} (each : Pages s pages) :
    ∃ dao answers, initFooDao head = .ok dao ∧ answers.length = calls.length ∧
      (pages = [] ∨ pages.length * s < (calls.filterMap received).length →
        ∃ foos : List (List FooFields), (run fuel dao (calls ++ pages)).1 = answers ++ foos.map Answer.list ∧
          foos.flatten = ((calls.filterMap received).drop 1).take (pages.length * s)) ∧
      (¬(pages = [] ∨ pages.length * s < (calls.filterMap received).length) →
        (run fuel dao (calls ++ pages)).2 = .error (.fault .outOfBounds)) := by
  obtain ⟨dao,made,serves⟩ := serves_start head
  have asked : ∀ call ∈ pages, ∃ req, call.request = .list req := by
    intro call member
    obtain ⟨i,there⟩ := List.mem_iff_getElem?.mp member
    obtain ⟨req,listed,_⟩ := each i call there
    exact ⟨req,listed⟩
  have puts : ids (calls ++ pages) = ids calls := by
    have none : ids pages = [] := by
      refine List.filterMap_eq_nil_iff.mpr fun call member => ?_
      obtain ⟨req,listed⟩ := asked call member
      simp [listed]
    rw [ids,List.filterMap_append]
    exact (congrArg _ none).trans (List.append_nil _)
  have abouts : (calls ++ pages).filterMap about = calls.filterMap about := by
    have none : pages.filterMap about = [] := by
      refine List.filterMap_eq_nil_iff.mpr fun call member => ?_
      obtain ⟨req,listed⟩ := asked call member
      simp [about,listed]
    rw [List.filterMap_append,none,List.append_nil]
  have close : Near (calls ++ pages) := by
    rw [Near,puts,abouts]
    exact near
  have whole : ∀ call ∈ calls ++ pages, Sent call := by
    intro call member req put
    rcases List.mem_append.mp member with first | last
    · exact sent call first req put
    · obtain ⟨_,listed⟩ := asked call last
      cases put.symm.trans listed
  obtain ⟨same,ends⟩ := serves.run whole fresh (unbroken_of_nodup (puts ▸ distinct)) close enough
  obtain ⟨answers,table,done,count,records⟩ := Table.run_puts
    (by simpa [Table.ids] using distinct : (Table.ids [] ++ ids calls).Nodup) (by simpa using few) unlisted
  rw [List.map_nil,List.nil_append] at records
  have long : table.length < 2 ^ 31 := by
    have counted := congrArg List.length records
    rw [List.length_map] at counted
    have fewer := List.length_filterMap_le received calls
    omega
  rw [← records] at short filled ⊢
  rw [List.length_map]
  have paged := Table.run_pages (by simpa using filled) long (by simpa using short) pages each
  simp only [Table.run_append,done] at same ends
  refine ⟨dao,answers,made,count,fun more => ?_,fun fewer => ?_⟩
  · obtain ⟨foos,shown,flat⟩ := paged.1 more
    exact ⟨foos,by rw [same,shown],flat⟩
  · simpa only [paged.2 fewer] using ends

/-- Three records, and two pages of one. -/
theorem pages_skip_first_three : ∃ dao answers, initFooDao 8 = .ok dao ∧ answers.length = 3 ∧
    ∃ foos : List (List FooFields),
      (run 5 dao ([putCall 7 1000 16,putCall 9 2000 24,putCall 5 3000 32] ++ [listCall 0 1 40,listCall 1 1 48])).1 =
        answers ++ foos.map Answer.list ∧
      foos.flatten = [{ (plainFoo 9).toFooFields with path := 2120 },{ (plainFoo 5).toFooFields with path := 3120 }] := by
  have each : Pages 1 [listCall 0 1 40,listCall 1 1 48] := by
    intro i call there
    match i with
    | 0 =>
      cases there
      exact ⟨_,rfl,rfl,rfl⟩
    | 1 =>
      cases there
      exact ⟨_,rfl,rfl,rfl⟩
  obtain ⟨dao,answers,made,count,listed,-⟩ := pages_skip_first 8
    [putCall 7 1000 16,putCall 9 2000 24,putCall 5 3000 32] [listCall 0 1 40,listCall 1 1 48]
    (by simp [putCall_sent]) (by simp [putCall]) (by decide)
    (by simp [Near,ids,about,putCall,plainFoo]; decide) (by decide) (by decide : _ ≤ 5) (by decide) (by decide)
    (by decide) each
  exact ⟨dao,answers,made,count,listed (.inr (by decide))⟩

end Muti.FooDao
