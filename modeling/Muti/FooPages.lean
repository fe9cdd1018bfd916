import Muti.FooTable

/-! The walk to a page and the walk over it. The list's links lead from one record to the
next and from the last to the head, which is no record. -/
namespace Muti.FooDao

open Muti.Memory Muti.Rings Muti.Foo

/-- Where the walk stops: at the record of this number, or at the head. -/
theorem seek_ring {heap : Links UInt64} {list : UInt64} (offset : Int) (chain : (rest ++ [list]).IsChain (Linked heap))
    (apart : list ∉ rest) (here : (rest ++ [list]).head? = some s) (count : off + rest.length < 2 ^ 31)
    (enough : rest.length < fuel) : seek heap list offset fuel s off =
      .ok (some (if offset < off then list else (rest[offset.toNat - off]?).getD list)) := by
  induction rest generalizing s off fuel with
  | nil =>
    obtain ⟨fuel,rfl⟩ := Nat.exists_eq_succ_of_ne_zero (Nat.ne_of_gt enough)
    obtain rfl : list = s := by simpa using here
    simp [seek]
  | cons first rest ih =>
    obtain ⟨fuel,rfl⟩ := Nat.exists_eq_succ_of_ne_zero (Nat.ne_of_gt (Nat.lt_of_le_of_lt (Nat.zero_le _) enough))
    obtain rfl : first = s := by simpa using here
    simp only [List.length_cons] at count enough
    simp only [List.mem_cons,not_or] at apart
    obtain ⟨next,begins⟩ : ∃ next, (rest ++ [list]).head? = some next := by
      cases rest <;> simp
    have linked : heap.next first = some next := by
      cases rest <;> simp at begins <;> subst begins
      · exact (List.isChain_cons_cons.mp chain).1.1
      · exact (List.isChain_cons_cons.mp chain).1.1
    rw [seek,if_neg (Ne.symm apart.1)]
    by_cases reached : offset = off
    · rw [if_pos reached,reached]
      simp
    · have later : seek heap list offset fuel next (off + 1) = _ := ih chain.of_cons apart.2 begins (by omega) (by omega)
      rw [if_neg reached,if_neg (by omega),linked]
      change seek heap list offset fuel next (off + 1) = _
      rw [later]
      by_cases before : offset < off
      · rw [if_pos before,if_pos (by omega)]
      · have behind : offset.toNat - off = offset.toNat - (off + 1) + 1 := by omega
        rw [if_neg before,if_neg (by omega),behind,List.getElem?_cons_succ]

/-- From one node on, the records behind it, until there is no more room or the head is read as one. -/
theorem encodeFoos_ring {dao : FooDao} (chain : (p :: (ys ++ [dao.list])).IsChain (Linked dao.heap))
    (head : dao.blocks dao.list = none)
    (pairs : List.Forall₂ (fun y foo => readFoo dao y = .ok foo ∧ Whole foo.toFooFields) ys foos)
    (n : Nat) (count : i + ys.length < 2 ^ 31) (room : Nat) : encodeFoos dao n i (some p) room =
      if ys.length < n ∨ room < ((foos.take n).map fun s => 112 + s.data.length).sum then .error .outOfBounds
      else .ok ((foos.take n).map image).flatten := by
  induction pairs generalizing p n i room with
  | nil =>
    cases n with
    | zero => simp [encodeFoos]
    | succ n =>
      have linked := (List.isChain_cons_cons.mp chain).1.1
      simp [encodeFoos,linked,readFoo,head,bind,Except.bind]
  | @cons y foo ys foos first rest ih =>
    cases n with
    | zero => simp [encodeFoos]
    | succ n =>
      obtain ⟨read,whole⟩ := first
      have linked := (List.isChain_cons_cons.mp chain).1.1
      have size : (image foo).length = 112 + foo.data.length := by simp [image]
      rw [List.length_cons] at count
      have later := ih chain.of_cons n (i := i + 1) (by omega) (room - (112 + foo.data.length))
      simp only [encodeFoos,Option.bind_some,linked,read,fooImage_whole whole,bind,Except.bind,size,
        List.length_cons,List.take_succ_cons,List.map_cons,List.sum_cons,List.flatten_cons,Nat.succ_lt_succ_iff]
      by_cases short : room < 112 + foo.data.length
      · rw [if_pos short,if_pos (.inr (by omega))]
      · rw [if_neg short,if_neg (by omega)]
        by_cases fails : ys.length < n ∨ room - (112 + foo.data.length) < ((foos.take n).map fun s => 112 + s.data.length).sum
        · rw [later,if_pos fails,if_pos (by omega)]
        · rw [later,if_neg fails,if_neg (by omega)]

theorem readFoo_held (held : dao.blocks s = some fields) (whole : Whole (record fields).foo) : readFoo dao s =
    .ok { (record fields).foo with element := ⟨(dao.heap.next s).getD 0,(dao.heap.prev s).getD 0⟩ } := by
  have room : fields.path_length.toNat ≤ fields.data.length := by
    have taken : (fields.data.take fields.path_length.toNat).length = fields.path_length.toNat := whole.path
    rw [List.length_take] at taken
    omega
  rw [readFoo,held]
  change (readFirst _ _ >>= _) = _
  rw [readFirst,if_pos room]
  rfl

theorem Stores.read (stores : Stores dao addresses table) : ∃ foos : List Foo,
    List.Forall₂ (fun s foo => readFoo dao s = .ok foo ∧ Whole foo.toFooFields) addresses foos ∧
      foos.map Foo.toFooFields = table.map Record.foo := by
  obtain ⟨foos,pairs⟩ := Lists.exists_partners (fun s (foo : Foo) => (readFoo dao s = .ok foo ∧ Whole foo.toFooFields) ∧
      (recordAt dao s).map Record.foo = some foo.toFooFields) addresses fun s member => by
    obtain ⟨fields,held,listed⟩ := stores.held member
    have whole := stores.whole _ listed
    exact ⟨_,⟨readFoo_held held whole,whole⟩,by rw [recordAt_some held,Option.map_some]⟩
  refine ⟨foos,pairs.imp fun _ _ both => both.1,?_⟩
  have same := Lists.partners_map (fun s => (recordAt dao s).map Record.foo) (fun foo : Foo => some foo.toFooFields) pairs
    fun _ _ both => both.2
  have listed := congrArg (List.map (Option.map Record.foo)) stores.records
  rw [List.map_map,List.map_map] at listed
  have equal : (foos.map Foo.toFooFields).map some = (table.map Record.foo).map some := by
    rw [List.map_map,List.map_map]
    exact same.symm.trans listed
  exact List.map_injective_iff.mpr (Option.some_injective _) equal

/-- The headers take their part of the room, and the paths have the rest. -/
theorem sum_headers (foos : List Foo) : (foos.map fun s => 112 + s.data.length).sum =
    foos.length * 112 + (foos.map fun s => s.data.length).sum := by simp

/-- The records behind the element the walk stopped at. -/
theorem ring_behind {links : Links α} {h : α} {xs : List α} (ring : Ring links h xs) (inside : xs[k]? = some p) :
    (p :: (xs.drop (k + 1) ++ [h])).IsChain (Linked links) := by
  obtain ⟨bound,rfl⟩ := List.getElem?_eq_some_iff.mp inside
  rw [← List.take_append_drop k xs] at ring
  have behind := ring.behind
  rwa [List.drop_eq_getElem_cons bound] at behind

/-- The walk stops at the element the page begins behind. -/
theorem listFoo_ring (stores : Stores dao addresses table) (ring : Ring dao.heap dao.list addresses)
    (enough : table.length < fuel) {page page_size : Int32} {offset : Int} (product : page.toInt * page_size.toInt = offset)
    (counts : ¬(offset < -2 ^ 31 ∨ 2 ^ 31 ≤ offset)) (inside : ¬table.length ≤ offset)
    (fits : ¬2 ^ 31 ≤ table.length - offset) :
    ∃ p, listFoo fuel dao page page_size = .ok (some (min (table.length - offset) page_size.toInt,some p)) ∧
      (p :: (addresses.drop (Table.first offset) ++ [dao.list])).IsChain (Linked dao.heap) := by
  have length := stores.length
  have small := stores.small
  obtain ⟨_,next,_,begins,_,linked⟩ := ring.ends
  obtain ⟨p,walked,chain⟩ : ∃ p, seek dao.heap dao.list offset fuel next 0 = .ok (some p) ∧
      (p :: (addresses.drop (Table.first offset) ++ [dao.list])).IsChain (Linked dao.heap) := by
    refine ⟨_,seek_ring offset ring.of_cons (List.nodup_cons.mp stores.apart).1 begins (by omega) (by omega),?_⟩
    by_cases before : offset < 0
    · simpa [Table.first,before,Rings.Ring] using ring
    · obtain ⟨q,reached⟩ : ∃ q, addresses[offset.toNat]? = some q := ⟨_,List.getElem?_eq_getElem (by omega)⟩
      simpa [Table.first,before,reached] using ring_behind ring reached
  have least : (if table.length - offset < page_size.toInt then table.length - offset else page_size.toInt) =
      min (table.length - offset) page_size.toInt := by
    split <;> omega
  refine ⟨p,?_,chain⟩
  rw [listFoo]
  simp only [product,if_neg counts,stores.size,if_neg inside,if_neg fits,linked,walked,bind,Except.bind,Option.map_some,least]

theorem encode_page (stores : Stores dao addresses table)
    (chain : (p :: (addresses.drop k ++ [dao.list])).IsChain (Linked dao.heap))
    (pairs : List.Forall₂ (fun s foo => readFoo dao s = .ok foo ∧ Whole foo.toFooFields) addresses foos)
    (inside : k ≤ table.length) (super : Response) (length : UInt32) : fooResponseEncoderList dao super length (some p) =
      if table.length < k + length.toNat ∨
        length.toNat * 1024 < (((foos.drop k).take length.toNat).map fun s => s.data.length).sum then .error .outOfBounds
      else .ok (listImage super length ((foos.drop k).take length.toNat)) := by
  have counted := stores.length
  have small := stores.small
  have head : dao.blocks dao.list = none := stores.unlisted _ (List.nodup_cons.mp stores.apart).1
  have fewer : (addresses.drop k).length = table.length - k := by rw [List.length_drop,counted]
  have encoded := encodeFoos_ring chain head (List.forall₂_drop k pairs) length.toNat (i := 0) (by omega)
    (length.toNat * (112 + 1024))
  rw [fooResponseEncoderList,encoded,sum_headers,fewer]
  by_cases fails : table.length < k + length.toNat
  · rw [if_pos (.inl (by omega)),if_pos (.inl fails)]
    rfl
  · have page : ((foos.drop k).take length.toNat).length = length.toNat := by
      rw [List.length_take,List.length_drop,← pairs.length_eq]
      omega
    have fits : (table.length - k < length.toNat ∨ length.toNat * (112 + 1024) <
        length.toNat * 112 + (((foos.drop k).take length.toNat).map fun s => s.data.length).sum) ↔
        table.length < k + length.toNat ∨
          length.toNat * 1024 < (((foos.drop k).take length.toNat).map fun s => s.data.length).sum := by
      omega
    rw [page]
    simp only [fits]
    split
    · rfl
    · simp [bind,Except.bind,listImage]

theorem length_ofInt_zero : (UInt32.ofInt 0).toNat = 0 := by decide

/-- A list answer holds what the table lists, and ends as it does. -/
theorem listed_page (stores : Stores dao addresses table) (ring : Ring dao.heap dao.list addresses)
    (enough : table.length < fuel) (page page_size : Int32) (super : Response) :
    match table.list page page_size with
    | .error fault => listFoo fuel dao page page_size = .error fault ∨
        ∃ length head, listFoo fuel dao page page_size = .ok (some (length,head)) ∧
          fooResponseEncoderList dao super (UInt32.ofInt length) head = .error fault
    | .ok fields => ∃ length head foos, listFoo fuel dao page page_size = .ok (some (length,head)) ∧
        fooResponseEncoderList dao super (UInt32.ofInt length) head = .ok (listImage super (UInt32.ofInt length) foos) ∧
        foos.length = (UInt32.ofInt length).toNat ∧ foos.length ≤ table.length ∧
        (foos.map fun s => s.data.length).sum ≤ foos.length * 1024 ∧ (∀ s ∈ foos, Whole s.toFooFields) ∧
        foos.map Foo.toFooFields = fields := by
  obtain ⟨foos,pairs,same⟩ := stores.read
  have size := stores.size
  generalize product : page.toInt * page_size.toInt = offset
  by_cases overflow : offset < -2 ^ 31 ∨ 2 ^ 31 ≤ offset
  · rw [Table.list,product,if_pos overflow]
    left
    rw [listFoo,product,if_pos overflow]
  by_cases outside : table.length ≤ offset
  · rw [Table.list,product,if_neg overflow,if_pos outside]
    refine ⟨0,none,[],?_,?_,by rw [length_ofInt_zero]; rfl,by simp,by simp,by simp,rfl⟩
    · rw [listFoo,product,if_neg overflow,size,if_pos outside]
    · simp [fooResponseEncoderList,length_ofInt_zero,encodeFoos,listImage,bind,Except.bind]
  by_cases large : 2 ^ 31 ≤ table.length - offset
  · rw [Table.list,product,if_neg overflow,if_neg outside,if_pos large]
    left
    simp only [listFoo,product,if_neg overflow,size,if_neg outside,if_pos large]
  · obtain ⟨p,listed,chain⟩ := listFoo_ring stores ring enough product overflow outside large
    have inside : Table.first offset ≤ table.length := by
      rw [Table.first]
      split <;> omega
    have encoded := encode_page stores chain pairs inside super (UInt32.ofInt (min (table.length - offset) page_size.toInt))
    generalize count : UInt32.ofInt (min (table.length - offset) page_size.toInt) = length at encoded
    have page : ((foos.drop (Table.first offset)).take length.toNat).map Foo.toFooFields =
        ((table.drop (Table.first offset)).take length.toNat).map Record.foo := by
      rw [List.map_take,List.map_drop,same,List.map_take,List.map_drop]
    have sizes := congrArg (List.map fun s : FooFields => s.data.length) page
    rw [List.map_map] at sizes
    simp only [Table.list,product,if_neg overflow,if_neg outside,if_neg large,count,← sizes]
    by_cases fails : table.length < Table.first offset + length.toNat ∨
        length.toNat * 1024 < (((foos.drop (Table.first offset)).take length.toNat).map fun s => s.data.length).sum
    · rw [if_pos fails] at encoded
      have fails' := fails
      simp only [Function.comp_def] at fails' ⊢
      rw [if_pos fails']
      exact .inr ⟨_,_,listed,by rw [count,encoded]⟩
    · rw [if_neg fails] at encoded
      have short := not_or.mp fails
      simp only [Function.comp_def] at fails ⊢
      rw [if_neg fails]
      have taken : ((foos.drop (Table.first offset)).take length.toNat).length = length.toNat := by
        rw [List.length_take,List.length_drop,← pairs.length_eq,stores.length]
        omega
      refine ⟨_,_,_,listed,by rw [count,encoded],by rw [count,taken],by omega,by omega,fun s member => ?_,page⟩
      obtain ⟨_,_,_,whole⟩ := Lists.partner_origin pairs (List.mem_of_mem_drop (List.mem_of_mem_take member))
      exact whole

end Muti.FooDao
