import Mathlib.Data.Fintype.Basic
import Mathlib.Data.List.Rotate
import Muti.LinkedList

/-! The intrusive lists are sequences. Disjoint rings in the heap stand for a family of
sequences, each under its list's head, and what a call does to the heap is what an operation
on sequences does to the family. -/
namespace Muti.LinkedList

open Muti.Rings

universe u

variable {α : Type u} [DecidableEq α] {heap : Links α} {family : Family α}

def change (family : Family α) (head : α) (f : List α → List α) : Family α :=
  Function.update family head ((family head).map f)

def without (family : Family α) (element : α) : Family α := fun head => (family head).map fun xs => xs.erase element

def contents (family : Family α) (head : α) : List α := (family head).getD []

/-- How many elements there are up to an entry, and none up to the head. -/
def position (xs : List α) (head entry : α) : Nat := if entry = head then 0 else xs.idxOf entry + 1

def spec (family : Family α) : Call α → Family α
  | .listAdd element head => change family head fun xs => element :: xs
  | .listAddTail element head => change family head fun xs => xs ++ [element]
  | .listDel element => without family element
  | .listMove element head => change (without family element) head fun xs => element :: xs
  | .listMoveTail element head => change (without family element) head fun xs => xs ++ [element]
  | .listReplace old_element new_element => fun head => (family head).map fun xs => xs.replace old_element new_element
  | .listRotateLeft head => change family head fun xs => xs.rotate 1
  | .listCutPosition element head entry =>
    let xs := contents family head
    let n := position xs head entry
    Function.update (Function.update family element (some (xs.take n))) head (some (xs.drop n))
  | .listJoinInit list_from list_to =>
    change (change family list_to fun xs => contents family list_from ++ xs) list_from fun _ => []
  | .listJoinTailInit list_from list_to =>
    change (change family list_to fun xs => xs ++ contents family list_from) list_from fun _ => []

def Entry (family : Family α) (a : α) : Prop := ∃ h, ∃ xs ∈ family h, a ∈ xs

def Head (family : Family α) (h : α) : Prop := (family h).isSome

/-- What a call requires of its arguments. The head of a list that is cut off may be an unused
one or one whose list is given up. -/
def Requires (family : Family α) : Call α → Prop
  | .listAdd element head | .listAddTail element head => Fresh family element ∧ Head family head
  | .listDel element => Entry family element
  | .listMove element head | .listMoveTail element head => Entry family element ∧ Head family head
  | .listReplace old_element new_element => Entry family old_element ∧ Fresh family new_element
  | .listRotateLeft head => Head family head
  | .listCutPosition element head entry =>
    element ≠ head ∧ ¬Entry family element ∧ Head family head ∧ contents family head ≠ [] ∧
      entry ∈ head :: contents family head
  | .listJoinInit list_from list_to | .listJoinTailInit list_from list_to =>
    Head family list_from ∧ Head family list_to ∧ list_from ≠ list_to

section Decidable

variable [Fintype α]

instance (family : Family α) (a : α) : Decidable (Fresh family a) :=
  inferInstanceAs (Decidable (∀ k, ∀ xs ∈ family k, a ∉ k :: xs))

instance (family : Family α) (a : α) : Decidable (Entry family a) :=
  inferInstanceAs (Decidable (∃ h, ∃ xs ∈ family h, a ∈ xs))

instance (family : Family α) (h : α) : Decidable (Head family h) := inferInstanceAs (Decidable ((family h).isSome = true))

instance (family : Family α) : (call : Call α) → Decidable (Requires family call)
  | .listAdd element head | .listAddTail element head => inferInstanceAs (Decidable (Fresh family element ∧ Head family head))
  | .listDel element => inferInstanceAs (Decidable (Entry family element))
  | .listMove element head | .listMoveTail element head => inferInstanceAs (Decidable (Entry family element ∧ Head family head))
  | .listReplace old_element new_element =>
    inferInstanceAs (Decidable (Entry family old_element ∧ Fresh family new_element))
  | .listRotateLeft head => inferInstanceAs (Decidable (Head family head))
  | .listCutPosition element head entry =>
    inferInstanceAs (Decidable (element ≠ head ∧ ¬Entry family element ∧ Head family head ∧ contents family head ≠ [] ∧
      entry ∈ head :: contents family head))
  | .listJoinInit list_from list_to | .listJoinTailInit list_from list_to =>
    inferInstanceAs (Decidable (Head family list_from ∧ Head family list_to ∧ list_from ≠ list_to))

end Decidable

theorem change_of_some (here : family h = some xs) (f : List α → List α) :
    change family h f = Function.update family h (some (f xs)) := by
  rw [change,here,Option.map_some]

theorem change_same (f : List α → List α) (same : ∀ xs ∈ family h, f xs = xs) : change family h f = family := by
  rw [change]
  cases here : family h with
  | none => exact Function.update_eq_self_iff.mpr here.symm
  | some xs =>
    rw [Option.map_some,same xs here,← here]
    exact Function.update_eq_self h family

/-- What changes a list with an element in it changes no other list. -/
theorem map_of_entry (represents : Represents heap family) (here : family h = some xs) (member : a ∈ xs) (f : List α → List α)
    (others : ∀ ys, a ∉ ys → f ys = ys) : (fun k => (family k).map f) = Function.update family h (some (f xs)) := by
  funext k
  by_cases same : k = h
  · subst same
    simp [here]
  · rw [Function.update_of_ne same]
    cases there : family k with
    | none => rfl
    | some ys =>
      have absent := represents.apart h k (Ne.symm same) xs here ys there a (List.mem_cons_of_mem _ member)
      rw [Option.map_some,others ys fun inside => absent (List.mem_cons_of_mem _ inside)]

theorem listAdd_changes (represents : Represents heap family) (fresh : Fresh family e) (here : family h = some xs) :
    ∃ heap', listAdd heap e h = some heap' ∧ Changes heap heap' family (change family h fun xs => e :: xs) [h] := by
  have ring := represents.ring h xs here
  obtain ⟨p,n,_,first,_,next⟩ := ring.ends
  have placed := represents.place here fresh (List.isChain_singleton h) ring.of_cons (List.Sublist.refl xs) rfl first
  refine ⟨(heap.join e n).join h e,?_,?_⟩
  · rw [listAdd,next]
    rfl
  · rwa [change_of_some here]

theorem listAddTail_changes (represents : Represents heap family) (fresh : Fresh family e) (here : family h = some xs) :
    ∃ heap', listAddTail heap e h = some heap' ∧ Changes heap heap' family (change family h fun xs => xs ++ [e]) [h] := by
  have ring := represents.ring h xs here
  obtain ⟨p,n,last,_,prev,_⟩ := ring.ends
  rw [← List.append_nil xs] at ring
  have behind : ([] ++ [h]).IsChain (Linked heap) := List.isChain_singleton h
  have placed := represents.place here fresh ring.before behind (by simp) last rfl
  refine ⟨(heap.join e h).join p e,?_,?_⟩
  · rw [listAddTail,prev]
    rfl
  · rwa [change_of_some here]

theorem listDelEntry_changes (represents : Represents heap family) (here : family h = some xs) (member : e ∈ xs) :
    ∃ heap', __listDelEntry heap e = some heap' ∧ Changes heap heap' family (without family e) [h] := by
  obtain ⟨ys,zs,rfl,first_one⟩ := List.eq_append_cons_of_mem member
  obtain ⟨p,n,last,first,prev,next⟩ := (represents.ring h _ here).around
  refine ⟨heap.join p n,?_,?_⟩
  · rw [__listDelEntry,prev,next]
    rfl
  · have erased : without family e = Function.update family h (some ((ys ++ e :: zs).erase e)) :=
      map_of_entry represents here member (fun xs => xs.erase e) fun ys absent => List.erase_of_not_mem absent
    rw [List.erase_append_right _ first_one,List.erase_cons_head] at erased
    rw [erased]
    exact represents.delete here last first

theorem fresh_without (represents : Represents heap family) (here : family h = some xs) (member : e ∈ xs) :
    Fresh (without family e) e := by
  intro k ys inside
  obtain ⟨zs,there,rfl⟩ := Option.map_eq_some_iff.mp inside
  have nodup := represents.nodup k zs there
  rw [List.mem_cons,not_or]
  constructor
  · rintro rfl
    by_cases same : h = e
    · subst same
      exact (List.nodup_cons.mp (represents.nodup h xs here)).1 member
    · exact represents.apart h e same xs here zs there e (List.mem_cons_of_mem _ member) List.mem_cons_self
  · exact nodup.of_cons.not_mem_erase

theorem listDel_changes (represents : Represents heap family) (here : family h = some xs) (member : e ∈ xs) :
    ∃ heap', listDel heap e = some heap' ∧ Changes heap heap' family (without family e) [h] := by
  obtain ⟨middle,done,changes⟩ := listDelEntry_changes represents here member
  refine ⟨(middle.setNext e none).setPrev e none,?_,?_⟩
  · simp only [__listDelEntry,Option.bind_eq_bind,Option.bind_eq_some_iff,Option.some.injEq] at done
    obtain ⟨p,prev,n,next,rfl⟩ := done
    rw [listDel,prev,next]
    rfl
  · apply changes.release (fresh_without represents here member)
    · exact represents.own here List.mem_cons_self (List.mem_cons_of_mem _ member)
    · intro a other
      simp [Agree,Links.setNext,Links.setPrev,other]

/-- A moved element is deleted first, and is in no list when it is added. -/
theorem move_changes {add : Links α → Option (Links α)} {f : List α → List α} (represents : Represents heap family)
    (here : family h = some xs) (member : e ∈ xs) (there : family t = some ys)
    (adds : ∀ {middle : Links α} {between : Family α} {zs : List α}, Represents middle between → Fresh between e →
      between t = some zs → ∃ heap', add middle = some heap' ∧ Changes middle heap' between (change between t f) [t]) :
    ∃ heap', (__listDelEntry heap e).bind add = some heap' ∧
      Changes heap heap' family (change (without family e) t f) [h,t] := by
  obtain ⟨middle,deleted,first⟩ := listDelEntry_changes represents here member
  have still : without family e t = some (ys.erase e) := by rw [without,there,Option.map_some]
  obtain ⟨heap',added,second⟩ := adds first.represents (fresh_without represents here member) still
  refine ⟨heap',?_,first.trans second⟩
  rw [deleted]
  exact added

theorem listMove_changes (represents : Represents heap family) (here : family h = some xs) (member : e ∈ xs)
    (there : family t = some ys) : ∃ heap', listMove heap e t = some heap' ∧
      Changes heap heap' family (change (without family e) t fun zs => e :: zs) [h,t] :=
  move_changes represents here member there listAdd_changes

theorem listMoveTail_changes (represents : Represents heap family) (here : family h = some xs) (member : e ∈ xs)
    (there : family t = some ys) : ∃ heap', listMoveTail heap e t = some heap' ∧
      Changes heap heap' family (change (without family e) t fun zs => zs ++ [e]) [h,t] :=
  move_changes represents here member there listAddTail_changes

theorem listReplace_eq (prev : heap.prev old = some p) (next : heap.next old = some n) (apart : old ≠ n) :
    listReplace heap old e = some ((heap.join e n).join p e) := by
  simp [listReplace,Links.join,Links.setNext,Links.setPrev,prev,next,apart]

theorem listReplace_changes (represents : Represents heap family) (here : family h = some xs) (member : old ∈ xs)
    (fresh : Fresh family e) : ∃ heap', listReplace heap old e = some heap' ∧
      Changes heap heap' family (fun k => (family k).map fun xs => xs.replace old e) [h] := by
  obtain ⟨ys,zs,rfl,first_one⟩ := List.eq_append_cons_of_mem member
  have ring := represents.ring h _ here
  have nodup := represents.nodup h _ here
  obtain ⟨p,n,last,first,prev,next⟩ := ring.around
  have apart : old ≠ n := by
    have inside := List.mem_of_head? first
    grind
  refine ⟨_,listReplace_eq prev next apart,?_⟩
  have replaced : (ys ++ old :: zs).replace old e = ys ++ e :: zs := by
    simp [List.replace_append,first_one]
  rw [map_of_entry represents here member (fun xs => xs.replace old e) fun ys absent =>
    List.replace_of_not_mem (by simpa using absent),replaced]
  exact represents.place here fresh ring.before ring.behind.tail (by simp) last first

/-- A head that points at itself is that of an empty list. -/
theorem listEmpty_iff (represents : Represents heap family) (here : family h = some xs) : listEmpty heap h = true ↔ xs = [] := by
  obtain ⟨p,n,_,first,_,next⟩ := (represents.ring h xs here).ends
  have absent := (List.nodup_cons.mp (represents.nodup h xs here)).1
  rw [listEmpty,decide_eq_true_iff,next]
  constructor
  · rintro same
    cases same
    cases xs with
    | nil => rfl
    | cons x xs =>
      cases first
      exact absurd List.mem_cons_self absent
  · rintro rfl
    exact first.symm

theorem listRotateLeft_changes (represents : Represents heap family) (here : family h = some xs) :
    ∃ heap', listRotateLeft heap h = some heap' ∧ Changes heap heap' family (change family h fun xs => xs.rotate 1) [h] := by
  have empty := listEmpty_iff represents here
  cases xs with
  | nil =>
    refine ⟨heap,?_,?_⟩
    · rw [listRotateLeft,empty.mpr rfl]
      rfl
    · rw [change_same]
      · exact represents.unchanged [h]
      · intro xs inside
        cases here.symm.trans inside
        rfl
  | cons a rest =>
    have filled : listEmpty heap h = false := by simpa using empty
    obtain ⟨_,_,_,first,_,next⟩ := (represents.ring h _ here).ends
    cases first
    obtain ⟨heap',moved,changes⟩ := listMoveTail_changes represents here List.mem_cons_self here
    refine ⟨heap',?_,?_⟩
    · rw [listRotateLeft,filled,next]
      exact moved
    · have erased : without family a = Function.update family h (some ((a :: rest).erase a)) :=
        map_of_entry represents here List.mem_cons_self (fun xs => xs.erase a) fun ys absent => List.erase_of_not_mem absent
      rw [List.erase_cons_head] at erased
      rw [erased,change,Function.update_self,Option.map_some,Function.update_idem] at changes
      have rotated : (a :: rest).rotate 1 = rest ++ [a] := by simp
      rw [change_of_some here,rotated]
      exact changes.mono (by simp)

theorem cutPosition_eq (first : heap.next head = some x) (next : heap.next entry = some n) :
    __listCutPosition heap element head entry = some (((heap.join element x).join entry element).join head n) := by
  simp [__listCutPosition,Links.join,Links.setNext,Links.setPrev,first,next]

/-- The test for a list of one entry that is neither of the two pointers finds none where a
pointer is to the head or to an entry. -/
theorem listCutPosition_eq (represents : Represents heap family) (here : family head = some xs) (filled : xs ≠ [])
    (member : entry ∈ head :: xs) : listCutPosition heap element head entry =
      if entry = head then some (listHeadInit heap element) else __listCutPosition heap element head entry := by
  have empty : listEmpty heap head = false := by simpa [filled] using listEmpty_iff represents here
  obtain ⟨p,n,last,first,prev,next⟩ := (represents.ring head xs here).ends
  have nodup := represents.nodup head xs here
  have known : ¬(listIsSingular heap head && (heap.next head ≠ some entry && head ≠ entry)) = true := by
    simp only [listIsSingular,empty,prev,next,Bool.not_false,Bool.true_and,Bool.and_eq_true,decide_eq_true_eq,Option.some.injEq]
    rintro ⟨single,another,outside⟩
    subst single
    cases xs with
    | nil => exact filled rfl
    | cons x rest =>
      cases first
      cases rest with
      | nil =>
        simp only [List.mem_cons,List.not_mem_nil,or_false] at member
        grind
      | cons y rest =>
        rw [List.getLast?_cons_cons,List.getLast?_cons_cons] at last
        have again := List.mem_of_getLast? last
        exact (List.nodup_cons.mp nodup.of_cons).1 again
  rw [listCutPosition,empty,if_neg (by simp),if_neg known]

theorem listCutPosition_changes (represents : Represents heap family) (here : family head = some xs) (filled : xs ≠ [])
    (distinct : element ≠ head) (free : ¬Entry family element) (member : entry ∈ head :: xs) :
    ∃ heap', listCutPosition heap element head entry = some heap' ∧
      Changes heap heap' family (spec family (.listCutPosition element head entry)) [element,head] := by
  have given : contents family head = xs := by simp [contents,here]
  have unlisted : ∀ k, ∀ ys ∈ family k, element ∉ ys := fun k ys inside member => free ⟨k,ys,inside,member⟩
  rw [listCutPosition_eq represents here filled member,spec,given]
  by_cases whole : entry = head
  · have same : Function.update (Function.update family element (some [])) head (some xs) =
        Function.update family element (some []) := by
      rw [Function.update_eq_self_iff,Function.update_of_ne (Ne.symm distinct),here]
    rw [if_pos whole,position,if_pos whole,List.take_zero,List.drop_zero,same]
    exact ⟨heap.join element element,rfl,(represents.init unlisted).mono (by simp)⟩
  · obtain ⟨ys,zs,rfl,first_one⟩ := List.eq_append_cons_of_mem ((List.mem_cons.mp member).resolve_left whole)
    have ring := represents.ring head _ here
    obtain ⟨_,x,_,first,_,next⟩ := ring.ends
    obtain ⟨_,n,_,behind,_,onward⟩ := ring.around
    have parts : ys ++ entry :: zs = (ys ++ [entry]) ++ zs := by simp
    have front : (ys ++ [entry]).head? = some x := by
      cases ys <;> simpa using first
    have split : family head = some ((ys ++ [entry]) ++ zs) := parts ▸ here
    have cut := represents.cut split distinct unlisted front (List.getLast?_concat ..) behind
    rw [if_neg whole,position,if_neg whole,List.idxOf_append_of_notMem first_one,List.idxOf_cons_self]
    refine ⟨_,cutPosition_eq next onward,?_⟩
    have taken : (ys ++ entry :: zs).take (ys.length + 0 + 1) = ys ++ [entry] := by
      rw [parts]
      exact List.take_left' (by simp)
    have dropped : (ys ++ entry :: zs).drop (ys.length + 0 + 1) = zs := by
      rw [parts]
      exact List.drop_left' (by simp)
    simpa only [taken,dropped] using cut

theorem listJoin_changes (represents : Represents heap family) (from_list : family g = some xs) (filled : xs ≠ [])
    (here : family h = some (ys ++ zs)) (distinct : g ≠ h) (ends : (h :: ys).getLast? = some p)
    (begins : (zs ++ [h]).head? = some n) : ∃ heap', __listJoin heap g p n = some heap' ∧
      Changes heap (listHeadInit heap' g) family
        (Function.update (Function.update family h (some (ys ++ xs ++ zs))) g (some [])) [h,g] := by
  obtain ⟨y,x,last,first,prev,next⟩ := (represents.ring g xs from_list).ends
  rw [List.getLast?_cons_of_ne_nil filled] at last
  rw [List.head?_append_of_ne_nil xs filled] at first
  refine ⟨(heap.join p x).join y n,?_,represents.splice from_list here distinct first last ends begins⟩
  rw [__listJoin,next,prev]
  rfl

/-- What both joins do: nothing with an empty list, and else one list goes into a place of the other. -/
theorem join_changes {joined : Option (Links α)} {f : List α → List α} (represents : Represents heap family)
    (from_list : family g = some xs) (here : family h = some (ys ++ zs)) (distinct : g ≠ h)
    (ends : (h :: ys).getLast? = some p) (begins : (zs ++ [h]).head? = some n) (inserts : f (ys ++ zs) = ys ++ xs ++ zs)
    (empty : listEmpty heap g = true → joined = some heap)
    (filled : listEmpty heap g = false → joined = (__listJoin heap g p n).map fun heap' => listHeadInit heap' g) :
    ∃ heap', joined = some heap' ∧ Changes heap heap' family (change (change family h f) g fun _ => []) [h,g] := by
  have emptied := listEmpty_iff represents from_list
  have still : change family h f g = some xs := by rw [change,Function.update_of_ne distinct,from_list]
  cases xs with
  | nil =>
    rw [List.append_nil] at inserts
    refine ⟨heap,empty (emptied.mpr rfl),?_⟩
    have same : change (change family h f) g (fun _ => []) = family := by
      rw [change_of_some still,change_of_some here,inserts,← here,Function.update_eq_self,← from_list,Function.update_eq_self]
    rw [same]
    exact represents.unchanged [h,g]
  | cons x rest =>
    obtain ⟨heap',done,changes⟩ := listJoin_changes represents from_list (List.cons_ne_nil x rest) here distinct ends begins
    refine ⟨listHeadInit heap' g,?_,?_⟩
    · rw [filled (by simpa using emptied),done]
      rfl
    · rwa [change_of_some still,change_of_some here,inserts]

theorem listJoinInit_changes (represents : Represents heap family) (from_list : family g = some xs) (here : family h = some ys)
    (distinct : g ≠ h) : ∃ heap', listJoinInit heap g h = some heap' ∧
      Changes heap heap' family (spec family (.listJoinInit g h)) [h,g] := by
  obtain ⟨_,n,_,first,_,next⟩ := (represents.ring h ys here).ends
  have listed : family h = some ([] ++ ys) := here
  have last : [h].getLast? = some h := rfl
  have given : contents family g = xs := by simp [contents,from_list]
  rw [spec,given]
  apply join_changes represents from_list listed distinct last first
  · rfl
  · intro empty
    rw [listJoinInit,empty]
    rfl
  · intro filled
    rw [listJoinInit,filled,next,Option.map_eq_bind]
    rfl

theorem listJoinTailInit_changes (represents : Represents heap family) (from_list : family g = some xs)
    (here : family h = some ys) (distinct : g ≠ h) : ∃ heap', listJoinTailInit heap g h = some heap' ∧
      Changes heap heap' family (spec family (.listJoinTailInit g h)) [h,g] := by
  obtain ⟨p,_,last,_,prev,_⟩ := (represents.ring h ys here).ends
  have listed : family h = some (ys ++ []) := by rw [here,List.append_nil]
  have first : ([] ++ [h]).head? = some h := rfl
  have given : contents family g = xs := by simp [contents,from_list]
  rw [spec,given]
  apply join_changes represents from_list listed distinct last first
  · rw [List.append_nil,List.append_nil]
  · intro empty
    rw [listJoinTailInit,empty]
    rfl
  · intro filled
    rw [listJoinTailInit,filled,prev,Option.map_eq_bind]
    rfl

/-- What a call with proper arguments does: it succeeds, the heap stands for the changed
sequences, and lists it names nothing of stay as they are, in content and links. -/
structure Refines (heap : Links α) (family : Family α) (call : Call α) (heap' : Links α) : Prop where
  succeeds : exec heap call = some heap'
  represents : Represents heap' (spec family call)
  unnamed : ∀ h, ∀ xs ∈ family h, (∀ a ∈ call.arguments, a ∉ h :: xs) →
    spec family call h = some xs ∧ ∀ a ∈ h :: xs, Agree heap heap' a

/-- Every list that a call changes has one of its arguments. -/
theorem Changes.refines {heap' : Links α} (succeeds : exec heap call = some heap')
    (changes : Changes heap heap' family (spec family call) heads)
    (named : ∀ h ∈ heads, ∀ xs ∈ family h, ∃ a ∈ call.arguments, a ∈ h :: xs) : Refines heap family call heap' where
  succeeds := succeeds
  represents := changes.represents
  unnamed := by
    intro h xs inside absent
    have other : h ∉ heads := by
      intro member
      obtain ⟨a,given,listed⟩ := named h member xs inside
      exact absent a given listed
    exact ⟨(changes.kept h other).trans inside,fun a member => changes.others a ⟨h,other,xs,inside,member⟩⟩

omit [DecidableEq α] in
theorem head_named (family : Family α) {arguments : List α} (given : h ∈ arguments) :
    ∀ xs ∈ family h, ∃ a ∈ arguments, a ∈ h :: xs :=
  fun _ _ => ⟨h,given,List.mem_cons_self⟩

omit [DecidableEq α] in
theorem entry_named {arguments : List α} (here : family h = some xs) (member : e ∈ xs) (given : e ∈ arguments) :
    ∀ ys ∈ family h, ∃ a ∈ arguments, a ∈ h :: ys := by
  intro ys inside
  cases here.symm.trans inside
  exact ⟨e,given,List.mem_cons_of_mem _ member⟩

theorem call_refines (represents : Represents heap family) (call : Call α) (requires : Requires family call) :
    ∃ heap', Refines heap family call heap' := by
  cases call with
  | listAdd element head =>
    obtain ⟨fresh,known⟩ := requires
    obtain ⟨xs,here⟩ := Option.isSome_iff_exists.mp known
    obtain ⟨heap',done,changes⟩ := listAdd_changes represents fresh here
    refine ⟨heap',Changes.refines done changes ?_⟩
    rw [List.forall_mem_singleton]
    exact head_named family (by simp [Call.arguments])
  | listAddTail element head =>
    obtain ⟨fresh,known⟩ := requires
    obtain ⟨xs,here⟩ := Option.isSome_iff_exists.mp known
    obtain ⟨heap',done,changes⟩ := listAddTail_changes represents fresh here
    refine ⟨heap',Changes.refines done changes ?_⟩
    rw [List.forall_mem_singleton]
    exact head_named family (by simp [Call.arguments])
  | listDel element =>
    obtain ⟨h,xs,here,member⟩ := requires
    obtain ⟨heap',done,changes⟩ := listDel_changes represents here member
    refine ⟨heap',Changes.refines done changes ?_⟩
    rw [List.forall_mem_singleton]
    exact entry_named here member (by simp [Call.arguments])
  | listMove element head =>
    obtain ⟨⟨h,xs,here,member⟩,known⟩ := requires
    obtain ⟨ys,there⟩ := Option.isSome_iff_exists.mp known
    obtain ⟨heap',done,changes⟩ := listMove_changes represents here member there
    refine ⟨heap',Changes.refines done changes ?_⟩
    rw [List.forall_mem_cons,List.forall_mem_singleton]
    exact ⟨entry_named here member (by simp [Call.arguments]),head_named family (by simp [Call.arguments])⟩
  | listMoveTail element head =>
    obtain ⟨⟨h,xs,here,member⟩,known⟩ := requires
    obtain ⟨ys,there⟩ := Option.isSome_iff_exists.mp known
    obtain ⟨heap',done,changes⟩ := listMoveTail_changes represents here member there
    refine ⟨heap',Changes.refines done changes ?_⟩
    rw [List.forall_mem_cons,List.forall_mem_singleton]
    exact ⟨entry_named here member (by simp [Call.arguments]),head_named family (by simp [Call.arguments])⟩
  | listReplace old_element new_element =>
    obtain ⟨⟨h,xs,here,member⟩,fresh⟩ := requires
    obtain ⟨heap',done,changes⟩ := listReplace_changes represents here member fresh
    refine ⟨heap',Changes.refines done changes ?_⟩
    rw [List.forall_mem_singleton]
    exact entry_named here member (by simp [Call.arguments])
  | listRotateLeft head =>
    obtain ⟨xs,here⟩ := Option.isSome_iff_exists.mp requires
    obtain ⟨heap',done,changes⟩ := listRotateLeft_changes represents here
    refine ⟨heap',Changes.refines done changes ?_⟩
    rw [List.forall_mem_singleton]
    exact head_named family (by simp [Call.arguments])
  | listCutPosition element head entry =>
    obtain ⟨distinct,free,known,filled,member⟩ := requires
    obtain ⟨xs,here⟩ := Option.isSome_iff_exists.mp known
    rw [show contents family head = xs by simp [contents,here]] at filled member
    obtain ⟨heap',done,changes⟩ := listCutPosition_changes represents here filled distinct free member
    refine ⟨heap',Changes.refines done changes ?_⟩
    rw [List.forall_mem_cons,List.forall_mem_singleton]
    exact ⟨head_named family (by simp [Call.arguments]),head_named family (by simp [Call.arguments])⟩
  | listJoinInit list_from list_to =>
    obtain ⟨known_from,known_to,distinct⟩ := requires
    obtain ⟨xs,from_list⟩ := Option.isSome_iff_exists.mp known_from
    obtain ⟨ys,here⟩ := Option.isSome_iff_exists.mp known_to
    obtain ⟨heap',done,changes⟩ := listJoinInit_changes represents from_list here distinct
    refine ⟨heap',Changes.refines done changes ?_⟩
    rw [List.forall_mem_cons,List.forall_mem_singleton]
    exact ⟨head_named family (by simp [Call.arguments]),head_named family (by simp [Call.arguments])⟩
  | listJoinTailInit list_from list_to =>
    obtain ⟨known_from,known_to,distinct⟩ := requires
    obtain ⟨xs,from_list⟩ := Option.isSome_iff_exists.mp known_from
    obtain ⟨ys,here⟩ := Option.isSome_iff_exists.mp known_to
    obtain ⟨heap',done,changes⟩ := listJoinTailInit_changes represents from_list here distinct
    refine ⟨heap',Changes.refines done changes ?_⟩
    rw [List.forall_mem_cons,List.forall_mem_singleton]
    exact ⟨head_named family (by simp [Call.arguments]),head_named family (by simp [Call.arguments])⟩

/-- Every call of a sequence has the arguments it requires, in the family it is made in. -/
def Proper : Family α → List (Call α) → Prop
  | _, [] => True
  | family, call :: calls => Requires family call ∧ Proper (spec family call) calls

instance decidableProper [Fintype α] : (family : Family α) → (calls : List (Call α)) → Decidable (Proper family calls)
  | _, [] => inferInstanceAs (Decidable True)
  | family, call :: calls =>
    have _later : Decidable (Proper (spec family call) calls) := decidableProper (spec family call) calls
    inferInstanceAs (Decidable (Requires family call ∧ Proper (spec family call) calls))

/-- The calls, one after another, do to the heap what they do to the sequences. -/
def Follows : Links α → Family α → List (Call α) → Prop
  | _, _, [] => True
  | heap, family, call :: calls => ∃ heap', Refines heap family call heap' ∧ Follows heap' (spec family call) calls

theorem lists_follow_sequences (represents : Represents heap family) (calls : List (Call α)) (proper : Proper family calls) :
    Follows heap family calls := by
  induction calls generalizing heap family with
  | nil => trivial
  | cons call calls ih =>
    obtain ⟨requires,later⟩ := proper
    obtain ⟨heap',refines⟩ := call_refines represents call requires
    exact ⟨heap',refines,ih refines.represents later⟩

def twoHeads : Links (Fin 6) := listHeadInit (listHeadInit ⟨fun _ => none,fun _ => none⟩ 0) 1

def twoLists : Family (Fin 6) := fun h => if h = 0 ∨ h = 1 then some [] else none

def everyCall : List (Call (Fin 6)) :=
  [.listAddTail 2 0,.listAddTail 3 0,.listAdd 4 1,.listCutPosition 5 0 2,.listJoinTailInit 5 1,.listMove 3 1,.listDel 4,
    .listReplace 2 4,.listRotateLeft 1,.listMoveTail 4 1,.listJoinInit 1 0]

theorem lists_follow_sequences_twoHeads : Follows twoHeads twoLists everyCall ∧
    everyCall.foldl spec twoLists 0 = some [3,4] := by
  have represents : Represents twoHeads twoLists := by constructor <;> decide
  exact ⟨lists_follow_sequences represents everyCall (by decide +kernel),by decide +kernel⟩

end Muti.LinkedList
