import Mathlib.Data.List.Chain
import Mathlib.Data.List.Nodup
import Mathlib.Logic.Function.Basic

/-! Nodes with a next and a previous link, rings of them through a head, and families of
disjoint rings. Whatever relinks a ring joins pairs of nodes, one after another; a join takes
the place of the links that left the one and came to the other, and of no others. -/
namespace Muti.Rings

universe u

/-- The links of every node, none for a null pointer. -/
structure Links (α : Type u) where
  next : α → Option α
  prev : α → Option α

variable {α : Type u} {links links' : Links α}

def Linked (links : Links α) (a b : α) : Prop := links.next a = some b ∧ links.prev b = some a

/-- From the head through the nodes of its list back to the head. -/
def Ring (links : Links α) (h : α) (xs : List α) : Prop := (h :: (xs ++ [h])).IsChain (Linked links)

instance [DecidableEq α] (links : Links α) (a b : α) : Decidable (Linked links a b) :=
  inferInstanceAs (Decidable (links.next a = some b ∧ links.prev b = some a))

instance [DecidableEq α] (links : Links α) (h : α) (xs : List α) : Decidable (Ring links h xs) :=
  inferInstanceAs (Decidable ((h :: (xs ++ [h])).IsChain (Linked links)))

def Agree (links links' : Links α) (a : α) : Prop := links'.next a = links.next a ∧ links'.prev a = links.prev a

theorem Agree.refl (links : Links α) (a : α) : Agree links links a := ⟨rfl,rfl⟩

theorem Agree.trans {middle : Links α} (first : Agree links middle a) (second : Agree middle links' a) : Agree links links' a :=
  ⟨second.1.trans first.1,second.2.trans first.2⟩

theorem Ring.agree (ring : Ring links h xs) (same : ∀ a ∈ h :: xs, Agree links links' a) : Ring links' h xs := by
  have inside : ∀ a ∈ h :: (xs ++ [h]), a ∈ h :: xs := by
    intro a member
    simp at member ⊢
    tauto
  refine ring.imp_of_mem_imp fun a b first second linked => ?_
  exact ⟨(same a (inside a first)).1.trans linked.1,(same b (inside b second)).2.trans linked.2⟩

/-- The node before a place in a ring, and the one behind it. -/
theorem place_ends (h : α) (ys zs : List α) : ∃ p n, (h :: ys).getLast? = some p ∧ (zs ++ [h]).head? = some n :=
  ⟨_,_,List.getLast?_eq_some_getLast (List.cons_ne_nil h ys),
    List.head?_eq_some_head (List.append_ne_nil_of_right_ne_nil zs (List.cons_ne_nil h []))⟩

theorem mem_before (ends : (h :: ys).getLast? = some p) (zs : List α) : p ∈ h :: (ys ++ zs) := by
  rw [← List.cons_append]
  exact List.mem_append_left zs (List.mem_of_getLast? ends)

theorem mem_behind (begins : (zs ++ [h]).head? = some n) (ys : List α) : n ∈ h :: (ys ++ zs) := by
  rcases List.mem_append.mp (List.mem_of_head? begins) with inside | last
  · exact List.mem_cons_of_mem h (List.mem_append_right ys inside)
  · exact List.mem_singleton.mp last ▸ List.mem_cons_self

theorem Ring.around (ring : Ring links h (ys ++ e :: zs)) : ∃ p n, (h :: ys).getLast? = some p ∧ (zs ++ [h]).head? = some n ∧
    links.prev e = some p ∧ links.next e = some n := by
  obtain ⟨p,n,last,first⟩ := place_ends h ys zs
  refine ⟨p,n,last,first,?_⟩
  obtain ⟨init,before⟩ := List.getLast?_eq_some_iff.mp last
  obtain ⟨rest,behind⟩ := List.head?_eq_some_iff.mp first
  have whole : h :: ((ys ++ e :: zs) ++ [h]) = init ++ p :: e :: n :: rest := by
    rw [← behind,List.append_assoc,← List.cons_append,before]
    simp
  rw [Ring,whole,List.isChain_append_cons_cons,List.isChain_cons_cons] at ring
  exact ⟨ring.2.1.2,ring.2.2.1.1⟩

theorem Ring.ends (ring : Ring links h xs) : ∃ p n, (h :: xs).getLast? = some p ∧ (xs ++ [h]).head? = some n ∧
    links.prev h = some p ∧ links.next h = some n := by
  obtain ⟨p,n,last,first⟩ := place_ends h xs xs
  refine ⟨p,n,last,first,?_,?_⟩
  · obtain ⟨init,before⟩ := List.getLast?_eq_some_iff.mp last
    rw [Ring,← List.cons_append,before,List.append_assoc] at ring
    exact (List.isChain_append_cons_cons.mp ring).2.1.2
  · obtain ⟨rest,behind⟩ := List.head?_eq_some_iff.mp first
    rw [Ring,behind] at ring
    exact (List.isChain_cons_cons.mp ring).1.1

theorem Ring.before (ring : Ring links h (ys ++ zs)) : (h :: ys).IsChain (Linked links) := by
  rw [Ring,List.append_assoc,← List.cons_append] at ring
  exact ring.left_of_append

theorem Ring.behind (ring : Ring links h (ys ++ zs)) : (zs ++ [h]).IsChain (Linked links) := by
  rw [Ring,List.append_assoc,← List.cons_append] at ring
  exact ring.right_of_append

abbrev Family (α : Type u) := α → Option (List α)

/-- The heap holds a ring for each list, and no node is in two of them. -/
structure Represents (links : Links α) (family : Family α) : Prop where
  ring : ∀ h, ∀ xs ∈ family h, Ring links h xs
  nodup : ∀ h, ∀ xs ∈ family h, (h :: xs).Nodup
  apart : ∀ h k, h ≠ k → ∀ xs ∈ family h, ∀ ys ∈ family k, ∀ a ∈ h :: xs, a ∉ k :: ys

def Fresh (family : Family α) (a : α) : Prop := ∀ k, ∀ xs ∈ family k, a ∉ k :: xs

def Elsewhere (family : Family α) (heads : List α) (a : α) : Prop := ∃ k, k ∉ heads ∧ ∃ xs ∈ family k, a ∈ k :: xs

theorem Fresh.own {family : Family α} (fresh : Fresh family a) (heads : List α) : ¬Elsewhere family heads a := by
  rintro ⟨k,_,xs,inside,member⟩
  exact fresh k xs inside member

/-- A node that is no entry, possibly a head, is not in the list of another. -/
theorem own_of_free {family : Family α} (free : ∀ k, ∀ xs ∈ family k, g ∉ xs) (named : g ∈ heads) :
    ¬Elsewhere family heads g := by
  rintro ⟨k,other,xs,listed,member⟩
  rcases List.mem_cons.mp member with same | member
  · exact other (same ▸ named)
  · exact free k xs listed member

theorem Represents.own (represents : Represents links family) (here : family h = some xs) (named : h ∈ heads)
    (member : a ∈ h :: xs) : ¬Elsewhere family heads a := by
  rintro ⟨k,other,ys,inside,there⟩
  exact represents.apart h k (ne_of_mem_of_not_mem named other) xs here ys inside a member there

/-- One family of lists becomes another, and only the lists of some heads change. -/
structure Changes (links links' : Links α) (family family' : Family α) (heads : List α) : Prop where
  represents : Represents links' family'
  kept : ∀ k ∉ heads, family' k = family k
  others : ∀ a, Elsewhere family heads a → Agree links links' a

theorem Changes.trans {middle : Links α} {between : Family α} (first : Changes links middle family between heads)
    (second : Changes middle links' between family' more) : Changes links links' family family' (heads ++ more) where
  represents := second.represents
  kept := by
    intro k unnamed
    rw [List.mem_append,not_or] at unnamed
    exact (second.kept k unnamed.2).trans (first.kept k unnamed.1)
  others := by
    rintro a ⟨k,unnamed,xs,inside,member⟩
    rw [List.mem_append,not_or] at unnamed
    have still : xs ∈ between k := (first.kept k unnamed.1).trans inside
    exact (first.others a ⟨k,unnamed.1,xs,inside,member⟩).trans (second.others a ⟨k,unnamed.2,xs,still,member⟩)

/-- With the head at the end, no node is twice in a ring either. -/
theorem nodup_targets {xs : List α} (nodup : (h :: xs).Nodup) : (xs ++ [h]).Nodup :=
  (List.perm_append_singleton h xs).nodup_iff.mpr nodup

theorem nodup_splice {xs : List α} (nodup : (h :: (ys ++ zs)).Nodup) (inner : xs.Nodup)
    (apart : ∀ a ∈ xs, a ∉ h :: (ys ++ zs)) : (h :: (ys ++ xs ++ zs)).Nodup := by
  have joined := inner.append nodup fun a member => apart a member
  rw [List.append_assoc,← List.cons_append]
  refine (List.Perm.nodup_iff ?_).mp joined
  rw [← List.cons_append,← List.append_assoc,← List.append_assoc]
  exact List.perm_append_comm.append_right zs

/-- A node in no list may be unlinked from what it was linked with. -/
theorem Changes.release {middle : Links α} (changes : Changes links middle family family' heads) (fresh : Fresh family' e)
    (own : ¬Elsewhere family heads e) (same : ∀ a ≠ e, Agree middle links' a) : Changes links links' family family' heads where
  represents := by
    obtain ⟨ring,nodup,apart⟩ := changes.represents
    refine ⟨fun k xs inside => (ring k xs inside).agree fun a member => same a ?_,nodup,apart⟩
    rintro rfl
    exact fresh k xs inside member
  kept := changes.kept
  others := by
    intro a elsewhere
    refine (changes.others a elsewhere).trans (same a ?_)
    rintro rfl
    exact own elsewhere

theorem Changes.mono (changes : Changes links links' family family' heads) (more : heads ⊆ named) :
    Changes links links' family family' named where
  represents := changes.represents
  kept := fun k unnamed => changes.kept k fun known => unnamed (more known)
  others := by
    rintro a ⟨k,unnamed,listed⟩
    exact changes.others a ⟨k,fun known => unnamed (more known),listed⟩

theorem Represents.unchanged (represents : Represents links family) (heads : List α) : Changes links links family family heads :=
  ⟨represents,fun _ _ => rfl,fun a _ => Agree.refl links a⟩

section Join

variable [DecidableEq α]

def Links.setNext (links : Links α) (a : α) (b : Option α) : Links α := { links with next := Function.update links.next a b }

def Links.setPrev (links : Links α) (a : α) (b : Option α) : Links α := { links with prev := Function.update links.prev a b }

def Links.join (links : Links α) (a b : α) : Links α := (links.setNext a (some b)).setPrev b (some a)

theorem linked_join (links : Links α) (a b : α) : Linked (links.join a b) a b := by
  simp [Linked,Links.join,Links.setNext,Links.setPrev]

theorem Linked.join (linked : Linked links x y) (source : x ≠ a) (target : y ≠ b) : Linked (links.join a b) x y := by
  simpa [Linked,Links.join,Links.setNext,Links.setPrev,source,target] using linked

theorem agree_join (links : Links α) (source : c ≠ a) (target : c ≠ b) : Agree links (links.join a b) c := by
  simp [Agree,Links.join,Links.setNext,Links.setPrev,source,target]

theorem join_comm (links : Links α) (source : a ≠ c) (target : b ≠ d) :
    (links.join a b).join c d = (links.join c d).join a b := by
  simp [Links.join,Links.setNext,Links.setPrev,Function.update_comm source,Function.update_comm target]

/-- A chain stays when no link of it leaves the one node or comes to the other. -/
theorem chain_join {l : List α} (chain : l.IsChain (Linked links)) (source : a ∉ l.dropLast) (target : b ∉ l.tail) :
    l.IsChain (Linked (links.join a b)) := by
  rw [List.isChain_iff_forall₂,List.forall₂_iff_zip] at chain ⊢
  refine ⟨chain.1,fun {x y} member => ?_⟩
  obtain ⟨first,second⟩ := List.of_mem_zip member
  exact (chain.2 member).join (ne_of_mem_of_not_mem first source) (ne_of_mem_of_not_mem second target)

theorem chain_apart {l : List α} (chain : l.IsChain (Linked links)) (source : a ∉ l) (target : b ∉ l) :
    l.IsChain (Linked (links.join a b)) :=
  chain_join chain (fun member => source (l.dropLast_sublist.subset member)) fun member => target (List.mem_of_mem_tail member)

/-- The end of a chain is joined to the beginning of another. -/
theorem chain_link {front back : List α} (before : front.IsChain (Linked links)) (behind : back.IsChain (Linked links))
    (ends : front.getLast? = some a) (begins : back.head? = some b) (sources : (front ++ back.dropLast).Nodup)
    (targets : (front.tail ++ back).Nodup) : (front ++ back).IsChain (Linked (links.join a b)) := by
  obtain ⟨init,rfl⟩ := List.getLast?_eq_some_iff.mp ends
  obtain ⟨rest,rfl⟩ := List.head?_eq_some_iff.mp begins
  rw [List.isChain_append]
  refine ⟨chain_join before ?_ ?_,chain_join behind ?_ ?_,?_⟩
  · grind
  · grind
  · grind
  · grind
  · intro x last y first
    rw [ends] at last
    rw [begins] at first
    cases last
    cases first
    exact linked_join links a b

theorem chain_splice {front middle back : List α} (before : front.IsChain (Linked links)) (inside : middle.IsChain (Linked links))
    (behind : back.IsChain (Linked links)) (ends : front.getLast? = some p) (begins : back.head? = some n)
    (head : middle.head? = some first) (last : middle.getLast? = some final)
    (sources : (front ++ middle ++ back.dropLast).Nodup) (targets : (front.tail ++ middle ++ back).Nodup) :
    (front ++ middle ++ back).IsChain (Linked ((links.join p first).join final n)) := by
  have fewer : (front ++ middle.dropLast).Nodup :=
    sources.of_append_left.sublist ((List.dropLast_sublist middle).append_left front)
  have linked := chain_link before inside ends head fewer targets.of_append_left
  have kept : back.IsChain (Linked (links.join p first)) := by
    apply chain_join behind
    · have inside := List.mem_of_getLast? ends
      grind
    · intro member
      have apart := (List.nodup_append.mp targets).2.2 first (List.mem_append_right _ (List.mem_of_head? head))
      exact apart first (List.mem_of_mem_tail member) rfl
  exact chain_link linked kept (by simp [last]) begins sources (by grind)

theorem ring_empty (links : Links α) (h : α) : Ring (links.join h h) h [] := List.isChain_pair.mpr (linked_join links h h)

theorem Ring.join (ring : Ring links h xs) (source : a ∉ h :: xs) (target : b ∉ h :: xs) : Ring (links.join a b) h xs := by
  refine chain_apart ring ?_ ?_ <;> simp at source target ⊢ <;> tauto

/-- A ring is closed over what was between two of its nodes. -/
theorem ring_link (before : (h :: ys).IsChain (Linked links)) (behind : (zs ++ [h]).IsChain (Linked links))
    (nodup : (h :: (ys ++ zs)).Nodup) (ends : (h :: ys).getLast? = some p) (begins : (zs ++ [h]).head? = some n) :
    Ring (links.join p n) h (ys ++ zs) := by
  have targets := nodup_targets nodup
  rw [List.append_assoc] at targets
  have closed := chain_link before behind ends begins (by simpa using nodup) targets
  rwa [List.cons_append,← List.append_assoc] at closed

theorem ring_splice {xs : List α} (before : (h :: ys).IsChain (Linked links)) (inside : xs.IsChain (Linked links))
    (behind : (zs ++ [h]).IsChain (Linked links)) (nodup : (h :: (ys ++ xs ++ zs)).Nodup) (head : xs.head? = some first)
    (last : xs.getLast? = some final) (ends : (h :: ys).getLast? = some p) (begins : (zs ++ [h]).head? = some n) :
    Ring ((links.join p first).join final n) h (ys ++ xs ++ zs) := by
  have targets := nodup_targets nodup
  rw [List.append_assoc] at targets
  have spliced := chain_splice before inside behind ends begins head last (by simpa using nodup) targets
  rwa [List.cons_append,List.cons_append,← List.append_assoc] at spliced

/-- A node is put in a place of a ring, or of one that lacks the node there. -/
theorem ring_place (before : (h :: ys).IsChain (Linked links)) (behind : (zs ++ [h]).IsChain (Linked links))
    (nodup : (h :: (ys ++ zs)).Nodup) (fresh : e ∉ h :: (ys ++ zs)) (ends : (h :: ys).getLast? = some p)
    (begins : (zs ++ [h]).head? = some n) : Ring ((links.join e n).join p e) h (ys ++ e :: zs) := by
  have source := ne_of_mem_of_not_mem (mem_before ends zs) fresh
  have target := ne_of_mem_of_not_mem (mem_behind begins ys) fresh
  have apart : ∀ a ∈ [e], a ∉ h :: (ys ++ zs) := fun a member => List.mem_singleton.mp member ▸ fresh
  have whole := nodup_splice nodup (List.nodup_singleton e) apart
  have placed := ring_splice before (List.isChain_singleton e) behind whole rfl rfl ends begins
  rw [join_comm links source.symm target]
  rwa [List.append_assoc] at placed

theorem frame_join {family : Family α} (source : ¬Elsewhere family heads a) (target : ¬Elsewhere family heads b)
    (elsewhere : Elsewhere family heads c) : Agree links (links.join a b) c := by
  apply agree_join
  · rintro rfl
    exact source elsewhere
  · rintro rfl
    exact target elsewhere

/-- A list takes the place of the head's, or is a new one, when its nodes are in no other list. -/
theorem Represents.put (represents : Represents links family) (ring : Ring links' h xs) (nodup : (h :: xs).Nodup)
    (own : ∀ a ∈ h :: xs, ¬Elsewhere family [h] a) (frame : ∀ a, Elsewhere family [h] a → Agree links links' a) :
    Represents links' (Function.update family h (some xs)) := by
  have put : ∀ k, ∀ ys ∈ Function.update family h (some xs) k, k = h ∧ ys = xs ∨ k ≠ h ∧ ys ∈ family k := by
    intro k ys inside
    by_cases same : k = h
    · subst same
      rw [Function.update_self] at inside
      exact .inl ⟨rfl,(Option.some.inj inside).symm⟩
    · rw [Function.update_of_ne same] at inside
      exact .inr ⟨same,inside⟩
  constructor
  · intro k ys inside
    rcases put k ys inside with ⟨rfl,rfl⟩ | ⟨other,older⟩
    · exact ring
    · exact (represents.ring k ys older).agree fun a member => frame a ⟨k,by simpa using other,ys,older,member⟩
  · intro k ys inside
    rcases put k ys inside with ⟨rfl,rfl⟩ | ⟨_,older⟩
    · exact nodup
    · exact represents.nodup k ys older
  · intro j k distinct ys first zs second a member there
    rcases put j ys first with ⟨rfl,rfl⟩ | ⟨other,older⟩ <;> rcases put k zs second with ⟨rfl,rfl⟩ | ⟨another,younger⟩
    · exact distinct rfl
    · exact own a member ⟨k,by simpa using another,zs,younger,there⟩
    · exact own a there ⟨j,by simpa using other,ys,older,member⟩
    · exact represents.apart j k distinct ys older zs younger a member there

theorem Represents.drop (represents : Represents links family) (h : α) : Represents links (Function.update family h none) := by
  have kept : ∀ k, ∀ ys ∈ Function.update family h none k, ys ∈ family k := by
    intro k ys inside
    by_cases same : k = h
    · simp [same] at inside
    · rwa [Function.update_of_ne same] at inside
  constructor
  · exact fun k ys inside => represents.ring k ys (kept k ys inside)
  · exact fun k ys inside => represents.nodup k ys (kept k ys inside)
  · intro j k distinct ys first zs second
    exact represents.apart j k distinct ys (kept j ys first) zs (kept k zs second)

theorem Represents.change (represents : Represents links family) (ring : Ring links' h xs) (nodup : (h :: xs).Nodup)
    (own : ∀ a ∈ h :: xs, ¬Elsewhere family [h] a) (frame : ∀ a, Elsewhere family [h] a → Agree links links' a) :
    Changes links links' family (Function.update family h (some xs)) [h] where
  represents := represents.put ring nodup own frame
  kept := fun _ unnamed => Function.update_of_ne (List.ne_of_not_mem_cons unnamed) ..
  others := frame

theorem Represents.changes (represents : Represents links family) (distinct : g ≠ h) (first : Ring links' g xs)
    (second : Ring links' h ys) (nodup : ((g :: xs) ++ (h :: ys)).Nodup)
    (own : ∀ a ∈ (g :: xs) ++ (h :: ys), ¬Elsewhere family [g,h] a)
    (frame : ∀ a, Elsewhere family [g,h] a → Agree links links' a) :
    Changes links links' family (Function.update (Function.update family g (some xs)) h (some ys)) [g,h] where
  represents := by
    have third : ∀ a, Elsewhere (Function.update family h none) [g] a → Elsewhere family [g,h] a := by
      rintro a ⟨k,other,zs,inside,member⟩
      by_cases same : k = h
      · simp [same] at inside
      · rw [Function.update_of_ne same] at inside
        exact ⟨k,by simpa [same] using other,zs,inside,member⟩
    have put := (represents.drop h).put first nodup.of_append_left
      (fun a member elsewhere => own a (List.mem_append_left _ member) (third a elsewhere))
      fun a elsewhere => frame a (third a elsewhere)
    have both := put.put second nodup.of_append_right ?_ fun a _ => Agree.refl links' a
    · rwa [Function.update_comm distinct.symm,Function.update_idem] at both
    · rintro a member ⟨k,other,zs,inside,there⟩
      rw [List.mem_singleton] at other
      by_cases same : k = g
      · subst same
        rw [Function.update_self] at inside
        cases inside
        exact (List.nodup_append.mp nodup).2.2 a there a member rfl
      · rw [Function.update_of_ne same,Function.update_of_ne other] at inside
        exact own a (List.mem_append_right _ member) ⟨k,by simp [same,other],zs,inside,there⟩
  kept := by
    intro k unnamed
    simp only [List.mem_cons,List.not_mem_nil,or_false,not_or] at unnamed
    rw [Function.update_of_ne unnamed.2,Function.update_of_ne unnamed.1]
  others := frame

/-- A node is put in a place of a list, or takes that of the node there. -/
theorem Represents.place (represents : Represents links family) (here : family h = some old) (fresh : Fresh family e)
    (before : (h :: ys).IsChain (Linked links)) (behind : (zs ++ [h]).IsChain (Linked links)) (parts : (ys ++ zs).Sublist old)
    (ends : (h :: ys).getLast? = some p) (begins : (zs ++ [h]).head? = some n) :
    Changes links ((links.join e n).join p e) family (Function.update family h (some (ys ++ e :: zs))) [h] := by
  have nodup := (represents.nodup h _ here).sublist (parts.cons_cons h)
  have absent : e ∉ h :: (ys ++ zs) := fun member => fresh h old here ((parts.cons_cons h).subset member)
  have own : ∀ a ∈ h :: (ys ++ zs), ¬Elsewhere family [h] a := fun a member =>
    represents.own here List.mem_cons_self ((parts.cons_cons h).subset member)
  have unlinked := fresh.own [h]
  have source := own p (mem_before ends zs)
  have target := own n (mem_behind begins ys)
  have split : ∀ a, a ∈ h :: (ys ++ e :: zs) ↔ a = e ∨ a ∈ h :: (ys ++ zs) := by
    intro a
    simp only [List.mem_cons,List.mem_append]
    tauto
  apply represents.change (ring_place before behind nodup absent ends begins)
  · exact (List.perm_middle.cons h).nodup_iff.mpr ((List.Perm.swap e h _).nodup_iff.mpr (List.nodup_cons.mpr ⟨absent,nodup⟩))
  · intro a member
    rcases (split a).mp member with rfl | inside
    · exact unlinked
    · exact own a inside
  · intro a elsewhere
    exact (frame_join unlinked target elsewhere).trans (frame_join source unlinked elsewhere)

theorem Represents.delete (represents : Represents links family) (here : family h = some (ys ++ e :: zs))
    (ends : (h :: ys).getLast? = some p) (begins : (zs ++ [h]).head? = some n) :
    Changes links (links.join p n) family (Function.update family h (some (ys ++ zs))) [h] := by
  have ring := represents.ring h _ here
  have fewer : (h :: (ys ++ zs)).Sublist (h :: (ys ++ e :: zs)) := ((List.sublist_cons_self e zs).append_left ys).cons_cons h
  have nodup := (represents.nodup h _ here).sublist fewer
  have own : ∀ a ∈ h :: (ys ++ zs), ¬Elsewhere family [h] a := fun a member =>
    represents.own here List.mem_cons_self (fewer.subset member)
  apply represents.change (ring_link ring.before ring.behind.tail nodup ends begins) nodup own
  intro a elsewhere
  exact frame_join (own p (mem_before ends zs)) (own n (mem_behind begins ys)) elsewhere

/-- A node that is no entry becomes the head of an empty list. -/
theorem Represents.init (represents : Represents links family) (free : ∀ k, ∀ xs ∈ family k, g ∉ xs) :
    Changes links (links.join g g) family (Function.update family g (some [])) [g] := by
  have own := own_of_free free (List.mem_singleton.mpr (Eq.refl g))
  apply represents.change (ring_empty links g) (List.nodup_singleton g)
  · intro a member
    exact List.mem_singleton.mp member ▸ own
  · intro a elsewhere
    exact frame_join own own elsewhere

/-- The first part of a list gets a head of its own, which is no entry of any list. -/
theorem Represents.cut (represents : Represents links family) (here : family h = some (ys ++ zs)) (distinct : g ≠ h)
    (free : ∀ k, ∀ xs ∈ family k, g ∉ xs) (head : ys.head? = some first) (last : ys.getLast? = some final)
    (begins : (zs ++ [h]).head? = some n) :
    Changes links (((links.join g first).join final g).join h n) family
      (Function.update (Function.update family g (some ys)) h (some zs)) [g,h] := by
  have ring := represents.ring h _ here
  have nodup := represents.nodup h _ here
  have first_inside := List.mem_of_head? head
  have final_inside := List.mem_of_getLast? last
  have own : ∀ a ∈ h :: (ys ++ zs), ¬Elsewhere family [g,h] a := fun a member => represents.own here (by simp) member
  have unlinked : ¬Elsewhere family [g,h] g := own_of_free free List.mem_cons_self
  have whole : ((g :: ys) ++ (h :: zs)).Nodup := by
    have absent := free h _ here
    rw [List.cons_append,List.nodup_cons]
    exact ⟨by simp at absent ⊢; tauto,List.perm_middle.nodup_iff.mpr nodup⟩
  have disjoint := (List.nodup_append.mp whole).2.2
  have target : n ∈ h :: zs := mem_behind begins []
  apply represents.changes distinct
  · have alone : ([] ++ [g]).IsChain (Linked links) := List.isChain_singleton g
    have spliced := ring_splice (List.isChain_singleton g) (List.IsChain.of_cons ring.before) alone
      (by simpa using whole.of_append_left) head last rfl rfl
    rw [List.nil_append,List.append_nil] at spliced
    exact spliced.join (fun member => disjoint h member h List.mem_cons_self rfl) fun member => disjoint n member n target rfl
  · have others : ∀ a ∈ g :: ys, a ∉ zs ++ [h] := by
      intro a member there
      exact disjoint a member a (by simp at there ⊢; tauto) rfl
    have kept := chain_apart ring.behind (others g List.mem_cons_self) (others first (List.mem_cons_of_mem g first_inside))
    have still := chain_apart kept (others final (List.mem_cons_of_mem g final_inside)) (others g List.mem_cons_self)
    exact ring_link (List.isChain_singleton h) still whole.of_append_right rfl begins
  · exact whole
  · intro a member
    by_cases new : a = g
    · exact new ▸ unlinked
    · exact own a (by simp at member ⊢; tauto)
  · intro a elsewhere
    have inside : ∀ b ∈ ys, ¬Elsewhere family [g,h] b := fun b member =>
      own b (List.mem_cons_of_mem h (List.mem_append_left zs member))
    exact (frame_join unlinked (inside first first_inside) elsewhere).trans
      ((frame_join (inside final final_inside) unlinked elsewhere).trans
        (frame_join (own h List.mem_cons_self) (own n (mem_behind begins ys)) elsewhere))

/-- All of a list is put in a place of another, and nothing is left in its own. -/
theorem Represents.splice (represents : Represents links family) (from_list : family g = some xs)
    (here : family h = some (ys ++ zs)) (distinct : g ≠ h) (head : xs.head? = some first) (last : xs.getLast? = some final)
    (ends : (h :: ys).getLast? = some p) (begins : (zs ++ [h]).head? = some n) :
    Changes links (((links.join p first).join final n).join g g) family
      (Function.update (Function.update family h (some (ys ++ xs ++ zs))) g (some [])) [h,g] := by
  have ring := represents.ring h _ here
  have inner := represents.nodup g _ from_list
  have apart := represents.apart g h distinct _ from_list _ here
  have whole := nodup_splice (represents.nodup h _ here) inner.of_cons fun a member => apart a (List.mem_cons_of_mem g member)
  have split : ∀ a, a ∈ h :: (ys ++ xs ++ zs) ↔ a ∈ xs ∨ a ∈ h :: (ys ++ zs) := by
    intro a
    simp only [List.mem_cons,List.mem_append]
    tauto
  have absent : g ∉ h :: (ys ++ xs ++ zs) := by
    rw [split,not_or]
    exact ⟨(List.nodup_cons.mp inner).1,apart g List.mem_cons_self⟩
  have own : ∀ a ∈ h :: (ys ++ zs), ¬Elsewhere family [h,g] a := fun a member => represents.own here (by simp) member
  have own_from : ∀ a ∈ g :: xs, ¬Elsewhere family [h,g] a := fun a member => represents.own from_list (by simp) member
  apply represents.changes (Ne.symm distinct)
  · have middle : xs.IsChain (Linked links) := (represents.ring g _ from_list).of_cons.left_of_append
    exact (ring_splice ring.before middle ring.behind whole head last ends begins).join absent absent
  · exact ring_empty _ g
  · exact whole.append (List.nodup_singleton g) (List.disjoint_singleton.mpr absent)
  · intro a member
    rcases List.mem_append.mp member with inside | last
    · rcases (split a).mp inside with moved | stayed
      · exact own_from a (List.mem_cons_of_mem g moved)
      · exact own a stayed
    · exact List.mem_singleton.mp last ▸ own_from g List.mem_cons_self
  · intro a elsewhere
    have first_own := own_from first (List.mem_cons_of_mem g (List.mem_of_head? head))
    have final_own := own_from final (List.mem_cons_of_mem g (List.mem_of_getLast? last))
    exact (frame_join (own p (mem_before ends zs)) first_own elsewhere).trans
      ((frame_join final_own (own n (mem_behind begins ys)) elsewhere).trans
        (frame_join (own_from g List.mem_cons_self) (own_from g List.mem_cons_self) elsewhere))

end Join

end Muti.Rings
