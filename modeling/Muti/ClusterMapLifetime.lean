import Muti.Memory
import Muti.Transition

/-! The lifetime of the shared cluster map. Whoever gets the map has a reference until it
puts the map back, and whoever gives the last reference back releases the contents before
it clears the pointer under the lock; getting counts under the lock only. -/
namespace Muti.ClusterMapLifetime

open Muti.Memory Muti.Transition

/-- What a thread has left to do, in the order of the source; `got` tells that a call of
`clusterMapGetObjectServiceMap` has found the map. -/
inductive Op where
  | rdlock
  | readMap
  | refer
  | rdunlock (got : Bool)
  | unrefer
  | freeOSMap
  | wrlock
  | clear
  | wrunlock
  | free
  | destroy
  | waitCleared
  deriving DecidableEq, Repr

/-- `os_map` tells whether the pointer is set. `released` counts how often the contents were
released, `freed` tells that the map itself was; `held` counts the maps returned and not
given to a put yet. -/
structure State where
  os_map : Bool
  reference : Int32
  readers : Nat
  writer : Bool
  released : Nat
  freed : Bool
  held : Nat
  destroying : Bool
  destroyed : Bool
  threads : List (List Op)
  fault : Option Fault
  deriving DecidableEq, Repr

def initClusterMap : State where
  os_map := true
  reference := 1
  readers := 0
  writer := false
  released := 0
  freed := false
  held := 0
  destroying := false
  destroyed := false
  threads := []
  fault := none

def touch (s : State) (result : State × List Op) : State × List Op :=
  if s.freed then ({ s with fault := some .useAfterFree },[]) else result

def exec (s : State) : Op → Option (State × List Op)
  | .rdlock => if s.writer then none else some ({ s with readers := s.readers + 1 },[.readMap])
  | .readMap => some (s,if s.os_map then [.refer] else [.rdunlock false])
  | .refer => some (touch s ({ s with reference := s.reference + 1 },[.rdunlock true]))
  | .rdunlock got => some ({ s with readers := s.readers - 1, held := if got then s.held + 1 else s.held },[])
  | .unrefer =>
    let left := s.reference - 1
    some (touch s ({ s with reference := left },if left = 0 then [.freeOSMap] else []))
  | .freeOSMap => some (touch s ({ s with released := s.released + 1 },[.wrlock]))
  | .wrlock => if s.writer ∨ s.readers ≠ 0 then none else some ({ s with writer := true },[.clear])
  | .clear => some ({ s with os_map := false },[.wrunlock])
  | .wrunlock => some ({ s with writer := false },[.free])
  | .free => some (touch s ({ s with freed := true },[]))
  | .destroy => some (if s.os_map then (s,[.unrefer,.waitCleared]) else ({ s with fault := some .nullPointer },[]))
  | .waitCleared => if s.os_map then none else some ({ s with destroyed := true },[])

/-- A call of `clusterMapGetObjectServiceMap`, of `clusterMapPutObjectServiceMap` for a map
got before, the call of `clusterMapDestroy`, or a thread's next operation. -/
inductive Action where
  | get
  | put
  | destroy
  | run (thread : Nat)
  deriving DecidableEq, Repr

def spawn (s : State) (op : Op) : State := { s with threads := s.threads ++ [[op]] }

def step (s : State) (a : Action) : Option State :=
  if s.fault ≠ none then none
  else match a with
    | .get => some (spawn s .rdlock)
    | .put => if 0 < s.held then some (spawn { s with held := s.held - 1 } .unrefer) else none
    | .destroy => if s.destroying then none else some (spawn { s with destroying := true } .destroy)
    | .run thread =>
      match s.threads[thread]? with
      | some (op :: rest) =>
        (exec s op).map fun done => { done.1 with threads := s.threads.set thread (done.2 ++ rest) }
      | _ => none

@[simp] def referring : Op → Nat
  | .rdunlock got => if got then 1 else 0
  | .unrefer | .destroy => 1
  | _ => 0

@[simp] def freeing : Op → Nat
  | .freeOSMap => 1
  | _ => 0

@[simp] def clearing : Op → Nat
  | .wrlock | .clear | .wrunlock | .free => 1
  | _ => 0

/-- The references: of those who got the map, of calls at work, and that of the map's owner. -/
def State.references (s : State) : Nat :=
  s.held + total referring s.threads + (!s.destroying).toNat

/-- A get counts after the last put has brought the count to zero, or brings the count of
32 bits around to zero. -/
def Revives (s : State) : Op → Prop
  | .refer => s.reference = 0 ∨ s.reference = -1
  | _ => False

def Timely (s : State) : Action → Prop
  | .run thread => ∀ ops ∈ s.threads[thread]?, ∀ op ∈ ops.head?, ¬Revives s op
  | _ => True

structure Inv (s : State) : Prop where
  running : s.fault = none
  counted : s.reference = Int32.ofNat s.references
  small : s.references < 2 ^ 32
  last : s.released + total freeing s.threads = if s.references = 0 then 1 else 0
  cleared : s.freed.toNat + total clearing s.threads = s.released
  pointed : s.os_map = false → s.released = 1
  ended : s.destroyed = true → s.os_map = false

theorem initClusterMap_inv : Inv initClusterMap where
  running := rfl
  counted := rfl
  small := by decide
  last := rfl
  cleared := rfl
  pointed := nofun
  ended := nofun

theorem touch_unfreed (unfreed : s.freed = false) (result : State × List Op) : touch s result = result := by
  simp [touch,unfreed]

theorem ofNat_zero (small : n < 2 ^ 32) : Int32.ofNat n = 0 ↔ n = 0 := by
  rw [← Int32.toBitVec_inj]
  simp [← BitVec.toNat_inj]
  omega

theorem ofNat_last (small : n < 2 ^ 32) : Int32.ofNat n = -1 ↔ n + 1 = 2 ^ 32 := by
  rw [← Int32.toBitVec_inj]
  simp [← BitVec.toNat_inj]
  omega

theorem ofNat_pred (some : 0 < n) : Int32.ofNat n - 1 = Int32.ofNat (n - 1) := by
  obtain ⟨m,rfl⟩ : ∃ m, n = m + 1 := ⟨n - 1,by omega⟩
  simp [Int32.ofNat_add]

/-- While anyone has a reference, the contents are there. -/
theorem Inv.alive (inv : Inv s) (some : 0 < s.references) :
    s.released = 0 ∧ total freeing s.threads = 0 ∧ s.freed = false ∧ s.os_map = true := by
  have last := inv.last
  have cleared := inv.cleared
  rw [if_neg (by omega)] at last
  refine ⟨by omega,by omega,?_,?_⟩
  · cases freed : s.freed with
    | false => rfl
    | true =>
      simp [freed] at cleared
      omega
  · cases pointer : s.os_map with
    | true => rfl
    | false =>
      have released := inv.pointed pointer
      omega

theorem referred {s : State} {i : Nat} (here : s.threads[i]? = some (op :: rest)) (refers : referring op = 1) :
    0 < s.references := by
  have mine := weight_le_total referring here
  simp only [State.references]
  omega

/-- Once the contents are released, nobody has a reference, and nobody will release them again. -/
theorem Inv.done (inv : Inv s) (released : 0 < s.released) :
    s.references = 0 ∧ s.released = 1 ∧ total freeing s.threads = 0 := by
  have last := inv.last
  by_cases none : s.references = 0
  · rw [if_pos none] at last
    omega
  · rw [if_neg none] at last
    omega

theorem Inv.same {s s' : State} {i : Nat} (inv : Inv s) (here : s.threads[i]? = some (op :: rest)) (running : s'.fault = none)
    (reference : s'.reference = s.reference) (destroying : s'.destroying = s.destroying)
    (held : s'.held + (ops.map referring).sum = s.held + referring op)
    (released : s'.released + (ops.map freeing).sum = s.released + freeing op)
    (cleared : s'.freed.toNat + (ops.map clearing).sum + s.released = s.freed.toNat + clearing op + s'.released)
    (pointed : s'.os_map = false → s'.released = 1) (ended : s'.destroyed = true → s'.os_map = false) :
    Inv { s' with threads := s.threads.set i (ops ++ rest) } := by
  have refers := total_advance referring here ops
  have frees := total_advance freeing here ops
  have clears := total_advance clearing here ops
  have same : State.references { s' with threads := s.threads.set i (ops ++ rest) } = s.references := by
    simp only [State.references,destroying]
    omega
  refine ⟨running,?_,?_,?_,?_,pointed,ended⟩
  · rw [same]
    exact reference.trans inv.counted
  · rw [same]
    exact inv.small
  · have last := inv.last
    rw [same]
    simp only
    omega
  · have before := inv.cleared
    simp only
    omega

theorem Inv.more {i : Nat} (inv : Inv s) (here : s.threads[i]? = some (.refer :: rest)) (alive : s.references ≠ 0)
    (room : s.references + 1 < 2 ^ 32) :
    Inv { s with reference := s.reference + 1, threads := s.threads.set i ([.rdunlock true] ++ rest) } := by
  have refers := total_advance referring here [.rdunlock true]
  have frees := total_advance freeing here [.rdunlock true]
  have clears := total_advance clearing here [.rdunlock true]
  have last := inv.last
  have cleared := inv.cleared
  simp at refers frees clears
  have more : State.references { s with reference := s.reference + 1, threads := s.threads.set i ([.rdunlock true] ++ rest) } =
      s.references + 1 := by
    simp only [State.references]
    simp
    omega
  refine ⟨inv.running,?_,?_,?_,?_,inv.pointed,inv.ended⟩
  · rw [more,Int32.ofNat_add,← inv.counted]
    rfl
  · rw [more]
    exact room
  · rw [more,if_neg (by omega)]
    rw [if_neg alive] at last
    simp
    omega
  · simp
    omega

/-- One reference less; the last one leaves the contents to be released. -/
theorem Inv.fewer {i : Nat} (inv : Inv s) (here : s.threads[i]? = some (.unrefer :: rest)) (some : 0 < s.references) :
    Inv { s with
      reference := s.reference - 1
      threads := s.threads.set i ((if s.reference - 1 = 0 then [.freeOSMap] else []) ++ rest) } := by
  have left : s.reference - 1 = Int32.ofNat (s.references - 1) := by
    rw [inv.counted,ofNat_pred some]
  have small := inv.small
  have zero := ofNat_zero (n := s.references - 1) (by omega)
  have last := inv.last
  have cleared := inv.cleared
  rw [if_neg (by omega)] at last
  generalize given : (if s.reference - 1 = 0 then [Op.freeOSMap] else []) = ops
  have refers := total_advance referring here ops
  have frees := total_advance freeing here ops
  have clears := total_advance clearing here ops
  have sums : (ops.map referring).sum = 0 ∧ (ops.map clearing).sum = 0 ∧
      (ops.map freeing).sum = if s.references - 1 = 0 then 1 else 0 := by
    simp only [left,zero] at given
    subst given
    split <;> simp
  obtain ⟨unreferring,unclearing,frees'⟩ := sums
  simp only [referring,freeing,clearing] at refers frees clears
  have fewer : State.references { s with reference := s.reference - 1, threads := s.threads.set i (ops ++ rest) } =
      s.references - 1 := by
    simp only [State.references]
    omega
  refine ⟨inv.running,?_,?_,?_,?_,inv.pointed,inv.ended⟩
  · rw [fewer]
    exact left
  · rw [fewer]
    omega
  · rw [fewer]
    simp only
    omega
  · simp only
    omega

theorem Inv.released (inv : Inv s) (clears : 0 < total clearing s.threads) : s.released = 1 := by
  have cleared := inv.cleared
  exact (inv.done (by omega)).2.1

/-- Every operation keeps it, but a get that revives the map. -/
theorem exec_inv {i : Nat} (inv : Inv s) (here : s.threads[i]? = some (op :: rest)) (timely : ¬Revives s op)
    (done : exec s op = some (s',ops)) : Inv { s' with threads := s.threads.set i (ops ++ rest) } := by
  have running := inv.running
  have pointed := inv.pointed
  have ended := inv.ended
  have clears := weight_le_total clearing here
  have cleared := inv.cleared
  cases op with
  | rdlock =>
    simp only [exec,Option.ite_none_left_eq_some] at done
    obtain ⟨_,done⟩ := done
    cases done
    exact inv.same here running rfl rfl rfl rfl rfl pointed ended
  | readMap =>
    cases pointer : s.os_map with
    | true =>
      simp [exec,pointer] at done
      obtain ⟨rfl,rfl⟩ := done
      exact inv.same here running rfl rfl rfl rfl rfl pointed ended
    | false =>
      simp [exec,pointer] at done
      obtain ⟨rfl,rfl⟩ := done
      exact inv.same here running rfl rfl rfl rfl rfl pointed ended
  | rdunlock got =>
    cases got with
    | true =>
      cases done
      exact inv.same here running rfl rfl rfl rfl rfl pointed ended
    | false =>
      cases done
      exact inv.same here running rfl rfl rfl rfl rfl pointed ended
  | refer =>
    have alive : s.references ≠ 0 := by
      intro none
      exact timely (.inl (inv.counted.trans ((ofNat_zero inv.small).mpr none)))
    have room : s.references + 1 ≠ 2 ^ 32 := by
      intro all
      exact timely (.inr (inv.counted.trans ((ofNat_last inv.small).mpr all)))
    have small := inv.small
    obtain ⟨unreleased,_,unfreed,_⟩ := inv.alive (Nat.pos_of_ne_zero alive)
    simp only [exec,touch_unfreed unfreed] at done
    cases done
    exact inv.more here alive (by omega)
  | unrefer =>
    have some := referred here rfl
    obtain ⟨unreleased,unfreeing,unfreed,pointer⟩ := inv.alive some
    have left : s.reference - 1 = Int32.ofNat (s.references - 1) := by
      rw [inv.counted,ofNat_pred some]
    simp only [exec,touch_unfreed unfreed] at done
    cases done
    exact inv.fewer here some
  | freeOSMap =>
    have mine := weight_le_total freeing here
    have none : s.references = 0 := by
      by_contra some
      obtain ⟨_,unfreeing,_,_⟩ := inv.alive (Nat.pos_of_ne_zero some)
      simp [unfreeing] at mine
    have last := inv.last
    simp [none] at last mine
    have unfreed : s.freed = false := by
      cases freed : s.freed with
      | false => rfl
      | true =>
        simp [freed] at cleared
        omega
    simp only [exec,touch_unfreed unfreed] at done
    cases done
    refine inv.same here running rfl rfl rfl rfl ?_ ?_ ended
    · simp
      omega
    · intro pointer
      have released := pointed pointer
      omega
  | wrlock =>
    simp only [exec,Option.ite_none_left_eq_some] at done
    obtain ⟨_,done⟩ := done
    cases done
    exact inv.same here running rfl rfl rfl rfl rfl pointed ended
  | clear =>
    have released := inv.released (by simp at clears; omega)
    cases done
    exact inv.same here running rfl rfl rfl rfl rfl (fun _ => released) (fun _ => rfl)
  | wrunlock =>
    cases done
    exact inv.same here running rfl rfl rfl rfl rfl pointed ended
  | free =>
    have released := inv.released (by simp at clears; omega)
    have unfreed : s.freed = false := by
      cases freed : s.freed with
      | false => rfl
      | true =>
        simp [freed] at cleared clears
        omega
    simp only [exec,touch_unfreed unfreed] at done
    cases done
    refine inv.same here running rfl rfl rfl rfl ?_ pointed ended
    simp [unfreed]
  | destroy =>
    obtain ⟨_,_,_,pointer⟩ := inv.alive (referred here rfl)
    simp [exec,pointer] at done
    obtain ⟨rfl,rfl⟩ := done
    exact inv.same here running rfl rfl rfl rfl rfl pointed ended
  | waitCleared =>
    simp only [exec,Option.ite_none_left_eq_some] at done
    obtain ⟨waits,done⟩ := done
    cases done
    exact inv.same here running rfl rfl rfl rfl rfl pointed (fun _ => by simpa using waits)

theorem spawn_inv (inv : Inv s) (op : Op) (held : Nat) (destroying : Bool) (quiet : freeing op = 0 ∧ clearing op = 0)
    (references : held + referring op + (!destroying).toNat = s.held + (!s.destroying).toNat) :
    Inv (spawn { s with held, destroying } op) := by
  have refers := total_spawn referring s.threads op
  have frees := total_spawn freeing s.threads op
  have clears := total_spawn clearing s.threads op
  have same : (spawn { s with held, destroying } op).references = s.references := by
    simp only [State.references,spawn]
    omega
  refine ⟨inv.running,?_,?_,?_,?_,inv.pointed,inv.ended⟩
  · rw [same]
    exact inv.counted
  · rw [same]
    exact inv.small
  · have last := inv.last
    rw [same]
    simp only [spawn]
    omega
  · have before := inv.cleared
    simp only [spawn]
    omega

theorem step_inv (inv : Inv s) (timely : Timely s a) (taken : step s a = some s') : Inv s' := by
  have running : ¬s.fault ≠ none := not_not.mpr inv.running
  cases a with
  | get =>
    simp only [step,if_neg running,Option.some.injEq] at taken
    subst taken
    exact spawn_inv inv .rdlock s.held s.destroying ⟨rfl,rfl⟩ rfl
  | put =>
    simp only [step,if_neg running,Option.ite_none_right_eq_some,Option.some.injEq] at taken
    obtain ⟨some,rfl⟩ := taken
    refine spawn_inv inv .unrefer (s.held - 1) s.destroying ⟨rfl,rfl⟩ ?_
    simp only [referring]
    omega
  | destroy =>
    simp only [step,if_neg running,Option.ite_none_left_eq_some,Option.some.injEq] at taken
    obtain ⟨first,rfl⟩ := taken
    exact spawn_inv inv .destroy s.held true ⟨rfl,rfl⟩ (by simp [first])
  | run thread =>
    rcases here : s.threads[thread]? with _ | _ | ⟨op,rest⟩
    · simp [step,running,here] at taken
    · simp [step,running,here] at taken
    · simp only [step,if_neg running,here,Option.map_eq_some_iff] at taken
      obtain ⟨⟨s1,ops⟩,done,rfl⟩ := taken
      exact exec_inv inv here (timely _ here _ rfl) done

@[simp] def getting : Op → Nat
  | .rdunlock got => if got then 1 else 0
  | _ => 0

theorem getting_le (op : Op) : getting op ≤ referring op := by
  cases op <;> simp

/-- As long as no get revives the map: its contents are released once at most, and never
while a get has the map or is about to return it; and once when the destruction returns. -/
theorem shared_map_lifetime (reachable : Reachable step Timely initClusterMap s) :
    s.fault = none ∧ s.released ≤ 1 ∧
    (0 < s.released → s.held = 0 ∧ total getting s.threads = 0) ∧ (s.destroyed = true → s.released = 1) := by
  have inv := reachable.invariant initClusterMap_inv fun _ _ _ inv timely taken => step_inv inv timely taken
  refine ⟨inv.running,?_,?_,?_⟩
  · by_cases unreleased : s.released = 0
    · omega
    · obtain ⟨_,once,_⟩ := inv.done (Nat.pos_of_ne_zero unreleased)
      omega
  · intro released
    obtain ⟨none,_,_⟩ := inv.done released
    have fewer := total_mono getting_le s.threads
    simp only [State.references] at none
    omega
  · intro destroyed
    exact inv.pointed (inv.ended destroyed)

def putLast : List Action :=
  [.get,.run 0,.run 0,.run 0,.run 0,.destroy,.run 1,.run 1,.put,.run 2,.run 2,.run 2,.run 2,.run 2,.run 2,.run 1]

instance (s : State) : (op : Op) → Decidable (Revives s op)
  | .refer => inferInstanceAs (Decidable (s.reference = 0 ∨ s.reference = -1))
  | .rdlock | .readMap | .rdunlock _ | .unrefer | .freeOSMap | .wrlock | .clear | .wrunlock | .free | .destroy
  | .waitCleared => inferInstanceAs (Decidable False)

instance (s : State) : (a : Action) → Decidable (Timely s a)
  | .run thread => inferInstanceAs (Decidable (∀ ops ∈ s.threads[thread]?, ∀ op ∈ ops.head?, ¬Revives s op))
  | .get | .put | .destroy => inferInstanceAs (Decidable True)

theorem shared_map_lifetime_put_last :
    ∃ s, execute step initClusterMap putLast = some s ∧ s.destroyed = true ∧ s.released = 1 := by
  have timely : Permitted step Timely initClusterMap putLast := by decide +kernel
  have reachable := Reachable.start.execute putLast timely rfl
  exact ⟨_,rfl,rfl,(shared_map_lifetime reachable).2.2.2 rfl⟩

/-- The destruction gives the last reference back and releases the contents; a get that comes
before the pointer is cleared has the map, and its put releases the contents again. -/
def revived : List Action :=
  [.destroy,.run 0,.run 0,.run 0,.get,.run 1,.run 1,.run 1,.run 1]

theorem released_map_returned :
    ∃ s s', Reachable step (fun _ _ => True) initClusterMap s ∧ s.released = 1 ∧ s.held = 1 ∧
      execute step s [.put,.run 2,.run 2] = some s' ∧ s'.released = 2 := by
  exact ⟨_,_,Reachable.start.run revived rfl,rfl,rfl,rfl,rfl⟩

end Muti.ClusterMapLifetime
