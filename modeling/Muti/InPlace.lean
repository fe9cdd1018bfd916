import Muti.Framing

/-! Parsing in place. A parser knows where its unread bytes lie and may write to them, and what
it leaves there is what it finds at its next look. Draining ends when every item takes some
bytes, and hands out what a parser does that only reads wherever the two of them agree. -/
namespace Muti.InPlace

open Muti.Framing

structure Window (β : Type) where
  address : UInt64
  bytes : List β
  deriving DecidableEq, Repr

/-- The bytes behind the first `size` of those that were left in a window. -/
def Window.past (w : Window β) (size : Nat) (left : List β) : Window β :=
  ⟨w.address + UInt64.ofNat size,left.drop size⟩

structure Parser (σ β α ε : Type) where
  look : σ → Window β → List β × Next σ α ε
  sized : ∀ s w, (look s w).1.length = w.bytes.length

def drain (next : Parser σ β α ε) : Nat → σ → Window β → List α × Ending σ β ε
  | 0, _, _ => ([],.unfinished)
  | fuel + 1, s, w => match next.look s w with
    | (left,.more s') => ([],.starved s' left)
    | (left,.item a size s') =>
      let rest := drain next fuel s' (w.past size left)
      (a :: rest.1,rest.2)
    | (left,.stop s') => ([],.stopped s' left)
    | (_,.fault reason) => ([],.faulted reason)

def looks (next : Parser σ β α ε) : Nat → σ → Window β → List (σ × Window β)
  | 0, _, _ => []
  | fuel + 1, s, w => (s,w) :: match next.look s w with
    | (left,.item _ size s') => looks next fuel s' (w.past size left)
    | _ => []

inductive Reaches (next : Parser σ β α ε) : σ → Window β → σ → Window β → Prop
  | here : Reaches next s w s w
  | item (look : next.look s w = (left,.item a size s1)) (rest : Reaches next s1 (w.past size left) s' w') :
    Reaches next s w s' w'

def Throughout (next : Parser σ β α ε) (good : σ → Window β → Prop) (s : σ) (w : Window β) : Prop :=
  ∀ s' w', Reaches next s w s' w' → good s' w'

/-- Every item takes at least `least` bytes, and no more than there are, wherever the
predicate allows it; and that is allowed again. -/
structure Progress (next : Parser σ β α ε) (allowed : σ → Window β → Prop) (least : Nat) : Prop where
  positive : 0 < least
  bounds : ∀ s w left a size s', allowed s w → next.look s w = (left,.item a size s') →
    least ≤ size ∧ size ≤ w.bytes.length
  stays : ∀ s w left a size s', allowed s w → next.look s w = (left,.item a size s') → allowed s' (w.past size left)

theorem look_length {next : Parser σ β α ε} (look : next.look s w = (left,found)) : left.length = w.bytes.length := by
  have sized := next.sized s w
  rwa [look] at sized

theorem past_length (w : Window β) (size : Nat) (left : List β) : (w.past size left).bytes.length = left.length - size :=
  List.length_drop

theorem progress_throughout {next : Parser σ β α ε} {good : σ → Window β → Prop} (positive : 0 < least)
    (bounds : ∀ s w left a size s', good s w → next.look s w = (left,.item a size s') →
      least ≤ size ∧ size ≤ w.bytes.length) : Progress next (Throughout next good) least where
  positive := positive
  bounds := by
    intro s w left a size s' always look
    exact bounds s w left a size s' (always s w .here) look
  stays := by
    intro s w left a size s' always look s2 w2 onward
    exact always s2 w2 (.item look onward)

/-- What every item preserves holds wherever draining gets to. -/
theorem throughout_of_kept {next : Parser σ β α ε} {good : σ → Window β → Prop}
    (kept : ∀ s w left a size s', good s w → next.look s w = (left,.item a size s') → good s' (w.past size left))
    (start : good s w) : Throughout next good s w := by
  intro s' w' reached
  induction reached with
  | here => exact start
  | item look _ ih => exact ih (kept _ _ _ _ _ _ start look)

theorem throughout_congr {next : Parser σ β α ε} {kept good other : σ → Window β → Prop}
    (always : Throughout next kept s w) (same : ∀ s w, kept s w → (good s w ↔ other s w)) :
    Throughout next good s w ↔ Throughout next other s w := by
  constructor
  · intro holds s' w' reached
    exact (same s' w' (always s' w' reached)).mp (holds s' w' reached)
  · intro holds s' w' reached
    exact (same s' w' (always s' w' reached)).mpr (holds s' w' reached)

/-- A drain starves where it looks and is told to ask for more. -/
theorem drain_starved_iff {next : Parser σ β α ε} (fuel : Nat) : (drain next fuel s w).2 = .starved s' rest ↔
    ∃ s1 w1, (s1,w1) ∈ looks next fuel s w ∧ next.look s1 w1 = (rest,.more s') := by
  induction fuel generalizing s w with
  | zero => simp [drain,looks]
  | succ fuel ih =>
    rcases look : next.look s w with ⟨left,found⟩
    cases found with
    | item a size s2 =>
      simp only [drain,looks,look,ih,List.mem_cons,Prod.mk.injEq]
      constructor
      · rintro ⟨s1,w1,later,more⟩
        exact ⟨s1,w1,.inr later,more⟩
      · rintro ⟨s1,w1,⟨rfl,rfl⟩ | later,more⟩
        · cases look.symm.trans more
        · exact ⟨s1,w1,later,more⟩
    | more s2 =>
      simp only [drain,looks,look,List.mem_singleton,Prod.mk.injEq,Ending.starved.injEq]
      constructor
      · rintro ⟨rfl,rfl⟩
        exact ⟨s,w,⟨rfl,rfl⟩,look⟩
      · rintro ⟨s1,w1,⟨rfl,rfl⟩,more⟩
        cases look.symm.trans more
        exact ⟨rfl,rfl⟩
    | stop s2 =>
      simp only [drain,looks,look,List.mem_singleton,Prod.mk.injEq,reduceCtorEq,false_iff,not_exists,not_and]
      rintro s1 w1 ⟨rfl,rfl⟩ more
      cases look.symm.trans more
    | fault reason =>
      simp only [drain,looks,look,List.mem_singleton,Prod.mk.injEq,reduceCtorEq,false_iff,not_exists,not_and]
      rintro s1 w1 ⟨rfl,rfl⟩ more
      cases look.symm.trans more

/-- A drain only drops bytes. -/
theorem looks_length {next : Parser σ β α ε} (fuel : Nat) (looked : (s1,w1) ∈ looks next fuel s w) :
    w1.bytes.length ≤ w.bytes.length := by
  induction fuel generalizing s w with
  | zero => simp [looks] at looked
  | succ fuel ih =>
    rcases List.mem_cons.mp looked with here | later
    · cases here
      exact Nat.le_refl _
    · rcases look : next.look s w with ⟨left,found⟩
      cases found with
      | item a size s2 =>
        simp only [look] at later
        have shorter := ih later
        rw [past_length,look_length look] at shorter
        omega
      | more s2 => simp [look] at later
      | stop s2 => simp [look] at later
      | fault reason => simp [look] at later

theorem drain_items {next : Parser σ β α ε} {good : σ → Window β → Prop} {kept : α → Prop}
    (each : ∀ s w left a size s', good s w → next.look s w = (left,.item a size s') → kept a) (fuel : Nat)
    (always : Throughout next good s w) : ∀ a ∈ (drain next fuel s w).1, kept a := by
  induction fuel generalizing s w with
  | zero => simp [drain]
  | succ fuel ih =>
    rcases look : next.look s w with ⟨left,found⟩
    cases found with
    | more s' => simp [drain,look]
    | stop s' => simp [drain,look]
    | fault reason => simp [drain,look]
    | item a size s' =>
      simp only [drain,look,List.mem_cons]
      rintro b (rfl | later)
      · exact each s w left b size s' (always s w .here) look
      · exact ih (fun s2 w2 onward => always s2 w2 (.item look onward)) b later

/-- With progress a drain ends, and takes at most one item per `least` bytes. -/
theorem drain_ends {next : Parser σ β α ε} (progress : Progress next allowed least) (fuel : Nat)
    (start : allowed s w) (enough : w.bytes.length < fuel) :
    (drain next fuel s w).2 ≠ .unfinished ∧ (drain next fuel s w).1.length * least ≤ w.bytes.length := by
  induction fuel generalizing s w with
  | zero => omega
  | succ fuel ih =>
    rcases look : next.look s w with ⟨left,found⟩
    cases found with
    | more s' => simp [drain,look]
    | stop s' => simp [drain,look]
    | fault reason => simp [drain,look]
    | item a size s' =>
      obtain ⟨lower,upper⟩ := progress.bounds s w left a size s' start look
      have positive := progress.positive
      have shorter : (w.past size left).bytes.length = w.bytes.length - size := by rw [past_length,look_length look]
      obtain ⟨ends,count⟩ := ih (progress.stays s w left a size s' start look) (by omega)
      simp only [drain,look,List.length_cons,Nat.add_mul]
      exact ⟨ends,by omega⟩

/-- A look finds what a plain one finds in the same bytes, and behind an item, or where more is
asked for, it leaves them as they are. -/
inductive Agrees (state : σ → τ → Prop) (item : α → γ → Prop) (bytes : List β) :
    List β × Next σ α ε → Next τ γ ε → Prop
  | more (states : state s t) : Agrees state item bytes (bytes,.more s) (.more t)
  | item (states : state s t) (items : item a c) (behind : left.drop size = bytes.drop size) :
    Agrees state item bytes (left,.item a size s) (.item c size t)
  | stop (states : state s t) : Agrees state item bytes (left,.stop s) (.stop t)
  | fault : Agrees state item bytes (left,.fault reason) (.fault reason)

inductive EndsAs (state : σ → τ → Prop) : Ending σ β ε → Ending τ β ε → Prop
  | starved (states : state s t) : EndsAs state (.starved s rest) (.starved t rest)
  | stopped (states : state s t) : EndsAs state (.stopped s rest) (.stopped t rest')
  | faulted : EndsAs state (.faulted reason) (.faulted reason)
  | unfinished : EndsAs state .unfinished .unfinished

/-- Where looks in place agree with plain ones, so do the drains. -/
theorem drain_agrees {next : Parser σ β α ε} {plain : Framing.Parser τ β γ ε} {state : σ → τ → Prop} {item : α → γ → Prop}
    {good : σ → Window β → Prop}
    (each : ∀ s w t, state s t → good s w → Agrees state item w.bytes (next.look s w) (plain t w.bytes)) (fuel : Nat)
    (start : state s t) (always : Throughout next good s w) :
    List.Forall₂ item (drain next fuel s w).1 (Framing.drain plain fuel t w.bytes).1 ∧
      EndsAs state (drain next fuel s w).2 (Framing.drain plain fuel t w.bytes).2 := by
  induction fuel generalizing s t w with
  | zero => exact ⟨.nil,.unfinished⟩
  | succ fuel ih =>
    have here := each s w t start (always s w .here)
    rcases look : next.look s w with ⟨left,found⟩
    cases plainly : plain t w.bytes with
    | more t' =>
      rw [look,plainly] at here
      cases here with
      | more states =>
        simp only [drain,Framing.drain,look,plainly]
        exact ⟨.nil,.starved states⟩
    | item c size t' =>
      rw [look,plainly] at here
      cases here with
      | item states items behind =>
        have onward := ih states (w := w.past size left) fun s2 w2 reached => always s2 w2 (.item look reached)
        simp only [Window.past,behind] at onward
        simp only [drain,Framing.drain,look,plainly,Window.past,behind]
        exact ⟨.cons items onward.1,onward.2⟩
    | stop t' =>
      rw [look,plainly] at here
      cases here with
      | stop states =>
        simp only [drain,Framing.drain,look,plainly]
        exact ⟨.nil,.stopped states⟩
    | fault reason =>
      rw [look,plainly] at here
      cases here
      simp only [drain,Framing.drain,look,plainly]
      exact ⟨.nil,.faulted⟩

end Muti.InPlace
