import Muti.Bytes
import Muti.Lists

/-! Sequential readers over a counted buffer. A reader keeps the count of the bytes it
asked for and compares it with the buffer length before it touches them, so running
out of bytes is a distinct result. `Exact` says that a reader accepts one byte string,
whatever follows it, and finds every proper prefix of it too short. -/
namespace Muti.Reader

/-- The bytes at the read position, and how many have been asked for. -/
structure Cursor (β : Type) where
  rest : List β
  len : Nat
  deriving DecidableEq, Repr

inductive Stop (ε : Type) where
  | short
  | fault (reason : ε)
  deriving DecidableEq, Repr

end Muti.Reader

namespace Muti

def Reader (β ε α : Type) : Type :=
  Nat → Reader.Cursor β → Except (Reader.Stop ε) (α × Reader.Cursor β)

namespace Reader

instance : Monad (Reader β ε) where
  pure a := fun _ c => .ok (a,c)
  bind r f := fun buf_len c => match r buf_len c with
    | .ok (a,c') => f a buf_len c'
    | .error stop => .error stop

theorem pure_run (a : α) (buf_len : Nat) (c : Cursor β) : (pure a : Reader β ε α) buf_len c = .ok (a,c) := rfl

theorem bind_run (r : Reader β ε α) (f : α → Reader β ε γ) (buf_len : Nat) (c : Cursor β) :
    (r >>= f) buf_len c = match r buf_len c with
      | .ok (a,c') => f a buf_len c'
      | .error stop => .error stop := rfl

/-- Count `k` more bytes, stop when the count passes the buffer, hand them out otherwise. -/
def bytes (k : Nat) : Reader β ε (List β) := fun buf_len c =>
  if buf_len < c.len + k then .error .short
  else .ok (c.rest.take k,⟨c.rest.drop k,c.len + k⟩)

/-- A step outside the buffer, which may fault. -/
def lift (result : Except ε α) : Reader β ε α := fun _ c =>
  match result with
  | .ok a => .ok (a,c)
  | .error reason => .error (.fault reason)

def times (r : Reader β ε α) : Nat → Reader β ε (List α)
  | 0 => pure []
  | n + 1 => do
    let a ← r
    let others ← times r n
    pure (a :: others)

/-- How a loop of readers over a state ends: after the last turn, or at the bytes' end
with the state reached so far. -/
inductive Outcome (σ β : Type) where
  | finished (s : σ) (c : Cursor β)
  | short (s : σ)

/-- Turns `i`, `i + 1`, … of a loop, `n` of them. -/
def loop (r : Nat → σ → Reader β ε σ) (buf_len : Nat) : Nat → Nat → σ → Cursor β →
    Except ε (Outcome σ β)
  | _, 0, s, c => .ok (.finished s c)
  | i, n + 1, s, c => match r i s buf_len c with
    | .ok (s',c') => loop r buf_len (i + 1) n s' c'
    | .error .short => .ok (.short s)
    | .error (.fault reason) => .error reason

/-- The count and the bytes left always add up to the buffer. -/
def Cursor.Within (c : Cursor β) (buf_len : Nat) : Prop := c.len + c.rest.length = buf_len

structure Exact (r : Reader β ε α) (encoded : List β) (a : α) : Prop where
  whole : ∀ buf_len c back, c.Within buf_len → c.rest = encoded ++ back →
    r buf_len c = .ok (a,⟨back,c.len + encoded.length⟩)
  short : ∀ buf_len c, c.Within buf_len → c.rest <+: encoded → c.rest ≠ encoded →
    r buf_len c = .error .short

theorem within_advance {c : Cursor β} (within : c.Within buf_len) (split : c.rest = front ++ back) :
    Cursor.Within ⟨back,c.len + front.length⟩ buf_len := by
  simp only [Cursor.Within,split,List.length_append] at within ⊢
  omega

theorem exact_pure (a : α) : Exact (pure a : Reader β ε α) [] a where
  whole := by
    rintro buf_len ⟨rest,len⟩ back _ rfl
    rfl
  short := by
    intro buf_len c _ before other
    exact absurd (List.prefix_nil.mp before) other

theorem exact_lift {result : Except ε α} (done : result = .ok a) :
    Exact (lift result : Reader β ε α) [] a where
  whole := by
    rintro buf_len ⟨rest,len⟩ back _ rfl
    subst done
    rfl
  short := by
    intro buf_len c _ before other
    exact absurd (List.prefix_nil.mp before) other

theorem exact_bytes (encoded : List β) :
    Exact (bytes encoded.length : Reader β ε (List β)) encoded encoded where
  whole := by
    intro buf_len c back within split
    have enough : ¬buf_len < c.len + encoded.length := by
      simp only [Cursor.Within,split,List.length_append] at within
      omega
    simp [bytes,enough,split]
  short := by
    intro buf_len c within before other
    have fewer := Lists.proper_prefix_length before other
    have ran : buf_len < c.len + encoded.length := by
      simp only [Cursor.Within] at within
      omega
    simp [bytes,ran]

/-- Exactness composes: the second reader starts where the first one stopped. -/
theorem Exact.bind {r : Reader β ε α} {f : α → Reader β ε γ} (first : Exact r front a)
    (second : Exact (f a) back b) : Exact (r >>= f) (front ++ back) b where
  whole := by
    intro buf_len c after within split
    rw [List.append_assoc] at split
    have step := first.whole buf_len c _ within split
    have next := second.whole buf_len _ after (within_advance within split) rfl
    rw [bind_run,step]
    simp only [next,List.length_append,Nat.add_assoc]
  short := by
    intro buf_len c within before other
    rw [bind_run]
    rcases Lists.prefix_append_cases before with inside | ⟨rest,split,inside⟩
    · by_cases whole : c.rest = front
      · have split : c.rest = front ++ [] := by simpa using whole
        have step := first.whole buf_len c [] within split
        have more : ([] : List β) ≠ back := by
          rintro rfl
          exact other (by simpa using whole)
        rw [step]
        exact second.short buf_len _ (within_advance within split) List.nil_prefix more
      · rw [first.short buf_len c within inside whole]
    · have step := first.whole buf_len c rest within split
      have more : rest ≠ back := by
        rintro rfl
        exact other split
      rw [step]
      exact second.short buf_len _ (within_advance within split) inside more

theorem Exact.map {r : Reader β ε α} (first : Exact r encoded a) (f : α → γ) :
    Exact (r >>= fun a => pure (f a)) encoded (f a) := by
  simpa using first.bind (f := fun a => pure (f a)) (exact_pure (f a))

theorem Exact.lift {r : Reader β ε α} (first : Exact r encoded a) {f : α → Except ε γ}
    (done : f a = .ok b) : Exact (r >>= fun a => Reader.lift (f a)) encoded b := by
  simpa using first.bind (f := fun a => Reader.lift (f a)) (exact_lift done)

theorem Exact.times {r : Reader β ε α} (encode : α → List β) (values : List α)
    (each : ∀ a ∈ values, Exact r (encode a) a) :
    Exact (times r values.length) (values.flatMap encode) values := by
  induction values with
  | nil => exact exact_pure []
  | cons a values ih =>
    have tail := ih fun b member => each b (List.mem_cons_of_mem _ member)
    exact (each a List.mem_cons_self).bind (tail.map (a :: ·))

/-- On success at least `k` bytes are asked for, and no more than there are. -/
def Advances (r : Reader β ε α) (k : Nat) : Prop :=
  ∀ buf_len c a c', r buf_len c = .ok (a,c') → c.len + k ≤ c'.len ∧ (c.len ≤ buf_len → c'.len ≤ buf_len)

theorem advances_pure (a : α) : Advances (pure a : Reader β ε α) 0 := by
  intro buf_len c b c' done
  cases done
  simp

theorem advances_lift (result : Except ε α) : Advances (lift result : Reader β ε α) 0 := by
  intro buf_len c b c' done
  cases result with
  | ok a =>
    cases done
    simp
  | error reason => cases done

theorem advances_bytes (k : Nat) : Advances (bytes k : Reader β ε (List β)) k := by
  intro buf_len c b c' done
  by_cases early : buf_len < c.len + k
  · simp [bytes,early] at done
  · simp only [bytes,if_neg early,Except.ok.injEq,Prod.mk.injEq] at done
    obtain ⟨_,rfl⟩ := done
    exact ⟨Nat.le_refl _,fun _ => Nat.le_of_not_lt early⟩

theorem Advances.bind {r : Reader β ε α} {f : α → Reader β ε γ} (first : Advances r j)
    (second : ∀ a, Advances (f a) k) : Advances (r >>= f) (j + k) := by
  intro buf_len c b c' done
  rw [bind_run] at done
  cases step : r buf_len c with
  | error stop => simp [step] at done
  | ok result =>
    obtain ⟨a,middle⟩ := result
    simp only [step] at done
    obtain ⟨lower,upper⟩ := first buf_len c a middle step
    obtain ⟨lower',upper'⟩ := second a buf_len middle b c' done
    exact ⟨by omega,fun inside => upper' (upper inside)⟩

theorem Advances.weaken {r : Reader β ε α} (advances : Advances r k) (less : j ≤ k) : Advances r j := by
  intro buf_len c a c' done
  obtain ⟨lower,upper⟩ := advances buf_len c a c' done
  exact ⟨by omega,upper⟩

theorem advances_times {r : Reader β ε α} (each : Advances r k) (n : Nat) : Advances (times r n) 0 := by
  induction n with
  | zero => exact advances_pure []
  | succ n ih =>
    have step := each.bind fun a => ih.bind fun others => advances_pure (a :: others)
    exact step.weaken (Nat.zero_le _)

/-- A loop that ends has asked for what its turns ask for. -/
theorem loop_advances {r : Nat → σ → Reader β ε σ} {k : Nat → Nat} (each : ∀ i s, Advances (r i s) (k i))
    (finished : loop r buf_len i n s c = .ok (.finished s' c')) :
    c.len + ((List.range' i n).map k).sum ≤ c'.len ∧ (c.len ≤ buf_len → c'.len ≤ buf_len) := by
  induction n generalizing i s c with
  | zero =>
    cases finished
    simp
  | succ n ih =>
    cases step : r i s buf_len c with
    | error stop => cases stop <;> simp [loop,step] at finished
    | ok result =>
      obtain ⟨s1,c1⟩ := result
      simp only [loop,step] at finished
      obtain ⟨lower,upper⟩ := each i s buf_len c s1 c1 step
      obtain ⟨lower',upper'⟩ := ih finished
      simp only [List.range'_succ,List.map_cons,List.sum_cons]
      exact ⟨by omega,fun inside => upper' (upper inside)⟩

section Words

open Muti.Bytes

def word8 : Reader UInt8 ε UInt8 := do
  let b ← bytes 1
  pure (b.headD 0)

def word16 : Reader UInt8 ε UInt16 := do
  let b ← bytes 2
  pure (field16 0 b)

def word32 : Reader UInt8 ε UInt32 := do
  let b ← bytes 4
  pure (field32 0 b)

theorem advances_word8 : Advances (word8 : Reader UInt8 ε UInt8) 1 :=
  (advances_bytes 1).bind fun _ => advances_pure _

theorem advances_word16 : Advances (word16 : Reader UInt8 ε UInt16) 2 :=
  (advances_bytes 2).bind fun _ => advances_pure _

theorem advances_word32 : Advances (word32 : Reader UInt8 ε UInt32) 4 :=
  (advances_bytes 4).bind fun _ => advances_pure _

theorem exact_word8 (x : UInt8) : Exact (word8 : Reader UInt8 ε UInt8) [x] x :=
  (exact_bytes [x]).map fun b => b.headD 0

theorem exact_word16 (x : UInt16) : Exact (word16 : Reader UInt8 ε UInt16) (image16 x) x := by
  have whole := (exact_bytes (ε := ε) (image16 x)).map (field16 0)
  rw [image16_length] at whole
  have back : field16 0 (image16 x) = x := by simpa using field16_image16 x []
  rw [back] at whole
  exact whole

theorem exact_word32 (x : UInt32) : Exact (word32 : Reader UInt8 ε UInt32) (image32 x) x := by
  have whole := (exact_bytes (ε := ε) (image32 x)).map (field32 0)
  rw [image32_length] at whole
  have back : field32 0 (image32 x) = x := by simpa using field32_image32 x []
  rw [back] at whole
  exact whole

end Words

section Loop

variable {r : Nat → σ → Reader β ε σ} {encode : α → List β} {state : List α → σ → Prop}

/-- `state done` describes the loop's state once the values `done` are read. -/
def Turns (r : Nat → σ → Reader β ε σ) (encode : α → List β) (state : List α → σ → Prop)
    (values : List α) : Prop :=
  ∀ done a rest s, values = done ++ a :: rest → state done s →
    ∃ s', Exact (r done.length s) (encode a) s' ∧ state (done ++ [a]) s'

/-- Given the values' bytes, the loop ends in one state whatever follows them. -/
theorem loop_whole (done : List α) (turns : Turns r encode state (done ++ values)) (start : state done s) :
    ∃ s', state (done ++ values) s' ∧ ∀ buf_len c back, Cursor.Within c buf_len →
      c.rest = values.flatMap encode ++ back →
      loop r buf_len done.length values.length s c =
        .ok (.finished s' ⟨back,c.len + (values.flatMap encode).length⟩) := by
  induction values generalizing done s with
  | nil =>
    refine ⟨s,by simpa using start,?_⟩
    rintro buf_len ⟨rest,len⟩ back _ rfl
    rfl
  | cons a values ih =>
    obtain ⟨s',exact,kept⟩ := turns done a values s rfl start
    have more : Turns r encode state ((done ++ [a]) ++ values) := by simpa using turns
    obtain ⟨final,last,rest⟩ := ih (done ++ [a]) more kept
    refine ⟨final,by simpa using last,?_⟩
    intro buf_len c back within split
    rw [List.flatMap_cons,List.append_assoc] at split
    have step := exact.whole buf_len c _ within split
    have next := rest buf_len _ back (within_advance within split) rfl
    rw [List.length_append,List.length_singleton] at next
    simp only [List.length_cons,loop,step,next,List.flatMap_cons,List.length_append,Nat.add_assoc]

/-- Running short, the loop stops in a state some of the values lead to. -/
theorem loop_short (done : List α) (turns : Turns r encode state (done ++ values)) (start : state done s)
    (within : Cursor.Within c buf_len) (before : c.rest <+: values.flatMap encode)
    (proper : c.rest ≠ values.flatMap encode) :
    ∃ reached s', state reached s' ∧ loop r buf_len done.length values.length s c = .ok (.short s') := by
  induction values generalizing done s c with
  | nil => exact absurd (List.prefix_nil.mp before) proper
  | cons a values ih =>
    obtain ⟨s',exact,kept⟩ := turns done a values s rfl start
    have more : Turns r encode state ((done ++ [a]) ++ values) := by simpa using turns
    rw [List.flatMap_cons] at before proper
    have go : ∀ rest, c.rest = encode a ++ rest → rest <+: values.flatMap encode →
        ∃ reached s', state reached s' ∧
          loop r buf_len done.length (a :: values).length s c = .ok (.short s') := by
      intro rest split inside
      have step := exact.whole buf_len c rest within split
      have other : rest ≠ values.flatMap encode := by
        rintro rfl
        exact proper split
      obtain ⟨reached,final,last,tail⟩ := ih (done ++ [a]) more kept (within_advance within split) inside other
      refine ⟨reached,final,last,?_⟩
      rw [List.length_append,List.length_singleton] at tail
      simp only [List.length_cons,loop,step,tail]
    rcases Lists.prefix_append_cases before with inside | ⟨rest,split,inside⟩
    · by_cases whole : c.rest = encode a
      · exact go [] (by simpa using whole) List.nil_prefix
      · refine ⟨done,s,start,?_⟩
        simp only [List.length_cons,loop,exact.short buf_len c within inside whole]
    · exact go rest split inside

end Loop

end Reader
end Muti
