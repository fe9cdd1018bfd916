import Muti.Reader

/-! How far a reader reaches. `Reads` says how many bytes a reader asks for, in terms of
the bytes themselves, and that nothing else can stop it; `Local` says that nothing behind
the buffer is read. Loops inherit both from their turns. -/
namespace Muti.Reader

open Muti.Bytes (field field16 field32)

variable {size : List β → Nat} {value : List β → α} {size' : α → List β → Nat} {value' : α → List β → γ}

/-- `r` asks for the first `size` bytes, makes `value` of them and never faults. -/
def Reads (r : Reader β ε α) (size : List β → Nat) (value : List β → α) : Prop :=
  ∀ buf_len c, c.len ≤ buf_len → r buf_len c =
    if buf_len < c.len + size c.rest then .error .short
    else .ok (value c.rest,⟨c.rest.drop (size c.rest),c.len + size c.rest⟩)

theorem Reads.short {r : Reader β ε α} (reads : Reads r size value) (inside : len ≤ buf_len)
    (early : buf_len < len + size rest) : r buf_len ⟨rest,len⟩ = .error .short :=
  (reads buf_len ⟨rest,len⟩ inside).trans (if_pos early)

theorem Reads.whole {r : Reader β ε α} (reads : Reads r size value) (fits : len + size rest ≤ buf_len) :
    r buf_len ⟨rest,len⟩ = .ok (value rest,⟨rest.drop (size rest),len + size rest⟩) :=
  (reads buf_len ⟨rest,len⟩ (Nat.le_trans (Nat.le_add_right ..) fits)).trans (if_neg (Nat.not_lt.mpr fits))

theorem reads_pure (a : α) : Reads (pure a : Reader β ε α) (fun _ => 0) (fun _ => a) := by
  intro buf_len c inside
  exact (if_neg (Nat.not_lt.mpr inside)).symm

theorem reads_bytes (k : Nat) : Reads (bytes k : Reader β ε (List β)) (fun _ => k) (fun rest => rest.take k) := by
  intro buf_len c inside
  rfl

/-- The second reader starts where the first one stopped. -/
theorem Reads.bind {r : Reader β ε α} {f : α → Reader β ε γ} (first : Reads r size value)
    (second : ∀ a, Reads (f a) (size' a) (value' a)) :
    Reads (r >>= f) (fun rest => size rest + size' (value rest) (rest.drop (size rest)))
      (fun rest => value' (value rest) (rest.drop (size rest))) := by
  intro buf_len c inside
  rw [bind_run,first buf_len c inside]
  by_cases early : buf_len < c.len + size c.rest
  · have later : buf_len < c.len + (size c.rest + size' (value c.rest) (c.rest.drop (size c.rest))) := by omega
    rw [if_pos early,if_pos later]
  · rw [if_neg early]
    have next := second (value c.rest) buf_len ⟨c.rest.drop (size c.rest),c.len + size c.rest⟩ (Nat.le_of_not_lt early)
    simp only [next,List.drop_drop,Nat.add_assoc]

theorem Reads.map {r : Reader β ε α} (first : Reads r size value) (f : α → γ) :
    Reads (r >>= fun a => pure (f a)) size (fun rest => f (value rest)) :=
  first.bind fun a => reads_pure (f a)

def extent (size : List β → Nat) : Nat → List β → Nat
  | 0, _ => 0
  | n + 1, rest => size rest + extent size n (rest.drop (size rest))

def collect (size : List β → Nat) (value : List β → α) : Nat → List β → List α
  | 0, _ => []
  | n + 1, rest => value rest :: collect size value n (rest.drop (size rest))

theorem Reads.times {r : Reader β ε α} (each : Reads r size value) (n : Nat) :
    Reads (times r n) (extent size n) (collect size value n) := by
  induction n with
  | zero => exact reads_pure []
  | succ n ih => exact each.bind fun a => ih.map (a :: ·)

theorem extent_fixed (k n : Nat) (rest : List β) : extent (fun _ => k) n rest = n * k := by
  induction n generalizing rest with
  | zero => simp [extent]
  | succ n ih => rw [extent,ih,Nat.succ_mul,Nat.add_comm]

theorem collect_length (size : List β → Nat) (value : List β → α) (n : Nat) (rest : List β) :
    (collect size value n rest).length = n := by
  induction n generalizing rest with
  | zero => rfl
  | succ n ih => rw [collect,List.length_cons,ih]

theorem field32_take (rest : List UInt8) : field32 0 (rest.take 4) = field32 0 rest := by
  rw [field32,field,List.drop_zero,List.take_take,Nat.min_self]
  rfl

theorem field16_take (rest : List UInt8) : field16 0 (rest.take 2) = field16 0 rest := by
  rw [field16,field,List.drop_zero,List.take_take,Nat.min_self]
  rfl

theorem field32_drop (offset k : Nat) (rest : List UInt8) : field32 k (rest.drop offset) = field32 (offset + k) rest := by
  rw [field32,field,List.drop_drop]
  rfl

theorem field16_drop (offset k : Nat) (rest : List UInt8) : field16 k (rest.drop offset) = field16 (offset + k) rest := by
  rw [field16,field,List.drop_drop]
  rfl

theorem reads_word8 : Reads (word8 : Reader UInt8 ε UInt8) (fun _ => 1) (fun rest => (rest.take 1).headD 0) :=
  (reads_bytes 1).map fun b => b.headD 0

theorem reads_word32 : Reads (word32 : Reader UInt8 ε UInt32) (fun _ => 4) (field32 0) := by
  have read := (reads_bytes (ε := ε) 4).map (field32 0)
  rwa [funext field32_take] at read

theorem word32_run (offset buf_len : Nat) (buffer : List UInt8) :
    (word32 : Reader UInt8 ε UInt32) buf_len ⟨buffer.drop offset,offset⟩ =
      if buf_len < offset + 4 then .error .short
      else .ok (field32 offset buffer,⟨buffer.drop (offset + 4),offset + 4⟩) := by
  by_cases early : buf_len < offset + 4
  · simp only [word32,bind_run,bytes,if_pos early]
  · simp only [word32,bind_run,bytes,if_neg early,field32_take,field32_drop,List.drop_drop]
    rfl

theorem word16_run (offset buf_len : Nat) (buffer : List UInt8) :
    (word16 : Reader UInt8 ε UInt16) buf_len ⟨buffer.drop offset,offset⟩ =
      if buf_len < offset + 2 then .error .short
      else .ok (field16 offset buffer,⟨buffer.drop (offset + 2),offset + 2⟩) := by
  by_cases early : buf_len < offset + 2
  · simp only [word16,bind_run,bytes,if_pos early]
  · simp only [word16,bind_run,bytes,if_neg early,field16_take,field16_drop,List.drop_drop]
    rfl

/-- A cursor with other memory behind the buffer. -/
def Cursor.extend (beyond : List β) (c : Cursor β) : Cursor β := ⟨c.rest ++ beyond,c.len⟩

/-- `r` leaves what lies behind the buffer alone, and the result does not depend on it. -/
def Local (r : Reader β ε α) : Prop :=
  ∀ buf_len c beyond, c.Within buf_len →
    r buf_len (c.extend beyond) = (r buf_len c).map (fun (a,c') => (a,c'.extend beyond)) ∧
    ∀ a c', r buf_len c = .ok (a,c') → c'.Within buf_len

theorem local_pure (a : α) : Local (pure a : Reader β ε α) := by
  intro buf_len c beyond within
  refine ⟨rfl,?_⟩
  rintro a c' ⟨⟩
  exact within

theorem local_lift (result : Except ε α) : Local (lift result : Reader β ε α) := by
  intro buf_len c beyond within
  cases result with
  | error reason => exact ⟨rfl,by rintro a c' ⟨⟩⟩
  | ok a =>
    refine ⟨rfl,?_⟩
    rintro a c' ⟨⟩
    exact within

theorem local_bytes (k : Nat) : Local (bytes k : Reader β ε (List β)) := by
  intro buf_len c beyond within
  by_cases early : buf_len < c.len + k
  · simp [bytes,early,Cursor.extend,Except.map]
  · have inside : k ≤ c.rest.length := by
      rw [Cursor.Within] at within
      omega
    constructor
    · simp only [bytes,Cursor.extend,if_neg early,Except.map,List.take_append_of_le_length inside,
        List.drop_append_of_le_length inside]
    · intro a c' done
      simp only [bytes,if_neg early,Except.ok.injEq,Prod.mk.injEq] at done
      obtain ⟨-,rfl⟩ := done
      simp only [Cursor.Within,List.length_drop] at within ⊢
      omega

theorem Local.bind {r : Reader β ε α} {f : α → Reader β ε γ} (first : Local r) (second : ∀ a, Local (f a)) :
    Local (r >>= f) := by
  intro buf_len c beyond within
  obtain ⟨same,kept⟩ := first buf_len c beyond within
  rw [bind_run,bind_run,same]
  cases step : r buf_len c with
  | error stop => exact ⟨rfl,by rintro b c' ⟨⟩⟩
  | ok result => exact second result.1 buf_len result.2 beyond (kept _ _ step)

theorem Local.times {r : Reader β ε α} (each : Local r) (n : Nat) : Local (times r n) := by
  induction n with
  | zero => exact local_pure []
  | succ n ih => exact each.bind fun a => ih.bind fun others => local_pure (a :: others)

theorem local_word8 : Local (word8 : Reader UInt8 ε UInt8) := (local_bytes 1).bind fun _ => local_pure _

theorem local_word16 : Local (word16 : Reader UInt8 ε UInt16) := (local_bytes 2).bind fun _ => local_pure _

theorem local_word32 : Local (word32 : Reader UInt8 ε UInt32) := (local_bytes 4).bind fun _ => local_pure _

namespace Outcome

def state : Outcome σ β → σ
  | .finished s _ => s
  | .short s => s

def extend (beyond : List β) : Outcome σ β → Outcome σ β
  | .finished s c => .finished s (c.extend beyond)
  | .short s => .short s

end Outcome

section Loop

variable {r : Nat → σ → Reader β ε σ}

theorem loop_local (each : ∀ i s, Local (r i s)) (within : Cursor.Within c buf_len) (beyond : List β) :
    loop r buf_len i n s (c.extend beyond) = (loop r buf_len i n s c).map (Outcome.extend beyond) ∧
    ∀ s' c', loop r buf_len i n s c = .ok (.finished s' c') → c'.Within buf_len := by
  induction n generalizing i s c with
  | zero =>
    refine ⟨rfl,?_⟩
    rintro s' c' ⟨⟩
    exact within
  | succ n ih =>
    obtain ⟨same,kept⟩ := each i s buf_len c beyond within
    cases step : r i s buf_len c with
    | error stop =>
      rw [step] at same
      cases stop <;> exact ⟨by simp [loop,step,same,Except.map,Outcome.extend],by simp [loop,step]⟩
    | ok result =>
      rw [step] at same
      obtain ⟨later,kept'⟩ := ih (i := i + 1) (s := result.1) (kept _ _ step)
      refine ⟨?_,by simpa [loop,step] using kept'⟩
      simpa [loop,step,same,Except.map] using later

/-- What every turn keeps holds of the state the loop leaves, finished or short. -/
theorem loop_keeps (kept : σ → Prop)
    (each : ∀ i s c s' c', kept s → r i s buf_len c = .ok (s',c') → kept s') (start : kept s)
    (done : loop r buf_len i n s c = .ok outcome) : kept outcome.state := by
  induction n generalizing i s c with
  | zero =>
    cases done
    exact start
  | succ n ih =>
    cases step : r i s buf_len c with
    | error stop =>
      cases stop with
      | short =>
        simp only [loop,step,Except.ok.injEq] at done
        subst done
        exact start
      | fault reason => simp [loop,step] at done
    | ok result =>
      simp only [loop,step] at done
      exact ih (each i s c result.1 result.2 start step) done

/-- What holds of the state and the cursor before each turn holds of them at the end. -/
theorem loop_finishes (kept : Nat → σ → Cursor β → Prop)
    (each : ∀ j s c s' c', kept j s c → r j s buf_len c = .ok (s',c') → kept (j + 1) s' c') (start : kept i s c)
    (done : loop r buf_len i n s c = .ok (.finished s' c')) : kept (i + n) s' c' := by
  induction n generalizing i s c with
  | zero =>
    cases done
    exact start
  | succ n ih =>
    cases step : r i s buf_len c with
    | error stop => cases stop <;> simp [loop,step] at done
    | ok result =>
      simp only [loop,step] at done
      have last := ih (each i s c result.1 result.2 start step) done
      rwa [Nat.add_right_comm,Nat.add_assoc] at last

/-- Turns of one size: the loop falls short exactly when all of them together do not fit. -/
theorem loop_fixed (kept : σ → Prop) (each : ∀ j s c, i ≤ j → j < i + n → kept s → c.len ≤ buf_len →
      if buf_len < c.len + k then r j s buf_len c = .error .short
      else ∃ s', kept s' ∧ r j s buf_len c = .ok (s',⟨c.rest.drop k,c.len + k⟩))
    (start : kept s) (inside : c.len ≤ buf_len) :
    if buf_len < c.len + n * k then ∃ s', kept s' ∧ loop r buf_len i n s c = .ok (.short s')
    else ∃ s', kept s' ∧ loop r buf_len i n s c = .ok (.finished s' ⟨c.rest.drop (n * k),c.len + n * k⟩) := by
  induction n generalizing i s c with
  | zero =>
    rw [if_neg (by omega)]
    exact ⟨s,start,by simp [loop]⟩
  | succ n ih =>
    have turn := each i s c (Nat.le_refl i) (by omega) start inside
    have total : (n + 1) * k = k + n * k := by rw [Nat.succ_mul,Nat.add_comm]
    by_cases early : buf_len < c.len + k
    · rw [if_pos early] at turn
      rw [if_pos (by omega)]
      exact ⟨s,start,by simp [loop,turn]⟩
    · rw [if_neg early] at turn
      obtain ⟨s',kept',step⟩ := turn
      have rest := ih (i := i + 1) (c := ⟨c.rest.drop k,c.len + k⟩)
        (fun j s c low high => each j s c (by omega) (by omega)) kept' (Nat.le_of_not_lt early)
      simpa only [loop,step,total,List.drop_drop,Nat.add_assoc] using rest

end Loop

end Muti.Reader
