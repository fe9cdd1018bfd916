import Muti.Lists
import Muti.Memory
import Muti.Bytes

/-! Records of variable length one behind the other: a header of one size, with the length
of what follows it in one of its words. A loop that takes them off a buffer, in `size_t`
and with an `int` for its counter, and stops where the buffer does. -/
namespace Muti.Records

open Muti.Bytes Muti.Memory

/-- `size` bytes of header, the length at `offset` in it, and what a record is read as. -/
structure Layout (α : Type) where
  size : UInt64
  offset : Nat
  value : Nat → List UInt8 → α

variable {α : Type} (layout : Layout α)

/-- As many records from position `len` on, the `i`-th being next; `none` when the buffer ends before them. -/
def loop (buffer : List UInt8) : Nat → Nat → UInt64 → Except Fault (Option (List α × UInt64))
  | 0, _, len => .ok (some ([],len))
  | n + 1, i, s =>
    if buffer.length < (s + layout.size).toNat then .ok none
    else
      let len := s + layout.size + field64 (s.toNat + layout.offset) buffer
      if buffer.length < len.toNat then .ok none
      else if i + 1 = 2 ^ 31 then .error .overflow
      else do
        match ← loop buffer n (i + 1) len with
        | none => .ok none
        | some (records,len) => .ok (some (layout.value s.toNat buffer :: records,len))

structure Written (bytes : List UInt8) (a : α) : Prop where
  inside : layout.offset + 8 ≤ layout.size.toNat
  header : layout.size.toNat ≤ bytes.length
  length : ∀ front back, (field64 (front.length + layout.offset) (front ++ (bytes ++ back))).toNat =
    bytes.length - layout.size.toNat
  value : ∀ front back, layout.value front.length (front ++ (bytes ++ back)) = a

variable {layout}

/-- The sizes one turn computes at the end of `front`. -/
theorem Written.turn (written : Written layout bytes a) (front : List UInt8) {len : UInt64}
    (length : len.toNat = bytes.length - layout.size.toNat) (fits : (front ++ bytes).length < 2 ^ 64) :
    (UInt64.ofNat front.length + layout.size).toNat = front.length + layout.size.toNat ∧
      UInt64.ofNat front.length + layout.size + len = UInt64.ofNat (front ++ bytes).length := by
  rw [List.length_append] at fits
  have room := written.header
  have header : (UInt64.ofNat front.length + layout.size).toNat = front.length + layout.size.toNat := by
    rw [UInt64.toNat_add,toNat_ofNat_small (by omega),Nat.mod_eq_of_lt (by omega)]
  refine ⟨header,UInt64.toNat_inj.mp ?_⟩
  rw [UInt64.toNat_add,header,length,List.length_append,toNat_ofNat_small fits,Nat.mod_eq_of_lt (by omega)]
  omega

/-- A turn that has its record before it takes it and goes on behind it. -/
theorem loop_step (written : Written layout bytes a) (front back : List UInt8) (n : Nat) (count : i + 1 < 2 ^ 31)
    (fits : (front ++ bytes).length < 2 ^ 64) :
    loop layout (front ++ (bytes ++ back)) (n + 1) i (UInt64.ofNat front.length) =
      (loop layout (front ++ (bytes ++ back)) n (i + 1) (UInt64.ofNat (front ++ bytes).length)).map
        (Option.map fun rest => (a :: rest.1,rest.2)) := by
  have length := written.length front back
  obtain ⟨header,len⟩ := written.turn front length fits
  have whole : (front ++ (bytes ++ back)).length = (front ++ bytes).length + back.length := by
    rw [← List.append_assoc,List.length_append]
  have small : front.length < 2 ^ 64 := by
    rw [List.length_append] at fits
    omega
  have enough : ¬(front ++ (bytes ++ back)).length < front.length + layout.size.toNat := by
    have room := written.header
    rw [whole,List.length_append]
    omega
  have enough' : ¬(front ++ (bytes ++ back)).length < (front ++ bytes).length := by omega
  have more : ¬i + 1 = 2 ^ 31 := by omega
  rw [loop]
  simp only [header,if_neg enough,toNat_ofNat_small small,len,toNat_ofNat_small fits,if_neg enough',if_neg more,
    written.value]
  rcases loop layout (front ++ (bytes ++ back)) n (i + 1) (UInt64.ofNat (front ++ bytes).length) with _ | _ | _ <;> rfl

/-- From the end of `front` on, the loop takes the records one by one. -/
theorem loop_whole (written : List.Forall₂ (Written layout) images records) (front back : List UInt8)
    (count : i + images.length < 2 ^ 31) (fits : (front ++ images.flatten).length < 2 ^ 64) :
    loop layout (front ++ (images.flatten ++ back)) images.length i (UInt64.ofNat front.length) =
      .ok (some (records,UInt64.ofNat (front ++ images.flatten).length)) := by
  induction written generalizing front i with
  | nil => simp [loop]
  | @cons bytes a images records first rest ih =>
    rw [List.length_cons] at count
    have room : (front ++ bytes).length < 2 ^ 64 := by
      simp only [List.flatten_cons,List.length_append] at fits ⊢
      omega
    have tail := ih (front ++ bytes) (i := i + 1) (by omega) (by simpa using fits)
    have step := loop_step first front (images.flatten ++ back) images.length (i := i) (by omega) room
    rw [List.append_assoc] at tail
    simp only [List.flatten_cons,List.append_assoc,List.length_cons]
    rw [step,tail,List.append_assoc]
    rfl

/-- Cut short, the loop runs out of bytes. -/
theorem loop_short (written : List.Forall₂ (Written layout) images records) (front p : List UInt8)
    (count : i + images.length < 2 ^ 31) (fits : (front ++ images.flatten).length < 2 ^ 64)
    (before : p <+: images.flatten) (proper : p ≠ images.flatten) :
    loop layout (front ++ p) images.length i (UInt64.ofNat front.length) = .ok none := by
  induction written generalizing front p i with
  | nil => exact absurd (List.prefix_nil.mp before) proper
  | @cons bytes a images records first rest ih =>
    rw [List.length_cons] at count
    rw [List.flatten_cons] at before proper
    have room : (front ++ bytes).length < 2 ^ 64 := by
      simp only [List.flatten_cons,List.length_append] at fits ⊢
      omega
    by_cases cut : p.length < bytes.length
    · have inside := first.inside
      obtain ⟨rest,split⟩ := before
      have length := first.length front images.flatten
      obtain ⟨header,len⟩ := first.turn front length room
      rw [List.length_cons,loop]
      by_cases early : (front ++ p).length < front.length + layout.size.toNat
      · simp only [header,if_pos early]
      have word : field64 (front.length + layout.offset) (front ++ p) =
          field64 (front.length + layout.offset) (front ++ (bytes ++ images.flatten)) := by
        have low := field_append (front ++ p) rest (front.length + layout.offset) 8 (by omega)
        rw [← split,← List.append_assoc,field64,field64,low]
      have position : (UInt64.ofNat front.length).toNat = front.length := by
        apply toNat_ofNat_small
        rw [List.length_append] at room
        omega
      have ends : (front ++ p).length < (front ++ bytes).length := by
        rw [List.length_append,List.length_append]
        omega
      simp only [header,if_neg early,position,word,len,toNat_ofNat_small room,if_pos ends]
    · obtain ⟨tail,rfl,inside⟩ := Lists.prefix_append_covers before (by omega)
      have other : tail ≠ images.flatten := by
        rintro rfl
        exact proper rfl
      have later := ih (front ++ bytes) tail (i := i + 1) (by omega) (by simpa using fits) inside other
      rw [List.append_assoc] at later
      rw [List.length_cons,loop_step first front tail images.length (by omega) room,later]
      rfl

end Muti.Records
