import Mathlib.Algebra.GroupWithZero.Nat
import Mathlib.Data.List.Nodup
import Mathlib.Logic.Function.Basic

/-! Reference-counted buffers, by number. A buffer starts with one share; whoever brings
its count to zero frees it. `zeroed` records each count brought to zero. -/
namespace Muti.SharedBuffers

structure Buffers where
  reference : Nat → Nat
  live : List Nat
  allocated : Nat
  zeroed : List Nat

namespace Buffers

def empty : Buffers := ⟨fun _ => 0,[],0,[]⟩

def create (s : Buffers) : Buffers where
  reference := Function.update s.reference s.allocated 1
  live := s.allocated :: s.live
  allocated := s.allocated + 1
  zeroed := s.zeroed

def refer (s : Buffers) (b : Nat) : Buffers :=
  { s with reference := Function.update s.reference b (s.reference b + 1) }

def unrefer (s : Buffers) (b : Nat) : Buffers :=
  { s with reference := Function.update s.reference b (s.reference b - 1) }

/-- Give a share back, and free the buffer when it was the last one. -/
def release (s : Buffers) (b : Nat) : Buffers :=
  if s.reference b = 1 then
    { s.unrefer b with live := s.live.erase b, zeroed := b :: s.zeroed }
  else s.unrefer b

def discard (s : Buffers) (b : Nat) : Buffers :=
  { s with live := s.live.erase b, zeroed := b :: s.zeroed }

def refs (s : Buffers) (b : Nat) : Nat := if b ∈ s.live then s.reference b else 0

/-- Live buffers have shares, and every buffer is live or was brought to zero once. -/
structure Sound (s : Buffers) : Prop where
  positive : ∀ b ∈ s.live, 0 < s.reference b
  numbered : (s.live ++ s.zeroed).Perm (List.range s.allocated)

theorem sound_empty : Sound empty := ⟨by simp [empty],List.Perm.nil⟩

variable {s : Buffers}

theorem Sound.nodup (sound : Sound s) : s.live.Nodup := by
  have all := sound.numbered.nodup_iff.mpr List.nodup_range
  exact (List.nodup_append.mp all).1

theorem Sound.fresh (sound : Sound s) : s.allocated ∉ s.live := by
  intro member
  have inside := sound.numbered.subset (List.mem_append_left _ member)
  simp at inside

theorem refs_live (live : b ∈ s.live) : s.refs b = s.reference b := if_pos live

theorem refs_dead (dead : b ∉ s.live) : s.refs b = 0 := if_neg dead

theorem live_of_refs (shares : 0 < s.refs b) : b ∈ s.live := by
  by_contra dead
  have nobody := refs_dead dead
  omega

/-- Counts stored for a live buffer leave the others alone. -/
theorem refs_update (live : b ∈ s.live) (left c : Nat) :
    refs { s with reference := Function.update s.reference b left } c = if b = c then left else s.refs c := by
  by_cases same : b = c
  · subst same
    simp [refs,live]
  · simp [refs,same,Ne.symm same]

theorem refs_refer (live : b ∈ s.live) (c : Nat) : (s.refer b).refs c = s.refs c + if b = c then 1 else 0 := by
  rw [refer,refs_update live]
  by_cases same : b = c
  · subst same
    simp [refs_live live]
  · simp [same]

theorem refs_unrefer (sound : Sound s) (live : b ∈ s.live) (c : Nat) :
    (s.unrefer b).refs c + (if b = c then 1 else 0) = s.refs c := by
  have positive := sound.positive b live
  rw [unrefer,refs_update live]
  by_cases same : b = c
  · subst same
    simp only [if_true,refs_live live]
    omega
  · simp [same]

theorem refs_release (sound : Sound s) (live : b ∈ s.live) (c : Nat) :
    (s.release b).refs c + (if b = c then 1 else 0) = s.refs c := by
  by_cases last : s.reference b = 1
  · rw [release,if_pos last]
    by_cases same : b = c
    · subst same
      simp [refs,live,last,sound.nodup.mem_erase_iff]
    · simp [refs,unrefer,same,Ne.symm same,sound.nodup.mem_erase_iff]
  · rw [release,if_neg last]
    exact refs_unrefer sound live c

theorem refs_create (sound : Sound s) (c : Nat) :
    s.create.refs c = s.refs c + if s.allocated = c then 1 else 0 := by
  by_cases same : s.allocated = c
  · subst same
    simp [refs,create,sound.fresh]
  · simp [refs,create,same,Ne.symm same]

theorem sound_create (sound : Sound s) : Sound s.create where
  positive := by
    intro b member
    by_cases same : b = s.allocated
    · simp [create,same]
    · have older : b ∈ s.live := by simpa [create,same] using member
      simpa [create,same] using sound.positive b older
  numbered := by
    rw [create,List.range_succ]
    exact (sound.numbered.cons s.allocated).trans (List.perm_append_singleton _ _).symm

theorem sound_refer (sound : Sound s) (b : Nat) : Sound (s.refer b) where
  positive := by
    intro c member
    by_cases same : c = b
    · simp [refer,same]
    · simpa [refer,same] using sound.positive c member
  numbered := sound.numbered

/-- Not the last share, or the buffer would stay with none. -/
theorem sound_unrefer (sound : Sound s) (more : 1 < s.reference b) : Sound (s.unrefer b) where
  positive := by
    intro c member
    by_cases same : c = b
    · subst same
      simp [unrefer]
      omega
    · simpa [unrefer,same] using sound.positive c member
  numbered := sound.numbered

/-- A buffer that goes away joins those that went before. -/
theorem numbered_discard (sound : Sound s) (live : b ∈ s.live) :
    (s.live.erase b ++ b :: s.zeroed).Perm (List.range s.allocated) := by
  have moved : (s.live.erase b ++ b :: s.zeroed).Perm (s.live ++ s.zeroed) :=
    List.perm_middle.trans ((List.perm_cons_erase live).symm.append_right s.zeroed)
  exact moved.trans sound.numbered

theorem sound_discard (sound : Sound s) (live : b ∈ s.live) : Sound (s.discard b) where
  positive := fun c member => sound.positive c (List.mem_of_mem_erase member)
  numbered := numbered_discard sound live

theorem refs_discard (sound : Sound s) (c : Nat) : (s.discard b).refs c = if b = c then 0 else s.refs c := by
  by_cases same : b = c
  · subst same
    simp [refs,discard,sound.nodup.mem_erase_iff]
  · simp [refs,discard,same,Ne.symm same,sound.nodup.mem_erase_iff]

theorem sound_release (sound : Sound s) (live : b ∈ s.live) : Sound (s.release b) := by
  by_cases last : s.reference b = 1
  · rw [release,if_pos last]
    constructor
    · intro c member
      obtain ⟨other,member⟩ := sound.nodup.mem_erase_iff.mp member
      simpa [unrefer,other] using sound.positive c member
    · exact numbered_discard sound live
  · rw [release,if_neg last]
    have positive := sound.positive b live
    exact sound_unrefer sound (by omega)

@[simp] theorem live_refer (s : Buffers) (b : Nat) : (s.refer b).live = s.live := rfl

@[simp] theorem live_unrefer (s : Buffers) (b : Nat) : (s.unrefer b).live = s.live := rfl

@[simp] theorem live_create (s : Buffers) : s.create.live.length = s.live.length + 1 := rfl

/-- A release frees at most the one buffer. -/
theorem live_release (live : b ∈ s.live) :
    (s.release b).live.length + (if s.reference b = 1 then 1 else 0) = s.live.length := by
  by_cases last : s.reference b = 1
  · have fewer := List.length_erase_of_mem live
    have some := List.length_pos_of_mem live
    simp only [release,if_pos last,fewer]
    omega
  · simp [release,last]

end Buffers
end Muti.SharedBuffers
