import Mathlib.Data.Int.CardIntervalMod
import Mathlib.Data.List.Rotate

/-! Numbers visited in rounds. Every round visits all of them, the next one starting one
number later; and the numbers are shared out by their residues. -/
namespace Muti.RoundRobin

def visits (size rounds : Nat) : List (Nat × Nat) :=
  (List.range rounds).flatMap fun j => (List.range size).map fun i => ((j + i) % size,j)

def load (n size rounds k : Nat) : Nat := rounds * (size / n + if k < size % n then 1 else 0)

theorem round_rotate (size j : Nat) :
    (List.range size).map (fun i => (j + i) % size) = (List.range size).rotate j := by
  apply List.ext_getElem
  · simp
  · intro i _ _
    simp [List.getElem_rotate,Nat.add_comm]

theorem mem_visits : (l,j) ∈ visits size rounds ↔ l < size ∧ j < rounds := by
  have round : ∀ j, l ∈ (List.range size).map (fun i => (j + i) % size) ↔ l < size := by
    intro j
    rw [round_rotate,List.mem_rotate,List.mem_range]
  constructor
  · intro visited
    obtain ⟨j',below,inside⟩ := List.mem_flatMap.mp visited
    obtain ⟨i,early,same⟩ := List.mem_map.mp inside
    cases same
    exact ⟨(round _).mp (List.mem_map_of_mem early),List.mem_range.mp below⟩
  · rintro ⟨inside,below⟩
    obtain ⟨i,early,same⟩ := List.mem_map.mp ((round j).mpr inside)
    exact List.mem_flatMap.mpr ⟨j,List.mem_range.mpr below,List.mem_map.mpr ⟨i,early,by rw [same]⟩⟩

theorem visits_nodup (size rounds : Nat) : (visits size rounds).Nodup := by
  refine List.nodup_flatMap.mpr ⟨?_,?_⟩
  · intro j _
    apply List.Nodup.of_map Prod.fst
    rw [List.map_map]
    change ((List.range size).map fun i => (j + i) % size).Nodup
    rw [round_rotate,List.nodup_rotate]
    exact List.nodup_range
  · refine List.nodup_range.imp ?_
    intro j j' apart cell first second
    obtain ⟨_,_,rfl⟩ := List.mem_map.mp first
    obtain ⟨_,_,same⟩ := List.mem_map.mp second
    exact apart (congrArg Prod.snd same).symm

theorem residue_count (shares : 0 < n) (low : k < n) :
    (List.range size).countP (· % n = k) = size / n + if k < size % n then 1 else 0 := by
  have counted := Nat.count_modEq_card size shares k
  rw [Nat.mod_eq_of_lt low] at counted
  rw [← counted,Nat.count]
  apply List.countP_congr
  intro l _
  simp [Nat.ModEq,Nat.mod_eq_of_lt low]

theorem visits_load (shares : 0 < n) (low : k < n) :
    (visits size rounds).countP (fun cell => cell.1 % n = k) = load n size rounds k := by
  have round : ∀ j, ((List.range size).map fun i => ((j + i) % size,j)).countP (fun cell => cell.1 % n = k) =
      size / n + if k < size % n then 1 else 0 := by
    intro j
    rw [← residue_count shares low,← (List.rotate_perm (List.range size) j).countP_eq,← round_rotate,List.countP_map,
      List.countP_map]
    rfl
  rw [visits,List.countP_flatMap,load]
  simp [Function.comp_def,round]

theorem visits_count (rounds : Nat) (inside : l < size) : (visits size rounds).countP (fun cell => cell.1 = l) = rounds := by
  have round : ∀ j, ((List.range size).map fun i => ((j + i) % size,j)).countP (fun cell => cell.1 = l) = 1 := by
    intro j
    have once := List.count_eq_one_of_mem List.nodup_range (List.mem_range.mpr inside)
    rw [← (List.rotate_perm (List.range size) j).count_eq,← round_rotate,List.count,List.countP_map] at once
    rw [List.countP_map]
    exact once
  rw [visits,List.countP_flatMap]
  simp [Function.comp_def,round]

/-- The shares are even when the numbers divide, or when there is one round. -/
theorem load_even_iff (shares : 0 < n) (some_round : 0 < rounds) :
    (∀ k < n, ∀ k' < n, load n size rounds k ≤ load n size rounds k' + 1) ↔ n ∣ size ∨ rounds = 1 := by
  have remainder := Nat.mod_lt size shares
  constructor
  · intro even
    by_contra! uneven
    obtain ⟨undivided,more⟩ := uneven
    have left : 0 < size % n := Nat.pos_of_ne_zero fun none => undivided (Nat.dvd_of_mod_eq_zero none)
    have apart := even 0 shares (size % n) remainder
    simp only [load,if_pos left,Nat.lt_irrefl,if_false,Nat.mul_add,Nat.add_zero,Nat.mul_one] at apart
    omega
  · rintro (divides | rfl) k _ k' _
    · simp [load,Nat.mod_eq_zero_of_dvd divides]
    · simp only [load,Nat.one_mul]
      split <;> split <;> omega

theorem load_le_average (shares : 0 < n) (even : n ∣ size ∨ rounds = 1) (average : size * rounds ≤ avg * n) (k : Nat) :
    load n size rounds k ≤ avg := by
  have whole := Nat.div_add_mod size n
  rcases even with divides | rfl
  · have none := Nat.mod_eq_zero_of_dvd divides
    rw [none] at whole
    simp only [load,none,Nat.not_lt_zero,if_false,Nat.add_zero]
    apply Nat.le_of_mul_le_mul_right _ shares
    calc rounds * (size / n) * n = n * (size / n) * rounds := by ring
      _ = size * rounds := by rw [← whole]; simp [shares]
      _ ≤ avg * n := average
  · simp only [load,Nat.one_mul]
    rw [Nat.mul_one] at average
    split
    · apply Nat.lt_of_mul_lt_mul_left (a := n)
      rw [Nat.mul_comm n avg]
      omega
    · apply Nat.le_of_mul_le_mul_left _ shares
      rw [Nat.mul_comm n avg,Nat.add_zero]
      omega

end Muti.RoundRobin
