import Mathlib.Algebra.GroupWithZero.Nat
import Mathlib.Data.List.Basic

/-! Heap blocks and the ways a run of the program can end outside the C functions'
return values. Allocation itself is taken to succeed. -/
namespace Muti.Memory

/-- What stops the process, or leaves it undefined. -/
inductive Fault where
  | outOfBounds
  | nullPointer
  | useAfterFree
  | assertion
  | division
  | overflow
  | exit
  deriving DecidableEq, Repr

/-- A fresh block keeps whatever the heap held before. -/
def malloc (heap : Nat → α) (n : Nat) : List α := (List.range n).map heap

def read (block : List α) (i : Nat) : Except Fault α :=
  match block[i]? with
  | some a => .ok a
  | none => .error .outOfBounds

def write (block : List α) (i : Nat) (a : α) : Except Fault (List α) :=
  if i < block.length then .ok (block.set i a) else .error .outOfBounds

/-- Cells written one after the other from `i` on, as far as the block goes. -/
def store (block : List α) (i : Nat) (cells : List α) : List α :=
  block.take i ++ (cells.take (block.length - i) ++ block.drop (i + cells.length))

def readFirst (n : Nat) (block : List α) : Except Fault (List α) :=
  if n ≤ block.length then .ok (block.take n) else .error .outOfBounds

def assert (condition : Prop) [Decidable condition] : Except Fault Unit :=
  if condition then .ok () else .error .assertion

@[simp] theorem malloc_length (heap : Nat → α) (n : Nat) : (malloc heap n).length = n := by
  simp [malloc]

@[simp] theorem store_length (block : List α) (i : Nat) (cells : List α) : (store block i cells).length = block.length := by
  simp only [store,List.length_append,List.length_take,List.length_drop]
  omega

/-- Before what was written the block is as it was, and behind it. -/
theorem store_take {block cells : List α} {i n : Nat} (before : n ≤ i) : (store block i cells).take n = block.take n := by
  by_cases inside : i ≤ block.length
  · rw [store,List.take_append_of_le_length (by rw [List.length_take]; omega),List.take_take,Nat.min_eq_left before]
  · have beyond : block.length ≤ i := Nat.le_of_not_le inside
    rw [store,List.take_of_length_le beyond,Nat.sub_eq_zero_of_le beyond,List.take_zero,List.nil_append,
      List.drop_eq_nil_of_le (by omega),List.append_nil]


theorem store_drop {block cells : List α} {i n : Nat} (behind : i + cells.length ≤ n) (inside : i + cells.length ≤ block.length) :
    (store block i cells).drop n = block.drop n := by
  obtain ⟨more,rfl⟩ := Nat.exists_eq_add_of_le behind
  have front : (block.take i ++ cells.take (block.length - i)).length = i + cells.length := by
    simp only [List.length_append,List.length_take]
    omega
  rw [store,← List.append_assoc,← List.drop_drop,List.drop_left' front,List.drop_drop]

theorem store_front {front back cells : List α} (inside : i + cells.length ≤ front.length) :
    store (front ++ back) i cells = store front i cells ++ back := by
  have room : cells.length ≤ (front ++ back).length - i := by
    rw [List.length_append]
    omega
  have room' : cells.length ≤ front.length - i := by omega
  rw [store,store,List.take_append_of_le_length (by omega),List.drop_append_of_le_length inside,
    List.take_of_length_le room,List.take_of_length_le room']
  simp only [List.append_assoc]

theorem store_take_comm {block cells : List α} (inside : i + cells.length ≤ n) :
    (store block i cells).take n = store (block.take n) i cells := by
  by_cases whole : block.length ≤ n
  · rw [List.take_of_length_le (by rwa [store_length]),List.take_of_length_le whole]
  · have front : (block.take n).length = n := by
      rw [List.length_take]
      omega
    have split : store (block.take n ++ block.drop n) i cells = store (block.take n) i cells ++ block.drop n :=
      store_front (Nat.le_trans inside (Nat.le_of_eq front.symm))
    rw [List.take_append_drop] at split
    rw [split,List.take_left' ((store_length ..).trans front)]

theorem store_append {front old new back : List α} (same : old.length = new.length) :
    store (front ++ (old ++ back)) front.length new = front ++ (new ++ back) := by
  have room : new.length ≤ (front ++ (old ++ back)).length - front.length := by
    simp only [List.length_append]
    omega
  rw [store,List.take_left,List.take_of_length_le room,← List.append_assoc front old back,
    List.drop_left' (by rw [List.length_append,same])]

theorem read_ok {block : List α} : read block i = .ok a ↔ block[i]? = some a := by
  unfold read
  cases block[i]? <;> simp

theorem write_ok {block : List α} :
    write block i a = .ok block' ↔ i < block.length ∧ block' = block.set i a := by
  unfold write
  by_cases inside : i < block.length
  · simp [inside,eq_comm]
  · simp [inside]

theorem readFirst_all {block : List α} (count : n = block.length) : readFirst n block = .ok block := by
  simp [readFirst,count]

theorem assert_ok {condition : Prop} [Decidable condition] : assert condition = .ok u ↔ condition := by
  unfold assert
  by_cases holds : condition <;> simp [holds]

/-- A chain of fallible steps succeeds when each of them does. -/
theorem bind_ok {x : Except ε α} {f : α → Except ε β} :
    (x >>= f) = .ok b ↔ ∃ a, x = .ok a ∧ f a = .ok b := by
  cases x <;> simp [bind,Except.bind]

end Muti.Memory
