import Mathlib.Data.List.TakeWhile

/-! UTF-8 as lists of bytes. An ASCII byte is a character wherever it stands, so a text may be cut
there, and other characters may be put in its place. -/
namespace Muti.Utf8

def Valid (bytes : List UInt8) : Prop := ∃ text : List Char, bytes = text.flatMap String.utf8EncodeChar

theorem valid_nil : Valid [] := ⟨[],rfl⟩

theorem Valid.append (first : Valid front) (last : Valid back) : Valid (front ++ back) := by
  obtain ⟨text,rfl⟩ := first
  obtain ⟨text',rfl⟩ := last
  exact ⟨text ++ text',List.flatMap_append.symm⟩

theorem valid_char (char : Char) : Valid (String.utf8EncodeChar char) := ⟨[char],by simp⟩

theorem valid_ascii {c : UInt8} (small : c < 128) : Valid [c] := by
  have all : ∀ n < 128, String.utf8EncodeChar (Char.ofNat n) = [UInt8.ofNat n] := by decide +kernel
  have char := all c.toNat (UInt8.lt_iff_toNat_lt.mp small)
  rw [UInt8.ofNat_toNat] at char
  exact char ▸ valid_char _

/-- The bytes of a character that has more than one are no ASCII. -/
theorem encode_ascii {c : UInt8} (member : c ∈ String.utf8EncodeChar char) (small : c < 128) :
    String.utf8EncodeChar char = [c] := by
  have large : ∀ {n : Nat}, 128 ≤ n → n < 256 → c ≠ UInt8.ofNat n := by
    rintro n low high rfl
    rw [UInt8.lt_iff_toNat_lt,UInt8.toNat_ofNat_of_lt' high] at small
    exact absurd small (Nat.not_lt.mpr low)
  simp only [String.utf8EncodeChar] at member ⊢
  split at member
  · rename_i ascii
    rw [if_pos ascii,List.mem_singleton.mp member]
  split at member
  · simp only [List.mem_cons,List.not_mem_nil,or_false] at member
    rcases member with same | same
    all_goals exact absurd same (large (by omega) (by omega))
  split at member
  · simp only [List.mem_cons,List.not_mem_nil,or_false] at member
    rcases member with same | same | same
    all_goals exact absurd same (large (by omega) (by omega))
  · simp only [List.mem_cons,List.not_mem_nil,or_false] at member
    rcases member with same | same | same | same
    all_goals exact absurd same (large (by omega) (by omega))

/-- At an ASCII byte a text may be cut. -/
theorem Valid.split {c : UInt8} (valid : Valid (front ++ c :: back)) (small : c < 128) : Valid front ∧ Valid back := by
  obtain ⟨text,same⟩ := valid
  induction text generalizing front with
  | nil => simp at same
  | cons char text ih =>
    rw [List.flatMap_cons] at same
    rcases List.append_eq_append_iff.mp same with ⟨rest,encoded,later⟩ | ⟨rest,rfl,later⟩
    · -- the byte is one of the first character's, or behind it
      cases rest with
      | nil =>
        rw [List.append_nil] at encoded
        obtain ⟨_,valid⟩ := ih (show [] ++ c :: back = _ from later)
        exact ⟨encoded ▸ valid_char char,valid⟩
      | cons d rest =>
        obtain ⟨rfl,behind⟩ := List.cons.inj later
        have single := encode_ascii (encoded ▸ List.mem_append_right _ List.mem_cons_self) small
        rw [single] at encoded
        obtain ⟨rfl,rfl⟩ : front = [] ∧ rest = [] := by
          cases front <;> simp_all
        exact ⟨valid_nil,text,behind⟩
    · obtain ⟨first,last⟩ := ih later.symm
      exact ⟨(valid_char char).append first,last⟩

theorem Valid.around (valid : Valid (front ++ (middle ++ back))) (some : middle ≠ []) (ascii : ∀ c ∈ middle, c < 128) :
    Valid front ∧ Valid back := by
  induction middle generalizing front with
  | nil => exact absurd rfl some
  | cons c middle ih =>
    obtain ⟨first,last⟩ := valid.split (ascii c List.mem_cons_self)
    by_cases empty : middle = []
    · exact ⟨first,by rwa [empty] at last⟩
    · exact ⟨first,(ih (show Valid ([] ++ (middle ++ back)) from last) empty fun d member =>
        ascii d (List.mem_cons_of_mem _ member)).2⟩

/-- Up to an ASCII byte that is looked for. -/
theorem Valid.takeWhile {p : UInt8 → Bool} (valid : Valid bytes) (ascii : ∀ c, p c = false → c < 128) :
    Valid (bytes.takeWhile p) := by
  have whole := List.takeWhile_append_dropWhile (p := p) (l := bytes)
  cases behind : bytes.dropWhile p with
  | nil =>
    rw [behind,List.append_nil] at whole
    rwa [whole]
  | cons c rest =>
    have stops : p c = false := by
      have found := List.dropWhile_get_zero_not p bytes (by rw [behind]; exact Nat.succ_pos _)
      simpa [behind] using found
    rw [behind] at whole
    exact (Valid.split (whole.symm ▸ valid) (ascii c stops)).1

theorem takeWhile_cut {p : UInt8 → Bool} (stops : p c = false) (front back : List UInt8) :
    (front ++ c :: back).takeWhile p = front.takeWhile p := by
  induction front with
  | nil => simp [stops]
  | cons d front ih => rw [List.cons_append,List.takeWhile_cons,List.takeWhile_cons,ih]

end Muti.Utf8
