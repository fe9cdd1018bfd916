import Mathlib.Algebra.Order.BigOperators.Group.List
import Mathlib.Algebra.Order.Ring.Nat
import Muti.Agreement

/-! The block of a list response and what the encoder writes into it. The block is sized
before the loop, for paths of 1024 bytes on average; the loop copies each object with the
path it has. Path lengths are as a put announced them, sums in `size_t` included. -/
namespace Muti.ObjectListRoom

open Muti.Bytes Muti.Memory Muti.Resource Muti.Object Muti.Agreement

def allocated (length : UInt32) : UInt64 := 8 + 4 + length.toUInt64 * (40 + 1024)

def blen (s : Object) : UInt64 := 40 + s.path_length

/-- The bytes behind the start of the block that are written, and what `buf_len` says. -/
structure Progress where
  written : Nat
  buf_len : UInt64
  deriving DecidableEq, Repr

def copy (room : UInt64) (progress : Progress) (size : UInt64) : Except Fault Progress :=
  if room.toNat < progress.written + size.toNat then .error .outOfBounds
  else .ok ⟨progress.written + size.toNat,progress.buf_len + size⟩

/-- The loop over the objects from the `i`-th on, `i` being an `int`. -/
def copyObjects (room : UInt64) : List Object → Nat → Progress → Except Fault Progress
  | [], _, progress => .ok progress
  | s :: objects, i, progress => do
    let progress ← copy room progress (blen s)
    if i + 1 = 2 ^ 31 then .error .overflow
    else copyObjects room objects (i + 1) progress

/-- `ObjectResponseEncoderList` by the sizes of what it writes: error id, sequence, length,
and the objects. -/
def encodeList (resp : ObjectListResponse) : Except Fault Progress := do
  let room := allocated resp.length
  let progress ← copy room ⟨0,0⟩ 4
  let progress ← copy room progress 4
  let progress ← copy room progress 4
  let objects ← readFirst resp.length.toNat resp.object_list
  copyObjects room objects 0 progress

/-- Nothing is written behind the block, and the length handed out is what was written. -/
def FitsBlock (resp : ObjectListResponse) : Prop :=
  ∃ progress, encodeList resp = .ok progress ∧ progress.written ≤ (allocated resp.length).toNat ∧
    progress.buf_len.toNat = progress.written

def totalSize (objects : List Object) : Nat := (objects.map fun s => (blen s).toNat).sum

theorem allocated_toNat (length : UInt32) : (allocated length).toNat = 12 + length.toNat * 1064 := by
  have word := length.toNat_lt
  rw [allocated,UInt64.toNat_add,UInt64.toNat_mul,UInt32.toNat_toUInt64]
  change (12 + length.toNat * 1064 % 2 ^ 64) % 2 ^ 64 = _
  omega

variable {room size : UInt64} {progress : Progress}

theorem copy_ok (inside : progress.written + size.toNat ≤ room.toNat) :
    copy room progress size = .ok ⟨progress.written + size.toNat,progress.buf_len + size⟩ := by
  rw [copy,if_neg (Nat.not_lt.mpr inside)]

/-- The sum stays true while everything is inside the block. -/
theorem copy_counts (inside : progress.written + size.toNat ≤ room.toNat)
    (counts : progress.buf_len.toNat = progress.written) :
    (progress.buf_len + size).toNat = progress.written + size.toNat := by
  have word := room.toNat_lt
  rw [UInt64.toNat_add,counts]
  omega

/-- The loop ends inside the block exactly when the sizes of the objects say so, and before
its counter overflows. -/
theorem copyObjects_cases (room : UInt64) (objects : List Object) (i : Nat) (progress : Progress)
    (counts : progress.buf_len.toNat = progress.written) (early : i < 2 ^ 31) :
    if progress.written + totalSize objects ≤ room.toNat ∧ (objects = [] ∨ i + objects.length < 2 ^ 31) then
      ∃ buf_len, copyObjects room objects i progress = .ok ⟨progress.written + totalSize objects,buf_len⟩ ∧
        buf_len.toNat = progress.written + totalSize objects
    else progress.written ≤ room.toNat → ∃ reason, copyObjects room objects i progress = .error reason := by
  induction objects generalizing i progress with
  | nil =>
    split
    · exact ⟨progress.buf_len,rfl,counts⟩
    · rename_i past
      intro inside
      exact absurd ⟨inside,.inl rfl⟩ past
  | cons s objects ih =>
    have size : totalSize (s :: objects) = (blen s).toNat + totalSize objects := by
      rw [totalSize,totalSize,List.map_cons,List.sum_cons]
    rw [size,List.length_cons,copyObjects]
    by_cases inside : progress.written + (blen s).toNat ≤ room.toNat
    · rw [copy_ok inside]
      have next := copy_counts inside counts
      by_cases last : i + 1 = 2 ^ 31
      · rw [if_neg (by simp; omega)]
        intro _
        exact ⟨.overflow,if_pos last⟩
      · have tail := ih (i + 1) ⟨progress.written + (blen s).toNat,progress.buf_len + blen s⟩ next (by omega)
        have same : (progress.written + (blen s).toNat + totalSize objects ≤ room.toNat ∧
            (objects = [] ∨ i + 1 + objects.length < 2 ^ 31)) ↔
            progress.written + (blen s).toNat + totalSize objects ≤ room.toNat ∧
              (s :: objects = [] ∨ i + (objects.length + 1) < 2 ^ 31) := by
          rcases objects with _ | ⟨t, objects⟩ <;> simp <;> omega
        simp only [bind,Except.bind,if_neg last]
        simp only [same] at tail
        rw [← Nat.add_assoc]
        split at tail
        case isTrue fits =>
          rw [if_pos fits]
          exact tail
        case isFalse past =>
          rw [if_neg past]
          exact fun _ => tail inside
    · rw [if_neg (by omega)]
      intro _
      exact ⟨.outOfBounds,by rw [copy,if_pos (Nat.lt_of_not_le inside)]; rfl⟩

theorem encodeList_eq (resp : ObjectListResponse) (count : resp.object_list.length = resp.length.toNat) :
    encodeList resp = copyObjects (allocated resp.length) resp.object_list 0 ⟨12,12⟩ := by
  have room := allocated_toNat resp.length
  rw [encodeList,copy_ok (by change 0 + 4 ≤ _; omega)]
  change (copy _ ⟨4,4⟩ 4 >>= _) = _
  rw [copy_ok (by change 4 + 4 ≤ _; omega)]
  change (copy _ ⟨8,8⟩ 4 >>= _) = _
  rw [copy_ok (by change 8 + 4 ≤ _; omega)]
  change (readFirst _ _ >>= _) = _
  rw [readFirst_all count.symm]
  rfl

/-- A list response fits its block exactly when its paths are 1024 bytes on average or less,
and its length is an `int`. -/
theorem fitsBlock_iff (resp : ObjectListResponse) (count : resp.object_list.length = resp.length.toNat) :
    FitsBlock resp ↔ resp.length.toNat < 2 ^ 31 ∧ totalSize resp.object_list ≤ resp.length.toNat * 1064 := by
  have room := allocated_toNat resp.length
  have cases := copyObjects_cases (allocated resp.length) resp.object_list 0 ⟨12,12⟩ rfl (by omega)
  have condition : (12 + totalSize resp.object_list ≤ (allocated resp.length).toNat ∧
      (resp.object_list = [] ∨ 0 + resp.object_list.length < 2 ^ 31)) ↔
      resp.length.toNat < 2 ^ 31 ∧ totalSize resp.object_list ≤ resp.length.toNat * 1064 := by
    rw [room,count,Nat.zero_add]
    constructor
    · rintro ⟨fits,empty | short⟩
      · have zero : resp.length.toNat = 0 := by rw [← count,empty]; rfl
        omega
      · omega
    · rintro ⟨short,fits⟩
      omega
  rw [FitsBlock,encodeList_eq resp count]
  simp only [condition] at cases
  split at cases
  case isTrue fits =>
    obtain ⟨buf_len,done,counted⟩ := cases
    exact iff_of_true ⟨_,done,by change 12 + _ ≤ _; omega,counted⟩ fits
  case isFalse past =>
    obtain ⟨reason,stopped⟩ := cases (by omega)
    apply iff_of_false _ past
    rintro ⟨progress,done,-⟩
    cases stopped.symm.trans done

/-- Objects that take no more than the block have sizes that do not wrap. -/
theorem totalSize_eq (objects : List Object) (small : (objects.map fun s => 40 + s.path_length.toNat).sum < 2 ^ 64) :
    totalSize objects = (objects.map fun s => 40 + s.path_length.toNat).sum := by
  rw [totalSize]
  congr 1
  apply List.map_congr_left
  intro s member
  have part : 40 + s.path_length.toNat ≤ (objects.map fun s => 40 + s.path_length.toNat).sum :=
    List.single_le_sum (by simp) _ (List.mem_map_of_mem member)
  rw [blen,UInt64.toNat_add]
  change (40 + s.path_length.toNat) % 2 ^ 64 = _
  omega

/-- What the encoder emits has the length the loop counts. -/
theorem emitted_written (resp : ObjectListResponse) (count : resp.object_list.length = resp.length.toNat)
    (room : ∀ s ∈ resp.object_list, s.path_length.toNat ≤ s.data.length) (done : objectResponseEncoderList resp = .ok buf) :
    ∃ buf_len, encodeList resp = .ok ⟨buf.length,buf_len⟩ ∧ buf_len.toNat = buf.length := by
  have images := Lists.mapM_ok resp.object_list objectImage sentImage fun s member => objectImage_ok (room s member)
  have sizes := sentImages_length resp.object_list room
  rw [objectResponseEncoderList,readFirst_all count.symm] at done
  simp only [bind,Except.bind,images,← List.flatMap_def] at done
  split at done
  · cases done
  rename_i short
  split at done
  · cases done
  rename_i inside
  cases done
  simp only [List.length_append,responseImage_length,image32_length,sizes] at inside ⊢
  have word := resp.length.toNat_lt
  have same := totalSize_eq resp.object_list (by omega)
  have block := allocated_toNat resp.length
  have cases := copyObjects_cases (allocated resp.length) resp.object_list 0 ⟨12,12⟩ rfl (by omega)
  rw [if_pos ⟨by change 12 + _ ≤ _; omega,.inr (by omega)⟩,same] at cases
  rw [encodeList_eq resp count,← Nat.add_assoc]
  exact cases

/-- A put is accepted with any path length, a size that wraps included. -/
theorem put_accepts (path_length : UInt64) : ∃ buffer received consume_len,
    objectRequestDecoderPut buffer = .ok (.message received consume_len) ∧ field64 24 buffer = path_length := by
  let s : Object := ⟨0,0,path_length,0,0,List.replicate path_length.toNat 0⟩
  have word := field_path_length (requestImage ⟨0,1,0⟩) s s.data
  rw [requestImage_length] at word
  have length : (requestImage ⟨0,1,0⟩ ++ (headerImage s ++ s.data)).length = 48 + path_length.toNat := by
    simp only [List.length_append,requestImage_length,headerImage_length,s,List.length_replicate]
    omega
  generalize requestImage ⟨0,1,0⟩ ++ (headerImage s ++ s.data) = buffer at word length
  have whole : (48 + path_length).toNat ≤ 48 + path_length.toNat := by
    rw [UInt64.toNat_add]
    exact Nat.mod_le ..
  have header : ¬buffer.length < (48 : UInt64).toNat := by
    change ¬_ < 48
    omega
  have enough : ¬buffer.length < (48 + field64 24 buffer).toNat := by
    have announced : field64 24 buffer = path_length := word
    rw [announced]
    omega
  refine ⟨buffer,receive (some 48) (buffer.take (48 + field64 24 buffer).toNat),48 + field64 24 buffer,?_,word⟩
  rw [objectRequestDecoderPut,pathDecoder,if_neg header,if_neg enough]

def sampleList (path_length : UInt64) : ObjectListResponse :=
  ⟨⟨0,3⟩,1,[⟨0,0,path_length,0,0,List.replicate path_length.toNat 47⟩]⟩

theorem fitsBlock_average : FitsBlock (sampleList 1024) :=
  (fitsBlock_iff (sampleList 1024) rfl).mpr ⟨by decide,by decide⟩

/-- One object whose path is a byte longer than estimated. -/
theorem not_fitsBlock_longer : encodeList (sampleList 1025) = .error .outOfBounds ∧ ¬FitsBlock (sampleList 1025) := by
  have stops : encodeList (sampleList 1025) = .error .outOfBounds := rfl
  refine ⟨stops,?_⟩
  rintro ⟨progress,done,-⟩
  cases stops.symm.trans done

end Muti.ObjectListRoom
