import Muti.Memory

/-! The file loops of corecode/util, against a kernel that moves some of the bytes asked for,
wants to be called again, or fails. A loop that has no answer from the kernel yet is still
running; a process that is killed then leaves the file as it is. -/
namespace Muti.FileUtil

open Muti.Memory

/-- What a call of `read` or `write` comes to. `count n` moves `n + 1` bytes, or all there are
if these are fewer; `again` is `EINTR`, `EAGAIN` or a write of nothing. -/
inductive Transfer where
  | count (n : Nat)
  | again
  | failed
  deriving DecidableEq, Repr

inductive Progress (α : Type) where
  | returned (a : α)
  | running
  | stopped (reason : Fault)
  deriving DecidableEq, Repr

/-- `rest` is what of the file has not been read. A read at the end of the file fails the
assertion as an error does. -/
def sysRead : List Transfer → (rest : List UInt8) → (len : Nat) → (buf : List UInt8) → Progress (List UInt8)
  | _, _, 0, buf => .returned buf
  | [], _, _ + 1, _ => .running
  | .again :: transfers, rest, len + 1, buf => sysRead transfers rest (len + 1) buf
  | .failed :: _, _, _ + 1, _ => .stopped .assertion
  | .count n :: transfers, rest, len + 1, buf =>
    let n := min (n + 1) (min (len + 1) rest.length)
    if n = 0 then .stopped .assertion
    else sysRead transfers (rest.drop n) (len + 1 - n) (buf ++ rest.take n)

/-- False is `none`. -/
def fileUtilReadAFile (transfers : List Transfer) (file : Option (List UInt8)) : Progress (Option (List UInt8)) :=
  match file with
  | none => .returned none
  | some file =>
    match sysRead transfers file file.length [] with
    | .returned buffer => .returned (some buffer)
    | .running => .running
    | .stopped reason => .stopped reason

/-- Beside how far it has come, the file. -/
def sysWrite : List Transfer → (buf : List UInt8) → (file : List UInt8) → Progress Unit × List UInt8
  | _, [], file => (.returned (),file)
  | [], _ :: _, file => (.running,file)
  | .again :: transfers, c :: buf, file => sysWrite transfers (c :: buf) file
  | .failed :: _, _ :: _, file => (.stopped .assertion,file)
  | .count n :: transfers, c :: buf, file =>
    sysWrite transfers ((c :: buf).drop (n + 1)) (file ++ (c :: buf).take (n + 1))

/-- The file is emptied as it is opened. -/
def fileUtilWriteAFile (opens : Bool) (transfers : List Transfer) (buffer : List UInt8) (file : Option (List UInt8)) :
    Progress Bool × Option (List UInt8) :=
  if opens then
    match sysWrite transfers buffer [] with
    | (.returned _,file) => (.returned true,some file)
    | (.running,file) => (.running,some file)
    | (.stopped reason,file) => (.stopped reason,some file)
  else (.returned false,file)

theorem sysRead_count (transfers : List Transfer) (c : UInt8) (rest buf : List UInt8) :
    sysRead (.count n :: transfers) (c :: rest) (c :: rest).length buf =
      sysRead transfers ((c :: rest).drop (n + 1)) ((c :: rest).drop (n + 1)).length (buf ++ (c :: rest).take (n + 1)) := by
  have moved : min (n + 1) (min (rest.length + 1) (c :: rest).length) = min (n + 1) (c :: rest).length := by
    rw [List.length_cons,Nat.min_self]
  have positive : min (n + 1) (c :: rest).length ≠ 0 := by
    rw [List.length_cons]
    omega
  have bytes : (c :: rest).take (min (n + 1) (c :: rest).length) = (c :: rest).take (n + 1) := by
    rw [← List.take_take,List.take_length]
  have left : (c :: rest).drop (min (n + 1) (c :: rest).length) = (c :: rest).drop (n + 1) := by
    rcases Nat.le_total (n + 1) (c :: rest).length with fewer | all
    · rw [Nat.min_eq_left fewer]
    · rw [Nat.min_eq_right all,List.drop_length,List.drop_eq_nil_of_le all]
  have count : rest.length + 1 - min (n + 1) (c :: rest).length = ((c :: rest).drop (n + 1)).length := by
    rw [List.length_drop,List.length_cons]
    omega
  rw [List.length_cons,sysRead]
  simp only [moved,if_neg positive,bytes,left,count]

/-- A file is read whole, whatever the calls move. -/
theorem sysRead_whole (transfers : List Transfer) (rest buf : List UInt8) :
    sysRead transfers rest rest.length buf = .returned (buf ++ rest) ∨
      sysRead transfers rest rest.length buf = .running ∨
      sysRead transfers rest rest.length buf = .stopped .assertion ∧ .failed ∈ transfers := by
  induction transfers generalizing rest buf with
  | nil =>
    cases rest with
    | nil => exact .inl (by simp [sysRead])
    | cons c rest => exact .inr (.inl rfl)
  | cons transfer transfers ih =>
    cases rest with
    | nil => exact .inl (by simp [sysRead])
    | cons c rest =>
      cases transfer with
      | again =>
        rcases ih (c :: rest) buf with done | running | ⟨stopped,failed⟩
        · exact .inl done
        · exact .inr (.inl running)
        · exact .inr (.inr ⟨stopped,List.mem_cons_of_mem _ failed⟩)
      | failed => exact .inr (.inr ⟨rfl,List.mem_cons_self⟩)
      | count n =>
        rw [sysRead_count]
        have later := ih ((c :: rest).drop (n + 1)) (buf ++ (c :: rest).take (n + 1))
        rw [List.append_assoc,List.take_append_drop] at later
        rcases later with done | running | ⟨stopped,failed⟩
        · exact .inl done
        · exact .inr (.inl running)
        · exact .inr (.inr ⟨stopped,List.mem_cons_of_mem _ failed⟩)

/-- Nothing but bytes of the buffer gets into the file, in their order, and all of them when
the loop is done. -/
theorem sysWrite_prefix (transfers : List Transfer) (buf file : List UInt8) :
    ∃ written, written <+: buf ∧ (sysWrite transfers buf file).2 = file ++ written ∧
      ((sysWrite transfers buf file).1 = .returned () → written = buf) := by
  induction transfers generalizing buf file with
  | nil =>
    cases buf with
    | nil => exact ⟨[],List.nil_prefix,by simp [sysWrite],fun _ => rfl⟩
    | cons c buf => exact ⟨[],List.nil_prefix,by simp [sysWrite],fun done => by simp [sysWrite] at done⟩
  | cons transfer transfers ih =>
    cases buf with
    | nil => exact ⟨[],List.nil_prefix,by simp [sysWrite],fun _ => rfl⟩
    | cons c buf =>
      cases transfer with
      | again => exact ih (c :: buf) file
      | failed => exact ⟨[],List.nil_prefix,by simp [sysWrite],fun done => by simp [sysWrite] at done⟩
      | count n =>
        obtain ⟨written,before,became,done⟩ := ih ((c :: buf).drop (n + 1)) (file ++ (c :: buf).take (n + 1))
        refine ⟨(c :: buf).take (n + 1) ++ written,?_,?_,?_⟩
        · conv => rhs; rw [← List.take_append_drop (n + 1) (c :: buf)]
          exact (List.prefix_append_right_inj _).mpr before
        · rw [sysWrite,became,List.append_assoc]
        · intro returned
          rw [done returned,List.take_append_drop]

def Transfer.moves : Transfer → Bool
  | .count _ => true
  | _ => false

/-- Calls that move something, as many as there are bytes, are enough. -/
theorem sysRead_enough (reliable : .failed ∉ transfers) (enough : rest.length ≤ (transfers.filter Transfer.moves).length)
    (buf : List UInt8) : sysRead transfers rest rest.length buf = .returned (buf ++ rest) := by
  induction transfers generalizing rest buf with
  | nil =>
    obtain rfl := List.length_eq_zero_iff.mp (Nat.le_zero.mp enough)
    simp [sysRead]
  | cons transfer transfers ih =>
    rw [List.mem_cons,not_or] at reliable
    cases rest with
    | nil => simp [sysRead]
    | cons c rest =>
      cases transfer with
      | again => exact ih reliable.2 enough buf
      | failed => exact absurd rfl reliable.1
      | count n =>
        rw [List.filter_cons_of_pos rfl,List.length_cons,List.length_cons] at enough
        rw [sysRead_count,ih reliable.2 (by rw [List.length_drop,List.length_cons]; omega),List.append_assoc,
          List.take_append_drop]

end Muti.FileUtil
