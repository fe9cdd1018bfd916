import Muti.InPlace
import Muti.ReadBuffer

/-! Reading a stream that is parsed in place. What the parser leaves of the unread bytes is what
the next read continues behind, or what is copied into a fresh buffer. -/
namespace Muti.ReadInPlace

open Muti.Framing Muti.InPlace Muti.ReadBuffer Muti.Memory

/-- The unread bytes of a callback. They lie at `buf`. -/
def window (buf : UInt64) (rbuf : Readbuffer) (chunk : List UInt8) : Window UInt8 :=
  ⟨buf,unread (fill rbuf chunk) chunk.length⟩

variable (next : InPlace.Parser σ UInt8 α ε) (read_buffer_size fuel : Nat)

/-- One read callback: the items it hands out, and the connection afterwards. Its loop is given `fuel` looks: where an
item takes no bytes the next look may still find something else, and no number of looks is enough for every loop. -/
def readCallback (heap : Nat → UInt8) (buf : UInt64) (s : σ) (rbuf : Readbuffer) (chunk : List UInt8) :
    List α × Reading σ ε :=
  let filled := fill rbuf chunk
  let w := window buf rbuf chunk
  let drained := drain next fuel s w
  (drained.1,match drained.2 with
    | .starved s' rest =>
      let processed_buffer_start := filled.processed_buffer_start + (w.bytes.length - rest.length)
      let buffer := store filled.buffer processed_buffer_start rest
      .reading s' (followUp read_buffer_size heap { filled with buffer, processed_buffer_start } rest)
    | .stopped s' _ => .closed s'
    | .faulted reason => .faulted reason
    | .unfinished => .hung)

variable (heap : Nat → Nat → UInt8) (buf : Nat → UInt64)

/-- A whole run: one callback for each chunk, `heap n` backing the `n`-th new buffer; the unread
bytes of the `n`-th callback lie at `buf n`. -/
def receive : Nat → Reading σ ε → List (List UInt8) → List α × Reading σ ε
  | _, state, [] => ([],state)
  | n, .reading s rbuf, chunk :: chunks =>
    let first := readCallback next read_buffer_size fuel (heap n) (buf n) s rbuf chunk
    let later := receive (n + 1) first.2 chunks
    (first.1 ++ later.1,later.2)
  | _, state, _ :: _ => ([],state)

/-- `good` holds at every turn of the loop of every callback. -/
def EveryTurn (good : σ → Window UInt8 → Prop) : Nat → Reading σ ε → List (List UInt8) → Prop
  | n, .reading s rbuf, chunk :: chunks =>
    Throughout next good s (window (buf n) rbuf chunk) ∧
      EveryTurn good (n + 1) (readCallback next read_buffer_size fuel (heap n) (buf n) s rbuf chunk).2 chunks
  | _, _, _ => True

theorem everyTurn_congr {good other : σ → Window UInt8 → Prop} (same : ∀ s w, good s w ↔ other s w) (n : Nat)
    (state : Reading σ ε) (chunks : List (List UInt8)) :
    EveryTurn next read_buffer_size fuel heap buf good n state chunks ↔
      EveryTurn next read_buffer_size fuel heap buf other n state chunks := by
  have pointwise : good = other := funext fun s => funext fun w => propext (same s w)
  rw [pointwise]

theorem receive_items {good : σ → Window UInt8 → Prop} {kept : α → Prop}
    (each : ∀ s w left a size s', good s w → next.look s w = (left,.item a size s') → kept a)
    (always : EveryTurn next read_buffer_size fuel heap buf good n state chunks) :
    ∀ a ∈ (receive next read_buffer_size fuel heap buf n state chunks).1, kept a := by
  induction chunks generalizing n state with
  | nil => cases state <;> simp [receive]
  | cons chunk chunks ih =>
    cases state with
    | reading s rbuf =>
      obtain ⟨here,later⟩ := always
      intro a member
      rcases List.mem_append.mp member with first | rest
      · exact drain_items each _ here a first
      · exact ih later a rest
    | closed s => simp [receive]
    | faulted reason => simp [receive]
    | hung => simp [receive]

end Muti.ReadInPlace
