import Muti.Framing
import Muti.Memory

/-! Reading a stream through a buffer of fixed size. A read fills the buffer behind the
bytes already there, its callback drains whole messages from the front, and the next
read continues in the same buffer, or in a fresh one to which the unread bytes are
copied when they reach the end. -/
namespace Muti

/-- The two offsets of a `Readbuffer` and its memory. -/
structure Readbuffer where
  buffer : List UInt8
  processed_buffer_start : Nat
  read_buffer_start : Nat
  deriving DecidableEq, Repr

namespace ReadBuffer

open Muti.Framing Muti.Memory

def createReadBuffer (heap : Nat → UInt8) (read_buffer_size : Nat) : Readbuffer :=
  ⟨malloc heap read_buffer_size,0,0⟩

/-- What `read(2)` does: the chunk lands behind the bytes read before. -/
def fill (rbuf : Readbuffer) (chunk : List UInt8) : Readbuffer :=
  { rbuf with buffer := rbuf.buffer.take rbuf.read_buffer_start ++ chunk ++
      rbuf.buffer.drop (rbuf.read_buffer_start + chunk.length) }

/-- The `buf_len` bytes at `buf` when the callback starts. -/
def unread (rbuf : Readbuffer) (sz : Nat) : List UInt8 :=
  (rbuf.buffer.drop rbuf.processed_buffer_start).take
    (rbuf.read_buffer_start - rbuf.processed_buffer_start + sz)

def followUp (read_buffer_size : Nat) (heap : Nat → UInt8) (old_rbuf : Readbuffer) (buf : List UInt8) : Readbuffer :=
  if old_rbuf.processed_buffer_start + buf.length < read_buffer_size then
    { old_rbuf with read_buffer_start := old_rbuf.processed_buffer_start + buf.length }
  else
    let rbuf := createReadBuffer heap read_buffer_size
    { rbuf with buffer := buf ++ rbuf.buffer.drop buf.length, read_buffer_start := buf.length }

/-- A connection between two callbacks: reading, closed by its own callback, ended by a
fault, or in a callback that does not return. -/
inductive Reading (σ ε : Type) where
  | reading (s : σ) (rbuf : Readbuffer)
  | closed (s : σ)
  | faulted (reason : ε)
  | hung
  deriving DecidableEq

def startReading (heap : Nat → UInt8) (read_buffer_size : Nat) (s : σ) : Reading σ ε :=
  .reading s (createReadBuffer heap read_buffer_size)

variable (next : Parser σ UInt8 α ε) (read_buffer_size : Nat)

/-- One read callback: the items it hands out, and the connection afterwards. -/
def readCallback (heap : Nat → UInt8) (s : σ) (rbuf : Readbuffer) (chunk : List UInt8) :
    List α × Reading σ ε :=
  let filled := fill rbuf chunk
  let buf := unread filled chunk.length
  let drained := drain next (buf.length + 1) s buf
  (drained.1,match drained.2 with
    | .starved s' rest =>
      .reading s' (followUp read_buffer_size heap
        { filled with processed_buffer_start := filled.processed_buffer_start + (buf.length - rest.length) } rest)
    | .stopped s' _ => .closed s'
    | .faulted reason => .faulted reason
    | .unfinished => .hung)

/-- A whole run: one callback for each chunk, `heap n` backing the `n`-th new buffer. -/
def receive (heap : Nat → Nat → UInt8) : Nat → Reading σ ε → List (List UInt8) → List α × Reading σ ε
  | _, state, [] => ([],state)
  | n, .reading s rbuf, chunk :: chunks =>
    let first := readCallback next read_buffer_size (heap n) s rbuf chunk
    let later := receive heap (n + 1) first.2 chunks
    (first.1 ++ later.1,later.2)
  | _, state, _ :: _ => ([],state)

/-- Every chunk is what its read may return: some bytes, and no more than it asked for. -/
def Chunked (heap : Nat → Nat → UInt8) : Nat → Reading σ ε → List (List UInt8) → Prop
  | n, .reading s rbuf, chunk :: chunks =>
    (chunk ≠ [] ∧ chunk.length ≤ read_buffer_size - rbuf.read_buffer_start) ∧
      Chunked heap (n + 1) (readCallback next read_buffer_size (heap n) s rbuf chunk).2 chunks
  | _, _, _ => True

/-- Between callbacks the buffer keeps exactly these unread bytes, and has room behind them. -/
structure Keeps (rbuf : Readbuffer) (pending : List UInt8) : Prop where
  size : rbuf.buffer.length = read_buffer_size
  room : rbuf.read_buffer_start < read_buffer_size
  order : rbuf.processed_buffer_start + pending.length = rbuf.read_buffer_start
  bytes : (rbuf.buffer.drop rbuf.processed_buffer_start).take pending.length = pending

variable {read_buffer_size}

theorem fill_length (keeps : Keeps read_buffer_size rbuf pending)
    (fits : chunk.length ≤ read_buffer_size - rbuf.read_buffer_start) :
    (fill rbuf chunk).buffer.length = read_buffer_size := by
  have size := keeps.size
  have room := keeps.room
  simp [fill]
  omega

/-- After a read the unread bytes are the old ones followed by the chunk. -/
theorem unread_fill (chunk : List UInt8) (keeps : Keeps read_buffer_size rbuf pending) :
    unread (fill rbuf chunk) chunk.length = pending ++ chunk := by
  obtain ⟨size,room,order,bytes⟩ := keeps
  have start : rbuf.read_buffer_start ≤ rbuf.buffer.length := by omega
  have count : rbuf.read_buffer_start - rbuf.processed_buffer_start = pending.length := by omega
  have front : (rbuf.buffer.take rbuf.read_buffer_start).drop rbuf.processed_buffer_start = pending := by
    rw [List.drop_take,count,bytes]
  simp only [unread,fill,count]
  rw [List.append_assoc,List.drop_append_of_le_length (by simp; omega),front,← List.append_assoc,
    List.take_left' (by simp)]

/-- The follow-up read keeps the unread bytes, wherever it continues. -/
theorem followUp_keeps (heap : Nat → UInt8) (rbuf : Readbuffer) (size : rbuf.buffer.length = read_buffer_size)
    (small : rest.length < read_buffer_size)
    (bytes : (rbuf.buffer.drop rbuf.processed_buffer_start).take rest.length = rest) :
    Keeps read_buffer_size (followUp read_buffer_size heap rbuf rest) rest := by
  by_cases here : rbuf.processed_buffer_start + rest.length < read_buffer_size
  · rw [followUp,if_pos here]
    exact ⟨size,here,rfl,bytes⟩
  · rw [followUp,if_neg here]
    refine ⟨?_,small,by simp [createReadBuffer],by simp [createReadBuffer]⟩
    simp [createReadBuffer]
    omega

/-- Moving past the front of the unread bytes leaves their back. -/
theorem window_back {buffer front back : List UInt8}
    (window : (buffer.drop start).take (front ++ back).length = front ++ back) :
    (buffer.drop (start + front.length)).take back.length = back := by
  have moved := congrArg (List.drop front.length) window
  rw [List.drop_left,List.drop_take,List.drop_drop,List.length_append,Nat.add_sub_cancel_left] at moved
  exact moved

variable {next : Parser σ UInt8 α ε} {ready : σ → List (Message UInt8 α) → Prop}

/-- One callback hands out the messages its chunk completes, and keeps the begun one. -/
theorem readCallback_stream (heap : Nat → UInt8) (serves : Serves next ready) (start : ready s messages)
    (sizes : ∀ m ∈ messages, m.encoded.length ≤ read_buffer_size) (keeps : Keeps read_buffer_size rbuf pending)
    (fits : chunk.length ≤ read_buffer_size - rbuf.read_buffer_start)
    (before : pending ++ chunk <+: stream messages) :
    ∃ taken left s' rbuf' rest, messages = taken ++ left ∧ pending ++ chunk = stream taken ++ rest ∧
      ready s' left ∧ Begins rest left ∧ Keeps read_buffer_size rbuf' rest ∧
      readCallback next read_buffer_size heap s rbuf chunk = (taken.map Message.item,.reading s' rbuf') := by
  obtain ⟨taken,left,s',rest,split,bytes,kept,begun,run⟩ :=
    drain_stream serves ((pending ++ chunk).length + 1) start before (by omega)
  have small : rest.length < read_buffer_size := by
    cases left with
    | nil =>
      obtain rfl : rest = [] := begun
      exact Nat.lt_of_le_of_lt (Nat.zero_le _) keeps.room
    | cons m left =>
      have shorter := Lists.proper_prefix_length begun.1 begun.2
      have whole := sizes m (by simp [split])
      omega
  let filled := fill rbuf chunk
  have buf : unread filled chunk.length = stream taken ++ rest := (unread_fill chunk keeps).trans bytes
  have consumed : (stream taken ++ rest).length - rest.length = (stream taken).length := by
    simp
  have window : (filled.buffer.drop filled.processed_buffer_start).take (stream taken ++ rest).length =
      stream taken ++ rest := by
    have order := keeps.order
    have count : filled.read_buffer_start - filled.processed_buffer_start + chunk.length =
        (stream taken ++ rest).length := by
      rw [← bytes,List.length_append]
      change rbuf.read_buffer_start - rbuf.processed_buffer_start + _ = _
      omega
    rwa [unread,count] at buf
  have keeps' := followUp_keeps heap
    { filled with processed_buffer_start := filled.processed_buffer_start + (stream taken).length }
    (fill_length keeps fits) small (window_back window)
  refine ⟨taken,left,s',_,rest,split,bytes,kept,begun,keeps',?_⟩
  rw [bytes] at run
  simp only [readCallback]
  rw [buf,run]
  simp only [consumed]
  rfl

/-- A run hands out the messages the bytes received so far complete, whatever the chunks. -/
theorem receive_stream (heap : Nat → Nat → UInt8) (n : Nat) (serves : Serves next ready) (start : ready s messages)
    (sizes : ∀ m ∈ messages, m.encoded.length ≤ read_buffer_size) (keeps : Keeps read_buffer_size rbuf pending)
    (chunked : Chunked next read_buffer_size heap n (.reading s rbuf) chunks)
    (begun : Begins pending messages) (before : pending ++ chunks.flatten <+: stream messages) :
    ∃ taken left s' rbuf' rest, messages = taken ++ left ∧ pending ++ chunks.flatten = stream taken ++ rest ∧
      ready s' left ∧ Begins rest left ∧ Keeps read_buffer_size rbuf' rest ∧
      receive next read_buffer_size heap n (.reading s rbuf) chunks = (taken.map Message.item,.reading s' rbuf') := by
  induction chunks generalizing n s rbuf pending messages with
  | nil => exact ⟨[],messages,s,rbuf,pending,rfl,by simp [stream],start,begun,keeps,rfl⟩
  | cons chunk chunks ih =>
    obtain ⟨⟨_,fits⟩,chunked⟩ := chunked
    have bytes : pending ++ (chunk :: chunks).flatten = (pending ++ chunk) ++ chunks.flatten := by simp
    rw [bytes] at before ⊢
    obtain ⟨taken,left,s',rbuf',rest,split,first,kept,begun',keeps',step⟩ :=
      readCallback_stream (heap n) serves start sizes keeps fits ((List.prefix_append _ _).trans before)
    subst split
    rw [step] at chunked
    have onward : rest ++ chunks.flatten <+: stream left := by
      rw [first,List.append_assoc,stream_append] at before
      exact (List.prefix_append_right_inj (stream taken)).mp before
    obtain ⟨taken',left',s'',rbuf'',rest',split',second,kept',begun'',keeps'',run⟩ :=
      ih (n + 1) kept (fun m member => sizes m (List.mem_append_right _ member)) keeps' chunked begun' onward
    refine ⟨taken ++ taken',left',s'',rbuf'',rest',by simp [split'],?_,kept',begun'',keeps'',?_⟩
    · rw [first,List.append_assoc,second,stream_append,List.append_assoc]
    · simp only [receive,step,run,List.map_append]

end ReadBuffer
end Muti
