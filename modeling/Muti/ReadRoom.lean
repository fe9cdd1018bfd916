import Muti.Dispatch

/-! The room behind the unread bytes. The follow-up read of a callback asks for what is left
of its buffer, and that is nothing when a whole buffer of unread bytes does not make a
message: a fresh buffer is then filled by the copy. -/
namespace Muti.ReadRoom

open Muti.Bytes Muti.Memory Muti.InPlace Muti.ReadInPlace Muti.DecodeInPlace Muti.Server Muti.Client
open Muti.Framing hiding Parser drain
open Muti.ReadBuffer hiding readCallback receive
open Muti.Resource hiding decodeResponse decodeResponse_eq errorOr

/-- Who issues the read that follows a callback: `serverRead` or `clientRead` themselves,
`serverReadDone` for a buffer left in `to_read_buf`, or nobody, since the connection is
closed before. -/
inductive Issue where
  | read
  | readDone
  | never
  deriving DecidableEq, Repr

section Callbacks

variable (next : Parser σ UInt8 α ε) (read_buffer_size fuel : Nat) (heap : Nat → Nat → UInt8) (buf : Nat → UInt64)

def asked : Issue → Reading σ ε → Option Nat
  | .read, .reading _ rbuf => some (read_buffer_size - rbuf.read_buffer_start)
  | .readDone, .reading _ to_read_buf => some (read_buffer_size - to_read_buf.read_buffer_start)
  | _, _ => none

def asks : Nat → Reading σ ε → List (List UInt8 × Issue) → List Nat
  | n, .reading s rbuf, (chunk,issue) :: turns =>
    let after := (readCallback next read_buffer_size fuel (heap n) (buf n) s rbuf chunk).2
    match asked read_buffer_size issue after with
    | some len => len :: asks (n + 1) after turns
    | none => []
  | _, _, _ => []

def Answered : Nat → Reading σ ε → List (List UInt8 × Issue) → Prop
  | n, .reading s rbuf, (chunk,issue) :: turns =>
    let after := (readCallback next read_buffer_size fuel (heap n) (buf n) s rbuf chunk).2
    (chunk ≠ [] ∧ chunk.length ≤ read_buffer_size - rbuf.read_buffer_start) ∧
      ((asked read_buffer_size issue after).isSome → Answered (n + 1) after turns)
  | _, _, _ => True

/-- `good` holds wherever the loop of a callback looks. -/
def EveryLook (good : σ → Window UInt8 → Issue → Prop) : Nat → Reading σ ε → List (List UInt8 × Issue) → Prop
  | n, .reading s rbuf, (chunk,issue) :: turns =>
    let after := (readCallback next read_buffer_size fuel (heap n) (buf n) s rbuf chunk).2
    (∀ look ∈ looks next fuel s (window (buf n) rbuf chunk), good look.1 look.2 issue) ∧
      ((asked read_buffer_size issue after).isSome → EveryLook good (n + 1) after turns)
  | _, _, _ => True

def Confined (s : σ) (w : Window UInt8) (_ : Issue) : Prop :=
  ∀ left a size s', next.look s w = (left,.item a size s') → size ≤ w.bytes.length

/-- A full buffer of unread bytes is not found incomplete, unless nothing is read any more. -/
def Completes (s : σ) (w : Window UInt8) (issue : Issue) : Prop :=
  w.bytes.length = read_buffer_size → issue ≠ .never → ∀ left s', next.look s w ≠ (left,.more s')

structure Laid (rbuf : Readbuffer) : Prop where
  size : rbuf.buffer.length = read_buffer_size
  order : rbuf.processed_buffer_start ≤ rbuf.read_buffer_start
  inside : rbuf.read_buffer_start ≤ read_buffer_size

variable {next read_buffer_size fuel heap buf}

theorem window_length (laid : Laid read_buffer_size rbuf) (fits : chunk.length ≤ read_buffer_size - rbuf.read_buffer_start)
    (address : UInt64) : (window address rbuf chunk).bytes.length =
      rbuf.read_buffer_start - rbuf.processed_buffer_start + chunk.length := by
  obtain ⟨size,order,inside⟩ := laid
  have short : chunk.length + rbuf.read_buffer_start ≤ read_buffer_size := by omega
  simp only [window,unread,fill,List.length_take,List.length_drop,List.length_append]
  omega

/-- The next read keeps the offsets in order, and has no room exactly behind a full buffer of
unread bytes. -/
theorem followUp_room (heap : Nat → UInt8) (old_rbuf : Readbuffer) (buf : List UInt8) (size : old_rbuf.buffer.length = read_buffer_size)
    (inside : old_rbuf.processed_buffer_start + buf.length ≤ read_buffer_size) :
    Laid read_buffer_size (followUp read_buffer_size heap old_rbuf buf) ∧
      ((followUp read_buffer_size heap old_rbuf buf).read_buffer_start = read_buffer_size ↔ buf.length = read_buffer_size) := by
  by_cases same : old_rbuf.processed_buffer_start + buf.length < read_buffer_size
  · rw [followUp,if_pos same]
    refine ⟨⟨size,Nat.le_add_right _ _,inside⟩,?_⟩
    constructor
    · intro full
      exact absurd full (Nat.ne_of_lt same)
    · intro full
      omega
  · rw [followUp,if_neg same]
    refine ⟨⟨?_,Nat.zero_le _,by change buf.length ≤ _; omega⟩,Iff.rfl⟩
    simp only [createReadBuffer,List.length_append,List.length_drop,malloc_length]
    omega

/-- What a starved loop leaves for the next callback. -/
theorem readCallback_starved (heap : Nat → UInt8) (laid : Laid read_buffer_size rbuf)
    (fits : chunk.length ≤ read_buffer_size - rbuf.read_buffer_start)
    (run : (drain next fuel s (window address rbuf chunk)).2 = .starved s' rest) :
    ∃ rbuf', (readCallback next read_buffer_size fuel heap address s rbuf chunk).2 = .reading s' rbuf' ∧
      Laid read_buffer_size rbuf' ∧ (rbuf'.read_buffer_start = read_buffer_size ↔ rest.length = read_buffer_size) := by
  have count := window_length laid fits address
  obtain ⟨s1,w1,looked,more⟩ := (drain_starved_iff _).mp run
  have shorter := looks_length _ looked
  have kept := look_length more
  obtain ⟨size,order,inside⟩ := laid
  have filled : (fill rbuf chunk).buffer.length = read_buffer_size := by
    simp only [fill,List.length_append,List.length_take,List.length_drop]
    omega
  let start := rbuf.processed_buffer_start + ((window address rbuf chunk).bytes.length - rest.length)
  obtain ⟨laid',room⟩ := followUp_room heap
    { fill rbuf chunk with buffer := store (fill rbuf chunk).buffer start rest, processed_buffer_start := start }
    rest ((store_length ..).trans filled) (by simp only [start]; omega)
  refine ⟨_,?_,laid',room⟩
  simp only [readCallback,run]
  rfl

theorem readCallback_reading {heap : Nat → UInt8}
    (after : (readCallback next read_buffer_size fuel heap address s rbuf chunk).2 = .reading s' rbuf') :
    ∃ rest, (drain next fuel s (window address rbuf chunk)).2 = .starved s' rest := by
  simp only [readCallback] at after
  cases run : (drain next fuel s (window address rbuf chunk)).2 with
  | starved s1 rest =>
    simp only [run,Reading.reading.injEq] at after
    exact ⟨rest,by rw [after.1]⟩
  | stopped s1 rest => simp [run] at after
  | faulted reason => simp [run] at after
  | unfinished => simp [run] at after

/-- One follow-up read asks for a byte exactly when no full buffer was found incomplete. -/
theorem asked_iff (next : Parser σ UInt8 α ε) (fuel : Nat) (s : σ) (heap : Nat → UInt8) (address : UInt64) (issue : Issue)
    (laid : Laid read_buffer_size rbuf) (fits : chunk.length ≤ read_buffer_size - rbuf.read_buffer_start) :
    (∀ len, asked read_buffer_size issue (readCallback next read_buffer_size fuel heap address s rbuf chunk).2 = some len →
      1 ≤ len) ↔
      ∀ look ∈ looks next fuel s (window address rbuf chunk), Completes next read_buffer_size look.1 look.2 issue := by
  constructor
  · rintro room ⟨s1,w1⟩ looked full issued left s' more
    obtain ⟨rbuf',after,laid',full_iff⟩ := readCallback_starved heap laid fits ((drain_starved_iff _).mpr ⟨_,_,looked,more⟩)
    have least := room (read_buffer_size - rbuf'.read_buffer_start) (by cases issue <;> simp_all [asked])
    have none := full_iff.mpr ((look_length more).trans full)
    omega
  · intro completes len read
    cases after : (readCallback next read_buffer_size fuel heap address s rbuf chunk).2 with
    | reading s' rbuf' =>
      obtain ⟨rest,run⟩ := readCallback_reading after
      obtain ⟨s1,w1,looked,more⟩ := (drain_starved_iff _).mp run
      obtain ⟨rbuf2,after2,laid',full_iff⟩ := readCallback_starved heap laid fits run
      cases after.symm.trans after2
      have issued : issue ≠ .never := by
        rintro rfl
        simp [asked] at read
      have len_eq : len = read_buffer_size - rbuf'.read_buffer_start := by
        rw [after] at read
        cases issue <;> simp_all [asked]
      have shorter : rest.length ≠ read_buffer_size := fun full =>
        completes _ looked ((look_length more).symm.trans full) issued _ _ more
      have room := full_iff.not.mpr shorter
      have inside := laid'.inside
      omega
    | closed s' => cases issue <;> simp [after,asked] at read
    | faulted reason => cases issue <;> simp [after,asked] at read
    | hung => cases issue <;> simp [after,asked] at read

theorem asked_reading (issued : (asked read_buffer_size issue after).isSome) :
    ∃ s rbuf, after = (.reading s rbuf : Reading σ ε) ∧
      asked read_buffer_size issue after = some (read_buffer_size - rbuf.read_buffer_start) := by
  cases after with
  | reading s rbuf => cases issue with
    | read => exact ⟨s,rbuf,rfl,rfl⟩
    | readDone => exact ⟨s,rbuf,rfl,rfl⟩
    | never => simp [asked] at issued
  | closed s => cases issue <;> simp [asked] at issued
  | faulted reason => cases issue <;> simp [asked] at issued
  | hung => cases issue <;> simp [asked] at issued

/-- Over a run: every follow-up read asks for a byte exactly when no full buffer was found
incomplete. -/
theorem asks_iff (laid : Laid read_buffer_size rbuf)
    (answered : Answered next read_buffer_size fuel heap buf n (.reading s rbuf) turns) :
    (∀ len ∈ asks next read_buffer_size fuel heap buf n (.reading s rbuf) turns, 1 ≤ len) ↔
      EveryLook next read_buffer_size fuel heap buf (Completes next read_buffer_size) n (.reading s rbuf) turns := by
  induction turns generalizing n s rbuf with
  | nil => simp [asks,EveryLook]
  | cons turn turns ih =>
    obtain ⟨chunk,issue⟩ := turn
    obtain ⟨⟨-,fits⟩,later⟩ := answered
    have first := asked_iff next fuel s (heap n) (buf n) issue laid fits
    rw [EveryLook,← first]
    cases read : asked read_buffer_size issue
        (readCallback next read_buffer_size fuel (heap n) (buf n) s rbuf chunk).2 with
    | none => simp [asks,read]
    | some len =>
      obtain ⟨s',rbuf',after,-⟩ := asked_reading (Option.isSome_iff_exists.mpr ⟨len,read⟩)
      obtain ⟨rest,run⟩ := readCallback_reading after
      obtain ⟨rbuf2,after2,laid',-⟩ := readCallback_starved (heap n) laid fits run
      cases after.symm.trans after2
      have rest := ih laid' (by simpa [after] using later (by simp [read]))
      simp only [asks,read,List.mem_cons,forall_eq_or_imp,Option.some.injEq,forall_eq',Option.isSome_some,true_implies]
      rw [after,rest]

variable (next read_buffer_size fuel heap buf)

/-- The loops stay within the unread bytes, and every follow-up read has room. -/
def HasRoom (s : σ) (turns : List (List UInt8 × Issue)) : Prop :=
  EveryLook next read_buffer_size fuel heap buf (Confined next) 1 (startReading (heap 0) read_buffer_size s) turns ∧
    ∀ len ∈ asks next read_buffer_size fuel heap buf 1 (startReading (heap 0) read_buffer_size s) turns, 1 ≤ len

theorem everyLook_and {good other : σ → Window UInt8 → Issue → Prop} :
    EveryLook next read_buffer_size fuel heap buf (fun s w issue => good s w issue ∧ other s w issue) n state turns ↔
      EveryLook next read_buffer_size fuel heap buf good n state turns ∧
        EveryLook next read_buffer_size fuel heap buf other n state turns := by
  induction turns generalizing n state with
  | nil => cases state <;> simp [EveryLook]
  | cons turn turns ih =>
    obtain ⟨chunk,issue⟩ := turn
    cases state with
    | reading s rbuf =>
      simp only [EveryLook,ih]
      constructor
      · rintro ⟨here,later⟩
        exact ⟨⟨fun look looked => (here look looked).1,fun issued => (later issued).1⟩,
          fun look looked => (here look looked).2,fun issued => (later issued).2⟩
      · rintro ⟨⟨here,later⟩,here',later'⟩
        exact ⟨fun look looked => ⟨here look looked,here' look looked⟩,fun issued => ⟨later issued,later' issued⟩⟩
    | closed s => simp [EveryLook]
    | faulted reason => simp [EveryLook]
    | hung => simp [EveryLook]

theorem everyLook_congr {good other : σ → Window UInt8 → Issue → Prop}
    (same : ∀ s w issue, good s w issue ↔ other s w issue) :
    EveryLook next read_buffer_size fuel heap buf good n state turns ↔
      EveryLook next read_buffer_size fuel heap buf other n state turns := by
  have pointwise : good = other :=
    funext fun s => funext fun w => funext fun issue => propext (same s w issue)
  rw [pointwise]

theorem hasRoom_iff (other : σ → Window UInt8 → Issue → Prop)
    (same : ∀ s w issue, Completes next read_buffer_size s w issue ↔ other s w issue)
    (answered : Answered next read_buffer_size fuel heap buf 1 (startReading (heap 0) read_buffer_size s) turns) :
    HasRoom next read_buffer_size fuel heap buf s turns ↔ EveryLook next read_buffer_size fuel heap buf
      (fun s w issue => Confined next s w issue ∧ other s w issue) 1
      (startReading (heap 0) read_buffer_size s) turns := by
  have laid : Laid read_buffer_size (createReadBuffer (heap 0) read_buffer_size) :=
    ⟨malloc_length _ _,Nat.le_refl _,Nat.zero_le _⟩
  rw [HasRoom,everyLook_and,← everyLook_congr _ _ _ _ _ same,startReading,asks_iff laid answered]

end Callbacks

/-- A whole buffer holds a header, so only a decoder can find it incomplete. -/
def ServerCompletes (param : ServerParam (InPlaceDecoder ReceivedRequest)) (w : Window UInt8) (issue : Issue) : Prop :=
  w.bytes.length = param.read_buffer_size → issue ≠ .never → ∀ decoder left,
    selectDecoder param (field16 0 w.bytes) (field16 2 w.bytes) = .ok (some decoder) →
    decoder.decode w.address w.bytes ≠ .ok (left,.more)

theorem server_completes_iff (param : ServerParam (InPlaceDecoder ReceivedRequest)) (large : 8 ≤ param.read_buffer_size)
    (inserted : Nat → Bool) (jobs : Nat) (w : Window UInt8) (issue : Issue) :
    Completes (serverTurn param inserted) param.read_buffer_size jobs w issue ↔ ServerCompletes param w issue := by
  constructor
  · intro completes full issued decoder left selected more
    apply completes full issued left jobs
    rw [serverTurn_decodes _ _ (by omega) selected,more]
  · intro completes full issued left jobs' more
    have whole : 4 ≤ w.bytes.length := by omega
    rcases selected : selectDecoder param (field16 0 w.bytes) (field16 2 w.bytes) with reason | _ | decoder
    · rw [serverTurn_faults _ _ whole selected] at more
      cases more
    · rw [serverTurn_closes _ _ whole selected] at more
      cases more
    · rw [serverTurn_decodes _ _ whole selected] at more
      rcases decoded : decoder.decode w.address w.bytes with reason | ⟨left',_ | ⟨req,consume_len⟩⟩
      · simp [decoded] at more
      · exact completes full issued decoder left' selected decoded
      · cases accepted : inserted jobs <;> simp [decoded,accepted] at more

def ClientCompletes (block : Nat → UInt64) (read_buffer_size : Nat) (s : ClientLoop) (w : Window UInt8) (issue : Issue) :
    Prop :=
  w.bytes.length = read_buffer_size → issue ≠ .never → ∀ send_arg left, requestFor s.slots w.bytes = some send_arg →
    (decodeResponse (send_arg.decoder (block s.decoded))).decode w.address w.bytes ≠ .ok (left,.more)

theorem client_completes_iff (block : Nat → UInt64) (large : 8 ≤ read_buffer_size) (s : ClientLoop) (w : Window UInt8)
    (issue : Issue) :
    Completes (clientTurn block) read_buffer_size s w issue ↔ ClientCompletes block read_buffer_size s w issue := by
  constructor
  · intro completes full issued send_arg left found more
    have whole : ¬w.bytes.length < 8 := by omega
    apply completes full issued left
    simp only [clientTurn,if_neg whole,found,more]
    rfl
  · intro completes full issued left s' more
    have whole : ¬w.bytes.length < 8 := by omega
    simp only [clientTurn,if_neg whole] at more
    cases found : requestFor s.slots w.bytes with
    | none => simp [found] at more
    | some send_arg =>
      simp only [found] at more
      rcases decoded : (decodeResponse (send_arg.decoder (block s.decoded))).decode w.address w.bytes with
        reason | ⟨left',_ | ⟨resp,consume_len⟩⟩
      · simp [decoded] at more
      · exact completes full issued send_arg left' found decoded
      · simp [decoded] at more

/-- On both sides, for every stream and every way it is split: each follow-up read asks for
at least one byte exactly when no decoder finds a full buffer of unread bytes incomplete. -/
theorem read_room_iff (fuel : Nat) (param : ServerParam (InPlaceDecoder ReceivedRequest)) (inserted : Nat → Bool)
    (large : 8 ≤ param.read_buffer_size) (heap : Nat → Nat → UInt8) (buf : Nat → UInt64)
    (turns : List (List UInt8 × Issue))
    (answered : Answered (serverTurn param inserted) param.read_buffer_size fuel heap buf 1
      (startReading (heap 0) param.read_buffer_size 0) turns)
    (read_buffer_size : Nat) (slots : WaitingHashSlots (UInt64 → InPlaceDecoder Reply)) (block : Nat → UInt64)
    (large' : 8 ≤ read_buffer_size) (heap' : Nat → Nat → UInt8) (buf' : Nat → UInt64)
    (turns' : List (List UInt8 × Issue))
    (answered' : Answered (clientTurn block) read_buffer_size fuel heap' buf' 1
      (startReading (heap' 0) read_buffer_size ⟨slots,0⟩) turns') :
    (HasRoom (serverTurn param inserted) param.read_buffer_size fuel heap buf 0 turns ↔
      EveryLook (serverTurn param inserted) param.read_buffer_size fuel heap buf
        (fun jobs w issue => Confined (serverTurn param inserted) jobs w issue ∧ ServerCompletes param w issue) 1
        (startReading (heap 0) param.read_buffer_size 0) turns) ∧
    (HasRoom (clientTurn block) read_buffer_size fuel heap' buf' ⟨slots,0⟩ turns' ↔
      EveryLook (clientTurn block) read_buffer_size fuel heap' buf'
        (fun s w issue => Confined (clientTurn block) s w issue ∧ ClientCompletes block read_buffer_size s w issue) 1
        (startReading (heap' 0) read_buffer_size ⟨slots,0⟩) turns') :=
  ⟨hasRoom_iff _ _ _ _ _ _ (server_completes_iff param large inserted) answered,
    hasRoom_iff _ _ _ _ _ _ (client_completes_iff block large') answered'⟩

def monServer (read_buffer_size : Nat) : InPlace.Parser Nat UInt8 SRequest Fault :=
  serverTurn (Dispatch.monTables read_buffer_size).param fun _ => true

/-- One request to stop the monitor, and no response. -/
theorem read_room_stop : HasRoom (monServer 16) 16 2 (fun _ _ => 0) (fun _ => 4096) 0
    [([0,0,8,0,0,0,0,0],.read)] := by
  have room := read_room_iff 2 (Dispatch.monTables 16).param (fun _ => true) (by decide) (fun _ _ => 0) (fun _ => 4096)
    [([0,0,8,0,0,0,0,0],.read)] ⟨⟨by decide,by decide⟩,fun _ => trivial⟩ 16 (fun _ => []) (fun _ => 0) (by decide)
    (fun _ _ => 0) (fun _ => 0) [] trivial
  apply room.1.mpr
  refine ⟨?_,fun _ => trivial⟩
  intro look looked
  replace looked : look ∈ [((0 : Nat),(⟨4096,[0,0,8,0,0,0,0,0]⟩ : Window UInt8)),(1,⟨4104,[]⟩)] := looked
  simp only [List.mem_cons,List.not_mem_nil,or_false] at looked
  rcases looked with rfl | rfl
  · have turn : (monServer 16).look 0 ⟨4096,[0,0,8,0,0,0,0,0]⟩ =
        ([0,0,8,0,0,0,0,0],.item ⟨0,8,⟨[0,0,8,0,0,0,0,0],none⟩⟩ 8 1) := rfl
    refine ⟨?_,fun full => absurd full (by decide)⟩
    intro left a size s' handed
    cases turn.symm.trans handed
    decide
  · refine ⟨?_,fun full => absurd full (by decide)⟩
    intro left a size s' handed
    cases handed

/-- A request nobody implements fills the buffer, and the next read asks for nothing. -/
theorem not_room_todo : asks (monServer 8) 8 1 (fun _ _ => 0) (fun _ => 4096) 1 (startReading (fun _ => 0) 8 0)
      [([0,0,2,0,0,0,0,0],.read)] = [0] ∧
    ¬HasRoom (monServer 8) 8 1 (fun _ _ => 0) (fun _ => 4096) 0 [([0,0,2,0,0,0,0,0],.read)] := by
  have none : asks (monServer 8) 8 1 (fun _ _ => 0) (fun _ => 4096) 1 (startReading (fun _ => 0) 8 0)
      [([0,0,2,0,0,0,0,0],.read)] = [0] := by rfl
  refine ⟨none,?_⟩
  rintro ⟨-,room⟩
  have least := room 0 (by rw [none]; exact List.mem_singleton.mpr rfl)
  omega

end Muti.ReadRoom
