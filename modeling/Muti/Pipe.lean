import Muti.ConnectionEnds
import Muti.ReadBuffer

/-! One direction of a connection between two processes. One end writes the buffers of its
queue, the kernels carry their bytes, and the read callback of the other end takes items
out of what its reads return, in whatever portions, and asks for the next read. -/
namespace Muti.Framing

/-- What every turn of the parser keeps, a parser that serves messages keeps with them. -/
theorem Serves.keeping {next : Parser σ β α ε} {ready : σ → List (Message β α) → Prop} (serves : Serves next ready)
    (keep : σ → List (Message β α) → Prop)
    (item : ∀ s m messages back s', keep s (m :: messages) →
      next s (m.encoded ++ back) = .item m.item m.encoded.length s' → keep s' messages)
    (more : ∀ s messages unread s', keep s messages → next s unread = .more s' → keep s' messages) :
    Serves next (fun s messages => ready s messages ∧ keep s messages) where
  hungry := by
    intro s ⟨start,kept⟩
    obtain ⟨s',look,ready'⟩ := serves.hungry s start
    exact ⟨s',look,ready',more s [] [] s' kept look⟩
  whole := by
    intro s m messages back ⟨start,kept⟩
    obtain ⟨s',look,ready'⟩ := serves.whole s m messages back start
    exact ⟨s',look,ready',item s m messages back s' kept look⟩
  short := by
    intro s m messages p ⟨start,kept⟩ before proper
    obtain ⟨s',look,ready'⟩ := serves.short s m messages p start before proper
    exact ⟨s',look,ready',more s (m :: messages) p s' kept look⟩
  nonempty := by
    intro s m messages ⟨start,_⟩
    exact serves.nonempty s m messages start

end Muti.Framing

namespace Muti.Pipe

open Muti.Framing Muti.ReadBuffer Muti.Transition

/-- `network` holds what the writer's kernel has accepted and no read has returned. `asked`
tells of a read whose callback has not run, `handled` counts the callbacks that have. -/
structure State (σ α ε : Type) where
  writer : SocketWrite.State
  network : List UInt8
  reader : SocketRead.State
  reading : Reading σ ε
  asked : Bool
  handled : Nat
  items : List α

inductive Action where
  | write (a : SocketWrite.Action)
  | read (a : SocketRead.Action)
  | callback
  deriving DecidableEq

variable (next : Parser σ UInt8 α ε) (read_buffer_size : Nat) (heap : Nat → Nat → UInt8)

def onConnect (s : σ) : State σ α ε where
  writer := SocketWrite.createConnection
  network := []
  reader := SocketRead.createConnection
  reading := .reading s (createReadBuffer (heap 0) read_buffer_size)
  asked := false
  handled := 0
  items := []

/-- A step of the reading end. The read callback asks for the room of its buffer, at once or
when it is let go on, and gives the buffer up when the connection refuses; read(2) returns
what is next in the network, unless it fails. -/
def read (p : State σ α ε) : SocketRead.Action → Option (State σ α ε)
  | .connRead sz => match p.reading with
    | .reading s rbuf =>
      if p.asked = false ∧ sz = read_buffer_size - rbuf.read_buffer_start then
        (SocketRead.step p.reader (.connRead sz)).map fun reader =>
          if p.reader.is_closed then { p with reading := .closed s } else { p with reader, asked := true }
      else none
    | _ => none
  | .read got =>
    let bytes := got.bytes p.reader.job.room
    if bytes <+: p.network then
      (SocketRead.step p.reader (.read got)).map fun reader =>
        { p with reader, network := p.network.drop bytes.length }
    else none
  | a => (SocketRead.step p.reader a).map fun reader => { p with reader }

/-- The callback of a read that was given nothing gives its buffer up. -/
def callback (p : State σ α ε) : Option (State σ α ε) :=
  match p.reader.callbacks[p.handled]?, p.reading with
  | some (_,some data), .reading s rbuf =>
    let called := readCallback next read_buffer_size (heap (p.handled + 1)) s rbuf data
    some { p with reading := called.2, asked := false, handled := p.handled + 1, items := p.items ++ called.1 }
  | some (_,none), .reading s _ => some { p with reading := .closed s, asked := false, handled := p.handled + 1 }
  | _, _ => none

def step (p : State σ α ε) : Action → Option (State σ α ε)
  | .write a => (SocketWrite.step p.writer a).map fun writer =>
      { p with writer, network := p.network ++ writer.wire.drop p.writer.wire.length }
  | .read a => read read_buffer_size p a
  | .callback => callback next read_buffer_size heap p

/-- Someone else changes what the read callback parses with. -/
def State.update (p : State σ α ε) (change : σ → σ) : State σ α ε :=
  match p.reading with
  | .reading s rbuf => { p with reading := .reading (change s) rbuf }
  | .closed s => { p with reading := .closed (change s) }
  | _ => p

def State.given (p : State σ α ε) : List UInt8 := ((p.reader.callbacks.take p.handled).filterMap Prod.snd).flatten

/-- At most one read is out, for the room of the buffer, and no byte is lost between the ends. -/
structure Inv (p : State σ α ε) : Prop where
  writer : SocketWrite.Inv p.writer
  reader : SocketRead.Inv p.reader
  fits : SocketRead.Fits p.reader
  wire : p.writer.wire = p.reader.received ++ p.network
  silent : p.reader.late = []
  behind : p.handled ≤ p.reader.callbacks.length
  one : p.reader.asked.length + p.reader.callbacks.length = p.handled + p.asked.toNat
  reads : p.asked = true → ∃ s rbuf, p.reading = .reading s rbuf
  sizes : ∀ s rbuf, p.reading = .reading s rbuf → ∀ sz ∈ p.reader.asked, sz = read_buffer_size - rbuf.read_buffer_start
  chunk : ∀ s rbuf n data, p.reading = .reading s rbuf → p.reader.callbacks[p.handled]? = some (n,some data) →
    data ≠ [] ∧ data.length ≤ read_buffer_size - rbuf.read_buffer_start
  told : p.reader.ended = true → (∃ n, p.reader.callbacks[p.handled]? = some (n,none)) ∨
    ∀ s rbuf, p.reading ≠ .reading s rbuf

theorem onConnect_inv (s : σ) : Inv read_buffer_size (onConnect read_buffer_size heap s : State σ α ε) where
  writer := SocketWrite.createConnection_inv
  reader := SocketRead.createConnection_inv
  fits := nofun
  wire := rfl
  silent := rfl
  behind := Nat.le_refl _
  one := rfl
  reads := nofun
  sizes := by simp [onConnect,SocketRead.createConnection,SocketRead.State.asked,SocketRead.Job.head]
  chunk := by simp [onConnect,SocketRead.createConnection]
  told := nofun

variable {next read_buffer_size heap} {p p' : State σ α ε}

theorem write_inv (inv : Inv read_buffer_size p) (final : SocketWrite.Final p.writer a)
    (taken : step next read_buffer_size heap p (.write a) = some p') : Inv read_buffer_size p' := by
  simp only [step,Option.map_eq_some_iff] at taken
  obtain ⟨writer,moved,rfl⟩ := taken
  have grows : p.writer.wire <+: writer.wire := by
    by_cases asks : ∃ buf, a = .connWrite buf
    · obtain ⟨buf,rfl⟩ := asks
      cases moved
      split <;> exact List.prefix_refl _
    · exact (SocketWrite.step_writes inv.writer final (fun buf new => asks ⟨buf,new⟩) moved).wire
  refine { inv with writer := SocketWrite.step_inv inv.writer final moved, wire := ?_ }
  obtain ⟨bytes,wire⟩ := grows
  change writer.wire = p.reader.received ++ (p.network ++ writer.wire.drop p.writer.wire.length)
  rw [← wire,List.drop_left,← List.append_assoc,← inv.wire]

theorem reading_asked {s : SocketRead.State} (job : s.job = .reading (ioctx :: rest) data) : 0 < s.asked.length := by
  simp [SocketRead.State.asked,job,SocketRead.Job.head]

/-- Until its first end or error, every byte of a read(2) is accounted for. -/
theorem read_account {s s' : SocketRead.State} (going : s.ended = false)
    (taken : SocketRead.step s (.read got) = some s') :
    s'.received = s.received ++ got.bytes s.job.room ∧ s'.late = s.late ∧
      (s'.ended = true → ∃ n more, s'.callbacks = s.callbacks ++ (n,none) :: more) := by
  rcases job : s.job with _ | _ | ⟨_ | ⟨ioctx,rest⟩,data⟩ | _
  · simp [SocketRead.step,job] at taken
  · simp [SocketRead.step,job] at taken
  · simp [SocketRead.step,job] at taken
  · simp only [SocketRead.step,job,Option.some.injEq] at taken
    subst taken
    simp only [SocketRead.Job.room]
    rcases SocketRead.socketNoneBlockRead_cases ioctx.buf_size data got with ⟨fails,nothing⟩ | ⟨more,sum,goes⟩
    · rw [fails,nothing]
      simp only [SocketRead.account,going,Bool.false_eq_true,if_false,if_true]
      exact ⟨(List.append_nil _).symm,rfl,fun _ => ⟨ioctx.number,_,rfl⟩⟩
    · have onward : SocketRead.socketNoneBlockRead ioctx.buf_size data got ≠ .returns none := by
        rcases goes with goes | goes <;> simp [goes]
      obtain ⟨s',result,ends,receives,_,lates,_⟩ := SocketRead.socketDoRead_more
        (SocketRead.account s data (got.bytes (ioctx.buf_size - data.length))
          (SocketRead.socketNoneBlockRead ioctx.buf_size data got)) ioctx rest more _ goes
      rw [result]
      simp only [SocketRead.account,going,if_neg onward,Bool.false_eq_true,if_false] at ends receives lates
      refine ⟨receives,lates,fun stops => ?_⟩
      rw [ends] at stops
      cases stops
  · simp [SocketRead.step,job] at taken

/-- The account of what was read changes with read(2) only. -/
theorem account_step {s s' : SocketRead.State} (other : ∀ got, a ≠ .read got) (taken : SocketRead.step s a = some s') :
    s'.received = s.received ∧ s'.late = s.late ∧ s'.ended = s.ended := by
  cases a with
  | read got => exact absurd rfl (other got)
  | connRead sz | close =>
    cases taken
    split <;> exact ⟨rfl,rfl,rfl⟩
  | listAddTail sz | postIOJobs =>
    simp only [SocketRead.step,Option.ite_none_right_eq_some] at taken
    obtain ⟨_,taken⟩ := taken
    cases taken
    exact ⟨rfl,rfl,rfl⟩
  | take | leave =>
    cases job : s.job <;> simp only [SocketRead.step,job,Option.some.injEq,reduceCtorEq] at taken
    subst taken
    exact ⟨rfl,rfl,rfl⟩
  | testClosed =>
    cases job : s.job <;> simp only [SocketRead.step,job,Option.some.injEq,reduceCtorEq] at taken
    subst taken
    split <;> exact ⟨rfl,rfl,rfl⟩

/-- The reading end moves on with the reads it was asked for. -/
theorem Inv.moved {reader : SocketRead.State} {network : List UInt8} (inv : Inv read_buffer_size p)
    (old : ∀ sz, a ≠ .connRead sz) (moved : SocketRead.step p.reader a = some reader)
    (wire : p.writer.wire = reader.received ++ network) (silent : reader.late = [])
    (told : reader.ended = true → p.reader.ended = true ∨ p.reader.asked ≠ [] ∧
      ∃ n more, reader.callbacks = p.reader.callbacks ++ (n,none) :: more) :
    Inv read_buffer_size { p with reader, network } := by
  obtain ⟨fits,sizes,more,callbacks,count,chunks⟩ := SocketRead.step_moves inv.fits old moved
  have one := inv.one
  have behind := inv.behind
  have grown : reader.callbacks.length = p.reader.callbacks.length + more.length := by simp [callbacks]
  have kept : ∀ called, p.reader.callbacks[p.handled]? = some called → reader.callbacks[p.handled]? = some called := by
    intro called here
    rw [callbacks,List.getElem?_append_left (List.getElem?_eq_some_iff.mp here).1]
    exact here
  refine ⟨inv.writer,SocketRead.step_inv inv.reader moved,fits,wire,silent,?_,?_,inv.reads,?_,?_,?_⟩
  · change p.handled ≤ reader.callbacks.length
    omega
  · change reader.asked.length + reader.callbacks.length = p.handled + p.asked.toNat
    omega
  · intro s rbuf reading sz member
    exact inv.sizes s rbuf reading sz (sizes sz member)
  · intro s rbuf n data reading called
    change reader.callbacks[p.handled]? = some (n,some data) at called
    rw [callbacks,List.getElem?_append] at called
    split at called
    · exact inv.chunk s rbuf n data reading called
    · obtain ⟨some_bytes,sz,asked,upper⟩ := chunks n data (List.mem_of_getElem? called)
      rw [inv.sizes s rbuf reading sz asked] at upper
      exact ⟨some_bytes,upper⟩
  · intro ended
    rcases told ended with before | ⟨asked,n,others,called⟩
    · rcases inv.told before with ⟨n,called⟩ | nowhere
      · exact .inl ⟨n,kept _ called⟩
      · exact .inr nowhere
    · have waiting := List.length_pos_of_ne_nil asked
      have toNat := Bool.toNat_le p.asked
      have last : p.reader.callbacks.length = p.handled := by omega
      refine .inl ⟨n,?_⟩
      change reader.callbacks[p.handled]? = some (n,none)
      rw [called,← last]
      simp

theorem read_inv (inv : Inv read_buffer_size p) (taken : step next read_buffer_size heap p (.read a) = some p') :
    Inv read_buffer_size p' := by
  cases a with
  | connRead sz =>
    cases reading : p.reading with
    | reading s rbuf =>
      simp only [step,read,reading,Option.ite_none_right_eq_some,Option.map_eq_some_iff] at taken
      obtain ⟨⟨unasked,room⟩,reader,moved,rfl⟩ := taken
      have one := inv.one
      have behind := inv.behind
      simp only [unasked,Bool.toNat_false] at one
      have free : p.reader.asked = [] := List.length_eq_zero_iff.mp (by omega)
      have all : p.reader.callbacks[p.handled]? = none := List.getElem?_eq_none (by omega)
      split
      · exact { inv with
          reads := fun asked => by simp [unasked] at asked
          sizes := nofun
          chunk := nofun
          told := fun _ => .inr nofun }
      · rename_i opened
        simp only [SocketRead.step,if_neg opened,Option.some.injEq] at moved
        subst moved
        have asked : SocketRead.State.asked { p.reader with callers := sz :: p.reader.callers } = [sz] :=
          congrArg (sz :: ·) free
        refine ⟨inv.writer,inv.reader.keep rfl rfl rfl rfl rfl rfl,inv.fits,inv.wire,inv.silent,inv.behind,?_,?_,?_,?_,?_⟩
        · change (SocketRead.State.asked _).length + p.reader.callbacks.length = p.handled + 1
          rw [asked,List.length_singleton]
          omega
        · exact fun _ => ⟨s,rbuf,rfl⟩
        · intro s' rbuf' same sz' member
          cases same
          rw [asked] at member
          exact (List.mem_singleton.mp member).trans room
        · intro s' rbuf' n data _ called
          exact absurd (called.symm.trans all) (Option.some_ne_none _)
        · intro ended
          rcases inv.told ended with ⟨n,called⟩ | nowhere
          · exact absurd (called.symm.trans all) (Option.some_ne_none _)
          · exact absurd reading (nowhere s rbuf)
    | _ => simp [step,read,reading] at taken
  | read got =>
    simp only [step,read,Option.ite_none_right_eq_some,Option.map_eq_some_iff] at taken
    obtain ⟨⟨rest,bytes⟩,reader,moved,rfl⟩ := taken
    have some_asked : 0 < p.reader.asked.length := by
      rcases job : p.reader.job with _ | _ | ⟨_ | ⟨ioctx,others⟩,data⟩ | _
      · simp [SocketRead.step,job] at moved
      · simp [SocketRead.step,job] at moved
      · simp [SocketRead.step,job] at moved
      · exact reading_asked job
      · simp [SocketRead.step,job] at moved
    have one := inv.one
    have behind := inv.behind
    have going : p.reader.ended = false := by
      cases ended : p.reader.ended with
      | false => rfl
      | true =>
        rcases inv.told ended with ⟨n,called⟩ | nowhere
        · have inside := (List.getElem?_eq_some_iff.mp called).1
          have toNat := Bool.toNat_le p.asked
          omega
        · cases asked : p.asked with
          | false =>
            simp only [asked,Bool.toNat_false] at one
            omega
          | true =>
            obtain ⟨s,rbuf,reading⟩ := inv.reads asked
            exact absurd reading (nowhere s rbuf)
    obtain ⟨received,late,ends⟩ := read_account going moved
    refine inv.moved (by simp) moved ?_ (late.trans inv.silent) fun ended =>
      .inr ⟨List.ne_nil_of_length_pos some_asked,ends ended⟩
    rw [inv.wire,received,← bytes,List.drop_left,List.append_assoc]
  | listAddTail sz | take | testClosed | leave | close | postIOJobs =>
    simp only [step,read,Option.map_eq_some_iff] at taken
    obtain ⟨reader,moved,rfl⟩ := taken
    obtain ⟨received,late,ended⟩ := account_step (by simp) moved
    refine inv.moved (by simp) moved ?_ (late.trans inv.silent) fun ends => .inl (ended ▸ ends)
    rw [received]
    exact inv.wire

theorem callback_inv (inv : Inv read_buffer_size p) (taken : step next read_buffer_size heap p .callback = some p') :
    Inv read_buffer_size p' := by
  have one := inv.one
  have toNat := Bool.toNat_le p.asked
  have after : ∀ called (reading : Reading σ ε) (items : List α), p.reader.callbacks[p.handled]? = some called →
      (p.reader.ended = true → ∀ s rbuf, reading ≠ .reading s rbuf) → Inv read_buffer_size
        { p with reading := reading, asked := false, handled := p.handled + 1, items := items } := by
    intro called reading items here told
    have inside := (List.getElem?_eq_some_iff.mp here).1
    have last : p.reader.callbacks.length = p.handled + 1 := by omega
    have free : p.reader.asked = [] := List.length_eq_zero_iff.mp (by omega)
    have all : p.reader.callbacks[p.handled + 1]? = none := List.getElem?_eq_none (by omega)
    refine ⟨inv.writer,inv.reader,inv.fits,inv.wire,inv.silent,?_,?_,nofun,?_,?_,fun ended => .inr (told ended)⟩
    · exact Nat.le_of_eq last.symm
    · simp [free,last]
    · simp [free]
    · intro s rbuf n data _ called
      exact absurd (called.symm.trans all) (Option.some_ne_none _)
  simp only [step,callback] at taken
  split at taken
  · rename_i number data s rbuf called reading
    cases taken
    refine after _ _ _ called fun ended => ?_
    rcases inv.told ended with ⟨n,nothing⟩ | nowhere
    · exact absurd (nothing.symm.trans called) (by simp)
    · exact absurd reading (nowhere s rbuf)
  · rename_i called reading
    cases taken
    exact after _ _ _ called fun _ => nofun
  · cases taken

theorem step_inv (inv : Inv read_buffer_size p) (final : ∀ w, a = .write w → SocketWrite.Final p.writer w)
    (taken : step next read_buffer_size heap p a = some p') : Inv read_buffer_size p' := by
  cases a with
  | write w => exact write_inv inv (final w rfl) taken
  | read r => exact read_inv inv taken
  | callback => exact callback_inv inv taken

theorem given_next (called : p.reader.callbacks[p.handled]? = some (n,some data)) :
    ((p.reader.callbacks.take (p.handled + 1)).filterMap Prod.snd).flatten = p.given ++ data := by
  rw [List.take_add_one,called]
  simp [State.given]

theorem Inv.delivered_written (inv : Inv read_buffer_size p) : p.reader.delivered <+: p.writer.wire := by
  have all : p.reader.delivered <+: p.reader.received := by
    cases ended : p.reader.ended with
    | false =>
      rw [(inv.reader.before ended).1]
      exact List.prefix_append ..
    | true =>
      rw [(inv.reader.after ended inv.silent).1]
      exact List.prefix_append ..
  rw [inv.wire]
  exact all.trans (List.prefix_append ..)

/-- What any number of callbacks were given was written. -/
theorem Inv.given_written (inv : Inv read_buffer_size p) (k : Nat) :
    ((p.reader.callbacks.take k).filterMap Prod.snd).flatten <+: p.writer.wire := by
  refine List.IsPrefix.trans ?_ inv.delivered_written
  refine ⟨((p.reader.callbacks.drop k).filterMap Prod.snd).flatten,?_⟩
  rw [← List.flatten_append,← List.filterMap_append,List.take_append_drop]
  rfl

/-- The items are those of these messages, the first of those that were sent, and what has
been given beyond them is not a whole message. -/
structure Taken (read_buffer_size : Nat) (p : State σ α ε) (front : List (Message UInt8 α)) : Prop where
  accepted : front.map Message.encoded <+: p.writer.accepted
  items : p.items = front.map Message.item
  state : (∃ s, p.reading = .closed s) ∨ ∃ s rbuf, p.reading = .reading s rbuf
  pending : ∀ s rbuf, p.reading = .reading s rbuf → ∃ pending, (0 < read_buffer_size → Keeps read_buffer_size rbuf pending) ∧
    p.given = stream front ++ pending ∧
    ∀ buf, front.map Message.encoded ++ [buf] <+: p.writer.accepted → pending.length < buf.length

theorem onConnect_taken (s : σ) : Taken read_buffer_size (onConnect read_buffer_size heap s : State σ α ε) [] where
  accepted := List.nil_prefix
  items := rfl
  state := .inr ⟨_,_,rfl⟩
  pending := by
    intro s' rbuf reading
    cases reading
    refine ⟨[],fun positive => ?_,rfl,fun buf before => ?_⟩
    · exact ⟨by simp [createReadBuffer],by simpa [createReadBuffer] using positive,rfl,rfl⟩
    · exact absurd (List.prefix_nil.mp before) (by simp)

theorem stream_flatten (messages : List (Message UInt8 α)) : stream messages = (messages.map Message.encoded).flatten := by
  rw [stream,List.flatMap_def]

theorem Taken.write (tk : Taken read_buffer_size p front) (inv : Inv read_buffer_size p)
    (final : SocketWrite.Final p.writer a) (taken : step next read_buffer_size heap p (.write a) = some p') :
    Taken read_buffer_size p' front := by
  simp only [step,Option.map_eq_some_iff] at taken
  obtain ⟨writer,moved,rfl⟩ := taken
  have grown : writer.accepted = p.writer.accepted ∨ ∃ n < p.writer.queued.length,
      writer.accepted = p.writer.accepted ++ [p.writer.buffer n] ∧
        p.writer.wire.length < (p.writer.accepted ++ [p.writer.buffer n]).flatten.length := by
    by_cases asks : ∃ buf, a = .connWrite buf
    · obtain ⟨buf,rfl⟩ := asks
      cases moved
      split <;> exact .inl rfl
    · exact (SocketWrite.step_writes inv.writer final (fun buf new => asks ⟨buf,new⟩) moved).accepted inv.writer
  rcases grown with same | ⟨n,_,more,missing⟩
  · refine ⟨?_,tk.items,tk.state,?_⟩
    · rw [same]
      exact tk.accepted
    · rw [same]
      exact tk.pending
  · refine ⟨?_,tk.items,tk.state,?_⟩
    · rw [more]
      exact tk.accepted.trans (List.prefix_append ..)
    · intro s rbuf reading
      obtain ⟨pending,keeps,given,short⟩ := tk.pending s rbuf reading
      refine ⟨pending,keeps,given,fun buf before => ?_⟩
      rw [more] at before
      rcases List.prefix_concat_iff.mp before with whole | before
      · obtain ⟨all,last⟩ := List.append_inj' whole rfl
        cases last
        have upper := (inv.given_written p.handled).length_le
        have total : p.given.length = p.writer.accepted.flatten.length + pending.length := by
          rw [given,stream_flatten,all,List.length_append]
        simp only [List.flatten_append,List.flatten_singleton,List.length_append] at missing
        change p.given.length ≤ _ at upper
        omega
      · exact short buf before

theorem Taken.moved {reader : SocketRead.State} {network : List UInt8} (tk : Taken read_buffer_size p front)
    (inv : Inv read_buffer_size p) (old : ∀ sz, a ≠ .connRead sz) (moved : SocketRead.step p.reader a = some reader) :
    Taken read_buffer_size { p with reader, network } front := by
  obtain ⟨_,_,more,callbacks,_,_⟩ := SocketRead.step_moves inv.fits old moved
  have given : State.given { p with reader, network } = p.given := by
    change ((reader.callbacks.take p.handled).filterMap Prod.snd).flatten = _
    rw [callbacks,List.take_append_of_le_length inv.behind]
    rfl
  refine ⟨tk.accepted,tk.items,tk.state,fun s rbuf reading => ?_⟩
  rw [given]
  exact tk.pending s rbuf reading

theorem Taken.read (tk : Taken read_buffer_size p front) (inv : Inv read_buffer_size p)
    (taken : step next read_buffer_size heap p (.read a) = some p') : Taken read_buffer_size p' front := by
  cases a with
  | connRead sz =>
    cases reading : p.reading with
    | reading s rbuf =>
      simp only [step,Pipe.read,reading,Option.ite_none_right_eq_some,Option.map_eq_some_iff] at taken
      obtain ⟨_,reader,moved,rfl⟩ := taken
      split
      · exact ⟨tk.accepted,tk.items,.inl ⟨_,rfl⟩,nofun⟩
      · rename_i opened
        simp only [SocketRead.step,if_neg opened,Option.some.injEq] at moved
        subst moved
        have pending := tk.pending
        rw [reading] at pending
        exact ⟨tk.accepted,tk.items,.inr ⟨_,_,rfl⟩,pending⟩
    | _ => simp [step,Pipe.read,reading] at taken
  | read got =>
    simp only [step,Pipe.read,Option.ite_none_right_eq_some,Option.map_eq_some_iff] at taken
    obtain ⟨_,reader,moved,rfl⟩ := taken
    exact tk.moved inv (by simp) moved
  | listAddTail sz | take | testClosed | leave | close | postIOJobs =>
    simp only [step,Pipe.read,Option.map_eq_some_iff] at taken
    obtain ⟨reader,moved,rfl⟩ := taken
    exact tk.moved inv (by simp) moved

/-- What has been given stays within the accepted buffers, as the one begun behind them is
not whole. -/
theorem within_accepted {bufs : List (List UInt8)} {writer : SocketWrite.State} (begun : SocketWrite.Begun writer extra)
    (before : bufs <+: writer.accepted ++ extra.map writer.buffer) (written : bufs.flatten <+: writer.wire) :
    bufs <+: writer.accepted := by
  rcases Lists.prefix_append_cases before with inside | ⟨rest,split,onward⟩
  · exact inside
  · cases rest with
    | nil => exact (split.trans (List.append_nil _)) ▸ List.prefix_refl _
    | cons buf rest =>
      have one := begun.one
      obtain ⟨n,rfl⟩ : ∃ n, extra = [n] := by
        cases extra with
        | nil => exact absurd (List.prefix_nil.mp onward) (by simp)
        | cons n others =>
          simp only [List.length_cons] at one
          exact ⟨n,by rw [List.length_eq_zero_iff.mp (by omega : others.length = 0)]⟩
      obtain ⟨rfl,_⟩ := List.cons_prefix_cons.mp onward
      have missing := begun.missing n (List.mem_singleton.mpr rfl)
      have upper := written.length_le
      simp only [split,List.flatten_append,List.flatten_cons,List.flatten_nil,List.length_append,
        List.length_nil] at missing upper
      omega

/-- A callback takes the messages its bytes complete, all of them accepted. -/
theorem Taken.callback {ready : σ → List (Message UInt8 α) → Prop} (tk : Taken read_buffer_size p front)
    (inv : Inv read_buffer_size p) (serves : Serves next ready)
    (called : p.reader.callbacks[p.handled]? = some (n,some data)) (reading : p.reading = .reading s rbuf)
    (begun : SocketWrite.Begun p.writer extra)
    (images : (front ++ ahead).map Message.encoded = p.writer.accepted ++ extra.map p.writer.buffer)
    (start : ready s ahead) (sizes : ∀ m ∈ ahead, m.encoded.length ≤ read_buffer_size)
    (taken : step next read_buffer_size heap p .callback = some p') :
    ∃ more left s' rbuf', ahead = more ++ left ∧ ready s' left ∧ Taken read_buffer_size p' (front ++ more) ∧
      p'.writer = p.writer ∧ p'.reading = .reading s' rbuf' := by
  obtain ⟨some_bytes,upper⟩ := inv.chunk s rbuf n data reading called
  have positive : 0 < read_buffer_size := by
    have nonempty := List.length_pos_of_ne_nil some_bytes
    omega
  obtain ⟨pending,keeps,given,_⟩ := tk.pending s rbuf reading
  have written : p.given ++ data <+: p.writer.wire := by
    rw [← given_next called]
    exact inv.given_written (p.handled + 1)
  have onward : pending ++ data <+: stream ahead := by
    have all := written.trans begun.wire
    rw [← images,← stream_flatten,given,List.append_assoc,stream_append] at all
    exact (List.prefix_append_right_inj _).mp all
  obtain ⟨more,left,s',rbuf',rest,split,bytes,kept,begins,keeps',run⟩ :=
    readCallback_stream (heap (p.handled + 1)) serves start sizes (keeps positive) upper onward
  simp only [step,Pipe.callback,called,reading,Option.some.injEq] at taken
  subst taken
  have given' : p.given ++ data = stream (front ++ more) ++ rest := by
    rw [given,List.append_assoc,bytes,stream_append,List.append_assoc]
  refine ⟨more,left,s',rbuf',split,kept,⟨?_,?_,?_,?_⟩,rfl,by rw [run]⟩
  · refine within_accepted begun ?_ ?_
    · rw [← images,split,← List.append_assoc]
      exact (List.prefix_append (front ++ more) left).map _
    · rw [← stream_flatten]
      exact (List.prefix_append _ rest).trans (given' ▸ written)
  · simp [run,tk.items]
  · exact .inr ⟨s',rbuf',by rw [run]⟩
  · intro s2 rbuf2 now
    rw [run] at now
    cases now
    refine ⟨rest,fun _ => keeps',(given_next called).trans given',fun buf before => ?_⟩
    have within : (front ++ more).map Message.encoded ++ [buf] <+:
        (front ++ more).map Message.encoded ++ left.map Message.encoded := by
      rw [← List.map_append,List.append_assoc front,← split,images]
      exact before.trans (List.prefix_append ..)
    cases left with
    | nil => exact absurd (List.prefix_nil.mp ((List.prefix_append_right_inj _).mp within)) (by simp)
    | cons m left =>
      obtain ⟨rfl,_⟩ := List.cons_prefix_cons.mp ((List.prefix_append_right_inj _).mp within)
      exact Lists.proper_prefix_length begins.1 begins.2

/-- The callback of a read that got nothing takes nothing. -/
theorem Taken.gives_up (tk : Taken read_buffer_size p front)
    (called : p.reader.callbacks[p.handled]? = some (n,none)) (reading : p.reading = .reading s rbuf)
    (taken : step next read_buffer_size heap p .callback = some p') :
    Taken read_buffer_size p' front ∧ p'.writer = p.writer ∧ p'.reading = .closed s := by
  simp only [step,Pipe.callback,called,reading,Option.some.injEq] at taken
  subst taken
  exact ⟨⟨tk.accepted,tk.items,.inl ⟨s,rfl⟩,nofun⟩,rfl,rfl⟩

/-- Nothing is on its way from the writer's kernel to the read callback any more. -/
structure Settled (p : State σ α ε) : Prop where
  network : p.network = []
  going : p.reader.ended = false
  data : p.reader.job.data = []
  handled : p.handled = p.reader.callbacks.length
  reading : ∃ s rbuf, p.reading = .reading s rbuf

theorem Taken.all (tk : Taken read_buffer_size p front) (inv : Inv read_buffer_size p) (settled : Settled p) :
    front.map Message.encoded = p.writer.accepted := by
  obtain ⟨network,going,data,handled,s,rbuf,reading⟩ := settled
  have given : p.given = p.writer.wire := by
    rw [inv.wire,network,List.append_nil,(inv.reader.before going).1,data,List.append_nil,State.given,handled,List.take_length]
    rfl
  obtain ⟨pending,_,split,short⟩ := tk.pending s rbuf reading
  obtain ⟨rest,accepted⟩ := tk.accepted
  cases rest with
  | nil => rw [← accepted,List.append_nil]
  | cons buf rest =>
    have less := short buf ⟨rest,by rw [← accepted]; simp⟩
    obtain ⟨part,sends,_⟩ := inv.writer.wire
    have lengths := congrArg List.length (split.symm.trans (given.trans sends))
    have sum : p.writer.sentBytes = stream front ++ buf ++ rest.flatten := by
      change p.writer.accepted.flatten = _
      rw [← accepted,List.flatten_append,stream_flatten]
      simp
    rw [sum] at lengths
    simp only [List.length_append] at lengths
    omega

/-- The buffers asked to be written that no item was taken from, but for those under these numbers. -/
def State.ahead (p : State σ α ε) (other : List Nat) : List (List UInt8) :=
  p.writer.ahead (other ++ p.writer.sent.take p.items.length)

/-- What the read callback parses with, as long as it has not failed. -/
def parser : Reading σ ε → Option σ
  | .reading s _ | .closed s => some s
  | .faulted _ | .hung => none

theorem Taken.count (tk : Taken read_buffer_size p front) :
    p.items.length = front.length ∧ p.items.length ≤ p.writer.sent.length := by
  have items : p.items.length = front.length := by rw [tk.items,List.length_map]
  have fewer := tk.accepted.length_le
  rw [List.length_map,SocketWrite.State.accepted,List.length_map] at fewer
  omega

/-- A step that neither asks for a write nor runs a callback leaves what is ahead as it is. -/
theorem Taken.goes_on (tk : Taken read_buffer_size p front) (inv : Inv read_buffer_size p)
    (final : ∀ w, a = .write w → SocketWrite.Final p.writer w) (old : ∀ buf, a ≠ .write (.connWrite buf))
    (other : a ≠ .callback) (taken : step next read_buffer_size heap p a = some p') :
    Taken read_buffer_size p' front ∧ p'.items = p.items ∧ parser p'.reading = parser p.reading ∧
      ∀ gone, (∀ n ∈ gone, n < p.writer.queued.length) → (p'.ahead gone).Perm (p.ahead gone) := by
  cases a with
  | callback => exact absurd rfl other
  | read r =>
    have kept : p'.writer = p.writer ∧ p'.items = p.items ∧ parser p'.reading = parser p.reading := by
      cases r with
      | connRead sz =>
        cases reading : p.reading with
        | reading s rbuf =>
          simp only [step,Pipe.read,reading,Option.ite_none_right_eq_some,Option.map_eq_some_iff] at taken
          obtain ⟨_,reader,_,rfl⟩ := taken
          split <;> exact ⟨rfl,rfl,rfl⟩
        | _ => simp [step,Pipe.read,reading] at taken
      | read got =>
        simp only [step,Pipe.read,Option.ite_none_right_eq_some,Option.map_eq_some_iff] at taken
        obtain ⟨_,reader,_,rfl⟩ := taken
        exact ⟨rfl,rfl,rfl⟩
      | listAddTail sz | take | testClosed | leave | close | postIOJobs =>
        simp only [step,Pipe.read,Option.map_eq_some_iff] at taken
        obtain ⟨reader,_,rfl⟩ := taken
        exact ⟨rfl,rfl,rfl⟩
    refine ⟨tk.read inv taken,kept.2.1,kept.2.2,fun gone _ => ?_⟩
    rw [State.ahead,kept.1,kept.2.1]
    exact .refl _
  | write w =>
    refine ⟨tk.write inv (final w rfl) taken,?_⟩
    simp only [step,Option.map_eq_some_iff] at taken
    obtain ⟨writer,moved,rfl⟩ := taken
    have writes := SocketWrite.step_writes inv.writer (final w rfl) (fun buf new => old buf (new ▸ rfl)) moved
    refine ⟨rfl,rfl,fun gone known => ?_⟩
    have same : writer.sent.take p.items.length = p.writer.sent.take p.items.length := by
      rcases writes.sent with same | ⟨n,_,more,_⟩
      · rw [same]
      · rw [more,List.take_append_of_le_length tk.count.2]
    change (writer.ahead (gone ++ writer.sent.take p.items.length)).Perm _
    rw [same]
    apply writes.ahead
    intro n member
    rcases List.mem_append.mp member with member | member
    · exact known n member
    · exact SocketWrite.sent_known inv.writer (List.mem_of_mem_take member)

theorem sent_distinct (inv : Inv read_buffer_size p) : p.writer.sent.Nodup :=
  (List.pairwise_append.mp inv.writer.ordered).1.imp Nat.ne_of_lt

/-- A callback takes its messages from what is ahead. -/
theorem Taken.ahead_callback (tk : Taken read_buffer_size p front) (inv : Inv read_buffer_size p)
    (tk' : Taken read_buffer_size p' (front ++ more)) (same : p'.writer = p.writer)
    (apart : ∀ n ∈ p.writer.sent, n ∉ gone) : (p.ahead gone).Perm (more.map Message.encoded ++ p'.ahead gone) := by
  have distinct := sent_distinct inv
  obtain ⟨count,_⟩ := tk.count
  obtain ⟨count',fewer⟩ := tk'.count
  rw [List.length_append] at count'
  let new := (p.writer.sent.drop front.length).take more.length
  have images : more.map Message.encoded = new.map p.writer.buffer := by
    have accepted := tk'.accepted
    rw [same] at accepted
    have whole := List.prefix_iff_eq_take.mp accepted
    have later := congrArg (List.drop front.length) whole
    rw [List.map_append,List.drop_left' (List.length_map _),List.length_append,List.length_map,List.length_map,List.drop_take,
      Nat.add_sub_cancel_left] at later
    rw [later,SocketWrite.State.accepted,← List.map_drop,← List.map_take]
  have gone' : gone ++ p'.writer.sent.take p'.items.length = gone ++ p.writer.sent.take p.items.length ++ new := by
    rw [same,count',count,List.append_assoc,List.take_add]
  rw [State.ahead,State.ahead,gone',images,same]
  apply SocketWrite.ahead_take
  · exact (distinct.sublist (List.drop_sublist _ _)).sublist (List.take_sublist _ _)
  · intro n member
    have later := List.mem_of_mem_take member
    have inside := List.mem_of_mem_drop later
    refine ⟨SocketWrite.sent_known inv.writer inside,?_⟩
    rw [List.mem_append,not_or]
    refine ⟨apart n inside,fun earlier => ?_⟩
    rw [count] at earlier
    rw [← List.take_append_drop front.length p.writer.sent] at distinct
    exact (List.nodup_append.mp distinct).2.2 n earlier n later rfl

/-- Every buffer that is accepted or begun and not taken stands for a message. -/
theorem Taken.messages {related : List UInt8 → Message UInt8 α → Prop} {extra : List Nat} (tk : Taken read_buffer_size p front)
    (each : ∀ buf ∈ p.writer.accepted.drop front.length ++ extra.map p.writer.buffer, ∃ m, related buf m)
    (encoded : ∀ buf m, related buf m → m.encoded = buf) :
    ∃ ahead, (front ++ ahead).map Message.encoded = p.writer.accepted ++ extra.map p.writer.buffer ∧
      List.Forall₂ related (p.writer.accepted.drop front.length ++ extra.map p.writer.buffer) ahead := by
  obtain ⟨ahead,pairs⟩ := Lists.exists_partners related _ each
  refine ⟨ahead,?_,pairs⟩
  have images := Lists.partners_map id Message.encoded pairs fun buf m same => (encoded buf m same).symm
  have first := List.prefix_iff_eq_take.mp tk.accepted
  rw [List.length_map] at first
  rw [List.map_id] at images
  rw [List.map_append,first,← images,← List.append_assoc,List.take_append_drop]

/-- What is accepted or begun and not taken is ahead. -/
theorem Taken.ahead_begun (tk : Taken read_buffer_size p front) (inv : Inv read_buffer_size p)
    (begun : SocketWrite.Begun p.writer extra) : ∃ others,
      (p.ahead []).Perm (p.writer.accepted.drop front.length ++ extra.map p.writer.buffer ++ others) := by
  have distinct := sent_distinct inv
  have split := List.take_append_drop front.length p.writer.sent
  rw [← split] at distinct
  obtain ⟨_,later,apart⟩ := List.nodup_append.mp distinct
  let new := p.writer.sent.drop front.length ++ extra
  have unique : extra.Nodup := by
    cases extra with
    | nil => exact List.nodup_nil
    | cons n others =>
      have one := begun.one
      rw [List.length_cons] at one
      obtain rfl : others = [] := List.length_eq_zero_iff.mp (by omega)
      exact List.nodup_singleton n
  have images : new.map p.writer.buffer = p.writer.accepted.drop front.length ++ extra.map p.writer.buffer := by
    rw [List.map_append,List.map_drop]
    rfl
  rw [← images]
  refine ⟨_,SocketWrite.ahead_take ?_ ?_⟩
  · refine List.nodup_append.mpr ⟨later,unique,?_⟩
    rintro n inside m member rfl
    exact (begun.known n member).2 (List.mem_of_mem_drop inside)
  · intro n member
    rw [List.nil_append,tk.count.1]
    rcases List.mem_append.mp member with inside | member
    · refine ⟨SocketWrite.sent_known inv.writer (List.mem_of_mem_drop inside),fun earlier => ?_⟩
      exact apart n earlier n inside rfl
    · exact ⟨(begun.known n member).1,fun earlier => (begun.known n member).2 (List.mem_of_mem_take earlier)⟩

/-- A step that asks for a write does only that, as long as the connection is open. -/
theorem step_connWrite (p : State σ α ε) (buf : List UInt8) : step next read_buffer_size heap p (.write (.connWrite buf)) =
    some { p with writer := if p.writer.is_closed then p.writer else { p.writer with callers := buf :: p.writer.callers } } := by
  by_cases closed : p.writer.is_closed = true <;> simp [step,SocketWrite.step,closed]

/-- The writing end, in a step that does not ask for a write. -/
theorem Inv.writer_kept (inv : Inv read_buffer_size p) (final : ∀ w, a = .write w → SocketWrite.Final p.writer w)
    (old : ∀ buf, a ≠ .write (.connWrite buf)) (taken : step next read_buffer_size heap p a = some p') :
    SocketWrite.Writes p.writer p'.writer ∧ (SocketWrite.Placed p.writer → SocketWrite.Placed p'.writer) := by
  have same : p'.writer = p.writer → SocketWrite.Writes p.writer p'.writer ∧
      (SocketWrite.Placed p.writer → SocketWrite.Placed p'.writer) := by
    intro same
    rw [same]
    exact ⟨.unsent (List.prefix_refl _) rfl rfl (List.prefix_refl _) rfl,id⟩
  cases a with
  | write w =>
    simp only [step,Option.map_eq_some_iff] at taken
    obtain ⟨writer,moved,rfl⟩ := taken
    refine ⟨?_,fun placed => SocketWrite.step_placed placed moved⟩
    exact SocketWrite.step_writes inv.writer (final w rfl) (fun buf new => old buf (new ▸ rfl)) moved
  | read r =>
    refine same ?_
    cases r with
    | connRead sz =>
      cases reading : p.reading with
      | reading s rbuf =>
        simp only [step,Pipe.read,reading,Option.ite_none_right_eq_some,Option.map_eq_some_iff] at taken
        obtain ⟨_,reader,_,rfl⟩ := taken
        split <;> rfl
      | _ => simp [step,Pipe.read,reading] at taken
    | read got =>
      simp only [step,Pipe.read,Option.ite_none_right_eq_some,Option.map_eq_some_iff] at taken
      obtain ⟨_,reader,_,rfl⟩ := taken
      rfl
    | listAddTail sz | take | testClosed | leave | close | postIOJobs =>
      simp only [step,Pipe.read,Option.map_eq_some_iff] at taken
      obtain ⟨reader,_,rfl⟩ := taken
      rfl
  | callback =>
    refine same ?_
    simp only [step,Pipe.callback] at taken
    split at taken
    · cases taken
      rfl
    · cases taken
      rfl
    · cases taken

/-- A callback runs for a read that got some bytes, or for one that got none. -/
theorem callback_cases (taken : step next read_buffer_size heap p .callback = some p') :
    ∃ n s rbuf, p.reading = .reading s rbuf ∧
    ((∃ data, p.reader.callbacks[p.handled]? = some (n,some data)) ∨ p.reader.callbacks[p.handled]? = some (n,none)) := by
  simp only [step,Pipe.callback] at taken
  split at taken
  · rename_i number data s rbuf called reading
    exact ⟨number,s,rbuf,reading,.inl ⟨data,called⟩⟩
  · rename_i number s rbuf called reading
    exact ⟨number,s,rbuf,reading,.inr called⟩
  · cases taken

section Update
variable (change : σ → σ)

@[simp] theorem update_writer (p : State σ α ε) : (p.update change).writer = p.writer := by
  unfold State.update
  split <;> rfl

@[simp] theorem update_items (p : State σ α ε) : (p.update change).items = p.items := by
  unfold State.update
  split <;> rfl

@[simp] theorem update_ahead (p : State σ α ε) (gone : List Nat) : (p.update change).ahead gone = p.ahead gone := by
  simp [State.ahead]

theorem parser_update (p : State σ α ε) : parser (p.update change).reading = (parser p.reading).map change := by
  cases reading : p.reading <;> simp [State.update,reading,parser]

theorem Inv.update (inv : Inv read_buffer_size p) : Inv read_buffer_size (p.update change) := by
  unfold State.update
  split
  · rename_i s rbuf reading
    have sizes := inv.sizes s rbuf reading
    have chunk := fun n data => inv.chunk s rbuf n data reading
    have told := inv.told
    rw [reading] at told
    refine ⟨inv.writer,inv.reader,inv.fits,inv.wire,inv.silent,inv.behind,inv.one,fun _ => ⟨_,_,rfl⟩,?_,?_,?_⟩
    · intro s' rbuf' same
      cases same
      exact sizes
    · intro s' rbuf' n data same
      cases same
      exact chunk n data
    · intro ended
      rcases told ended with called | nowhere
      · exact .inl called
      · exact absurd rfl (nowhere s rbuf)
  · rename_i s reading
    have reads := inv.reads
    rw [reading] at reads
    refine ⟨inv.writer,inv.reader,inv.fits,inv.wire,inv.silent,inv.behind,inv.one,?_,nofun,nofun,fun _ => .inr nofun⟩
    intro asked
    obtain ⟨_,_,impossible⟩ := reads asked
    cases impossible
  · exact inv

theorem Taken.update (tk : Taken read_buffer_size p front) : Taken read_buffer_size (p.update change) front := by
  unfold State.update
  split
  · rename_i s rbuf reading
    have pending := tk.pending s rbuf reading
    refine ⟨tk.accepted,tk.items,.inr ⟨_,_,rfl⟩,?_⟩
    intro s' rbuf' same
    cases same
    exact pending
  · exact ⟨tk.accepted,tk.items,.inl ⟨_,rfl⟩,nofun⟩
  · exact tk

end Update

end Muti.Pipe
