import Muti.Transition

/-! The bytes a connection reads. Calls of `connRead` queue buffers, one job after another
takes them and fills them from read(2) with its results of every kind, and a closer drains
the list. A call that meets the end of the stream or an error gives up what it has read. -/
namespace Muti.SocketRead

open Muti.Transition

/-- `number` tells which request of the queue it is. -/
structure IOContext where
  number : Nat
  buf_size : Nat
  deriving DecidableEq, Repr

/-- A result of read(2): bytes, as far as it was asked for as many, none of them at the end
of the stream, or one of its errors. -/
inductive Got where
  | returned (bytes : List UInt8)
  | interrupted
  | wouldBlock
  | failed
  deriving DecidableEq, Repr

def Got.bytes (to_read : Nat) : Got → List UInt8
  | .returned bytes => bytes.take to_read
  | .interrupted | .wouldBlock | .failed => []

/-- After one read(2), `socketNoneBlockRead` reads again or returns; `none` is its -1. -/
inductive Turn where
  | again (data : List UInt8)
  | returns (data : Option (List UInt8))
  deriving DecidableEq, Repr

def socketNoneBlockRead (len : Nat) (data : List UInt8) (got : Got) : Turn :=
  match got with
  | .returned _ =>
    let bytes := got.bytes (len - data.length)
    if bytes = [] then .returns none
    else if (data ++ bytes).length = len then .returns (some (data ++ bytes))
    else .again (data ++ bytes)
  | .interrupted => .again data
  | .wouldBlock => .returns (some data)
  | .failed => .returns none

/-- Where a run of `socketDoRead` is, with the list it has taken and what the first buffer of
it has got. -/
inductive Job where
  | idle
  | taken (read_head : List IOContext)
  | reading (read_head : List IOContext) (data : List UInt8)
  | leaving (read_head : List IOContext)
  deriving DecidableEq, Repr

/-- A callback is given data with `rc` true, or `none`. `received` lists what read(2) returned
until its first end of stream or error, and `late` what it returned afterwards; `dropped` is
what the call that got that end had read before. -/
structure State where
  requests : Nat
  callers : List Nat
  read_jobs_head : List IOContext
  is_closed : Bool
  closing : Bool
  job : Job
  callbacks : List (Nat × Option (List UInt8))
  received : List UInt8
  ended : Bool
  dropped : List UInt8
  late : List UInt8
  deriving DecidableEq, Repr

def createConnection : State where
  requests := 0
  callers := []
  read_jobs_head := []
  is_closed := false
  closing := false
  job := .idle
  callbacks := []
  received := []
  ended := false
  dropped := []
  late := []

def State.notify (s : State) (ioctxs : List IOContext) (data : Option (List UInt8)) : State :=
  { s with callbacks := s.callbacks ++ ioctxs.map fun ioctx => (ioctx.number,data) }

/-- The loop comes to the next IOContext; without any room, it would block. -/
def next : List IOContext → Job
  | [] => .leaving []
  | ioctx :: rest => if ioctx.buf_size = 0 then .leaving (ioctx :: rest) else .reading (ioctx :: rest) []

/-- What a read(2) adds to the account, after `data` in the same call. -/
def account (s : State) (data bytes : List UInt8) (turn : Turn) : State :=
  if s.ended then { s with late := s.late ++ bytes }
  else if turn = .returns none then { s with ended := true, dropped := data }
  else { s with received := s.received ++ bytes }

/-- The body of the loop after a read(2). -/
def socketDoRead (s : State) (ioctx : IOContext) (rest : List IOContext) : Turn → State
  | .again data => { s with job := .reading (ioctx :: rest) data }
  | .returns none => { s.notify (ioctx :: rest) none with job := .idle }
  | .returns (some data) =>
    if data = [] then { s with job := .leaving (ioctx :: rest) }
    else { s.notify [ioctx] (some data) with job := if data.length < ioctx.buf_size then .leaving rest else next rest }

/-- A call's test and its `listAddTail`, the parts of a job, and those of a close. -/
inductive Action where
  | connRead (sz : Nat)
  | listAddTail (sz : Nat)
  | take
  | testClosed
  | read (got : Got)
  | leave
  | close
  | postIOJobs
  deriving DecidableEq, Repr

def step (s : State) : Action → Option State
  | .connRead sz => some (if s.is_closed then s else { s with callers := sz :: s.callers })
  | .listAddTail sz =>
    if sz ∈ s.callers then
      some { s with
        callers := s.callers.erase sz
        requests := s.requests + 1
        read_jobs_head := s.read_jobs_head ++ [⟨s.requests,sz⟩] }
    else none
  | .take => match s.job with
    | .idle => some { s with job := .taken s.read_jobs_head, read_jobs_head := [] }
    | _ => none
  | .testClosed => match s.job with
    | .taken read_head =>
      some (if s.is_closed then { s.notify read_head none with job := .idle } else { s with job := next read_head })
    | _ => none
  | .read got => match s.job with
    | .reading (ioctx :: rest) data =>
      let turn := socketNoneBlockRead ioctx.buf_size data got
      some (socketDoRead (account s data (got.bytes (ioctx.buf_size - data.length)) turn) ioctx rest turn)
    | _ => none
  | .leave => match s.job with
    | .leaving read_head => some { s with job := .idle, read_jobs_head := read_head ++ s.read_jobs_head }
    | _ => none
  | .close => some (if s.is_closed then s else { s with is_closed := true, closing := true })
  | .postIOJobs =>
    if s.closing then some { s.notify s.read_jobs_head none with read_jobs_head := [], closing := false } else none

def State.delivered (s : State) : List UInt8 := (s.callbacks.filterMap Prod.snd).flatten

def Job.data : Job → List UInt8
  | .reading _ data => data
  | .idle | .taken _ | .leaving _ => []

/-- Until the first end, all bytes are delivered or in the buffer in front; after it, all but
those dropped, as long as no more arrive. -/
structure Inv (s : State) : Prop where
  before : s.ended = false → s.received = s.delivered ++ s.job.data ∧ s.dropped = [] ∧ s.late = []
  after : s.ended = true → s.late = [] → s.received = s.delivered ++ s.dropped ∧ s.job.data = []

theorem createConnection_inv : Inv createConnection := ⟨fun _ => ⟨rfl,rfl,rfl⟩,nofun⟩

@[simp] theorem delivered_refused (s : State) (ioctxs : List IOContext) :
    (s.notify ioctxs none).delivered = s.delivered := by
  simp [State.delivered,State.notify,List.filterMap_map]

@[simp] theorem delivered_accepted (s : State) (ioctx : IOContext) (data : List UInt8) :
    (s.notify [ioctx] (some data)).delivered = s.delivered ++ data := by
  simp [State.delivered,State.notify]

@[simp] theorem next_data (head : List IOContext) : (next head).data = [] := by
  cases head with
  | nil => rfl
  | cons ioctx rest => by_cases none : ioctx.buf_size = 0 <;> simp [next,none,Job.data]

/-- A step that reads nothing changes neither what is delivered nor what a buffer has got. -/
theorem Inv.keep (inv : Inv s) (ended : s'.ended = s.ended) (received : s'.received = s.received)
    (dropped : s'.dropped = s.dropped) (late : s'.late = s.late) (delivered : s'.delivered = s.delivered)
    (data : s'.job.data = s.job.data) : Inv s' := by
  constructor
  · rw [ended,received,dropped,late,delivered,data]
    exact inv.before
  · rw [ended,received,dropped,late,delivered,data]
    exact inv.after

theorem socketNoneBlockRead_cases (len : Nat) (data : List UInt8) (got : Got) :
    socketNoneBlockRead len data got = .returns none ∧ got.bytes (len - data.length) = [] ∨
      ∃ more, more = data ++ got.bytes (len - data.length) ∧
        (socketNoneBlockRead len data got = .again more ∨ socketNoneBlockRead len data got = .returns (some more)) := by
  cases got with
  | returned bytes =>
    by_cases none : Got.bytes (len - data.length) (.returned bytes) = []
    · exact .inl ⟨by simp only [socketNoneBlockRead,if_pos none],none⟩
    · refine .inr ⟨_,rfl,?_⟩
      by_cases full : (data ++ Got.bytes (len - data.length) (.returned bytes)).length = len
      · exact .inr (by simp only [socketNoneBlockRead,if_neg none,if_pos full])
      · exact .inl (by simp only [socketNoneBlockRead,if_neg none,if_neg full])
  | interrupted => exact .inr ⟨data,(List.append_nil data).symm,.inl rfl⟩
  | wouldBlock => exact .inr ⟨data,(List.append_nil data).symm,.inr rfl⟩
  | failed => exact .inl ⟨rfl,rfl⟩

/-- A read that does not fail leaves the buffer in front with what it has got, or hands it over. -/
theorem socketDoRead_more (s : State) (ioctx : IOContext) (rest : List IOContext) (more : List UInt8) (turn : Turn)
    (goes : turn = .again more ∨ turn = .returns (some more)) : ∃ s', socketDoRead s ioctx rest turn = s' ∧
      s'.ended = s.ended ∧ s'.received = s.received ∧ s'.dropped = s.dropped ∧ s'.late = s.late ∧
      (s'.delivered = s.delivered ∧ s'.job.data = more ∨ s'.delivered = s.delivered ++ more ∧ s'.job.data = []) := by
  rcases goes with rfl | rfl
  · exact ⟨_,rfl,rfl,rfl,rfl,rfl,.inl ⟨rfl,rfl⟩⟩
  · by_cases none : more = []
    · simp only [socketDoRead,if_pos none]
      exact ⟨_,rfl,rfl,rfl,rfl,rfl,.inl ⟨rfl,none.symm⟩⟩
    · simp only [socketDoRead,if_neg none]
      refine ⟨_,rfl,rfl,rfl,rfl,rfl,.inr ⟨delivered_accepted s ioctx more,?_⟩⟩
      by_cases short : more.length < ioctx.buf_size
      · simp [short,Job.data]
      · simp [short]

/-- One read(2) and what the job does then. -/
theorem read_inv (inv : Inv s) (job : s.job = .reading (ioctx :: rest) data) (got : Got)
    (taken : step s (.read got) = some s') : Inv s' := by
  simp only [step,job,Option.some.injEq] at taken
  subst taken
  have before := inv.before
  have after := inv.after
  simp only [job,Job.data] at before after
  rcases socketNoneBlockRead_cases ioctx.buf_size data got with ⟨fails,nothing⟩ | ⟨more,rfl,goes⟩
  · rw [fails,nothing]
    cases ended : s.ended with
    | true =>
      simp only [account,ended,if_true]
      refine ⟨nofun,fun _ late => ⟨?_,rfl⟩⟩
      have none : s.late = [] := (List.append_nil s.late).symm.trans late
      exact (after ended none).1.trans (congrArg (· ++ s.dropped) (delivered_refused s (ioctx :: rest)).symm)
    | false =>
      simp only [account,ended,Bool.false_eq_true,if_false,if_true]
      refine ⟨nofun,fun _ _ => ⟨?_,rfl⟩⟩
      exact (before ended).1.trans (congrArg (· ++ data) (delivered_refused s (ioctx :: rest)).symm)
  · have going : socketNoneBlockRead ioctx.buf_size data got ≠ .returns none := by
      rcases goes with goes | goes <;> simp [goes]
    obtain ⟨s',result,ends,receives,drops,lates,gives⟩ := socketDoRead_more
      (account s data (got.bytes (ioctx.buf_size - data.length)) (socketNoneBlockRead ioctx.buf_size data got))
      ioctx rest _ _ goes
    rw [result]
    cases ended : s.ended with
    | true =>
      simp only [account,ended,if_true] at ends receives drops lates gives
      refine ⟨fun going => ?_,fun _ late => ?_⟩
      · rw [ends] at going
        cases going
      · rw [lates,List.append_eq_nil_iff] at late
        obtain ⟨same,none⟩ := after ended late.1
        rw [late.2,none] at gives
        rw [receives,drops,same]
        rcases gives with ⟨delivered,data⟩ | ⟨delivered,data⟩
        · exact ⟨congrArg (· ++ s.dropped) delivered.symm,data⟩
        · exact ⟨congrArg (· ++ s.dropped) (delivered.trans (List.append_nil _)).symm,data⟩
    | false =>
      simp only [account,ended,if_neg going,Bool.false_eq_true,if_false] at ends receives drops lates gives
      obtain ⟨same,dropped,late⟩ := before ended
      refine ⟨fun _ => ⟨?_,drops.trans dropped,lates.trans late⟩,fun stopped => ?_⟩
      · rw [receives,same,List.append_assoc]
        rcases gives with ⟨delivered,data⟩ | ⟨delivered,data⟩
        · rw [delivered,data]
          rfl
        · rw [delivered,data,List.append_nil]
          rfl
      · rw [ends] at stopped
        cases stopped

theorem step_inv (inv : Inv s) (taken : step s a = some s') : Inv s' := by
  cases a with
  | connRead sz =>
    cases taken
    split
    · exact inv
    · exact inv.keep rfl rfl rfl rfl rfl rfl
  | listAddTail sz =>
    simp only [step,Option.ite_none_right_eq_some] at taken
    obtain ⟨_,taken⟩ := taken
    cases taken
    exact inv.keep rfl rfl rfl rfl rfl rfl
  | take =>
    cases job : s.job with
    | idle =>
      simp only [step,job,Option.some.injEq] at taken
      subst taken
      exact inv.keep rfl rfl rfl rfl rfl (by rw [job]; rfl)
    | _ => simp [step,job] at taken
  | testClosed =>
    cases job : s.job with
    | taken head =>
      simp only [step,job,Option.some.injEq] at taken
      subst taken
      split
      · exact inv.keep rfl rfl rfl rfl (delivered_refused s head) (by rw [job]; rfl)
      · exact inv.keep rfl rfl rfl rfl rfl (by rw [job]; exact next_data head)
    | _ => simp [step,job] at taken
  | read got =>
    rcases job : s.job with _ | _ | ⟨_ | ⟨ioctx,rest⟩,data⟩ | _
    · simp [step,job] at taken
    · simp [step,job] at taken
    · simp [step,job] at taken
    · exact read_inv inv job got taken
    · simp [step,job] at taken
  | leave =>
    cases job : s.job with
    | leaving head =>
      simp only [step,job,Option.some.injEq] at taken
      subst taken
      exact inv.keep rfl rfl rfl rfl rfl (by rw [job]; rfl)
    | _ => simp [step,job] at taken
  | close =>
    cases taken
    split
    · exact inv
    · exact inv.keep rfl rfl rfl rfl rfl rfl
  | postIOJobs =>
    simp only [step,Option.ite_none_right_eq_some] at taken
    obtain ⟨_,taken⟩ := taken
    cases taken
    exact inv.keep rfl rfl rfl rfl (delivered_refused s s.read_jobs_head) rfl

/-- Between two jobs, when read(2) has returned nothing after its first end of stream or
error, all it returned before has been delivered exactly when the call of
`socketNoneBlockRead` that got this end had read nothing. -/
theorem received_delivered (reachable : Reachable step (fun _ _ => True) createConnection s) (between : s.job = .idle)
    (silent : s.late = []) : s.delivered = s.received ↔ s.dropped = [] := by
  have inv : Inv s := reachable.invariant createConnection_inv fun _ _ _ inv _ taken => step_inv inv taken
  cases ended : s.ended with
  | false =>
    obtain ⟨all,none,_⟩ := inv.before ended
    rw [between] at all
    exact ⟨fun _ => none,fun _ => ((List.append_nil _).symm.trans all.symm)⟩
  | true =>
    rw [(inv.after ended silent).1]
    exact List.self_eq_append_right

/-- A job fills one buffer and a part of another; the next one meets the end of the stream. -/
def readToEnd : List Action :=
  [.connRead 2,.listAddTail 2,.connRead 3,.listAddTail 3,.connRead 4,.listAddTail 4,.take,.testClosed,.read (.returned [1]),
    .read .interrupted,.read (.returned [2,3]),.read (.returned [3]),.read .wouldBlock,.leave,.take,.testClosed,
    .read (.returned [])]

theorem received_delivered_end : ∃ s, execute step createConnection readToEnd = some s ∧ s.ended = true ∧
    s.received = [1,2,3] ∧ s.delivered = s.received := by
  have reachable : Reachable step (fun _ _ => True) createConnection _ := Reachable.start.run readToEnd rfl
  exact ⟨_,rfl,rfl,rfl,(received_delivered reachable rfl rfl).mpr rfl⟩

def readThenClosed : List Action :=
  [.connRead 3,.listAddTail 3,.take,.testClosed,.read (.returned [1,2]),.read (.returned [])]

theorem received_dropped : ∃ s, Reachable step (fun _ _ => True) createConnection s ∧ s.job = .idle ∧
    s.received = [1,2] ∧ s.callbacks = [(0,none)] ∧ s.delivered ≠ s.received := by
  exact ⟨_,Reachable.start.run readThenClosed rfl,rfl,rfl,rfl,by decide⟩

end Muti.SocketRead
