import Mathlib.Algebra.GroupWithZero.Nat
import Mathlib.Data.List.Basic

/-! The bytes a connection writes. Calls of `connWrite` queue buffers, one job after another
takes them and gives them to write(2) with its results of every kind, and a closer drains
the list. When a job runs is the subject of `Muti.Connection`, not of this module. -/
namespace Muti.SocketWrite

/-- `number` tells which buffer of the queue it is, `buf` holds what is left of it. -/
structure IOContext where
  number : Nat
  buf : List UInt8
  trans_num : Nat
  deriving DecidableEq, Repr

/-- A result of write(2): a number of bytes, as far as it was asked for as many, or one of
its errors. -/
inductive Sent where
  | returned (n : Nat)
  | interrupted
  | wouldBlock
  | failed
  deriving DecidableEq, Repr

/-- After one write(2), `socketNoneBlockWrite` writes again or returns; `none` is its -1. -/
inductive Turn where
  | again (nwrite : Nat)
  | returns (nwrite : Option Nat)
  deriving DecidableEq, Repr

def socketNoneBlockWrite (len nwrite : Nat) : Sent → Turn
  | .returned n =>
    let n := min n (len - nwrite)
    if n = 0 then .returns none
    else if nwrite + n = len then .returns (some len)
    else .again (nwrite + n)
  | .interrupted => .again nwrite
  | .wouldBlock => .returns (some nwrite)
  | .failed => .returns none

inductive Job where
  | idle
  | taken (write_head : List IOContext)
  | writing (write_head : List IOContext) (nwrite : Nat)
  | leaving (write_head : List IOContext)
  deriving DecidableEq, Repr

/-- `queued` lists all buffers in the order of `listAddTail`, `callers` those of calls that
found the connection open. `cut` tells that a buffer was given up after a part of it had
been sent and write(2) failed. -/
structure State where
  queued : List (List UInt8)
  callers : List (List UInt8)
  write_jobs_head : List IOContext
  is_closed : Bool
  closing : Bool
  job : Job
  wire : List UInt8
  callbacks : List (Nat × Bool)
  cut : Bool
  deriving DecidableEq, Repr

def createConnection : State where
  queued := []
  callers := []
  write_jobs_head := []
  is_closed := false
  closing := false
  job := .idle
  wire := []
  callbacks := []
  cut := false

def State.notify (s : State) (ioctxs : List IOContext) (rc : Bool) : State :=
  { s with callbacks := s.callbacks ++ ioctxs.map fun ioctx => (ioctx.number,rc) }

/-- The loop comes to the next IOContext; without any bytes, it would block. -/
def next : List IOContext → Job
  | [] => .leaving []
  | ioctx :: rest => if ioctx.buf = [] then .leaving (ioctx :: rest) else .writing (ioctx :: rest) 0

/-- The body of the loop after a write(2), of which the bytes up to `nwrite` were sent before. -/
def socketDoWrite (s : State) (ioctx : IOContext) (rest : List IOContext) (nwrite : Nat) : Turn → State
  | .again n =>
    { s with wire := s.wire ++ (ioctx.buf.take n).drop nwrite, job := .writing (ioctx :: rest) n }
  -- the connection is not closed, its next job goes on writing
  | .returns none =>
    { s.notify (ioctx :: rest) false with job := .idle, cut := s.cut || decide (0 < ioctx.trans_num + nwrite) }
  | .returns (some n) =>
    let s := { s with wire := s.wire ++ (ioctx.buf.take n).drop nwrite }
    if n = 0 then { s with job := .leaving (ioctx :: rest) }
    else if n < ioctx.buf.length then
      { s with job := .leaving ({ ioctx with buf := ioctx.buf.drop n, trans_num := ioctx.trans_num + n } :: rest) }
    else { s.notify [ioctx] true with job := next rest }

/-- A call's test and its `listAddTail`, the parts of a job, and those of a close. -/
inductive Action where
  | connWrite (buf : List UInt8)
  | listAddTail (buf : List UInt8)
  | take
  | testClosed
  | write (sent : Sent)
  | leave
  | close
  | postIOJobs
  deriving DecidableEq, Repr

def step (s : State) : Action → Option State
  | .connWrite buf => some (if s.is_closed then s else { s with callers := buf :: s.callers })
  | .listAddTail buf =>
    if buf ∈ s.callers then
      some { s with
        callers := s.callers.erase buf
        queued := s.queued ++ [buf]
        write_jobs_head := s.write_jobs_head ++ [⟨s.queued.length,buf,0⟩] }
    else none
  | .take => match s.job with
    | .idle => some { s with job := .taken s.write_jobs_head, write_jobs_head := [] }
    | _ => none
  | .testClosed => match s.job with
    | .taken write_head =>
      some (if s.is_closed then { s.notify write_head false with job := .idle } else { s with job := next write_head })
    | _ => none
  | .write sent => match s.job with
    | .writing (ioctx :: rest) nwrite =>
      some (socketDoWrite s ioctx rest nwrite (socketNoneBlockWrite ioctx.buf.length nwrite sent))
    | _ => none
  | .leave => match s.job with
    | .leaving write_head => some { s with job := .idle, write_jobs_head := write_head ++ s.write_jobs_head }
    | _ => none
  | .close => some (if s.is_closed then s else { s with is_closed := true, closing := true })
  | .postIOJobs =>
    if s.closing then some { s.notify s.write_jobs_head false with write_jobs_head := [], closing := false } else none

end Muti.SocketWrite
