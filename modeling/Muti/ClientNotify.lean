import Muti.Client
import Muti.SharedBuffers
import Muti.Transition

/-! How a client notifies the callers of its requests. Senders, write completions, read
callbacks, response jobs and the closing of the connection run as threads that meet in
the waiting slots and the counters; every atomic operation, and every section under a
slot's lock, is a step of its own. -/
namespace Muti.ClientNotify

open Muti.Memory Muti.Transition Muti.SharedBuffers Muti.SharedBuffers.Buffers

/-- What an operation finds: an answer, too few bytes (with room for more in the same
buffer or not), a response header, or a whole message. -/
inductive Outcome where
  | answer (rc : Bool)
  | starved (same : Bool)
  | header (sequence : UInt32)
  | message
  deriving DecidableEq, Repr

/-- What a thread has left to do, in the order of the source: `r` is a request and `rbuf`
a read buffer. -/
inductive Op where
  | readConn (r : Nat)
  | nextSequence (r : Nat)
  | encode (r : Nat)
  | listAddTail (r : Nat)
  | countWrite (r : Nat)
  | connWrite (r : Nat)
  | append (r : Nat)
  | refused (r : Nat)
  | listDel (r : Nat)
  | failWrite (r : Nat)
  | failCallback (r : Nat)
  | writeDone
  | enter (rbuf : Nat)
  | turn (rbuf : Nat)
  | decode (rbuf r : Nat)
  | refer (rbuf r : Nat)
  | insertTail (rbuf r : Nat)
  | listAdd (rbuf r : Nat) (same : Bool)
  | freeReadBuffer (rbuf : Nat)
  | readDone
  | countRead (rbuf old_rbuf : Nat)
  | read (rbuf : Nat)
  | doJob (rbuf r : Nat)
  deriving DecidableEq, Repr

/-- How far `clientOnClose` is; `drain 128` is its end. -/
inductive OnClose where
  | notClosed
  | clearConn
  | waitReads
  | waitWrites
  | drain (slot : Nat)
  deriving DecidableEq, Repr

/-- `waiting` holds all slots in one list: slot `i` is what it holds of hash `i`, in order.
`returned` is what `clientSendRequest` returned, `callbacks` how often a callback ran. -/
structure State where
  conn : Bool
  is_closed : Bool
  sequence : UInt32
  started : Nat
  sequences : Nat → UInt32
  returned : Nat → Option Bool
  callbacks : Nat → Nat
  waiting : List Nat
  write_counter : Nat
  write_done_counter : Nat
  writes : List Nat
  buffers : Buffers
  read_counter : Nat
  read_done_counter : Nat
  reads : List Nat
  jobs : List (Nat × Nat)
  threads : List (List Op)
  onClose : OnClose
  fault : Option Fault

/-- After `clientOnConnect`. It ignores what its first read returns; a refused one is never
called back. -/
def onConnect : State where
  conn := true
  is_closed := false
  sequence := 1022
  started := 0
  sequences := fun _ => 0
  returned := fun _ => none
  callbacks := fun _ => 0
  waiting := []
  write_counter := 0
  write_done_counter := 0
  writes := []
  buffers := Buffers.empty.create
  read_counter := 1
  read_done_counter := 0
  reads := [0]
  jobs := []
  threads := []
  onClose := .notClosed
  fault := none

def touch (s : State) (rbuf : Nat) (result : State × List Op) : State × List Op :=
  if rbuf ∈ s.buffers.live then result else ({ s with fault := some .useAfterFree },[])

def State.slot (s : State) (i : Nat) : List Nat :=
  s.waiting.filter fun r => (Client.hash (s.sequences r)).val = i

def lookup (s : State) (sequence : UInt32) : Option Nat :=
  (s.slot (Client.hash sequence)).find? fun r => s.sequences r == sequence

def State.returns (s : State) (r : Nat) (rc : Bool) : State :=
  { s with returned := Function.update s.returned r (some rc) }

def State.callback (s : State) (r : Nat) : State :=
  { s with callbacks := Function.update s.callbacks r (s.callbacks r + 1) }

/-- `clientRead` up to its next atomic operation, and the end of the callback. -/
def clientRead (s : State) (rbuf : Nat) (same : Bool) : State × List Op :=
  if same then (s,[.read rbuf,.freeReadBuffer rbuf])
  else ({ s with buffers := s.buffers.create },[.freeReadBuffer rbuf,.countRead s.buffers.allocated rbuf])

def turn (s : State) (rbuf : Nat) : Outcome → Option (State × List Op)
  | .starved same => some (clientRead s rbuf same)
  | .header sequence => match lookup s sequence with
    | none => some (s,[.freeReadBuffer rbuf,.freeReadBuffer rbuf])
    | some r => some ({ s with waiting := s.waiting.erase r },[.decode rbuf r])
  | _ => none

def send (s : State) (outcome : Outcome) : Op → Option (State × List Op)
  | .readConn r => some (if s.conn then (s,[.nextSequence r]) else (s.returns r false,[]))
  | .nextSequence r =>
    let sequence := s.sequence + 1
    some ({ s with sequence, sequences := Function.update s.sequences r sequence },[.encode r])
  | .encode r => match outcome with
    | .answer true => some (s,[.listAddTail r])
    | .answer false => some (s.returns r false,[])
    | _ => none
  | .listAddTail r => some ({ s with waiting := s.waiting ++ [r] },[.countWrite r])
  | .countWrite r => some ({ s with write_counter := s.write_counter + 1 },[.connWrite r])
  | .connWrite r => some (s,if s.is_closed then [.refused r] else [.append r])
  | .append r => some ({ s.returns r true with writes := r :: s.writes },[])
  | .refused r => some ({ s with write_done_counter := s.write_done_counter + 1 },[.listDel r])
  | .listDel r => some ({ s.returns r false with waiting := s.waiting.erase r },[])
  | .failWrite r => some ({ s with waiting := s.waiting.erase r },[.failCallback r])
  | .failCallback r => some (s.callback r,[.writeDone])
  | .writeDone => some ({ s with write_done_counter := s.write_done_counter + 1 },[])
  | _ => none

def receive (s : State) (outcome : Outcome) : Op → Option (State × List Op)
  | .enter rbuf => some (touch s rbuf ({ s with buffers := s.buffers.refer rbuf },[.turn rbuf]))
  | .turn rbuf => (turn s rbuf outcome).map (touch s rbuf)
  | .decode rbuf r => match outcome with
    | .message => some (s,[.refer rbuf r])
    | .starved same => some (s,[.listAdd rbuf r same])
    | _ => none
  | .refer rbuf r => some (touch s rbuf ({ s with buffers := s.buffers.refer rbuf },[.insertTail rbuf r]))
  | .insertTail rbuf r => some ({ s with jobs := (r,rbuf) :: s.jobs },[.turn rbuf])
  | .listAdd rbuf r same => some (clientRead { s with waiting := r :: s.waiting } rbuf same)
  | .freeReadBuffer rbuf =>
    some (touch s rbuf ({ s with buffers := s.buffers.release rbuf },
      if s.buffers.reference rbuf = 1 then [.readDone] else []))
  | .readDone => some ({ s with read_done_counter := s.read_done_counter + 1 },[])
  | .countRead rbuf old_rbuf =>
    some ({ s with read_counter := s.read_counter + 1 },[.read rbuf,.freeReadBuffer old_rbuf])
  | .read rbuf => match outcome with
    | .answer true => some (touch s rbuf ({ s with reads := rbuf :: s.reads },[]))
    | .answer false => some (s,[.freeReadBuffer rbuf])
    | _ => none
  | .doJob rbuf r => some (s.callback r,[.freeReadBuffer rbuf])
  | _ => none

def exec (s : State) (outcome : Outcome) (op : Op) : Option (State × List Op) :=
  match send s outcome op with
  | some done => some done
  | none => receive s outcome op

/-- `socketCloseConnection`: the first one closes. -/
def closeConnection (s : State) : State :=
  if s.is_closed then s else { s with is_closed := true, onClose := .clearConn }

/-- The next step of `clientOnClose`; its waits let nothing happen before their counters meet. -/
def onClose (s : State) : Option State :=
  match s.onClose with
  | .notClosed => none
  | .clearConn => some { s with conn := false, onClose := .waitReads }
  | .waitReads => if s.read_counter = s.read_done_counter then some { s with onClose := .waitWrites } else none
  | .waitWrites => if s.write_counter = s.write_done_counter then some { s with onClose := .drain 0 } else none
  | .drain slot =>
    if slot < 128 then
      some { s with
        callbacks := fun r => s.callbacks r + (s.slot slot).count r
        waiting := s.waiting.filter fun r => (Client.hash (s.sequences r)).val ≠ slot
        onClose := .drain (slot + 1) }
    else none

inductive Action where
  | sendRequest
  | writeCallback (r : Nat) (rc : Bool)
  | readCallback (rbuf : Nat) (rc : Bool)
  | doJob (r rbuf : Nat)
  | closeConnection
  | onClose
  | run (thread : Nat) (outcome : Outcome)
  deriving DecidableEq, Repr

def spawn (s : State) (op : Op) : State := { s with threads := s.threads ++ [[op]] }

def step (s : State) (a : Action) : Option State :=
  if s.fault ≠ none then none
  else match a with
    | .sendRequest => some (spawn { s with started := s.started + 1 } (.readConn s.started))
    | .writeCallback r rc =>
      if r ∈ s.writes then
        some (spawn { s with writes := s.writes.erase r } (if rc then .writeDone else .failWrite r))
      else none
    | .readCallback rbuf rc =>
      if rbuf ∈ s.reads then
        some (spawn { s with reads := s.reads.erase rbuf } (if rc then .enter rbuf else .freeReadBuffer rbuf))
      else none
    | .doJob r rbuf =>
      if (r,rbuf) ∈ s.jobs then some (spawn { s with jobs := s.jobs.erase (r,rbuf) } (.doJob rbuf r)) else none
    | .closeConnection => some (closeConnection s)
    | .onClose => onClose s
    | .run thread outcome =>
      match s.threads[thread]? with
      | some (op :: rest) =>
        (exec s outcome op).map fun done => { done.1 with threads := s.threads.set thread (done.2 ++ rest) }
      | _ => none

end Muti.ClientNotify
