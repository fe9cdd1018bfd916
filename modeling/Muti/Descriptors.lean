import Muti.ConnectionReference

/-! The descriptor numbers of the process. A connection keeps its number in `fd` and in
`param.fd`; `connClose` shuts the second one down and forgets it, the release of the last
reference closes the first one and then, where it is still there, the second. -/
namespace Muti.Descriptors

open Muti.Transition
open Muti.Connection (References)

/-- Who has a number: a connection, or another part of the process. -/
inductive Holder where
  | connection (conn_p : Nat)
  | other
  deriving DecidableEq, Repr

/-- Where `connClose` is called: in a thread of the connection's I/O, by `destroy` of its
socket, which holds `conn_lock`, or elsewhere. -/
inductive Caller where
  | inside (thread : Nat)
  | socket
  | outside
  deriving DecidableEq, Repr

/-- `connClose` tests, shuts down and forgets `param.fd`, with no lock. -/
inductive ConnClose where
  | test
  | shutdown
  | store
  deriving DecidableEq, Repr

/-- The end of `socketIODone`. `destroy` tests `param.fd` before it shuts it down and closes it. -/
inductive Teardown where
  | listDel
  | close
  | destroy
  | shutdownParam
  | closeParam
  deriving DecidableEq, Repr

/-- `listed` tells whether the connection is in `conn_head` of its socket, `closes` what the
calls of `connClose` and `teardown` what the release have left to do. -/
structure ConnectionLinux where
  io : Connection.State
  socket : Nat
  fd : Nat
  param_fd : Option Nat
  listed : Bool
  closes : List (Caller × List ConnClose)
  teardown : List Teardown

def createConnection (socket fd : Nat) : ConnectionLinux where
  io := Connection.createConnection
  socket := socket
  fd := fd
  param_fd := some fd
  listed := true
  closes := []
  teardown := []

/-- A call of `shutdown` or `close` for a connection, and who had the number then. -/
structure SysCall where
  conn_p : Nat
  fd : Nat
  held : Option Holder
  deriving DecidableEq, Repr

/-- `walks` has the connections that `destroy` of a socket, which holds `conn_lock`, has still to close. -/
structure State where
  table : Nat → Option Holder
  connections : List ConnectionLinux
  walks : Nat → Option (List Nat)
  calls : List SysCall

def start : State where
  table := fun _ => none
  connections := []
  walks := fun _ => none
  calls := []

def State.set (s : State) (conn_p : Nat) (c : ConnectionLinux) : State :=
  { s with connections := s.connections.set conn_p c }

/-- A call on -1 reaches nobody. -/
def State.called (s : State) (conn_p : Nat) : Option Nat → List SysCall
  | none => s.calls
  | some fd => ⟨conn_p,fd,s.table fd⟩ :: s.calls

def State.shutdown (s : State) (conn_p : Nat) (fd : Option Nat) : State :=
  { s with calls := s.called conn_p fd }

def State.close (s : State) (conn_p : Nat) (fd : Option Nat) : State :=
  { s with
    table := fun number => if fd = some number then none else s.table number
    calls := s.called conn_p fd }

def failed (io : Connection.State) : Connection.Action → List (Caller × List ConnClose)
  | .run thread .error => match io.threads[thread]? with
    | some (.work .read (_ :: _) :: _) => [(.inside thread,[.test])]
    | _ => []
  | _ => []

def Waits (c : ConnectionLinux) : Connection.Action → Prop
  | .run thread _ => ∃ call ∈ c.closes, call.1 = .inside thread ∧ call.2 ≠ []
  | _ => False

instance (c : ConnectionLinux) : (a : Connection.Action) → Decidable (Waits c a)
  | .run thread _ => inferInstanceAs (Decidable (∃ call ∈ c.closes, call.1 = .inside thread ∧ call.2 ≠ []))
  | .call _ | .epoll _ | .doJob _ | .close => inferInstanceAs (Decidable False)

def released (c : ConnectionLinux) (io : Connection.State) : List Teardown :=
  if io.released = true ∧ c.io.released = false then [.listDel,.close,.destroy] else c.teardown

def ConnectionLinux.step (c : ConnectionLinux) (a : Connection.Action) : Option ConnectionLinux :=
  if Waits c a then none else (Connection.step c.io a).map fun io =>
    { c with
      io
      closes := c.closes ++ failed c.io a
      teardown := released c io }

def connClose (s : State) (conn_p : Nat) (c : ConnectionLinux) : ConnClose → State × ConnectionLinux × List ConnClose
  | .test => (s,c,if c.param_fd = none then [] else [.shutdown,.store])
  | .shutdown => (s.shutdown conn_p c.param_fd,c,[])
  | .store => (s,{ c with param_fd := none },[])

/-- An operation of the release, and what it leaves to do; `listDel` waits for `conn_lock`. -/
def teardown (s : State) (conn_p : Nat) (c : ConnectionLinux) : Teardown → Option (State × ConnectionLinux × List Teardown)
  | .listDel => if s.walks c.socket = none then some (s,{ c with listed := false },[]) else none
  | .close => some (s.close conn_p (some c.fd),c,[])
  | .destroy => some (s,c,if c.param_fd = none then [] else [.shutdownParam,.closeParam])
  | .shutdownParam => some (s.shutdown conn_p c.param_fd,c,[])
  | .closeParam => some (s.close conn_p c.param_fd,c,[])

/-- `destroy` of a socket goes on when its last call of `connClose` has returned. -/
def Idle (s : State) (socket : Nat) : Prop :=
  ∀ c ∈ s.connections, c.socket = socket → ∀ call ∈ c.closes, call.1 = .socket → call.2 = []

instance (s : State) (socket : Nat) : Decidable (Idle s socket) :=
  inferInstanceAs (Decidable (∀ c ∈ s.connections, c.socket = socket → ∀ call ∈ c.closes, call.1 = .socket → call.2 = []))

def conn_head (s : State) (socket : Nat) : List Nat :=
  (List.range s.connections.length).filter fun conn_p =>
    (s.connections[conn_p]?).any fun c => c.listed && decide (c.socket = socket)

/-- `taken` and `given` are other parts of the process at work. `accept` stands for the
`socket` of a client as well, and for the creation of the connection. -/
inductive Action where
  | taken (fd : Nat)
  | given (fd : Nat)
  | accept (socket fd : Nat)
  | io (conn_p : Nat) (a : Connection.Action)
  | close (conn_p : Nat) (caller : Caller)
  | connClose (conn_p call : Nat)
  | teardown (conn_p : Nat)
  | destroy (socket : Nat)
  | walk (socket : Nat)

/-- Any free number may be handed out, also the one that was closed last. -/
def step (s : State) : Action → Option State
  | .taken fd =>
    if s.table fd = none then some { s with table := Function.update s.table fd (some .other) } else none
  | .given fd =>
    if s.table fd = some .other then some { s with table := Function.update s.table fd none } else none
  | .accept socket fd =>
    if s.table fd = none ∧ s.walks socket = none then
      some { s with
        table := Function.update s.table fd (some (.connection s.connections.length))
        connections := s.connections ++ [createConnection socket fd] }
    else none
  | .io conn_p a => match s.connections[conn_p]? with
    | some c => (c.step a).map (s.set conn_p)
    | none => none
  | .close conn_p caller => match s.connections[conn_p]? with
    | some c =>
      if caller = .socket then none else some (s.set conn_p { c with closes := c.closes ++ [(caller,[.test])] })
    | none => none
  | .connClose conn_p call => match s.connections[conn_p]? with
    | some c => match c.closes[call]? with
      | some (caller,op :: rest) =>
        let done := connClose s conn_p c op
        some (done.1.set conn_p { done.2.1 with closes := c.closes.set call (caller,done.2.2 ++ rest) })
      | _ => none
    | none => none
  | .teardown conn_p => match s.connections[conn_p]? with
    | some c => match c.teardown with
      | op :: rest => (teardown s conn_p c op).map fun done =>
        done.1.set conn_p { done.2.1 with teardown := done.2.2 ++ rest }
      | [] => none
    | none => none
  | .destroy socket =>
    if s.walks socket = none then
      some { s with walks := Function.update s.walks socket (some (conn_head s socket)) }
    else none
  | .walk socket =>
    if Idle s socket then match s.walks socket with
      | some (conn_p :: rest) => match s.connections[conn_p]? with
        | some c => some { s.set conn_p { c with closes := c.closes ++ [(.socket,[.test])] } with
          walks := Function.update s.walks socket (some rest) }
        | none => none
      | some [] => some { s with walks := Function.update s.walks socket none }
      | none => none
    else none

/-- A caller that still has the connection: in a thread with a reference, under `conn_lock`
with the connection in the list, or before `onClose` has returned. -/
def Held (walks : Nat → Option (List Nat)) (c : ConnectionLinux) : Caller → Prop
  | .inside thread => ∃ ops ∈ c.io.threads[thread]?, ∃ op ∈ ops, 0 < Connection.share op
  | .socket => walks c.socket ≠ none ∧ c.listed = true
  | .outside => c.io.onClosed = 0

def ReturnsOnClose (c : ConnectionLinux) : Connection.Action → Prop
  | .run thread _ => c.io.threads[thread]?.bind List.head? = some .onClose
  | _ => False

/-- What is called from outside the callbacks begins before `onClose` returns, and is over then;
what is called inside one belongs to a thread that has a reference. -/
def Promised (s : State) : Action → Prop
  | .io conn_p a => ∀ c ∈ s.connections[conn_p]?, Connection.Promised c.io a ∧
    (ReturnsOnClose c a → ∀ call ∈ c.closes, call.1 = .outside → call.2 = [])
  | .close conn_p caller => ∀ c ∈ s.connections[conn_p]?, Held s.walks c caller
  | _ => True

/-- `close()` has been called on a connection before the release of its last reference closes its descriptor. -/
def Disarmed (s : State) : Action → Prop
  | .teardown conn_p => ∀ c ∈ s.connections[conn_p]?, c.teardown.head? = some .close → c.param_fd = none
  | _ => True

def Holding (c : ConnectionLinux) : Prop := c.io.released = false ∨ .close ∈ c.teardown

structure Kept (table : Nat → Option Holder) (walks : Nat → Option (List Nat)) (conn_p : Nat) (c : ConnectionLinux) : Prop where
  references : References c.io
  unreleased : c.io.released = false → c.teardown = []
  stages : c.teardown <:+ [.listDel,.close,.destroy]
  listed : c.listed = true ↔ c.io.released = false ∨ .listDel ∈ c.teardown
  own : Holding c → table c.fd = some (.connection conn_p)
  armed : ∀ fd ∈ c.param_fd, fd = c.fd ∧ Holding c
  closes : ∀ call ∈ c.closes, call.2 ≠ [] → Held walks c call.1

structure Inv (s : State) : Prop where
  kept : ∀ conn_p, ∀ c ∈ s.connections[conn_p]?, Kept s.table s.walks conn_p c
  walked : ∀ socket, ∀ rest ∈ s.walks socket, ∀ conn_p ∈ rest, ∃ c ∈ s.connections[conn_p]?, c.socket = socket ∧ c.listed = true
  calls : ∀ call ∈ s.calls, call.held = some (.connection call.conn_p)

theorem stages_cases (stages : ops <:+ [Teardown.listDel,.close,.destroy]) :
    ops = [.listDel,.close,.destroy] ∨ ops = [.close,.destroy] ∨ ops = [.destroy] ∨ ops = [] := by
  simpa [List.suffix_cons_iff] using stages

theorem References.unreleased (refs : References io) (alive : io.ref ≠ 0) : io.released = false :=
  Bool.eq_false_iff.mpr fun released => alive (refs.released.mp released)

theorem References.stepped (refs : References io) (promised : Connection.Promised io a) (taken : Connection.step io a = some io') :
    io.released = false := by
  apply References.unreleased refs
  intro zero
  have untouched := refs.untouched zero promised
  simp [untouched] at taken

/-- Who still has the connection finds its descriptor open. -/
theorem Kept.holding (kept : Kept table walks conn_p c) (held : Held walks c caller) : Holding c := by
  cases caller with
  | inside thread =>
    obtain ⟨ops,here,op,member,refers⟩ := held
    have less := weight_le_of_mem Connection.share (List.mem_of_getElem? here) member
    have account := kept.references.account
    exact .inl (References.unreleased kept.references (by omega))
  | socket =>
    rcases kept.listed.mp held.2 with unreleased | waits
    · exact .inl unreleased
    · rcases stages_cases kept.stages with all | later | last | done <;> simp_all [Holding]
  | outside =>
    apply Or.inl
    apply References.unreleased kept.references
    intro zero
    have closed := (kept.references.unreferenced zero).1
    simp only [Held] at held
    omega

theorem Kept.elsewhere (kept : Kept table walks conn_p c) (same : Holding c → table' c.fd = table c.fd) :
    Kept table' walks conn_p c :=
  { kept with own := fun holding => (same holding).trans (kept.own holding) }

theorem Inv.update {table : Nat → Option Holder} {calls : List SysCall} (inv : Inv s)
    (here : s.connections[conn_p]? = some c) (kept : Kept table s.walks conn_p c')
    (others : ∀ other, other ≠ conn_p → ∀ d ∈ s.connections[other]?, Holding d → table d.fd = s.table d.fd)
    (socket : c'.socket = c.socket) (listed : s.walks c.socket ≠ none → c'.listed = c.listed)
    (owned : ∀ call ∈ calls, call.held = some (.connection call.conn_p)) :
    Inv { s with table := table, connections := s.connections.set conn_p c', calls := calls } := by
  obtain ⟨inside,_⟩ := List.getElem?_eq_some_iff.mp here
  refine ⟨?_,?_,owned⟩
  · intro other d found
    by_cases same : other = conn_p
    · subst same
      obtain rfl : c' = d := by simpa [inside] using found
      exact kept
    · have before : d ∈ s.connections[other]? := by simpa [List.getElem?_set_ne (Ne.symm same)] using found
      exact (inv.kept other d before).elsewhere (others other same d before)
  · intro place rest walking other member
    obtain ⟨d,found,place',inList⟩ := inv.walked place rest walking other member
    by_cases same : other = conn_p
    · subst same
      obtain rfl : c = d := Option.some.inj (here.symm.trans found)
      have locked : s.walks c.socket ≠ none := by
        rw [place']
        exact fun free => by simp [free] at walking
      exact ⟨c',by simp [inside],socket.trans place',(listed locked).trans inList⟩
    · exact ⟨d,by simpa [List.getElem?_set_ne (Ne.symm same)] using found,place',inList⟩

/-- A step of the I/O leaves the other threads alone. -/
theorem step_thread (taken : Connection.step io a = some io') (here : io.threads[thread]? = some ops)
    (other : ∀ outcome, a ≠ .run thread outcome) : io'.threads[thread]? = some ops := by
  obtain ⟨inside,_⟩ := List.getElem?_eq_some_iff.mp here
  cases a with
  | call side | epoll side | close =>
    cases taken
    simpa [Connection.spawn,List.getElem?_append_left inside] using here
  | doJob side =>
    simp only [Connection.step,Option.ite_none_right_eq_some,Option.some.injEq] at taken
    obtain ⟨waits,rfl⟩ := taken
    simpa [Connection.spawn,List.getElem?_append_left inside] using here
  | run ran outcome =>
    have apart : ran ≠ thread := fun same => other outcome (by rw [same])
    rcases found : io.threads[ran]? with _ | _ | ⟨op,rest⟩
    · simp [Connection.step,found] at taken
    · simp [Connection.step,found] at taken
    · simp only [Connection.step,found,Option.map_eq_some_iff] at taken
      obtain ⟨done,_,rfl⟩ := taken
      simpa [List.getElem?_set_ne apart] using here

theorem step_onClosed {c : ConnectionLinux} (taken : Connection.step c.io a = some io') (running : ¬ReturnsOnClose c a) :
    io'.onClosed = c.io.onClosed := by
  cases a with
  | call side | epoll side | close =>
    cases taken
    rfl
  | doJob side =>
    simp only [Connection.step,Option.ite_none_right_eq_some,Option.some.injEq] at taken
    obtain ⟨waits,rfl⟩ := taken
    rfl
  | run thread outcome =>
    rcases found : c.io.threads[thread]? with _ | _ | ⟨op,rest⟩
    · simp [Connection.step,found] at taken
    · simp [Connection.step,found] at taken
    · simp only [Connection.step,found,Option.map_eq_some_iff] at taken
      obtain ⟨done,ran,rfl⟩ := taken
      have closes := (Connection.exec_closes ran).1
      have other : Connection.closing op = 0 := by
        cases op <;> simp_all [ReturnsOnClose]
      simp only
      omega

/-- After a failed read its thread still has the references of its job and of the IOContexts. -/
theorem failed_held (taken : Connection.step io a = some io') (member : call ∈ failed io a) :
    ∃ thread, call.1 = .inside thread ∧ ∃ ops ∈ io'.threads[thread]?, ∃ op ∈ ops, 0 < Connection.share op := by
  cases a with
  | run thread outcome =>
    cases outcome with
    | error =>
      rcases found : io.threads[thread]? with _ | _ | ⟨op,rest⟩
      · simp [failed,found] at member
      · simp [failed,found] at member
      · obtain ⟨inside,_⟩ := List.getElem?_eq_some_iff.mp found
        simp only [failed,found] at member
        split at member
        · next heard =>
          obtain ⟨rfl,rfl⟩ := List.cons.inj (Option.some.inj heard)
          obtain rfl := List.mem_singleton.mp member
          simp only [Connection.step,found,Option.map_eq_some_iff] at taken
          obtain ⟨done,ran,rfl⟩ := taken
          cases ran
          exact ⟨thread,rfl,_,List.getElem?_set_self inside,.socketIODone,by simp [Connection.closed],Nat.one_pos⟩
        · simp at member
    | _ => simp [failed] at member
  | _ => simp [failed] at member

theorem Kept.step (kept : Kept table walks conn_p c) (promised : Connection.Promised c.io a)
    (returned : ReturnsOnClose c a → ∀ call ∈ c.closes, call.1 = .outside → call.2 = [])
    (taken : c.step a = some c') : Kept table walks conn_p c' := by
  simp only [ConnectionLinux.step,Option.ite_none_left_eq_some,Option.map_eq_some_iff] at taken
  obtain ⟨free,io,stepped,rfl⟩ := taken
  have alive := References.stepped kept.references promised stepped
  have refs := Connection.step_references kept.references promised stepped
  have stage : (io.released = false ∧ released c io = []) ∨ (io.released = true ∧ released c io = [.listDel,.close,.destroy]) := by
    cases now : io.released <;> simp [released,now,alive,kept.unreleased alive]
  have holding : Holding c := .inl alive
  have holding' : io.released = false ∨ .close ∈ released c io := by
    rcases stage with ⟨still,_⟩ | ⟨_,all⟩
    · exact .inl still
    · exact .inr (by simp [all])
  refine ⟨refs,?_,?_,?_,fun _ => kept.own holding,?_,?_⟩
  · intro still
    rcases stage with ⟨_,none⟩ | ⟨now,_⟩
    · exact none
    · simp [now] at still
  · rcases stage with ⟨_,none⟩ | ⟨_,all⟩
    · simp [none]
    · simp [all]
  · have inList : c.listed = true := kept.listed.mpr (.inl alive)
    rcases stage with ⟨still,none⟩ | ⟨now,all⟩
    · simp [inList,still]
    · simp [inList,all]
  · intro fd present
    exact ⟨(kept.armed fd present).1,holding'⟩
  · intro call member more
    rcases List.mem_append.mp member with old | new
    · have held := kept.closes call old more
      obtain ⟨caller,ops⟩ := call
      cases caller with
      | inside thread =>
        obtain ⟨ops',here,held⟩ := held
        refine ⟨ops',step_thread stepped here ?_,held⟩
        rintro outcome rfl
        exact free ⟨_,old,rfl,more⟩
      | socket => exact held
      | outside =>
        have running : ¬ReturnsOnClose c a := fun running => more (returned running _ old rfl)
        exact (step_onClosed stepped running).trans held
    · obtain ⟨thread,inside,held⟩ := failed_held stepped new
      rw [inside]
      exact held

theorem Held.same {c c' : ConnectionLinux} (held : Held walks c caller) (io : c'.io = c.io) (socket : c'.socket = c.socket)
    (listed : c'.listed = c.listed) : Held walks c' caller := by
  cases caller <;> simpa [Held,io,socket,listed] using held

/-- A caller that has the connection starts a call of `connClose`. -/
theorem Kept.call (kept : Kept table walks conn_p c) (held : Held walks c caller) :
    Kept table walks conn_p { c with closes := c.closes ++ [(caller,[.test])] } := by
  refine { kept with closes := ?_ }
  intro call member more
  rcases List.mem_append.mp member with old | new
  · exact (kept.closes call old more).same rfl rfl rfl
  · obtain rfl := List.mem_singleton.mp new
    exact held.same rfl rfl rfl

/-- As long as the descriptor is open, `param.fd` is its number or forgotten. -/
theorem Kept.called {s : State} (kept : Kept s.table walks conn_p c) (calls : ∀ call ∈ s.calls, call.held = some (.connection call.conn_p))
    (holding : Holding c) : ∀ call ∈ s.called conn_p c.param_fd, call.held = some (.connection call.conn_p) := by
  intro call member
  cases param : c.param_fd with
  | none =>
    simp only [State.called,param] at member
    exact calls call member
  | some fd =>
    obtain ⟨rfl,_⟩ := kept.armed fd param
    simp only [State.called,param] at member
    rcases List.mem_cons.mp member with rfl | old
    · exact kept.own holding
    · exact calls call old

/-- An operation of `connClose` finds the connection with its caller. -/
theorem connClose_inv (inv : Inv s) (here : s.connections[conn_p]? = some c) {call : Nat}
    (ahead : c.closes[call]? = some (caller,op :: rest)) :
    Inv ((connClose s conn_p c op).1.set conn_p
      { (connClose s conn_p c op).2.1 with closes := c.closes.set call (caller,(connClose s conn_p c op).2.2 ++ rest) }) := by
  have kept := inv.kept conn_p c here
  have held := kept.closes _ (List.mem_of_getElem? ahead) (by simp)
  have holding := kept.holding held
  have closes : ∀ ops, ∀ other ∈ c.closes.set call (caller,ops), other.2 ≠ [] → Held s.walks c other.1 := by
    intro ops other member more
    rcases List.mem_or_eq_of_mem_set member with old | rfl
    · exact kept.closes other old more
    · exact held
  have same : ∀ ops, Kept s.table s.walks conn_p { c with closes := c.closes.set call (caller,ops) } := fun ops =>
    { kept with closes := fun other member more => (closes ops other member more).same rfl rfl rfl }
  cases op with
  | test => exact inv.update here (same _) (fun _ _ _ _ _ => rfl) rfl (fun _ => rfl) inv.calls
  | shutdown =>
    exact inv.update here (same _) (fun _ _ _ _ _ => rfl) rfl (fun _ => rfl) (kept.called inv.calls holding)
  | store =>
    refine inv.update here ?_ (fun _ _ _ _ _ => rfl) rfl (fun _ => rfl) inv.calls
    exact { kept with
      armed := nofun
      closes := fun other member more => (closes _ other member more).same rfl rfl rfl }

theorem Kept.teardown (kept : Kept table walks conn_p c) (ahead : c.teardown = op :: rest) : c.io.released = true := by
  by_contra alive
  have none := kept.unreleased (by simpa using alive)
  simp [none] at ahead

/-- What is left of the calls of `connClose` when the descriptor is closed. -/
theorem Kept.ended (kept : Kept table walks conn_p c) (closed : ¬Holding c) : ∀ call ∈ c.closes, call.2 = [] := by
  intro call member
  by_contra more
  exact closed (kept.holding (kept.closes call member more))

/-- The release takes the connection out of the list while nobody walks it, closes the
descriptor while it is the connection's, and finds `param.fd` forgotten. -/
theorem teardown_inv (inv : Inv s) (here : s.connections[conn_p]? = some c) (ahead : c.teardown = op :: rest)
    (disarmed : op = .close → c.param_fd = none) (taken : teardown s conn_p c op = some done) :
    Inv (done.1.set conn_p { done.2.1 with teardown := done.2.2 ++ rest }) := by
  have kept := inv.kept conn_p c here
  have gone := kept.teardown ahead
  have stages := stages_cases kept.stages
  rw [ahead] at stages
  cases op with
  | listDel =>
    obtain rfl : rest = [.close,.destroy] := by simpa using stages
    simp only [Descriptors.teardown,Option.ite_none_right_eq_some,Option.some.injEq] at taken
    obtain ⟨unlocked,rfl⟩ := taken
    have holding : Holding c := .inr (by simp [ahead])
    refine inv.update here ?_ (fun _ _ _ _ _ => rfl) rfl (fun locked => absurd unlocked locked) inv.calls
    refine ⟨kept.references,?_,by simp,by simp [gone],fun _ => kept.own holding,?_,?_⟩
    · intro alive
      simp [gone] at alive
    · intro fd present
      exact ⟨(kept.armed fd present).1,.inr (by simp)⟩
    · intro call member more
      have held := kept.closes call member more
      obtain ⟨caller,ops⟩ := call
      cases caller with
      | inside thread | outside => exact held
      | socket => exact absurd unlocked held.1
  | close =>
    obtain rfl : rest = [.destroy] := by simpa using stages
    cases taken
    have holding : Holding c := .inr (by simp [ahead])
    have forgotten := disarmed rfl
    refine inv.update here ?_ ?_ rfl (fun _ => rfl) ?_
    · refine ⟨kept.references,?_,by simp [List.suffix_cons_iff],?_,?_,?_,?_⟩
      · intro alive
        simp [gone] at alive
      · simpa [ahead] using kept.listed
      · intro holding
        simp [Holding,gone] at holding
      · intro fd present
        simp [forgotten] at present
      · intro call member more
        exact (kept.closes call member more).same rfl rfl rfl
    · intro other apart d found holds
      have mine := kept.own holding
      have theirs := (inv.kept other d found).own holds
      have differ : c.fd ≠ d.fd := by
        intro same
        rw [same,theirs] at mine
        exact apart (Holder.connection.inj (Option.some.inj mine))
      simp [State.close,differ]
    · intro call member
      rcases List.mem_cons.mp member with rfl | old
      · exact kept.own holding
      · exact inv.calls call old
  | destroy =>
    obtain rfl : rest = [] := by simpa using stages
    cases taken
    have closed : ¬Holding c := by simp [Holding,gone,ahead]
    have forgotten : c.param_fd = none := by
      by_contra present
      obtain ⟨fd,present⟩ := Option.ne_none_iff_exists'.mp present
      exact closed (kept.armed fd present).2
    refine inv.update here ?_ (fun _ _ _ _ _ => rfl) rfl (fun _ => rfl) inv.calls
    refine ⟨kept.references,?_,by simp [forgotten],?_,?_,?_,?_⟩
    · intro alive
      simp [gone] at alive
    · simpa [ahead,forgotten] using kept.listed
    · intro holding
      simp [Holding,gone,forgotten] at holding
    · intro fd present
      simp [forgotten] at present
    · intro call member more
      exact (kept.closes call member more).same rfl rfl rfl
  | shutdownParam | closeParam => simp at stages

/-- What other parts of the process do with their numbers. -/
theorem Inv.elsewhere {table : Nat → Option Holder} (inv : Inv s)
    (same : ∀ fd conn_p, s.table fd = some (.connection conn_p) → table fd = s.table fd) : Inv { s with table } := by
  refine ⟨?_,inv.walked,inv.calls⟩
  intro conn_p c found
  have kept := inv.kept conn_p c found
  exact kept.elsewhere fun holding => same _ _ (kept.own holding)

/-- A socket may take and release its `conn_lock` while no call of its `destroy` is at work. -/
theorem Kept.relock (kept : Kept table walks conn_p c)
    (free : ∀ call ∈ c.closes, call.1 = .socket → call.2 ≠ [] → walks' c.socket ≠ none) : Kept table walks' conn_p c := by
  refine { kept with closes := ?_ }
  intro call member more
  have held := kept.closes call member more
  obtain ⟨caller,ops⟩ := call
  cases caller with
  | inside thread | outside => exact held
  | socket => exact ⟨free _ member rfl more,held.2⟩

theorem mem_conn_head (member : conn_p ∈ conn_head s socket) :
    ∃ c ∈ s.connections[conn_p]?, c.socket = socket ∧ c.listed = true := by
  obtain ⟨_,found⟩ := List.mem_filter.mp member
  obtain ⟨c,here,listed⟩ := (Option.any_eq_true _ _).mp found
  simp only [Bool.and_eq_true,decide_eq_true_eq] at listed
  exact ⟨c,here,listed.2,listed.1⟩

theorem createConnection_kept (socket fd : Nat) (own : table fd = some (.connection conn_p)) :
    Kept table walks conn_p (createConnection socket fd) := by
  have refs := Connection.reachable_references .start
  refine ⟨refs,fun _ => rfl,by simp [createConnection],by simp [createConnection,Connection.createConnection],fun _ => own,?_,nofun⟩
  rintro number ⟨⟩
  exact ⟨rfl,.inl rfl⟩

theorem accept_inv (inv : Inv s) (unused : s.table fd = none) :
    Inv { s with
      table := Function.update s.table fd (some (.connection s.connections.length))
      connections := s.connections ++ [createConnection socket fd] } := by
  have others : ∀ number conn_p, s.table number = some (.connection conn_p) →
      Function.update s.table fd (some (.connection s.connections.length)) number = s.table number := by
    intro number conn_p owned
    apply Function.update_of_ne
    rintro rfl
    simp [unused] at owned
  refine ⟨?_,?_,inv.calls⟩
  · intro conn_p c found
    by_cases inside : conn_p < s.connections.length
    · have before : c ∈ s.connections[conn_p]? := by simpa [List.getElem?_append_left inside] using found
      exact ((inv.elsewhere others).kept conn_p c before)
    · obtain ⟨bound,_⟩ := List.getElem?_eq_some_iff.mp found
      obtain rfl : conn_p = s.connections.length := by
        simp at bound
        omega
      obtain rfl : createConnection socket fd = c := by simpa using found
      exact createConnection_kept socket fd (Function.update_self ..)
  · intro place rest walking conn_p member
    obtain ⟨c,found,here⟩ := inv.walked place rest walking conn_p member
    obtain ⟨inside,_⟩ := List.getElem?_eq_some_iff.mp found
    exact ⟨c,by simpa [List.getElem?_append_left inside] using found,here⟩

/-- `destroy` of a socket goes on in its walk, through connections that are in the list. -/
theorem Inv.walks (inv : Inv s) (walk : Option (List Nat))
    (free : walk = none → Idle s socket)
    (walked : ∀ rest ∈ walk, ∀ conn_p ∈ rest, ∃ c ∈ s.connections[conn_p]?, c.socket = socket ∧ c.listed = true) :
    Inv { s with walks := Function.update s.walks socket walk } := by
  refine ⟨?_,?_,inv.calls⟩
  · intro conn_p c found
    have kept := inv.kept conn_p c found
    apply kept.relock
    intro call member byDestroy more
    by_cases same : c.socket = socket
    · simp only [same,Function.update_self]
      intro unlocked
      exact more (free unlocked c (List.mem_of_getElem? found) same call member byDestroy)
    · have held := kept.closes call member more
      rw [byDestroy] at held
      simpa [Function.update_of_ne same] using held.1
  · intro place rest walking conn_p member
    by_cases same : place = socket
    · subst same
      exact walked rest (by simpa using walking) conn_p member
    · exact inv.walked place rest (by simpa [Function.update_of_ne same] using walking) conn_p member

theorem walk_inv (inv : Inv s) (taken : step s (.walk socket) = some s') : Inv s' := by
  simp only [step,Option.ite_none_right_eq_some] at taken
  obtain ⟨idle,taken⟩ := taken
  rcases walking : s.walks socket with _ | _ | ⟨conn_p,rest⟩
  · simp [walking] at taken
  · simp only [walking,Option.some.injEq] at taken
    subst taken
    exact inv.walks none (fun _ => idle) nofun
  · obtain ⟨c,here,place,inList⟩ := inv.walked socket _ walking conn_p List.mem_cons_self
    obtain ⟨inside,_⟩ := List.getElem?_eq_some_iff.mp here
    have found : s.connections[conn_p]? = some c := here
    simp only [walking,found,Option.some.injEq] at taken
    subst taken
    have held : Held s.walks c .socket := ⟨by simp [place,walking],inList⟩
    have called : Inv (s.set conn_p { c with closes := c.closes ++ [(.socket,[.test])] }) :=
      inv.update here ((inv.kept conn_p c here).call held) (fun _ _ _ _ _ => rfl) rfl (fun _ => rfl) inv.calls
    apply called.walks (some rest) nofun
    rintro rest ⟨⟩ other member
    exact called.walked socket _ walking other (List.mem_cons_of_mem _ member)

theorem step_inv (inv : Inv s) (allowed : Promised s a ∧ Disarmed s a) (taken : step s a = some s') : Inv s' := by
  obtain ⟨promised,disarmed⟩ := allowed
  cases a with
  | taken fd | given fd =>
    simp only [step,Option.ite_none_right_eq_some,Option.some.injEq] at taken
    obtain ⟨unowned,rfl⟩ := taken
    apply inv.elsewhere
    intro number conn_p owned
    apply Function.update_of_ne
    rintro rfl
    simp [unowned] at owned
  | accept socket fd =>
    simp only [step,Option.ite_none_right_eq_some,Option.some.injEq] at taken
    obtain ⟨⟨unused,_⟩,rfl⟩ := taken
    exact accept_inv inv unused
  | io conn_p a =>
    rcases here : s.connections[conn_p]? with _ | c
    · simp [step,here] at taken
    · simp only [step,here,Option.map_eq_some_iff] at taken
      obtain ⟨c',stepped,rfl⟩ := taken
      obtain ⟨promised,returned⟩ := promised c here
      have kept := (inv.kept conn_p c here).step promised returned stepped
      simp only [ConnectionLinux.step,Option.ite_none_left_eq_some,Option.map_eq_some_iff] at stepped
      obtain ⟨_,io,_,rfl⟩ := stepped
      exact inv.update here kept (fun _ _ _ _ _ => rfl) rfl (fun _ => rfl) inv.calls
  | close conn_p caller =>
    rcases here : s.connections[conn_p]? with _ | c
    · simp [step,here] at taken
    · simp only [step,here,Option.ite_none_left_eq_some,Option.some.injEq] at taken
      obtain ⟨_,rfl⟩ := taken
      have called := (inv.kept conn_p c here).call (promised c here)
      exact inv.update here called (fun _ _ _ _ _ => rfl) rfl (fun _ => rfl) inv.calls
  | connClose conn_p call =>
    rcases here : s.connections[conn_p]? with _ | c
    · simp [step,here] at taken
    · rcases ahead : c.closes[call]? with _ | ⟨caller,_ | ⟨op,rest⟩⟩
      · simp [step,here,ahead] at taken
      · simp [step,here,ahead] at taken
      · simp only [step,here,ahead,Option.some.injEq] at taken
        subst taken
        exact connClose_inv inv here ahead
  | teardown conn_p =>
    rcases here : s.connections[conn_p]? with _ | c
    · simp [step,here] at taken
    · rcases ahead : c.teardown with _ | ⟨op,rest⟩
      · simp [step,here,ahead] at taken
      · simp only [step,here,ahead,Option.map_eq_some_iff] at taken
        obtain ⟨done,ran,rfl⟩ := taken
        refine teardown_inv inv here ahead ?_ ran
        rintro rfl
        exact disarmed c here (by simp [ahead])
  | destroy socket =>
    simp only [step,Option.ite_none_right_eq_some,Option.some.injEq] at taken
    obtain ⟨_,rfl⟩ := taken
    refine inv.walks _ nofun ?_
    rintro rest ⟨⟩ conn_p member
    exact mem_conn_head member
  | walk socket => exact walk_inv inv taken

/-- In every run in which `close()` is called on a connection before its release closes its
descriptor, every call of `shutdown` and `close` for a connection finds the number the
connection's own, and connections whose release has not come that far keep theirs. -/
theorem descriptors_owned (reachable : Reachable step (fun s a => Promised s a ∧ Disarmed s a) start s) :
    (∀ call ∈ s.calls, call.held = some (.connection call.conn_p)) ∧
    ∀ conn_p, ∀ c ∈ s.connections[conn_p]?, Holding c → s.table c.fd = some (.connection conn_p) := by
  have begins : Inv start := ⟨nofun,nofun,nofun⟩
  have inv := reachable.invariant begins fun _ _ _ inv allowed taken => step_inv inv allowed taken
  exact ⟨inv.calls,fun conn_p c found => (inv.kept conn_p c found).own⟩

theorem step_teardown (here : s.connections[conn_p]? = some c) (ahead : c.teardown = op :: rest)
    (ran : teardown s conn_p c op = some done) :
    step s (.teardown conn_p) = some (done.1.set conn_p { done.2.1 with teardown := done.2.2 ++ rest }) := by
  simp only [step,here,ahead,ran,Option.map_some]

theorem getElem?_set (s : State) (here : s.connections[conn_p]? = some c) (c' : ConnectionLinux) :
    (s.set conn_p c').connections[conn_p]? = some c' :=
  List.getElem?_set_self (List.getElem?_eq_some_iff.mp here).1

/-- Where `close()` has not been called, the release goes on with a number it has given back. -/
theorem armed_strays (here : s.connections[conn_p]? = some c) (ahead : c.teardown = [.close,.destroy]) (armed : c.param_fd = some c.fd) :
    ∃ s', execute step s [.teardown conn_p,.teardown conn_p,.teardown conn_p] = some s' ∧ ⟨conn_p,c.fd,none⟩ ∈ s'.calls := by
  have closed := step_teardown here ahead rfl
  have there := getElem?_set (s.close conn_p (some c.fd)) here { c with teardown := [] ++ [.destroy] }
  have tested := step_teardown there rfl rfl
  have again := getElem?_set _ there { c with teardown := (if c.param_fd = none then [] else [.shutdownParam,.closeParam]) ++ [] }
  have stray := step_teardown again (by simp [armed]; exact ⟨rfl,rfl⟩) rfl
  refine ⟨_,by simp only [execute,closed,tested,stray]; rfl,?_⟩
  simp [State.set,State.shutdown,State.called,armed,State.close]

def hungUp : List Action :=
  [.accept 0 7,.io 0 .close,.io 0 (.run 0 .nothing),.io 0 (.run 0 .nothing),.io 0 (.run 0 .nothing),.io 0 (.run 0 .nothing),
    .io 0 (.run 0 .nothing),.teardown 0,.teardown 0,.accept 0 7,.teardown 0,.teardown 0,.teardown 0]

def closedFirst : List Action :=
  [.accept 0 7,.close 0 .outside,.connClose 0 0,.connClose 0 0,.connClose 0 0,.io 0 .close,.io 0 (.run 0 .nothing),
    .io 0 (.run 0 .nothing),.io 0 (.run 0 .nothing),.io 0 (.run 0 .nothing),.io 0 (.run 0 .nothing),.teardown 0,.teardown 0,
    .accept 0 7,.teardown 0]

instance (walks : Nat → Option (List Nat)) (c : ConnectionLinux) : (caller : Caller) → Decidable (Held walks c caller)
  | .inside thread => inferInstanceAs (Decidable (∃ ops ∈ c.io.threads[thread]?, ∃ op ∈ ops, 0 < Connection.share op))
  | .socket => inferInstanceAs (Decidable (walks c.socket ≠ none ∧ c.listed = true))
  | .outside => inferInstanceAs (Decidable (c.io.onClosed = 0))

instance (c : ConnectionLinux) : (a : Connection.Action) → Decidable (ReturnsOnClose c a)
  | .run thread _ => inferInstanceAs (Decidable (c.io.threads[thread]?.bind List.head? = some .onClose))
  | .call _ | .epoll _ | .doJob _ | .close => inferInstanceAs (Decidable False)

instance (s : State) : (a : Action) → Decidable (Promised s a)
  | .io conn_p a => inferInstanceAs (Decidable (∀ c ∈ s.connections[conn_p]?, Connection.Promised c.io a ∧
      (ReturnsOnClose c a → ∀ call ∈ c.closes, call.1 = .outside → call.2 = [])))
  | .close conn_p caller => inferInstanceAs (Decidable (∀ c ∈ s.connections[conn_p]?, Held s.walks c caller))
  | .taken _ | .given _ | .accept _ _ | .connClose _ _ | .teardown _ | .destroy _ | .walk _ => inferInstanceAs (Decidable True)

instance (s : State) : (a : Action) → Decidable (Disarmed s a)
  | .teardown conn_p => inferInstanceAs (Decidable (∀ c ∈ s.connections[conn_p]?,
      c.teardown.head? = some .close → c.param_fd = none))
  | .taken _ | .given _ | .accept _ _ | .io _ _ | .close _ _ | .connClose _ _ | .destroy _ | .walk _ => inferInstanceAs (Decidable True)

theorem descriptors_owned_closed :
    ∃ s, execute step start closedFirst = some s ∧ s.calls.length = 2 ∧ ∀ call ∈ s.calls, call.held = some (.connection call.conn_p) := by
  have allowed : Permitted step (fun s a => Promised s a ∧ Disarmed s a) start closedFirst := by decide +kernel
  have owned := descriptors_owned (Reachable.start.execute closedFirst allowed rfl)
  exact ⟨_,rfl,rfl,owned.1⟩

theorem descriptors_not_owned_hungUp :
    ∃ s, Reachable step Promised start s ∧ ⟨0,7,some (.connection 1)⟩ ∈ s.calls ∧ s.table 7 = none := by
  have allowed : Permitted step Promised start hungUp := by decide +kernel
  exact ⟨_,Reachable.start.execute hungUp allowed rfl,List.mem_cons_self,rfl⟩

end Muti.Descriptors
