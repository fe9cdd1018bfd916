import Muti.ClientAccounts

/-! Exactly-once notification. A request's callback runs at most once, never when
`clientSendRequest` returned false, and once by the end of `clientOnClose` when it
returned true, as long as no step comes at a wrong moment. -/
namespace Muti.ClientNotify

open Muti.Lists Muti.Transition Muti.SharedBuffers Muti.SharedBuffers.Buffers

/-- A write that was accepted and whose callback has not notified a failure yet. -/
@[simp] def committed : Op → Nat
  | .append _ | .failWrite _ | .failCallback _ => 1
  | _ => 0

def OnClose.ReadsOver : OnClose → Prop
  | .waitWrites | .drain _ => True
  | _ => False

/-- What the waits of `clientOnClose` have seen stays so. -/
structure Closing (s : State) : Prop where
  closed : s.onClose ≠ .notClosed → s.is_closed = true
  reads : s.onClose.ReadsOver → s.buffers.live = []
  writes : ∀ slot, s.onClose = .drain slot → s.writes = [] ∧ total committed s.threads = 0
  drained : ∀ slot, s.onClose = .drain slot → ∀ r ∈ s.waiting, (Client.hash (s.sequences r)).val < slot →
    s.returned r ≠ some true

/-- When no buffer is left, nobody has a share of one. -/
theorem Reads.nobody (reads : Reads s) (gone : s.buffers.live = []) (b : Nat) :
    s.users b = 0 ∧ total (held b) s.threads = 0 := by
  have balanced := reads.balanced b
  have dead : s.buffers.refs b = 0 := refs_dead (by simp [gone])
  omega

/-- All read buffers are gone when the two read counters meet. -/
theorem Reads.gone (reads : Reads s) (meet : s.read_counter = s.read_done_counter) : s.buffers.live = [] := by
  have counted := reads.counted
  have stream := reads.stream
  by_cases none : total counting s.threads = 0
  · have empty : s.buffers.live.length = 0 := by omega
    exact List.length_eq_zero_iff.mp empty
  · have fewer : total counting s.threads ≤ total continues s.threads := by
      apply total_mono
      intro op
      cases op <;> simp
    have one : s.buffers.live.length ≤ 1 := by omega
    rw [total_eq_zero] at none
    push Not at none
    obtain ⟨ops,thread,op,inside,counts⟩ := none
    cases op with
    | countRead rbuf old_rbuf =>
      have mine := weight_le_of_mem (held rbuf) thread inside
      have older := weight_le_of_mem (held old_rbuf) thread inside
      have apart := weight_le_of_mem confused thread inside
      have distinct := reads.distinct
      have first := reads.balanced rbuf
      have second := reads.balanced old_rbuf
      simp at mine older
      have new : rbuf ∈ s.buffers.live := live_of_refs (by omega)
      have old : old_rbuf ∈ s.buffers.live := live_of_refs (by omega)
      have same := eq_of_short one new old
      simp [same] at apart
      omega
    | _ => simp at counts

/-- Then only a last count is still to be made on the read side. -/
theorem Reads.receive_over {i : Nat} (reads : Reads s) (gone : s.buffers.live = [])
    (here : s.threads[i]? = some (op :: rest)) (done : receive s outcome op = some (s',ops)) :
    s' = { s with read_done_counter := s.read_done_counter + 1 } ∧ ops = [] := by
  have idle : ∀ b, held b op = 0 := by
    intro b
    have share := weight_le_total (held b) here
    have nobody := (reads.nobody gone b).2
    omega
  cases op with
  | readDone =>
    cases done
    exact ⟨rfl,rfl⟩
  | enter rbuf | turn rbuf | decode rbuf r | refer rbuf r | insertTail rbuf r | listAdd rbuf r same
  | freeReadBuffer rbuf | countRead rbuf old_rbuf | read rbuf | doJob rbuf r =>
    have mine := idle rbuf
    simp at mine
  | _ => cases done

structure KeepsClosed (s s' : State) (ops : List Op) : Prop where
  buffers : s'.buffers = s.buffers
  writes : s'.writes = s.writes
  committed : (ops.map committed).sum = 0
  drained : ∀ r, r ∈ s'.waiting → s'.returned r = some true →
    r ∈ s.waiting ∧ s.returned r = some true ∧ s'.sequences r = s.sequences r

theorem success_kept {r c : Nat} (success : Function.update returned r (some false) c = some true) :
    returned c = some true := by
  by_cases same : c = r
  · simp [same] at success
  · simpa [same] using success

/-- A request that is still with its sender is in no slot. -/
theorem Requests.unlinked {i : Nat} (requests : Requests s) (r : Nat) (here : s.threads[i]? = some (op :: rest))
    (prepares : 0 < preparing r op) : r ∉ s.waiting := by
  intro member
  have placed := requests.placed r
  have mine := weight_le_total (preparing r) here
  have waits := List.count_pos_iff.mpr member
  simp only [State.places] at placed
  by_cases started : r < s.started
  · rw [if_pos started] at placed
    omega
  · rw [if_neg started] at placed
    omega

theorem send_keepsClosed {i : Nat} (requests : Requests s) (closed : s.is_closed = true)
    (quiet : total committed s.threads = 0) (here : s.threads[i]? = some (op :: rest))
    (done : send s outcome op = some (s',ops)) : KeepsClosed s s' ops := by
  have mine := weight_le_total committed here
  cases op with
  | readConn r =>
    cases conn : s.conn with
    | true =>
      simp [send,conn] at done
      obtain ⟨rfl,rfl⟩ := done
      exact ⟨rfl,rfl,rfl,fun c member success => ⟨member,success,rfl⟩⟩
    | false =>
      simp [send,conn] at done
      obtain ⟨rfl,rfl⟩ := done
      exact ⟨rfl,rfl,rfl,fun c member success => ⟨member,success_kept success,rfl⟩⟩
  | nextSequence r =>
    have unlinked := requests.unlinked r here (by simp)
    cases done
    refine ⟨rfl,rfl,rfl,?_⟩
    intro c member success
    have other : c ≠ r := by
      rintro rfl
      exact unlinked member
    exact ⟨member,success,Function.update_of_ne other _ _⟩
  | encode r =>
    cases outcome with
    | answer rc =>
      cases rc with
      | true =>
        cases done
        exact ⟨rfl,rfl,rfl,fun c member success => ⟨member,success,rfl⟩⟩
      | false =>
        cases done
        exact ⟨rfl,rfl,rfl,fun c member success => ⟨member,success_kept success,rfl⟩⟩
    | _ => cases done
  | listAddTail r =>
    have unreturned := requests.unreturned r here (by simp)
    cases done
    refine ⟨rfl,rfl,rfl,?_⟩
    intro c member success
    rcases List.mem_append.mp member with member | last
    · exact ⟨member,success,rfl⟩
    · obtain rfl := List.mem_singleton.mp last
      rw [unreturned] at success
      cases success
  | connWrite r =>
    simp [send,closed] at done
    obtain ⟨rfl,rfl⟩ := done
    exact ⟨rfl,rfl,rfl,fun c member success => ⟨member,success,rfl⟩⟩
  | listDel r =>
    cases done
    exact ⟨rfl,rfl,rfl,fun c member success => ⟨List.mem_of_mem_erase member,success_kept success,rfl⟩⟩
  | countWrite r | refused r | writeDone =>
    cases done
    exact ⟨rfl,rfl,rfl,fun c member success => ⟨member,success,rfl⟩⟩
  | append r | failWrite r | failCallback r =>
    simp at mine
    omega
  | _ => cases done

structure Inv (s : State) : Prop where
  reads : Reads s
  requests : Requests s
  closing : Closing s

/-- The closing side only sees the threads through `committed`. -/
theorem Closing.keep (closing : Closing s) (closed : s'.is_closed = s.is_closed) (onClose : s'.onClose = s.onClose)
    (live : s.onClose.ReadsOver → s'.buffers.live = [])
    (drained : ∀ slot, s.onClose = .drain slot → s'.writes = [] ∧ total committed s'.threads = 0 ∧
      ∀ r, r ∈ s'.waiting → s'.returned r = some true →
        r ∈ s.waiting ∧ s.returned r = some true ∧ s'.sequences r = s.sequences r) : Closing s' where
  closed := by
    rw [closed,onClose]
    exact closing.closed
  reads := by
    rw [onClose]
    exact live
  writes := by
    intro slot draining
    rw [onClose] at draining
    obtain ⟨writes,quiet,_⟩ := drained slot draining
    exact ⟨writes,quiet⟩
  drained := by
    intro slot draining r member low success
    rw [onClose] at draining
    obtain ⟨_,_,kept⟩ := drained slot draining
    obtain ⟨member,success,sequences⟩ := kept r member success
    rw [sequences] at low
    exact closing.drained slot draining r member low success

theorem send_keeps (done : send s outcome op = some (s',ops)) :
    s'.buffers = s.buffers ∧ s'.is_closed = s.is_closed ∧ s'.onClose = s.onClose := by
  cases op with
  | readConn r =>
    cases conn : s.conn <;> simp [send,conn] at done <;> obtain ⟨rfl,rfl⟩ := done <;> exact ⟨rfl,rfl,rfl⟩
  | encode r =>
    cases outcome with
    | answer rc => cases rc <;> cases done <;> exact ⟨rfl,rfl,rfl⟩
    | _ => cases done
  | connWrite r =>
    cases closed : s.is_closed <;> simp [send,closed] at done <;> obtain ⟨rfl,rfl⟩ := done <;> exact ⟨rfl,closed,rfl⟩
  | nextSequence r | listAddTail r | countWrite r | append r | refused r | listDel r | failWrite r | failCallback r
  | writeDone =>
    cases done
    exact ⟨rfl,rfl,rfl⟩
  | _ => cases done

theorem clientRead_keeps (s : State) (rbuf : Nat) (same : Bool) :
    (clientRead s rbuf same).1.is_closed = s.is_closed ∧ (clientRead s rbuf same).1.onClose = s.onClose := by
  cases same <;> exact ⟨rfl,rfl⟩

theorem receive_keeps {i : Nat} (reads : Reads s) (here : s.threads[i]? = some (op :: rest))
    (done : receive s outcome op = some (s',ops)) : s'.is_closed = s.is_closed ∧ s'.onClose = s.onClose := by
  cases op with
  | enter rbuf | refer rbuf r | freeReadBuffer rbuf =>
    obtain ⟨live,share⟩ := reads.holder rbuf here (by simp)
    simp only [receive,touch_live live] at done
    cases done
    exact ⟨rfl,rfl⟩
  | turn rbuf =>
    obtain ⟨-,turned⟩ := reads.turned here done
    cases turned with
    | starved same => exact clientRead_keeps s rbuf same
    | unknown absent | known r found => exact ⟨rfl,rfl⟩
  | decode rbuf r =>
    cases outcome with
    | message | starved same =>
      cases done
      exact ⟨rfl,rfl⟩
    | _ => cases done
  | listAdd rbuf r same =>
    cases same <;> cases done <;> exact ⟨rfl,rfl⟩
  | read rbuf =>
    obtain ⟨live,share⟩ := reads.holder rbuf here (by simp)
    cases outcome with
    | answer rc => cases rc <;> simp only [receive,touch_live live] at done <;> cases done <;> exact ⟨rfl,rfl⟩
    | _ => cases done
  | insertTail rbuf r | readDone | countRead rbuf old_rbuf | doJob rbuf r =>
    cases done
    exact ⟨rfl,rfl⟩
  | _ => cases done

theorem run_closing {i : Nat} (inv : Inv s) (here : s.threads[i]? = some (op :: rest))
    (done : exec s outcome op = some (s',ops)) : Closing { s' with threads := s.threads.set i (ops ++ rest) } := by
  have closing := inv.closing
  have advanced := total_advance committed here ops
  cases sent : send s outcome op with
  | some result =>
    simp only [exec,sent,Option.some.injEq] at done
    subst done
    obtain ⟨buffers,closed,onClose⟩ := send_keeps sent
    refine closing.keep closed onClose ?_ ?_
    · intro gone
      change s'.buffers.live = []
      rw [buffers]
      exact closing.reads gone
    · intro slot draining
      obtain ⟨writes,quiet⟩ := closing.writes slot draining
      have done := closing.closed (by simp [draining])
      have keeps := send_keepsClosed inv.requests done quiet here sent
      have none := keeps.committed
      refine ⟨keeps.writes.trans writes,?_,keeps.drained⟩
      change total committed (s.threads.set i (ops ++ rest)) = 0
      omega
  | none =>
    simp only [exec,sent] at done
    obtain ⟨closed,onClose⟩ := receive_keeps inv.reads here done
    refine closing.keep closed onClose ?_ ?_
    · intro gone
      obtain ⟨rfl,_⟩ := inv.reads.receive_over (closing.reads gone) here done
      exact closing.reads gone
    · intro slot draining
      have gone : s.onClose.ReadsOver := by rw [draining]; trivial
      obtain ⟨rfl,rfl⟩ := inv.reads.receive_over (closing.reads gone) here done
      obtain ⟨writes,quiet⟩ := closing.writes slot draining
      refine ⟨writes,?_,fun r member success => ⟨member,success,rfl⟩⟩
      change total committed (s.threads.set i ([] ++ rest)) = 0
      simp at advanced
      simp
      omega

theorem onConnect_inv : Inv onConnect where
  reads := .onConnect
  requests := {
    placed := by simp [onConnect,State.places,declined]
    sender := by simp [onConnect,declined,accepted]
    written := rfl
    failed := by simp [onConnect]
    refused := by simp [onConnect] }
  closing := {
    closed := nofun
    reads := nofun
    writes := nofun
    drained := nofun }

/-- A new thread, started while nothing of the closing is at stake. -/
theorem Closing.spawn (closing : Closing s) (op : Op) (closed : s'.is_closed = s.is_closed)
    (onClose : s'.onClose = s.onClose) (buffers : s'.buffers = s.buffers) (threads : s'.threads = s.threads)
    (quiet : ∀ slot, s.onClose = .drain slot → s'.writes = s.writes ∧ committed op = 0)
    (waiting : s'.waiting = s.waiting) (returned : s'.returned = s.returned) (sequences : s'.sequences = s.sequences) :
    Closing (spawn s' op) := by
  refine closing.keep closed onClose ?_ ?_
  · intro gone
    change s'.buffers.live = []
    rw [buffers]
    exact closing.reads gone
  · intro slot draining
    obtain ⟨writes,idle⟩ := closing.writes slot draining
    obtain ⟨same,none⟩ := quiet slot draining
    have spawned := total_spawn committed s.threads op
    refine ⟨same.trans writes,?_,?_⟩
    · change total committed (s'.threads ++ [[op]]) = 0
      rw [threads]
      omega
    · intro r member success
      replace member : r ∈ s'.waiting := member
      replace success : s'.returned r = some true := success
      rw [waiting] at member
      rw [returned] at success
      exact ⟨member,success,congrFun sequences r⟩

theorem sendRequest_inv (inv : Inv s) :
    Inv (spawn { s with started := s.started + 1 } (.readConn s.started)) where
  reads := inv.reads.sendRequest
  requests := by
    refine inv.requests.spawn _ rfl ?_ ?_ ?_ ?_ ?_
    · intro r
      rw [made_next]
      simp [State.places]
      omega
    · intro r
      rw [made_next]
      simp
      omega
    · rfl
    · intro r
      simp
    · intro r
      simp
  closing := inv.closing.spawn _ rfl rfl rfl rfl (fun _ _ => ⟨rfl,rfl⟩) rfl rfl rfl

theorem writeCallback_inv (inv : Inv s) (rc : Bool) (pending : r ∈ s.writes) :
    Inv (spawn { s with writes := s.writes.erase r } (if rc then .writeDone else .failWrite r)) := by
  have left := count_erase pending
  have fewer := List.length_erase_of_mem pending
  have some := List.length_pos_of_mem pending
  constructor
  · exact inv.reads.writeCallback r rc
  · cases rc <;> refine inv.requests.spawn _ rfl ?_ ?_ ?_ ?_ ?_ <;> simp [State.places,State.made]
    · omega
    · intro c
      have before := left c
      omega
    · omega
    · intro c
      have before := left c
      omega
  · have empty : ∀ slot, s.onClose ≠ .drain slot := by
      intro slot draining
      have none := (inv.closing.writes slot draining).1
      simp [none] at pending
    exact inv.closing.spawn _ rfl rfl rfl rfl (fun slot draining => absurd draining (empty slot)) rfl rfl rfl

theorem readCallback_inv (inv : Inv s) (rc : Bool) (outstanding : rbuf ∈ s.reads) :
    Inv (spawn { s with reads := s.reads.erase rbuf } (if rc then .enter rbuf else .freeReadBuffer rbuf)) := by
  constructor
  · exact inv.reads.readCallback rc outstanding
  · cases rc <;> refine inv.requests.spawn _ rfl ?_ ?_ ?_ ?_ ?_ <;> simp [State.places,State.made]
  · exact inv.closing.spawn _ rfl rfl rfl rfl (fun _ _ => ⟨rfl,by cases rc <;> rfl⟩) rfl rfl rfl

theorem doJob_inv (inv : Inv s) (given : (r,rbuf) ∈ s.jobs) :
    Inv (spawn { s with jobs := s.jobs.erase (r,rbuf) } (.doJob rbuf r)) := by
  have left := List.perm_cons_erase given
  constructor
  · exact inv.reads.doJob given
  · refine inv.requests.spawn _ rfl ?_ ?_ ?_ ?_ ?_ <;> simp [State.places,State.made]
    intro c
    have before := (left.map Prod.fst).count_eq c
    simp [List.count_cons] at before
    omega
  · exact inv.closing.spawn _ rfl rfl rfl rfl (fun _ _ => ⟨rfl,rfl⟩) rfl rfl rfl

theorem closeConnection_inv (inv : Inv s) : Inv (closeConnection s) := by
  cases closed : s.is_closed with
  | true =>
    simp only [closeConnection,closed,if_true]
    exact inv
  | false =>
    have reads := inv.reads.closeConnection
    simp only [closeConnection,closed] at reads ⊢
    obtain ⟨placed,sender,written,failed,refused⟩ := inv.requests
    exact ⟨reads,⟨placed,sender,written,failed,refused⟩,⟨fun _ => rfl,nofun,nofun,nofun⟩⟩

theorem slot_count (s : State) (slot r : Nat) : (s.slot slot).count r +
    (s.waiting.filter fun r => (Client.hash (s.sequences r)).val ≠ slot).count r = s.waiting.count r := by
  simp only [State.slot]
  induction s.waiting with
  | nil => rfl
  | cons c waiting ih =>
    by_cases inside : (Client.hash (s.sequences c)).val = slot
    · simp [inside,List.count_cons] at ih ⊢
      omega
    · simp [inside,List.count_cons] at ih ⊢
      omega

/-- A request in a slot was accepted when its sender is done. -/
theorem Requests.waiting_accepted (requests : Requests s) (waits : r ∈ s.waiting)
    (idle : total (sending r) s.threads = 0) : 0 < accepted s.returned r := by
  have placed := requests.placed r
  have sender := requests.sender r
  have one := List.count_pos_iff.mpr waits
  simp only [State.places] at placed
  by_cases started : r < s.started
  · rw [if_pos started] at placed sender
    omega
  · rw [if_neg started] at placed
    omega

theorem onClose_inv (inv : Inv s) (orderly : Orderly s .onClose) (taken : onClose s = some s') : Inv s' := by
  have reads := inv.reads.onClose taken
  obtain ⟨placed,sender,written,failed,refused⟩ := inv.requests
  have closing := inv.closing
  cases phase : s.onClose with
  | notClosed => simp [onClose,phase] at taken
  | clearConn =>
    simp only [onClose,phase,Option.some.injEq] at taken
    subst taken
    refine ⟨reads,⟨placed,sender,written,failed,refused⟩,⟨fun _ => closing.closed (by simp [phase]),?_,?_,?_⟩⟩
    · rintro ⟨⟩
    · rintro slot ⟨⟩
    · rintro slot ⟨⟩
  | waitReads =>
    by_cases meet : s.read_counter = s.read_done_counter
    · simp only [onClose,phase,if_pos meet,Option.some.injEq] at taken
      subst taken
      refine ⟨reads,⟨placed,sender,written,failed,refused⟩,
        ⟨fun _ => closing.closed (by simp [phase]),fun _ => inv.reads.gone meet,?_,?_⟩⟩
      · rintro slot ⟨⟩
      · rintro slot ⟨⟩
    · simp [onClose,phase,meet] at taken
  | waitWrites =>
    by_cases meet : s.write_counter = s.write_done_counter
    · simp only [onClose,phase,if_pos meet,Option.some.injEq] at taken
      subst taken
      have gone := closing.reads (by simp [phase,OnClose.ReadsOver])
      have fewer : total committed s.threads ≤ total writing s.threads := by
        apply total_mono
        intro op
        cases op <;> simp
      have none : s.writes = [] := List.length_eq_zero_iff.mp (by omega)
      refine ⟨reads,⟨placed,sender,written,failed,refused⟩,
        ⟨fun _ => closing.closed (by simp [phase]),fun _ => gone,fun _ _ => ⟨none,?_⟩,?_⟩⟩
      · change total committed s.threads = 0
        omega
      · intro slot first r _ low
        cases first
        omega
    · simp [onClose,phase,meet] at taken
  | drain slot =>
    by_cases more : slot < 128
    · simp only [onClose,phase,if_pos more,Option.some.injEq] at taken
      subst taken
      have gone := closing.reads (by simp [phase,OnClose.ReadsOver])
      obtain ⟨none,quiet⟩ := closing.writes slot phase
      refine ⟨reads,⟨?_,sender,written,failed,?_⟩,
        ⟨fun _ => closing.closed (by simp [phase]),fun _ => gone,fun _ _ => ⟨none,quiet⟩,?_⟩⟩
      · intro r
        have before := placed r
        have parted := slot_count s slot r
        simp only [State.places] at before ⊢
        omega
      · intro r
        have before := refused r
        have parted := slot_count s slot r
        simp only at before parted ⊢
        by_cases inside : r ∈ s.slot slot
        · have waits := (List.mem_filter.mp inside).1
          simp only [Orderly,phase] at orderly
          have success := inv.requests.waiting_accepted waits (orderly r inside)
          have nobody := inv.requests.not_refusing success
          omega
        · have none := List.count_eq_zero_of_not_mem inside
          omega
      · intro next following r member low
        cases following
        obtain ⟨waits,other⟩ := List.mem_filter.mp member
        have other := of_decide_eq_true other
        replace low : (Client.hash (s.sequences r)).val < slot + 1 := low
        have lower : (Client.hash (s.sequences r)).val < slot := by omega
        exact closing.drained slot phase r waits lower
    · simp [onClose,phase,more] at taken

theorem step_inv (inv : Inv s) (orderly : Orderly s a) (taken : step s a = some s') : Inv s' := by
  have running : ¬s.fault ≠ none := not_not.mpr inv.reads.running
  simp only [step,if_neg running] at taken
  cases a with
  | sendRequest =>
    cases taken
    exact sendRequest_inv inv
  | writeCallback r rc =>
    simp only [Option.ite_none_right_eq_some] at taken
    obtain ⟨pending,taken⟩ := taken
    cases taken
    exact writeCallback_inv inv rc pending
  | readCallback rbuf rc =>
    simp only [Option.ite_none_right_eq_some] at taken
    obtain ⟨outstanding,taken⟩ := taken
    cases taken
    exact readCallback_inv inv rc outstanding
  | doJob r rbuf =>
    simp only [Option.ite_none_right_eq_some] at taken
    obtain ⟨given,taken⟩ := taken
    cases taken
    exact doJob_inv inv given
  | closeConnection =>
    cases taken
    exact closeConnection_inv inv
  | onClose => exact onClose_inv inv orderly taken
  | run thread outcome =>
    rcases here : s.threads[thread]? with _ | _ | ⟨op,rest⟩
    · simp [here] at taken
    · simp [here] at taken
    · simp only [here,Option.map_eq_some_iff] at taken
      obtain ⟨⟨s',ops⟩,done,rfl⟩ := taken
      have proper := orderly (op :: rest) here op rfl
      exact ⟨(exec_reads inv.reads here done).reads inv.reads here,
        (exec_requests inv.reads inv.requests here proper done).requests inv.requests here,run_closing inv here done⟩

/-- After the drain, an accepted request is not with any thread. -/
theorem Inv.nobody_carries (inv : Inv s) (drained : s.onClose = .drain slot) (r : Nat) :
    s.jobs = [] ∧ total (carries r) s.threads = 0 := by
  have gone := inv.closing.reads (by simp [drained,OnClose.ReadsOver])
  have quiet := (inv.closing.writes slot drained).2
  have nobody := inv.reads.nobody gone
  constructor
  · cases jobs : s.jobs with
    | nil => rfl
    | cons job jobs =>
      have none := (nobody job.2).1
      simp [State.users,jobs] at none
  · rw [total_eq_zero] at quiet ⊢
    intro ops thread op inside
    have failed := quiet ops thread op inside
    cases op with
    | decode rbuf x | refer rbuf x | insertTail rbuf x | listAdd rbuf x same | doJob rbuf x =>
      have share := weight_le_of_mem (held rbuf) thread inside
      have none := (nobody rbuf).2
      simp at share
      omega
    | failCallback x => simp at failed
    | _ => rfl

theorem preparing_le (r : Nat) (op : Op) : preparing r op ≤ sending r op := by
  cases op <;> simp

/-- Notified exactly once: not at all after `clientSendRequest` returned false, never
twice, and once by the end of `clientOnClose` after it returned true. -/
theorem Inv.notified (inv : Inv s) :
    (∀ r, s.returned r = some false → s.callbacks r = 0) ∧ (∀ r, s.callbacks r ≤ 1) ∧
    (s.onClose = .drain 128 → ∀ r, s.returned r = some true → s.callbacks r = 1) := by
  have one : ∀ r, s.places r + total (carries r) s.threads + total (preparing r) s.threads ≤ 1 := by
    intro r
    rw [inv.requests.placed r]
    split <;> omega
  refine ⟨?_,?_,?_⟩
  · intro r failure
    have placed := one r
    simp only [State.places,declined,if_pos failure] at placed
    omega
  · intro r
    have placed := one r
    simp only [State.places] at placed
    omega
  · intro drained r success
    obtain ⟨jobs,carried⟩ := inv.nobody_carries drained r
    have placed := inv.requests.placed r
    have sender := inv.requests.sender r
    have accepts : accepted s.returned r = 1 := if_pos success
    have declines : declined s.returned r = 0 := if_neg (by simp [success])
    have one := inv.requests.one_sender r
    have prepares := total_mono (preparing_le r) s.threads
    have unlinked : s.waiting.count r = 0 := by
      apply List.count_eq_zero_of_not_mem
      intro waits
      have low : (Client.hash (s.sequences r)).val < 128 := (Client.hash (s.sequences r)).isLt
      exact inv.closing.drained 128 drained r waits low success
    simp only [State.places,jobs,List.map_nil,List.count_nil,unlinked,carried,declines] at placed
    omega

end Muti.ClientNotify
