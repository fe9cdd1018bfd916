import Muti.ClientAccounts

/-! How responses find their requests. The lists of the waiting slots are kept beside the
client, each changed as its operations change them, and hold the requests by the hash of
their sequences; as long as no sequence is drawn again while a request still has it, the
sequence of a waiting request finds that request. -/
namespace Muti.ClientNotify

open Muti.Lists Muti.Transition Muti.SharedBuffers Muti.SharedBuffers.Buffers Muti.Resource Muti.Framing

structure Routing where
  client : State
  waiting_hash_slots : Fin 128 → List Nat

def initRouting : Routing where
  client := onConnect
  waiting_hash_slots := fun _ => []

def Routing.hash (w : Routing) (r : Nat) : Fin 128 := Client.hash (w.client.sequences r)

/-- The search of `clientReadCallback` in the slot of a response's sequence. -/
def Routing.find (w : Routing) (sequence : UInt32) : Option Nat :=
  (w.waiting_hash_slots (Client.hash sequence)).find? fun r => w.client.sequences r == sequence

def Routing.locked (w : Routing) (slot : Fin 128) (change : List Nat → List Nat) : Fin 128 → List Nat :=
  Function.update w.waiting_hash_slots slot (change (w.waiting_hash_slots slot))

def relink (w : Routing) (outcome : Outcome) : Op → Fin 128 → List Nat
  | .listAddTail r => w.locked (w.hash r) fun slot => slot ++ [r]
  | .listDel r | .failWrite r => w.locked (w.hash r) fun slot => slot.erase r
  | .listAdd _ r _ => w.locked (w.hash r) fun slot => r :: slot
  | .turn _ => match outcome with
    | .header sequence => match w.find sequence with
      | some r => w.locked (Client.hash sequence) fun slot => slot.erase r
      | none => w.waiting_hash_slots
    | _ => w.waiting_hash_slots
  | _ => w.waiting_hash_slots

/-- What a step does to them; `clientOnClose` empties one after another. -/
def relinks (w : Routing) : Action → Fin 128 → List Nat
  | .run thread outcome => match w.client.threads[thread]? with
    | some (op :: _) => relink w outcome op
    | _ => w.waiting_hash_slots
  | .onClose => match w.client.onClose with
    | .drain slot => if fits : slot < 128 then w.locked ⟨slot,fits⟩ fun _ => [] else w.waiting_hash_slots
    | _ => w.waiting_hash_slots
  | _ => w.waiting_hash_slots

def route (w : Routing) (a : Action) : Option Routing :=
  (step w.client a).map fun client => { client, waiting_hash_slots := relinks w a }

/-- A request that has drawn its sequence, and is about to be put into its slot, or put back. -/
@[simp] def drawn (r : Nat) : Op → Nat
  | .encode x | .listAddTail x | .decode _ x | .listAdd _ x _ => on r x
  | _ => 0

@[simp] def linking (r : Nat) : Op → Nat
  | .readConn x | .nextSequence x | .encode x | .listAddTail x | .decode _ x | .listAdd _ x _ => on r x
  | _ => 0

/-- A request waits for its response, or is going to. -/
def Waits (s : State) (r : Nat) : Prop := 0 < s.waiting.count r + total (drawn r) s.threads

def Repeats (s : State) : Op → Prop
  | .nextSequence _ => ∃ r < s.started, Waits s r ∧ s.sequences r = s.sequence + 1
  | _ => False

def Fresh (w : Routing) : Action → Prop
  | .run thread _ => ∀ ops ∈ w.client.threads[thread]?, ∀ op ∈ ops.head?, ¬Repeats w.client op
  | _ => True

structure Links (s : State) (op : Op) (s' : State) (ops : List Op) : Prop where
  started : s'.started = s.started
  once : ∀ r, s'.waiting.count r + (ops.map (linking r)).sum ≤ s.waiting.count r + linking r op
  waits : ∀ r, op ≠ .nextSequence r →
    s'.waiting.count r + (ops.map (drawn r)).sum ≤ s.waiting.count r + drawn r op ∧ s'.sequences r = s.sequences r
  draws : ∀ r, op = .nextSequence r → s'.sequences r = s.sequence + 1

theorem send_links (done : send s outcome op = some (s',ops)) : Links s op s' ops := by
  have less : ∀ x c, (s.waiting.erase x).count c ≤ s.waiting.count c := fun x c => (List.erase_sublist).count_le c
  cases op with
  | readConn r =>
    cases conn : s.conn <;> simp [send,conn] at done <;> obtain ⟨rfl,rfl⟩ := done <;> constructor <;> simp [State.returns]
  | nextSequence r =>
    cases done
    constructor <;> simp
    intro c other
    simp [other,Ne.symm other]
  | encode r =>
    cases outcome with
    | answer rc => cases rc <;> cases done <;> constructor <;> simp [State.returns]
    | _ => cases done
  | listAddTail r =>
    cases done
    constructor <;> simp [List.count_cons]
  | connWrite r =>
    cases closed : s.is_closed <;> simp [send,closed] at done <;> obtain ⟨rfl,rfl⟩ := done <;> constructor <;> simp
  | countWrite r | append r | refused r | failCallback r | writeDone =>
    cases done
    constructor <;> simp [State.returns,State.callback]
  | listDel r | failWrite r =>
    cases done
    constructor <;> simp [State.returns,less]
  | _ => cases done

theorem clientRead_links (s : State) (rbuf : Nat) (same : Bool) :
    Links s (.turn rbuf) (clientRead s rbuf same).1 (clientRead s rbuf same).2 := by
  cases same <;> constructor <;> simp [clientRead]

theorem receive_links {i : Nat} (reads : Reads s) (here : s.threads[i]? = some (op :: rest))
    (done : receive s outcome op = some (s',ops)) : Links s op s' ops := by
  cases op with
  | turn rbuf =>
    obtain ⟨-,turned⟩ := reads.turned here done
    cases turned with
    | starved same => exact clientRead_links s rbuf same
    | unknown absent => constructor <;> simp
    | known r found =>
      have unlinked := count_erase (lookup_waiting found)
      constructor <;> simp
      · intro c
        have left := unlinked c
        omega
      · intro c
        have left := unlinked c
        omega
  | decode rbuf r =>
    cases outcome with
    | message | starved same =>
      cases done
      constructor <;> simp
    | _ => cases done
  | listAdd rbuf r same =>
    cases same <;> cases done <;> constructor <;> simp [List.count_cons]
  | read rbuf =>
    obtain ⟨live,share⟩ := reads.holder rbuf here (by simp)
    cases outcome with
    | answer rc =>
      cases rc <;> simp only [receive,touch_live live] at done <;> cases done <;> constructor <;> simp
    | _ => cases done
  | freeReadBuffer rbuf =>
    obtain ⟨live,share⟩ := reads.holder rbuf here (by simp)
    simp only [receive,touch_live live] at done
    cases done
    constructor <;> simp <;> split <;> simp
  | enter rbuf | refer rbuf r =>
    obtain ⟨live,share⟩ := reads.holder rbuf here (by simp)
    simp only [receive,touch_live live] at done
    cases done
    constructor <;> simp
  | insertTail rbuf r | readDone | countRead rbuf old_rbuf | doJob rbuf r =>
    cases done
    constructor <;> simp [State.callback]
  | _ => cases done

theorem exec_links {i : Nat} (reads : Reads s) (here : s.threads[i]? = some (op :: rest))
    (done : exec s outcome op = some (s',ops)) : Links s op s' ops := by
  cases sent : send s outcome op with
  | some result =>
    simp only [exec,sent,Option.some.injEq] at done
    subst done
    exact send_links sent
  | none =>
    simp only [exec,sent] at done
    exact receive_links reads here done

/-- The lists beside a client hold what waits, each request in the slot of its sequence. -/
def Routing.Linked (w : Routing) : Prop := ∀ i : Fin 128, w.waiting_hash_slots i = w.client.slot i.val

theorem slot_same {s s' : State} (waiting : s'.waiting = s.waiting) (sequences : s'.sequences = s.sequences) (i : Nat) :
    s'.slot i = s.slot i := by
  rw [State.slot,State.slot,waiting,sequences]

theorem Routing.Linked.kept {w : Routing} {s' : State} (linked : w.Linked) (waiting : s'.waiting = w.client.waiting)
    (sequences : s'.sequences = w.client.sequences) (i : Fin 128) : w.waiting_hash_slots i = s'.slot i.val :=
  (linked i).trans (slot_same waiting sequences i.val).symm

/-- A change of the list of all that wait is a change of one slot's list, where it concerns
requests of that slot only. -/
theorem Routing.Linked.locked {w : Routing} {s' : State} {slot : Fin 128} {change : List Nat → List Nat} (linked : w.Linked)
    (mine : s'.slot slot.val = change (w.client.slot slot.val))
    (others : ∀ i : Nat, i ≠ slot.val → s'.slot i = w.client.slot i) (i : Fin 128) :
    w.locked slot change i = s'.slot i.val := by
  by_cases here : i = slot
  · subst here
    simp [Routing.locked,linked i,mine]
  · have other : i.val ≠ slot.val := fun same => here (Fin.ext same)
    simp [Routing.locked,here,linked i,others i.val other]

theorem Routing.Linked.erased {w : Routing} {s' : State} {r : Nat} (linked : w.Linked)
    (sequences : s'.sequences = w.client.sequences) (waiting : s'.waiting = w.client.waiting.erase r) (i : Fin 128) :
    w.locked (w.hash r) (fun slot => slot.erase r) i = s'.slot i.val := by
  refine linked.locked ?_ ?_ i
  · simp only [State.slot,waiting,sequences,List.erase_filter]
  · intro j other
    have apart : r ∉ w.client.slot j := by
      intro member
      exact other (of_decide_eq_true (List.mem_filter.mp member).2).symm
    rw [← List.erase_of_not_mem apart]
    simp only [State.slot,waiting,sequences,List.erase_filter]

/-- The search in a slot is the search among all that wait. -/
theorem Routing.Linked.find_eq {w : Routing} (linked : w.Linked) (sequence : UInt32) :
    w.find sequence = lookup w.client sequence := by
  rw [Routing.find,linked,lookup]

theorem lookup_sequence {sequence : UInt32} (found : lookup s sequence = some r) : s.sequences r = sequence := by
  simpa using List.find?_some found

theorem send_linked {w : Routing} (linked : w.Linked) (unlinked : ∀ r, op = .nextSequence r → r ∉ w.client.waiting)
    (done : send w.client outcome op = some (s',ops)) (i : Fin 128) : relink w outcome op i = s'.slot i.val := by
  cases op with
  | readConn r =>
    cases conn : w.client.conn <;> simp [send,conn] at done <;> obtain ⟨rfl,rfl⟩ := done <;> exact linked.kept rfl rfl i
  | nextSequence r =>
    cases done
    have gone := unlinked r rfl
    change w.waiting_hash_slots i = _
    rw [linked i,State.slot,State.slot]
    apply List.filter_congr
    intro x member
    have other : x ≠ r := by
      rintro rfl
      exact gone member
    simp [other]
  | encode r =>
    cases outcome with
    | answer rc => cases rc <;> cases done <;> exact linked.kept rfl rfl i
    | _ => cases done
  | listAddTail r =>
    cases done
    change w.locked (w.hash r) (fun slot => slot ++ [r]) i = _
    refine linked.locked ?_ ?_ i
    · simp [State.slot,Routing.hash]
    · intro j other
      simpa [State.slot,Routing.hash] using other.symm
  | connWrite r =>
    cases closed : w.client.is_closed <;> simp [send,closed] at done <;> obtain ⟨rfl,rfl⟩ := done <;>
      exact linked.kept rfl rfl i
  | countWrite r | append r | refused r | failCallback r | writeDone =>
    cases done
    exact linked.kept rfl rfl i
  | listDel r | failWrite r =>
    cases done
    refine linked.erased ?_ ?_ i
    · rfl
    · rfl
  | _ => cases done

theorem clientRead_linked {w : Routing} (linked : w.Linked) (rbuf : Nat) (same : Bool) (i : Fin 128) :
    w.waiting_hash_slots i = (clientRead w.client rbuf same).1.slot i.val := by
  cases same <;> exact linked.kept rfl rfl i

theorem receive_linked {w : Routing} {j : Nat} (linked : w.Linked) (reads : Reads w.client)
    (here : w.client.threads[j]? = some (op :: rest)) (done : receive w.client outcome op = some (s',ops)) (i : Fin 128) :
    relink w outcome op i = s'.slot i.val := by
  cases op with
  | turn rbuf =>
    obtain ⟨-,turned⟩ := reads.turned here done
    cases turned with
    | starved same => exact clientRead_linked linked rbuf same i
    | unknown absent =>
      simp only [relink,linked.find_eq,absent]
      exact linked i
    | known r found =>
      have same := lookup_sequence found
      simp only [relink,linked.find_eq,found]
      rw [← same]
      refine linked.erased ?_ ?_ i
      · rfl
      · rfl
  | decode rbuf r =>
    cases outcome with
    | message | starved same =>
      cases done
      exact linked.kept rfl rfl i
    | _ => cases done
  | listAdd rbuf r same =>
    cases same <;> cases done <;> refine linked.locked ?_ ?_ i
    · simp [State.slot,Routing.hash]
    · intro j other
      exact List.filter_cons_of_neg (by simpa [Routing.hash] using other.symm)
    · simp [State.slot,Routing.hash]
    · intro j other
      exact List.filter_cons_of_neg (by simpa [Routing.hash] using other.symm)
  | read rbuf =>
    obtain ⟨live,share⟩ := reads.holder rbuf here (by simp)
    cases outcome with
    | answer rc =>
      cases rc <;> simp only [receive,touch_live live] at done <;> cases done <;> exact linked.kept rfl rfl i
    | _ => cases done
  | freeReadBuffer rbuf | enter rbuf | refer rbuf r =>
    obtain ⟨live,share⟩ := reads.holder rbuf here (by simp)
    simp only [receive,touch_live live] at done
    cases done
    exact linked.kept rfl rfl i
  | insertTail rbuf r | readDone | countRead rbuf old_rbuf | doJob rbuf r =>
    cases done
    exact linked.kept rfl rfl i
  | _ => cases done

theorem exec_linked {w : Routing} {j : Nat} (linked : w.Linked) (reads : Reads w.client)
    (here : w.client.threads[j]? = some (op :: rest)) (unlinked : ∀ r, op = .nextSequence r → r ∉ w.client.waiting)
    (done : exec w.client outcome op = some (s',ops)) (i : Fin 128) : relink w outcome op i = s'.slot i.val := by
  cases sent : send w.client outcome op with
  | some result =>
    simp only [exec,sent,Option.some.injEq] at done
    subst done
    exact send_linked linked unlinked sent i
  | none =>
    simp only [exec,sent] at done
    exact receive_linked linked reads here done i

/-- Every request is on its way into its slot, or in it, once at most, and those that wait
have sequences of their own. -/
structure Routes (w : Routing) : Prop where
  reads : Reads w.client
  once : ∀ r, w.client.waiting.count r + total (linking r) w.client.threads ≤ w.client.made r
  distinct : ∀ r r', Waits w.client r → Waits w.client r' → w.client.sequences r = w.client.sequences r' → r = r'
  linked : w.Linked

theorem drawn_le (r : Nat) (op : Op) : drawn r op ≤ linking r op := by
  cases op <;> simp

theorem Routes.started {w : Routing} (routes : Routes w) (waits : Waits w.client r) : r < w.client.started := by
  have once := routes.once r
  have fewer := total_mono (drawn_le r) w.client.threads
  unfold Waits at waits
  by_contra later
  have unmade : w.client.made r = 0 := if_neg later
  omega

/-- A request that is about to draw its sequence does not wait. -/
theorem Routes.undrawn {w : Routing} {i : Nat} (routes : Routes w)
    (here : w.client.threads[i]? = some (.nextSequence r :: rest)) : ¬Waits w.client r := by
  have once := routes.once r
  have one : w.client.made r ≤ 1 := by
    unfold State.made
    split <;> omega
  have links := total_advance (linking r) here []
  have draws := total_advance (drawn r) here []
  have fewer := total_mono (drawn_le r) (w.client.threads.set i ([] ++ rest))
  simp at links draws fewer
  unfold Waits
  omega

theorem exec_routes {w : Routing} {i : Nat} (routes : Routes w) (here : w.client.threads[i]? = some (op :: rest))
    (fresh : ¬Repeats w.client op) (done : exec w.client outcome op = some (s',ops)) :
    Routes ⟨{ s' with threads := w.client.threads.set i (ops ++ rest) },relink w outcome op⟩ := by
  have links := exec_links routes.reads here done
  have unlinked : ∀ r, op = .nextSequence r → r ∉ w.client.waiting := by
    rintro r rfl member
    have waits := List.count_pos_iff.mpr member
    exact routes.undrawn here (Nat.add_pos_left waits _)
  have before : ∀ r, op ≠ .nextSequence r → Waits { s' with threads := w.client.threads.set i (ops ++ rest) } r →
      Waits w.client r ∧ s'.sequences r = w.client.sequences r := by
    intro r other waits
    obtain ⟨less,same⟩ := links.waits r other
    have draws := total_advance (drawn r) here ops
    refine ⟨?_,same⟩
    unfold Waits at waits ⊢
    simp only at waits
    omega
  have apart : ∀ r r', op = .nextSequence r → op ≠ .nextSequence r' →
      Waits { s' with threads := w.client.threads.set i (ops ++ rest) } r' → s'.sequences r ≠ s'.sequences r' := by
    intro r r' mine other waits same
    obtain ⟨waited,kept⟩ := before r' other waits
    rw [links.draws r mine,kept] at same
    subst mine
    exact fresh ⟨r',routes.started waited,waited,same.symm⟩
  refine ⟨(exec_reads routes.reads here done).reads routes.reads here,?_,?_,?_⟩
  · intro r
    have once := routes.once r
    have now := links.once r
    have advanced := total_advance (linking r) here ops
    have made : State.made { s' with threads := w.client.threads.set i (ops ++ rest) } r = w.client.made r := by
      simp only [State.made,links.started]
    simp only [made]
    omega
  · intro r r' waits waits' same
    by_cases first : op = .nextSequence r
    · by_cases second : op = .nextSequence r'
      · have both := first.symm.trans second
        cases both
        rfl
      · exact absurd same (apart r r' first second waits')
    · by_cases second : op = .nextSequence r'
      · exact absurd same.symm (apart r' r second first waits)
      · obtain ⟨waited,kept⟩ := before r first waits
        obtain ⟨waited',kept'⟩ := before r' second waits'
        simp only [kept,kept'] at same
        exact routes.distinct r r' waited waited' same
  · exact fun j => exec_linked routes.linked routes.reads here unlinked done j

/-- Steps that draw no sequence and put nothing into a slot. -/
theorem Routes.other {w : Routing} {s' : State} {waiting_hash_slots : Fin 128 → List Nat} (routes : Routes w) (reads : Reads s')
    (sequences : s'.sequences = w.client.sequences) (waiting : ∀ r, s'.waiting.count r ≤ w.client.waiting.count r)
    (draws : ∀ r, total (drawn r) s'.threads = total (drawn r) w.client.threads)
    (links : ∀ r, total (linking r) s'.threads + w.client.made r = total (linking r) w.client.threads + s'.made r)
    (linked : Routing.Linked ⟨s',waiting_hash_slots⟩) : Routes ⟨s',waiting_hash_slots⟩ where
  reads := reads
  once := by
    intro r
    have once := routes.once r
    have less := waiting r
    have same := links r
    simp only
    omega
  distinct := by
    have before : ∀ r, Waits s' r → Waits w.client r := by
      intro r waits
      have less := waiting r
      have same := draws r
      unfold Waits at waits ⊢
      omega
    intro r r' waits waits' same
    simp only [sequences] at same
    exact routes.distinct r r' (before r waits) (before r' waits') same
  linked := linked

/-- A thread that starts with anything but a request of its own. -/
theorem Routes.spawn {w : Routing} {s' : State} (routes : Routes w) (op : Op) (reads : Reads (spawn s' op))
    (sequences : s'.sequences = w.client.sequences) (waiting : s'.waiting = w.client.waiting)
    (threads : s'.threads = w.client.threads) (started : s'.started = w.client.started) (quiet : ∀ r, linking r op = 0) :
    Routes ⟨ClientNotify.spawn s' op,w.waiting_hash_slots⟩ := by
  refine routes.other reads sequences ?_ ?_ ?_ (routes.linked.kept waiting sequences)
  · intro r
    simp only [ClientNotify.spawn,waiting]
    exact Nat.le_refl _
  · intro r
    have spawned := total_spawn (drawn r) w.client.threads op
    have none := drawn_le r op
    have links := quiet r
    simp only [ClientNotify.spawn,threads]
    omega
  · intro r
    have spawned := total_spawn (linking r) w.client.threads op
    have links := quiet r
    simp only [ClientNotify.spawn,threads,State.made,started]
    omega

theorem step_routes {w w' : Routing} (routes : Routes w) (fresh : Fresh w a) (taken : route w a = some w') : Routes w' := by
  simp only [route,Option.map_eq_some_iff] at taken
  obtain ⟨s',taken,rfl⟩ := taken
  have reads := step_reads routes.reads taken
  have running : ¬w.client.fault ≠ none := not_not.mpr routes.reads.running
  simp only [step,if_neg running] at taken
  cases a with
  | sendRequest =>
    cases taken
    refine routes.other reads rfl (fun _ => Nat.le_refl _) ?_ ?_ (routes.linked.kept rfl rfl)
    · simp [spawn]
    · intro r
      have spawned := total_spawn (linking r) w.client.threads (.readConn w.client.started)
      refine Eq.trans ?_ (congrArg _ (made_next w.client r)).symm
      simp only [spawn,linking] at spawned ⊢
      omega
  | writeCallback r rc =>
    simp only [Option.ite_none_right_eq_some,Option.some.injEq] at taken
    obtain ⟨_,rfl⟩ := taken
    exact routes.spawn _ reads rfl rfl rfl rfl fun _ => by cases rc <;> rfl
  | readCallback rbuf rc =>
    simp only [Option.ite_none_right_eq_some,Option.some.injEq] at taken
    obtain ⟨_,rfl⟩ := taken
    exact routes.spawn _ reads rfl rfl rfl rfl fun _ => by cases rc <;> rfl
  | doJob r rbuf =>
    simp only [Option.ite_none_right_eq_some,Option.some.injEq] at taken
    obtain ⟨_,rfl⟩ := taken
    exact routes.spawn _ reads rfl rfl rfl rfl fun _ => rfl
  | closeConnection =>
    cases taken
    have same : (closeConnection w.client).waiting = w.client.waiting ∧ (closeConnection w.client).sequences = w.client.sequences ∧
        (closeConnection w.client).threads = w.client.threads ∧ (closeConnection w.client).started = w.client.started := by
      unfold closeConnection
      split <;> simp
    obtain ⟨waiting,sequences,threads,started⟩ := same
    refine routes.other reads sequences ?_ ?_ ?_ (routes.linked.kept waiting sequences)
    · simp [waiting]
    · simp [threads]
    · simp [threads,State.made,started]
  | onClose =>
    cases phase : w.client.onClose with
    | notClosed => simp [onClose,phase] at taken
    | clearConn =>
      simp only [onClose,phase,Option.some.injEq] at taken
      subst taken
      refine routes.other reads rfl (fun _ => Nat.le_refl _) (fun _ => rfl) (fun _ => rfl) ?_
      intro i
      simp only [relinks,phase]
      exact routes.linked.kept rfl rfl i
    | waitReads | waitWrites =>
      simp only [onClose,phase,Option.ite_none_right_eq_some,Option.some.injEq] at taken
      obtain ⟨_,rfl⟩ := taken
      refine routes.other reads rfl (fun _ => Nat.le_refl _) (fun _ => rfl) (fun _ => rfl) ?_
      intro i
      simp only [relinks,phase]
      exact routes.linked.kept rfl rfl i
    | drain slot =>
      simp only [onClose,phase,Option.ite_none_right_eq_some,Option.some.injEq] at taken
      obtain ⟨fits,rfl⟩ := taken
      refine routes.other reads rfl ?_ (fun _ => rfl) (fun _ => rfl) ?_
      · intro r
        exact (List.filter_sublist).count_le r
      · intro i
        simp only [relinks,phase,dif_pos fits]
        refine routes.linked.locked ?_ ?_ i
        · simp [State.slot]
        · intro j other
          simp only [State.slot,List.filter_filter]
          apply List.filter_congr
          intro r _
          by_cases here : (Client.hash (w.client.sequences r)).val = j <;> simp [here,other]
  | run thread outcome =>
    rcases here : w.client.threads[thread]? with _ | _ | ⟨op,rest⟩
    · simp [here] at taken
    · simp [here] at taken
    · simp only [here,Option.map_eq_some_iff] at taken
      obtain ⟨⟨s',ops⟩,done,rfl⟩ := taken
      simp only [relinks,here]
      exact exec_routes routes here (fresh _ here _ rfl) done

theorem reachable_routes (reachable : Reachable route Fresh initRouting w) : Routes w := by
  have start : Routes initRouting := by
    refine ⟨.onConnect,?_,?_,?_⟩
    · simp [initRouting,onConnect]
    · intro r r' waits
      simp [initRouting,onConnect,Waits] at waits
    · intro i
      rfl
  exact reachable.invariant start fun _ _ _ routes fresh taken => step_routes routes fresh taken

theorem Routes.waits {w : Routing} {i : Fin 128} (routes : Routes w) (member : r ∈ w.waiting_hash_slots i) :
    r ∈ w.client.waiting ∧ w.hash r = i ∧ Waits w.client r := by
  rw [routes.linked] at member
  obtain ⟨waits,here⟩ := List.mem_filter.mp member
  have some := List.count_pos_iff.mpr waits
  exact ⟨waits,Fin.ext (of_decide_eq_true here),Nat.add_pos_left some _⟩

theorem Routes.unique {w : Routing} {i j : Fin 128} (routes : Routes w) (first : r ∈ w.waiting_hash_slots i)
    (second : r' ∈ w.waiting_hash_slots j) (same : w.client.sequences r = w.client.sequences r') : r = r' :=
  routes.distinct r r' (routes.waits first).2.2 (routes.waits second).2.2 same

theorem Routes.nodup {w : Routing} (routes : Routes w) (i : Fin 128) : (w.waiting_hash_slots i).Nodup := by
  have all : w.client.waiting.Nodup := by
    rw [List.nodup_iff_count_le_one]
    intro r
    have once := routes.once r
    have one : w.client.made r ≤ 1 := by
      unfold State.made
      split <;> omega
    omega
  rw [routes.linked]
  exact all.filter _

theorem Routes.found {w : Routing} {i : Fin 128} (routes : Routes w) (member : r ∈ w.waiting_hash_slots i) :
    w.find (w.client.sequences r) = some r := by
  obtain ⟨_,here,_⟩ := routes.waits member
  have mine : r ∈ w.waiting_hash_slots (Client.hash (w.client.sequences r)) := by
    rw [← here] at member
    exact member
  cases found : w.find (w.client.sequences r) with
  | none =>
    have missed := List.find?_eq_none.mp found r mine
    simp at missed
  | some r' =>
    have same : w.client.sequences r' = w.client.sequences r := by simpa using List.find?_some found
    rw [routes.unique (List.mem_of_find?_eq_some found) mine same]

/-- The slots with what the requests wait with: `decoder` is what `clientSendRequest` has
looked up for a request, and its caller's callback is known by its number. -/
def Routing.sendArgs (w : Routing) (decoder : Nat → Decoder Reply) : WaitingHashSlots :=
  fun i => (w.waiting_hash_slots i).map fun r => ⟨w.client.sequences r,decoder r,r⟩

/-- The read callback decodes what echoes the sequence of a waiting request with that
request's decoder, for that request's callback. -/
theorem Routes.decoded {w : Routing} {i : Fin 128} (routes : Routes w) (member : r ∈ w.waiting_hash_slots i)
    (decoder : Nat → Decoder Reply) {encoded : List UInt8} (frames : Frames (decodeResponse (decoder r)) encoded response)
    (header : 8 ≤ encoded.length) (echo : (responseAt encoded).sequence = w.client.sequences r) (back : List UInt8) :
    ∃ slots, Client.clientNext (w.sendArgs decoder) (encoded ++ back) = .item ⟨r,response⟩ encoded.length slots := by
  obtain ⟨_,here,_⟩ := routes.waits member
  have answers : Client.Answers (w.sendArgs decoder) ⟨encoded,⟨r,response⟩⟩ ⟨w.client.sequences r,decoder r,r⟩ := by
    refine ⟨?_,?_,rfl,frames,echo,header⟩
    · rw [← here] at member
      exact List.mem_map_of_mem member
    · intro other waits same
      obtain ⟨r',second,rfl⟩ := List.mem_map.mp waits
      rw [routes.unique second member same]
  have awaits : Client.Awaits (w.sendArgs decoder) [⟨encoded,⟨r,response⟩⟩] := by
    refine ⟨?_,by simp⟩
    intro m inside
    rw [List.mem_singleton.mp inside]
    exact ⟨_,answers⟩
  obtain ⟨slots,whole,_⟩ := Client.clientNext_serves.whole _ _ _ back awaits
  exact ⟨slots,whole⟩

/-- A response that echoes a request's sequence comes to the front of a read callback's
buffer, is decoded, and its job is run. -/
def delivery (w : Routing) (thread r rbuf : Nat) : List Action :=
  [.run thread (.header (w.client.sequences r)),.run thread .message,.run thread .message,.run thread .message,
    .doJob r rbuf,.run w.client.threads.length .message]

theorem route_execute {w : Routing} (actions : List Action) (taken : execute step w.client actions = some s') :
    ∃ slots, execute route w actions = some ⟨s',slots⟩ := by
  induction actions generalizing w with
  | nil =>
    cases taken
    exact ⟨_,rfl⟩
  | cons a actions ih =>
    cases first : step w.client a with
    | none => simp [execute,first] at taken
    | some middle =>
      simp only [execute,first] at taken
      obtain ⟨slots,later⟩ := ih (w := ⟨middle,relinks w a⟩) taken
      exact ⟨slots,by simpa [execute,route,first] using later⟩

theorem Routes.delivered {w : Routing} {i : Fin 128} {thread : Nat} (routes : Routes w) (member : r ∈ w.waiting_hash_slots i)
    (here : w.client.threads[thread]? = some (.turn rbuf :: rest)) :
    ∃ w', execute route w (delivery w thread r rbuf) = some w' ∧
      w'.client.callbacks = Function.update w.client.callbacks r (w.client.callbacks r + 1) := by
  have running := routes.reads.running
  obtain ⟨live,_⟩ := routes.reads.holder rbuf here (by simp)
  have found : lookup w.client (w.client.sequences r) = some r := by
    rw [← routes.linked.find_eq]
    exact routes.found member
  have next : ∀ ops, (w.client.threads.set thread ops)[thread]? = some ops := by
    intro ops
    exact List.getElem?_set_self (List.getElem?_eq_some_iff.mp here).1
  have delivers : ∃ s', execute step w.client (delivery w thread r rbuf) = some s' ∧
      s'.callbacks = Function.update w.client.callbacks r (w.client.callbacks r + 1) := by
    simp [delivery,execute,step,exec,send,receive,turn,touch,running,here,live,found,next,ClientNotify.spawn,State.callback]
  obtain ⟨s',taken,called⟩ := delivers
  obtain ⟨slots,routed⟩ := route_execute _ taken
  exact ⟨_,routed,called⟩

/-- As long as no sequence is drawn that a request waits with: the waiting requests have
sequences of their own and are in the slots of these, and what echoes the sequence of one
of them is decoded by its decoder and given to its callback. -/
theorem response_routed (reachable : Reachable route Fresh initRouting w) :
    (∀ i, (w.waiting_hash_slots i).Nodup ∧ ∀ r ∈ w.waiting_hash_slots i, w.hash r = i) ∧
    (∀ i j, ∀ r ∈ w.waiting_hash_slots i, ∀ r' ∈ w.waiting_hash_slots j, w.client.sequences r = w.client.sequences r' → r = r') ∧
    (∀ i, ∀ r ∈ w.waiting_hash_slots i, ∀ decoder encoded response, Frames (decodeResponse (decoder r)) encoded response →
      8 ≤ encoded.length → (responseAt encoded).sequence = w.client.sequences r → ∀ back,
      ∃ slots, Client.clientNext (w.sendArgs decoder) (encoded ++ back) = .item ⟨r,response⟩ encoded.length slots) ∧
    ∀ i, ∀ r ∈ w.waiting_hash_slots i, ∀ thread rbuf rest, w.client.threads[thread]? = some (.turn rbuf :: rest) →
      ∃ w', execute route w (delivery w thread r rbuf) = some w' ∧
        w'.client.callbacks = Function.update w.client.callbacks r (w.client.callbacks r + 1) := by
  have routes := reachable_routes reachable
  refine ⟨?_,?_,?_,?_⟩
  · exact fun i => ⟨routes.nodup i,fun r member => (routes.waits member).2.1⟩
  · exact fun i j r first r' second same => routes.unique first second same
  · exact fun i r member decoder encoded response frames header echo back => routes.decoded member decoder frames header echo back
  · exact fun i r member thread rbuf rest here => routes.delivered member here

instance (s : State) (r : Nat) : Decidable (Waits s r) :=
  inferInstanceAs (Decidable (0 < s.waiting.count r + total (drawn r) s.threads))

instance (s : State) : (op : Op) → Decidable (Repeats s op)
  | .nextSequence _ => inferInstanceAs (Decidable (∃ r < s.started, Waits s r ∧ s.sequences r = s.sequence + 1))
  | .readConn _ | .encode _ | .listAddTail _ | .countWrite _ | .connWrite _ | .append _ | .refused _ | .listDel _
  | .failWrite _ | .failCallback _ | .writeDone | .enter _ | .turn _ | .decode _ _ | .refer _ _ | .insertTail _ _
  | .listAdd _ _ _ | .freeReadBuffer _ | .readDone | .countRead _ _ | .read _ | .doJob _ _ =>
    inferInstanceAs (Decidable False)

instance (w : Routing) : (a : Action) → Decidable (Fresh w a)
  | .run thread _ => inferInstanceAs (Decidable (∀ ops ∈ w.client.threads[thread]?, ∀ op ∈ ops.head?, ¬Repeats w.client op))
  | .sendRequest | .writeCallback _ _ | .readCallback _ _ | .doJob _ _ | .closeConnection | .onClose =>
    inferInstanceAs (Decidable True)

def awaiting : List Action :=
  [.sendRequest,.run 0 .message,.run 0 .message,.run 0 (.answer true),.run 0 .message,.readCallback 0 true,.run 1 .message]

theorem response_routed_awaiting :
    ∃ w w', execute route initRouting awaiting = some w ∧ 0 ∈ w.waiting_hash_slots 127 ∧
      execute route w (delivery w 1 0 0) = some w' ∧ w'.client.callbacks 0 = 1 := by
  have fresh : Permitted route Fresh initRouting awaiting := by decide +kernel
  have routed := response_routed (Reachable.start.execute awaiting fresh rfl)
  obtain ⟨w',taken,called⟩ := routed.2.2.2 127 0 (by decide +kernel) 1 0 [] rfl
  exact ⟨_,w',rfl,by decide +kernel,taken,by rw [called]; rfl⟩

def sends (w : Routing) (rc : Bool) : List Action :=
  [.sendRequest,.run w.client.threads.length .message,.run w.client.threads.length .message,
    .run w.client.threads.length (.answer rc)]

theorem sends_sequence (w : Routing) (running : w.client.fault = none) (conn : w.client.conn = true) (rc : Bool) :
    ∃ w', execute route w (sends w rc) = some w' ∧ w'.waiting_hash_slots = w.waiting_hash_slots ∧
      w'.client.fault = none ∧ w'.client.conn = true ∧ w'.client.started = w.client.started + 1 ∧
      w'.client.sequence = w.client.sequence + 1 ∧
      w'.client.sequences = Function.update w.client.sequences w.client.started (w.client.sequence + 1) ∧
      w'.client.threads[w.client.threads.length]? = some (if rc then [.listAddTail w.client.started] else []) := by
  cases rc <;>
    simp [sends,execute,route,relinks,relink,step,exec,send,spawn,running,conn,State.returns]

/-- A request waits while any number of others draw their sequences. -/
theorem waits_on (n : Nat) : ∃ w, Reachable route (fun _ _ => True) initRouting w ∧ w.client.fault = none ∧
    w.client.conn = true ∧ 0 < w.client.started ∧ w.client.sequence = 1023 + UInt32.ofNat n ∧
    w.client.sequences 0 = 1023 ∧ 0 ∈ w.waiting_hash_slots 127 := by
  induction n with
  | zero =>
    have first : Reachable route (fun _ _ => True) initRouting _ := Reachable.start.run (sends initRouting true ++ [.run 0 .message]) rfl
    exact ⟨_,first,rfl,rfl,by decide,rfl,rfl,by decide +kernel⟩
  | succ n ih =>
    obtain ⟨w,reachable,running,conn,started,sequence,first,waits⟩ := ih
    obtain ⟨w',taken,slots,running',conn',started',sequence',sequences,_⟩ := sends_sequence w running conn false
    refine ⟨w',reachable.run _ taken,running',conn',by omega,?_,?_,?_⟩
    · rw [sequence',sequence,UInt32.ofNat_add,UInt32.add_assoc]
      rfl
    · rw [sequences,Function.update_of_ne (by omega),first]
    · rw [slots]
      exact waits

/-- When `2 ^ 32` requests later one more waits, it has the sequence of the first. -/
theorem sequence_drawn_again : ∃ w, Reachable route (fun _ _ => True) initRouting w ∧
    ∃ r, r ≠ 0 ∧ r ∈ w.waiting_hash_slots 127 ∧ 0 ∈ w.waiting_hash_slots 127 ∧
      w.client.sequences r = w.client.sequences 0 := by
  obtain ⟨w,reachable,running,conn,started,sequence,first,waits⟩ := waits_on 4294967295
  obtain ⟨w',taken,slots,running',conn',started',sequence',sequences,here⟩ := sends_sequence w running conn true
  have drawn : w.client.sequence + 1 = 1023 := by
    rw [sequence]
    rfl
  have again : w'.client.sequences w.client.started = 1023 := by rw [sequences,Function.update_self,drawn]
  have same : w'.client.sequences 0 = 1023 := by rw [sequences,Function.update_of_ne (by omega),first]
  have added : route w' (.run w.client.threads.length .message) =
      some ⟨{ w'.client with
        waiting := w'.client.waiting ++ [w.client.started]
        threads := w'.client.threads.set w.client.threads.length [.countWrite w.client.started] },
        w'.locked 127 fun slot => slot ++ [w.client.started]⟩ := by
    have slot : w'.hash w.client.started = 127 := by
      rw [Routing.hash,again]
      rfl
    simp [route,step,running',here,exec,send,relinks,relink,slot]
  have later := (reachable.run _ taken).step trivial added
  refine ⟨_,later,w.client.started,by omega,?_,?_,again.trans same.symm⟩
  · simp [Routing.locked]
  · simp [Routing.locked,slots,waits]

end Muti.ClientNotify
