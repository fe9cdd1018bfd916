import Muti.ServerReadBuffer

/-! The back-pressure of the server. A reader that has made as many buffers as it may parks
its read, and the worker that brings the count down to the half resumes it; neither looks
at the count again under the lock. -/
namespace Muti.ServerReadBuffer

open Muti.Lists Muti.Memory Muti.Transition Muti.SharedBuffers Muti.SharedBuffers.Buffers

@[simp] def parking : Op → Nat
  | .park _ => 1
  | _ => 0

/-- A worker that has brought the count to the half, and is about to look for a parked read. -/
@[simp] def resuming : Op → Nat
  | .readParked => 1
  | _ => 0

def asks : Op → Bool
  | .read _ | .readParked => true
  | _ => false

def Open (s : State) : Action → Prop
  | .run thread _ accepted => ∀ ops ∈ s.threads[thread]?, ∀ op ∈ ops.head?, asks op = true → accepted = true
  | _ => True

variable (max_read_buffer_counter : Nat)

/-- A reader parks after the workers have passed the half, and none of them will look; or a
worker resumes a read with all buffers in use, parked after this worker passed the half. -/
def Late (s : State) : Op → Prop
  | .park _ => s.read_counter ≤ (max_read_buffer_counter / 2 : Nat) ∧ total resuming s.threads = 0
  | .readParked => s.to_read_buf ≠ none ∧ max_read_buffer_counter ≤ s.read_counter
  | _ => False

def Timely (s : State) (a : Action) : Prop :=
  Open s a ∧ match a with
    | .run thread _ _ => ∀ ops ∈ s.threads[thread]?, ∀ op ∈ ops.head?, ¬Late max_read_buffer_counter s op
    | _ => True

instance (s : State) : (a : Action) → Decidable (Open s a)
  | .run thread _ accepted =>
    inferInstanceAs (Decidable (∀ ops ∈ s.threads[thread]?, ∀ op ∈ ops.head?, asks op = true → accepted = true))
  | .readCallback _ _ | .doActionCallback _ => inferInstanceAs (Decidable True)

instance (s : State) : (op : Op) → Decidable (Late max_read_buffer_counter s op)
  | .park _ =>
    inferInstanceAs (Decidable (s.read_counter ≤ (max_read_buffer_counter / 2 : Nat) ∧ total resuming s.threads = 0))
  | .readParked => inferInstanceAs (Decidable (s.to_read_buf ≠ none ∧ max_read_buffer_counter ≤ s.read_counter))
  | .enter _ | .turn _ | .refer _ | .insertTail _ | .unrefer _ | .freeReadBuffer _ | .readDone | .clearParked
  | .countRead _ | .read _ => inferInstanceAs (Decidable False)

instance (s : State) (a : Action) : Decidable (Timely max_read_buffer_counter s a) :=
  match a with
  | .run thread outcome accepted =>
    inferInstanceAs (Decidable (Open s (.run thread outcome accepted) ∧
      ∀ ops ∈ s.threads[thread]?, ∀ op ∈ ops.head?, ¬Late max_read_buffer_counter s op))
  | .readCallback rbuf rc => inferInstanceAs (Decidable (Open s (.readCallback rbuf rc) ∧ True))
  | .doActionCallback rbuf => inferInstanceAs (Decidable (Open s (.doActionCallback rbuf) ∧ True))

/-- The count stays in its bounds, and whoever makes it full parks; while a read is parked,
the half is still to come, or a worker that has come to it is about to look. -/
structure Pressed (s : State) : Prop where
  bounded : s.read_counter ≤ max_read_buffer_counter
  full : s.read_counter = max_read_buffer_counter → 0 < s.parked.toList.length + total parking s.threads
  awake : s.parked ≠ none → (max_read_buffer_counter / 2 : Nat) < s.read_counter ∨ 0 < total resuming s.threads

variable {max_read_buffer_counter}

theorem Open.accepts (opened : Open s a) : Accepts s a := by
  rintro thread outcome rbuf rest rfl here
  have answer := opened _ here _ rfl rfl
  cases answer

/-- Five operations apart, none touches the count or the parked read. -/
theorem exec_quiet (quiet : counting op + discounting op + unlocking op + resuming op + parking op = 0)
    (done : exec max_read_buffer_counter s outcome accepted op = some (s',ops)) :
    s'.read_counter = s.read_counter ∧ s'.parked = s.parked := by
  cases op with
  | readDone | readParked | clearParked | countRead rbuf | park rbuf => cases quiet
  | enter rbuf | refer rbuf | unrefer rbuf | freeReadBuffer rbuf =>
    simp only [exec,touch] at done
    split at done <;> cases done <;> exact ⟨rfl,rfl⟩
  | turn rbuf =>
    simp only [exec,touch] at done
    split at done
    · cases outcome with
      | starved same => cases same <;> cases done <;> exact ⟨rfl,rfl⟩
      | _ => cases done; exact ⟨rfl,rfl⟩
    · cases done
      exact ⟨rfl,rfl⟩
  | insertTail rbuf => cases accepted <;> cases done <;> exact ⟨rfl,rfl⟩
  | read rbuf =>
    simp only [exec,touch] at done
    split at done
    · cases accepted <;> cases done <;> exact ⟨rfl,rfl⟩
    · cases done
      exact ⟨rfl,rfl⟩

theorem Pressed.quiet {s s' : State} {i : Nat} (pressed : Pressed max_read_buffer_counter s) (here : s.threads[i]? = some (op :: rest))
    (counter : s'.read_counter = s.read_counter) (parked : s'.parked = s.parked)
    (silent : parking op = 0 ∧ resuming op = 0) (ops : List Op) :
    Pressed max_read_buffer_counter { s' with threads := s.threads.set i (ops ++ rest) } where
  bounded := by
    have bounded := pressed.bounded
    change s'.read_counter ≤ _
    omega
  full := by
    have parks := total_advance parking here ops
    have full := pressed.full
    change s'.read_counter = _ → 0 < s'.parked.toList.length + _
    rw [counter,parked]
    intro all
    have waits := full all
    change 0 < _ + total parking (s.threads.set i (ops ++ rest))
    omega
  awake := by
    have resumes := total_advance resuming here ops
    have awake := pressed.awake
    change s'.parked ≠ none → _ < s'.read_counter ∨ 0 < total resuming (s.threads.set i (ops ++ rest))
    rw [counter,parked]
    intro waits
    rcases awake waits with above | looks
    · exact .inl above
    · exact .inr (by omega)

theorem parking_counting_le (op : Op) : parking op + counting op ≤ continues op := by
  cases op <;> simp

theorem parking_le (op : Op) : parking op ≤ continues op := by
  have both := parking_counting_le op
  omega

/-- Operations that are not late keep it, on an open connection. -/
theorem exec_pressed {i : Nat} (inv : Inv s) (pressed : Pressed max_read_buffer_counter s)
    (here : s.threads[i]? = some (op :: rest)) (timely : ¬Late max_read_buffer_counter s op)
    (opened : asks op = true → accepted = true)
    (done : exec max_read_buffer_counter s outcome accepted op = some (s',ops)) :
    Pressed max_read_buffer_counter { s' with threads := s.threads.set i (ops ++ rest) } := by
  have stream := inv.stream
  have mine := weight_le_total continues here
  have parks := total_advance parking here ops
  have resumes := total_advance resuming here ops
  have bounded := pressed.bounded
  have full := pressed.full
  have awake := pressed.awake
  cases op with
  | enter rbuf | turn rbuf | refer rbuf | insertTail rbuf | unrefer rbuf | freeReadBuffer rbuf | read rbuf =>
    obtain ⟨counter,parked⟩ := exec_quiet rfl done
    exact pressed.quiet here counter parked ⟨rfl,rfl⟩ ops
  | readDone =>
    by_cases half : s.read_counter - 1 = (max_read_buffer_counter / 2 : Nat)
    · simp only [exec,if_pos half] at done
      cases done
      simp at resumes
      refine ⟨by simp; omega,?_,fun _ => .inr ?_⟩
      · intro all
        simp at all
        omega
      · simp
        omega
    · simp only [exec,if_neg half] at done
      cases done
      simp at resumes
      refine ⟨by simp; omega,?_,?_⟩
      · intro all
        simp at all
        omega
      · intro waits
        rcases awake waits with above | looks
        · refine .inl ?_
          simp only
          omega
        · refine .inr ?_
          simp
          omega
  | readParked =>
    obtain ⟨locked,unparked⟩ := inv.unparked max_read_buffer_counter done
    cases unparked with
    | nothing waiting =>
      refine ⟨bounded,?_,?_⟩
      · intro all
        have parked := full all
        simp at parks
        simp [locked,waiting] at parked ⊢
        omega
      · intro waits
        simp [locked,waiting] at waits
    | reads waiting =>
      have room : s.read_counter < max_read_buffer_counter := by
        by_contra all
        exact timely ⟨by simp [waiting],by omega⟩
      refine ⟨bounded,?_,?_⟩
      · intro all
        simp at all
        omega
      · intro waits
        simp at waits
    | refused => cases opened rfl
  | clearParked =>
    have locked := inv.clearing here
    cases done
    refine ⟨bounded,?_,?_⟩
    · intro all
      have parked := full all
      simp at parks
      simp [locked] at parked ⊢
      omega
    · intro waits
      simp at waits
  | countRead rbuf =>
    -- the reader holds the stream, so nothing is parked and the count was not full
    simp at mine
    have unparked : s.parked = none := by
      cases parked : s.parked with
      | none => rfl
      | some other =>
        simp only [State.streams,parked] at stream
        simp at stream
        omega
    have alone : total parking s.threads = 0 := by
      have both := total_mono parking_counting_le s.threads
      have counted := weight_le_total counting here
      rw [total_add] at both
      simp at counted
      omega
    have room : s.read_counter ≠ max_read_buffer_counter := by
      intro all
      have parked := full all
      rw [unparked,alone] at parked
      simp at parked
    by_cases all : s.read_counter + 1 = max_read_buffer_counter
    · simp only [exec,if_pos all] at done
      cases done
      simp at parks
      refine ⟨by simp; omega,?_,?_⟩
      · intro _
        simp
        omega
      · intro waits
        exact absurd unparked waits
    · simp only [exec,if_neg all] at done
      cases done
      refine ⟨by simp; omega,?_,?_⟩
      · intro reached
        exact absurd reached all
      · intro waits
        exact absurd unparked waits
  | park rbuf =>
    obtain ⟨locked,waiting,rfl,rfl⟩ := inv.parks max_read_buffer_counter here done
    simp at resumes
    refine ⟨bounded,?_,?_⟩
    · intro _
      simp [locked]
    · intro _
      by_cases looks : total resuming s.threads = 0
      · refine .inl ?_
        by_contra below
        exact timely ⟨Int.not_lt.mp below,looks⟩
      · refine .inr ?_
        simp
        omega

theorem spawn_pressed (pressed : Pressed max_read_buffer_counter s) (reads requests : List Nat) (op : Op) :
    Pressed max_read_buffer_counter (spawn { s with reads, requests } [op]) where
  bounded := pressed.bounded
  full := by
    intro all
    have parked := pressed.full all
    have parks := total_spawn parking s.threads op
    change 0 < s.parked.toList.length + total parking (s.threads ++ [[op]])
    omega
  awake := by
    intro waits
    have resumes := total_spawn resuming s.threads op
    change _ < s.read_counter ∨ 0 < total resuming (s.threads ++ [[op]])
    rcases pressed.awake waits with above | looks
    · exact .inl above
    · exact .inr (by omega)

theorem step_pressed (inv : Inv s) (pressed : Pressed max_read_buffer_counter s) (timely : Timely max_read_buffer_counter s a)
    (taken : step max_read_buffer_counter s a = some s') : Pressed max_read_buffer_counter s' := by
  have running : ¬s.fault ≠ none := not_not.mpr inv.running
  obtain ⟨opened,timely⟩ := timely
  cases a with
  | readCallback rbuf rc =>
    simp only [step,if_neg running,Option.ite_none_right_eq_some,Option.some.injEq] at taken
    obtain ⟨_,rfl⟩ := taken
    exact spawn_pressed pressed _ s.requests _
  | doActionCallback rbuf =>
    simp only [step,if_neg running,Option.ite_none_right_eq_some,Option.some.injEq] at taken
    obtain ⟨_,rfl⟩ := taken
    exact spawn_pressed pressed s.reads _ _
  | run thread outcome accepted =>
    rcases here : s.threads[thread]? with _ | _ | ⟨op,rest⟩
    · simp [step,running,here] at taken
    · simp [step,running,here] at taken
    · simp only [step,if_neg running,here,Option.map_eq_some_iff] at taken
      obtain ⟨⟨s1,ops⟩,done,rfl⟩ := taken
      exact exec_pressed inv pressed here (timely _ here _ rfl) (opened _ here _ rfl) done

def State.parks (s : State) : Nat := s.parked.toList.length + total parking s.threads

/-- On an open connection, and as long as nobody comes late, the count stays within its
bound, one read at most is parked, no assertion fails, and a parked read waits for a count
still above the half, unless someone is on the way into the locked section. -/
theorem back_pressure (enough : 2 ≤ max_read_buffer_counter)
    (reachable : Reachable (step max_read_buffer_counter) (Timely max_read_buffer_counter) onConnect s) :
    s.fault = none ∧ s.read_counter ≤ max_read_buffer_counter ∧ s.parks ≤ 1 ∧
    (total resuming s.threads = 0 → total parking s.threads = 0 → s.parked ≠ none →
      (max_read_buffer_counter / 2 : Nat) < s.read_counter) := by
  have start : Inv onConnect ∧ Pressed max_read_buffer_counter onConnect := by
    refine ⟨onConnect_inv,?_,?_,?_⟩
    · simp [onConnect]
      omega
    · intro all
      simp [onConnect] at all
      omega
    · intro waits
      exact absurd rfl waits
  have keeps : ∀ s a s', (Inv s ∧ Pressed max_read_buffer_counter s) → Timely max_read_buffer_counter s a →
      step max_read_buffer_counter s a = some s' → Inv s' ∧ Pressed max_read_buffer_counter s' := by
    rintro s a s' ⟨inv,pressed⟩ timely taken
    exact ⟨step_inv max_read_buffer_counter inv timely.1.accepts taken,step_pressed inv pressed timely taken⟩
  obtain ⟨inv,pressed⟩ := reachable.invariant start keeps
  have stream := inv.stream
  have fewer := total_mono parking_le s.threads
  refine ⟨inv.running,pressed.bounded,?_,?_⟩
  · simp only [State.streams,State.parks] at stream ⊢
    omega
  · intro quiet _ waits
    rcases pressed.awake waits with above | looks
    · exact above
    · omega

/-- A read callback decodes one request and goes on in a new buffer, which it has counted. -/
def refill (thread rbuf : Nat) : List Action :=
  [.readCallback rbuf true,.run thread .decoded true,.run thread .decoded true,.run thread .decoded true,
    .run thread .decoded true,.run thread (.starved false) true,.run thread .decoded true,.run thread .decoded true]

def onward (thread : Nat) : List Action := [.run thread .decoded true,.run thread .decoded true]

def answer (thread rbuf : Nat) : List Action :=
  [.doActionCallback rbuf,.run thread .decoded true,.run thread .decoded true]

/-- With two buffers allowed the read is parked, and the parked read is still to be resumed. -/
theorem back_pressure_parked :
    ∃ s, execute (step 2) onConnect (refill 0 0 ++ onward 0) = some s ∧ s.parked = some 1 ∧ (2 / 2 : Nat) < s.read_counter := by
  have timely : Permitted (step 2) (Timely 2) onConnect (refill 0 0 ++ onward 0) := by decide +kernel
  have reachable := Reachable.start.execute (refill 0 0 ++ onward 0) timely rfl
  exact ⟨_,rfl,rfl,(back_pressure (by decide) reachable).2.2.2 (by decide) (by decide) (by decide)⟩

/-- Two workers finish between the count of the fourth buffer and its parking. -/
def finishedBetween : List Action :=
  refill 0 0 ++ onward 0 ++ refill 1 1 ++ onward 1 ++ refill 2 2 ++ answer 3 0 ++ answer 4 1 ++
    [.run 4 .decoded true] ++ onward 2

/-- A worker brings the count to the half, and comes to look when all buffers are in use again. -/
def cameLate : List Action :=
  refill 0 0 ++ onward 0 ++ refill 1 1 ++ onward 1 ++ answer 2 0 ++ refill 3 2 ++ onward 3 ++
    refill 4 3 ++ onward 4 ++ [.run 2 .decoded true,.run 2 .decoded true] ++ refill 5 4 ++ onward 5

/-- With four buffers allowed, on an open connection: a read is parked for good, with only
half of them in use; and a fifth one is in use. -/
theorem read_stalled :
    (∃ s, Reachable (step 4) Open onConnect s ∧ (∀ ops ∈ s.threads, ops = []) ∧ s.to_read_buf = some 3 ∧ s.read_counter = 2) ∧
    ∃ s, Reachable (step 4) Open onConnect s ∧ s.read_counter = 5 := by
  have between : Permitted (step 4) Open onConnect finishedBetween := by decide +kernel
  have late : Permitted (step 4) Open onConnect cameLate := by decide +kernel
  exact ⟨⟨_,Reachable.start.execute finishedBetween between rfl,by decide,rfl,rfl⟩,
    ⟨_,Reachable.start.execute cameLate late rfl,rfl⟩⟩

end Muti.ServerReadBuffer
