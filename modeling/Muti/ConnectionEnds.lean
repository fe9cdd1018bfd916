import Mathlib.Data.List.Nodup
import Muti.SocketRead
import Muti.WriteStream

/-! What one step of either end of a connection changes, as far as the other end can tell:
which reads are asked for and which callbacks have run, and which buffers are asked to be
written, are in the queue or were sent. -/
namespace Muti.SocketRead

def Job.head : Job → List IOContext
  | .idle => []
  | .taken read_head | .reading read_head _ | .leaving read_head => read_head

/-- What read(2) is asked for next. -/
def Job.room : Job → Nat
  | .reading (ioctx :: _) data => ioctx.buf_size - data.length
  | _ => 0

def State.asked (s : State) : List Nat :=
  s.callers ++ s.read_jobs_head.map IOContext.buf_size ++ s.job.head.map IOContext.buf_size

def Fits (s : State) : Prop := ∀ ioctx rest data, s.job = .reading (ioctx :: rest) data → data.length ≤ ioctx.buf_size

/-- A step that is not a new read runs callbacks of those asked for, which get some bytes
and no more than they asked for, or nothing. -/
structure Moves (s s' : State) : Prop where
  fits : Fits s'
  sizes : ∀ sz ∈ s'.asked, sz ∈ s.asked
  callbacks : ∃ more, s'.callbacks = s.callbacks ++ more ∧ s'.asked.length + more.length = s.asked.length ∧
    ∀ n data, (n,some data) ∈ more → data ≠ [] ∧ ∃ sz ∈ s.asked, data.length ≤ sz

theorem next_head (head : List IOContext) : (next head).head = head := by
  cases head with
  | nil => rfl
  | cons ioctx rest => by_cases none : ioctx.buf_size = 0 <;> simp [next,none,Job.head]

theorem next_fits (head : List IOContext) (starts : next head = .reading (ioctx :: rest) data) : data = [] := by
  have kept := next_data head
  rw [starts] at kept
  exact kept

theorem Moves.quiet (fits : Fits s') (asked : s'.asked.Perm s.asked) (callbacks : s'.callbacks = s.callbacks) : Moves s s' where
  fits := fits
  sizes := fun _ member => asked.subset member
  callbacks := ⟨[],by simp [callbacks],by simpa using asked.length_eq,by simp⟩

theorem Moves.refused {s s' : State} (ioctxs : List IOContext) (fits : Fits s')
    (asked : (s'.asked ++ ioctxs.map IOContext.buf_size).Perm s.asked)
    (callbacks : s'.callbacks = s.callbacks ++ ioctxs.map fun ioctx => (ioctx.number,none)) : Moves s s' where
  fits := fits
  sizes := fun _ member => asked.subset (List.mem_append_left _ member)
  callbacks := by
    refine ⟨ioctxs.map fun ioctx => (ioctx.number,none),callbacks,?_,by simp⟩
    simpa using asked.length_eq

theorem account_kept (s : State) (data bytes : List UInt8) (turn : Turn) : (account s data bytes turn).callers = s.callers ∧
    (account s data bytes turn).read_jobs_head = s.read_jobs_head ∧ (account s data bytes turn).callbacks = s.callbacks ∧
    (account s data bytes turn).job = s.job := by
  unfold account
  split
  · exact ⟨rfl,rfl,rfl,rfl⟩
  · split <;> exact ⟨rfl,rfl,rfl,rfl⟩

theorem bytes_length (to_read : Nat) (got : Got) : (got.bytes to_read).length ≤ to_read := by
  cases got <;> simp [Got.bytes]

theorem read_moves (fits : Fits s) (job : s.job = .reading (ioctx :: rest) data) (got : Got)
    (taken : step s (.read got) = some s') : Moves s s' := by
  simp only [step,job,Option.some.injEq] at taken
  have inside := fits ioctx rest data job
  obtain ⟨callers,waiting,callbacks,same⟩ := account_kept s data (got.bytes (ioctx.buf_size - data.length))
    (socketNoneBlockRead ioctx.buf_size data got)
  have asked : s.asked = s.callers ++ s.read_jobs_head.map IOContext.buf_size ++ (ioctx :: rest).map IOContext.buf_size := by
    simp [State.asked,job,Job.head]
  rcases socketNoneBlockRead_cases ioctx.buf_size data got with ⟨fails,_⟩ | ⟨more,sum,again | returns⟩
  · rw [fails] at taken callers waiting callbacks
    subst taken
    refine .refused (ioctx :: rest) (fun _ _ _ reads => by cases reads) ?_ ?_
    · simp [State.asked,socketDoRead,State.notify,callers,waiting,job,Job.head]
    · simp [socketDoRead,State.notify,callbacks]
  · rw [again] at taken callers waiting callbacks
    subst taken
    have upper : more.length ≤ ioctx.buf_size := by
      have shorter := bytes_length (ioctx.buf_size - data.length) got
      rw [sum,List.length_append]
      omega
    refine .quiet ?_ ?_ callbacks
    · intro other others now reads
      cases reads
      exact upper
    · simp [State.asked,socketDoRead,callers,waiting,job,Job.head]
  · rw [returns] at taken callers waiting callbacks
    have upper : more.length ≤ ioctx.buf_size := by
      have shorter := bytes_length (ioctx.buf_size - data.length) got
      rw [sum,List.length_append]
      omega
    by_cases none : more = []
    · simp only [socketDoRead,if_pos none] at taken
      subst taken
      refine .quiet (fun _ _ _ reads => by cases reads) ?_ callbacks
      simp [State.asked,callers,waiting,job,Job.head]
    · simp only [socketDoRead,if_neg none] at taken
      subst taken
      have rests : ∀ short : Bool, (if short then Job.leaving rest else next rest).head = rest := by
        intro short
        cases short
        · exact next_head rest
        · rfl
      have left := rests (decide (more.length < ioctx.buf_size))
      simp only [decide_eq_true_eq] at left
      constructor
      · intro other others now reads
        change (if more.length < ioctx.buf_size then Job.leaving rest else next rest) = _ at reads
        split at reads
        · cases reads
        · rw [next_fits rest reads]
          exact Nat.zero_le _
      · intro sz member
        simp only [State.asked,State.notify,left,callers,waiting,List.mem_append] at member
        rw [asked]
        simp only [List.mem_append,List.map_cons,List.mem_cons]
        rcases member with member | member
        · exact .inl member
        · exact .inr (.inr member)
      · refine ⟨[(ioctx.number,some more)],by simp [State.notify,callbacks],?_,?_⟩
        · rw [asked]
          simp only [State.asked,State.notify,left,callers,waiting]
          simp
          omega
        · intro n given member
          cases List.mem_singleton.mp member
          exact ⟨none,ioctx.buf_size,by simp [asked],upper⟩

theorem step_moves (fits : Fits s) (old : ∀ sz, a ≠ .connRead sz) (taken : step s a = some s') : Moves s s' := by
  cases a with
  | connRead sz => exact absurd rfl (old sz)
  | listAddTail sz =>
    simp only [step,Option.ite_none_right_eq_some] at taken
    obtain ⟨member,taken⟩ := taken
    cases taken
    refine .quiet fits ?_ rfl
    have moved := (List.perm_cons_erase member).symm.append_right
      (s.read_jobs_head.map IOContext.buf_size ++ s.job.head.map IOContext.buf_size)
    simp only [State.asked,List.map_append,List.map_cons,List.map_nil,List.append_assoc]
    refine List.Perm.trans ?_ moved
    simp only [List.cons_append,List.nil_append]
    exact (List.perm_middle.append_left _).trans List.perm_middle |>.trans (by simp)
  | take =>
    cases job : s.job with
    | idle =>
      simp only [step,job,Option.some.injEq] at taken
      subst taken
      exact .quiet (fun _ _ _ reads => by cases reads) (by simp [State.asked,job,Job.head]) rfl
    | _ => simp [step,job] at taken
  | testClosed =>
    cases job : s.job with
    | taken head =>
      simp only [step,job,Option.some.injEq] at taken
      subst taken
      split
      · refine .refused head (fun _ _ _ reads => by cases reads) ?_ rfl
        simp [State.asked,State.notify,job,Job.head]
      · refine .quiet ?_ (by simp only [State.asked,next_head]; rw [job]; rfl) rfl
        intro ioctx rest data reads
        rw [next_fits head reads]
        exact Nat.zero_le _
    | _ => simp [step,job] at taken
  | read got =>
    rcases job : s.job with _ | _ | ⟨_ | ⟨ioctx,rest⟩,data⟩ | _
    · simp [step,job] at taken
    · simp [step,job] at taken
    · simp [step,job] at taken
    · exact read_moves fits job got taken
    · simp [step,job] at taken
  | leave =>
    cases job : s.job with
    | leaving head =>
      simp only [step,job,Option.some.injEq] at taken
      subst taken
      refine .quiet (fun _ _ _ reads => by cases reads) ?_ rfl
      simp only [State.asked,job,Job.head,List.map_append,List.map_nil,List.append_nil,List.append_assoc]
      exact List.perm_append_comm.append_left _
    | _ => simp [step,job] at taken
  | close =>
    cases taken
    split
    · exact .quiet fits (.refl _) rfl
    · exact .quiet fits (.refl _) rfl
  | postIOJobs =>
    simp only [step,Option.ite_none_right_eq_some] at taken
    obtain ⟨_,taken⟩ := taken
    cases taken
    refine .refused s.read_jobs_head fits ?_ rfl
    simp only [State.asked,State.notify,List.map_nil,List.append_nil,List.append_assoc]
    exact List.perm_append_comm.append_left _

end Muti.SocketRead

namespace Muti.SocketWrite

def State.accepted (s : State) : List (List UInt8) := s.sent.map s.buffer

/-- What a step that is not a new write changes: a write asked for may get its place in the
queue, and one of the queue may be sent as a whole, of which a part was missing. -/
structure Writes (s s' : State) : Prop where
  wire : s.wire <+: s'.wire
  asked : (s'.callers ++ s'.queued).Perm (s.callers ++ s.queued)
  queued : s.queued <+: s'.queued
  callbacks : s.callbacks <+: s'.callbacks
  sent : s'.sent = s.sent ∨ ∃ n < s.queued.length, s'.sent = s.sent ++ [n] ∧
    s.wire.length < (s.sentBytes ++ s.buffer n).length

theorem Writes.unsent (wire : s.wire <+: s'.wire) (callers : s'.callers = s.callers) (queued : s'.queued = s.queued)
    (callbacks : s.callbacks <+: s'.callbacks) (sent : s'.sent = s.sent) : Writes s s' where
  wire := wire
  asked := by rw [callers,queued]
  queued := queued ▸ List.prefix_refl _
  callbacks := callbacks
  sent := .inl sent

/-- The buffer in front of a job that goes on was not sent as a whole. -/
theorem Inv.missing (inv : Inv s) (going : s.cut = false) (job : s.job = .writing (ioctx :: rest) nwrite) :
    ioctx.number < s.queued.length ∧ s.wire.length < (s.sentBytes ++ s.buffer ioctx.number).length := by
  obtain ⟨part,sends,front⟩ := inv.going going job
  obtain ⟨known,_,begins,proper⟩ := inv.begun front (writing_items job)
  have shorter := Lists.proper_prefix_length begins proper
  refine ⟨known,?_⟩
  rw [sends,List.length_append,List.length_append]
  omega

/-- A write(2) sends the rest of the buffer only if it returns some bytes. -/
theorem write_turn (len nwrite : Nat) (sent : Sent) : (∃ n, socketNoneBlockWrite len nwrite sent = .again n) ∨
    socketNoneBlockWrite len nwrite sent = .returns none ∨ socketNoneBlockWrite len nwrite sent = .returns (some nwrite) ∨
      socketNoneBlockWrite len nwrite sent = .returns (some len) ∧ ∃ n, sent = .returned n ∧ n ≠ 0 := by
  cases sent with
  | returned n =>
    by_cases none : min n (len - nwrite) = 0
    · exact .inr (.inl (by simp only [socketNoneBlockWrite,if_pos none]))
    · by_cases all : nwrite + min n (len - nwrite) = len
      · refine .inr (.inr (.inr ⟨by simp only [socketNoneBlockWrite,if_neg none,if_pos all],n,rfl,?_⟩))
        rintro rfl
        simp at none
      · exact .inl ⟨_,by simp only [socketNoneBlockWrite,if_neg none,if_neg all]; rfl⟩
  | interrupted => exact .inl ⟨nwrite,rfl⟩
  | wouldBlock => exact .inr (.inr (.inl rfl))
  | failed => exact .inr (.inl rfl)

theorem write_writes (inv : Inv s) (final : Final s (.write sent)) (job : s.job = .writing (ioctx :: rest) nwrite) :
    Writes s (socketDoWrite s ioctx rest nwrite (socketNoneBlockWrite ioctx.buf.length nwrite sent)) := by
  have less := inv.written_lt (writing_items job)
  rw [show s.job.written = nwrite by simp [job,Job.written]] at less
  rcases write_turn ioctx.buf.length nwrite sent with ⟨n,again⟩ | fails | stops | ⟨whole,n,rfl,some_bytes⟩
  · rw [again]
    exact .unsent (List.prefix_append ..) rfl rfl (List.prefix_refl _) rfl
  · rw [fails]
    exact .unsent (List.prefix_refl _) rfl rfl (List.prefix_append ..) (sent_refused s (ioctx :: rest))
  · rw [stops]
    simp only [socketDoWrite,if_pos less]
    split
    · exact .unsent (List.prefix_append ..) rfl rfl (List.prefix_refl _) rfl
    · exact .unsent (List.prefix_append ..) rfl rfl (List.prefix_refl _) rfl
  · have going : s.cut = false := by
      cases cut : s.cut with
      | false => rfl
      | true => exact absurd (final cut) some_bytes
    obtain ⟨known,missing⟩ := inv.missing going job
    rw [whole]
    simp only [socketDoWrite,if_neg (by omega : ioctx.buf.length ≠ 0),if_neg (Nat.lt_irrefl _)]
    refine ⟨List.prefix_append ..,.refl _,List.prefix_refl _,List.prefix_append ..,.inr ⟨_,known,?_,missing⟩⟩
    exact sent_accepted s ioctx

theorem step_writes (inv : Inv s) (final : Final s a) (old : ∀ buf, a ≠ .connWrite buf) (taken : step s a = some s') :
    Writes s s' := by
  cases a with
  | connWrite buf => exact absurd rfl (old buf)
  | listAddTail buf =>
    simp only [step,Option.ite_none_right_eq_some] at taken
    obtain ⟨member,taken⟩ := taken
    cases taken
    refine ⟨List.prefix_refl _,?_,List.prefix_append ..,List.prefix_refl _,.inl rfl⟩
    have moved := (List.perm_cons_erase member).symm.append_right s.queued
    refine List.Perm.trans ?_ moved
    rw [← List.append_assoc]
    exact List.perm_append_singleton ..
  | take =>
    cases job : s.job with
    | idle =>
      simp only [step,job,Option.some.injEq] at taken
      subst taken
      exact .unsent (List.prefix_refl _) rfl rfl (List.prefix_refl _) rfl
    | _ => simp [step,job] at taken
  | testClosed =>
    cases job : s.job with
    | taken head =>
      simp only [step,job,Option.some.injEq] at taken
      subst taken
      split
      · exact .unsent (List.prefix_refl _) rfl rfl (List.prefix_append ..) (sent_refused s head)
      · exact .unsent (List.prefix_refl _) rfl rfl (List.prefix_refl _) rfl
    | _ => simp [step,job] at taken
  | write sent =>
    cases job : s.job with
    | writing head nwrite =>
      obtain ⟨ioctx,rest,rfl,_⟩ := inv.inside head nwrite job
      simp only [step,job,Option.some.injEq] at taken
      subst taken
      exact write_writes inv final job
    | _ => simp [step,job] at taken
  | leave =>
    cases job : s.job with
    | leaving head =>
      simp only [step,job,Option.some.injEq] at taken
      subst taken
      exact .unsent (List.prefix_refl _) rfl rfl (List.prefix_refl _) rfl
    | _ => simp [step,job] at taken
  | close =>
    cases taken
    split <;> exact .unsent (List.prefix_refl _) rfl rfl (List.prefix_refl _) rfl
  | postIOJobs =>
    simp only [step,Option.ite_none_right_eq_some] at taken
    obtain ⟨_,taken⟩ := taken
    cases taken
    exact .unsent (List.prefix_refl _) rfl rfl (List.prefix_append ..) (sent_refused s s.write_jobs_head)

theorem Writes.buffer (writes : Writes s s') (known : n < s.queued.length) : s'.buffer n = s.buffer n := by
  obtain ⟨more,queued⟩ := writes.queued
  simp [State.buffer,← queued,List.getElem?_append_left known]

theorem sent_known (inv : Inv s) (member : n ∈ s.sent) : n < s.queued.length := inv.known n (List.mem_append_left _ member)

/-- At most one buffer more is accepted, of which a part was missing. -/
theorem Writes.accepted (writes : Writes s s') (inv : Inv s) : s'.accepted = s.accepted ∨
    ∃ n < s.queued.length, s'.accepted = s.accepted ++ [s.buffer n] ∧
      s.wire.length < (s.accepted ++ [s.buffer n]).flatten.length := by
  have older : s.sent.map s'.buffer = s.accepted := by
    apply List.map_congr_left
    intro n member
    exact writes.buffer (sent_known inv member)
  rcases writes.sent with same | ⟨n,known,sent,missing⟩
  · left
    rw [State.accepted,same,older]
  · right
    refine ⟨n,known,?_,?_⟩
    · rw [State.accepted,sent,List.map_append,older,List.map_singleton,writes.buffer known]
    · rw [List.flatten_append,List.flatten_singleton]
      exact missing

/-- Behind the accepted buffers, the wire has begun at most one more. -/
structure Begun (s : State) (extra : List Nat) : Prop where
  one : extra.length ≤ 1
  known : ∀ n ∈ extra, n < s.queued.length ∧ n ∉ s.sent
  wire : s.wire <+: (s.accepted ++ extra.map s.buffer).flatten
  missing : ∀ n ∈ extra, s.wire.length < (s.accepted ++ [s.buffer n]).flatten.length

theorem Begun.within {s : State} (sends : s.wire = s.sentBytes ++ part) (known : n < s.queued.length) (unsent : n ∉ s.sent)
    (begins : part <+: s.buffer n) (proper : part ≠ s.buffer n) : Begun s [n] where
  one := Nat.le_refl 1
  known := by
    intro m member
    obtain rfl := List.mem_singleton.mp member
    exact ⟨known,unsent⟩
  wire := by
    rw [sends,List.flatten_append,List.map_singleton,List.flatten_singleton]
    exact (List.prefix_append_right_inj _).mpr begins
  missing := by
    intro m member
    obtain rfl := List.mem_singleton.mp member
    have shorter := Lists.proper_prefix_length begins proper
    rw [sends,List.flatten_append,List.flatten_singleton,List.length_append,List.length_append]
    exact Nat.add_lt_add_left shorter _

theorem Inv.begins (inv : Inv s) : ∃ extra, Begun s extra := by
  obtain ⟨part,sends,state⟩ := inv.wire
  by_cases none : part = []
  · subst none
    refine ⟨[],Nat.zero_le _,by simp,?_,by simp⟩
    rw [sends,List.map_nil,List.append_nil,List.append_nil]
    exact List.prefix_refl _
  · rcases state with front | ⟨_,nothing | ⟨n,known,unsent,begins,proper⟩⟩
    · cases items : s.items with
      | nil =>
        simp only [Front,items,List.head?_nil] at front
        exact absurd front none
      | cons first rest =>
        obtain ⟨known,unsent,begins,proper⟩ := inv.begun front items
        exact ⟨_,.within sends known unsent begins proper⟩
    · exact absurd nothing none
    · exact ⟨_,.within sends known unsent begins proper⟩

theorem queued_eq (s : State) : (List.range s.queued.length).map s.buffer = s.queued := by
  apply List.ext_getElem
  · simp
  · intro i _ inside
    simp [State.buffer,inside]

/-- No buffer of the queue is sent twice. -/
theorem accepted_subperm (inv : Inv s) : s.accepted.Subperm s.queued := by
  have distinct : s.sent.Nodup := (List.pairwise_append.mp inv.ordered).1.imp Nat.ne_of_lt
  obtain ⟨numbers,moved,inside⟩ := List.subperm_of_subset distinct fun n member => List.mem_range.mpr (sent_known inv member)
  refine ⟨numbers.map s.buffer,moved.map _,?_⟩
  have images := inside.map s.buffer
  rwa [queued_eq] at images

theorem Begun.queued (begun : Begun s extra) (inv : Inv s) (member : buf ∈ s.accepted ++ extra.map s.buffer) :
    buf ∈ s.queued := by
  have inside : ∀ n < s.queued.length, s.buffer n ∈ s.queued := by
    intro n known
    simp [State.buffer,known]
  rcases List.mem_append.mp member with sent | other
  · obtain ⟨n,here,rfl⟩ := List.mem_map.mp sent
    exact inside n (sent_known inv here)
  · obtain ⟨n,here,rfl⟩ := List.mem_map.mp other
    exact inside n (begun.known n here).1

/-- The buffers asked to be written, but for those in the queue under these numbers. -/
def State.ahead (s : State) (gone : List Nat) : List (List UInt8) :=
  s.callers ++ ((List.range s.queued.length).filter (· ∉ gone)).map s.buffer

/-- A step does not change what is asked to be written. -/
theorem Writes.ahead (writes : Writes s s') (known : ∀ n ∈ gone, n < s.queued.length) :
    (s'.ahead gone).Perm (s.ahead gone) := by
  obtain ⟨more,queued⟩ := writes.queued
  have older : ((List.range s.queued.length).filter (· ∉ gone)).map s'.buffer =
      ((List.range s.queued.length).filter (· ∉ gone)).map s.buffer := by
    apply List.map_congr_left
    intro n member
    exact writes.buffer (List.mem_range.mp (List.mem_filter.mp member).1)
  have newer : (((List.range more.length).map (s.queued.length + ·)).filter (· ∉ gone)).map s'.buffer = more := by
    rw [List.filter_eq_self.mpr ?_,List.map_map]
    · apply List.ext_getElem
      · simp
      · intro i _ inside
        simp [State.buffer,← queued,inside]
    · intro n member
      obtain ⟨i,_,rfl⟩ := List.mem_map.mp member
      simp only [decide_eq_true_eq]
      intro old
      have below := known _ old
      omega
  have callers : (s'.callers ++ more).Perm s.callers := by
    have asked := writes.asked
    rw [← queued] at asked
    have moved : (s'.callers ++ more ++ s.queued).Perm (s.callers ++ s.queued) := by
      refine List.Perm.trans ?_ asked
      rw [List.append_assoc]
      exact List.perm_append_comm.append_left _
    exact (List.perm_append_right_iff _).mp moved
  have split : s'.ahead gone = s'.callers ++ (((List.range s.queued.length).filter (· ∉ gone)).map s.buffer ++ more) := by
    rw [State.ahead,← queued,List.length_append,List.range_add,List.filter_append,List.map_append,older,newer]
  rw [split]
  refine (List.perm_append_comm.append_left _).trans ?_
  rw [← List.append_assoc]
  exact callers.append_right _

theorem ahead_take {s : State} {gone new : List Nat} (distinct : new.Nodup)
    (each : ∀ n ∈ new, n < s.queued.length ∧ n ∉ gone) :
    (s.ahead gone).Perm (new.map s.buffer ++ s.ahead (gone ++ new)) := by
  have numbers : ((List.range s.queued.length).filter (· ∉ gone)).Perm
      (new ++ (List.range s.queued.length).filter (· ∉ gone ++ new)) := by
    rw [List.perm_ext_iff_of_nodup (List.nodup_range.filter _)]
    · intro n
      simp only [List.mem_filter,List.mem_range,List.mem_append,decide_eq_true_eq,not_or]
      constructor
      · rintro ⟨below,other⟩
        by_cases inside : n ∈ new
        · exact .inl inside
        · exact .inr ⟨below,other,inside⟩
      · rintro (inside | ⟨below,other,_⟩)
        · exact each n inside
        · exact ⟨below,other⟩
    · refine List.nodup_append.mpr ⟨distinct,List.nodup_range.filter _,?_⟩
      intro n inside m member
      simp only [List.mem_filter,List.mem_append,decide_eq_true_eq,not_or] at member
      rintro rfl
      exact member.2.2 inside
  have images := numbers.map s.buffer
  rw [List.map_append] at images
  refine (images.append_left s.callers).trans ?_
  rw [State.ahead,← List.append_assoc,← List.append_assoc]
  exact List.perm_append_comm.append_right _

theorem ahead_congr {s : State} {gone gone' : List Nat} (same : ∀ n, n ∈ gone ↔ n ∈ gone') : s.ahead gone = s.ahead gone' := by
  have members : (fun n => decide (n ∉ gone)) = fun n => decide (n ∉ gone') := by
    funext n
    rw [decide_eq_decide,same n]
  rw [State.ahead,members,State.ahead]

/-- Every buffer of the queue waits or its callback has run, and only once. -/
def Placed (s : State) : Prop :=
  (s.callbacks.map Prod.fst ++ s.items.map IOContext.number).Perm (List.range s.queued.length)

theorem Placed.keep (placed : Placed s) (queued : s'.queued = s.queued)
    (moved : (s'.callbacks.map Prod.fst ++ s'.items.map IOContext.number).Perm
      (s.callbacks.map Prod.fst ++ s.items.map IOContext.number)) : Placed s' := by
  unfold Placed
  rw [queued]
  exact moved.trans placed

theorem notify_numbers (s : State) (ioctxs : List IOContext) (rc : Bool) :
    (s.notify ioctxs rc).callbacks.map Prod.fst = s.callbacks.map Prod.fst ++ ioctxs.map IOContext.number := by
  simp [State.notify]

theorem write_placed (placed : Placed s) (job : s.job = .writing (ioctx :: rest) nwrite) (turn : Turn) :
    Placed (socketDoWrite s ioctx rest nwrite turn) := by
  have items := writing_items job
  match turn with
  | .again n =>
    refine placed.keep rfl ?_
    rw [items]
    exact .refl _
  | .returns none =>
    refine placed.keep rfl ?_
    change (((s.notify (ioctx :: rest) false).callbacks.map Prod.fst) ++ s.write_jobs_head.map IOContext.number).Perm _
    rw [notify_numbers,items]
    simp
  | .returns (some n) =>
    simp only [socketDoWrite]
    split
    · refine placed.keep rfl ?_
      rw [items]
      exact .refl _
    · split
      · refine placed.keep rfl ?_
        rw [items]
        exact .refl _
      · refine placed.keep rfl ?_
        change (((State.notify _ [ioctx] true).callbacks.map Prod.fst) ++
          ((next rest).head ++ s.write_jobs_head).map IOContext.number).Perm _
        rw [notify_numbers,next_head,items]
        simp

theorem step_placed (placed : Placed s) (taken : step s a = some s') : Placed s' := by
  cases a with
  | connWrite buf =>
    cases taken
    split
    · exact placed
    · exact placed
  | listAddTail buf =>
    simp only [step,Option.ite_none_right_eq_some] at taken
    obtain ⟨_,taken⟩ := taken
    cases taken
    have more := placed.append_right [s.queued.length]
    simpa [Placed,State.items,List.range_succ] using more
  | take =>
    cases job : s.job with
    | idle =>
      simp only [step,job,Option.some.injEq] at taken
      subst taken
      exact placed.keep rfl (by simp [State.items,job,Job.head])
    | _ => simp [step,job] at taken
  | testClosed =>
    cases job : s.job with
    | taken head =>
      simp only [step,job,Option.some.injEq] at taken
      subst taken
      split
      · refine placed.keep rfl ?_
        change ((s.notify head false).callbacks.map Prod.fst ++ s.write_jobs_head.map IOContext.number).Perm _
        rw [notify_numbers]
        simp [State.items,job,Job.head]
      · refine placed.keep rfl ?_
        simp only [State.items,next_head]
        rw [job]
        exact .refl _
    | _ => simp [step,job] at taken
  | write sent =>
    rcases job : s.job with _ | _ | ⟨_ | ⟨ioctx,rest⟩,nwrite⟩ | _
    · simp [step,job] at taken
    · simp [step,job] at taken
    · simp [step,job] at taken
    · simp only [step,job,Option.some.injEq] at taken
      subst taken
      exact write_placed placed job _
    · simp [step,job] at taken
  | leave =>
    cases job : s.job with
    | leaving head =>
      simp only [step,job,Option.some.injEq] at taken
      subst taken
      exact placed.keep rfl (by simp [State.items,job,Job.head])
    | _ => simp [step,job] at taken
  | close =>
    cases taken
    split
    · exact placed
    · exact placed
  | postIOJobs =>
    simp only [step,Option.ite_none_right_eq_some] at taken
    obtain ⟨_,taken⟩ := taken
    cases taken
    refine placed.keep rfl ?_
    change ((s.notify s.write_jobs_head false).callbacks.map Prod.fst ++ (s.job.head ++ []).map IOContext.number).Perm _
    rw [notify_numbers,List.append_nil,List.append_assoc,State.items,List.map_append]
    exact List.perm_append_comm.append_left _

/-- The buffers of the first of the callbacks that were told of a failure. -/
def State.refused (s : State) (written : Nat) : List Nat :=
  ((s.callbacks.take written).filter fun callback => !callback.2).map Prod.fst

theorem mem_refused {s : State} : n ∈ s.refused written ↔ (n,false) ∈ s.callbacks.take written := by
  simp [State.refused]

theorem Placed.called_known (placed : Placed s) (called : (n,rc) ∈ s.callbacks) : n < s.queued.length :=
  List.mem_range.mp (placed.subset (List.mem_append_left _ (List.mem_map_of_mem (f := Prod.fst) called)))

theorem Placed.refused_known (placed : Placed s) (member : n ∈ s.refused written) : n < s.queued.length := by
  exact placed.called_known (List.mem_of_mem_take (mem_refused.mp member))

theorem Placed.called_once (placed : Placed s) : (s.callbacks.map Prod.fst).Nodup :=
  (List.nodup_append.mp (placed.nodup_iff.mpr List.nodup_range)).1

theorem Placed.unrefused (placed : Placed s) (member : n ∈ s.sent) : n ∉ s.refused written := by
  intro refused
  have failed := List.mem_of_mem_take (mem_refused.mp refused)
  obtain ⟨⟨m,rc⟩,called,rfl⟩ := List.mem_map.mp member
  obtain ⟨called,sent⟩ := List.mem_filter.mp called
  have same := List.inj_on_of_nodup_map placed.called_once called failed rfl
  cases same
  cases sent

theorem Placed.unrefused_before (placed : Placed s) (called : s.callbacks[written]? = some (n,rc)) :
    n ∉ s.refused written := by
  intro refused
  have once := placed.called_once.sublist ((List.take_sublist (written + 1) _).map Prod.fst)
  rw [List.take_add_one,called,List.map_append] at once
  exact (List.nodup_append.mp once).2.2 n (List.mem_map.mpr ⟨_,mem_refused.mp refused,rfl⟩) n (by simp) rfl

theorem refused_kept {s s' : State} (grown : s.callbacks <+: s'.callbacks) (past : written ≤ s.callbacks.length) :
    s'.refused written = s.refused written := by
  obtain ⟨more,same⟩ := grown
  rw [State.refused,← same,List.take_append_of_le_length past,State.refused]

theorem refused_next {s : State} (called : s.callbacks[written]? = some (n,rc)) :
    s.refused (written + 1) = s.refused written ++ if rc then [] else [n] := by
  rw [State.refused,List.take_add_one,called]
  cases rc <;> simp [State.refused]

end Muti.SocketWrite
