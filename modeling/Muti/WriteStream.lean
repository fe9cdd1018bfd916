import Muti.Lists
import Muti.SocketWrite
import Muti.Transition

/-! Integrity of the write stream. What a connection has sent is, in the order of its queue,
the buffers whose callback was given `rc` true, and then a part of one more buffer: the one
in front of the queue, or the last one the connection writes from, as long as write(2) fails
for good when it fails in the middle of a buffer. -/
namespace Muti.SocketWrite

open Muti.Lists Muti.Transition

def Job.head : Job → List IOContext
  | .idle => []
  | .taken write_head | .writing write_head _ | .leaving write_head => write_head

def Job.written : Job → Nat
  | .writing _ nwrite => nwrite
  | _ => 0

def State.items (s : State) : List IOContext := s.job.head ++ s.write_jobs_head

def State.sent (s : State) : List Nat := (s.callbacks.filter Prod.snd).map Prod.fst

def State.buffer (s : State) (n : Nat) : List UInt8 := s.queued[n]?.getD []

def State.sentBytes (s : State) : List UInt8 := (s.sent.map s.buffer).flatten

/-- The first item has been written up to here. -/
def Front (s : State) (part : List UInt8) : Prop :=
  match s.items.head? with
  | none => part = []
  | some first => ∃ done, s.buffer first.number = done ++ first.buf ∧ done.length = first.trans_num ∧
    part = done ++ first.buf.take s.job.written

def Stopped (s : State) : Prop := s.cut = true ∨ s.is_closed = true ∧ ∀ head nwrite, s.job ≠ .writing head nwrite

/-- A part of a buffer that was not sent as a whole. -/
def Loose (s : State) (part : List UInt8) : Prop :=
  part = [] ∨ ∃ n, n < s.queued.length ∧ n ∉ s.sent ∧ part <+: s.buffer n ∧ part ≠ s.buffer n

structure Inv (s : State) : Prop where
  closes : s.closing = true → s.is_closed = true
  asked : ∀ buf ∈ s.callers, buf ≠ []
  filled : ∀ ioctx ∈ s.items, ioctx.buf ≠ []
  ordered : (s.sent ++ s.items.map IOContext.number).Pairwise (· < ·)
  known : ∀ n ∈ s.sent ++ s.items.map IOContext.number, n < s.queued.length
  whole : ∀ ioctx ∈ s.items.tail, s.buffer ioctx.number = ioctx.buf ∧ ioctx.trans_num = 0
  inside : ∀ head nwrite, s.job = .writing head nwrite → ∃ ioctx rest, head = ioctx :: rest ∧ nwrite < ioctx.buf.length
  wire : ∃ part, s.wire = s.sentBytes ++ part ∧ (Front s part ∨ Stopped s ∧ Loose s part)

/-- Only buffers with bytes are queued, and write(2) sends nothing more after it failed in
the middle of one. -/
def Final (s : State) : Action → Prop
  | .connWrite buf => buf ≠ []
  | .write (.returned n) => s.cut = true → n = 0
  | _ => True

theorem createConnection_inv : Inv createConnection where
  closes := nofun
  asked := by simp [createConnection]
  filled := by simp [State.items,createConnection,Job.head]
  ordered := by simp [State.items,State.sent,createConnection,Job.head]
  known := by simp [State.items,State.sent,createConnection,Job.head]
  whole := by simp [State.items,createConnection,Job.head]
  inside := nofun
  wire := ⟨[],rfl,.inl rfl⟩

@[simp] theorem sent_refused (s : State) (ioctxs : List IOContext) : (s.notify ioctxs false).sent = s.sent := by
  simp [State.sent,State.notify,List.filter_map]

@[simp] theorem sent_accepted (s : State) (ioctx : IOContext) : (s.notify [ioctx] true).sent = s.sent ++ [ioctx.number] := by
  simp [State.sent,State.notify]

theorem Inv.written_lt (inv : Inv s) (first : s.items = ioctx :: rest) : s.job.written < ioctx.buf.length := by
  have filled := inv.filled ioctx (by simp [first])
  cases job : s.job with
  | writing head nwrite =>
    obtain ⟨other,others,same,less⟩ := inv.inside head nwrite job
    simp only [State.items,job,Job.head,same,List.cons_append,List.cons.injEq] at first
    rw [first.1] at less
    exact less
  | _ => exact List.length_pos_of_ne_nil filled

/-- What the first item has sent is a part of its buffer, which was not sent as a whole. -/
theorem Inv.begun (inv : Inv s) (front : Front s part) (items : s.items = first :: rest) :
    first.number < s.queued.length ∧ first.number ∉ s.sent ∧ part <+: s.buffer first.number ∧
      part ≠ s.buffer first.number := by
  have less := inv.written_lt items
  have known := inv.known first.number (by simp [items])
  have ordered := inv.ordered
  simp only [Front,items,List.head?_cons] at front
  obtain ⟨done,whole,_,rfl⟩ := front
  refine ⟨known,?_,?_,?_⟩
  · intro before
    rw [List.pairwise_append] at ordered
    have later := ordered.2.2 _ before first.number (by simp [items])
    omega
  · rw [whole,List.prefix_append_right_inj]
    exact List.take_prefix ..
  · intro all
    have lengths := congrArg List.length (all.trans whole)
    simp at lengths
    omega

theorem Inv.loose (inv : Inv s) (front : Front s part) : Loose s part := by
  cases items : s.items with
  | nil =>
    simp only [Front,items,List.head?_nil] at front
    exact .inl front
  | cons first rest => exact .inr ⟨first.number,inv.begun front items⟩

theorem sentBytes_congr {s s' : State} (queued : s'.queued = s.queued) (sent : s'.sent = s.sent) : s'.sentBytes = s.sentBytes := by
  have buffer : s'.buffer = s.buffer := by
    funext n
    simp [State.buffer,queued]
  simp [State.sentBytes,sent,buffer]

/-- Untouched items can be first at any time. -/
theorem front_untouched {s : State} (unwritten : s.job.written = 0)
    (untouched : ∀ ioctx ∈ s.items, s.buffer ioctx.number = ioctx.buf ∧ ioctx.trans_num = 0) : Front s [] := by
  cases items : s.items with
  | nil => simp [Front,items]
  | cons first rest =>
    obtain ⟨whole,none⟩ := untouched first (by simp [items])
    simp [Front,items,whole,none,unwritten]

/-- Nothing of the items has been sent when nothing of the first one has. -/
theorem Inv.untouched (inv : Inv s) (front : Front s part) (unwritten : s.job.written = 0)
    (none : ∀ ioctx ∈ s.items.head?, ioctx.trans_num = 0) :
    part = [] ∧ ∀ ioctx ∈ s.items, s.buffer ioctx.number = ioctx.buf ∧ ioctx.trans_num = 0 := by
  cases items : s.items with
  | nil =>
    simp only [Front,items,List.head?_nil] at front
    exact ⟨front,by simp⟩
  | cons first rest =>
    have new := none first (by simp [items])
    simp only [Front,items,List.head?_cons] at front
    obtain ⟨done,buffer,length,rfl⟩ := front
    obtain rfl : done = [] := List.length_eq_zero_iff.mp (length.trans new)
    refine ⟨by simp [unwritten],?_⟩
    intro ioctx member
    rcases List.mem_cons.mp member with rfl | member
    · exact ⟨buffer,new⟩
    · exact inv.whole ioctx (by simpa [items] using member)

/-- Items may be given up from behind, from the front when nothing is sent any more, and
before the first one has sent anything. -/
theorem Inv.keep (inv : Inv s) (closes : s'.closing = true → s'.is_closed = true) (asked : ∀ buf ∈ s'.callers, buf ∈ s.callers ∨ buf ≠ []) (queued : s'.queued = s.queued)
    (sent : s'.sent = s.sent) (wire : s'.wire = s.wire) (fewer : s'.items.Sublist s.items)
    (tails : ∀ ioctx ∈ s'.items.tail, ioctx ∈ s.items.tail)
    (first : s'.items.head? = s.items.head? ∧ s'.job.written = s.job.written ∨ Stopped s' ∨
      s'.job.written = 0 ∧ s.job.written = 0 ∧ ∀ ioctx ∈ s.items.head?, ioctx.trans_num = 0)
    (inside : ∀ head nwrite, s'.job = .writing head nwrite → ∃ ioctx rest, head = ioctx :: rest ∧ nwrite < ioctx.buf.length)
    (stopped : Stopped s → Stopped s') : Inv s' := by
  have buffer : ∀ n, s'.buffer n = s.buffer n := by simp [State.buffer,queued]
  have fewerNumbers : (s'.sent ++ s'.items.map IOContext.number).Sublist (s.sent ++ s.items.map IOContext.number) := by
    rw [sent]
    exact (List.Sublist.refl _).append (fewer.map _)
  have loosely : ∀ part, Loose s part → Loose s' part := by
    intro part loose
    simp only [Loose,queued,sent,buffer]
    exact loose
  refine ⟨closes,?_,?_,?_,?_,?_,inside,?_⟩
  · intro buf asks
    rcases asked buf asks with older | filled
    · exact inv.asked buf older
    · exact filled
  · intro ioctx member
    exact inv.filled ioctx (fewer.subset member)
  · exact inv.ordered.sublist fewerNumbers
  · intro n member
    rw [queued]
    exact inv.known n (fewerNumbers.subset member)
  · intro ioctx member
    rw [buffer]
    exact inv.whole ioctx (tails ioctx member)
  · obtain ⟨part,sends,state⟩ := inv.wire
    refine ⟨part,?_,?_⟩
    · rw [wire,sends,sentBytes_congr queued sent]
    · rcases state with front | ⟨stop,loose⟩
      · rcases first with ⟨same,written⟩ | stop | ⟨unwritten,none,untouched⟩
        · simp only [Front,← same,← written] at front
          simp only [Front,buffer]
          exact .inl front
        · exact .inr ⟨stop,loosely part (inv.loose front)⟩
        · obtain ⟨rfl,whole⟩ := inv.untouched front none untouched
          refine .inl (front_untouched unwritten ?_)
          intro ioctx member
          rw [buffer]
          exact whole ioctx (fewer.subset member)
      · exact .inr ⟨stopped stop,loosely part loose⟩

theorem Inv.unwritten (inv : Inv s) (none : s.items = []) : s.job.written = 0 := by
  cases job : s.job with
  | writing head nwrite =>
    obtain ⟨other,others,rfl,_⟩ := inv.inside head nwrite job
    simp [State.items,job,Job.head] at none
  | _ => rfl

theorem listAddTail_inv (inv : Inv s) (asked : buf ∈ s.callers) :
    Inv { s with
      callers := s.callers.erase buf
      queued := s.queued ++ [buf]
      write_jobs_head := s.write_jobs_head ++ [⟨s.queued.length,buf,0⟩] } := by
  let s' : State := { s with
    callers := s.callers.erase buf
    queued := s.queued ++ [buf]
    write_jobs_head := s.write_jobs_head ++ [⟨s.queued.length,buf,0⟩] }
  have items : s'.items = s.items ++ [⟨s.queued.length,buf,0⟩] := (List.append_assoc ..).symm
  have old : ∀ n, n < s.queued.length → s'.buffer n = s.buffer n := by
    intro n below
    simp [State.buffer,s',List.getElem?_append,below]
  have new : s'.buffer s.queued.length = buf := by simp [State.buffer,s']
  have knownItems : ∀ ioctx ∈ s.items, s'.buffer ioctx.number = s.buffer ioctx.number := by
    intro ioctx member
    exact old _ (inv.known _ (List.mem_append_right _ (List.mem_map_of_mem member)))
  have sentBytes : s'.sentBytes = s.sentBytes := by
    have same : s.sent.map s'.buffer = s.sent.map s.buffer := by
      apply List.map_congr_left
      intro n member
      exact old n (inv.known n (List.mem_append_left _ member))
    exact congrArg List.flatten same
  refine (show Inv s' from ⟨inv.closes,?_,?_,?_,?_,?_,inv.inside,?_⟩)
  · intro other asks
    exact inv.asked other (List.mem_of_mem_erase asks)
  · intro ioctx member
    rw [items] at member
    rcases List.mem_append.mp member with member | last
    · exact inv.filled ioctx member
    · obtain rfl := List.mem_singleton.mp last
      exact inv.asked buf asked
  · rw [items,List.map_append,← List.append_assoc]
    apply List.pairwise_append.mpr
    refine ⟨inv.ordered,List.pairwise_singleton ..,?_⟩
    intro n member m last
    obtain rfl := List.mem_singleton.mp last
    exact inv.known n member
  · intro n member
    change n < (s.queued ++ [buf]).length
    rw [items,List.map_append,← List.append_assoc] at member
    rw [List.length_append]
    rcases List.mem_append.mp member with member | last
    · have below := inv.known n member
      omega
    · obtain rfl := List.mem_singleton.mp last
      simp
  · intro ioctx member
    rw [items] at member
    cases first : s.items with
    | nil => simp [first] at member
    | cons other others =>
      rw [first,List.cons_append,List.tail_cons] at member
      rcases List.mem_append.mp member with member | last
      · have whole := inv.whole ioctx (by simpa [first] using member)
        rw [knownItems ioctx (by simp [first,member])]
        exact whole
      · obtain rfl := List.mem_singleton.mp last
        exact ⟨new,rfl⟩
  · obtain ⟨part,sends,state⟩ := inv.wire
    refine ⟨part,sends.trans (congrArg (· ++ part) sentBytes.symm),?_⟩
    rcases state with front | ⟨stop,loose⟩
    · cases first : s.items with
      | nil =>
        simp only [Front,first,List.head?_nil] at front
        subst front
        refine .inl (front_untouched (s := s') (inv.unwritten first) ?_)
        intro ioctx member
        rw [items,first] at member
        obtain rfl := List.mem_singleton.mp member
        exact ⟨new,rfl⟩
      | cons other others =>
        simp only [Front,first,List.head?_cons] at front
        rw [← knownItems other (by simp [first])] at front
        refine .inl ?_
        simp only [Front,items,first,List.cons_append,List.head?_cons]
        exact front
    · refine .inr ⟨stop,?_⟩
      rcases loose with none | ⟨n,below,unsent,begins,proper⟩
      · exact .inl none
      · rw [← old n below] at begins proper
        have later : n < s'.queued.length := by
          simp only [s',List.length_append]
          omega
        exact .inr ⟨n,later,unsent,begins,proper⟩

theorem next_head (head : List IOContext) : (next head).head = head := by
  cases head with
  | nil => rfl
  | cons ioctx rest =>
    by_cases empty : ioctx.buf = [] <;> simp [next,empty,Job.head]

theorem next_written (head : List IOContext) : (next head).written = 0 := by
  cases head with
  | nil => rfl
  | cons ioctx rest =>
    by_cases empty : ioctx.buf = [] <;> simp [next,empty,Job.written]

theorem next_inside (starts : next head = .writing others nwrite) :
    ∃ ioctx rest, others = ioctx :: rest ∧ nwrite < ioctx.buf.length := by
  cases head with
  | nil => cases starts
  | cons ioctx rest =>
    by_cases empty : ioctx.buf = []
    · simp [next,empty] at starts
    · simp only [next,if_neg empty,Job.writing.injEq] at starts
      obtain ⟨rfl,rfl⟩ := starts
      exact ⟨ioctx,rest,rfl,List.length_pos_of_ne_nil empty⟩

theorem writing_items {s : State} (job : s.job = .writing (ioctx :: rest) nwrite) :
    s.items = ioctx :: (rest ++ s.write_jobs_head) := by
  simp [State.items,job,Job.head]

theorem failed_inv (inv : Inv s) (job : s.job = .writing (ioctx :: rest) nwrite) :
    Inv (socketDoWrite s ioctx rest nwrite (.returns none)) := by
  have items := writing_items job
  have written : s.job.written = nwrite := by simp [job,Job.written]
  have left : (socketDoWrite s ioctx rest nwrite (.returns none)).items = s.write_jobs_head := rfl
  refine inv.keep inv.closes (fun _ asks => .inl asks) rfl (sent_refused s (ioctx :: rest)) rfl ?_ ?_ ?_ nofun ?_
  · rw [left,items,← List.cons_append]
    exact List.sublist_append_right ..
  · rw [left,items]
    intro other member
    exact List.mem_append_right _ (List.mem_of_mem_tail member)
  · by_cases none : ioctx.trans_num + nwrite = 0
    · refine .inr (.inr ⟨rfl,by omega,?_⟩)
      rw [items]
      intro other first
      obtain rfl := Option.some.inj first
      omega
    · refine .inr (.inl (.inl ?_))
      have some : 0 < ioctx.trans_num + nwrite := Nat.pos_of_ne_zero none
      simp [socketDoWrite,some]
  · rintro (cut | ⟨_,idle⟩)
    · exact .inl (by simp [socketDoWrite,cut])
    · exact absurd job (idle _ _)

/-- A job that writes has not stopped, but for an error in the middle of a buffer. -/
theorem Inv.going (inv : Inv s) (going : s.cut = false) (job : s.job = .writing head nwrite) :
    ∃ part, s.wire = s.sentBytes ++ part ∧ Front s part := by
  obtain ⟨part,sends,front | ⟨cut | ⟨_,idle⟩,_⟩⟩ := inv.wire
  · exact ⟨part,sends,front⟩
  · rw [going] at cut
    cases cut
  · exact absurd job (idle _ _)

theorem accepted_inv (inv : Inv s) (going : s.cut = false) (job : s.job = .writing (ioctx :: rest) nwrite) :
    Inv (socketDoWrite s ioctx rest nwrite (.returns (some ioctx.buf.length))) := by
  have items := writing_items job
  have less := inv.written_lt items
  have filled : ioctx.buf.length ≠ 0 := by omega
  have written : s.job.written = nwrite := by simp [job,Job.written]
  let sends : State := { s with wire := s.wire ++ (ioctx.buf.take ioctx.buf.length).drop nwrite }
  let s' : State := { sends.notify [ioctx] true with job := next rest }
  have result : socketDoWrite s ioctx rest nwrite (.returns (some ioctx.buf.length)) = s' := by
    simp only [socketDoWrite,if_neg filled,if_neg (Nat.lt_irrefl _)]
    rfl
  have left : s'.items = s.items.tail := by
    change (next rest).head ++ s.write_jobs_head = s.items.tail
    rw [next_head,items]
    rfl
  have sent : s'.sent = s.sent ++ [ioctx.number] := sent_accepted s ioctx
  have moved : s'.sent ++ s'.items.map IOContext.number = s.sent ++ s.items.map IOContext.number := by
    rw [sent,left,items]
    simp
  rw [result]
  refine ⟨inv.closes,inv.asked,?_,?_,?_,?_,fun _ _ starts => next_inside starts,?_⟩
  · rw [left]
    exact fun other member => inv.filled other (List.mem_of_mem_tail member)
  · rw [moved]
    exact inv.ordered
  · rw [moved]
    exact inv.known
  · rw [left]
    exact fun other member => inv.whole other (List.mem_of_mem_tail member)
  · obtain ⟨part,before,front⟩ := inv.going going job
    simp only [Front,items,List.head?_cons,written] at front
    obtain ⟨done,buffer,_,rfl⟩ := front
    refine ⟨[],?_,.inl (front_untouched (next_written rest) ?_)⟩
    · have sentBytes : s'.sentBytes = s.sentBytes ++ s.buffer ioctx.number := by
        change (s'.sent.map s.buffer).flatten = _
        simp [sent,State.sentBytes]
      change s.wire ++ (ioctx.buf.take ioctx.buf.length).drop nwrite = s'.sentBytes ++ []
      rw [sentBytes,before,buffer,List.take_length]
      simp [List.take_append_drop]
    · rw [left]
      exact inv.whole

theorem again_inv (inv : Inv s) (job : s.job = .writing (ioctx :: rest) nwrite) (more : nwrite ≤ n)
    (less : n < ioctx.buf.length) (final : s.cut = true → n = nwrite) :
    Inv (socketDoWrite s ioctx rest nwrite (.again n)) := by
  have items := writing_items job
  have written : s.job.written = nwrite := by simp [job,Job.written]
  have left : (socketDoWrite s ioctx rest nwrite (.again n)).items = s.items := items.symm
  refine ⟨inv.closes,inv.asked,?_,?_,?_,?_,?_,?_⟩
  · rw [left]
    exact inv.filled
  · rw [left]
    exact inv.ordered
  · rw [left]
    exact inv.known
  · rw [left]
    exact inv.whole
  · intro head m starts
    cases starts
    exact ⟨ioctx,rest,rfl,less⟩
  · by_cases cut : s.cut = true
    · obtain rfl := final cut
      obtain ⟨part,before,state⟩ := inv.wire
      refine ⟨part,?_,?_⟩
      · change s.wire ++ (ioctx.buf.take n).drop n = s.sentBytes ++ part
        rw [before,List.drop_eq_nil_of_le (List.length_take_le ..),List.append_nil]
      · rcases state with front | ⟨_,loose⟩
        · simp only [Front,items,List.head?_cons,written] at front
          simp only [Front,left,items,List.head?_cons]
          exact .inl front
        · exact .inr ⟨.inl cut,loose⟩
    · obtain ⟨part,before,front⟩ := inv.going (by simpa using cut) job
      simp only [Front,items,List.head?_cons,written] at front
      obtain ⟨done,buffer,length,rfl⟩ := front
      refine ⟨done ++ ioctx.buf.take n,?_,.inl ?_⟩
      · change s.wire ++ (ioctx.buf.take n).drop nwrite = s.sentBytes ++ (done ++ ioctx.buf.take n)
        have parts : ioctx.buf.take nwrite ++ (ioctx.buf.take n).drop nwrite = ioctx.buf.take n := by
          have shorter : (ioctx.buf.take n).take nwrite = ioctx.buf.take nwrite := by
            rw [List.take_take,Nat.min_eq_left more]
          rw [← shorter,List.take_append_drop]
        rw [before,List.append_assoc,List.append_assoc,parts]
      · simp only [Front,left,items,List.head?_cons]
        exact ⟨done,buffer,length,rfl⟩

theorem wouldBlock_inv (inv : Inv s) (job : s.job = .writing (ioctx :: rest) nwrite) :
    Inv (socketDoWrite s ioctx rest nwrite (.returns (some nwrite))) := by
  have items := writing_items job
  have written : s.job.written = nwrite := by simp [job,Job.written]
  have less := inv.written_lt items
  rw [written] at less
  have nothing : (ioctx.buf.take nwrite).drop nwrite = [] := List.drop_eq_nil_of_le (List.length_take_le ..)
  by_cases none : nwrite = 0
  · simp only [socketDoWrite,if_pos none,nothing,List.append_nil]
    have left : State.items { s with job := .leaving (ioctx :: rest) } = s.items := items.symm
    refine inv.keep inv.closes (fun _ asks => .inl asks) rfl rfl rfl ?_ ?_ ?_ nofun ?_
    · rw [left]
    · rw [left]
      exact fun _ member => member
    · rw [left]
      exact .inl ⟨rfl,(written.trans none).symm⟩
    · rintro (cut | ⟨closed,_⟩)
      · exact .inl cut
      · exact .inr ⟨closed,nofun⟩
  · simp only [socketDoWrite,if_neg none,if_pos less,nothing,List.append_nil]
    let shorter : IOContext := { ioctx with buf := ioctx.buf.drop nwrite, trans_num := ioctx.trans_num + nwrite }
    let s' : State := { s with job := .leaving (shorter :: rest) }
    have left : s'.items = shorter :: s.items.tail := by
      rw [items]
      rfl
    have numbers : s'.items.map IOContext.number = s.items.map IOContext.number := by
      rw [left,items]
      rfl
    refine (show Inv s' from ⟨inv.closes,inv.asked,?_,?_,?_,?_,nofun,?_⟩)
    · rw [left]
      intro other member
      rcases List.mem_cons.mp member with rfl | member
      · intro none
        have lengths := congrArg List.length none
        simp [shorter] at lengths
        omega
      · exact inv.filled other (List.mem_of_mem_tail member)
    · rw [numbers]
      exact inv.ordered
    · rw [numbers]
      exact inv.known
    · rw [left]
      exact inv.whole
    · obtain ⟨part,before,state⟩ := inv.wire
      refine ⟨part,before,?_⟩
      rcases state with front | ⟨cut | ⟨_,idle⟩,loose⟩
      · simp only [Front,items,List.head?_cons,written] at front
        obtain ⟨done,buffer,length,rfl⟩ := front
        simp only [Front,left,List.head?_cons]
        refine .inl ⟨done ++ ioctx.buf.take nwrite,?_,?_,?_⟩
        · change s.buffer ioctx.number = done ++ ioctx.buf.take nwrite ++ ioctx.buf.drop nwrite
          rw [buffer,List.append_assoc,List.take_append_drop]
        · change (done ++ ioctx.buf.take nwrite).length = ioctx.trans_num + nwrite
          rw [List.length_append,length,List.length_take]
          omega
        · simp [s',Job.written]
      · exact .inr ⟨.inl cut,loose⟩
      · exact absurd job (idle _ _)

/-- One write(2) and what the job does then. -/
theorem write_inv (inv : Inv s) (final : Final s (.write sent)) (job : s.job = .writing (ioctx :: rest) nwrite) :
    Inv (socketDoWrite s ioctx rest nwrite (socketNoneBlockWrite ioctx.buf.length nwrite sent)) := by
  have less := inv.written_lt (writing_items job)
  have written : s.job.written = nwrite := by simp [job,Job.written]
  rw [written] at less
  cases sent with
  | returned n =>
    simp only [Final] at final
    by_cases none : min n (ioctx.buf.length - nwrite) = 0
    · simp only [socketNoneBlockWrite,if_pos none]
      exact failed_inv inv job
    · have going : s.cut ≠ true := by
        intro cut
        have zero := final cut
        simp [zero] at none
      by_cases all : nwrite + min n (ioctx.buf.length - nwrite) = ioctx.buf.length
      · simp only [socketNoneBlockWrite,if_neg none,if_pos all]
        exact accepted_inv inv (by simpa using going) job
      · simp only [socketNoneBlockWrite,if_neg none,if_neg all]
        exact again_inv inv job (by omega) (by omega) (fun cut => absurd cut going)
  | interrupted => exact again_inv inv job (Nat.le_refl _) less (fun _ => rfl)
  | wouldBlock => exact wouldBlock_inv inv job
  | failed => exact failed_inv inv job

theorem step_inv (inv : Inv s) (final : Final s a) (taken : step s a = some s') : Inv s' := by
  cases a with
  | connWrite buf =>
    by_cases closed : s.is_closed = true
    · simp only [step,if_pos closed,Option.some.injEq] at taken
      subst taken
      exact inv
    · simp only [step,if_neg closed,Option.some.injEq] at taken
      subst taken
      refine inv.keep inv.closes ?_ rfl rfl rfl (List.Sublist.refl _) (fun _ member => member) (.inl ⟨rfl,rfl⟩) inv.inside id
      intro other asks
      rcases List.mem_cons.mp asks with rfl | asks
      · exact .inr final
      · exact .inl asks
  | listAddTail buf =>
    simp only [step,Option.ite_none_right_eq_some] at taken
    obtain ⟨asked,taken⟩ := taken
    cases taken
    exact listAddTail_inv inv asked
  | take =>
    cases job : s.job with
    | idle =>
      simp [step,job] at taken
      subst taken
      have items : s.items = s.write_jobs_head := by simp [State.items,job,Job.head]
      have same : State.items { s with job := .taken s.write_jobs_head, write_jobs_head := [] } = s.items := by
        simp [State.items,job,Job.head]
      refine inv.keep inv.closes (fun _ asks => .inl asks) rfl rfl rfl ?_ ?_ ?_ nofun ?_
      · rw [same]
      · rw [same]
        exact fun _ member => member
      · rw [same]
        exact .inl ⟨rfl,by simp [job,Job.written]⟩
      · rintro (cut | ⟨closed,_⟩)
        · exact .inl cut
        · exact .inr ⟨closed,nofun⟩
    | _ => simp [step,job] at taken
  | testClosed =>
    cases job : s.job with
    | taken head =>
      have items : s.items = head ++ s.write_jobs_head := by simp [State.items,job,Job.head]
      have written : s.job.written = 0 := by simp [job,Job.written]
      by_cases closed : s.is_closed = true
      · simp only [step,job,if_pos closed,Option.some.injEq] at taken
        subst taken
        have left : State.items { s.notify head false with job := .idle } = s.write_jobs_head := rfl
        refine inv.keep inv.closes (fun _ asks => .inl asks) rfl (sent_refused s head) rfl ?_ ?_ ?_ nofun ?_
        · rw [left,items]
          exact List.sublist_append_right ..
        · rw [left,items]
          exact fun _ member => mem_tail_append_right head member
        · exact .inr (.inl (.inr ⟨closed,nofun⟩))
        · exact fun _ => .inr ⟨closed,nofun⟩
      · simp only [step,job,if_neg closed,Option.some.injEq] at taken
        subst taken
        have left : State.items { s with job := next head } = s.items := by
          rw [items]
          simp [State.items,next_head]
        refine inv.keep inv.closes (fun _ asks => .inl asks) rfl rfl rfl ?_ ?_ ?_ (fun _ _ starts => next_inside starts) ?_
        · rw [left]
        · rw [left]
          exact fun _ member => member
        · rw [left]
          exact .inl ⟨rfl,(next_written head).trans written.symm⟩
        · rintro (cut | ⟨yes,_⟩)
          · exact .inl cut
          · exact absurd yes closed
    | _ => simp [step,job] at taken
  | write sent =>
    cases job : s.job with
    | writing head nwrite =>
      obtain ⟨ioctx,rest,rfl,_⟩ := inv.inside head nwrite job
      simp only [step,job,Option.some.injEq] at taken
      subst taken
      exact write_inv inv final job
    | _ => simp [step,job] at taken
  | leave =>
    cases job : s.job with
    | leaving head =>
      simp only [step,job,Option.some.injEq] at taken
      subst taken
      have items : s.items = head ++ s.write_jobs_head := by simp [State.items,job,Job.head]
      have left : State.items { s with job := .idle, write_jobs_head := head ++ s.write_jobs_head } = s.items := items.symm
      refine inv.keep inv.closes (fun _ asks => .inl asks) rfl rfl rfl ?_ ?_ ?_ nofun ?_
      · rw [left]
      · rw [left]
        exact fun _ member => member
      · rw [left]
        exact .inl ⟨rfl,by simp [job,Job.written]⟩
      · rintro (cut | ⟨closed,_⟩)
        · exact .inl cut
        · exact .inr ⟨closed,nofun⟩
    | _ => simp [step,job] at taken
  | close =>
    by_cases closed : s.is_closed = true
    · simp only [step,if_pos closed,Option.some.injEq] at taken
      subst taken
      exact inv
    · simp only [step,if_neg closed,Option.some.injEq] at taken
      subst taken
      refine inv.keep (fun _ => rfl) (fun _ asks => .inl asks) rfl rfl rfl (List.Sublist.refl _) (fun _ member => member)
        (.inl ⟨rfl,rfl⟩) inv.inside ?_
      rintro (cut | ⟨_,idle⟩)
      · exact .inl cut
      · exact .inr ⟨rfl,idle⟩
  | postIOJobs =>
    simp only [step,Option.ite_none_right_eq_some] at taken
    obtain ⟨closing,taken⟩ := taken
    cases taken
    have left : State.items { s.notify s.write_jobs_head false with write_jobs_head := [], closing := false } = s.job.head :=
      List.append_nil ..
    refine inv.keep nofun (fun _ asks => .inl asks) rfl (sent_refused s s.write_jobs_head) rfl ?_ ?_ ?_ inv.inside id
    · rw [left]
      exact List.sublist_append_left ..
    · rw [left]
      exact fun _ member => mem_tail_append_left member _
    · by_cases idle : ∀ head nwrite, s.job ≠ .writing head nwrite
      · exact .inr (.inl (.inr ⟨inv.closes closing,idle⟩))
      · push Not at idle
        obtain ⟨head,nwrite,job⟩ := idle
        obtain ⟨ioctx,rest,rfl,_⟩ := inv.inside head nwrite job
        rw [left,writing_items job,job]
        exact .inl ⟨rfl,congrArg Job.written job⟩

theorem again_wire (s : State) (ioctx : IOContext) (nwrite : Nat) : s.wire ++ (ioctx.buf.take nwrite).drop nwrite = s.wire := by
  rw [List.drop_eq_nil_of_le (List.length_take_le ..),List.append_nil]

/-- A connection that has stopped sends nothing more. -/
theorem step_stopped (stopped : Stopped s) (final : Final s a) (taken : step s a = some s') :
    Stopped s' ∧ s'.wire = s.wire := by
  cases a with
  | connWrite buf =>
    by_cases closed : s.is_closed = true
    · simp only [step,if_pos closed,Option.some.injEq] at taken
      subst taken
      exact ⟨stopped,rfl⟩
    · simp only [step,if_neg closed,Option.some.injEq] at taken
      subst taken
      exact ⟨stopped,rfl⟩
  | listAddTail buf | postIOJobs =>
    simp only [step,Option.ite_none_right_eq_some] at taken
    obtain ⟨_,taken⟩ := taken
    cases taken
    exact ⟨stopped,rfl⟩
  | take =>
    cases job : s.job with
    | idle =>
      simp only [step,job,Option.some.injEq] at taken
      subst taken
      exact ⟨stopped.imp id fun closed => ⟨closed.1,nofun⟩,rfl⟩
    | _ => simp [step,job] at taken
  | testClosed =>
    cases job : s.job with
    | taken head =>
      by_cases closed : s.is_closed = true
      · simp only [step,job,if_pos closed,Option.some.injEq] at taken
        subst taken
        exact ⟨stopped.imp id fun _ => ⟨closed,nofun⟩,rfl⟩
      · simp only [step,job,if_neg closed,Option.some.injEq] at taken
        subst taken
        exact ⟨stopped.imp id fun yes => absurd yes.1 closed,rfl⟩
    | _ => simp [step,job] at taken
  | write sent =>
    rcases job : s.job with _ | _ | ⟨_ | ⟨ioctx,rest⟩,nwrite⟩ | _
    · simp [step,job] at taken
    · simp [step,job] at taken
    · simp [step,job] at taken
    · rcases stopped with cut | ⟨_,idle⟩
      · simp only [step,job,Option.some.injEq] at taken
        subst taken
        cases sent with
        | returned n =>
          simp only [Final] at final
          have none := final cut
          subst none
          simp [socketNoneBlockWrite,socketDoWrite,Stopped,State.notify,cut]
        | interrupted => exact ⟨.inl cut,again_wire s ioctx nwrite⟩
        | wouldBlock =>
          simp only [socketNoneBlockWrite,socketDoWrite,again_wire]
          split
          · exact ⟨.inl cut,rfl⟩
          · split <;> exact ⟨.inl cut,rfl⟩
        | failed => simp [socketNoneBlockWrite,socketDoWrite,Stopped,State.notify,cut]
      · exact absurd job (idle _ _)
    · simp [step,job] at taken
  | leave =>
    cases job : s.job with
    | leaving head =>
      simp only [step,job,Option.some.injEq] at taken
      subst taken
      exact ⟨stopped.imp id fun closed => ⟨closed.1,nofun⟩,rfl⟩
    | _ => simp [step,job] at taken
  | close =>
    by_cases closed : s.is_closed = true
    · simp only [step,if_pos closed,Option.some.injEq] at taken
      subst taken
      exact ⟨stopped,rfl⟩
    · simp only [step,if_neg closed,Option.some.injEq] at taken
      subst taken
      exact ⟨stopped.imp id fun yes => absurd yes.1 closed,rfl⟩

theorem stopped_for_good (stopped : Stopped s) (later : Reachable step Final s s') : s'.wire = s.wire := by
  have kept : Stopped s' ∧ s'.wire = s.wire := by
    apply later.invariant ⟨stopped,rfl⟩
    intro middle a last before final taken
    obtain ⟨stops,same⟩ := step_stopped before.1 final taken
    exact ⟨stops,same.trans before.2⟩
  exact kept.2

theorem reachable_inv (reachable : Reachable step Final createConnection s) : Inv s :=
  reachable.invariant createConnection_inv fun _ _ _ inv final taken => step_inv inv final taken

/-- Between two jobs, the kernel has accepted the buffers whose callback was given `rc` true,
in the order of the queue, and a proper prefix of at most one more, which waits in front of
the queue or is the last one the connection writes from. -/
theorem write_stream_integrity (reachable : Reachable step Final createConnection s) (between : s.job = .idle) :
    s.sent.Pairwise (· < ·) ∧ ∃ part, s.wire = s.sentBytes ++ part ∧
      (part = [] ∨ ∃ n, n < s.queued.length ∧ n ∉ s.sent ∧ part <+: s.buffer n ∧ part ≠ s.buffer n ∧
        (s.write_jobs_head.head?.map IOContext.number = some n ∨
          ∀ s', Reachable step Final s s' → s'.wire = s.wire)) := by
  have inv := reachable_inv reachable
  refine ⟨(List.pairwise_append.mp inv.ordered).1,?_⟩
  obtain ⟨part,sends,state⟩ := inv.wire
  refine ⟨part,sends,?_⟩
  rcases state with front | ⟨stop,none | ⟨n,below,unsent,begins,proper⟩⟩
  · have waiting : s.items = s.write_jobs_head := by simp [State.items,between,Job.head]
    cases items : s.items with
    | nil =>
      simp only [Front,items,List.head?_nil] at front
      exact .inl front
    | cons first rest =>
      obtain ⟨below,unsent,begins,proper⟩ := inv.begun front items
      exact .inr ⟨first.number,below,unsent,begins,proper,.inl (by simp [← waiting,items])⟩
  · exact .inl none
  · exact .inr ⟨n,below,unsent,begins,proper,.inr fun _ later => stopped_for_good stop later⟩

instance (s : State) : (a : Action) → Decidable (Final s a)
  | .connWrite buf => inferInstanceAs (Decidable (buf ≠ []))
  | .write (.returned n) => inferInstanceAs (Decidable (s.cut = true → n = 0))
  | .write .interrupted | .write .wouldBlock | .write .failed | .listAddTail _ | .take | .testClosed | .leave
  | .close | .postIOJobs => inferInstanceAs (Decidable True)

/-- A job sends one buffer and a part of another, which waits then. -/
def shortWrite : List Action :=
  [.connWrite [1,2],.listAddTail [1,2],.connWrite [3,4,5],.listAddTail [3,4,5],.take,.testClosed,.write (.returned 2),
    .write .interrupted,.write (.returned 1),.write .wouldBlock,.leave]

theorem write_stream_integrity_short :
    ∃ s, execute step createConnection shortWrite = some s ∧ s.sent.Pairwise (· < ·) ∧
      ∃ part, s.wire = s.sentBytes ++ part ∧
        (part = [] ∨ ∃ n, n < s.queued.length ∧ n ∉ s.sent ∧ part <+: s.buffer n ∧ part ≠ s.buffer n ∧
          (s.write_jobs_head.head?.map IOContext.number = some n ∨
            ∀ s', Reachable step Final s s' → s'.wire = s.wire)) := by
  have permitted : Permitted step Final createConnection shortWrite := by decide
  have reachable := Reachable.start.execute shortWrite permitted rfl
  exact ⟨_,rfl,write_stream_integrity reachable rfl⟩

/-- write(2) accepts a byte of a buffer and fails; the next job writes another buffer. -/
def resumed : List Action :=
  [.connWrite [1,2],.listAddTail [1,2],.take,.testClosed,.write (.returned 1),.write .failed,
    .connWrite [3],.listAddTail [3],.take,.testClosed,.write (.returned 1),.leave]

/-- The kernel has a byte of a buffer that was given up in front of one that was sent. -/
theorem write_stream_broken : ∃ s, Reachable step (fun _ _ => True) createConnection s ∧ s.job = .idle ∧
    s.wire = [1,3] ∧ s.sentBytes = [3] ∧ ¬∃ part, s.wire = s.sentBytes ++ part := by
  refine ⟨_,Reachable.start.run resumed rfl,rfl,rfl,rfl,?_⟩
  rintro ⟨part,sends⟩
  cases sends

end Muti.SocketWrite
