import Muti.Reassembly

/-! The account of a client's calls: which of them are over, and what is still under way for
each of those that wait in its slots. -/
namespace Muti.RemoteCall

open Muti.Bytes Muti.Resource Muti.Framing Muti.ReadBuffer Muti.Object Muti.Cluster Muti.Server
  Muti.Client Muti.Reassembly

inductive Service where
  | mon
  | os
  deriving DecidableEq

def Service.request_handler : Service → List RequestHandler
  | .mon => monHandlers
  | .os => osHandlers

def Service.response_decoders : Service → List (Decoder Reply)
  | .mon => clusterResponseDecoder
  | .os => objectResponseDecoder

/-- Both headers have the sequence at the same place. -/
def sequenceOf (bytes : List UInt8) : UInt32 := field32 4 bytes

def Service.decoder (service : Service) (request : List UInt8) : Option (Decoder Reply) :=
  service.response_decoders[(field16 2 request).toNat]?

/-- A response to a request: of its kind, under its sequence. -/
def Replies (service : Service) (request response : List UInt8) : Prop :=
  ∃ decoder, service.decoder request = some decoder ∧ Responds decoder (sequenceOf request) response

def listAddTail (slots : WaitingHashSlots) (send_arg : ClientSendArg) : WaitingHashSlots :=
  Function.update slots (Client.hash send_arg.sequence) (slots (Client.hash send_arg.sequence) ++ [send_arg])

def Waits (calls : List (List UInt8)) (slots : WaitingHashSlots) (request : List UInt8) : Prop :=
  ∃ a ∈ slots (Client.hash (sequenceOf request)), a.sequence = sequenceOf request ∧ calls[a.arg]? = some request

/-- The client's account of its calls, numbered by `arg`: those that are over, and those
that wait, each for a request that may still be served or a response that may still come. -/
structure Ledger (service : Service) (calls : List (List UInt8)) (answers : List (SRequest × List UInt8))
    (slots : WaitingHashSlots) (ended : List Nat) (asked replied : List (List UInt8)) : Prop where
  home : ∀ i, ∀ a ∈ slots i, Client.hash a.sequence = i
  known : ∀ i, ∀ a ∈ slots i, ∃ request, calls[a.arg]? = some request ∧ sequenceOf request = a.sequence ∧
    service.decoder request = some a.decoder
  single : ∀ i, ((slots i).map ClientSendArg.sequence).Nodup
  once : ended.Nodup
  open_calls : ∀ i, ∀ a ∈ slots i, a.arg ∉ ended
  every : ∀ arg, arg < calls.length ↔ arg ∈ ended ∨ ∃ i, ∃ a ∈ slots i, a.arg = arg
  distinct : ((asked ++ replied).map sequenceOf).Nodup
  requested : ∀ request ∈ asked, Waits calls slots request
  responded : ∀ response ∈ replied, ∃ x ∈ answers, x.2 = response ∧ sequenceOf x.1.request.bytes = sequenceOf response ∧
    Waits calls slots x.1.request.bytes
  open_slots : ∀ i, ∀ a ∈ slots i, ∃ bytes ∈ asked ++ replied, sequenceOf bytes = a.sequence

variable {service : Service} {calls : List (List UInt8)} {answers : List (SRequest × List UInt8)}
  {slots slots' : WaitingHashSlots} {ended ended' : List Nat} {asked asked' replied replied' : List (List UInt8)}

theorem onConnect_ledger : Ledger service [] [] (fun _ => []) [] [] [] where
  home := by simp
  known := by simp
  single := by simp
  once := List.nodup_nil
  open_calls := by simp
  every := by simp
  distinct := List.nodup_nil
  requested := by simp
  responded := by simp
  open_slots := by simp

/-- Whatever is still under way, a request waits with its sequence. -/
theorem Ledger.waits (ledger : Ledger service calls answers slots ended asked replied) (member : bytes ∈ asked ++ replied) :
    ∃ a ∈ slots (Client.hash (sequenceOf bytes)), a.sequence = sequenceOf bytes := by
  rcases List.mem_append.mp member with request | response
  · obtain ⟨a,waits,same,_⟩ := ledger.requested bytes request
    exact ⟨a,waits,same⟩
  · obtain ⟨x,_,rfl,same,a,waits,found,_⟩ := ledger.responded bytes response
    rw [same] at waits found
    exact ⟨a,waits,found⟩

/-- A sequence is one request's. -/
theorem Ledger.one (ledger : Ledger service calls answers slots ended asked replied) (first : a ∈ slots i)
    (second : b ∈ slots j) (same : a.sequence = b.sequence) : a = b := by
  obtain rfl : i = j := by rw [← ledger.home i a first,← ledger.home j b second,same]
  exact List.inj_on_of_nodup_map (ledger.single i) first second same

theorem Ledger.perm (ledger : Ledger service calls answers slots ended asked replied) (overs : ended'.Perm ended)
    (asks : asked'.Perm asked) (replies : replied'.Perm replied) :
    Ledger service calls answers slots ended' asked' replied' where
  home := ledger.home
  known := ledger.known
  single := ledger.single
  once := overs.nodup_iff.mpr ledger.once
  open_calls := fun i a member inside => ledger.open_calls i a member (overs.subset inside)
  every := by
    intro arg
    rw [ledger.every arg,overs.mem_iff]
  distinct := ((asks.append replies).map sequenceOf).nodup_iff.mpr ledger.distinct
  requested := fun request member => ledger.requested request (asks.subset member)
  responded := fun response member => ledger.responded response (replies.subset member)
  open_slots := by
    intro i a member
    obtain ⟨bytes,inside,same⟩ := ledger.open_slots i a member
    exact ⟨bytes,(asks.append replies).symm.subset inside,same⟩

theorem Ledger.relink (ledger : Ledger service calls answers slots ended asked replied)
    (moved : ∀ i, (slots' i).Perm (slots i)) : Ledger service calls answers slots' ended asked replied := by
  have waits : ∀ request, Waits calls slots request → Waits calls slots' request := by
    rintro request ⟨a,member,same⟩
    exact ⟨a,(moved _).symm.subset member,same⟩
  exact {
    home := fun i a member => ledger.home i a ((moved i).subset member)
    known := fun i a member => ledger.known i a ((moved i).subset member)
    single := fun i => ((moved i).map _).nodup_iff.mpr (ledger.single i)
    once := ledger.once
    open_calls := fun i a member => ledger.open_calls i a ((moved i).subset member)
    every := by
      intro arg
      rw [ledger.every arg]
      simp only [(moved _).mem_iff]
    distinct := ledger.distinct
    requested := fun request member => waits request (ledger.requested request member)
    responded := by
      intro response member
      obtain ⟨x,inside,same,sequence,waiting⟩ := ledger.responded response member
      exact ⟨x,inside,same,sequence,waits _ waiting⟩
    open_slots := fun i a member => ledger.open_slots i a ((moved i).subset member) }

/-- A call under a sequence that no request waits with. -/
theorem Ledger.call (ledger : Ledger service calls answers slots ended asked replied)
    (fresh : ∀ i, ∀ a ∈ slots i, a.sequence ≠ sequenceOf request) (found : service.decoder request = some decoder) :
    Ledger service (calls ++ [request]) answers (listAddTail slots ⟨sequenceOf request,decoder,calls.length⟩) ended
      (request :: asked) replied := by
  let new : ClientSendArg := ⟨sequenceOf request,decoder,calls.length⟩
  have mem : ∀ i a, a ∈ listAddTail slots new i ↔ a ∈ slots i ∨ i = Client.hash new.sequence ∧ a = new := by
    intro i a
    by_cases here : i = Client.hash new.sequence
    · subst here
      simp [listAddTail]
    · simp [listAddTail,here]
  have older : ∀ (arg : Nat) other, calls[arg]? = some other → (calls ++ [request])[arg]? = some other := by
    intro arg other here
    rw [List.getElem?_append_left (List.getElem?_eq_some_iff.mp here).1]
    exact here
  have last : (calls ++ [request])[calls.length]? = some request := List.getElem?_concat_length
  have waits : ∀ other, Waits calls slots other → Waits (calls ++ [request]) (listAddTail slots new) other := by
    rintro other ⟨a,member,same,here⟩
    exact ⟨a,(mem _ _).mpr (.inl member),same,older _ _ here⟩
  have below : ∀ arg ∈ ended, arg < calls.length := fun arg inside => (ledger.every arg).mpr (.inl inside)
  exact {
    home := by
      intro i a member
      rcases (mem i a).mp member with old | ⟨here,rfl⟩
      · exact ledger.home i a old
      · exact here.symm
    known := by
      intro i a member
      rcases (mem i a).mp member with old | ⟨_,rfl⟩
      · obtain ⟨other,here,same,decodes⟩ := ledger.known i a old
        exact ⟨other,older _ _ here,same,decodes⟩
      · exact ⟨request,last,rfl,found⟩
    single := by
      intro i
      by_cases here : i = Client.hash new.sequence
      · subst here
        have slot : listAddTail slots new (Client.hash new.sequence) = slots (Client.hash new.sequence) ++ [new] :=
          Function.update_self ..
        rw [slot,List.map_append,List.map_singleton]
        refine List.nodup_append.mpr ⟨ledger.single _,List.nodup_singleton _,?_⟩
        intro sequence member other mine
        obtain ⟨a,inside,rfl⟩ := List.mem_map.mp member
        rw [List.mem_singleton.mp mine]
        exact fresh _ a inside
      · have slot : listAddTail slots new i = slots i := Function.update_of_ne here ..
        rw [slot]
        exact ledger.single i
    once := ledger.once
    open_calls := by
      intro i a member inside
      rcases (mem i a).mp member with old | ⟨_,rfl⟩
      · exact ledger.open_calls i a old inside
      · exact Nat.lt_irrefl _ (below _ inside)
    every := by
      intro arg
      rw [List.length_append,List.length_singleton,Nat.lt_succ_iff_lt_or_eq,ledger.every arg]
      constructor
      · rintro ((inside | ⟨i,a,member,same⟩) | rfl)
        · exact .inl inside
        · exact .inr ⟨i,a,(mem i a).mpr (.inl member),same⟩
        · exact .inr ⟨_,new,(mem _ _).mpr (.inr ⟨rfl,rfl⟩),rfl⟩
      · rintro (inside | ⟨i,a,member,same⟩)
        · exact .inl (.inl inside)
        · rcases (mem i a).mp member with old | ⟨_,rfl⟩
          · exact .inl (.inr ⟨i,a,old,same⟩)
          · exact .inr same.symm
    distinct := by
      rw [List.cons_append,List.map_cons,List.nodup_cons]
      refine ⟨fun member => ?_,ledger.distinct⟩
      obtain ⟨bytes,inside,same⟩ := List.mem_map.mp member
      obtain ⟨a,waiting,sequence⟩ := ledger.waits inside
      exact fresh _ a waiting (sequence.trans same)
    requested := by
      intro other member
      rcases List.mem_cons.mp member with rfl | old
      · exact ⟨new,(mem _ _).mpr (.inr ⟨rfl,rfl⟩),rfl,last⟩
      · exact waits other (ledger.requested other old)
    responded := by
      intro response member
      obtain ⟨x,inside,same,sequence,waiting⟩ := ledger.responded response member
      exact ⟨x,inside,same,sequence,waits _ waiting⟩
    open_slots := by
      intro i a member
      rcases (mem i a).mp member with old | ⟨_,rfl⟩
      · obtain ⟨bytes,inside,same⟩ := ledger.open_slots i a old
        exact ⟨bytes,List.mem_cons_of_mem _ inside,same⟩
      · exact ⟨request,List.mem_cons_self,rfl⟩ }

/-- A request that is answered: its response is under way in its place. -/
theorem Ledger.answer {req : SRequest} (ledger : Ledger service calls answers slots ended (req.request.bytes :: asked) replied)
    (same : sequenceOf response = sequenceOf req.request.bytes) :
    Ledger service calls (answers ++ [(req,response)]) slots ended asked (response :: replied) where
  home := ledger.home
  known := ledger.known
  single := ledger.single
  once := ledger.once
  open_calls := ledger.open_calls
  every := ledger.every
  distinct := by
    have distinct := ledger.distinct
    have moved : ((asked ++ response :: replied).map sequenceOf).Perm
        ((req.request.bytes :: asked ++ replied).map sequenceOf) := by
      simp only [List.map_append,List.map_cons,List.cons_append,same]
      exact List.perm_middle
    exact moved.nodup_iff.mpr distinct
  requested := fun request member => ledger.requested request (List.mem_cons_of_mem _ member)
  responded := by
    intro other member
    rcases List.mem_cons.mp member with rfl | old
    · exact ⟨(req,other),List.mem_append_right _ (List.mem_singleton.mpr rfl),rfl,same.symm,
        ledger.requested _ List.mem_cons_self⟩
    · obtain ⟨x,inside,rest⟩ := ledger.responded other old
      exact ⟨x,List.mem_append_left _ inside,rest⟩
  open_slots := by
    intro i a member
    obtain ⟨bytes,inside,sequence⟩ := ledger.open_slots i a member
    rcases List.mem_append.mp inside with old | old
    · rcases List.mem_cons.mp old with rfl | old
      · exact ⟨response,List.mem_append_right _ List.mem_cons_self,same.trans sequence⟩
      · exact ⟨bytes,List.mem_append_left _ old,sequence⟩
    · exact ⟨bytes,List.mem_append_right _ (List.mem_cons_of_mem _ old),sequence⟩

theorem Ledger.mem_unlinked (ledger : Ledger service calls answers slots ended asked replied) (sequence : UInt32) (i : Fin 128)
    (a : ClientSendArg) : a ∈ unlinked slots sequence i ↔ a ∈ slots i ∧ a.sequence ≠ sequence := by
  by_cases here : i = Client.hash sequence
  · subst here
    rw [unlinked,Function.update_self]
    have single := ledger.single (Client.hash sequence)
    generalize slots (Client.hash sequence) = slot at single
    induction slot with
    | nil => simp
    | cons first slot ih =>
      rw [List.map_cons,List.nodup_cons] at single
      by_cases found : first.sequence = sequence
      · rw [List.eraseP_cons_of_pos (by simpa using found)]
        constructor
        · intro member
          refine ⟨List.mem_cons_of_mem _ member,fun same => ?_⟩
          exact single.1 (List.mem_map.mpr ⟨a,member,same.trans found.symm⟩)
        · rintro ⟨member,other⟩
          rcases List.mem_cons.mp member with rfl | member
          · exact absurd found other
          · exact member
      · have later := ih single.2
        rw [List.eraseP_cons_of_neg (by simpa using found),List.mem_cons,List.mem_cons]
        constructor
        · rintro (rfl | member)
          · exact ⟨.inl rfl,found⟩
          · exact ⟨.inr (later.mp member).1,(later.mp member).2⟩
        · rintro ⟨rfl | member,other⟩
          · exact .inl rfl
          · exact .inr (later.mpr ⟨member,other⟩)
  · rw [unlinked,Function.update_of_ne here]
    refine ⟨fun member => ⟨member,fun same => here ?_⟩,And.left⟩
    rw [← ledger.home i a member,same]

/-- A call comes to its end with what was under way for it. -/
theorem Ledger.settle (ledger : Ledger service calls answers slots ended asked replied) (waits : a ∈ slots i)
    (same : a.sequence = sequenceOf bytes) (fewer : asked' ⊆ asked) (fewer' : replied' ⊆ replied)
    (moved : (asked ++ replied).Perm (bytes :: (asked' ++ replied'))) :
    Ledger service calls answers (unlinked slots (sequenceOf bytes)) (ended ++ [a.arg]) asked' replied' := by
  have mem := ledger.mem_unlinked (sequenceOf bytes)
  have distinct := (moved.map sequenceOf).nodup_iff.mp ledger.distinct
  rw [List.map_cons,List.nodup_cons] at distinct
  have others : ∀ b ∈ asked' ++ replied', sequenceOf b ≠ sequenceOf bytes := by
    intro b member equal
    exact distinct.1 (List.mem_map.mpr ⟨b,member,equal⟩)
  have still : ∀ request, sequenceOf request ≠ sequenceOf bytes → Waits calls slots request →
      Waits calls (unlinked slots (sequenceOf bytes)) request := by
    rintro request other ⟨b,member,sequence,here⟩
    exact ⟨b,(mem _ b).mpr ⟨member,sequence ▸ other⟩,sequence,here⟩
  have apart : ∀ j, ∀ b ∈ slots j, b.sequence ≠ sequenceOf bytes → b.arg ≠ a.arg := by
    intro j b member other equal
    obtain ⟨first,here,sequence,_⟩ := ledger.known j b member
    obtain ⟨second,there,sequence',_⟩ := ledger.known i a waits
    rw [equal,there] at here
    cases here
    exact other ((sequence.symm.trans sequence').trans same)
  exact {
    home := fun j b member => ledger.home j b ((mem j b).mp member).1
    known := fun j b member => ledger.known j b ((mem j b).mp member).1
    single := by
      intro j
      by_cases here : j = Client.hash (sequenceOf bytes)
      · subst here
        rw [unlinked,Function.update_self]
        exact (ledger.single _).sublist (List.eraseP_sublist.map _)
      · rw [unlinked,Function.update_of_ne here]
        exact ledger.single j
    once := by
      refine List.nodup_append.mpr ⟨ledger.once,List.nodup_singleton _,?_⟩
      intro arg inside other mine
      rw [List.mem_singleton.mp mine]
      rintro rfl
      exact ledger.open_calls i a waits inside
    open_calls := by
      intro j b member inside
      obtain ⟨old,other⟩ := (mem j b).mp member
      rcases List.mem_append.mp inside with inside | mine
      · exact ledger.open_calls j b old inside
      · exact apart j b old other (List.mem_singleton.mp mine)
    every := by
      intro arg
      rw [ledger.every arg,List.mem_append,List.mem_singleton]
      constructor
      · rintro (inside | ⟨j,b,member,rfl⟩)
        · exact .inl (.inl inside)
        · by_cases mine : b.sequence = sequenceOf bytes
          · rw [ledger.one member waits (mine.trans same.symm)]
            exact .inl (.inr rfl)
          · exact .inr ⟨j,b,(mem j b).mpr ⟨member,mine⟩,rfl⟩
      · rintro ((inside | rfl) | ⟨j,b,member,rfl⟩)
        · exact .inl inside
        · exact .inr ⟨i,a,waits,rfl⟩
        · exact .inr ⟨j,b,((mem j b).mp member).1,rfl⟩
    distinct := distinct.2
    requested := fun request member =>
      still request (others request (List.mem_append_left _ member)) (ledger.requested request (fewer member))
    responded := by
      intro response member
      obtain ⟨x,inside,equal,sequence,waiting⟩ := ledger.responded response (fewer' member)
      exact ⟨x,inside,equal,sequence,still _ (sequence ▸ others response (List.mem_append_right _ member)) waiting⟩
    open_slots := by
      intro j b member
      obtain ⟨old,other⟩ := (mem j b).mp member
      obtain ⟨c,inside,sequence⟩ := ledger.open_slots j b old
      rcases List.mem_cons.mp (moved.subset inside) with rfl | inside
      · exact absurd sequence.symm other
      · exact ⟨c,inside,sequence⟩ }

end Muti.RemoteCall
