import Muti.Lists

/-! Message streams. A parser looks at the unread bytes and a state of its own, and asks
for more, takes one item off the front, or stops; draining repeats that until it does
not take an item. On the concatenation of delimited messages it takes exactly these
messages. -/
namespace Muti.Framing

inductive Next (σ α ε : Type) where
  | more (s : σ)
  | item (a : α) (size : Nat) (s : σ)
  | stop (s : σ)
  | fault (reason : ε)

/-- How draining ends; `unfinished` is a drain cut off by its fuel. -/
inductive Ending (σ β ε : Type) where
  | starved (s : σ) (unread : List β)
  | stopped (s : σ) (unread : List β)
  | faulted (reason : ε)
  | unfinished
  deriving DecidableEq

abbrev Parser (σ β α ε : Type) := σ → List β → Next σ α ε

def drain (next : Parser σ β α ε) : Nat → σ → List β → List α × Ending σ β ε
  | 0, _, _ => ([],.unfinished)
  | fuel + 1, s, unread => match next s unread with
    | .more s' => ([],.starved s' unread)
    | .item a size s' =>
      let rest := drain next fuel s' (unread.drop size)
      (a :: rest.1,rest.2)
    | .stop s' => ([],.stopped s' unread)
    | .fault reason => ([],.faulted reason)

structure Message (β α : Type) where
  encoded : List β
  item : α

def stream (messages : List (Message β α)) : List β := messages.flatMap Message.encoded

@[simp] theorem stream_append (front back : List (Message β α)) :
    stream (front ++ back) = stream front ++ stream back := by
  simp [stream]

/-- `ready s messages` lets the parser take these messages in this order: each of them
exactly, whatever follows it, while a proper prefix only makes it ask for more. -/
structure Serves (next : Parser σ β α ε) (ready : σ → List (Message β α) → Prop) : Prop where
  hungry : ∀ s, ready s [] → ∃ s', next s [] = .more s' ∧ ready s' []
  whole : ∀ s m messages back, ready s (m :: messages) →
    ∃ s', next s (m.encoded ++ back) = .item m.item m.encoded.length s' ∧ ready s' messages
  short : ∀ s m messages p, ready s (m :: messages) → p <+: m.encoded → p ≠ m.encoded →
    ∃ s', next s p = .more s' ∧ ready s' (m :: messages)
  nonempty : ∀ s m messages, ready s (m :: messages) → m.encoded ≠ []

def Begins (rest : List β) : List (Message β α) → Prop
  | [] => rest = []
  | m :: _ => rest <+: m.encoded ∧ rest ≠ m.encoded

/-- Draining part of a stream takes the messages that are whole and keeps the proper
prefix of the next one. -/
theorem drain_stream {next : Parser σ β α ε} {ready : σ → List (Message β α) → Prop}
    {messages : List (Message β α)} (serves : Serves next ready) (fuel : Nat) (start : ready s messages)
    (before : unread <+: stream messages) (enough : unread.length < fuel) :
    ∃ taken left s' rest, messages = taken ++ left ∧ unread = stream taken ++ rest ∧ ready s' left ∧
      Begins rest left ∧ drain next fuel s unread = (taken.map Message.item,.starved s' rest) := by
  induction messages generalizing fuel s unread with
  | nil =>
    obtain rfl := List.prefix_nil.mp before
    obtain ⟨s',look,kept⟩ := serves.hungry s start
    obtain ⟨fuel,rfl⟩ : ∃ n, fuel = n + 1 := ⟨fuel - 1,by omega⟩
    exact ⟨[],[],s',[],rfl,rfl,kept,rfl,by simp [drain,look]⟩
  | cons m messages ih =>
    obtain ⟨fuel,rfl⟩ : ∃ n, fuel = n + 1 := ⟨fuel - 1,by omega⟩
    have go : ∀ tail, unread = m.encoded ++ tail → tail <+: stream messages →
        ∃ taken left s' rest, m :: messages = taken ++ left ∧ unread = stream taken ++ rest ∧ ready s' left ∧
          Begins rest left ∧ drain next (fuel + 1) s unread = (taken.map Message.item,.starved s' rest) := by
      rintro tail rfl inside
      obtain ⟨s',look,kept⟩ := serves.whole s m messages tail start
      have positive := List.length_pos_iff.mpr (serves.nonempty s m messages start)
      rw [List.length_append] at enough
      obtain ⟨taken,left,last,rest,split,bytes,ready',begun,run⟩ := ih fuel kept inside (by omega)
      refine ⟨m :: taken,left,last,rest,by rw [split]; rfl,?_,ready',begun,?_⟩
      · rw [bytes]
        simp [stream]
      · simp [drain,look,run]
    rcases Lists.prefix_append_cases before with inside | ⟨tail,split,inside⟩
    · by_cases whole : unread = m.encoded
      · exact go [] (by simpa using whole) List.nil_prefix
      · obtain ⟨s',look,kept⟩ := serves.short s m messages unread start inside whole
        exact ⟨[],m :: messages,s',unread,rfl,rfl,kept,⟨inside,whole⟩,by simp [drain,look]⟩
    · exact go tail split inside

/-- A whole stream is drained to its last byte. -/
theorem drain_whole_stream {next : Parser σ β α ε} {ready : σ → List (Message β α) → Prop}
    {messages : List (Message β α)} (serves : Serves next ready) (fuel : Nat) (start : ready s messages)
    (enough : (stream messages).length < fuel) :
    ∃ s', ready s' [] ∧ drain next fuel s (stream messages) = (messages.map Message.item,.starved s' []) := by
  obtain ⟨taken,left,s',rest,split,bytes,kept,begun,run⟩ :=
    drain_stream serves fuel start (List.prefix_refl _) enough
  subst split
  cases left with
  | nil =>
    obtain rfl : rest = [] := begun
    exact ⟨s',kept,by simpa using run⟩
  | cons m left =>
    obtain ⟨inside,proper⟩ := begun
    have fewer := Lists.proper_prefix_length inside proper
    have lengths := congrArg List.length bytes
    simp only [stream_append,List.length_append] at lengths
    simp only [stream,List.flatMap_cons,List.length_append] at lengths
    omega

end Muti.Framing
