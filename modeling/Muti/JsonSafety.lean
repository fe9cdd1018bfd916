import Muti.JsonParse

/-! `cJSON_Parse` on any text: every access is inside the text, every byte of a string inside
the block allocated for it, and the loops have turns enough. The block is computed by a scan
that takes escapes in pairs of bytes; the loop that fills it may fall out of step with that
scan, when four bytes behind a backslash and a `u` are no digits. -/
namespace Muti.CJson

open Muti.Memory

variable {content : List UInt8}

/-- The bytes a block has room for while the rest of a literal is read; `escape` tells that
the scan has a backslash behind it. -/
def budget : Bool → List UInt8 → Nat
  | false, [] => 0
  | true, [] => 1
  | false, c :: rest => if c = 92 then budget true rest else budget false rest + 1
  | true, _ :: rest => budget false rest + 1

def left (content : List UInt8) (input_pointer input_end : Nat) : List UInt8 :=
  (content.drop input_pointer).take (input_end - input_pointer)

/-- Arrays and objects nested at most this deep, and what each string and each name is. -/
inductive Within (kept : CString → Prop) : Nat → CJson → Prop
  | null : Within kept n .null
  | boolean (value : Bool) : Within kept n (.boolean value)
  | number : Within kept n .number
  | string (good : kept s) : Within kept n (.string s)
  | array (each : ∀ item ∈ items, Within kept n item) : Within kept (n + 1) (.array items)
  | object (names : ∀ member ∈ members, kept member.1) (each : ∀ member ∈ members, Within kept n member.2) :
    Within kept (n + 1) (.object members)

/-- A parser that begins inside the text does not leave it, and takes a byte at least. -/
def Safe (content : List UInt8) (kept : α → Prop) (parse : Parse α) : Prop :=
  ∀ offset < content.length, ∃ item, parse offset = .ok item ∧
    ∀ a next, item = some (a,next) → kept a ∧ offset < next ∧ next ≤ content.length

theorem skip_inside (filled : 0 < content.length) (inside : offset ≤ content.length) :
    buffer_skip_whitespace content offset < content.length ∧ offset ≤ buffer_skip_whitespace content offset + 1 := by
  have short := (List.takeWhile_prefix (p := (· ≤ 32)) (l := content.drop offset)).length_le
  rw [List.length_drop] at short
  simp only [buffer_skip_whitespace]
  split <;> omega

/-- White space is passed over forwards, but for the end of the text, where the terminating zero
counts as white space and the last step is taken back. -/
theorem skip_onward (terminated : content.getLast? = some 0)
    (seen : sees content (buffer_skip_whitespace content offset) c = true)
    (nonzero : c ≠ 0) : offset ≤ buffer_skip_whitespace content offset := by
  simp only [buffer_skip_whitespace] at seen ⊢
  split at seen
  · rw [List.getLast?_eq_getElem?] at terminated
    rename_i ends
    rw [ends,sees,terminated] at seen
    exact absurd (by simpa using seen) (Ne.symm nonzero)
  · rename_i inside
    rw [if_neg inside]
    exact Nat.le_add_right _ _

theorem next_inside (terminated : content.getLast? = some 0) (here : content[i]? = some c) (nonzero : c ≠ 0) :
    i + 1 < content.length := by
  have inside := (List.getElem?_eq_some_iff.mp here).1
  rw [List.getLast?_eq_getElem?] at terminated
  by_contra last
  have ends : content.length - 1 = i := by omega
  rw [ends,here] at terminated
  exact nonzero (Option.some.inj terminated)

theorem skip_forward (inside : offset < content.length) : offset ≤ buffer_skip_whitespace content offset := by
  simp only [buffer_skip_whitespace]
  split <;> omega

theorem sees_inside (seen : sees content offset c = true) : offset < content.length := by
  simp only [sees,beq_iff_eq] at seen
  exact (List.getElem?_eq_some_iff.mp seen).1

theorem read_inside (inside : i < block.length) : ∃ a : α, read block i = .ok a ∧ block[i]? = some a := by
  obtain ⟨a,here⟩ : ∃ a, block[i]? = some a := ⟨_,List.getElem?_eq_getElem inside⟩
  exact ⟨a,read_ok.mpr here,here⟩

theorem left_cons (here : content[p]? = some c) (more : p < input_end) :
    left content p input_end = c :: left content (p + 1) input_end := by
  obtain ⟨inside,rfl⟩ := List.getElem?_eq_some_iff.mp here
  have shorter : input_end - p = input_end - (p + 1) + 1 := by omega
  rw [left,List.drop_eq_getElem_cons inside,shorter,List.take_succ_cons,left]

theorem left_end (beyond : input_end ≤ p) : left content p input_end = [] := by
  rw [left,Nat.sub_eq_zero_of_le beyond,List.take_zero]

theorem budget_tail (escape : Bool) (rest : List UInt8) : ∃ escape', budget escape' rest.tail ≤ budget escape rest := by
  cases rest with
  | nil => exact ⟨escape,Nat.le_refl _⟩
  | cons c rest =>
    cases escape with
    | true => exact ⟨false,Nat.le_succ _⟩
    | false =>
      by_cases backslash : c = 92
      · exact ⟨true,by simp [budget,backslash]⟩
      · exact ⟨false,by simp [budget,backslash]⟩

theorem budget_drop (k : Nat) (escape : Bool) (rest : List UInt8) :
    ∃ escape', budget escape' (rest.drop k) ≤ budget escape rest := by
  induction k generalizing escape rest with
  | zero => exact ⟨escape,Nat.le_refl _⟩
  | succ k ih =>
    obtain ⟨middle,first⟩ := budget_tail escape rest
    obtain ⟨last,second⟩ := ih middle rest.tail
    exact ⟨last,by rw [← List.drop_tail]; omega⟩

theorem left_drop (k : Nat) : (left content p input_end).drop k = left content (p + k) input_end := by
  rw [left,left,List.drop_take,List.drop_drop]
  congr 1
  omega

theorem budget_plain (digits : List UInt8) (plain : 92 ∉ digits) (rest : List UInt8) :
    budget false (digits ++ rest) = digits.length + budget false rest := by
  induction digits with
  | nil => simp
  | cons c digits ih =>
    rw [List.mem_cons,not_or] at plain
    obtain ⟨other,plain⟩ := plain
    rw [List.cons_append,budget,if_neg (Ne.symm other),ih plain,List.length_cons]
    omega

/-- A scan that has come to the quote has counted the escapes. -/
theorem closing_budget (found : closing l = some (length,skipped)) :
    length < l.length ∧ l[length]? = some 34 ∧ budget false (l.take length) + skipped = length := by
  fun_induction closing l generalizing length skipped with
  | case1 => cases found
  | case2 rest =>
    cases found
    simp [budget]
  | case3 => cases found
  | case4 c rest ih =>
    obtain ⟨⟨k,n⟩,later,same⟩ := Option.map_eq_some_iff.mp found
    cases same
    obtain ⟨inside,quote,counted⟩ := ih later
    refine ⟨by simpa using inside,by simpa using quote,?_⟩
    simp only [List.take_succ_cons,budget,if_true]
    omega
  | case5 c rest quoted single pair ih =>
    obtain ⟨⟨k,n⟩,later,same⟩ := Option.map_eq_some_iff.mp found
    cases same
    have plain : c ≠ 92 := by
      rintro rfl
      cases rest with
      | nil => exact single rfl rfl
      | cons d rest => exact pair d rest rfl rfl
    obtain ⟨inside,quote,counted⟩ := ih later
    refine ⟨by simpa using inside,by simpa using quote,?_⟩
    simp only [List.take_succ_cons,budget,if_neg plain]
    omega

theorem hexDigits_read (n h : Nat) (inside : input + n ≤ content.length) : ∃ code, hexDigits content n input h = .ok code ∧
    (code ≠ 0 → ∀ c ∈ (content.drop input).take n, c ≠ 92) := by
  induction n generalizing input h with
  | zero => exact ⟨h,rfl,by simp⟩
  | succ n ih =>
    obtain ⟨c,reads,here⟩ := read_inside (show input < content.length by omega)
    obtain ⟨start,rfl⟩ := List.getElem?_eq_some_iff.mp here
    simp only [hexDigits,reads,bind,Except.bind]
    cases digit : hexDigit content[input] with
    | none => exact ⟨0,rfl,fun nonzero => absurd rfl nonzero⟩
    | some value =>
      obtain ⟨code,later,digits⟩ := ih (h * 16 + value) (show input + 1 + n ≤ content.length by omega)
      refine ⟨code,later,fun nonzero c member => ?_⟩
      rw [List.drop_eq_getElem_cons start,List.take_succ_cons,List.mem_cons] at member
      rcases member with rfl | member
      · intro backslash
        rw [backslash] at digit
        cases digit
      · exact digits nonzero c member

theorem continuation_length (n codepoint : Nat) : (continuation n codepoint).1.length = n := by
  induction n generalizing codepoint with
  | zero => rfl
  | succ n ih => simp [continuation,ih]

theorem encoded_length (positive : 0 < utf8_length) (mark codepoint : Nat) :
    (encoded utf8_length mark codepoint).length = utf8_length := by
  simp only [encoded,List.length_cons,continuation_length]
  omega

/-- Four bytes at most, and one for zero. -/
theorem utf8_length_le (found : utf8 codepoint = some bytes) :
    bytes.length ≤ 4 ∧ (codepoint = 0 → bytes.length = 1) := by
  unfold utf8 at found
  split at found
  · cases found
    simp [encoded_length]
  · rename_i large
    have nonzero : codepoint ≠ 0 := by
      rintro rfl
      exact large (by decide)
    split at found
    · cases found
      simp [encoded_length,nonzero]
    split at found
    · cases found
      simp [encoded_length,nonzero]
    split at found
    · cases found
      simp [encoded_length,nonzero]
    · cases found

/-- A literal is read inside the string. When it stands for anything but zero, its first four
digits are no backslashes. -/
theorem utf16_literal_read (content : List UInt8) (p : Nat) (inside : input_end ≤ content.length) : ∃ found,
    utf16_literal content p input_end = .ok found ∧ ∀ literal codepoint, found = some (literal,codepoint) →
      p + literal.sequence_length ≤ input_end ∧
      (codepoint ≠ 0 → ∀ c ∈ (content.drop (p + 2)).take 4, c ≠ 92) := by
  unfold utf16_literal
  split
  · exact ⟨none,rfl,nofun⟩
  rename_i room
  obtain ⟨first_code,reads,digits⟩ := hexDigits_read 4 0 (show p + 2 + 4 ≤ content.length by omega)
  rw [← parse_hex4] at reads
  simp only [reads,bind,Except.bind]
  split
  · exact ⟨none,rfl,nofun⟩
  split
  · rename_i high
    split
    · exact ⟨none,rfl,nofun⟩
    rename_i more
    obtain ⟨c,here,_⟩ := read_inside (show p + 6 < content.length by omega)
    obtain ⟨d,there,_⟩ := read_inside (show p + 6 + 1 < content.length by omega)
    obtain ⟨second_code,second,_⟩ := hexDigits_read 4 0 (show p + 6 + 2 + 4 ≤ content.length by omega)
    rw [← parse_hex4] at second
    simp only [here,there,second]
    split
    · exact ⟨none,rfl,nofun⟩
    split
    · exact ⟨none,rfl,nofun⟩
    split
    · exact ⟨none,rfl,nofun⟩
    · refine ⟨_,rfl,?_⟩
      rintro literal codepoint ⟨⟩
      exact ⟨by simp only [Literal.sequence_length]; omega,fun _ => digits (by omega)⟩
  · refine ⟨_,rfl,?_⟩
    rintro literal codepoint ⟨⟩
    exact ⟨by simp only [Literal.sequence_length]; omega,digits⟩

/-- What a literal stands for has room. -/
theorem budget_literal (here : content[p]? = some 92) (next : content[p + 1]? = some 117)
    (room : p + k ≤ input_end) (six : 6 ≤ k) (inside : input_end ≤ content.length) (found : utf8 codepoint = some bytes)
    (digits : codepoint ≠ 0 → ∀ c ∈ (content.drop (p + 2)).take 4, c ≠ 92) (escape : Bool) :
    ∃ escape', bytes.length + budget escape' (left content (p + k) input_end) ≤ budget escape (left content p input_end) := by
  obtain ⟨four,one⟩ := utf8_length_le found
  have behind : budget false (left content (p + 2) input_end) + 1 ≤ budget escape (left content p input_end) := by
    rw [left_cons here (by omega),left_cons next (by omega)]
    cases escape with
    | true => simp [budget]
    | false => simp [budget]
  by_cases zero : codepoint = 0
  · obtain ⟨escape',less⟩ := budget_drop (k - 2) false (left content (p + 2) input_end)
    rw [left_drop,show p + 2 + (k - 2) = p + k by omega] at less
    exact ⟨escape',by have := one zero; omega⟩
  · have split : left content (p + 2) input_end = (content.drop (p + 2)).take 4 ++ left content (p + 6) input_end := by
      rw [← List.take_append_drop 4 (left content (p + 2) input_end),left_drop,left,List.take_take]
      congr 2
      omega
    have plain := budget_plain _ (fun member => digits zero 92 member rfl) (left content (p + 6) input_end)
    rw [← split,List.length_take,List.length_drop] at plain
    obtain ⟨escape',less⟩ := budget_drop (k - 6) false (left content (p + 6) input_end)
    rw [left_drop,show p + 6 + (k - 6) = p + k by omega] at less
    exact ⟨escape',by omega⟩

/-- One turn reads inside the text, goes on, and appends no more than there is room for. -/
theorem unescape_read (more : p < input_end) (inside : input_end < content.length) : ∃ turn,
    unescape content p input_end = .ok turn ∧ ∀ k bytes, turn = some (k,bytes) → 0 < k ∧
      ∀ escape, ∃ escape', bytes.length + budget escape' (left content (p + k) input_end) ≤
        budget escape (left content p input_end) := by
  obtain ⟨c,reads,here⟩ := read_inside (show p < content.length by omega)
  obtain ⟨d,peeks,next⟩ := read_inside (show p + 1 < content.length by omega)
  simp only [unescape,reads,bind,Except.bind]
  split
  · refine ⟨_,rfl,?_⟩
    rintro k bytes ⟨⟩
    refine ⟨Nat.one_pos,fun escape => ⟨false,?_⟩⟩
    rename_i plain
    rw [left_cons here more]
    cases escape with
    | true => simp [budget,Nat.add_comm]
    | false => simp [budget,plain,Nat.add_comm]
  rename_i backslash
  obtain rfl : c = 92 := not_not.mp backslash
  simp only [peeks]
  split
  · rename_i unicode
    subst unicode
    obtain ⟨found,scans,fits⟩ := utf16_literal_read content p (Nat.le_of_lt inside)
    simp only [utf16_literal_to_utf8,scans,bind,Except.bind]
    cases found with
    | none => exact ⟨none,rfl,nofun⟩
    | some pair =>
      obtain ⟨literal,codepoint⟩ := pair
      obtain ⟨room,digits⟩ := fits literal codepoint rfl
      refine ⟨_,rfl,?_⟩
      intro k bytes turn
      obtain ⟨bytes,found,same⟩ := Option.map_eq_some_iff.mp turn
      cases same
      refine ⟨by cases literal <;> decide,fun escape => ?_⟩
      exact budget_literal here next room (by cases literal <;> decide) (Nat.le_of_lt inside) found digits escape
  · refine ⟨_,rfl,?_⟩
    intro k bytes turn
    obtain ⟨byte,_,same⟩ := Option.map_eq_some_iff.mp turn
    cases same
    refine ⟨Nat.two_pos,fun escape => ?_⟩
    rw [left_cons here more]
    cases escape with
    | false =>
      -- the scan has the byte behind the backslash in the same pair
      refine ⟨false,?_⟩
      by_cases last : p + 1 < input_end
      · rw [left_cons next last]
        simp only [budget,if_true,List.length_singleton]
        exact (Nat.add_comm 1 _).le
      · rw [left_end (by omega),left_end (by omega)]
        simp [budget]
    | true =>
      obtain ⟨escape',less⟩ := budget_tail false (left content (p + 1) input_end)
      rw [← List.drop_one,left_drop] at less
      refine ⟨escape',?_⟩
      simp only [budget,List.length_singleton]
      exact (Nat.add_comm 1 _).le.trans (Nat.succ_le_succ less)

theorem store_ok (room : output.length + bytes.length ≤ capacity) : store capacity output bytes = .ok (output ++ bytes) := by
  rw [store,if_pos room]

/-- The loop stays inside the text and inside its block. -/
theorem unescapeAll_read (inside : input_end < content.length) (turns : Nat)
    (room : output.length + budget escape (left content p input_end) ≤ capacity) : ∃ result,
    unescapeAll content capacity input_end turns p output = .ok result ∧
      ∀ whole, result = some whole → whole.length ≤ output.length + budget escape (left content p input_end) := by
  induction turns generalizing p output escape with
  | zero => exact ⟨some output,rfl,fun whole same => by cases same; omega⟩
  | succ turns ih =>
    simp only [unescapeAll]
    split
    case isFalse => exact ⟨some output,rfl,fun whole same => by cases same; omega⟩
    case isTrue more =>
      obtain ⟨turn,goes,fits⟩ := unescape_read more inside
      simp only [goes,bind,Except.bind]
      cases turn with
      | none => exact ⟨none,rfl,nofun⟩
      | some pair =>
        obtain ⟨k,bytes⟩ := pair
        obtain ⟨escape',less⟩ := (fits k bytes rfl).2 escape
        have stores : store capacity output bytes = .ok (output ++ bytes) := store_ok (by omega)
        obtain ⟨result,later,short⟩ := ih
          (show (output ++ bytes).length + budget escape' (left content (p + k) input_end) ≤ capacity by
            rw [List.length_append]; omega)
        simp only [stores,later]
        refine ⟨result,rfl,fun whole same => ?_⟩
        have bound := short whole same
        rw [List.length_append] at bound
        omega

/-- More turns than there are bytes left change nothing. -/
theorem unescapeAll_turns (inside : input_end < content.length) (enough : input_end - p ≤ turns)
    (also : input_end - p ≤ others) :
    unescapeAll content capacity input_end turns p output = unescapeAll content capacity input_end others p output := by
  induction turns generalizing others p output with
  | zero =>
    cases others with
    | zero => rfl
    | succ others => rw [unescapeAll,unescapeAll,if_neg (by omega)]
  | succ turns ih =>
    by_cases more : p < input_end
    · obtain ⟨others,rfl⟩ : ∃ n, others = n + 1 := ⟨others - 1,by omega⟩
      obtain ⟨turn,goes,fits⟩ := unescape_read more inside
      simp only [unescapeAll,if_pos more,goes,bind,Except.bind]
      cases turn with
      | none => rfl
      | some pair =>
        obtain ⟨k,bytes⟩ := pair
        have onward := (fits k bytes rfl).1
        have later : ∀ output, unescapeAll content capacity input_end turns (p + k) output =
            unescapeAll content capacity input_end others (p + k) output :=
          fun output => ih (by omega) (by omega)
        cases stores : store capacity output bytes with
        | error fault => simp only [stores]
        | ok output => simp only [stores,later]
    · cases others with
      | zero => rw [unescapeAll,unescapeAll,if_neg more]
      | succ others => rw [unescapeAll,unescapeAll,if_neg more,if_neg more]

/-- A string is read inside the text and written inside its block. -/
theorem parse_string_safe (content : List UInt8) : Safe content (fun _ => True) (parse_string content) := by
  intro offset inside
  obtain ⟨c,reads,here⟩ := read_inside inside
  simp only [parse_string,reads,bind,Except.bind]
  split
  · exact ⟨none,rfl,nofun⟩
  cases found : closing (content.drop (offset + 1)) with
  | none => exact ⟨none,rfl,nofun⟩
  | some pair =>
    obtain ⟨length,skipped⟩ := pair
    obtain ⟨short,quote,counted⟩ := closing_budget found
    rw [List.length_drop] at short
    have ends : offset + 1 + length < content.length := by omega
    have whole : left content (offset + 1) (offset + 1 + length) = (content.drop (offset + 1)).take length := by
      rw [left,Nat.add_sub_cancel_left]
    obtain ⟨result,fills,fits⟩ := unescapeAll_read ends length
      (show ([] : List UInt8).length + budget false (left content (offset + 1) (offset + 1 + length)) ≤
          offset + 1 + length - offset - skipped + 1 by rw [whole,List.length_nil]; omega)
    simp only [fills]
    cases result with
    | none => exact ⟨none,rfl,nofun⟩
    | some output =>
      have bound := fits output rfl
      rw [whole,List.length_nil] at bound
      have terminated : store (offset + 1 + length - offset - skipped + 1) output [0] = .ok (output ++ [0]) := by
        apply store_ok
        rw [List.length_singleton]
        omega
      simp only [terminated]
      refine ⟨_,rfl,?_⟩
      rintro a next ⟨⟩
      exact ⟨trivial,by omega,by omega⟩

theorem takeWhile_le (p : UInt8 → Bool) (s : List UInt8) : (s.takeWhile p).length ≤ s.length :=
  (List.takeWhile_prefix p).length_le

theorem sign_le (s : List UInt8) : sign s ≤ s.length := by
  unfold sign
  split <;> simp

theorem fraction_le (s : List UInt8) : (fraction s).length ≤ s.length := by
  unfold fraction
  split
  · simpa using takeWhile_le isdigit _
  · simp

theorem exponent_le (s : List UInt8) : exponent s ≤ s.length := by
  unfold exponent
  split
  all_goals try exact Nat.zero_le _
  all_goals
    rename_i rest
    have signed := sign_le rest
    have digits := takeWhile_le isdigit (rest.drop (sign rest))
    rw [List.length_drop] at digits
    simp only [List.length_cons]
    split <;> omega

theorem strtod_le (s : List UInt8) : strtod s ≤ s.length := by
  have signed := sign_le s
  have digits := takeWhile_le isdigit (s.drop (sign s))
  have part := fraction_le ((s.drop (sign s)).drop ((s.drop (sign s)).takeWhile isdigit).length)
  have behind := exponent_le (s.drop (sign s + ((s.drop (sign s)).takeWhile isdigit).length +
    (fraction ((s.drop (sign s)).drop ((s.drop (sign s)).takeWhile isdigit).length)).length))
  simp only [List.length_drop] at digits part behind
  simp only [strtod]
  split <;> omega

theorem parse_number_safe (content : List UInt8) : Safe content (Within kept n) (parse_number content) := by
  intro offset inside
  have short := strtod_le (((content.drop offset).take 63).takeWhile isNumberByte)
  have copied := takeWhile_le isNumberByte ((content.drop offset).take 63)
  rw [List.length_take,List.length_drop] at copied
  simp only [parse_number]
  split
  · exact ⟨none,rfl,nofun⟩
  · refine ⟨_,rfl,?_⟩
    rintro a next ⟨⟩
    exact ⟨.number,by omega,by omega⟩

/-- A parser that begins behind white space is as safe as it is. -/
theorem Safe.skip {parse : Parse α} (safe : Safe content kept parse) (inside : offset < content.length) : ∃ item,
    parse (buffer_skip_whitespace content (offset + 1)) = .ok item ∧
      ∀ a next, item = some (a,next) → kept a ∧ offset < next ∧ next ≤ content.length := by
  obtain ⟨within,onward⟩ := skip_inside (show 0 < content.length by omega) (show offset + 1 ≤ content.length by omega)
  obtain ⟨item,parses,fits⟩ := safe _ within
  refine ⟨item,parses,fun a next same => ?_⟩
  obtain ⟨good,later,bound⟩ := fits a next same
  exact ⟨good,by omega,bound⟩

/-- The loop over elements keeps what each of them is. -/
theorem elements_safe {parse : Parse α} (safe : Safe content kept parse) (close : UInt8) (head : List α)
    (turns : Nat) (inside : offset < content.length)
    (good : ∀ a ∈ head, kept a) : ∃ item, elements content parse close turns offset head = .ok item ∧
      ∀ all next, item = some (all,next) → (∀ a ∈ all, kept a) ∧ offset < next ∧ next ≤ content.length := by
  induction turns generalizing offset head with
  | zero => exact ⟨none,rfl,nofun⟩
  | succ turns ih =>
    obtain ⟨item,parses,fits⟩ := safe.skip inside
    simp only [elements,parses,bind,Except.bind]
    cases item with
    | none => exact ⟨none,rfl,nofun⟩
    | some pair =>
      obtain ⟨a,next⟩ := pair
      obtain ⟨kept_a,later,bound⟩ := fits a next rfl
      obtain ⟨_,onward⟩ := skip_inside (show 0 < content.length by omega) bound
      have all : ∀ x ∈ head ++ [a], kept x := by
        intro x member
        rcases List.mem_append.mp member with old | new
        · exact good x old
        · exact List.mem_singleton.mp new ▸ kept_a
      simp only
      split
      · rename_i comma
        obtain ⟨item,goes,rest⟩ := ih _ (sees_inside comma) all
        refine ⟨item,goes,fun every last same => ?_⟩
        obtain ⟨good,further,stays⟩ := rest every last same
        exact ⟨good,by omega,stays⟩
      split
      · rename_i closes
        have here := sees_inside closes
        refine ⟨_,rfl,?_⟩
        rintro every last ⟨⟩
        exact ⟨all,by omega,by omega⟩
      · exact ⟨none,rfl,nofun⟩

/-- As many turns as there are bytes left are enough. -/
theorem elements_turns {parse : Parse α} (safe : Safe content kept parse) (terminated : content.getLast? = some 0)
    (inside : offset < content.length) (enough : content.length - offset ≤ turns) (also : content.length - offset ≤ others) :
    elements content parse close turns offset head = elements content parse close others offset head := by
  induction turns generalizing others offset head with
  | zero => omega
  | succ turns ih =>
    obtain ⟨others,rfl⟩ : ∃ n, others = n + 1 := ⟨others - 1,by omega⟩
    obtain ⟨item,parses,fits⟩ := safe.skip inside
    simp only [elements,parses,bind,Except.bind]
    cases item with
    | none => rfl
    | some pair =>
      obtain ⟨a,next⟩ := pair
      have later := (fits a next rfl).2.1
      simp only
      split
      · rename_i comma
        have here := sees_inside comma
        have onward := skip_onward terminated comma (by decide)
        exact ih here (by omega) (by omega)
      · rfl

theorem enclosed_safe {parse : Parse α} (safe : Safe content kept parse) (terminated : content.getLast? = some 0)
    (opening close : UInt8) (nonzero : opening ≠ 0) :
    Safe content (fun all => ∀ a ∈ all, kept a) (enclosed content parse opening close) := by
  intro offset inside
  obtain ⟨c,reads,here⟩ := read_inside inside
  simp only [enclosed,reads,bind,Except.bind]
  split
  · exact ⟨none,rfl,nofun⟩
  rename_i opens
  have more := next_inside terminated here (not_not.mp opens ▸ nonzero)
  obtain ⟨within,onward⟩ := skip_inside (show 0 < content.length by omega) (show offset + 1 ≤ content.length by omega)
  split
  · refine ⟨_,rfl,?_⟩
    rintro all next ⟨⟩
    exact ⟨nofun,by omega,by omega⟩
  split
  · exact ⟨none,rfl,nofun⟩
  · have forward := skip_forward more
    obtain ⟨item,goes,fits⟩ := elements_safe safe close []
      (content.length - (buffer_skip_whitespace content (offset + 1) - 1))
      (show buffer_skip_whitespace content (offset + 1) - 1 < content.length by omega) nofun
    refine ⟨item,goes,fun all next same => ?_⟩
    obtain ⟨good,later,bound⟩ := fits all next same
    exact ⟨good,by omega,bound⟩

theorem Safe.map {parse : Parse α} {f : α → β} {held : β → Prop} (safe : Safe content kept parse)
    (good : ∀ a, kept a → held (f a)) :
    Safe content held fun offset => (do
      let item ← parse offset
      .ok (item.map fun found => (f found.1,found.2)) : Except Fault (Option (β × Nat))) := by
  intro offset inside
  obtain ⟨item,parses,fits⟩ := safe offset inside
  simp only [parses,bind,Except.bind]
  refine ⟨_,rfl,fun b next same => ?_⟩
  obtain ⟨⟨a,last⟩,found,same⟩ := Option.map_eq_some_iff.mp same
  cases same
  obtain ⟨kept_a,later,bound⟩ := fits a last found
  exact ⟨good a kept_a,later,bound⟩

theorem parse_array_safe {parse : Parse CJson} (safe : Safe content (Within kept n) parse)
    (terminated : content.getLast? = some 0) : Safe content (Within kept (n + 1)) (parse_array content parse) :=
  (enclosed_safe safe terminated 91 93 (by decide)).map fun _ each => Within.array each

theorem parse_member_safe {parse : Parse CJson} (strings : Safe content kept (parse_string content))
    (safe : Safe content (Within kept n) parse) :
    Safe content (fun member => kept member.1 ∧ Within kept n member.2) (parse_member content parse) := by
  intro offset inside
  obtain ⟨item,parses,fits⟩ := strings offset inside
  simp only [parse_member,parses,bind,Except.bind]
  cases item with
  | none => exact ⟨none,rfl,nofun⟩
  | some pair =>
    obtain ⟨name,next⟩ := pair
    obtain ⟨named,later,bound⟩ := fits name next rfl
    obtain ⟨_,onward⟩ := skip_inside (show 0 < content.length by omega) bound
    simp only
    split
    · rename_i colon
      obtain ⟨value,follows,within⟩ := safe.skip (sees_inside colon)
      simp only [follows]
      refine ⟨_,rfl,fun member last same => ?_⟩
      obtain ⟨⟨v,behind⟩,found,same⟩ := Option.map_eq_some_iff.mp same
      cases same
      obtain ⟨good,further,stays⟩ := within v behind found
      exact ⟨⟨named,good⟩,by omega,stays⟩
    · exact ⟨none,rfl,nofun⟩

theorem parse_object_safe {parse : Parse CJson} (strings : Safe content kept (parse_string content))
    (safe : Safe content (Within kept n) parse) (terminated : content.getLast? = some 0) :
    Safe content (Within kept (n + 1)) (parse_object content parse) :=
  (enclosed_safe (parse_member_safe strings safe) terminated 123 125 (by decide)).map fun _ each =>
    .object (fun member listed => (each member listed).1) fun member listed => (each member listed).2

theorem word_inside {bytes : List UInt8} (found : word content offset bytes = true) (long : bytes ≠ []) :
    offset + bytes.length ≤ content.length := by
  have lengths := congrArg List.length (beq_iff_eq.mp found)
  have positive := List.length_pos_iff.mpr long
  rw [List.length_take,List.length_drop] at lengths
  omega

theorem word_safe {bytes : List UInt8} (found : word content offset bytes = true) (long : bytes ≠ [])
    (tree : Within kept n v) :
    ∀ a next, some (v,offset + bytes.length) = some (a,next) → Within kept n a ∧ offset < next ∧ next ≤ content.length := by
  rintro a next ⟨⟩
  have bound := word_inside found long
  have positive := List.length_pos_iff.mpr long
  exact ⟨tree,by omega,bound⟩

/-- The dispatch, where what is nested is safe one level below. -/
theorem parse_value_of_safe {nested : Option (Parse CJson)} (strings : Safe content kept (parse_string content))
    (terminated : content.getLast? = some 0) (safe : ∀ parse ∈ nested, ∃ m, n = m + 1 ∧ Safe content (Within kept m) parse) :
    Safe content (Within kept n) (parse_value_of content nested) := by
  intro offset inside
  unfold parse_value_of
  split
  · rename_i found
    exact ⟨_,rfl,word_safe found (by simp) .null⟩
  split
  · rename_i found
    exact ⟨_,rfl,word_safe found (by simp) (.boolean false)⟩
  split
  · rename_i found
    exact ⟨_,rfl,word_safe found (by simp) (.boolean true)⟩
  split
  · exact strings.map (fun _ good => Within.string good) offset inside
  split
  · exact parse_number_safe content offset inside
  cases nested with
  | none => exact ⟨none,rfl,nofun⟩
  | some parse =>
    obtain ⟨m,rfl,deeper⟩ := safe parse rfl
    simp only
    split
    · exact parse_array_safe deeper terminated offset inside
    split
    · exact parse_object_safe strings deeper terminated offset inside
    · exact ⟨none,rfl,nofun⟩

theorem parse_value_safe (strings : Safe content kept (parse_string content)) (terminated : content.getLast? = some 0)
    (nesting : Nat) : Safe content (Within kept nesting) (parse_value content nesting) := by
  induction nesting with
  | zero => exact parse_value_of_safe strings terminated nofun
  | succ nesting ih =>
    apply parse_value_of_safe strings terminated
    rintro parse ⟨⟩
    exact ⟨nesting,rfl,ih⟩

/-- The parser is as good as what it takes for strings. -/
theorem cJSON_Parse_safe (value : CString) (strings : Safe (value.bytes ++ [0]) kept (parse_string (value.bytes ++ [0]))) :
    ∃ item, cJSON_Parse value = .ok item ∧ ∀ tree ∈ item, Within kept nestingLimit tree := by
  have filled : 0 < (value.bytes ++ [0]).length := by simp
  have marked : skip_utf8_bom (value.bytes ++ [0]) ≤ (value.bytes ++ [0]).length := by
    unfold skip_utf8_bom
    split <;> omega
  have terminated : (value.bytes ++ [(0 : UInt8)]).getLast? = some 0 := by simp
  obtain ⟨inside,_⟩ := skip_inside filled marked
  obtain ⟨item,parses,fits⟩ := parse_value_safe strings terminated nestingLimit _ inside
  refine ⟨item.map Prod.fst,?_,fun tree found => ?_⟩
  · simp only [cJSON_Parse,parses,bind,Except.bind]
  · obtain ⟨⟨v,next⟩,same,rfl⟩ := Option.map_eq_some_iff.mp found
    exact (fits v next same).1

/-- On every text the parser returns, without an access outside the text or a string's block,
and what it returns nests no deeper than the limit. -/
theorem parse_safe (value : CString) :
    ∃ item, cJSON_Parse value = .ok item ∧ ∀ tree ∈ item, Within (fun _ => True) nestingLimit tree :=
  cJSON_Parse_safe value (parse_string_safe (value.bytes ++ [0]))

end Muti.CJson
