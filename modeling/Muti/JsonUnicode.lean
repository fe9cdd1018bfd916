import Muti.JsonSafety
import Muti.JsonText
import Muti.Utf8

/-! What `cJSON_Parse` takes for strings in a UTF-8 text is UTF-8, whatever is escaped in it. A
backslash, a `u` and four bytes that are no digits stand for a zero, and may cut a character in
two; but then the string ends in front of it. -/
namespace Muti.CJson

open Muti.Memory Muti.Utf8

variable {content : List UInt8}

/-- What was written is UTF-8 together with what is left to read, or up to a zero in it. -/
def Continues (output rest : List UInt8) : Prop :=
  Valid (output ++ rest) ∨ ∃ front back, output = front ++ 0 :: back ∧ Valid front

theorem hexDigit_ascii (digit : hexDigit c = some value) : value < 16 ∧ c < 128 := by
  unfold hexDigit at digit
  simp only [UInt8.le_iff_toNat_le,UInt8.lt_iff_toNat_lt,UInt8.reduceToNat] at digit ⊢
  split at digit
  · cases digit
    omega
  split at digit
  · cases digit
    omega
  split at digit
  · cases digit
    omega
  · cases digit

/-- A number other than zero is of digits only. -/
theorem hexDigits_ascii (n h : Nat) (done : hexDigits content n input h = .ok code) : code < (h + 1) * 16 ^ n ∧
    (code ≠ 0 → ∀ i < n, ∀ c, content[input + i]? = some c → c < 128) := by
  induction n generalizing input h with
  | zero =>
    cases done
    exact ⟨by omega,fun _ i none => absurd none (Nat.not_lt_zero i)⟩
  | succ n ih =>
    obtain ⟨c,here,done⟩ := bind_ok.mp done
    cases digit : hexDigit c with
    | none =>
      simp only [digit] at done
      cases done
      exact ⟨Nat.mul_pos (Nat.succ_pos h) (Nat.pow_pos (by decide)),fun nonzero => absurd rfl nonzero⟩
    | some value =>
      simp only [digit] at done
      obtain ⟨small,ascii⟩ := hexDigit_ascii digit
      obtain ⟨bound,digits⟩ := ih (h * 16 + value) done
      refine ⟨?_,fun nonzero i less d at_i => ?_⟩
      · calc code < (h * 16 + value + 1) * 16 ^ n := bound
          _ ≤ ((h + 1) * 16) * 16 ^ n := Nat.mul_le_mul_right _ (by omega)
          _ = (h + 1) * 16 ^ (n + 1) := by rw [Nat.pow_succ,Nat.mul_assoc,Nat.mul_comm 16]
      · cases i with
        | zero =>
          cases (read_ok.mp here).symm.trans at_i
          exact ascii
        | succ i => exact digits nonzero i (by omega) d (by rwa [Nat.add_right_comm,Nat.add_assoc])

theorem parse_hex4_ascii (done : parse_hex4 content input = .ok code) : code < 65536 ∧
    (code ≠ 0 → ∀ i < 4, ∀ c, content[input + i]? = some c → c < 128) := hexDigits_ascii 4 0 done

/-- A literal stands for a character; when that is not zero, the literal is ASCII. -/
theorem utf16_literal_ascii (found : utf16_literal content p input_end = .ok (some (literal,codepoint))) :
    p + literal.sequence_length ≤ input_end ∧ (∃ char : Char, char.toNat = codepoint) ∧
    (codepoint ≠ 0 → ∀ i < literal.sequence_length, 2 ≤ i → ∀ c, content[p + i]? = some c → c < 128) := by
  have scalar : codepoint ≤ 0x10FFFF ∧ (codepoint < 0xD800 ∨ 0xDFFF < codepoint) → ∃ char : Char, char.toNat = codepoint := by
    intro bounds
    have valid : codepoint.isValidChar := by
      simp only [Nat.isValidChar]
      omega
    exact ⟨Char.ofNatAux codepoint valid,rfl⟩
  unfold utf16_literal at found
  split at found
  · cases found
  rename_i room
  obtain ⟨first_code,first,found⟩ := bind_ok.mp found
  obtain ⟨bound,digits⟩ := parse_hex4_ascii first
  split at found
  · cases found
  split at found
  · rename_i high
    simp only at found
    split at found
    · cases found
    rename_i more
    obtain ⟨c,slash,found⟩ := bind_ok.mp found
    split at found
    · cases found
    rename_i backslash
    obtain rfl := not_not.mp backslash
    obtain ⟨d,u,found⟩ := bind_ok.mp found
    split at found
    · cases found
    rename_i unicode
    obtain rfl := not_not.mp unicode
    obtain ⟨second_code,second,found⟩ := bind_ok.mp found
    obtain ⟨_,digits'⟩ := parse_hex4_ascii second
    split at found
    · cases found
    rename_i low
    cases found
    have ten : ∀ x, x &&& 0x3FF < 2 ^ 10 := fun x => Nat.lt_of_le_of_lt Nat.and_le_right (by decide)
    have twenty : (first_code &&& 0x3FF) <<< 10 ||| (second_code &&& 0x3FF) < 2 ^ 20 := by
      apply Nat.or_lt_two_pow
      · rw [Nat.shiftLeft_eq]
        have := ten first_code
        omega
      · have := ten second_code
        omega
    refine ⟨by simp only [Literal.sequence_length]; omega,scalar (by omega),fun _ i less behind c at_i => ?_⟩
    simp only [Literal.sequence_length] at less
    by_cases in_first : i < 6
    · exact digits (by omega) (i - 2) (by omega) c (by rwa [show p + 2 + (i - 2) = p + i by omega])
    by_cases here : i = 6
    · cases (read_ok.mp slash).symm.trans (here ▸ at_i)
      decide
    by_cases here' : i = 7
    · cases (read_ok.mp u).symm.trans (here' ▸ at_i)
      decide
    · exact digits' (by omega) (i - 8) (by omega) c (by rwa [show p + 6 + 2 + (i - 8) = p + i by omega])
  · cases found
    refine ⟨by simp only [Literal.sequence_length]; omega,scalar (by omega),fun nonzero i less behind c at_i => ?_⟩
    simp only [Literal.sequence_length] at less
    exact digits nonzero (i - 2) (by omega) c (by rwa [show p + 2 + (i - 2) = p + i by omega])

theorem escaped_ascii (known : escaped next = some c) : next < 128 ∧ c < 128 := by
  unfold escaped at known
  split at known <;> cases known <;> decide

theorem left_ascii (ascii : ∀ i < k, ∀ c, content[p + i]? = some c → c < 128) :
    ∀ c ∈ (left content p input_end).take k, c < 128 := by
  intro c member
  obtain ⟨i,inside,rfl⟩ := List.getElem_of_mem member
  rw [List.length_take,left,List.length_take] at inside
  have same : content[p + i]? = some ((left content p input_end).take k)[i] := by
    simp only [left,List.getElem_take,List.getElem_drop]
    exact List.getElem?_eq_getElem _
  exact ascii i (by omega) _ same

/-- One turn, in a text that has been UTF-8 so far. -/
theorem unescape_valid (more : p < input_end)
    (turn : unescape content p input_end = .ok (some (k,bytes))) (valid : Valid (output ++ left content p input_end)) :
    Continues (output ++ bytes) (left content (p + k) input_end) := by
  obtain ⟨c,reads,turn⟩ := bind_ok.mp turn
  have here := read_ok.mp reads
  split at turn
  · cases turn
    rw [left_cons here more] at valid
    left
    rwa [List.append_assoc,List.singleton_append]
  rename_i backslash
  obtain rfl : c = 92 := not_not.mp backslash
  have first := left_cons here more
  obtain ⟨next,peeks,turn⟩ := bind_ok.mp turn
  have there := read_ok.mp peeks
  split at turn
  · rename_i unicode
    subst unicode
    obtain ⟨found,scans,turn⟩ := bind_ok.mp turn
    cases found with
    | none => cases turn
    | some pair =>
      obtain ⟨literal,codepoint⟩ := pair
      obtain ⟨bytes,encodes,same⟩ := Option.map_eq_some_iff.mp (Except.ok.inj turn)
      cases same
      obtain ⟨room,⟨char,rfl⟩,ascii⟩ := utf16_literal_ascii scans
      cases (utf8_char char).symm.trans encodes
      by_cases zero : char.toNat = 0
      · rw [first] at valid
        obtain ⟨front,_⟩ := valid.split (by decide)
        have nul : String.utf8EncodeChar char = [0] := by
          obtain rfl : char = Char.ofNat 0 := Char.toNat_inj.mp zero
          decide
        exact .inr ⟨output,[],by rw [nul],front⟩
      · have digits : ∀ c ∈ (left content p input_end).take literal.sequence_length, c < 128 := by
          refine left_ascii fun i less c at_i => ?_
          match i with
          | 0 =>
            cases here.symm.trans at_i
            decide
          | 1 =>
            cases there.symm.trans at_i
            decide
          | i + 2 => exact ascii zero (i + 2) less (by omega) c at_i
        have some : (left content p input_end).take literal.sequence_length ≠ [] := by
          rw [first]
          cases literal <;> exact List.cons_ne_nil _ _
        rw [← List.take_append_drop literal.sequence_length (left content p input_end)] at valid
        obtain ⟨front,back⟩ := valid.around some digits
        rw [left_drop] at back
        exact .inl ((front.append (valid_char char)).append back)
  · obtain ⟨byte,known,same⟩ := Option.map_eq_some_iff.mp (Except.ok.inj turn)
    cases same
    obtain ⟨plain,small⟩ := escaped_ascii known
    rw [first] at valid
    by_cases last : p + 1 < input_end
    · rw [left_cons there last] at valid
      have split : Valid (output ++ ([92,next] ++ left content (p + 1 + 1) input_end)) := valid
      obtain ⟨front,back⟩ := split.around (List.cons_ne_nil _ _) (by simp [plain])
      exact .inl ((front.append (valid_ascii small)).append back)
    · obtain ⟨front,_⟩ := valid.split (by decide)
      rw [left_end (by omega)]
      exact .inl (by simpa using front.append (valid_ascii small))

theorem unescapeAll_continues (inside : input_end < content.length) (turns : Nat) (enough : input_end - p ≤ turns)
    (done : unescapeAll content capacity input_end turns p output = .ok (some whole))
    (good : Continues output (left content p input_end)) : Continues whole [] := by
  induction turns generalizing p output with
  | zero =>
    cases done
    rwa [left_end (by omega)] at good
  | succ turns ih =>
    rw [unescapeAll] at done
    split at done
    case isFalse beyond =>
      cases done
      rwa [left_end (Nat.le_of_not_lt beyond)] at good
    case isTrue more =>
      obtain ⟨turn,goes,done⟩ := bind_ok.mp done
      cases turn with
      | none => cases done
      | some pair =>
        obtain ⟨k,bytes⟩ := pair
        obtain ⟨later,stores,done⟩ := bind_ok.mp done
        obtain ⟨turn,same,fits⟩ := unescape_read more inside
        cases goes.symm.trans same
        have onward := (fits k bytes rfl).1
        have appended : later = output ++ bytes := by
          rw [store] at stores
          split at stores <;> cases stores
          rfl
        refine ih (by omega) done ?_
        rw [appended]
        rcases good with valid | ⟨front,back,rfl,valid⟩
        · exact unescape_valid more goes valid
        · exact .inr ⟨front,back ++ bytes,by simp,valid⟩

/-- A string is what was written up to the first zero. -/
theorem cut_valid (good : Continues whole []) : Valid (CString.cut (whole ++ [0])).bytes := by
  have ascii : ∀ c : UInt8, decide (c ≠ 0) = false → c < 128 := by
    intro c zero
    obtain rfl : c = 0 := by simpa using zero
    decide
  rcases good with valid | ⟨front,back,rfl,valid⟩
  · rw [List.append_nil] at valid
    exact (valid.append (valid_ascii (by decide))).takeWhile ascii
  · let p (c : UInt8) : Bool := decide (c ≠ 0)
    have stops : (front ++ 0 :: (back ++ [0])).takeWhile p = front.takeWhile p := takeWhile_cut rfl front _
    rw [List.append_assoc,List.cons_append]
    change Valid ((front ++ 0 :: (back ++ [0])).takeWhile p)
    rw [stops]
    exact valid.takeWhile ascii

theorem parse_string_utf8 (utf8 : Valid content) : Safe content (fun s => Valid s.bytes) (parse_string content) := by
  intro offset inside
  obtain ⟨item,parses,fits⟩ := parse_string_safe content offset inside
  refine ⟨item,parses,fun s next same => ⟨?_,(fits s next same).2⟩⟩
  subst same
  obtain ⟨c,reads,parses⟩ := bind_ok.mp parses
  split at parses
  · cases parses
  rename_i quoted
  obtain rfl : c = 34 := not_not.mp quoted
  cases found : closing (content.drop (offset + 1)) with
  | none =>
    rw [found] at parses
    cases parses
  | some pair =>
    obtain ⟨length,skipped⟩ := pair
    rw [found] at parses
    obtain ⟨short,quote,_⟩ := closing_budget found
    obtain ⟨result,fills,parses⟩ := bind_ok.mp parses
    cases result with
    | none => cases parses
    | some whole =>
      obtain ⟨ended,stores,parses⟩ := bind_ok.mp parses
      cases parses
      rw [List.length_drop] at short
      have terminated : ended = whole ++ [0] := by
        rw [store] at stores
        split at stores <;> cases stores
        rfl
      -- the quotes on both sides are ASCII
      have behind : Valid (content.drop (offset + 1)) := by
        have at_quote := (List.getElem?_eq_some_iff.mp (read_ok.mp reads)).2
        have split : content = content.take offset ++ 34 :: content.drop (offset + 1) := by
          rw [← at_quote,← List.drop_eq_getElem_cons,List.take_append_drop]
        exact (Valid.split (split ▸ utf8) (by decide)).2
      have literal : Valid ((content.drop (offset + 1)).take length) := by
        obtain ⟨inside,at_quote⟩ := List.getElem?_eq_some_iff.mp quote
        have split : content.drop (offset + 1) = (content.drop (offset + 1)).take length ++ 34 ::
            (content.drop (offset + 1)).drop (length + 1) := by
          rw [← at_quote,← List.drop_eq_getElem_cons,List.take_append_drop]
        exact (Valid.split (split ▸ behind) (by decide)).1
      have start : Continues [] (left content (offset + 1) (offset + 1 + length)) := by
        rw [left,Nat.add_sub_cancel_left]
        exact .inl literal
      rw [terminated]
      exact cut_valid (unescapeAll_continues (by omega) length (by omega) fills start)

/-- Out of a UTF-8 text the parser makes UTF-8 strings and names only. -/
theorem parse_utf8 (value : CString) (utf8 : Valid value.bytes) :
    ∃ item, cJSON_Parse value = .ok item ∧ ∀ tree ∈ item, Within (fun s => Valid s.bytes) nestingLimit tree :=
  cJSON_Parse_safe value (parse_string_utf8 (utf8.append (valid_ascii (by decide))))

/-- `"é\ud83d\ude00"`, one character as it is and one escaped. -/
theorem parse_utf8_escapes : ∃ item, cJSON_Parse ⟨[34,0xC3,0xA9,92,117,100,56,51,100,92,117,100,101,48,48,34],by decide⟩ = .ok item ∧
    ∀ tree ∈ item, Within (fun s => Valid s.bytes) nestingLimit tree :=
  parse_utf8 ⟨[34,0xC3,0xA9,92,117,100,56,51,100,92,117,100,101,48,48,34],by decide⟩
    ⟨['"','é',Char.ofNat 92,'u','d','8','3','d',Char.ofNat 92,'u','d','e','0','0','"'],by decide⟩

end Muti.CJson
