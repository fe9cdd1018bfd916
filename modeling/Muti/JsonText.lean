import Muti.JsonSafety

/-! The JSON texts, and the trees they stand for, as a grammar of byte strings: this part is
not translated from the source. Strings hold the UTF-8 encoding of the characters that stand
in them or are escaped. The two limits of the parser are in it, on the nesting and on the
length of a number. -/
namespace Muti.CJson

open Muti.Memory

def Blank (text : List UInt8) : Prop := ∀ c ∈ text, c = 32 ∨ c = 9 ∨ c = 10 ∨ c = 13

def Digits (text : List UInt8) : Prop := text ≠ [] ∧ ∀ c ∈ text, isdigit c = true

/-- A digit other than zero begins a whole number of several digits. -/
def Whole (text : List UInt8) : Prop := Digits text ∧ (text.head? = some 48 → text = [48])

def Fraction (text : List UInt8) : Prop := text = [] ∨ ∃ digits, Digits digits ∧ text = 46 :: digits

def Exponent (text : List UInt8) : Prop := text = [] ∨ ∃ e sign digits, (e = 101 ∨ e = 69) ∧
  (sign = [] ∨ sign = [43] ∨ sign = [45]) ∧ Digits digits ∧ text = e :: (sign ++ digits)

inductive Number : List UInt8 → Prop
  | mk (signed : minus = [] ∨ minus = [45]) (whole : Whole digits) (part : Fraction point) (power : Exponent e) :
    Number (minus ++ digits ++ point ++ e)

inductive HexDigit : UInt8 → Nat → Prop
  | decimal (small : value < 10) : HexDigit (UInt8.ofNat (48 + value)) value
  | upper (large : 10 ≤ value) (small : value < 16) : HexDigit (UInt8.ofNat (55 + value)) value
  | lower (large : 10 ≤ value) (small : value < 16) : HexDigit (UInt8.ofNat (87 + value)) value

inductive Hex4 : List UInt8 → Nat → Prop
  | mk (first : HexDigit a i) (second : HexDigit b j) (third : HexDigit c k) (fourth : HexDigit d l) :
    Hex4 [a,b,c,d] (i * 4096 + j * 256 + k * 16 + l)

def shortEscapes : List (UInt8 × UInt8) :=
  [(34,34),(92,92),(47,47),(98,8),(102,12),(110,10),(114,13),(116,9)]

/-- What stands between the quotes, and the bytes of the string. -/
inductive Chars : List UInt8 → List UInt8 → Prop
  | nil : Chars [] []
  | plain (printable : 32 ≤ c) (quote : c ≠ 34) (backslash : c ≠ 92) (rest : Chars text bytes) : Chars (c :: text) (c :: bytes)
  | short (known : (e,c) ∈ shortEscapes) (rest : Chars text bytes) : Chars (92 :: e :: text) (c :: bytes)
  | unicode {char : Char} (basic : char.toNat < 0x10000) (hex : Hex4 digits char.toNat) (rest : Chars text bytes) :
    Chars (92 :: 117 :: (digits ++ text)) (String.utf8EncodeChar char ++ bytes)
  | surrogates {char : Char} (beyond : 0x10000 ≤ char.toNat) (high : Hex4 first (0xD800 + (char.toNat - 0x10000) / 0x400))
      (low : Hex4 second (0xDC00 + (char.toNat - 0x10000) % 0x400)) (rest : Chars text bytes) :
    Chars (92 :: 117 :: (first ++ 92 :: 117 :: (second ++ text))) (String.utf8EncodeChar char ++ bytes)

inductive Node where
  | value (tree : CJson)
  | member (item : CString × CJson)
  | elements (items : List CJson)
  | members (items : List (CString × CJson))

/-- A text of a value, or of what stands between brackets, with the blanks behind it but not
those in front; arrays and objects are nested to the depth given at most. -/
inductive Text : Nat → Node → List UInt8 → Prop
  | null : Text n (.value .null) [110,117,108,108]
  | false : Text n (.value (.boolean false)) [102,97,108,115,101]
  | true : Text n (.value (.boolean true)) [116,114,117,101]
  | number (shape : Number text) (short : text.length < 64) : Text n (.value .number) text
  | string (chars : Chars text bytes) : Text n (.value (.string (CString.cut bytes))) (34 :: (text ++ [34]))
  | emptyArray (blank : Blank ws) : Text (n + 1) (.value (.array [])) (91 :: (ws ++ [93]))
  | array (blank : Blank ws) (inner : Text n (.elements items) text) :
    Text (n + 1) (.value (.array items)) (91 :: (ws ++ (text ++ [93])))
  | emptyObject (blank : Blank ws) : Text (n + 1) (.value (.object [])) (123 :: (ws ++ [125]))
  | object (blank : Blank ws) (inner : Text n (.members items) text) :
    Text (n + 1) (.value (.object items)) (123 :: (ws ++ (text ++ [125])))
  | member (name : Chars key bytes) (front : Blank ws) (back : Blank ws') (item : Text n (.value v) text) :
    Text n (.member (CString.cut bytes,v)) (34 :: (key ++ 34 :: (ws ++ 58 :: (ws' ++ text))))
  | element (item : Text n (.value v) text) (blank : Blank ws) : Text n (.elements [v]) (text ++ ws)
  | elements (item : Text n (.value v) text) (blank : Blank ws) (again : Blank ws') (rest : Text n (.elements items) others) :
    Text n (.elements (v :: items)) (text ++ (ws ++ 44 :: (ws' ++ others)))
  | lastMember (item : Text n (.member m) text) (blank : Blank ws) : Text n (.members [m]) (text ++ ws)
  | members (item : Text n (.member m) text) (blank : Blank ws) (again : Blank ws') (rest : Text n (.members items) others) :
    Text n (.members (m :: items)) (text ++ (ws ++ 44 :: (ws' ++ others)))

theorem HexDigit.reads (digit : HexDigit c value) : hexDigit c = some value ∧ c ≠ 34 ∧ c ≠ 92 := by
  have all : ∀ value < 16, (value < 10 → hexDigit (UInt8.ofNat (48 + value)) = some value ∧
        UInt8.ofNat (48 + value) ≠ 34 ∧ UInt8.ofNat (48 + value) ≠ 92) ∧
      (10 ≤ value → hexDigit (UInt8.ofNat (55 + value)) = some value ∧ UInt8.ofNat (55 + value) ≠ 34 ∧
        UInt8.ofNat (55 + value) ≠ 92) ∧
      (10 ≤ value → hexDigit (UInt8.ofNat (87 + value)) = some value ∧ UInt8.ofNat (87 + value) ≠ 34 ∧
        UInt8.ofNat (87 + value) ≠ 92) := by decide
  cases digit with
  | decimal small => exact (all _ (by omega)).1 small
  | upper large small => exact (all _ small).2.1 large
  | lower large small => exact (all _ small).2.2 large

theorem HexDigit.small (digit : HexDigit c value) : value < 16 := by
  cases digit <;> omega

theorem at_drop {content rest : List UInt8} (here : content.drop offset = c :: rest) : content[offset]? = some c := by
  rw [← Nat.add_zero offset,← List.getElem?_drop,here,List.getElem?_cons_zero]

theorem read_drop {content rest : List UInt8} (here : content.drop offset = c :: rest) : read content offset = .ok c :=
  read_ok.mpr (at_drop here)

theorem drop_next {content front : List UInt8} (here : content.drop offset = front ++ back) :
    content.drop (offset + front.length) = back := by
  rw [← List.drop_drop,here,List.drop_left]

theorem drop_succ {content : List UInt8} (here : content.drop offset = c :: back) : content.drop (offset + 1) = back :=
  drop_next (show content.drop offset = [c] ++ back from here)

theorem Hex4.parse {content : List UInt8} (hex : Hex4 digits code) (here : content.drop offset = digits ++ back) :
    parse_hex4 content offset = .ok code := by
  cases hex with
  | mk first second third fourth =>
    have here1 := drop_succ here
    have here2 := drop_succ here1
    have here3 := drop_succ here2
    simp only [parse_hex4,hexDigits,read_drop here,read_drop here1,read_drop here2,read_drop here3,bind,Except.bind,
      first.reads.1,second.reads.1,third.reads.1,fourth.reads.1]
    exact congrArg Except.ok (by omega)

theorem Hex4.plain (hex : Hex4 digits code) : digits.length = 4 ∧ ∀ c ∈ digits, c ≠ 34 ∧ c ≠ 92 := by
  cases hex with
  | mk first second third fourth =>
    refine ⟨rfl,?_⟩
    intro x member
    simp only [List.mem_cons,List.not_mem_nil,or_false] at member
    rcases member with rfl | rfl | rfl | rfl
    · exact first.reads.2
    · exact second.reads.2
    · exact third.reads.2
    · exact fourth.reads.2

/-- The last byte of an encoding has the six low bits. -/
theorem last_byte (codepoint : Nat) : (codepoint ||| 0x80) &&& 0xBF = codepoint % 64 + 128 := by
  have low : (codepoint ||| 0x80) &&& 0xBF = (codepoint % 256 ||| 0x80) &&& 0xBF := by
    apply Nat.eq_of_testBit_eq
    intro i
    simp only [Nat.testBit_and,Nat.testBit_or,show 256 = 2 ^ 8 from rfl,Nat.testBit_mod_two_pow]
    by_cases small : i < 8
    · simp [small]
    · have none : Nat.testBit 0xBF i = false := Nat.testBit_lt_two_pow (Nat.lt_of_lt_of_le (by decide : 0xBF < 2 ^ 8)
        (Nat.pow_le_pow_right (by decide) (by omega)))
      simp [none]
  have all : ∀ x < 256, (x ||| 0x80) &&& 0xBF = x % 64 + 128 := by decide +kernel
  rw [low,all _ (Nat.mod_lt _ (by decide)),Nat.mod_mod_of_dvd _ (by decide)]

theorem utf8_char (char : Char) : utf8 char.toNat = some (String.utf8EncodeChar char) := by
  have two : ∀ x < 32, (x ||| 0xC0) &&& 0xFF = x + 0xC0 := by decide
  have three : ∀ x < 16, (x ||| 0xE0) &&& 0xFF = x + 0xE0 := by decide
  have four : ∀ x < 8, (x ||| 0xF0) &&& 0xFF = x + 0xF0 := by decide
  have one : ∀ x < 128, x &&& 0x7F = x := by decide
  have bound : char.toNat ≤ 0x10FFFF := by
    have valid := char.valid
    simp only [UInt32.isValidChar,Nat.isValidChar] at valid
    change char.val.toNat ≤ _
    omega
  have value : char.val.toNat = char.toNat := rfl
  simp only [utf8,String.utf8EncodeChar,value]
  by_cases ascii : char.toNat < 0x80
  · rw [if_pos ascii,if_pos (by omega)]
    simp only [encoded,Nat.sub_self,continuation,Nat.lt_irrefl,if_false,one _ ascii]
  rw [if_neg ascii,if_neg (show ¬char.toNat ≤ 0x7f by omega)]
  by_cases short : char.toNat < 0x800
  · rw [if_pos short,if_pos (show char.toNat ≤ 0x7ff by omega)]
    have top : char.toNat / 64 < 32 := by omega
    simp only [encoded,continuation,last_byte,Nat.shiftRight_eq_div_pow,Nat.reduceSub,Nat.reduceLT,if_true,Nat.reducePow,
      two _ top,Nat.mod_eq_of_lt top,List.nil_append]
  rw [if_neg short,if_neg (show ¬char.toNat ≤ 0x7ff by omega)]
  by_cases basic : char.toNat < 0x10000
  · rw [if_pos basic,if_pos (show char.toNat ≤ 0xffff by omega)]
    have top : char.toNat / 64 / 64 < 16 := by omega
    simp only [encoded,continuation,last_byte,Nat.shiftRight_eq_div_pow,Nat.reduceSub,Nat.reduceLT,if_true,Nat.reducePow,
      three _ top,List.nil_append,List.cons_append]
    rw [Nat.div_div_eq_div_mul,Nat.mod_eq_of_lt (show char.toNat / 4096 < 16 by omega)]
  · rw [if_neg basic,if_pos bound,if_neg (show ¬char.toNat ≤ 0xffff by omega)]
    have top : char.toNat / 64 / 64 / 64 < 8 := by omega
    simp only [encoded,continuation,last_byte,Nat.shiftRight_eq_div_pow,Nat.reduceSub,Nat.reduceLT,if_true,Nat.reducePow,
      four _ top,List.nil_append,List.cons_append]
    simp only [Nat.div_div_eq_div_mul,Nat.reduceMul,Nat.mod_eq_of_lt (show char.toNat / 262144 < 8 by omega)]

theorem char_bounds (char : Char) : char.toNat ≤ 0x10FFFF ∧ (char.toNat < 0xD800 ∨ 0xDFFF < char.toNat) := by
  have valid := char.valid
  simp only [UInt32.isValidChar,Nat.isValidChar] at valid
  change char.val.toNat ≤ _ ∧ (char.val.toNat < _ ∨ _ < char.val.toNat)
  omega

/-- The two halves of a surrogate pair hold ten bits each. -/
theorem pair_codepoint (beyond : 0x10000 ≤ n) (bound : n ≤ 0x10FFFF) :
    0x10000 + ((((0xD800 + (n - 0x10000) / 0x400) &&& 0x3FF) <<< 10) ||| ((0xDC00 + (n - 0x10000) % 0x400) &&& 0x3FF)) = n := by
  have mask : ∀ x, x &&& 0x3FF = x % 0x400 := fun x => Nat.and_two_pow_sub_one_eq_mod x 10
  have low : (n - 0x10000) % 0x400 < 2 ^ 10 := Nat.mod_lt _ (by decide)
  have high : (0xD800 + (n - 0x10000) / 0x400) % 0x400 = (n - 0x10000) / 0x400 := by omega
  have rest : (0xDC00 + (n - 0x10000) % 0x400) % 0x400 = (n - 0x10000) % 0x400 := by omega
  rw [mask,mask,high,rest,← Nat.shiftLeft_add_eq_or_of_lt low,Nat.shiftLeft_eq]
  omega

/-- One escape of a basic character, or two of another, stand for its encoding. -/
theorem literal_unicode {content : List UInt8} {char : Char} (here : content.drop p = 92 :: 117 :: (digits ++ back))
    (basic : char.toNat < 0x10000) (hex : Hex4 digits char.toNat) (room : p + 6 ≤ input_end) :
    utf16_literal_to_utf8 content p input_end = .ok (some (6,String.utf8EncodeChar char)) := by
  have code := hex.parse (drop_succ (drop_succ here))
  have valid := (char_bounds char).2
  rw [Nat.add_assoc] at code
  simp only [utf16_literal_to_utf8,utf16_literal,if_neg (show ¬input_end - p < 6 by omega),code,bind,Except.bind,
    if_neg (show ¬(0xDC00 ≤ char.toNat ∧ char.toNat ≤ 0xDFFF) by omega),
    if_neg (show ¬(0xD800 ≤ char.toNat ∧ char.toNat ≤ 0xDBFF) by omega),utf8_char,Option.map_some,Literal.sequence_length]

theorem literal_surrogates {content : List UInt8} {char : Char}
    (here : content.drop p = 92 :: 117 :: (first ++ 92 :: 117 :: (second ++ back))) (beyond : 0x10000 ≤ char.toNat)
    (high : Hex4 first (0xD800 + (char.toNat - 0x10000) / 0x400)) (low : Hex4 second (0xDC00 + (char.toNat - 0x10000) % 0x400))
    (room : p + 12 ≤ input_end) :
    utf16_literal_to_utf8 content p input_end = .ok (some (12,String.utf8EncodeChar char)) := by
  have code := high.parse (drop_succ (drop_succ here))
  have behind := drop_next (drop_succ (drop_succ here))
  rw [high.plain.1,Nat.add_assoc,Nat.add_assoc] at behind
  have slash := read_drop behind
  have u := read_drop (drop_succ behind)
  have other := low.parse (drop_succ (drop_succ behind))
  have bound := (char_bounds char).1
  simp only [Nat.add_assoc,Nat.reduceAdd] at code slash u other
  simp only [utf16_literal_to_utf8,utf16_literal,if_neg (show ¬input_end - p < 6 by omega),code,bind,Except.bind,
    if_neg (show ¬(0xDC00 ≤ 0xD800 + (char.toNat - 0x10000) / 0x400 ∧
      0xD800 + (char.toNat - 0x10000) / 0x400 ≤ 0xDFFF) by omega),
    if_pos (show 0xD800 ≤ 0xD800 + (char.toNat - 0x10000) / 0x400 ∧ 0xD800 + (char.toNat - 0x10000) / 0x400 ≤ 0xDBFF by omega),
    if_neg (show ¬input_end - (p + 6) < 6 by omega),Nat.add_assoc,Nat.reduceAdd,slash,u,other,ne_eq,not_true_eq_false,if_false,
    if_neg (show ¬(0xDC00 + (char.toNat - 0x10000) % 0x400 < 0xDC00 ∨
      0xDFFF < 0xDC00 + (char.toNat - 0x10000) % 0x400) by omega),
    pair_codepoint beyond bound,utf8_char,Option.map_some,Literal.sequence_length]

theorem shortEscapes_escaped : ∀ known ∈ shortEscapes, escaped known.1 = some known.2 ∧ known.1 ≠ 117 := by
  simp [shortEscapes,escaped]

theorem unescapeAll_turn {content : List UInt8} (more : p < input_end)
    (turn : unescape content p input_end = .ok (some (k,bytes))) (room : output.length + bytes.length ≤ capacity) :
    unescapeAll content capacity input_end (turns + 1) p output =
      unescapeAll content capacity input_end turns (p + k) (output ++ bytes) := by
  simp only [unescapeAll,if_pos more,turn,bind,Except.bind,store_ok room]

/-- The loop turns what stands between the quotes into the bytes of the string. -/
theorem unescapeAll_chars {content : List UInt8} (chars : Chars text bytes) (here : content.drop p = text ++ back)
    (ends : input_end = p + text.length) (enough : text.length ≤ turns) (room : output.length + bytes.length ≤ capacity) :
    unescapeAll content capacity input_end turns p output = .ok (some (output ++ bytes)) := by
  induction chars generalizing p turns output with
  | nil =>
    rw [List.append_nil]
    cases turns with
    | zero => rfl
    | succ turns => rw [unescapeAll,if_neg (by simp [ends])]
  | @plain c text bytes printable quote backslash rest ih =>
    obtain ⟨turns,rfl⟩ : ∃ n, turns = n + 1 := ⟨turns - 1,by rw [List.length_cons] at enough; omega⟩
    rw [List.length_cons] at ends enough
    rw [List.length_cons] at room
    have turn : unescape content p input_end = .ok (some (1,[c])) := by
      simp only [unescape,read_drop here,bind,Except.bind,if_pos backslash]
    rw [unescapeAll_turn (by omega) turn (by rw [List.length_singleton]; omega),
      ih (drop_succ here) (by omega) (by omega) (by rw [List.length_append,List.length_singleton]; omega),List.append_assoc]
    rfl
  | @short e c text bytes known rest ih =>
    obtain ⟨turns,rfl⟩ : ∃ n, turns = n + 1 := ⟨turns - 1,by rw [List.length_cons] at enough; omega⟩
    rw [List.length_cons,List.length_cons] at ends enough
    rw [List.length_cons] at room
    obtain ⟨stands,other⟩ := shortEscapes_escaped _ known
    have turn : unescape content p input_end = .ok (some (2,[c])) := by
      simp only [unescape,read_drop here,read_drop (drop_succ here),bind,Except.bind,ne_eq,not_true_eq_false,if_false,
        if_neg other,stands,Option.map_some]
    rw [unescapeAll_turn (by omega) turn (by rw [List.length_singleton]; omega),
      ih (drop_succ (drop_succ here)) (by omega) (by omega) (by rw [List.length_append,List.length_singleton]; omega),
      List.append_assoc]
    rfl
  | @unicode digits text bytes char basic hex rest ih =>
    obtain ⟨turns,rfl⟩ : ∃ n, turns = n + 1 := ⟨turns - 1,by rw [List.length_cons] at enough; omega⟩
    simp only [List.length_cons,List.length_append,hex.plain.1] at ends enough room
    simp only [List.cons_append,List.append_assoc] at here
    have turn : unescape content p input_end = .ok (some (6,String.utf8EncodeChar char)) := by
      simp only [unescape,read_drop here,read_drop (drop_succ here),bind,Except.bind,ne_eq,not_true_eq_false,if_false,if_true]
      exact literal_unicode here basic hex (by omega)
    have behind := drop_next (drop_succ (drop_succ here))
    rw [hex.plain.1,Nat.add_assoc,Nat.add_assoc] at behind
    rw [unescapeAll_turn (by omega) turn (by omega),ih behind (by omega) (by omega) (by rw [List.length_append]; omega),
      List.append_assoc]
  | @surrogates first second text bytes char beyond high low rest ih =>
    obtain ⟨turns,rfl⟩ : ∃ n, turns = n + 1 := ⟨turns - 1,by rw [List.length_cons] at enough; omega⟩
    simp only [List.length_cons,List.length_append,high.plain.1,low.plain.1] at ends enough room
    simp only [List.cons_append,List.append_assoc] at here
    have turn : unescape content p input_end = .ok (some (12,String.utf8EncodeChar char)) := by
      simp only [unescape,read_drop here,read_drop (drop_succ here),bind,Except.bind,ne_eq,not_true_eq_false,if_false,if_true]
      exact literal_surrogates here beyond high low (by omega)
    have middle := drop_next (drop_succ (drop_succ here))
    have behind := drop_next (drop_succ (drop_succ middle))
    rw [high.plain.1,low.plain.1] at behind
    simp only [Nat.add_assoc,Nat.reduceAdd] at behind
    rw [unescapeAll_turn (by omega) turn (by omega),ih behind (by omega) (by omega) (by rw [List.length_append]; omega),
      List.append_assoc]

theorem closing_plain (quote : c ≠ 34) (backslash : c ≠ 92) (rest : List UInt8) :
    closing (c :: rest) = (closing rest).map fun found => (found.1 + 1,found.2) := by
  rw [closing.eq_def]
  split
  · contradiction
  · rename_i same
    exact absurd (List.cons.inj same).1 quote
  · rename_i same
    exact absurd (List.cons.inj same).1 backslash
  · rename_i same
    exact absurd (List.cons.inj same).1 backslash
  · rename_i same
    rw [(List.cons.inj same).2]

theorem closing_digits (digits : List UInt8) (plain : ∀ c ∈ digits, c ≠ 34 ∧ c ≠ 92) (rest : List UInt8) :
    closing (digits ++ rest) = (closing rest).map fun found => (found.1 + digits.length,found.2) := by
  induction digits with
  | nil => simp
  | cons c digits ih =>
    obtain ⟨quote,backslash⟩ := plain c List.mem_cons_self
    rw [List.cons_append,closing_plain quote backslash,ih fun d member => plain d (List.mem_cons_of_mem _ member),Option.map_map]
    rfl

/-- The scan comes to the quote, and the block it asks for is large enough. -/
theorem closing_chars (chars : Chars text bytes) (back : List UInt8) :
    ∃ skipped, closing (text ++ 34 :: back) = some (text.length,skipped) ∧ bytes.length + skipped ≤ text.length := by
  induction chars with
  | nil => exact ⟨0,rfl,Nat.le_refl _⟩
  | plain printable quote backslash rest ih =>
    obtain ⟨skipped,found,short⟩ := ih
    refine ⟨skipped,?_,?_⟩
    · rw [List.cons_append,closing_plain quote backslash,found]
      rfl
    · rw [List.length_cons,List.length_cons]
      omega
  | short known rest ih =>
    obtain ⟨skipped,found,short⟩ := ih
    refine ⟨skipped + 1,?_,?_⟩
    · rw [List.cons_append,List.cons_append,closing,found]
      rfl
    · simp only [List.length_cons]
      omega
  | @unicode digits text bytes char basic hex rest ih =>
    obtain ⟨skipped,found,short⟩ := ih
    have four := char.utf8Size_le_four
    refine ⟨skipped + 1,?_,?_⟩
    · simp only [List.cons_append,List.append_assoc,closing,closing_digits digits hex.plain.2,found,Option.map_some,
        hex.plain.1,List.length_cons,List.length_append,Option.some.injEq,Prod.mk.injEq,and_true]
      omega
    · simp only [List.length_cons,List.length_append,hex.plain.1,String.length_utf8EncodeChar]
      omega
  | @surrogates first second text bytes char beyond high low rest ih =>
    obtain ⟨skipped,found,short⟩ := ih
    have four := char.utf8Size_le_four
    refine ⟨skipped + 2,?_,?_⟩
    · simp only [List.cons_append,List.append_assoc,closing,closing_digits first high.plain.2,
        closing_digits second low.plain.2,found,Option.map_some,high.plain.1,low.plain.1,List.length_cons,List.length_append,
        Option.some.injEq,Prod.mk.injEq,and_true]
      omega
    · simp only [List.length_cons,List.length_append,high.plain.1,low.plain.1,String.length_utf8EncodeChar]
      omega

theorem cut_terminated (bytes : List UInt8) : CString.cut (bytes ++ [0]) = CString.cut bytes := by
  unfold CString.cut
  congr 1
  rw [List.takeWhile_append]
  split
  · rename_i whole
    rw [(List.takeWhile_prefix _).eq_of_length whole]
    simp
  · rfl

theorem parse_string_chars {content : List UInt8} (chars : Chars text bytes)
    (here : content.drop offset = 34 :: (text ++ 34 :: back)) :
    parse_string content offset = .ok (some (CString.cut bytes,offset + text.length + 2)) := by
  have behind := drop_succ here
  obtain ⟨skipped,found,short⟩ := closing_chars chars back
  have fills : unescapeAll content (offset + 1 + text.length - offset - skipped + 1) (offset + 1 + text.length) text.length
      (offset + 1) [] = .ok (some ([] ++ bytes)) :=
    unescapeAll_chars chars behind rfl (Nat.le_refl _) (by rw [List.length_nil]; omega)
  have terminates : store (offset + 1 + text.length - offset - skipped + 1) ([] ++ bytes) [0] = .ok (bytes ++ [0]) :=
    store_ok (by rw [List.nil_append,List.length_singleton]; omega)
  have ends : offset + 1 + text.length + 1 = offset + text.length + 2 := by omega
  simp only [parse_string,read_drop here,bind,Except.bind,ne_eq,not_true_eq_false,if_false,behind,found,fills,terminates,
    cut_terminated,ends]

theorem takeWhile_stop {p : UInt8 → Bool} {text rest : List UInt8} (each : ∀ c ∈ text, p c = true)
    (stop : ∀ c ∈ rest.head?, p c = false) : (text ++ rest).takeWhile p = text := by
  rw [List.takeWhile_append_of_pos each]
  cases rest with
  | nil => simp
  | cons c rest => rw [List.takeWhile_cons_of_neg (by simp [stop c rfl]),List.append_nil]

theorem digit_bytes (digit : isdigit c = true) : c ≠ 43 ∧ c ≠ 45 ∧ isNumberByte c = true := by
  refine ⟨?_,?_,?_⟩
  · rintro rfl
    cases digit
  · rintro rfl
    cases digit
  · simp [isNumberByte,digit]

theorem sign_digits (signed : minus = [] ∨ minus = [43] ∨ minus = [45]) (digits : Digits text) (rest : List UInt8) :
    sign (minus ++ (text ++ rest)) = minus.length := by
  obtain ⟨some,each⟩ := digits
  rcases signed with rfl | rfl | rfl
  · cases text with
    | nil => exact absurd rfl some
    | cons c text =>
      obtain ⟨plus,minus,_⟩ := digit_bytes (each c List.mem_cons_self)
      simp [sign,plus,minus]
  · rfl
  · rfl

theorem Exponent.head (power : Exponent e) : ∀ c ∈ e.head?, isdigit c = false ∧ c ≠ 46 := by
  rcases power with rfl | ⟨e,sign,digits,rfl | rfl,_,_,rfl⟩
  · simp
  · rintro c ⟨⟩
    decide
  · rintro c ⟨⟩
    decide

theorem Exponent.length (power : Exponent e) : exponent e = e.length := by
  rcases power with rfl | ⟨e,signs,digits,letter,signed,some,rfl⟩
  · rfl
  · have found : sign (signs ++ digits) = signs.length := by
      have := sign_digits signed some []
      rwa [List.append_nil] at this
    have whole : digits.takeWhile isdigit = digits := by
      have := takeWhile_stop some.2 (by simp : ∀ c ∈ ([] : List UInt8).head?, _)
      rwa [List.append_nil] at this
    rcases letter with rfl | rfl
    all_goals
      simp only [exponent,found,List.drop_left,whole,if_neg some.1,List.length_cons,List.length_append]
      omega

theorem Number.length (shape : Number text) : strtod text = text.length := by
  cases shape with
  | @mk minus digits point e signed whole part power =>
    obtain ⟨digit,_⟩ := whole
    have stop : ∀ c ∈ (point ++ e).head?, isdigit c = false := by
      rcases part with rfl | ⟨digits,_,rfl⟩
      · exact fun c member => (power.head c member).1
      · rintro c ⟨⟩
        decide
    have front : sign (minus ++ (digits ++ (point ++ e))) = minus.length :=
      sign_digits (signed.imp_right Or.inr) digit _
    have middle : fraction (point ++ e) = point := by
      rcases part with rfl | ⟨digits,some,rfl⟩
      · rw [List.nil_append]
        unfold fraction
        split
        · exact absurd rfl (power.head 46 rfl).2
        · rfl
      · rw [List.cons_append,fraction,takeWhile_stop some.2 fun c member => (power.head c member).1]
    simp only [strtod,List.append_assoc,front,List.drop_left,takeWhile_stop digit.2 stop,middle]
    rw [if_neg (fun none => digit.1 none.1),← List.append_assoc,← List.append_assoc,← List.length_append,← List.length_append,
      List.drop_left,power.length,← List.length_append]

theorem Number.bytes (shape : Number text) : ∀ c ∈ text, isNumberByte c = true := by
  have digit : ∀ c, isdigit c = true → isNumberByte c = true := fun c digit => (digit_bytes digit).2.2
  cases shape with
  | mk signed whole part power =>
    intro c member
    simp only [List.mem_append] at member
    rcases member with ((sign | whole') | point) | e
    · rcases signed with rfl | rfl
      · cases sign
      · obtain rfl := List.mem_singleton.mp sign
        rfl
    · exact digit c (whole.1.2 c whole')
    · rcases part with rfl | ⟨digits,some,rfl⟩
      · cases point
      · rcases List.mem_cons.mp point with rfl | more
        · rfl
        · exact digit c (some.2 c more)
    · rcases power with rfl | ⟨e,sign,digits,letter,signed,some,rfl⟩
      · cases e
      · simp only [List.mem_cons,List.mem_append] at e
        rcases e with rfl | plus | more
        · rcases letter with rfl | rfl <;> rfl
        · rcases signed with rfl | rfl | rfl
          · cases plus
          · obtain rfl := List.mem_singleton.mp plus
            rfl
          · obtain rfl := List.mem_singleton.mp plus
            rfl
        · exact digit c (some.2 c more)

/-- No number goes on. -/
def Stops (back : List UInt8) : Prop := ∀ c ∈ back.head?, isNumberByte c = false

theorem parse_number_text {content : List UInt8} (shape : Number text) (short : text.length < 64)
    (here : content.drop offset = text ++ back) (stops : Stops back) :
    parse_number content offset = .ok (some (.number,offset + text.length)) := by
  have copied : ((content.drop offset).take 63).takeWhile isNumberByte = text := by
    rw [here,List.take_append,List.take_of_length_le (by omega)]
    apply takeWhile_stop shape.bytes
    intro c member
    cases more : 63 - text.length with
    | zero =>
      rw [more] at member
      cases member
    | succ n =>
      rw [more] at member
      cases back with
      | nil => cases member
      | cons d back => exact stops c member
  have some : text.length ≠ 0 := by
    cases shape with
    | mk signed whole part power =>
      have := List.length_pos_iff.mpr whole.1.1
      simp only [List.length_append]
      omega
  simp only [parse_number,copied,shape.length,if_neg some]

theorem skip_blank {content : List UInt8} (blank : Blank ws) (here : content.drop offset = ws ++ c :: rest) (visible : 32 < c) :
    buffer_skip_whitespace content offset = offset + ws.length := by
  have white : (content.drop offset).takeWhile (· ≤ 32) = ws := by
    rw [here]
    apply takeWhile_stop
    · intro d member
      rcases blank d member with rfl | rfl | rfl | rfl <;> rfl
    · rintro d ⟨⟩
      exact decide_eq_false (UInt8.not_le.mpr visible)
  have inside := congrArg List.length here
  rw [List.length_drop,List.length_append,List.length_cons] at inside
  simp only [buffer_skip_whitespace,white]
  rw [if_neg (by omega)]

theorem skip_none {content : List UInt8} (here : content.drop offset = c :: rest) (visible : 32 < c) :
    buffer_skip_whitespace content offset = offset :=
  skip_blank (by simp [Blank] : Blank []) here visible

theorem sees_drop {content : List UInt8} (here : content.drop offset = c :: rest) (d : UInt8) :
    sees content offset d = (c == d) := by
  rw [sees,at_drop here]
  rfl

theorem word_drop {content : List UInt8} (here : content.drop offset = c :: rest) (other : c ≠ d) (bytes : List UInt8) :
    word content offset (d :: bytes) = false := by
  rw [word,here,List.length_cons,List.take_succ_cons]
  exact beq_false_of_ne fun same => other (List.cons.inj same).1

def Opens (text : List UInt8) : Prop := ∃ c rest, text = c :: rest ∧ 32 < c ∧ c < 128 ∧ c ≠ 93 ∧ c ≠ 125

/-- A parser takes a text wherever it stands, unless a number goes on behind it. -/
def Valued (content : List UInt8) (parse : Parse α) (a : α) (text : List UInt8) : Prop :=
  Opens text ∧ ∀ offset back, content.drop offset = text ++ back → Stops back →
    parse offset = .ok (some (a,offset + text.length))

def Listed (content : List UInt8) (parse : Parse α) (close : UInt8) (items : List α) (text : List UInt8) : Prop :=
  Opens text ∧ items.length ≤ text.length ∧ ∀ offset start back turns head, buffer_skip_whitespace content (offset + 1) = start →
    content.drop start = text ++ close :: back → items.length ≤ turns →
    elements content parse close turns offset head = .ok (some (head ++ items,start + text.length + 1))

def Closes (c : UInt8) : Prop := 32 < c ∧ isNumberByte c = false ∧ c ≠ 44

instance (c : UInt8) : Decidable (Closes c) := inferInstanceAs (Decidable (_ ∧ _ ∧ _))

theorem Stops.blank (blank : Blank ws) (stops : isNumberByte c = false) (rest : List UInt8) : Stops (ws ++ c :: rest) := by
  cases ws with
  | nil =>
    rintro d ⟨⟩
    exact stops
  | cons d ws =>
    rintro d ⟨⟩
    rcases blank d List.mem_cons_self with rfl | rfl | rfl | rfl <;> rfl

theorem Opens.append (opens : Opens text) (back : List UInt8) : Opens (text ++ back) := by
  obtain ⟨c,rest,rfl,visible⟩ := opens
  exact ⟨c,rest ++ back,rfl,visible⟩

theorem Valued.last {content : List UInt8} {parse : Parse α} (item : Valued content parse a text) (blank : Blank ws)
    (closes : Closes close) : Listed content parse close [a] (text ++ ws) := by
  obtain ⟨opens,parses⟩ := item
  refine ⟨opens.append ws,?_,?_⟩
  · obtain ⟨c,rest,rfl,_⟩ := opens
    simp
  · intro offset start back turns head begins here some
    obtain ⟨turns,rfl⟩ : ∃ n, turns = n + 1 := ⟨turns - 1,by rw [List.length_singleton] at some; omega⟩
    rw [List.append_assoc] at here
    have behind := drop_next here
    have there := drop_next behind
    have takes := parses start _ here (.blank blank closes.2.1 back)
    simp only [elements,begins,takes,bind,Except.bind,skip_blank blank behind closes.1,sees_drop there,beq_self_eq_true,if_true,
      beq_false_of_ne closes.2.2,Bool.false_eq_true,if_false,List.length_append,Except.ok.injEq,Option.some.injEq,
      Prod.mk.injEq,true_and]
    omega

theorem Valued.more {content : List UInt8} {parse : Parse α} (item : Valued content parse a text) (blank : Blank ws)
    (again : Blank ws') (rest : Listed content parse close items others) :
    Listed content parse close (a :: items) (text ++ (ws ++ 44 :: (ws' ++ others))) := by
  obtain ⟨opens,parses⟩ := item
  obtain ⟨⟨c,others,rfl,visible,_⟩,short,goes⟩ := rest
  refine ⟨opens.append _,?_,?_⟩
  · simp only [List.length_append,List.length_cons] at short ⊢
    omega
  · intro offset start back turns head begins here some
    obtain ⟨turns,rfl⟩ : ∃ n, turns = n + 1 := ⟨turns - 1,by rw [List.length_cons] at some; omega⟩
    simp only [List.append_assoc,List.cons_append] at here
    have behind := drop_next here
    have there := drop_next behind
    have next := drop_succ there
    have takes := parses start _ here (.blank blank (by decide) _)
    have later := goes _ _ back turns (head ++ [a]) (skip_blank again next visible) (drop_next next)
      (by rw [List.length_cons] at some; omega)
    simp only [elements,begins,takes,bind,Except.bind,skip_blank blank behind (show (32 : UInt8) < 44 by decide),sees_drop there,
      beq_self_eq_true,if_true,later,List.append_assoc,List.singleton_append,Except.ok.injEq,Option.some.injEq,Prod.mk.injEq,
      true_and,List.length_append,List.length_cons]
    omega

theorem enclosed_empty {content : List UInt8} (parse : Parse α) (blank : Blank ws) (closes : Closes close)
    (here : content.drop offset = opening :: (ws ++ close :: back)) :
    enclosed content parse opening close offset = .ok (some ([],offset + ws.length + 2)) := by
  have next := drop_succ here
  simp only [enclosed,read_drop here,bind,Except.bind,ne_eq,not_true_eq_false,if_false,skip_blank blank next closes.1,
    sees_drop (drop_next next),beq_self_eq_true,if_true,Except.ok.injEq,Option.some.injEq,Prod.mk.injEq,true_and]
  omega

theorem Listed.enclosed {content : List UInt8} {parse : Parse α} (list : Listed content parse close items text)
    (blank : Blank ws)
    (other : ∀ c, c ≠ 93 → c ≠ 125 → c ≠ close) (here : content.drop offset = opening :: (ws ++ (text ++ close :: back))) :
    enclosed content parse opening close offset = .ok (some (items,offset + ws.length + text.length + 2)) := by
  obtain ⟨⟨c,rest,rfl,visible,_,array,object⟩,short,goes⟩ := list
  have next := drop_succ here
  have there := drop_next next
  have inside := congrArg List.length there
  simp only [List.length_drop,List.length_append,List.length_cons] at inside short
  have behind := skip_blank blank next visible
  have later := goes (offset + 1 + ws.length - 1) (offset + 1 + ws.length) back
    (content.length - (offset + 1 + ws.length - 1)) [] (by rw [Nat.sub_add_cancel (by omega),skip_none there visible]) there
    (by omega)
  simp only [CJson.enclosed,read_drop here,bind,Except.bind,ne_eq,not_true_eq_false,if_false,behind,sees_drop there,
    beq_false_of_ne (other c array object),Bool.false_eq_true,if_neg (show ¬content.length ≤ offset + 1 + ws.length by omega),
    later,List.nil_append,Except.ok.injEq,Option.some.injEq,Prod.mk.injEq,true_and]
  omega

theorem Valued.member {content : List UInt8} {parse : Parse CJson} (name : Chars key bytes) (front : Blank ws)
    (blank : Blank ws')
    (item : Valued content parse v text) :
    Valued content (parse_member content parse) (CString.cut bytes,v) (34 :: (key ++ 34 :: (ws ++ 58 :: (ws' ++ text)))) := by
  obtain ⟨⟨c,rest,rfl,visible,_⟩,parses⟩ := item
  refine ⟨⟨34,_,rfl,by decide,by decide,by decide,by decide⟩,?_⟩
  intro offset back here stops
  simp only [List.cons_append,List.append_assoc] at here
  have behind := drop_succ (drop_next (drop_succ here))
  have colon := drop_next behind
  have next := drop_succ colon
  have there := drop_next next
  have named := parse_string_chars name here
  rw [show offset + 1 + key.length + 1 = offset + key.length + 2 by omega] at behind colon next there
  have takes := parses _ back there stops
  simp only [parse_member,named,bind,Except.bind,skip_blank front behind (show (32 : UInt8) < 58 by decide),sees_drop colon,
    beq_self_eq_true,if_true,skip_blank blank next visible,takes,Option.map_some,Except.ok.injEq,Option.some.injEq,
    Prod.mk.injEq,true_and,List.length_cons,List.length_append]
  omega

theorem parse_value_is (content : List UInt8) (n : Nat) : ∃ nested, parse_value content n = parse_value_of content nested := by
  cases n with
  | zero => exact ⟨none,rfl⟩
  | succ n => exact ⟨some (parse_value content n),rfl⟩

def Parsed (content : List UInt8) (n : Nat) : Node → List UInt8 → Prop
  | .value tree => Valued content (parse_value content n) tree
  | .member item => Valued content (parse_member content (parse_value content n)) item
  | .elements items => Listed content (parse_value content n) 93 items
  | .members items => Listed content (parse_member content (parse_value content n)) 125 items

theorem Number.head (shape : Number text) : ∃ c rest, text = c :: rest ∧ (c = 45 ∨ isdigit c = true) := by
  cases shape with
  | @mk minus digits point e signed whole part power =>
    rcases signed with rfl | rfl
    · cases digits with
      | nil => exact absurd rfl whole.1.1
      | cons c digits => exact ⟨c,_,rfl,.inr (whole.1.2 c List.mem_cons_self)⟩
    · exact ⟨45,_,rfl,.inl rfl⟩

theorem digit_between (digit : isdigit c = true) : 48 ≤ c ∧ c ≤ 57 := by
  simpa [isdigit] using digit

theorem Number.valued (content : List UInt8) (n : Nat) (shape : Number text) (short : text.length < 64) :
    Valued content (parse_value content n) .number text := by
  obtain ⟨c,rest,rfl,first⟩ := shape.head
  have between : 32 < c ∧ c < 91 ∧ c ≠ 34 := by
    rcases first with rfl | digit
    · decide
    · obtain ⟨low,high⟩ := digit_between digit
      refine ⟨UInt8.lt_of_lt_of_le (by decide) low,UInt8.lt_of_le_of_lt high (by decide),?_⟩
      rintro rfl
      cases digit
  obtain ⟨visible,small,quote⟩ := between
  have other : ∀ d : UInt8, 91 ≤ d → c ≠ d := by
    rintro d large rfl
    exact UInt8.not_le.mpr small large
  refine ⟨⟨c,rest,rfl,visible,UInt8.lt_trans small (by decide),other _ (by decide),other _ (by decide)⟩,?_⟩
  intro offset back here stops
  obtain ⟨nested,is⟩ := parse_value_is content n
  have number : (content[offset]?.any fun c => c = 45 || isdigit c) = true := by
    rw [at_drop here]
    rcases first with rfl | digit
    · rfl
    · simp [digit]
  simp only [is,parse_value_of,word_drop here (other _ (show (91 : UInt8) ≤ 110 by decide)),
    word_drop here (other _ (show (91 : UInt8) ≤ 102 by decide)),word_drop here (other _ (show (91 : UInt8) ≤ 116 by decide)),
    sees_drop here,beq_false_of_ne quote,number,Bool.false_eq_true,if_false,if_true]
  exact parse_number_text shape short here stops

theorem parse_value_bracket {content : List UInt8} (here : content.drop offset = c :: rest) (bracket : c = 91 ∨ c = 123) :
    parse_value content (n + 1) offset =
      if c = 91 then parse_array content (parse_value content n) offset
      else parse_object content (parse_value content n) offset := by
  have number : (content[offset]?.any fun c => c = 45 || isdigit c) = false := by
    rw [at_drop here]
    rcases bracket with rfl | rfl <;> rfl
  have other : c ≠ 110 ∧ c ≠ 102 ∧ c ≠ 116 ∧ c ≠ 34 := by
    rcases bracket with rfl | rfl <;> decide
  simp only [parse_value,parse_value_of,word_drop here other.1,word_drop here other.2.1,word_drop here other.2.2.1,
    sees_drop here,beq_false_of_ne other.2.2.2,number,Bool.false_eq_true,if_false]
  rcases bracket with rfl | rfl <;> rfl

theorem Text.parsed (content : List UInt8) (text : Text n node bytes) : Parsed content n node bytes := by
  induction text with
  | @null n =>
    refine ⟨⟨110,_,rfl,by decide,by decide,by decide,by decide⟩,?_⟩
    intro offset back here stops
    obtain ⟨nested,is⟩ := parse_value_is content n
    simp only [is,parse_value_of,word,here]
    rfl
  | @false n =>
    refine ⟨⟨102,_,rfl,by decide,by decide,by decide,by decide⟩,?_⟩
    intro offset back here stops
    obtain ⟨nested,is⟩ := parse_value_is content n
    simp only [is,parse_value_of,word,here]
    rfl
  | @true n =>
    refine ⟨⟨116,_,rfl,by decide,by decide,by decide,by decide⟩,?_⟩
    intro offset back here stops
    obtain ⟨nested,is⟩ := parse_value_is content n
    simp only [is,parse_value_of,word,here]
    rfl
  | @number text n shape short => exact shape.valued content n short
  | @string text bytes n chars =>
    refine ⟨⟨34,_,rfl,by decide,by decide,by decide,by decide⟩,?_⟩
    intro offset back here stops
    obtain ⟨nested,is⟩ := parse_value_is content n
    simp only [List.cons_append,List.append_assoc,List.nil_append] at here
    simp only [is,parse_value_of,word_drop here (show (34 : UInt8) ≠ 110 by decide),
      word_drop here (show (34 : UInt8) ≠ 102 by decide),word_drop here (show (34 : UInt8) ≠ 116 by decide),sees_drop here,
      beq_self_eq_true,Bool.false_eq_true,if_false,if_true,parse_string_chars chars here,bind,Except.bind,Option.map_some,
      List.length_cons,List.length_append,List.length_nil]
    rfl
  | @emptyArray ws n blank =>
    refine ⟨⟨91,_,rfl,by decide,by decide,by decide,by decide⟩,?_⟩
    intro offset back here stops
    simp only [List.cons_append,List.append_assoc,List.nil_append] at here
    have items := enclosed_empty (parse_value content n) blank (by decide) here
    rw [parse_value_bracket here (.inl rfl),if_pos rfl,parse_array,items]
    simp [bind,Except.bind,Nat.add_assoc]
  | @array ws items text n blank inner ih =>
    refine ⟨⟨91,_,rfl,by decide,by decide,by decide,by decide⟩,?_⟩
    intro offset back here stops
    simp only [List.cons_append,List.append_assoc,List.nil_append] at here
    rw [parse_value_bracket here (.inl rfl),if_pos rfl,parse_array,ih.enclosed blank (fun c array object => array) here]
    simp [bind,Except.bind,Nat.add_assoc]
  | @emptyObject ws n blank =>
    refine ⟨⟨123,_,rfl,by decide,by decide,by decide,by decide⟩,?_⟩
    intro offset back here stops
    simp only [List.cons_append,List.append_assoc,List.nil_append] at here
    have items := enclosed_empty (parse_member content (parse_value content n)) blank (by decide) here
    rw [parse_value_bracket here (.inr rfl),if_neg (by decide),parse_object,items]
    simp [bind,Except.bind,Nat.add_assoc]
  | @object ws items text n blank inner ih =>
    refine ⟨⟨123,_,rfl,by decide,by decide,by decide,by decide⟩,?_⟩
    intro offset back here stops
    simp only [List.cons_append,List.append_assoc,List.nil_append] at here
    rw [parse_value_bracket here (.inr rfl),if_neg (by decide),parse_object,
      ih.enclosed blank (fun c array object => object) here]
    simp [bind,Except.bind,Nat.add_assoc]
  | member name front back item ih => exact ih.member name front back
  | element item blank ih => exact ih.last blank (by decide)
  | elements item blank again rest ih others => exact ih.more blank again others
  | lastMember item blank ih => exact ih.last blank (by decide)
  | members item blank again rest ih others => exact ih.more blank again others

/-- A text of a value is parsed to its tree, behind a byte order mark and blanks, and whatever
follows it. -/
theorem parse_text (text : Text nestingLimit (.value tree) bytes) (marked : mark = [] ∨ mark = [0xEF,0xBB,0xBF])
    (blank : Blank ws) (stops : Stops back) (whole : value.bytes = mark ++ (ws ++ (bytes ++ back))) :
    cJSON_Parse value = .ok (some tree) := by
  obtain ⟨⟨c,rest,rfl,visible,ascii,_⟩,parses⟩ := text.parsed (value.bytes ++ [0])
  have content : value.bytes ++ [0] = mark ++ (ws ++ (c :: (rest ++ (back ++ [0])))) := by
    simp only [whole,List.append_assoc,List.cons_append]
  have bom : skip_utf8_bom (value.bytes ++ [0]) = mark.length := by
    unfold skip_utf8_bom
    rw [content]
    rcases marked with rfl | rfl
    · refine if_neg fun found => ?_
      have first : (ws ++ (c :: (rest ++ (back ++ [0])))).head? = some 0xEF := by
        have := congrArg List.head? found.2
        rwa [List.nil_append,List.head?_take,if_neg (by decide)] at this
      cases ws with
      | nil =>
        cases first
        exact absurd ascii (by decide)
      | cons d ws =>
        cases first
        have := blank 0xEF List.mem_cons_self
        revert this
        decide
    · exact if_pos ⟨by simp only [List.length_append,List.length_cons]; omega,rfl⟩
  have behind : (value.bytes ++ [0]).drop mark.length = ws ++ (c :: (rest ++ (back ++ [0]))) := by
    rw [content,List.drop_left]
  have there : (value.bytes ++ [0]).drop (mark.length + ws.length) = c :: rest ++ (back ++ [0]) := drop_next behind
  have takes := parses _ _ there (by
    cases back with
    | nil =>
      rintro d ⟨⟩
      rfl
    | cons d back => exact stops)
  simp only [cJSON_Parse,bom,skip_blank blank behind visible,takes,bind,Except.bind,Option.map_some]

/-- `[1,"\u00e9"]` and a line feed. -/
theorem parse_text_example :
    cJSON_Parse ⟨[91,49,44,34,92,117,48,48,101,57,34,93,10],by decide⟩ =
      .ok (some (.array [.number,.string (CString.cut [0xC3,0xA9])])) := by
  have whole : Whole [49] := ⟨by simp [Digits,isdigit],by simp⟩
  have one : Number [49] := @Number.mk [] [49] [] [] (.inl rfl) whole (.inl rfl) (.inl rfl)
  have digit (value : Nat) (small : value < 10) : HexDigit (UInt8.ofNat (48 + value)) value := .decimal small
  have letter : HexDigit (UInt8.ofNat (87 + 14)) 14 := .lower (by decide) (by decide)
  have hex : Hex4 [48,48,101,57] 233 := .mk (digit 0 (by decide)) (digit 0 (by decide)) letter (digit 9 (by decide))
  have chars : Chars [92,117,48,48,101,57] [0xC3,0xA9] := .unicode (show ( 'é' : Char).toNat < 0x10000 by simp) hex .nil
  have none : Blank [] := by simp [Blank]
  have text : Text nestingLimit (.value (.array [.number,.string (CString.cut [0xC3,0xA9])]))
      [91,49,44,34,92,117,48,48,101,57,34,93] :=
    .array none (.elements (.number one (by decide)) none none (.element (.string chars) none))
  exact parse_text text (.inl rfl : [] = [] ∨ _) none (by simp [Stops]; decide : Stops [10]) rfl

end Muti.CJson
