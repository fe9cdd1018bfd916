import Muti.Json
import Mathlib.Data.List.TakeWhile

/-! `cJSON_Parse`. A text is what `strlen` counts of it and the zero behind; a pointer into it
is a position. An access the source does not guard is a read that may be out of bounds, and
so is a byte of a string that goes behind the block allocated for it. False is `none`; where
the parser failed is not kept. -/
namespace Muti.CJson

open Muti.Memory

/-- The bytes of a block up to the first zero, as every reader of the string takes them. -/
def CString.cut (bytes : List UInt8) : CString :=
  ⟨bytes.takeWhile (· ≠ 0),fun inside => by simpa using List.mem_takeWhile_imp inside⟩

abbrev Parse (α : Type) := Nat → Except Fault (Option (α × Nat))

/-- `can_access_at_index(buffer, 0)`, and the byte there is `c`. -/
def sees (content : List UInt8) (offset : Nat) (c : UInt8) : Bool := content[offset]? == some c

def buffer_skip_whitespace (content : List UInt8) (offset : Nat) : Nat :=
  let offset := offset + ((content.drop offset).takeWhile (· ≤ 32)).length
  if offset = content.length then offset - 1 else offset

/-- The byte order mark, if more than four bytes are there. -/
def skip_utf8_bom (content : List UInt8) : Nat :=
  if 4 < content.length ∧ content.take 3 = [0xEF,0xBB,0xBF] then 3 else 0

def isNumberByte (c : UInt8) : Bool := isdigit c || c == 43 || c == 45 || c == 101 || c == 69 || c == 46

def sign (s : List UInt8) : Nat :=
  match s with
  | 43 :: _ | 45 :: _ => 1
  | _ => 0

def fraction (s : List UInt8) : List UInt8 :=
  match s with
  | 46 :: rest => 46 :: rest.takeWhile isdigit
  | _ => []

/-- An exponent without digits is none. -/
def exponent (s : List UInt8) : Nat :=
  match s with
  | 101 :: rest | 69 :: rest =>
    let digits := (rest.drop (sign rest)).takeWhile isdigit
    if digits = [] then 0 else 1 + sign rest + digits.length
  | _ => 0

/-- How many bytes `strtod` converts. It is given decimal numbers only; nobody reads the value. -/
def strtod (s : List UInt8) : Nat :=
  let rest := s.drop (sign s)
  let whole := rest.takeWhile isdigit
  let part := fraction (rest.drop whole.length)
  if whole = [] ∧ part.length ≤ 1 then 0
  else
    let mantissa := sign s + whole.length + part.length
    mantissa + exponent (s.drop mantissa)

def parse_number (content : List UInt8) : Parse CJson := fun offset =>
  let number_c_string := ((content.drop offset).take 63).takeWhile isNumberByte
  let after_end := strtod number_c_string
  if after_end = 0 then .ok none else .ok (some (.number,offset + after_end))

def hexDigit (c : UInt8) : Option Nat :=
  if 48 ≤ c ∧ c ≤ 57 then some (c.toNat - 48)
  else if 65 ≤ c ∧ c ≤ 70 then some (10 + c.toNat - 65)
  else if 97 ≤ c ∧ c ≤ 102 then some (10 + c.toNat - 97)
  else none

/-- `n` more digits; one that is none makes the whole zero. -/
def hexDigits (content : List UInt8) : Nat → Nat → Nat → Except Fault Nat
  | 0, _, h => .ok h
  | n + 1, input, h => do
    match hexDigit (← read content input) with
    | none => .ok 0
    | some digit => hexDigits content n (input + 1) (h * 16 + digit)

def parse_hex4 (content : List UInt8) (input : Nat) : Except Fault Nat := hexDigits content 4 input 0

/-- The last `n` bytes of an encoding, from the last on, and what is left of the code point. -/
def continuation : Nat → Nat → List UInt8 × Nat
  | 0, codepoint => ([],codepoint)
  | n + 1, codepoint =>
    let last := UInt8.ofNat ((codepoint ||| 0x80) &&& 0xBF)
    let before := continuation n (codepoint >>> 6)
    (before.1 ++ [last],before.2)

def encoded (utf8_length first_byte_mark codepoint : Nat) : List UInt8 :=
  let tail := continuation (utf8_length - 1) codepoint
  let first := if 1 < utf8_length then (tail.2 ||| first_byte_mark) &&& 0xFF else tail.2 &&& 0x7F
  UInt8.ofNat first :: tail.1

def utf8 (codepoint : Nat) : Option (List UInt8) :=
  if codepoint < 0x80 then some (encoded 1 0 codepoint)
  else if codepoint < 0x800 then some (encoded 2 0xC0 codepoint)
  else if codepoint < 0x10000 then some (encoded 3 0xE0 codepoint)
  else if codepoint ≤ 0x10FFFF then some (encoded 4 0xF0 codepoint)
  else none

/-- A literal is one sequence or, for a surrogate pair, two of them. -/
inductive Literal where
  | single
  | pair
  deriving DecidableEq, Repr

@[simp] def Literal.sequence_length : Literal → Nat
  | .single => 6
  | .pair => 12

/-- The code point of a literal; `none` where the literal is not one. -/
def utf16_literal (content : List UInt8) (first_sequence input_end : Nat) :
    Except Fault (Option (Literal × Nat)) := do
  if input_end - first_sequence < 6 then .ok none
  else
    let first_code ← parse_hex4 content (first_sequence + 2)
    if 0xDC00 ≤ first_code ∧ first_code ≤ 0xDFFF then .ok none
    else if 0xD800 ≤ first_code ∧ first_code ≤ 0xDBFF then
      let second_sequence := first_sequence + 6
      if input_end - second_sequence < 6 then .ok none
      else if (← read content second_sequence) ≠ 92 then .ok none
      else if (← read content (second_sequence + 1)) ≠ 117 then .ok none
      else
        let second_code ← parse_hex4 content (second_sequence + 2)
        if second_code < 0xDC00 ∨ 0xDFFF < second_code then .ok none
        else .ok (some (.pair,0x10000 + (((first_code &&& 0x3FF) <<< 10) ||| (second_code &&& 0x3FF))))
    else .ok (some (.single,first_code))

def utf16_literal_to_utf8 (content : List UInt8) (input_pointer input_end : Nat) :
    Except Fault (Option (Nat × List UInt8)) := do
  match ← utf16_literal content input_pointer input_end with
  | none => .ok none
  | some (literal,codepoint) => .ok ((utf8 codepoint).map fun bytes => (literal.sequence_length,bytes))

/-- To the closing quote: how far it is, and how many escapes are in front of it. -/
def closing : List UInt8 → Option (Nat × Nat)
  | [] => none
  | 34 :: _ => some (0,0)
  | [92] => none
  | 92 :: _ :: rest => (closing rest).map fun found => (found.1 + 2,found.2 + 1)
  | _ :: rest => (closing rest).map fun found => (found.1 + 1,found.2)

def escaped (c : UInt8) : Option UInt8 :=
  match c with
  | 98 => some 8
  | 102 => some 12
  | 110 => some 10
  | 114 => some 13
  | 116 => some 9
  | 34 | 92 | 47 => some c
  | _ => none

/-- One turn over the literal: how far it gets, and what it appends. -/
def unescape (content : List UInt8) (input_pointer input_end : Nat) : Except Fault (Option (Nat × List UInt8)) := do
  let c ← read content input_pointer
  if c ≠ 92 then .ok (some (1,[c]))
  else
    let next ← read content (input_pointer + 1)
    if next = 117 then utf16_literal_to_utf8 content input_pointer input_end
    else .ok ((escaped next).map fun c => (2,[c]))

/-- `*output_pointer++` for each byte, in a block of `capacity` bytes. -/
def store (capacity : Nat) (output bytes : List UInt8) : Except Fault (List UInt8) :=
  if output.length + bytes.length ≤ capacity then .ok (output ++ bytes) else .error .outOfBounds

/-- The loop over the literal. A turn takes a byte at least, so there are no more turns than
bytes. -/
def unescapeAll (content : List UInt8) (capacity input_end : Nat) :
    Nat → Nat → List UInt8 → Except Fault (Option (List UInt8))
  | 0, _, output => .ok (some output)
  | turns + 1, input_pointer, output =>
    if input_pointer < input_end then do
      match ← unescape content input_pointer input_end with
      | none => .ok none
      | some (sequence_length,bytes) =>
        let output ← store capacity output bytes
        unescapeAll content capacity input_end turns (input_pointer + sequence_length) output
    else .ok (some output)

def parse_string (content : List UInt8) : Parse CString := fun offset => do
  if (← read content offset) ≠ 34 then .ok none
  else
    match closing (content.drop (offset + 1)) with
    | none => .ok none
    | some (length,skipped_bytes) =>
      let input_end := offset + 1 + length
      let allocation_length := input_end - offset - skipped_bytes
      match ← unescapeAll content (allocation_length + 1) input_end length (offset + 1) [] with
      | none => .ok none
      | some output =>
        let output ← store (allocation_length + 1) output [0]
        .ok (some (CString.cut output,input_end + 1))

/-- The loop over comma separated elements, each one a turn that begins behind a comma or the
opening bracket, and so takes a byte at least. -/
def elements (content : List UInt8) (parse_element : Parse α) (close : UInt8) : Nat → Nat → List α →
    Except Fault (Option (List α × Nat))
  | 0, _, _ => .ok none
  | turns + 1, offset, head => do
    match ← parse_element (buffer_skip_whitespace content (offset + 1)) with
    | none => .ok none
    | some (item,offset) =>
      let offset := buffer_skip_whitespace content offset
      if sees content offset 44 then elements content parse_element close turns offset (head ++ [item])
      else if sees content offset close then .ok (some (head ++ [item],offset + 1))
      else .ok none

/-- What arrays and objects share: an opening bracket, and nothing or elements up to the
closing one. -/
def enclosed (content : List UInt8) (parse_element : Parse α) (opening close : UInt8) : Parse (List α) :=
  fun offset => do
    if (← read content offset) ≠ opening then .ok none
    else
      let behind := buffer_skip_whitespace content (offset + 1)
      if sees content behind close then .ok (some ([],behind + 1))
      -- at the end of the text
      else if content.length ≤ behind then .ok none
      else elements content parse_element close (content.length - (behind - 1)) (behind - 1) []

def parse_array (content : List UInt8) (parse_value : Parse CJson) : Parse CJson := fun offset => do
  let item ← enclosed content parse_value 91 93 offset
  .ok (item.map fun found => (.array found.1,found.2))

def parse_member (content : List UInt8) (parse_value : Parse CJson) : Parse (CString × CJson) := fun offset => do
  match ← parse_string content offset with
  | none => .ok none
  | some (name,offset) =>
    let offset := buffer_skip_whitespace content offset
    if sees content offset 58 then
      let item ← parse_value (buffer_skip_whitespace content (offset + 1))
      .ok (item.map fun found => ((name,found.1),found.2))
    else .ok none

def parse_object (content : List UInt8) (parse_value : Parse CJson) : Parse CJson := fun offset => do
  let item ← enclosed content (parse_member content parse_value) 123 125 offset
  .ok (item.map fun found => (.object found.1,found.2))

def word (content : List UInt8) (offset : Nat) (bytes : List UInt8) : Bool :=
  (content.drop offset).take bytes.length == bytes

/-- The dispatch on the first byte. `nested` parses the values inside arrays and objects, if
these may be nested deeper. -/
def parse_value_of (content : List UInt8) (nested : Option (Parse CJson)) : Parse CJson := fun offset =>
  if word content offset [110,117,108,108] then .ok (some (.null,offset + 4))
  else if word content offset [102,97,108,115,101] then .ok (some (.boolean false,offset + 5))
  else if word content offset [116,114,117,101] then .ok (some (.boolean true,offset + 4))
  else if sees content offset 34 then do
    let item ← parse_string content offset
    .ok (item.map fun found => (.string found.1,found.2))
  else if (content[offset]?.any fun c => c = 45 || isdigit c) then parse_number content offset
  else
    match nested with
    | none => .ok none
    | some parse_value =>
      if sees content offset 91 then parse_array content parse_value offset
      else if sees content offset 123 then parse_object content parse_value offset
      else .ok none

/-- The number is `CJSON_NESTING_LIMIT` less the depth. -/
def parse_value (content : List UInt8) : Nat → Parse CJson
  | 0 => parse_value_of content none
  | nesting + 1 => parse_value_of content (some (parse_value content nesting))

def nestingLimit : Nat := 1000

def cJSON_Parse (value : CString) : Except Fault (Option CJson) := do
  let content := value.bytes ++ [0]
  let item ← parse_value content nestingLimit (buffer_skip_whitespace content (skip_utf8_bom content))
  .ok (item.map Prod.fst)

end Muti.CJson
