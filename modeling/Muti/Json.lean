import Muti.Memory

/-! What the program uses of the vendored cJSON and of the string functions of the C library:
trees as `cJSON_Parse` returns them, the lookups in them, `sscanf` of one unsigned number and
`strcpy`. A null pointer is `none`. -/
namespace Muti

/-- The bytes in front of the terminating zero. -/
structure CString where
  bytes : List UInt8
  terminated : 0 ∉ bytes
  deriving DecidableEq

/-- Number nodes keep their value in fields nobody reads. -/
inductive CJson where
  | null
  | boolean (valueint : Bool)
  | number
  | string (valuestring : CString)
  | array (child : List CJson)
  | object (child : List (CString × CJson))

namespace CJson

open Muti.Memory

def valuestring : CJson → Option CString
  | .string valuestring => some valuestring
  | _ => none

def child : CJson → List (Option CString × CJson)
  | .array child => child.map fun item => (none,item)
  | .object child => child.map fun member => (some member.1,member.2)
  | _ => []

def tolower (c : UInt8) : UInt8 := if 65 ≤ c ∧ c ≤ 90 then c + 32 else c

/-- The difference of the first bytes that differ, the terminating zero among them. -/
def case_insensitive_strcmp : List UInt8 → List UInt8 → Int
  | [], [] => 0
  | a :: _, [] => (tolower a).toNat
  | [], b :: _ => -(tolower b).toNat
  | a :: as, b :: bs =>
    if tolower a = tolower b then case_insensitive_strcmp as bs else (tolower a).toNat - (tolower b).toNat

def named (string : CString) (item : Option CString × CJson) : Bool :=
  match item.1 with
  | none => false
  | some name => case_insensitive_strcmp string.bytes name.bytes == 0

def getObjectItem (object : Option CJson) (string : CString) : Option CJson :=
  match object with
  | none => none
  | some object => (object.child.find? (named string)).map Prod.snd

def getArraySize (array : Option CJson) : Int32 :=
  match array with
  | none => 0
  | some array => Int32.ofNat array.child.length

def getArrayItem (array : Option CJson) (index : Int32) : Option CJson :=
  if index < 0 then none
  else
    match array with
    | none => none
    | some array => array.child[index.toInt.toNat]?.map Prod.snd

def isspace (c : UInt8) : Bool := c = 32 || (9 ≤ c && c ≤ 13)

def isdigit (c : UInt8) : Bool := 48 ≤ c && c ≤ 57

def decimal (digits : List UInt8) : Nat := digits.foldl (fun value c => value * 10 + (c.toNat - 48)) 0

/-- `strtoul` on the digits behind the sign: too large a number becomes the largest. -/
def strtoul (negative : Bool) (digits : List UInt8) : UInt64 :=
  let value := decimal digits
  if 2 ^ 64 ≤ value then UInt64.ofNat (2 ^ 64 - 1)
  else if negative then -UInt64.ofNat value else UInt64.ofNat value

/-- One unsigned conversion of `sscanf`: white space, a sign, digits. Without a digit nothing
is converted. -/
def scanUnsigned (string : List UInt8) : Option UInt64 :=
  let (negative,rest) := match string.dropWhile isspace with
    | 45 :: rest => (true,rest)
    | 43 :: rest => (false,rest)
    | rest => (false,rest)
  match rest.takeWhile isdigit with
  | [] => none
  | digits => some (strtoul negative digits)

/-- `sscanf` reads through its first argument. -/
def sscanf (string : Option CString) : Except Fault (Option UInt64) :=
  match string with
  | none => .error .nullPointer
  | some string => .ok (scanUnsigned string.bytes)

/-- `strcpy` into a block, whose bytes behind the terminating zero stay. -/
def strcpy (dest : List UInt8) (src : Option CString) : Except Fault (List UInt8) :=
  match src with
  | none => .error .nullPointer
  | some src =>
    if dest.length < src.bytes.length + 1 then .error .outOfBounds
    else .ok (src.bytes ++ 0 :: dest.drop (src.bytes.length + 1))

theorem strcpy_ok (src : CString) (room : src.bytes.length < dest.length) :
    strcpy dest (some src) = .ok (src.bytes ++ 0 :: dest.drop (src.bytes.length + 1)) := by
  rw [strcpy,if_neg (by omega)]

/-- The first children are found by their position, while positions fit an `int`. -/
theorem getArrayItem_eq (array : CJson) (low : i < 2 ^ 31) :
    getArrayItem (some array) (Int32.ofNat i) = array.child[i]?.map Prod.snd := by
  have value : (Int32.ofNat i).toInt = i := Int32.toInt_ofNat_of_lt low
  have positive : ¬Int32.ofNat i < 0 := by
    rw [Int32.lt_iff_toInt_lt,value]
    change ¬(i : Int) < 0
    omega
  rw [getArrayItem,if_neg positive,value]
  rfl

end CJson
end Muti
