import HeadFwd.Text.Bytes

/-! # JavaScript values

Strings of UTF-16 code units and the values that `JSON.parse` returns, with the
conversions that the language applies to them without being asked.
-/

namespace HeadFwd.Js

open Text

abbrev JsString := List UInt16

/-- A string literal. -/
def js (s : String) : JsString := s.toList.map fun c => UInt16.ofNat c.toNat

/-- ASCII text as a string. -/
def ofAscii (s : Bytes) : JsString := s.map UInt8.toUInt16

/-- The encoding of one code unit outside a surrogate pair. Lone surrogates are replaced. -/
def utf8Unit (a : UInt16) : Bytes :=
  let n := a.toNat
  if n < 0x80 then [UInt8.ofNat n]
  else if n < 0x800 then [UInt8.ofNat (0xC0 + n / 64), UInt8.ofNat (0x80 + n % 64)]
  else if 0xD800 ≤ n ∧ n < 0xE000 then [0xEF, 0xBF, 0xBD]
  else [UInt8.ofNat (0xE0 + n / 4096), UInt8.ofNat (0x80 + n / 64 % 64), UInt8.ofNat (0x80 + n % 64)]

def utf8Pair (a b : UInt16) : Bytes :=
  let n := 0x10000 + (a.toNat - 0xD800) * 1024 + (b.toNat - 0xDC00)
  [UInt8.ofNat (0xF0 + n / 2 ^ 18), UInt8.ofNat (0x80 + n / 2 ^ 12 % 64),
    UInt8.ofNat (0x80 + n / 64 % 64), UInt8.ofNat (0x80 + n % 64)]

/-- The bytes that `TextEncoder` gives. -/
def utf8 : JsString → Bytes
  | [] => []
  | [a] => utf8Unit a
  | a :: b :: s =>
    if 0xD800 ≤ a ∧ a < 0xDC00 ∧ 0xDC00 ≤ b ∧ b < 0xE000 then utf8Pair a b ++ utf8 s
    else utf8Unit a ++ utf8 (b :: s)

/-- ASCII upper-case letters to lower case. -/
def lowerUnit (a : UInt16) : UInt16 := if 0x41 ≤ a ∧ a ≤ 0x5A then a + 0x20 else a

/-- The white space and line terminators that number conversions skip. -/
def isSpace (a : UInt16) : Bool :=
  0x09 ≤ a && a ≤ 0x0D || a = 0x20 || a = 0xA0 || a = 0xFEFF || a = 0x1680 ||
    0x2000 ≤ a && a ≤ 0x200A || a = 0x2028 || a = 0x2029 || a = 0x202F || a = 0x205F || a = 0x3000

def hexUnit (a : UInt16) : Option ℕ := if a < 0x80 then hexVal a.toUInt8 else none

/-- The value of the leading hexadecimal digits, if there are any. -/
def leadingHex (s : JsString) : Option ℕ :=
  match (s.takeWhile fun a => (hexUnit a).isSome).filterMap hexUnit with
  | [] => none
  | ds => some (ds.foldl (fun n d => 16 * n + d) 0)

/-- `parseInt(s, 16)`; `none` is `NaN`. -/
def parseHex (s : JsString) : Option ℤ :=
  let unsigned (s : JsString) : Option ℕ :=
    match s with
    | 0x30 :: x :: t => if lowerUnit x = 0x78 then leadingHex t else leadingHex s
    | _ => leadingHex s
  match s.dropWhile isSpace with
  | 0x2D :: t => (unsigned t).map fun n => -(n : ℤ)
  | 0x2B :: t => (unsigned t).map Int.ofNat
  | t => (unsigned t).map Int.ofNat

/-- The values the programs handle. A number is kept as its string conversion, which determines it
up to the sign of zero; object keys are distinct. -/
inductive JsValue where
  | undefined
  | null
  | bool (b : Bool)
  | number (text : JsString)
  | string (s : JsString)
  | array (xs : List JsValue)
  | object (fields : List (JsString × JsValue))

namespace JsValue

def truthy : JsValue → Bool
  | .undefined => false
  | .null => false
  | .bool b => b
  | .number text => text ≠ js "0"
  | .string s => s ≠ []
  | .array _ => true
  | .object _ => true

mutual

/-- Conversion to a string; `none` is a `TypeError`. An own property `toString` hides the inherited
method, and no value out of JSON can be called. -/
def text : JsValue → Option JsString
  | .undefined => some (js "undefined")
  | .null => some (js "null")
  | .bool b => some (js (if b then "true" else "false"))
  | .number text => some text
  | .string s => some s
  | .array xs => (texts xs).map fun ts => [0x2C].intercalate ts
  | .object fields =>
    if fields.any fun f => f.1 = js "toString" then none else some (js "[object Object]")

/-- The elements of an array as `join` converts them. -/
def texts : List JsValue → Option (List JsString)
  | [] => some []
  | .undefined :: xs => (texts xs).map ([] :: ·)
  | .null :: xs => (texts xs).map ([] :: ·)
  | x :: xs => do
    let t ← text x
    let ts ← texts xs
    return t :: ts

end

/-- A property that no prototype has; `none` is the `TypeError` on `undefined` and `null`. -/
def get (v : JsValue) (name : JsString) : Option JsValue :=
  match v with
  | .undefined => none
  | .null => none
  | .object fields => some ((fields.lookup name).getD .undefined)
  | _ => some .undefined

end JsValue

end HeadFwd.Js
