/-
# JSON as the two ends of the signaling use it

Three pieces of library code:

* `Json::Value` as the server reads it: member access and the two conversions, each with the
  values it raises on;
* `Json::writeString` as the server writes it (`jsoncpp.cpp`): the styled layout of an object of
  strings and integers, and the quoting of a string, with the UTF-8 decoding that the quoting
  does on the way;
* `JSON.stringify` as the browser writes it, and UTF-8 as the browser sends it.

The reader is not here: it is a parameter of the model (`Observer.lean`).
-/
import Reflector.Cxx

namespace Reflector.Signaling

open Base

/-! ## 1. Values -/

/-- A value of the jsoncpp reader.  A double is known by the text `asString` gives it and by
its value. -/
inductive Json
  | null
  | bool (b : Bool)
  | int (i : ℤ)
  | real (text : Bytes) (value : ℚ)
  | str (s : Bytes)
  | arr (values : List Json)
  | obj (members : List (Bytes × Json))

namespace Json

/-- `jmessage[name]`: the member, or null when there is none; raises on a value that is neither
null nor an object. -/
def member (name : Bytes) : Json → Except Raise Json
  | .null => .ok .null
  | .obj members => .ok ((members.lookup name).getD .null)
  | _ => .error .json

/-- The text of an integer. -/
def intText (i : ℤ) : Bytes := if i < 0 then 45 :: decimal i.natAbs else decimal i.natAbs

/-- It has no characters but digits and the sign. -/
theorem notMem_intText {b : UInt8} (hb : isDigit b = false) (hminus : b ≠ 45) (i : ℤ) :
    b ∉ intText i := by
  unfold intText
  split
  · simpa [hminus] using notMem_decimal hb i.natAbs
  · exact notMem_decimal hb _

def asString : Json → Except Raise Bytes
  | .null => .ok []
  | .str s => .ok s
  | .bool b => .ok (if b then ascii "true" else ascii "false")
  | .int i => .ok (intText i)
  | .real text _ => .ok text
  | _ => .error .json

/-- `asInt`, for a 32-bit `int`. -/
def asInt : Json → Except Raise ℤ
  | .null => .ok 0
  | .bool b => .ok (if b then 1 else 0)
  | .int i => if -2 ^ 31 ≤ i ∧ i < 2 ^ 31 then .ok i else .error .json
  | .real _ q =>
    if -2 ^ 31 ≤ q ∧ q ≤ 2 ^ 31 - 1 then .ok (q.num.tdiv q.den) else .error .json
  | _ => .error .json

end Json

/-! ## 2. The server's writer -/

/-- `utf8ToCodepoint`: the code point at the front, and how many MORE bytes it took.  A
continuation byte is never checked for being one. -/
def utf8ToCodepoint (b : UInt8) (rest : Bytes) : ℕ × ℕ :=
  let first := b.toNat
  let tail (i : ℕ) : ℕ := (rest.getD i 0).toNat % 64
  if first < 0x80 then (first, 0)
  else if first < 0xE0 then
    if rest.length < 1 then (0xFFFD, 0)
    else
      let calculated := first % 32 * 64 + tail 0
      (if calculated < 0x80 then 0xFFFD else calculated, 1)
  else if first < 0xF0 then
    if rest.length < 2 then (0xFFFD, 0)
    else
      let calculated := first % 16 * 4096 + tail 0 * 64 + tail 1
      (if 0xD800 ≤ calculated ∧ calculated ≤ 0xDFFF then 0xFFFD
       else if calculated < 0x800 then 0xFFFD else calculated, 2)
  else if first < 0xF8 then
    if rest.length < 3 then (0xFFFD, 0)
    else
      let calculated := first % 8 * 262144 + tail 0 * 4096 + tail 1 * 64 + tail 2
      (if calculated < 0x10000 then 0xFFFD else calculated, 3)
  else (0xFFFD, 0)

/-- The loop of `valueToQuotedStringN` over a string: the code points it sees. -/
def codepointsAux : ℕ → Bytes → List ℕ
  | _, [] => []
  | 0, _ :: _ => []
  | n + 1, b :: rest =>
    let (cp, k) := utf8ToCodepoint b rest
    cp :: codepointsAux n (rest.drop k)

def codepoints (s : Bytes) : List ℕ := codepointsAux s.length s

/-- Four lower-case hexadecimal digits. -/
def toHex16Bit (x : ℕ) : Bytes :=
  [x / 4096 % 16, x / 256 % 16, x / 16 % 16, x % 16].map (digitChar false)

/-- The escapes both writers share. -/
def shortEscape : ℕ → Option Bytes
  | 0x22 => some (ascii "\\\"")
  | 0x5C => some (ascii "\\\\")
  | 0x08 => some (ascii "\\b")
  | 0x0C => some (ascii "\\f")
  | 0x0A => some (ascii "\\n")
  | 0x0D => some (ascii "\\r")
  | 0x09 => some (ascii "\\t")
  | _ => none

/-- One character of a quoted string: everything but printable ASCII is escaped. -/
def escapeChar (cp : ℕ) : Bytes :=
  match shortEscape cp with
  | some e => e
  | none =>
    if cp < 0x80 ∧ 0x20 ≤ cp then [UInt8.ofNat cp]
    else if cp < 0x10000 then ascii "\\u" ++ toHex16Bit cp
    else
      let cp := cp - 0x10000
      ascii "\\u" ++ toHex16Bit (cp / 1024 + 0xD800) ++ ascii "\\u" ++
        toHex16Bit (cp % 1024 + 0xDC00)

def valueToQuotedString (s : Bytes) : Bytes :=
  34 :: (codepoints s).flatMap escapeChar ++ [34]

/-- `{`, each member on a line of its own behind a tab, `}`. -/
def writeObject (members : List (Bytes × Bytes)) : Bytes :=
  ascii "\x7b" ++ (ascii ",").intercalate
    (members.map fun m => ascii "\n\t" ++ valueToQuotedString m.1 ++ ascii " : " ++ m.2)
    ++ ascii "\n\x7d"

/-! ## 3. The browser's writer -/

/-- A string of the browser, as the code points `JSON.stringify` walks over; a lone surrogate
is one of them. -/
abbrev JsString := List ℕ

/-- UTF-8. -/
def utf8 (cp : ℕ) : Bytes :=
  (if cp < 0x80 then [cp]
   else if cp < 0x800 then [0xC0 + cp / 64, 0x80 + cp % 64]
   else if cp < 0x10000 then [0xE0 + cp / 4096, 0x80 + cp / 64 % 64, 0x80 + cp % 64]
   else [0xF0 + cp / 262144 % 8, 0x80 + cp / 4096 % 64, 0x80 + cp / 64 % 64, 0x80 + cp % 64]).map
    UInt8.ofNat

/-- One character of a quoted string: control characters and lone surrogates are escaped. -/
def jsEscapeChar (cp : ℕ) : Bytes :=
  match shortEscape cp with
  | some e => e
  | none =>
    if cp < 0x20 ∨ (0xD800 ≤ cp ∧ cp ≤ 0xDFFF) then ascii "\\u" ++ toHex16Bit cp
    else utf8 cp

def jsQuote (s : JsString) : Bytes := 34 :: s.flatMap jsEscapeChar ++ [34]

/-- `JSON.stringify` of an object, its members in order. -/
def jsObject (members : List (Bytes × Bytes)) : Bytes :=
  ascii "\x7b" ++ (ascii ",").intercalate
    (members.map fun m => ascii "\"" ++ m.1 ++ ascii "\":" ++ m.2) ++ ascii "\x7d"

end Reflector.Signaling
