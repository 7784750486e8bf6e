/-
# The JSON reader (`OurReader`, `jsoncpp.cpp`)

`CharReaderBuilder::newCharReader` with the settings it is built with, which is how the observer
reads both kinds of payload: comments are allowed and collected, nothing after the value is an
error, single quotes, numeric keys, dropped nulls and special floats are off, a later member
replaces an earlier one of its name, and `stackLimit` is 1000.

A location of the source is what is left of the document behind it: `current_` is a list, and
`current_ == end_` is the empty list.  A load that no comparison with the end guards goes through
`deref`, which fails at the end.  What the reader throws is a `Fault`; a value it refuses is
`none`, and with it the reader goes on as the source does.  The messages and offsets it collects
for refused documents are left out, as nothing reads them.

`readValue` calls itself through `readObject` and `readArray`.  It recurses on the room the stack
of values has left, so the stack limit is what makes the recursion end.
-/
import Reflector.Signaling.Json

namespace Reflector.Jsoncpp

open Base Signaling

/-! ## 1. Faults and tokens -/

/-- How the reader can fail to return. -/
inductive Fault
  /-- `Json::RuntimeError`. -/
  | runtimeError
  /-- `Json::LogicError`. -/
  | logicError
  /-- A load at the end of the document or of a token. -/
  | outOfBounds
  /-- Not a behaviour of the source: a loop that was given too few turns. -/
  | outOfFuel
  deriving DecidableEq, Repr

/-- `*current++`. -/
def deref : Bytes → Except Fault (UInt8 × Bytes)
  | [] => .error .outOfBounds
  | b :: rest => .ok (b, rest)

/-- The three special floats are off, so no token has their types. -/
inductive TokenType
  | endOfStream | objectBegin | objectEnd | arrayBegin | arrayEnd | string | number
  | true | false | null | arraySeparator | memberSeparator | comment | error
  deriving DecidableEq, Repr

/-- A token, and its text from `start_` to `end_`. -/
structure Token where
  type : TokenType
  text : Bytes
  deriving DecidableEq, Repr

/-- The text from one location to a later one. -/
def between (start finish : Bytes) : Bytes := start.take (start.length - finish.length)

/-- What the reader keeps from token to token.  `lastValueEnd` is null until a value has been
read; `lastValue_` is set with it, and is never looked into. -/
structure OurReader where
  current : Bytes
  lastValueEnd : Option Bytes
  commentsBefore : Bytes
  deriving DecidableEq, Repr

def stackLimit : ℕ := 1000

/-! ## 2. Scanning -/

def isBlank (c : UInt8) : Bool := c = 0x20 || c = 0x09 || c = 0x0D || c = 0x0A

def skipSpaces (current : Bytes) : Bytes := current.dropWhile isBlank

/-- `match`: whether the pattern is next, and where the reader goes on. -/
def matchPattern (pattern current : Bytes) : Bool × Bytes :=
  if pattern <+: current then (true, current.drop pattern.length) else (false, current)

def skipDigits (current : Bytes) : Bytes := current.dropWhile isDigit

/-- The fraction of a number, if there is one. -/
def skipFraction : Bytes → Bytes
  | [] => []
  | c :: rest => if c = 0x2E then skipDigits rest else c :: rest

def skipSign : Bytes → Bytes
  | [] => []
  | c :: rest => if c = 0x2B ∨ c = 0x2D then rest else c :: rest

/-- The exponent of a number, if there is one. -/
def skipExponent : Bytes → Bytes
  | [] => []
  | c :: rest => if c = 0x65 ∨ c = 0x45 then skipDigits (skipSign rest) else c :: rest

/-- `readNumber`, behind the first character. -/
def readNumber (current : Bytes) : Bytes :=
  skipExponent (skipFraction (skipDigits current))

/-- `readString`, behind the opening quote: whether there is a closing one. -/
def readString : Bytes → Bool × Bytes
  | [] => (false, [])
  | c :: rest =>
    if c = 0x5C then
      match rest with
      | [] => (false, [])
      | _ :: rest => readString rest
    else if c = 0x22 then (true, rest)
    else readString rest

/-- `readToken`'s switch, but for the two characters that lead to `readComment`. -/
def scanToken (c : UInt8) (rest : Bytes) : TokenType × Bytes :=
  let literal (type : TokenType) (pattern : Bytes) : TokenType × Bytes :=
    match matchPattern pattern rest with
    | (true, rest) => (type, rest)
    | (false, rest) => (.error, rest)
  match c with
  | 0x7B => (.objectBegin, rest)
  | 0x7D => (.objectEnd, rest)
  | 0x5B => (.arrayBegin, rest)
  | 0x5D => (.arrayEnd, rest)
  | 0x22 =>
    match readString rest with
    | (true, rest) => (.string, rest)
    | (false, rest) => (.error, rest)
  | 0x2D =>
    -- `-Infinity` is off
    if rest.head? = some 0x49 then (.error, rest.tail) else (.number, readNumber rest)
  | 0x74 => literal .true (ascii "rue")
  | 0x66 => literal .false (ascii "alse")
  | 0x6E => literal .null (ascii "ull")
  | 0x2C => (.arraySeparator, rest)
  | 0x3A => (.memberSeparator, rest)
  | 0 => (.endOfStream, rest)
  | c => if isDigit c then (.number, readNumber rest) else (.error, rest)

/-! ## 3. Comments -/

def containsNewLine (text : Bytes) : Bool := text.any fun c => c = 0x0A || c = 0x0D

/-- `normalizeEOL`: every end of line becomes a line feed. -/
def normalizeEOL : Bytes → Bytes
  | [] => []
  | [c] => [if c = 0x0D then 0x0A else c]
  | c :: next :: rest =>
    if c = 0x0D then
      if next = 0x0A then 0x0A :: normalizeEOL rest else 0x0A :: normalizeEOL (next :: rest)
    else c :: normalizeEOL (next :: rest)

/-- `readCStyleComment`.  The loop stops before the last character, which ends the comment if it
is a slash, whatever stands before it. -/
def readCStyleComment : Bytes → Bool × Bytes
  | [] => (false, [])
  | [c] => (c = 0x2F, [])
  | c :: next :: rest =>
    if c = 0x2A ∧ next = 0x2F then (true, rest) else readCStyleComment (next :: rest)

def readCppStyleComment : Bytes → Bytes
  | [] => []
  | c :: rest =>
    if c = 0x0A then rest
    else if c = 0x0D then (if rest.head? = some 0x0A then rest.tail else rest)
    else readCppStyleComment rest

/-- The branches of `readComment`, on the second character of the comment. -/
def scanComment (c : UInt8) (rest : Bytes) : Bool × Bytes :=
  if c = 0x2A then readCStyleComment rest
  else if c = 0x2F then (true, readCppStyleComment rest)
  else (false, rest)

/-- `Value::setComment`: all it can do to the reader is throw. -/
def setComment (comment : Bytes) : Except Fault Unit :=
  match (if comment.getLast? = some 0x0A then comment.dropLast else comment) with
  | [] => .error .logicError
  | c :: _ => if c = 0 ∨ c = 0x2F then .ok () else .error .logicError

namespace OurReader

def addComment (r : OurReader) (comment : Bytes) (afterOnSameLine : Bool) :
    Except Fault OurReader :=
  if afterOnSameLine then do
    setComment (normalizeEOL comment)
    .ok r
  else .ok { r with commentsBefore := r.commentsBefore ++ normalizeEOL comment }

/-- `readComment`, behind the first character of the comment, which is at `commentBegin`. -/
def readComment (r : OurReader) (commentBegin : Bytes) : Except Fault (Bool × OurReader) :=
  match r.current with
  | [] => .ok (false, r)
  | c :: rest =>
    let (successful, rest) := scanComment c rest
    let r := { r with current := rest }
    if successful then do
      let comment := between commentBegin rest
      let onSameLine := match r.lastValueEnd with
        | none => false
        | some lastValueEnd => !containsNewLine (between lastValueEnd commentBegin)
      let r ← r.addComment comment (onSameLine && (c ≠ 0x2A || !containsNewLine comment))
      .ok (true, r)
    else .ok (false, r)

/-- `readToken`; a single quote falls through to the slash. -/
def readToken (r : OurReader) : Except Fault (Token × OurReader) :=
  match skipSpaces r.current with
  | [] => .ok (⟨.endOfStream, []⟩, { r with current := [] })
  | c :: rest =>
    if c = 0x27 ∨ c = 0x2F then do
      let (ok, r) ← readComment { r with current := rest } (c :: rest)
      .ok (⟨if ok then .comment else .error, between (c :: rest) r.current⟩, r)
    else
      let (type, current) := scanToken c rest
      .ok (⟨type, between (c :: rest) current⟩, { r with current := current })

/-- The loop of `skipCommentTokens`, which `readObject` and `readArray` write out. -/
def skipCommentTokensLoop : ℕ → OurReader → Except Fault (Token × OurReader)
  | 0, _ => .error .outOfFuel
  | n + 1, r => do
    let (token, r) ← r.readToken
    if token.type = .comment then skipCommentTokensLoop n r else .ok (token, r)

def skipCommentTokens (r : OurReader) : Except Fault (Token × OurReader) :=
  skipCommentTokensLoop (r.current.length + 1) r

/-- The loop of `recoverFromError`. -/
def recoverLoop (skipUntilToken : TokenType) : ℕ → OurReader → Except Fault OurReader
  | 0, _ => .error .outOfFuel
  | n + 1, r => do
    let (skip, r) ← r.readToken
    if skip.type = skipUntilToken ∨ skip.type = .endOfStream then .ok r
    else recoverLoop skipUntilToken n r

/-- `recoverFromError`: skip to this token, and refuse. -/
def recoverFromError {α : Type} (r : OurReader) (skipUntilToken : TokenType) :
    Except Fault (Option α × OurReader) := do
  let r ← recoverLoop skipUntilToken (r.current.length + 1) r
  .ok (none, r)

end OurReader

/-! ## 4. Decoding -/

/-- The loop of `decodeNumber`; `none` is a jump to `decodeDouble`. -/
def decodeDigits (threshold lastDigit : ℕ) : ℕ → Bytes → Option ℕ
  | value, [] => some value
  | value, c :: rest =>
    if isDigit c then
      let digit := c.toNat - 48
      if threshold ≤ value ∧ (threshold < value ∨ rest ≠ [] ∨ lastDigit < digit) then none
      else decodeDigits threshold lastDigit (value * 10 + digit) rest
    else none

/-- `decodeNumber`.  `sscanf` is what `sscanf("%lf")` makes of a text: the double, as the text
`asString` gives it and as its value, if there is one.  `-2 ^ 63` comes out of a negation that
wraps around. -/
def decodeNumber (sscanf : Bytes → Option (Bytes × ℚ)) (text : Bytes) :
    Except Fault (Option Json) := do
  let (c, rest) ← deref text
  let decodeDouble := (sscanf text).map fun d => Json.real d.1 d.2
  if c = 0x2D then
    .ok (match decodeDigits ((2 ^ 63) / 10) ((2 ^ 63) % 10) 0 rest with
      | some value => some (.int (-value))
      | none => decodeDouble)
  else
    .ok (match decodeDigits ((2 ^ 64 - 1) / 10) ((2 ^ 64 - 1) % 10) 0 text with
      | some value => some (.int value)
      | none => decodeDouble)

def hexDigit (c : UInt8) : Option ℕ :=
  if 0x30 ≤ c ∧ c ≤ 0x39 then some (c.toNat - 0x30)
  else if 0x61 ≤ c ∧ c ≤ 0x66 then some (c.toNat - 0x61 + 10)
  else if 0x41 ≤ c ∧ c ≤ 0x46 then some (c.toNat - 0x41 + 10)
  else none

/-- The loop of `decodeUnicodeEscapeSequence`. -/
def hexLoop : ℕ → ℕ → Bytes → Except Fault (Option (ℕ × Bytes))
  | 0, unicode, current => .ok (some (unicode, current))
  | n + 1, unicode, current => do
    let (c, current) ← deref current
    match hexDigit c with
    | none => .ok none
    | some d => hexLoop n (unicode * 16 + d) current

def decodeUnicodeEscapeSequence (current : Bytes) : Except Fault (Option (ℕ × Bytes)) :=
  if current.length < 4 then .ok none else hexLoop 4 0 current

/-- `decodeUnicodeCodePoint`.  The second half of a pair is not checked for being one. -/
def decodeUnicodeCodePoint (current : Bytes) : Except Fault (Option (ℕ × Bytes)) := do
  match ← decodeUnicodeEscapeSequence current with
  | none => .ok none
  | some (unicode, current) =>
    if 0xD800 ≤ unicode ∧ unicode ≤ 0xDBFF then
      if current.length < 6 then .ok none
      else do
        let (b, current) ← deref current
        if b = 0x5C then do
          let (u, current) ← deref current
          if u = 0x75 then do
            match ← decodeUnicodeEscapeSequence current with
            | none => .ok none
            | some (surrogatePair, current) =>
              .ok (some (0x10000 + unicode % 0x400 * 0x400 + surrogatePair % 0x400, current))
          else .ok none
        else .ok none
    else .ok (some (unicode, current))

def codePointToUTF8 (cp : ℕ) : Bytes :=
  if cp ≤ 0x7F then [UInt8.ofNat cp]
  else if cp ≤ 0x7FF then [UInt8.ofNat (0xC0 + cp / 64 % 32), UInt8.ofNat (0x80 + cp % 64)]
  else if cp ≤ 0xFFFF then
    [UInt8.ofNat (0xE0 + cp / 4096 % 16), UInt8.ofNat (0x80 + cp / 64 % 64),
      UInt8.ofNat (0x80 + cp % 64)]
  else if cp ≤ 0x10FFFF then
    [UInt8.ofNat (0xF0 + cp / 262144 % 8), UInt8.ofNat (0x80 + cp / 4096 % 64),
      UInt8.ofNat (0x80 + cp / 64 % 64), UInt8.ofNat (0x80 + cp % 64)]
  else []

/-- What stands behind the backslash of a short escape. -/
def shortUnescape : UInt8 → Option UInt8
  | 0x22 => some 0x22
  | 0x2F => some 0x2F
  | 0x5C => some 0x5C
  | 0x62 => some 0x08
  | 0x66 => some 0x0C
  | 0x6E => some 0x0A
  | 0x72 => some 0x0D
  | 0x74 => some 0x09
  | _ => none

/-- The loop of `decodeString`, from `current` to `end`. -/
def decodeStringLoop : ℕ → Bytes → Bytes → Except Fault (Option Bytes)
  | 0, _, _ => .error .outOfFuel
  | n + 1, decoded, current =>
    match current with
    | [] => .ok (some decoded)
    | c :: current =>
      if c = 0x22 then .ok (some decoded)
      else if c = 0x5C then
        match current with
        | [] => .ok none
        | escape :: current =>
          match shortUnescape escape with
          | some b => decodeStringLoop n (decoded ++ [b]) current
          | none =>
            if escape = 0x75 then do
              match ← decodeUnicodeCodePoint current with
              | none => .ok none
              | some (unicode, current) =>
                decodeStringLoop n (decoded ++ codePointToUTF8 unicode) current
            else .ok none
      else decodeStringLoop n (decoded ++ [c]) current

/-- `decodeString`: the quotes stand at both ends of the token. -/
def decodeString (text : Bytes) : Except Fault (Option Bytes) :=
  if text.length < 2 then .error .outOfBounds
  else
    let body := (text.drop 1).dropLast
    decodeStringLoop (body.length + 1) [] body

/-! ## 5. Values -/

/-- `CZString::operator<`: `memcmp` on the common length, then the lengths. -/
def keyLess : Bytes → Bytes → Bool
  | _, [] => false
  | [], _ :: _ => true
  | a :: s, b :: t => a < b || (a = b && keyLess s t)

/-- `currentValue()[name]`, and what is read into it: the map keeps its keys in order. -/
def setMember (name : Bytes) (value : Json) : List (Bytes × Json) → List (Bytes × Json)
  | [] => [(name, value)]
  | (key, old) :: rest =>
    if keyLess key name then (key, old) :: setMember name value rest
    else if keyLess name key then (name, value) :: (key, old) :: rest
    else (name, value) :: rest

/-- What reads the values of an object or an array. -/
abbrev ValueReader := OurReader → Except Fault (Option Json × OurReader)

namespace OurReader

/-- What ends a member.  Behind a comment any token stands for the comma. -/
def finalizeToken (r : OurReader) (comma : Token) : Except Fault (Token × OurReader) :=
  if comma.type = .comment then r.skipCommentTokens else .ok (comma, r)

/-- One member of `readObject`, behind its name: colon, value, and what ends it.  The result is
`none` when the object is refused, and otherwise the value and whether the object is over. -/
def readMember (readValue : ValueReader) (r : OurReader) :
    Except Fault (Option (Json × Bool) × OurReader) := do
  let (colon, r) ← r.readToken
  if colon.type ≠ .memberSeparator then r.recoverFromError .objectEnd
  else do
    let (value, r) ← readValue r
    match value with
    | none => r.recoverFromError .objectEnd
    | some value => do
      let (comma, r) ← r.readToken
      if comma.type ≠ .objectEnd ∧ comma.type ≠ .arraySeparator ∧ comma.type ≠ .comment then
        r.recoverFromError .objectEnd
      else do
        let (comma, r) ← r.finalizeToken comma
        .ok (some (value, comma.type = .objectEnd), r)

/-- The loop of `readObject`; `name` is that of the member before. -/
def readMembers (readValue : ValueReader) :
    ℕ → Bytes → List (Bytes × Json) → ValueReader
  | 0, _, _, _ => .error .outOfFuel
  | n + 1, name, members, r => do
    let (tokenName, r) ← r.skipCommentTokens
    if tokenName.type = .objectEnd ∧ name = [] then .ok (some (.obj members), r)
    else if tokenName.type = .string then do
      match ← decodeString tokenName.text with
      | none => r.recoverFromError .objectEnd
      | some name =>
        if 2 ^ 30 ≤ name.length then .error .runtimeError
        else do
          let (value, r) ← r.readMember readValue
          match value with
          | none => .ok (none, r)
          | some (value, true) => .ok (some (.obj (setMember name value members)), r)
          | some (value, false) => readMembers readValue n name (setMember name value members) r
    else r.recoverFromError .objectEnd

def readObject (readValue : ValueReader) (r : OurReader) :
    Except Fault (Option Json × OurReader) :=
  readMembers readValue (r.current.length + 1) [] [] r

/-- The loop of `readArray`. -/
def readElements (readValue : ValueReader) : ℕ → List Json → ValueReader
  | 0, _, _ => .error .outOfFuel
  | n + 1, values, r => do
    let (value, r) ← readValue r
    match value with
    | none => r.recoverFromError .arrayEnd
    | some value => do
      let (currentToken, r) ← r.skipCommentTokens
      if currentToken.type = .arrayEnd then .ok (some (.arr (values ++ [value])), r)
      else if currentToken.type = .arraySeparator then
        readElements readValue n (values ++ [value]) r
      else r.recoverFromError .arrayEnd

def readArray (readValue : ValueReader) (r : OurReader) :
    Except Fault (Option Json × OurReader) :=
  let current := skipSpaces r.current
  if current.head? = some 0x5D then .ok (some (.arr []), { r with current := current.tail })
  else readElements readValue (current.length + 1) [] { r with current := current }

/-- The comments before a value go to the value. -/
def giveComments (r : OurReader) : Except Fault OurReader :=
  if r.commentsBefore = [] then .ok r
  else do
    setComment r.commentsBefore
    .ok { r with commentsBefore := [] }

/-- A value has been read, or refused behind its first token. -/
def valueRead (x : Option Json × OurReader) : Option Json × OurReader :=
  (x.1, { x.2 with lastValueEnd := some x.2.current })

/-- The switch of `readValue`. -/
def valueOf (readValue : ValueReader) (sscanf : Bytes → Option (Bytes × ℚ)) (token : Token)
    (r : OurReader) : Except Fault (Option Json × OurReader) :=
  match token.type with
  | .objectBegin => do .ok (valueRead (← r.readObject readValue))
  | .arrayBegin => do .ok (valueRead (← r.readArray readValue))
  | .number => do .ok (valueRead (← decodeNumber sscanf token.text, r))
  | .string => do .ok (valueRead ((← decodeString token.text).map .str, r))
  | .true => .ok (valueRead (some (.bool true), r))
  | .false => .ok (valueRead (some (.bool false), r))
  | .null => .ok (valueRead (some .null, r))
  | _ => .ok (none, r)

end OurReader

/-- `readValue`, with room for this many values on the stack. -/
def readValue (sscanf : Bytes → Option (Bytes × ℚ)) : ℕ → ValueReader
  | 0, _ => .error .runtimeError
  | room + 1, r => do
    let (token, r) ← r.skipCommentTokens
    let r ← r.giveComments
    r.valueOf (readValue sscanf room) sscanf token

/-- `OurReader::parse` of a whole document; `none` is a refusal.  What stands behind the value is
read up to the next token that is no comment. -/
def parse (sscanf : Bytes → Option (Bytes × ℚ)) (document : Bytes) :
    Except Fault (Option Json) := do
  let (value, r) ← readValue sscanf stackLimit ⟨document, none, []⟩
  let (_, r) ← r.skipCommentTokens
  let _ ← r.giveComments
  .ok value

end Reflector.Jsoncpp
