/-
# The request parser (`http.h`, `http.cpp`)

The data model of `http.h` and the four functions of `http.cpp`, loop by loop and index by
index.  `data` is a pointer into the caller's buffer and is modelled by its OFFSET; a null
pointer is `none`.  Every load goes through `buffer[i]?`, so an index outside the buffer is
an error and not a byte: that the loads are in bounds is something to prove and not part of
the model.

`parseHttpMessage` takes its length as an `int32_t`; its index never passes that length, so
the offsets are plain numbers here.
-/
import Reflector.Cxx

namespace Reflector.Http

open Base

/-! ## 1. The data model -/

structure HttpUrlParam where
  key : Bytes
  value : Bytes
  deriving DecidableEq, Repr

structure HttpReqUrl where
  cmd : Bytes
  param : List HttpUrlParam
  deriving DecidableEq, Repr

structure HttpReq where
  sessionId : ℕ
  type : Bytes
  url : HttpReqUrl
  version : Bytes
  origin : Bytes
  keepAlive : Bool
  data : Option ℕ
  dataSize : ℕ
  pragma : ℕ
  deriving DecidableEq, Repr

/-- A declared and not yet parsed `HttpReq_t`.  The strings and the vector are empty by
construction; `parseHttpMessage` assigns every other field before it reads the buffer. -/
def HttpReq.fresh : HttpReq :=
  { sessionId := 0, type := [], url := ⟨[], []⟩, version := [], origin := [],
    keepAlive := false, data := none, dataSize := 0, pragma := 0 }

structure StringDesc where
  start : ℕ
  length : ℕ
  deriving DecidableEq, Repr

/-! ## 2. `splitString` and `copyString` -/

/-- The `while (i < end)` loop; `n` is `end - i`. -/
def splitLoop (str ptrn : Bytes) :
    ℕ → ℕ → ℕ → List StringDesc → Except Raise (ℕ × ℕ × List StringDesc)
  | 0, i, s, list => .ok (i, s, list)
  | n + 1, i, s, list =>
    match str[i]? with
    | none => .error .outOfBounds
    | some c =>
      if ptrn.contains c then
        splitLoop str ptrn n (i + 1) (i + 1) (if i - s > 0 then list ++ [⟨s, i - s⟩] else list)
      else splitLoop str ptrn n (i + 1) s list

/-- The descriptors of the non-empty pieces of `str[start, stop)`, and their number. -/
def splitString (str : Bytes) (start stop : ℕ) (ptrn : Bytes) (list : List StringDesc) :
    Except Raise (ℕ × List StringDesc) := do
  let list := if list.length > 0 then [] else list
  let (i, s, list) ← splitLoop str ptrn (stop - start) start start list
  let list := if i - s > 0 then list ++ [⟨s, i - s⟩] else list
  .ok (list.length, list)

def copyString (src : Bytes) (desc : StringDesc) : Bytes :=
  (src.drop desc.start).take desc.length

/-! ## 3. `parseUrl` -/

/-- The loop over the `&` pieces of the query.  A piece without two `=` pieces is skipped. -/
def paramLoop (buff : Bytes) : List StringDesc → List HttpUrlParam →
    Except Raise (List HttpUrlParam)
  | [], param => .ok param
  | desc :: rest, param => do
    let (count2, strDesc2) ←
      splitString buff desc.start (desc.start + desc.length) (ascii "=") []
    if count2 < 2 then paramLoop buff rest param
    else
      let key ← atIndex strDesc2 0
      let value ← atIndex strDesc2 1
      paramLoop buff rest (param ++ [⟨copyString buff key, copyString buff value⟩])

def parseUrl (buff : Bytes) (reqUrl : HttpReqUrl) : Except Raise (ℤ × HttpReqUrl) := do
  let (_, strDesc) ← splitString buff 0 (cstr buff).length (ascii "/") []
  if strDesc.length = 0 then .ok (-1, reqUrl)
  else
    let last ← atIndex strDesc (strDesc.length - 1)
    let (count, strDesc) ←
      splitString buff last.start (last.start + last.length) (ascii "?") strDesc
    let first ← atIndex strDesc 0
    let cmd := copyString buff first
    if count > 1 then
      let query ← atIndex strDesc 1
      let (_, strDesc) ←
        splitString buff query.start (query.start + query.length) (ascii "&") strDesc
      let param ← paramLoop buff strDesc reqUrl.param
      .ok (0, { cmd := cmd, param := param })
    else .ok (0, { reqUrl with cmd := cmd })

/-! ## 4. `parseHttpMessage` -/

/-- Line 0: method, target, version, each taken when it is there. -/
def requestLine (buffer : Bytes) (lineStart lineEnd : ℕ) (req : HttpReq) :
    Except Raise HttpReq := do
  let (_, descList) ← splitString buffer lineStart lineEnd (ascii " ") []
  let req := match descList[0]? with
    | some desc => { req with type := copyString buffer desc }
    | none => req
  let req ← match descList[1]? with
    | some desc => do
      let (_, url) ← parseUrl (copyString buffer desc) req.url
      .ok { req with url := url }
    | none => .ok req
  .ok (match descList[2]? with
    | some desc => { req with version := copyString buffer desc }
    | none => req)

/-- Every later line: the text before the first blank picks the field, the text after it is
the value. -/
def headerLine (line : Bytes) (req : HttpReq) : Except Raise HttpReq :=
  match find line (ascii " ") 0 with
  | none => .ok req
  | some pos => do
    let name ← substr line 0 (some pos)
    let value ← substr line (pos + 1) none
    if name = ascii "Content-Length:" then .ok { req with dataSize := toUInt32 (atoi value) }
    else if name = ascii "Pragma:" then .ok { req with pragma := toUInt32 (atoi value) }
    else if name = ascii "Origin:" then .ok { req with origin := value }
    else if name = ascii "Connection:" then
      .ok { req with keepAlive := value == ascii "keep-alive" }
    else .ok req

/-- A non-empty line. -/
def onLine (buffer : Bytes) (lineStart lineEnd lineNo : ℕ) (req : HttpReq) :
    Except Raise HttpReq :=
  if lineNo = 0 then requestLine buffer lineStart lineEnd req
  else headerLine ((buffer.drop lineStart).take (lineEnd - lineStart)) req

/-- The `while (i < len)` loop.  Every turn advances `i`, so `len` turns are enough. -/
def parseLoop (buffer : Bytes) (len : ℕ) :
    ℕ → ℕ → ℕ → ℕ → HttpReq → Except Raise (Bool × HttpReq)
  | 0, _, _, _, req => .ok (false, req)
  | n + 1, i, lineStart, lineNo, req =>
    if i < len then
      match buffer[i]? with
      | none => .error .outOfBounds
      | some c =>
        -- the look-ahead is only made behind a carriage return
        match (if c = 13 then buffer[i + 1]? else some 0) with
        | none => .error .outOfBounds
        | some d =>
          if c = 13 ∧ d = 10 then
            if i - lineStart > 0 then do
              let req ← onLine buffer lineStart i lineNo req
              parseLoop buffer len n (i + 2) (i + 2) (lineNo + 1) req
            else
              .ok (true, { req with data := if i + 2 < len then some (i + 2) else req.data })
          else parseLoop buffer len n (i + 1) lineStart lineNo req
    else .ok (false, req)

/-- **The parser.**  `true` when the blank line that ends the header was found. -/
def parseHttpMessage (buffer : Bytes) (len : ℕ) (httpReq : HttpReq) :
    Except Raise (Bool × HttpReq) :=
  let req := { httpReq with
    sessionId := 0, data := none, dataSize := 0, keepAlive := false, pragma := 0 }
  parseLoop buffer len len 0 0 0 req

end Reflector.Http
