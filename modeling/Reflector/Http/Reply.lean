/-
# The response writers (`server.cpp`, `webrtc_connection.cpp`)

`sendReplyError`, `sendReplyPage`, `sendReplyFavicon`, `sendReply` and
`WebrtcConnection::sendMessage`.  Each formats a header into a buffer with a bounded
`snprintf`, writes what `strlen` finds there, and then writes a body.  A writer returns the
byte strings it passed to `Socket::write`, in order, and the buffer it formatted into: that
buffer is the server's one receive buffer, so what a reply leaves in it is still there when
the next request arrives.

The templates are given line by line (`headerBlock` adds the CRLF of each line and the blank
line at the end).
-/
import Reflector.Http.Lines

namespace Reflector.Http

open Base

/-! ## 1. Header templates -/

/-- Lines, each ended by CRLF, and the blank line. -/
def headerBlock (lines : List Bytes) : Bytes := lines.flatMap (fun l => l ++ crlf) ++ crlf

def serverName : Bytes := ascii "WebRTC Reflector"

/-- The header of an error page. -/
def errorHeader : Bytes := headerBlock
  [ascii "HTTP/1.1 200 OK", ascii "Connection: close", ascii "Server: " ++ ascii "%s",
   ascii "Content-Type: text/html; charset=UTF-8", ascii "Accept-Ranges: none",
   ascii "Content-Encoding: UTF-8", ascii "Cache-Control: no-store",
   ascii "Content-Length: " ++ ascii "%d"]

/-- The header of a file: the landing page and the icon. -/
def fileHeader : Bytes := headerBlock
  [ascii "HTTP/1.1 200 OK", ascii "Connection: close", ascii "Server: " ++ ascii "%s",
   ascii "Content-Type: " ++ ascii "%s", ascii "Accept-Ranges: none",
   ascii "Cache-Control: no-store", ascii "Content-Length: " ++ ascii "%d"]

/-- The header of the main loop's plain replies, which echo the request's origin. -/
def replyHeader : Bytes := headerBlock
  [ascii "HTTP/1.1 200 OK", ascii "Connection: close", ascii "Server: " ++ ascii "%s",
   ascii "Origin: " ++ ascii "%s", ascii "Content-Type: text/plain",
   ascii "Accept-Ranges: none", ascii "Pragma: " ++ ascii "%u",
   ascii "Cache-Control: no-store", ascii "Content-Length: " ++ ascii "%d"]

/-- The header of a signaling message on a parked socket. -/
def messageHeader : Bytes := headerBlock
  [ascii "HTTP/1.1 200 OK", ascii "Connection: close", ascii "Server: " ++ ascii "%s",
   ascii "Content-Type: text/plain", ascii "Accept-Ranges: none",
   ascii "Pragma: " ++ ascii "%u", ascii "Cache-Control: no-store",
   ascii "Content-Length: " ++ ascii "%d"]

/-- The indentation that the continued string literal of the error page keeps. -/
def indent : Bytes := List.replicate 17 32

def errorTemplate : Bytes :=
  ascii "<!DOCTYPE html>\n " ++ indent ++ ascii "<html>\n " ++ indent ++ ascii "<body>\n " ++
    indent ++ ascii "<h1>" ++ ascii "%s" ++ (ascii "</h1>\n " ++ indent ++ ascii "</body>\n " ++
    indent ++ ascii "</html>")

/-! ## 2. The writers -/

/-- A formatting call; formats without a documented result are not given one here. -/
def format (fmt : Bytes) (args : List FmtArg) : Except Raise Bytes :=
  match sprintf fmt args with
  | some text => .ok text
  | none => .error .format

/-- `Socket::write(buffer, size)` takes its size as an `int32_t`; the library refuses a
negative one and writes nothing. -/
def socketWrite (buffer : Bytes) (size : ℕ) : Bytes :=
  if size < 2 ^ 31 then buffer.take size else []

/-- What a writer did: the bytes of each `write`, and the buffer it left. -/
structure Reply where
  writes : List Bytes
  outBuffer : Bytes
  deriving DecidableEq, Repr

/-- `socket->write(b, strlen(b))` for the C string in a buffer. -/
def writeCstr (buffer : Bytes) : Bytes := socketWrite (cstr buffer) (cstr buffer).length

def sendReplyError (errorTxt outBuffer : Bytes) : Except Raise Reply := do
  let text ← format errorTemplate [.str (cstr errorTxt)]
  let errorPage := snprintf (List.replicate 128 0) 127 text
  let header ← format errorHeader [.str (ascii "myserver"), .int (cstr errorPage).length]
  let outBuffer := snprintf outBuffer (1024 - 1) header
  .ok ⟨[writeCstr outBuffer, writeCstr errorPage], outBuffer⟩

/-- What the landing page depends on besides the request: the command line and the
environment. -/
structure Config where
  serverIp : Bytes
  httpsPort : UInt16
  log : ℤ
  deriving DecidableEq, Repr

/-- The mime types of the two files that are served. -/
def landingMime : Bytes := ascii "text/html; charset=UTF-8"

def iconMime : Bytes := ascii "image/x-icon"

/-- `file` is what an `ifstream` in text mode delivers, so where the target translates line ends it
has the translated ones; none stands for a file that does not open. -/
def sendReplyPage (cfg : Config) (file : Option Bytes) (mime outBuffer : Bytes) :
    Except Raise Reply :=
  match file with
  | none => sendReplyError (ascii "Resource not found!") outBuffer
  | some content => do
    -- `int32_t pageSize`: a negative size makes `new char[pageSize]` throw
    if content.length + 64 < 2 ^ 31 then
      let pageSize := content.length + 64
      let text ← format (cstr content)
        [.str (cstr cfg.serverIp), .int cfg.httpsPort.toNat, .int cfg.log]
      let page := snprintf (List.replicate pageSize 0) (pageSize - 1) text
      let header ← format fileHeader [.str serverName, .str mime, .int (cstr page).length]
      let outBuffer := snprintf outBuffer (1024 - 1) header
      .ok ⟨[writeCstr outBuffer, writeCstr page], outBuffer⟩
    else .error .alloc

/-- The icon as the file system shows it: what `fopen` opens, and what `stat` reports. -/
structure IconFile where
  content : Option Bytes
  size : Option ℤ
  deriving DecidableEq, Repr

/-- The copy loop: `fread(buffer, 4096, 1, file)` returns the number of whole ITEMS read, so
each turn reads a block of 4096 bytes and copies `bytes = 1` of them. -/
def freadLoop (size : ℕ) : ℕ → Bytes → Bytes → Except Raise Bytes
  | 0, _, fileContent => .ok fileContent
  | n + 1, file, fileContent =>
    if 4096 ≤ file.length then
      if fileContent.length + 1 ≤ size then
        freadLoop size n (file.drop 4096) (fileContent ++ (file.take 4096).take 1)
      else .error .outOfBounds
    else .ok fileContent

def sendReplyFavicon (file : IconFile) (mime outBuffer : Bytes) : Except Raise Reply :=
  match file.content, file.size with
  | some content, some size => do
    if size ≤ 0 then sendReplyError (ascii "Resource not found!") outBuffer
    else
      let fileContent ← freadLoop size.toNat content.length content []
      let totalBytes := fileContent.length
      let header ← format fileHeader [.str serverName, .str mime, .int totalBytes]
      let outBuffer := snprintf outBuffer (1024 - 1) header
      .ok ⟨[writeCstr outBuffer, socketWrite fileContent totalBytes], outBuffer⟩
  | _, _ => sendReplyError (ascii "Resource not found!") outBuffer

/-- `data` are the `dataSize` bytes the caller passes. -/
def sendReply (origin : Bytes) (pragma : ℕ) (data outBuffer : Bytes) : Except Raise Reply := do
  let dataSize := data.length
  let header ← format replyHeader
    [.str serverName, .str (cstr origin), .int pragma, .int dataSize]
  let outBuffer := snprintf outBuffer (1024 - 1) header
  .ok ⟨writeCstr outBuffer :: if dataSize > 0 then [socketWrite data dataSize] else [], outBuffer⟩

/-- The worker formats into a buffer of its own. -/
def sendMessage (peerId : ℕ) (message : Bytes) : Except Raise (List Bytes) := do
  let dataSize := (cstr message).length
  let header ← format messageHeader [.str serverName, .int peerId, .int dataSize]
  let httpHeader := snprintf (List.replicate 1024 0) (1024 - 1) header
  .ok (writeCstr httpHeader ::
    if dataSize > 0 then [socketWrite (cstr message) dataSize] else [])

/-! ## 3. The templates, filled in -/

theorem headerBlock_cons (l : Bytes) (ls : List Bytes) :
    headerBlock (l :: ls) = l ++ crlf ++ headerBlock ls := by
  simp [headerBlock]

/-- A line without a percent sign is copied ... -/
theorem sprintf_line {l : Bytes} (h : (37 : UInt8) ∉ l) (ls : List Bytes) (args : List FmtArg) :
    sprintf (headerBlock (l :: ls)) args
      = (sprintf (headerBlock ls) args).map fun t => l ++ crlf ++ t := by
  have hc : (37 : UInt8) ∉ l ++ crlf := by
    rw [List.mem_append, not_or]
    exact ⟨h, by decide⟩
  rw [headerBlock_cons, sprintf_append hc]

/-- ... and a line that ends in a conversion has the argument's text there. -/
theorem sprintf_line_conv {l conv out : Bytes} (h : (37 : UInt8) ∉ l) (ls : List Bytes)
    {arg : FmtArg} {args : List FmtArg}
    (hconv : ∀ rest, sprintf (conv ++ rest) (arg :: args) = (sprintf rest args).map (out ++ ·)) :
    sprintf (headerBlock ((l ++ conv) :: ls)) (arg :: args)
      = (sprintf (headerBlock ls) args).map fun t => l ++ out ++ crlf ++ t := by
  have hc : (37 : UInt8) ∉ crlf := by decide
  rw [headerBlock_cons, List.append_assoc, List.append_assoc, sprintf_append h, hconv,
    sprintf_append hc, Option.map_map, Option.map_map]
  congr 1
  funext t
  simp

theorem sprintf_line_str {l : Bytes} (h : (37 : UInt8) ∉ l) (s : Bytes) (ls : List Bytes)
    (args : List FmtArg) :
    sprintf (headerBlock ((l ++ ascii "%s") :: ls)) (.str s :: args)
      = (sprintf (headerBlock ls) args).map fun t => l ++ s ++ crlf ++ t :=
  sprintf_line_conv h ls fun rest => sprintf_str s rest args

theorem sprintf_line_uint {l : Bytes} (h : (37 : UInt8) ∉ l) (i : ℤ) (ls : List Bytes)
    (args : List FmtArg) :
    sprintf (headerBlock ((l ++ ascii "%u") :: ls)) (.int i :: args)
      = (sprintf (headerBlock ls) args).map fun t => l ++ decimal (toUInt32 i) ++ crlf ++ t :=
  sprintf_line_conv h ls fun rest => sprintf_uint i rest args

theorem sprintf_line_int {l : Bytes} (h : (37 : UInt8) ∉ l) (i : ℤ) (ls : List Bytes)
    (args : List FmtArg) :
    sprintf (headerBlock ((l ++ ascii "%d") :: ls)) (.int i :: args)
      = (sprintf (headerBlock ls) args).map fun t => l ++ signedDecimal i ++ crlf ++ t :=
  sprintf_line_conv h ls fun rest => sprintf_int i rest args

theorem sprintf_headerBlock_nil (args : List FmtArg) :
    sprintf (headerBlock []) args = some (headerBlock []) := by
  have h : (37 : UInt8) ∉ headerBlock [] := by decide
  simpa using sprintf_append h [] args

/-- The lines of each header, with its values in place; `n` is the text of the length. -/
def errorLines (n : Bytes) : List Bytes :=
  [ascii "HTTP/1.1 200 OK", ascii "Connection: close", ascii "Server: " ++ ascii "myserver",
   ascii "Content-Type: text/html; charset=UTF-8", ascii "Accept-Ranges: none",
   ascii "Content-Encoding: UTF-8", ascii "Cache-Control: no-store",
   ascii "Content-Length: " ++ n]

def fileLines (mime n : Bytes) : List Bytes :=
  [ascii "HTTP/1.1 200 OK", ascii "Connection: close", ascii "Server: " ++ serverName,
   ascii "Content-Type: " ++ mime, ascii "Accept-Ranges: none",
   ascii "Cache-Control: no-store", ascii "Content-Length: " ++ n]

def replyLines (origin pragma n : Bytes) : List Bytes :=
  [ascii "HTTP/1.1 200 OK", ascii "Connection: close", ascii "Server: " ++ serverName,
   ascii "Origin: " ++ origin, ascii "Content-Type: text/plain",
   ascii "Accept-Ranges: none", ascii "Pragma: " ++ pragma,
   ascii "Cache-Control: no-store", ascii "Content-Length: " ++ n]

def messageLines (pragma n : Bytes) : List Bytes :=
  [ascii "HTTP/1.1 200 OK", ascii "Connection: close", ascii "Server: " ++ serverName,
   ascii "Content-Type: text/plain", ascii "Accept-Ranges: none",
   ascii "Pragma: " ++ pragma, ascii "Cache-Control: no-store",
   ascii "Content-Length: " ++ n]

theorem format_errorHeader (i : ℤ) :
    format errorHeader [.str (ascii "myserver"), .int i]
      = .ok (headerBlock (errorLines (signedDecimal i))) := by
  simp (disch := decide) only [format, errorHeader, sprintf_line, sprintf_line_str,
    sprintf_line_int, sprintf_headerBlock_nil, Option.map_some]
  simp only [errorLines, headerBlock_cons]

theorem format_fileHeader (mime : Bytes) (i : ℤ) :
    format fileHeader [.str serverName, .str mime, .int i]
      = .ok (headerBlock (fileLines mime (signedDecimal i))) := by
  simp (disch := decide) only [format, fileHeader, sprintf_line, sprintf_line_str,
    sprintf_line_int, sprintf_headerBlock_nil, Option.map_some]
  simp only [fileLines, headerBlock_cons]

theorem format_replyHeader (origin : Bytes) (p i : ℤ) :
    format replyHeader [.str serverName, .str origin, .int p, .int i]
      = .ok (headerBlock (replyLines origin (decimal (toUInt32 p)) (signedDecimal i))) := by
  simp (disch := decide) only [format, replyHeader, sprintf_line, sprintf_line_str,
    sprintf_line_int, sprintf_line_uint, sprintf_headerBlock_nil, Option.map_some]
  simp only [replyLines, headerBlock_cons]

theorem format_messageHeader (p i : ℤ) :
    format messageHeader [.str serverName, .int p, .int i]
      = .ok (headerBlock (messageLines (decimal (toUInt32 p)) (signedDecimal i))) := by
  simp (disch := decide) only [format, messageHeader, sprintf_line, sprintf_line_str,
    sprintf_line_int, sprintf_line_uint, sprintf_headerBlock_nil, Option.map_some]
  simp only [messageLines, headerBlock_cons]

/-- A signaling message without a NUL is what stands behind its header, as long as it is. -/
theorem sendMessage_body {peerId : ℕ} {message : Bytes} {writes : List Bytes} (h0 : 0 ∉ message)
    (hlen : message.length < 2 ^ 31) (h : sendMessage peerId message = .ok writes) :
    (writes.drop 1).flatten = message := by
  simp only [sendMessage, format_messageHeader, ok_bind, cstr_eq_self h0] at h
  obtain rfl := Except.ok.inj h
  rw [List.drop_one, List.tail_cons]
  by_cases hpos : message.length > 0
  · rw [if_pos hpos, socketWrite, if_pos hlen, List.take_length, List.flatten_singleton]
  · rw [if_neg hpos]
    exact (List.length_eq_zero_iff.mp (Nat.eq_zero_of_not_pos hpos)).symm

/-- A plain reply always has a text. -/
theorem sendReply_ok (origin : Bytes) (pragma : ℕ) (data outBuffer : Bytes) :
    ∃ reply, sendReply origin pragma data outBuffer = .ok reply := by
  simp only [sendReply, format_replyHeader, ok_bind]
  exact ⟨_, rfl⟩

/-! ## 4. The buffer keeps its size -/

/-- A writer leaves a header in the buffer it was given, and changes nothing else of it. -/
def Formatted (outBuffer : Bytes) (reply : Reply) : Prop :=
  ∃ header, reply.outBuffer = snprintf outBuffer (1024 - 1) header

theorem Formatted.length {outBuffer : Bytes} {reply : Reply} (h : Formatted outBuffer reply)
    (hlen : 1024 - 1 ≤ outBuffer.length) : reply.outBuffer.length = outBuffer.length := by
  obtain ⟨header, heq⟩ := h
  rw [heq, length_snprintf header (by decide) hlen]

section

variable {outBuffer : Bytes} {reply : Reply}

theorem sendReplyError_formatted {errorTxt : Bytes}
    (h : sendReplyError errorTxt outBuffer = .ok reply) : Formatted outBuffer reply := by
  unfold sendReplyError at h
  simp only [bind_eq_ok] at h
  obtain ⟨text, -, header, -, h⟩ := h
  obtain rfl := Except.ok.inj h
  exact ⟨header, rfl⟩

theorem sendReplyPage_formatted {cfg : Config} {file : Option Bytes} {mime : Bytes}
    (h : sendReplyPage cfg file mime outBuffer = .ok reply) : Formatted outBuffer reply := by
  unfold sendReplyPage at h
  split at h
  · exact sendReplyError_formatted h
  · split at h
    · simp only [bind_eq_ok] at h
      obtain ⟨text, -, header, -, h⟩ := h
      obtain rfl := Except.ok.inj h
      exact ⟨header, rfl⟩
    · exact absurd h (by simp)

theorem sendReplyFavicon_formatted {file : IconFile} {mime : Bytes}
    (h : sendReplyFavicon file mime outBuffer = .ok reply) : Formatted outBuffer reply := by
  unfold sendReplyFavicon at h
  split at h
  · split at h
    · exact sendReplyError_formatted h
    · simp only [bind_eq_ok] at h
      obtain ⟨fileContent, -, header, -, h⟩ := h
      obtain rfl := Except.ok.inj h
      exact ⟨header, rfl⟩
  · exact sendReplyError_formatted h

theorem sendReply_formatted {origin data : Bytes} {pragma : ℕ}
    (h : sendReply origin pragma data outBuffer = .ok reply) : Formatted outBuffer reply := by
  unfold sendReply at h
  simp only [bind_eq_ok] at h
  obtain ⟨header, -, h⟩ := h
  obtain rfl := Except.ok.inj h
  exact ⟨header, rfl⟩

end

end Reflector.Http
