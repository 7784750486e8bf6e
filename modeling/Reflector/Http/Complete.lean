/-
# When a response is complete

Every writer of `Reply.lean` formats text of any length into a buffer of fixed size.  A
response is COMPLETE when the bytes on the wire are the whole header block of its template,
with the decimal length of the body in it, followed by the whole body.  `complete_iff` says
exactly which calls are complete:

* `sendReplyError` never is: the page template alone is longer than the 126 characters its
  buffer takes, so every error page is cut;
* `sendReplyPage` is when the formatted page fits into the 62 characters of slack it allows;
* `sendReply` is when the echoed origin and the two numbers fit into what the header template
  leaves of 1022 characters;
* `sendMessage` always is, on messages that fit an `int32_t` length.
-/
import Reflector.Http.Reply

namespace Reflector.Http

open Base

/-! ## 1. Lengths and terminators -/

/-- Writing a formatted buffer writes what fitted. -/
theorem writeCstr_snprintf (buf : Bytes) {n : ℕ} {text : Bytes} (h0 : 0 ∉ text)
    (hn : n - 1 < 2 ^ 31) : writeCstr (snprintf buf n text) = text.take (n - 1) := by
  have h0' : (0 : UInt8) ∉ text.take (n - 1) := fun h => h0 (List.mem_of_mem_take h)
  have hlen : (text.take (n - 1)).length < 2 ^ 31 := by
    rw [List.length_take]
    omega
  rw [writeCstr, cstr_snprintf, cstr_eq_self h0', socketWrite, if_pos hlen, List.take_length]

theorem zero_notMem_headerBlock {lines : List Bytes} (h : ∀ l ∈ lines, (0 : UInt8) ∉ l) :
    (0 : UInt8) ∉ headerBlock lines := by
  simp only [headerBlock, List.mem_append, List.mem_flatMap, not_or, not_exists, not_and]
  exact ⟨fun l hl => ⟨h l hl, by decide⟩, by decide⟩

theorem length_headerBlock_cons (l : Bytes) (ls : List Bytes) :
    (headerBlock (l :: ls)).length = l.length + 2 + (headerBlock ls).length := by
  rw [headerBlock_cons, List.length_append, List.length_append]
  rfl

theorem length_headerBlock_nil : (headerBlock []).length = 2 := rfl

theorem length_errorLines (n : Bytes) : (headerBlock (errorLines n)).length = 185 + n.length := by
  simp only [errorLines, length_headerBlock_cons, length_headerBlock_nil, List.length_append,
    ascii]
  simp
  omega

theorem length_fileLines (mime n : Bytes) :
    (headerBlock (fileLines mime n)).length = 144 + mime.length + n.length := by
  simp only [fileLines, serverName, length_headerBlock_cons, length_headerBlock_nil,
    List.length_append, ascii]
  simp
  omega

theorem length_replyLines (origin pragma n : Bytes) :
    (headerBlock (replyLines origin pragma n)).length
      = 174 + origin.length + pragma.length + n.length := by
  simp only [replyLines, serverName, length_headerBlock_cons, length_headerBlock_nil,
    List.length_append, ascii]
  simp
  omega

theorem length_messageLines (pragma n : Bytes) :
    (headerBlock (messageLines pragma n)).length = 164 + pragma.length + n.length := by
  simp only [messageLines, serverName, length_headerBlock_cons, length_headerBlock_nil,
    List.length_append, ascii]
  simp
  omega

theorem zero_notMem_errorLines {n : Bytes} (hn : (0 : UInt8) ∉ n) :
    (0 : UInt8) ∉ headerBlock (errorLines n) := by
  refine zero_notMem_headerBlock ?_
  simp [errorLines, ascii, hn]

theorem zero_notMem_fileLines {mime n : Bytes} (hm : (0 : UInt8) ∉ mime) (hn : (0 : UInt8) ∉ n) :
    (0 : UInt8) ∉ headerBlock (fileLines mime n) := by
  refine zero_notMem_headerBlock ?_
  simp [fileLines, serverName, ascii, hm, hn]

theorem zero_notMem_replyLines {o p n : Bytes} (ho : (0 : UInt8) ∉ o) (hp : (0 : UInt8) ∉ p)
    (hn : (0 : UInt8) ∉ n) : (0 : UInt8) ∉ headerBlock (replyLines o p n) := by
  refine zero_notMem_headerBlock ?_
  simp [replyLines, serverName, ascii, ho, hp, hn]

theorem zero_notMem_messageLines {p n : Bytes} (hp : (0 : UInt8) ∉ p) (hn : (0 : UInt8) ∉ n) :
    (0 : UInt8) ∉ headerBlock (messageLines p n) := by
  refine zero_notMem_headerBlock ?_
  simp [messageLines, serverName, ascii, hp, hn]

/-- Below `2 ^ 31` the signed conversion prints the number itself. -/
theorem signedDecimal_of_lt {n : ℕ} (h : n < 2 ^ 31) : signedDecimal n = decimal n := by
  unfold signedDecimal
  rw [toInt32_of_lt h, if_neg (by omega), Int.natAbs_natCast]

theorem toUInt32_natCast {n : ℕ} (h : n < 2 ^ 32) : toUInt32 n = n := by
  unfold toUInt32
  omega

theorem length_decimal_lt {n : ℕ} (h : n < 2 ^ 32) : (decimal n).length ≤ 10 :=
  length_decimal_le (by decide) (by omega)

/-- A longer number has at least as many digits. -/
theorem length_decimal_mono {n m : ℕ} (h : n ≤ m) : (decimal n).length ≤ (decimal m).length := by
  by_cases hn : n = 0
  · rw [hn]
    exact List.length_pos_iff.mpr (decimal_ne_nil m)
  · have hm : m ≠ 0 := by omega
    simpa [decimal, numeral, hn, hm] using Nat.le_length_digits_le 10 n m h

theorem headerBlock_suffix {lines : List Bytes} (h : lines ≠ []) :
    crlf ++ crlf <:+ headerBlock lines := by
  rw [← List.dropLast_append_getLast h]
  refine ⟨lines.dropLast.flatMap (fun l => l ++ crlf) ++ lines.getLast h, ?_⟩
  simp [headerBlock]

/-! ## 2. What each writer puts on the wire -/

theorem sprintf_errorTemplate (s : Bytes) :
    sprintf errorTemplate [.str s]
      = some (ascii "<!DOCTYPE html>\n " ++ indent ++ ascii "<html>\n " ++ indent ++
          ascii "<body>\n " ++ indent ++ ascii "<h1>" ++ (s ++ (ascii "</h1>\n " ++ indent ++
          ascii "</body>\n " ++ indent ++ ascii "</html>"))) := by
  unfold errorTemplate
  rw [List.append_assoc _ (ascii "%s"), sprintf_append (by decide),
    show ascii "%s" = [37, 115] from rfl, List.cons_append, List.cons_append, List.nil_append,
    sprintf_str]
  have hlit : (37 : UInt8) ∉ ascii "</h1>\n " ++ indent ++ ascii "</body>\n " ++ indent ++
      ascii "</html>" := by decide
  have hrest := sprintf_append hlit [] []
  rw [List.append_nil] at hrest
  rw [hrest]
  simp

/-- An error page is never shorter than its template. -/
theorem length_errorPage {s text : Bytes} (h : sprintf errorTemplate [.str s] = some text) :
    text.length = 145 + s.length := by
  rw [sprintf_errorTemplate, Option.some.injEq] at h
  rw [← h]
  simp [indent, ascii]
  omega

theorem zero_notMem_errorPage {s text : Bytes} (hs : (0 : UInt8) ∉ s)
    (h : sprintf errorTemplate [.str s] = some text) : (0 : UInt8) ∉ text := by
  rw [sprintf_errorTemplate, Option.some.injEq] at h
  rw [← h]
  simp [indent, ascii, hs]

/-- **Every error page goes out as the first 126 characters of itself.** -/
theorem sendReplyError_writes {errorTxt text : Bytes} (outBuffer : Bytes)
    (ht : sprintf errorTemplate [.str (cstr errorTxt)] = some text) :
    (sendReplyError errorTxt outBuffer).map Reply.writes
      = .ok [headerBlock (errorLines (decimal 126)), text.take 126] := by
  have h0 := zero_notMem_errorPage (zero_notMem_cstr errorTxt) ht
  have h0' : (0 : UInt8) ∉ text.take 126 := fun h => h0 (List.mem_of_mem_take h)
  have hlen : (text.take 126).length = 126 := by
    rw [List.length_take, length_errorPage ht]
    omega
  have hpage : cstr (snprintf (List.replicate 128 0) 127 text) = text.take 126 := by
    rw [cstr_snprintf, cstr_eq_self h0']
  have hfmt : format errorTemplate [.str (cstr errorTxt)] = .ok text := by rw [format, ht]
  simp only [sendReplyError, hfmt, ok_bind, hpage, hlen, format_errorHeader, Except.map]
  rw [writeCstr_snprintf _ h0 (by decide), signedDecimal_of_lt (by decide),
    writeCstr_snprintf _ (zero_notMem_errorLines (notMem_decimal rfl 126)) (by decide),
    List.take_of_length_le (by rw [length_errorLines]; decide)]

/-- The formatting arguments of the landing page. -/
def Config.args (cfg : Config) : List FmtArg :=
  [.str (cstr cfg.serverIp), .int cfg.httpsPort.toNat, .int cfg.log]

/-- What is left of a formatted page in its buffer. -/
def pageText (content text : Bytes) : Bytes := cstr (text.take (content.length + 62))

theorem length_pageText_le (content text : Bytes) :
    (pageText content text).length ≤ content.length + 62 := by
  have h₁ : (pageText content text).length ≤ (text.take (content.length + 62)).length :=
    (cstr_isPrefix _).length_le
  have h₂ := List.length_take_le (content.length + 62) text
  omega

/-- A page that is served goes out as what fitted of it, up to its first NUL. -/
theorem sendReplyPage_writes {cfg : Config} {content text : Bytes} (outBuffer : Bytes)
    (hsize : content.length + 64 < 2 ^ 31) (ht : sprintf (cstr content) cfg.args = some text) :
    (sendReplyPage cfg (some content) landingMime outBuffer).map Reply.writes
      = .ok [headerBlock (fileLines landingMime (decimal (pageText content text).length)),
          pageText content text] := by
  have hpage : ∀ buf, cstr (snprintf buf (content.length + 64 - 1) text) = pageText content text :=
    fun buf => cstr_snprintf buf _ text
  have hlen : (pageText content text).length < 2 ^ 31 := by
    have := length_pageText_le content text
    omega
  have hw : ∀ buf, writeCstr (snprintf buf (content.length + 64 - 1) text)
      = pageText content text := by
    intro buf
    rw [writeCstr, hpage, socketWrite, if_pos hlen, List.take_length]
  have hfmt : format (cstr content)
      [.str (cstr cfg.serverIp), .int cfg.httpsPort.toNat, .int cfg.log] = .ok text := by
    rw [format, show [FmtArg.str (cstr cfg.serverIp), .int cfg.httpsPort.toNat, .int cfg.log]
      = cfg.args from rfl, ht]
  have hdig := length_decimal_lt (show (pageText content text).length < 2 ^ 32 by omega)
  simp only [sendReplyPage, if_pos hsize, hfmt, ok_bind, hpage, hw, format_fileHeader, Except.map]
  rw [signedDecimal_of_lt hlen, writeCstr_snprintf _
    (zero_notMem_fileLines (by decide) (notMem_decimal rfl _)) (by decide),
    List.take_of_length_le]
  rw [length_fileLines, show landingMime.length = 24 from by decide]
  omega

/-- A page that went out was small enough, and had a text. -/
theorem sendReplyPage_inv {cfg : Config} {content outBuffer : Bytes} {writes : List Bytes}
    (h : (sendReplyPage cfg (some content) landingMime outBuffer).map Reply.writes = .ok writes) :
    content.length + 64 < 2 ^ 31 ∧ ∃ text, sprintf (cstr content) cfg.args = some text ∧
      writes = [headerBlock (fileLines landingMime (decimal (pageText content text).length)),
        pageText content text] := by
  by_cases hsize : content.length + 64 < 2 ^ 31
  · refine ⟨hsize, ?_⟩
    cases hs : sprintf (cstr content) cfg.args with
    | none =>
      have hfmt : format (cstr content)
          [.str (cstr cfg.serverIp), .int cfg.httpsPort.toNat, .int cfg.log] = .error .format := by
        rw [format, show [FmtArg.str (cstr cfg.serverIp), .int cfg.httpsPort.toNat, .int cfg.log]
          = cfg.args from rfl, hs]
      simp only [sendReplyPage, if_pos hsize, hfmt, error_bind, Except.map] at h
      exact absurd h (by simp)
    | some text =>
      rw [sendReplyPage_writes outBuffer hsize hs] at h
      exact ⟨text, rfl, (Except.ok.inj h).symm⟩
  · simp only [sendReplyPage, if_neg hsize, Except.map] at h
    exact absurd h (by simp)

/-- A plain reply goes out as the first 1022 characters of its header, and its data unless
their size has no `int32_t`. -/
theorem sendReply_writes (origin : Bytes) (pragma : UInt32) (data outBuffer : Bytes) :
    (sendReply origin pragma.toNat data outBuffer).map (fun r => r.writes.flatten)
      = .ok ((headerBlock (replyLines (cstr origin) (decimal pragma.toNat)
          (signedDecimal data.length))).take 1022
        ++ if data.length < 2 ^ 31 then data else []) := by
  have hp : toUInt32 (pragma.toNat : ℤ) = pragma.toNat := toUInt32_natCast pragma.toNat_lt
  have h0 := zero_notMem_replyLines (zero_notMem_cstr origin) (notMem_decimal rfl pragma.toNat)
    (notMem_signedDecimal rfl (by decide) data.length)
  simp only [sendReply, format_replyHeader, ok_bind, hp, Except.map, Except.ok.injEq]
  rw [List.flatten_cons, writeCstr_snprintf _ h0 (by decide)]
  congr 1
  by_cases hd : data.length > 0
  · simp [hd, socketWrite]
  · have hnil : data = [] := List.length_eq_zero_iff.mp (by omega)
    simp [hnil]

/-- A signaling message goes out up to its first NUL. -/
theorem sendMessage_writes (peerId : UInt32) (message : Bytes) :
    (sendMessage peerId.toNat message).map List.flatten
      = .ok ((headerBlock (messageLines (decimal peerId.toNat)
          (signedDecimal (cstr message).length))).take 1022
        ++ if (cstr message).length < 2 ^ 31 then cstr message else []) := by
  have hp : toUInt32 (peerId.toNat : ℤ) = peerId.toNat := toUInt32_natCast peerId.toNat_lt
  have h0 := zero_notMem_messageLines (notMem_decimal rfl peerId.toNat)
    (notMem_signedDecimal rfl (by decide) (cstr message).length)
  simp only [sendMessage, format_messageHeader, ok_bind, hp, Except.map, Except.ok.injEq]
  rw [List.flatten_cons, writeCstr_snprintf _ h0 (by decide)]
  congr 1
  by_cases hd : (cstr message).length > 0
  · simp [hd, socketWrite]
  · have hnil : cstr message = [] := List.length_eq_zero_iff.mp (by omega)
    simp [hnil]

/-! ## 3. Headers that fit

`sendReply` and `sendMessage` share one shape: a header `H n` in which only the text `n` of
the length varies, cut at 1022 characters, and then the data. -/

theorem natAbs_toInt32_le (n : ℕ) : (toInt32 n).natAbs ≤ n := by
  unfold toInt32
  by_cases h : n < 2 ^ 31
  · rw [Int.emod_eq_of_lt (by omega) (by omega)]
    omega
  · have h₁ := Int.emod_nonneg ((n : ℤ) + 2 ^ 31) (show (2 : ℤ) ^ 32 ≠ 0 by decide)
    have h₂ := Int.emod_lt_of_pos ((n : ℤ) + 2 ^ 31) (show (0 : ℤ) < 2 ^ 32 by decide)
    generalize ((n : ℤ) + 2 ^ 31) % 2 ^ 32 = r at h₁ h₂ ⊢
    omega

/-- The signed conversion is at most one character longer than the unsigned one. -/
theorem length_signedDecimal_le (n : ℕ) :
    (signedDecimal n).length ≤ (decimal n).length + 1 := by
  have hmono := length_decimal_mono (natAbs_toInt32_le n)
  rw [signedDecimal]
  by_cases h : toInt32 n < 0
  · rw [if_pos h, List.length_cons]
    exact Nat.succ_le_succ hmono
  · rw [if_neg h]
    exact Nat.le_succ_of_le hmono

section Cut

variable {H : Bytes → Bytes} {base : ℕ} (hH : ∀ n, (H n).length = base + n.length)

include hH

/-- What goes out is never longer than the whole response ... -/
theorem length_cut_le (data : Bytes) :
    ((H (signedDecimal data.length)).take 1022
        ++ if data.length < 2 ^ 31 then data else []).length
      ≤ base + (decimal data.length).length + data.length := by
  rw [List.length_append, List.length_take, hH]
  split
  · rename_i hd
    rw [signedDecimal_of_lt hd]
    omega
  · have := length_signedDecimal_le data.length
    simp only [List.length_nil]
    omega

/-- ... and is the whole response exactly when nothing had to be cut. -/
theorem cut_eq_iff (data : Bytes) :
    (H (signedDecimal data.length)).take 1022 ++ (if data.length < 2 ^ 31 then data else [])
        = H (decimal data.length) ++ data
      ↔ data.length < 2 ^ 31 ∧ base + (decimal data.length).length ≤ 1022 := by
  constructor
  · intro h
    have hlen := congrArg List.length h
    rw [List.length_append, List.length_append, List.length_take, hH, hH] at hlen
    split at hlen
    · rename_i hd
      rw [signedDecimal_of_lt hd] at hlen
      exact ⟨hd, by omega⟩
    · have := length_signedDecimal_le data.length
      simp only [List.length_nil] at hlen
      omega
  · rintro ⟨hd, hfit⟩
    rw [if_pos hd, signedDecimal_of_lt hd, List.take_of_length_le]
    rw [hH]
    exact hfit

end Cut

/-! ## 4. Complete responses -/

/-- A call of one of the four writers, with everything its output depends on. -/
inductive ReplyCall
  | error (errorTxt : Bytes)
  | page (cfg : Config) (file : Option Bytes)
  | reply (origin : Bytes) (pragma : UInt32) (data : Bytes)
  | message (peerId : UInt32) (text : Bytes)
  deriving DecidableEq, Repr

/-- The byte strings the call passes to `Socket::write`. -/
def ReplyCall.writes (outBuffer : Bytes) : ReplyCall → Except Raise (List Bytes)
  | .error errorTxt => (sendReplyError errorTxt outBuffer).map Reply.writes
  | .page cfg file => (sendReplyPage cfg file landingMime outBuffer).map Reply.writes
  | .reply origin pragma data => (sendReply origin pragma.toNat data outBuffer).map Reply.writes
  | .message peerId text => sendMessage peerId.toNat text

/-- The body the response is meant to carry.  A landing page that is missing or whose
placeholders cannot be filled is answered with an error page, or not at all. -/
def ReplyCall.body : ReplyCall → Option Bytes
  | .error errorTxt => sprintf errorTemplate [.str (cstr errorTxt)]
  | .page _ none => sprintf errorTemplate [.str (ascii "Resource not found!")]
  | .page cfg (some content) => sprintf content cfg.args
  | .reply _ _ data => some data
  | .message _ text => some text

/-- The header lines of the call's template; `n` is the text of the length. -/
def ReplyCall.lines (n : Bytes) : ReplyCall → List Bytes
  | .error _ | .page _ none => errorLines n
  | .page _ (some _) => fileLines landingMime n
  | .reply origin pragma _ => replyLines (cstr origin) (decimal pragma.toNat) n
  | .message peerId _ => messageLines (decimal peerId.toNat) n

/-- **A complete response**: every header of the template with the decimal length of the
intended body, the blank line, and exactly that body. -/
def ReplyCall.Complete (outBuffer : Bytes) (call : ReplyCall) : Prop :=
  ∃ header body writes, call.body = some body ∧ call.writes outBuffer = .ok writes ∧
    writes.flatten = header ++ body ∧ header = headerBlock (call.lines (decimal body.length)) ∧
    crlf ++ crlf <:+ header

/-- The inputs on which nothing is cut. -/
def ReplyCall.Fits : ReplyCall → Prop
  | .error _ => False
  | .page _ none => False
  | .page cfg (some content) =>
    content.length + 64 < 2 ^ 31 ∧
      ∃ text, sprintf content cfg.args = some text ∧ 0 ∉ text ∧ text.length ≤ content.length + 62
  | .reply origin pragma data =>
    data.length < 2 ^ 31 ∧
      (cstr origin).length + (decimal pragma.toNat).length + (decimal data.length).length ≤ 848
  | .message _ text => 0 ∉ text ∧ text.length < 2 ^ 31

/-- Every template ends in the blank line. -/
theorem ReplyCall.lines_suffix (call : ReplyCall) (n : Bytes) :
    crlf ++ crlf <:+ headerBlock (call.lines n) := by
  refine headerBlock_suffix ?_
  match call with
  | .error _ | .page _ none | .page _ (some _) | .reply _ _ _ | .message _ _ =>
    exact List.cons_ne_nil _ _

/-- The blank line is never the problem: completeness is an equation between bytes. -/
theorem ReplyCall.complete_iff_eq (outBuffer : Bytes) (call : ReplyCall) :
    call.Complete outBuffer ↔ ∃ body, call.body = some body ∧
      (call.writes outBuffer).map List.flatten
        = .ok (headerBlock (call.lines (decimal body.length)) ++ body) := by
  constructor
  · rintro ⟨header, body, writes, hb, hw, hf, rfl, -⟩
    exact ⟨body, hb, by rw [hw, Except.map, hf]⟩
  · rintro ⟨body, hb, hw⟩
    cases hc : call.writes outBuffer with
    | error e =>
      rw [hc] at hw
      exact absurd hw (by simp [Except.map])
    | ok writes =>
      rw [hc, Except.map, Except.ok.injEq] at hw
      exact ⟨_, body, writes, hb, hc, hw, rfl, call.lines_suffix _⟩

/-- An error page is never whole: 126 characters of it are announced and sent. -/
theorem errorPage_cut {errorTxt text : Bytes}
    (ht : sprintf errorTemplate [.str (cstr errorTxt)] = some text) :
    headerBlock (errorLines (decimal 126)) ++ text.take 126
      ≠ headerBlock (errorLines (decimal text.length)) ++ text := by
  intro h
  have hlen := congrArg List.length h
  have htext := length_errorPage ht
  have hmono := length_decimal_mono (show 126 ≤ text.length by omega)
  rw [List.length_append, List.length_append, List.length_take, length_errorLines,
    length_errorLines] at hlen
  omega

/-- The size of a response determines the size of its body. -/
theorem length_eq_of_decimal {k n base : ℕ}
    (h : base + (decimal k).length + k = base + (decimal n).length + n) : k = n := by
  rcases Nat.le_total k n with hle | hle
  · have := length_decimal_mono hle
    omega
  · have := length_decimal_mono hle
    omega

theorem map_writes_flatten (r : Except Raise Reply) :
    (r.map Reply.writes).map List.flatten = r.map fun r => r.writes.flatten := by
  cases r <;> rfl

theorem not_complete_error (outBuffer errorTxt : Bytes) :
    ¬ (ReplyCall.error errorTxt).Complete outBuffer := by
  rw [ReplyCall.complete_iff_eq]
  rintro ⟨text, ht, hw⟩
  change sprintf errorTemplate [.str (cstr errorTxt)] = some text at ht
  rw [ReplyCall.writes, sendReplyError_writes outBuffer ht] at hw
  refine errorPage_cut ht ?_
  simpa [Except.map, ReplyCall.lines] using hw

/-- A missing landing page is answered with an error page. -/
theorem not_complete_page_none (outBuffer : Bytes) (cfg : Config) :
    ¬ (ReplyCall.page cfg none).Complete outBuffer := by
  intro h
  refine not_complete_error outBuffer (ascii "Resource not found!") ?_
  rw [ReplyCall.complete_iff_eq] at h ⊢
  have hc : cstr (ascii "Resource not found!") = ascii "Resource not found!" := by decide
  simpa [ReplyCall.body, ReplyCall.writes, ReplyCall.lines, sendReplyPage, hc] using h

theorem complete_page_iff (outBuffer : Bytes) (cfg : Config) (content : Bytes) :
    (ReplyCall.page cfg (some content)).Complete outBuffer
      ↔ (ReplyCall.page cfg (some content)).Fits := by
  constructor
  · rintro ⟨header, text, writes, ht, hwrites, hflat, rfl, -⟩
    obtain ⟨hsize, text', -, rfl⟩ := sendReplyPage_inv hwrites
    -- the sizes agree, so the two headers are the same and the bodies are
    simp only [List.flatten_cons, List.flatten_nil, List.append_nil, ReplyCall.lines] at hflat
    have hlen := congrArg List.length hflat
    rw [List.length_append, List.length_append, length_fileLines, length_fileLines] at hlen
    have hk : (pageText content text').length = text.length := length_eq_of_decimal hlen
    rw [hk, List.append_cancel_left_eq] at hflat
    refine ⟨hsize, text, ht, ?_, ?_⟩
    · rw [← hflat]
      exact zero_notMem_cstr _
    · rw [← hflat]
      exact length_pageText_le content text'
  · rintro ⟨hsize, text, ht, h0, hfit⟩
    have hcontent : cstr content = content :=
      cstr_eq_self fun h => h0 (zero_mem_sprintf ht h)
    have hpage : pageText content text = text := by
      rw [pageText, List.take_of_length_le hfit, cstr_eq_self h0]
    rw [ReplyCall.complete_iff_eq]
    refine ⟨text, ht, ?_⟩
    rw [ReplyCall.writes, sendReplyPage_writes outBuffer hsize (by rw [hcontent]; exact ht), hpage]
    simp [Except.map, ReplyCall.lines]

theorem complete_reply_iff (outBuffer origin : Bytes) (pragma : UInt32) (data : Bytes) :
    (ReplyCall.reply origin pragma data).Complete outBuffer
      ↔ (ReplyCall.reply origin pragma data).Fits := by
  have hcut := cut_eq_iff (fun n => length_replyLines (cstr origin) (decimal pragma.toNat) n) data
  rw [ReplyCall.complete_iff_eq, ReplyCall.writes, map_writes_flatten, sendReply_writes]
  simp only [ReplyCall.body, Option.some.injEq, exists_eq_left', Except.ok.injEq,
    ReplyCall.lines, ReplyCall.Fits, hcut]
  constructor <;> rintro ⟨h₁, h₂⟩ <;> exact ⟨h₁, by omega⟩

theorem complete_message_iff (outBuffer : Bytes) (peerId : UInt32) (text : Bytes) :
    (ReplyCall.message peerId text).Complete outBuffer
      ↔ (ReplyCall.message peerId text).Fits := by
  have hH := fun n => length_messageLines (decimal peerId.toNat) n
  rw [ReplyCall.complete_iff_eq, ReplyCall.writes, sendMessage_writes]
  simp only [ReplyCall.body, Option.some.injEq, exists_eq_left', Except.ok.injEq,
    ReplyCall.lines, ReplyCall.Fits]
  by_cases h0 : 0 ∈ text
  · -- a NUL makes the message shorter, and nothing on the wire makes up for it
    have hlt : (cstr text).length < text.length := length_cstr_lt h0
    have hle := length_cut_le hH (cstr text)
    have hmono := length_decimal_mono hlt.le
    constructor
    · intro h
      have hlen := congrArg List.length h
      rw [hlen, List.length_append, hH] at hle
      omega
    · rintro ⟨hn, -⟩
      exact absurd h0 hn
  · rw [cstr_eq_self h0, cut_eq_iff hH]
    have hp := length_decimal_lt peerId.toNat_lt
    constructor
    · rintro ⟨h, -⟩
      exact ⟨h0, h⟩
    · rintro ⟨-, h⟩
      have hd := length_decimal_lt (show text.length < 2 ^ 32 by omega)
      exact ⟨h, by omega⟩

/-- **Exactly the calls that fit are answered completely**, whatever the buffer held. -/
theorem complete_iff_fits (outBuffer : Bytes) (call : ReplyCall) :
    call.Complete outBuffer ↔ call.Fits := by
  match call with
  | .error errorTxt => exact iff_of_false (not_complete_error outBuffer errorTxt) id
  | .page cfg none => exact iff_of_false (not_complete_page_none outBuffer cfg) id
  | .page cfg (some content) => exact complete_page_iff outBuffer cfg content
  | .reply origin pragma data => exact complete_reply_iff outBuffer origin pragma data
  | .message peerId text => exact complete_message_iff outBuffer peerId text

/-- The page for an unknown command, and a plain reply to an origin of a thousand
characters: both are cut. -/
theorem not_complete_invalid_request :
    ¬ (ReplyCall.error (ascii "Invalid Request!")).Complete (List.replicate 32768 0) ∧
      ¬ (ReplyCall.reply (List.replicate 1000 97) 1 []).Complete (List.replicate 32768 0) := by
  refine ⟨not_complete_error _ _, ?_⟩
  rw [complete_reply_iff]
  rintro ⟨-, h⟩
  have hc : cstr (List.replicate 1000 97) = List.replicate 1000 97 :=
    cstr_eq_self fun hm => absurd (List.eq_of_mem_replicate hm) (by decide)
  rw [hc, List.length_replicate] at h
  omega

end Reflector.Http
