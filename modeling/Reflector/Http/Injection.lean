/-
# The echoed origin stays on its line

`sendReply` copies the request's `Origin` value into its own header.  The value is whatever the
parser found behind the blank of an `Origin:` line, lone CRs and LFs included, so what keeps a
client from writing header lines of its own is an invariant of the parser's scan and not a check:

* between the start of a line and the place the scan has reached there is no CRLF (`NoBreak`), so
  no line holds one, and no value does;
* a line without CRLF ends where the template's own CRLF stands, also when it ends in CR.

`no_injection` puts the two together: the header on the wire is a piece from the front of a text
that falls into the nine lines of the template and the blank line, whatever the request was.
-/
import Reflector.Http.Complete
import Reflector.Http.RoundTrip

namespace Reflector.Http

open Base

/-! ## 1. No line holds a line break -/

/-- No CRLF starts at an index from `a` up to and without `b`. -/
def NoBreak (buffer : Bytes) (a b : ℕ) : Prop :=
  ∀ j, a ≤ j → j < b → ¬ (buffer[j]? = some 13 ∧ buffer[j + 1]? = some 10)

theorem NoBreak.slice {buffer : Bytes} {a b : ℕ} (h : NoBreak buffer a b) :
    ¬ crlf <:+: (buffer.drop a).take (b - a) := by
  rintro ⟨p, s, hps⟩
  have hget : ∀ k, k < p.length + 2 → buffer[a + k]? = (p ++ crlf ++ s)[k]? := by
    intro k hk
    have hlen := congrArg List.length hps
    simp only [List.length_append, List.length_take, List.length_drop, crlf,
      List.length_cons, List.length_nil] at hlen
    rw [hps, List.getElem?_take_of_lt (by omega), List.getElem?_drop]
  have hlen : p.length + 2 ≤ b - a := by
    have hlen := congrArg List.length hps
    simp only [List.length_append, List.length_take, List.length_drop, crlf,
      List.length_cons, List.length_nil] at hlen
    omega
  refine h (a + p.length) (Nat.le_add_right _ _) (by omega) ⟨?_, ?_⟩
  · rw [hget p.length (by omega)]
    simp [crlf]
  · rw [Nat.add_assoc, hget (p.length + 1) (by omega)]
    simp [crlf]

/-- One byte further, unless a CRLF starts there. -/
theorem NoBreak.succ {buffer : Bytes} {a i : ℕ} (h : NoBreak buffer a i)
    (hi : ¬ (buffer[i]? = some 13 ∧ buffer[i + 1]? = some 10)) : NoBreak buffer a (i + 1) := by
  intro j ha hj
  rcases Nat.lt_or_eq_of_le (Nat.le_of_lt_succ hj) with hlt | rfl
  · exact h j ha hlt
  · exact hi

/-- The value of a field is a part of its line. -/
theorem infix_of_field {name line value : Bytes} (h : field name line = some value) :
    value <:+: line := by
  unfold field at h
  split at h
  · exact absurd h (by simp)
  · rename_i n v hcut
    split at h
    · obtain rfl := Option.some.inj h
      rw [(dropInfix?_iff.mp hcut).1]
      exact (List.suffix_append _ _).isInfix
    · exact absurd h (by simp)

/-- A header line without CRLF puts none into the origin. -/
theorem headerLine_origin {line : Bytes} {req req' : HttpReq} (hline : ¬ crlf <:+: line)
    (horigin : ¬ crlf <:+: req.origin) (h : headerLine line req = .ok req') :
    ¬ crlf <:+: req'.origin := by
  rw [headerLine_eq] at h
  obtain rfl := Except.ok.inj h
  simp only [applyHeader]
  cases hf : field (ascii "Origin:") line with
  | none => exact horigin
  | some value => exact fun hin => hline (hin.trans (infix_of_field hf))

/-- The request line leaves the origin alone. -/
theorem requestLine_origin {buffer : Bytes} {a b : ℕ} {req req' : HttpReq}
    (h : requestLine buffer a b req = .ok req') : req'.origin = req.origin := by
  unfold requestLine at h
  obtain ⟨⟨count, ds⟩, -, h⟩ := bind_eq_ok.mp h
  dsimp only at h
  split at h
  · obtain ⟨⟨ret, url⟩, -, h⟩ := bind_eq_ok.mp h
    rw [ok_bind] at h
    obtain rfl := Except.ok.inj h
    cases ds[0]? <;> cases ds[2]? <;> rfl
  · rw [ok_bind] at h
    obtain rfl := Except.ok.inj h
    cases ds[0]? <;> cases ds[2]? <;> rfl

/-- **The parser never puts a CRLF into the origin**, in any buffer.  The induction is on the turns
of the loop; what it carries is that the line so far has no break. -/
theorem parseLoop_origin {buffer : Bytes} {len : ℕ} : ∀ (n i lineStart lineNo : ℕ)
    {req req' : HttpReq} {done : Bool}, NoBreak buffer lineStart i → ¬ crlf <:+: req.origin →
    parseLoop buffer len n i lineStart lineNo req = .ok (done, req') → ¬ crlf <:+: req'.origin := by
  intro n
  induction n with
  | zero =>
    intro i lineStart lineNo req req' done _ horigin h
    obtain ⟨-, rfl⟩ := Prod.mk.inj (Except.ok.inj h)
    exact horigin
  | succ n ih =>
    intro i lineStart lineNo req req' done hbreak horigin h
    rw [parseLoop] at h
    split at h
    · split at h
      · exact absurd h (by simp)
      · rename_i c hc
        split at h
        · exact absurd h (by simp)
        · rename_i d hd
          split at h
          · -- a CRLF: the line ends here, and the next one has no byte yet
            split at h
            · obtain ⟨req₁, hreq₁, h⟩ := bind_eq_ok.mp h
              refine ih (i + 2) (i + 2) (lineNo + 1) (fun j ha hj => by omega) ?_ h
              unfold onLine at hreq₁
              split at hreq₁
              · rw [requestLine_origin hreq₁]
                exact horigin
              · exact headerLine_origin hbreak.slice horigin hreq₁
            · obtain ⟨-, rfl⟩ := Prod.mk.inj (Except.ok.inj h)
              exact horigin
          · rename_i hno
            refine ih (i + 1) lineStart lineNo (hbreak.succ ?_) horigin h
            rintro ⟨h13, h10⟩
            obtain rfl : c = 13 := by simpa [hc] using h13
            obtain rfl : d = 10 := by simpa [h10] using hd.symm
            exact hno ⟨rfl, rfl⟩
    · obtain ⟨-, rfl⟩ := Prod.mk.inj (Except.ok.inj h)
      exact horigin

theorem parseHttpMessage_origin {buffer : Bytes} {len : ℕ} {httpReq : HttpReq} {done : Bool}
    (h : parseHttpMessage buffer len .fresh = .ok (done, httpReq)) : ¬ crlf <:+: httpReq.origin :=
  parseLoop_origin len 0 0 0 (fun j _ hj => absurd hj (Nat.not_lt_zero j)) (by decide) h

/-! ## 2. The lines of a header -/

/-- A header block is its lines, the blank line and nothing, joined by CRLF ... -/
theorem headerBlock_eq_intercalate (lines : List Bytes) :
    headerBlock lines = crlf.intercalate (lines ++ [[], []]) := by
  induction lines with
  | nil => rfl
  | cons l lines ih =>
    obtain ⟨x, xs, hx⟩ := List.exists_cons_of_ne_nil
      (show lines ++ [[], []] ≠ [] from by simp)
    rw [headerBlock_cons, ih, List.cons_append, hx, List.intercalate_cons_cons]

/-- ... **and falls apart into them**, if no line holds a CRLF. -/
theorem pieces_headerBlock {lines : List Bytes} (h : ∀ l ∈ lines, ¬ crlf <:+: l) :
    pieces crlf (headerBlock lines) = lines ++ [[], []] := by
  rw [headerBlock_eq_intercalate]
  refine pieces_intercalate crlf_ne_nil (by simp) fun l hl => ?_
  refine not_infix_dropLast_pair (by decide) ?_
  rcases List.mem_append.mp hl with hl | hl
  · exact h l hl
  · obtain rfl : l = [] := by simpa using hl
    exact (by decide : ¬ crlf <:+: ([] : Bytes))

/-- The lines of a plain reply, with an origin that has no CRLF. -/
theorem not_crlf_replyLines {origin pragma n : Bytes} (horigin : ¬ crlf <:+: origin)
    (hpragma : (13 : UInt8) ∉ pragma) (hn : (13 : UInt8) ∉ n) :
    ∀ l ∈ replyLines origin pragma n, ¬ crlf <:+: l := by
  have hplain : ∀ {l : Bytes}, (13 : UInt8) ∉ l → ¬ crlf <:+: l :=
    fun h => not_infix_of_notMem (by decide) h
  have hline : ¬ crlf <:+: ascii "Origin: " ++ origin := by
    rwa [infix_append_of_disjoint crlf_ne_nil origin _ (by decide +kernel)]
  simp only [replyLines, List.forall_mem_cons, List.not_mem_nil, false_implies, implies_true,
    and_true]
  refine ⟨hplain (by decide), hplain (by decide), hplain (by decide), hline, hplain (by decide),
    hplain (by decide), hplain ?_, hplain (by decide), hplain ?_⟩
  · rw [List.mem_append, not_or]
    exact ⟨by decide, hpragma⟩
  · rw [List.mem_append, not_or]
    exact ⟨by decide, hn⟩

/-! ## 3. No injection -/

/-- **No request reaches beyond its origin line.**  Whatever bytes were accepted, the header that
goes out is a piece from the front of the filled-in template, and that text is cut by its CRLFs
into the nine lines of the template and the blank line. -/
theorem no_injection (buffer : Bytes) (len : ℕ) (httpReq : HttpReq)
    (h : parseHttpMessage buffer len .fresh = .ok (true, httpReq)) (pragma : UInt32)
    (data outBuffer : Bytes) :
    ∃ text reply header rest,
      sprintf replyHeader [.str serverName, .str (cstr httpReq.origin), .int pragma.toNat,
        .int data.length] = some text ∧
      sendReply httpReq.origin pragma.toNat data outBuffer = .ok reply ∧
      reply.writes = header :: rest ∧ header <+: text ∧
      pieces crlf text =
        [ascii "HTTP/1.1 200 OK", ascii "Connection: close", ascii "Server: WebRTC Reflector",
          ascii "Origin: " ++ cstr httpReq.origin, ascii "Content-Type: text/plain",
          ascii "Accept-Ranges: none", ascii "Pragma: " ++ decimal pragma.toNat,
          ascii "Cache-Control: no-store", ascii "Content-Length: " ++ signedDecimal data.length]
          ++ [[], []] := by
  have hp : toUInt32 (pragma.toNat : ℤ) = pragma.toNat := toUInt32_natCast pragma.toNat_lt
  have hfmt := format_replyHeader (cstr httpReq.origin) pragma.toNat data.length
  rw [hp] at hfmt
  have h0 := zero_notMem_replyLines (zero_notMem_cstr httpReq.origin)
    (notMem_decimal rfl pragma.toNat) (notMem_signedDecimal rfl (by decide) data.length)
  have horigin : ¬ crlf <:+: cstr httpReq.origin := fun hin =>
    parseHttpMessage_origin h (hin.trans (cstr_isPrefix _).isInfix)
  obtain ⟨reply, hreply⟩ := sendReply_ok httpReq.origin pragma.toNat data outBuffer
  have hwrites := hreply
  simp only [sendReply, hfmt, ok_bind] at hwrites
  obtain rfl := Except.ok.inj hwrites
  refine ⟨headerBlock (replyLines (cstr httpReq.origin) (decimal pragma.toNat)
    (signedDecimal data.length)), _, _, _, ?_, hreply, rfl, ?_, ?_⟩
  · rw [format] at hfmt
    split at hfmt
    · rename_i text htext
      rw [htext, Except.ok.inj hfmt]
    · exact absurd hfmt (by simp)
  · rw [writeCstr_snprintf _ h0 (by decide)]
    exact List.take_prefix _ _
  · exact pieces_headerBlock (not_crlf_replyLines horigin (notMem_decimal rfl _)
      (notMem_signedDecimal rfl (by decide) _))

/-- A request whose origin ends in CR, so that three of these bytes meet in the reply. -/
def crOrigin : Bytes := ascii "GET /wait HTTP/1.1\r\nOrigin: a\r\r\n\r\n"

/-- The CR stays on the origin's line. -/
theorem no_injection_cr :
    ∃ httpReq text,
      parseHttpMessage (crOrigin ++ [0]) crOrigin.length .fresh = .ok (true, httpReq) ∧
      sprintf replyHeader [.str serverName, .str (cstr httpReq.origin), .int (7 : UInt32).toNat,
        .int ([] : Bytes).length] = some text ∧
      (pieces crlf text)[3]? = some (ascii "Origin: a\r") := by
  have hparse : parseHttpMessage (crOrigin ++ [0]) crOrigin.length .fresh
      = .ok (true, { HttpReq.fresh with
          type := ascii "GET", url := ⟨ascii "wait", []⟩, version := ascii "HTTP/1.1",
          origin := ascii "a\r" }) := by
    decide +kernel
  obtain ⟨text, -, -, -, htext, -, -, -, hpieces⟩ :=
    no_injection (crOrigin ++ [0]) crOrigin.length _ hparse 7 [] []
  refine ⟨_, text, hparse, htext, ?_⟩
  rw [hpieces]
  decide

end Reflector.Http
