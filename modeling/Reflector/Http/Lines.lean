/-
# The parser over lines and tokens

`Request.lean` has the parser as the source writes it: one shared buffer, offsets, and five
nested scans.  This file states what those scans COMPUTE, with no offset in sight, and proves
that the parser computes it:

* `splitString` returns the tokens of its range (`splitString_tokens`);
* `parseUrl` is `urlOf`, a function of the tokens of the target (`parseUrl_eq`);
* `parseHttpMessage` cuts the text at each CRLF, hands every non-empty line to `lineOf`, and
  stops at the first empty one (`parseHttpMessage_eq`).

The buffer is the received text, a NUL, and whatever an earlier request left behind the NUL;
the last part does not occur in the result.
-/
import Reflector.Http.Request

namespace Reflector.Http

open Base

/-! ## 1. `splitString` returns tokens -/

/-- The bytes `str[a, b)`. -/
def slice (str : Bytes) (a b : ℕ) : Bytes := (str.drop a).take (b - a)

theorem slice_self (str : Bytes) (a : ℕ) : slice str a a = [] := by
  simp [slice]

/-- Splitting a range at its byte number `i`. -/
theorem slice_split {str : Bytes} {s i e : ℕ} {c : UInt8} (hs : s ≤ i) (he : i < e)
    (hc : str[i]? = some c) : slice str s e = slice str s i ++ c :: slice str (i + 1) e := by
  obtain ⟨hi, rfl⟩ := List.getElem?_eq_some_iff.mp hc
  have h₁ : e - s = (i - s) + (e - i) := by omega
  have h₂ : e - i = (e - (i + 1)) + 1 := by omega
  have h₃ : s + (i - s) = i := by omega
  unfold slice
  rw [h₁, List.take_add, List.drop_drop, h₃, List.drop_eq_getElem_cons hi, h₂,
    List.take_succ_cons]

theorem slice_succ {str : Bytes} {s i : ℕ} {c : UInt8} (hs : s ≤ i) (hc : str[i]? = some c) :
    slice str s (i + 1) = slice str s i ++ [c] := by
  rw [slice_split hs (Nat.lt_succ_self i) hc, slice_self]

theorem copyString_eq_slice (str : Bytes) (d : StringDesc) :
    copyString str d = slice str d.start (d.start + d.length) := by
  simp [copyString, slice]

theorem length_slice {str : Bytes} {a b : ℕ} (hb : b ≤ str.length) :
    (slice str a b).length = b - a := by
  simp only [slice, List.length_take, List.length_drop]
  omega

/-- Close the piece that started at `s`, unless it is empty. -/
def flush (i s : ℕ) (list : List StringDesc) : List StringDesc :=
  if i - s > 0 then list ++ [⟨s, i - s⟩] else list

/-- A piece without delimiters is closed as one token, or as none when it is empty. -/
theorem flush_tokens {str ptrn : Bytes} {i s : ℕ} (list : List StringDesc) (hs : s ≤ i)
    (hi : i ≤ str.length) (h : ∀ b ∈ slice str s i, ptrn.contains b = false) :
    ∃ ds, flush i s list = list ++ ds ∧
      ds.map (copyString str) = tokens ptrn.contains (slice str s i) ∧
      ∀ d ∈ ds, s ≤ d.start ∧ d.start + d.length ≤ i := by
  unfold flush
  split
  · rename_i hpos
    have hne : slice str s i ≠ [] := by
      intro hnil
      have hlen := length_slice (a := s) hi
      rw [hnil] at hlen
      simp at hlen
      omega
    refine ⟨[⟨s, i - s⟩], rfl, ?_, ?_⟩
    · rw [tokens_of_forall hne h]
      simp only [List.map_cons, List.map_nil, copyString_eq_slice]
      rw [show s + (i - s) = i by omega]
    · intro d hd
      obtain rfl := List.mem_singleton.mp hd
      exact ⟨Nat.le_refl _, by dsimp only; omega⟩
  · have hsi : s = i := by omega
    subst hsi
    exact ⟨[], by simp, by simp [slice_self], by simp⟩

/-- **The loop invariant of `splitString`.**  With a delimiter-free piece open since `s`, the
loop followed by the final flush adds the tokens of `str[s, i + n)`. -/
theorem splitLoop_tokens (str ptrn : Bytes) : ∀ (n i s : ℕ) (list : List StringDesc),
    s ≤ i → i + n ≤ str.length → (∀ b ∈ slice str s i, ptrn.contains b = false) →
    ∃ i' s' list' ds, splitLoop str ptrn n i s list = .ok (i', s', list') ∧
      flush i' s' list' = list ++ ds ∧
      ds.map (copyString str) = tokens ptrn.contains (slice str s (i + n)) ∧
      ∀ d ∈ ds, s ≤ d.start ∧ d.start + d.length ≤ i + n
  | 0, i, s, list, hs, hi, h => by
    obtain ⟨ds, h₁, h₂, h₃⟩ := flush_tokens list hs (by omega) h
    exact ⟨i, s, list, ds, rfl, h₁, h₂, h₃⟩
  | n + 1, i, s, list, hs, hi, h => by
    obtain ⟨c, hc⟩ : ∃ c, str[i]? = some c :=
      ⟨str[i], List.getElem?_eq_getElem (by omega)⟩
    have hni : i + 1 + n = i + (n + 1) := by omega
    simp only [splitLoop, hc]
    split
    · -- a delimiter closes the open piece; the next one starts behind it
      rename_i hd
      obtain ⟨ds₁, e₁, t₁, r₁⟩ := flush_tokens list hs (by omega) h
      obtain ⟨i', s', list', ds₂, hl, e₂, t₂, r₂⟩ :=
        splitLoop_tokens str ptrn n (i + 1) (i + 1) (flush i s list) (Nat.le_refl _) (by omega)
          (by simp [slice_self])
      refine ⟨i', s', list', ds₁ ++ ds₂, hl, by rw [e₂, e₁, List.append_assoc], ?_, ?_⟩
      · rw [List.map_append, t₁, t₂, hni, slice_split (e := i + (n + 1)) hs (by omega) hc,
          tokens_append_cons _ _ hd]
      · intro d hd'
        rcases List.mem_append.mp hd' with hm | hm
        · have := r₁ d hm
          omega
        · have := r₂ d hm
          omega
    · -- any other byte extends it
      rename_i hd
      have h' : ∀ b ∈ slice str s (i + 1), ptrn.contains b = false := by
        intro b hb
        rw [slice_succ hs hc] at hb
        rcases List.mem_append.mp hb with hm | hm
        · exact h b hm
        · rw [List.mem_singleton.mp hm]
          simpa using hd
      obtain ⟨i', s', list', ds, hl, e, t, r⟩ :=
        splitLoop_tokens str ptrn n (i + 1) s list (by omega) (by omega) h'
      exact ⟨i', s', list', ds, hl, e, by rw [t, hni], by rw [← hni]; exact r⟩

/-- Whatever the list held, `splitString` is the loop from an empty list and the final flush. -/
theorem splitString_of_loop {str ptrn : Bytes} {start stop i s : ℕ} {list' : List StringDesc}
    (list : List StringDesc)
    (h : splitLoop str ptrn (stop - start) start start [] = .ok (i, s, list')) :
    splitString str start stop ptrn list = .ok ((flush i s list').length, flush i s list') := by
  have hclear : (if list.length > 0 then ([] : List StringDesc) else list) = [] := by
    split
    · rfl
    · exact List.length_eq_zero_iff.mp (by omega)
  simp only [splitString, hclear, h, ok_bind]
  rfl

/-- **`splitString` returns the tokens of its range**, as descriptors inside that range. -/
theorem splitString_tokens {str : Bytes} {start stop : ℕ} (ptrn : Bytes) (list : List StringDesc)
    (h : start ≤ stop) (hstop : stop ≤ str.length) :
    ∃ ds, splitString str start stop ptrn list = .ok (ds.length, ds) ∧
      ds.map (copyString str) = tokens ptrn.contains (slice str start stop) ∧
      ∀ d ∈ ds, start ≤ d.start ∧ d.start + d.length ≤ stop := by
  obtain ⟨i', s', list', ds, hl, e, t, r⟩ :=
    splitLoop_tokens str ptrn (stop - start) start start [] (Nat.le_refl _) (by omega)
      (by simp [slice_self])
  have hadd : start + (stop - start) = stop := by omega
  rw [hadd] at t r
  rw [List.nil_append] at e
  refine ⟨ds, ?_, t, r⟩
  rw [splitString_of_loop list hl, e]

/-- The same for the range of a descriptor, as the nested calls use it. -/
theorem splitString_desc {str : Bytes} {d : StringDesc} (ptrn : Bytes) (list : List StringDesc)
    (h : d.start + d.length ≤ str.length) :
    ∃ ds, splitString str d.start (d.start + d.length) ptrn list = .ok (ds.length, ds) ∧
      ds.map (copyString str) = tokens ptrn.contains (copyString str d) ∧
      ∀ e ∈ ds, e.start + e.length ≤ str.length := by
  obtain ⟨ds, h₁, h₂, h₃⟩ := splitString_tokens ptrn list (Nat.le_add_right d.start d.length) h
  refine ⟨ds, h₁, by rw [h₂, copyString_eq_slice], fun e he => ?_⟩
  have := h₃ e he
  omega

/-! ## 2. `parseUrl` over tokens -/

/-- A query piece with a key and a value; further `=` pieces are ignored. -/
noncomputable def paramOf (piece : Bytes) : Option HttpUrlParam :=
  match tokens (ascii "=").contains piece with
  | key :: value :: _ => some ⟨key, value⟩
  | _ => none

/-- What a request target says: the command is the first `?` piece of the last `/` segment.
A last segment made of question marks only has no piece to take. -/
noncomputable def urlOf (target : Bytes) (url : HttpReqUrl) : Except Raise HttpReqUrl :=
  match (tokens (ascii "/").contains (cstr target)).getLast? with
  | none => .ok url
  | some segment =>
    match tokens (ascii "?").contains segment with
    | [] => .error .outOfRange
    | [cmd] => .ok { url with cmd := cmd }
    | cmd :: query :: _ =>
      .ok { cmd := cmd,
            param := url.param ++ (tokens (ascii "&").contains query).filterMap paramOf }

theorem paramLoop_eq {buff : Bytes} : ∀ {ds : List StringDesc} (param : List HttpUrlParam),
    (∀ d ∈ ds, d.start + d.length ≤ buff.length) →
    paramLoop buff ds param = .ok (param ++ (ds.map (copyString buff)).filterMap paramOf) := by
  intro ds
  induction ds with
  | nil =>
    intro param _
    simp [paramLoop]
  | cons d ds ih =>
    intro param h
    have htail := fun param => ih param fun e he => h e (List.mem_cons_of_mem _ he)
    obtain ⟨kv, hs, ht, -⟩ := splitString_desc (ascii "=") [] (h d List.mem_cons_self)
    simp only [paramLoop, hs, ok_bind, List.map_cons, List.filterMap_cons, paramOf, ← ht]
    -- the piece has no `=` piece, one, or a key and a value
    rcases kv with _ | ⟨k, _ | ⟨v, rest⟩⟩ <;> simp [htail]

/-- **`parseUrl` is `urlOf`.** -/
theorem parseUrl_eq (buff : Bytes) (url : HttpReqUrl) :
    (parseUrl buff url).map Prod.snd = urlOf buff url := by
  have hlen : (cstr buff).length ≤ buff.length := (List.takeWhile_prefix _).length_le
  have hslice : slice buff 0 (cstr buff).length = cstr buff := by
    have : cstr buff <+: buff := List.takeWhile_prefix _
    simpa [slice] using (List.prefix_iff_eq_take.mp this).symm
  obtain ⟨ds, h₁, h₂, h₃⟩ := splitString_tokens (ascii "/") [] (Nat.zero_le _) hlen
  rw [hslice] at h₂
  simp only [parseUrl, h₁, ok_bind, urlOf, ← h₂, List.getLast?_map]
  rcases List.eq_nil_or_concat ds with rfl | ⟨ds', last, rfl⟩
  · simp [Except.map]
  · rw [List.concat_eq_append] at h₃ ⊢
    have hr : last.start + last.length ≤ buff.length := by
      have := h₃ last (by simp)
      omega
    have hat : atIndex (ds' ++ [last]) ((ds' ++ [last]).length - 1) = .ok last := by
      simp [atIndex]
    obtain ⟨qs, g₁, g₂, g₃⟩ := splitString_desc (ascii "?") (ds' ++ [last]) hr
    rw [if_neg (by simp), hat]
    simp only [ok_bind, g₁, List.getLast?_append, List.getLast?_singleton, Option.map_some,
      Option.some_or, ← g₂]
    rcases qs with _ | ⟨c, _ | ⟨q, rest⟩⟩
    · simp [atIndex, Except.map]
    · simp [Except.map]
    · obtain ⟨ps, p₁, p₂, p₃⟩ := splitString_desc (ascii "&") (c :: q :: rest)
        (g₃ q (by simp))
      simp only [atIndex_cons_zero, atIndex_cons_succ, ok_bind, p₁, List.map_cons,
        List.length_cons]
      rw [if_pos (by omega), paramLoop_eq _ p₃, p₂]
      rfl

/-! ## 3. Lines -/

/-- The request line over its blank-separated tokens. -/
noncomputable def requestOf (line : Bytes) (req : HttpReq) : Except Raise HttpReq := do
  let words := tokens (ascii " ").contains line
  let url ← match words[1]? with
    | some target => urlOf target req.url
    | none => .ok req.url
  .ok { req with type := words[0]?.getD req.type, url := url,
                 version := words[2]?.getD req.version }

/-- A line by its number. -/
noncomputable def lineOf (lineNo : ℕ) (line : Bytes) (req : HttpReq) : Except Raise HttpReq :=
  if lineNo = 0 then requestOf line req else headerLine line req

theorem requestLine_eq {buffer : Bytes} {a b : ℕ} (h : a ≤ b) (hb : b ≤ buffer.length)
    (req : HttpReq) : requestLine buffer a b req = requestOf (slice buffer a b) req := by
  obtain ⟨ds, h₁, h₂, -⟩ := splitString_tokens (ascii " ") [] h hb
  have hurl : ∀ (d : StringDesc) (url : HttpReqUrl),
      (parseUrl (copyString buffer d) url >>= fun x => (Except.ok x.2 : Except Raise HttpReqUrl))
        = urlOf (copyString buffer d) url := by
    intro d url
    rw [← parseUrl_eq]
    cases parseUrl (copyString buffer d) url <;> rfl
  simp only [requestLine, requestOf, h₁, ok_bind, ← h₂, List.getElem?_map]
  cases ds[1]? with
  | none =>
    simp only [Option.map_none]
    cases ds[0]? <;> cases ds[2]? <;> rfl
  | some d =>
    simp only [Option.map_some, ← hurl]
    cases ds[0]? <;> cases ds[2]? <;>
      simp only [Option.map_none, Option.map_some, Option.getD_none, Option.getD_some] <;>
      cases parseUrl (copyString buffer d) req.url <;> rfl

theorem onLine_eq {buffer : Bytes} {a b : ℕ} (h : a ≤ b) (hb : b ≤ buffer.length) (lineNo : ℕ)
    (req : HttpReq) :
    onLine buffer a b lineNo req = lineOf lineNo (slice buffer a b) req := by
  unfold onLine lineOf
  split
  · exact requestLine_eq h hb req
  · rfl

/-! ## 4. The whole message -/

/-- CR LF. -/
def crlf : Bytes := [13, 10]

/-- Cut at each CRLF, at most `n` times; `some body` when an empty line was met. -/
noncomputable def parseTextAux : ℕ → Bytes → ℕ → HttpReq → Except Raise (Option Bytes × HttpReq)
  | 0, _, _, req => .ok (none, req)
  | n + 1, text, lineNo, req =>
    match text.dropInfix? crlf with
    | none => .ok (none, req)
    | some (line, rest) =>
      if line = [] then .ok (some rest, req)
      else do
        let req ← lineOf lineNo line req
        parseTextAux n rest (lineNo + 1) req

/-- **The message as a list of lines**: the lines in order, up to the first empty one; what
is behind that is the body. -/
noncomputable def parseText (text : Bytes) (lineNo : ℕ) (req : HttpReq) :
    Except Raise (Option Bytes × HttpReq) :=
  parseTextAux text.length text lineNo req

theorem crlf_ne_nil : crlf ≠ [] := by decide

theorem parseTextAux_of_le : ∀ {n : ℕ} {text : Bytes} {lineNo : ℕ} {req : HttpReq},
    text.length ≤ n → parseTextAux n text lineNo req = parseText text lineNo req
  | 0, text, _, _, h => by
    obtain rfl := List.length_eq_zero_iff.mp (Nat.le_zero.mp h)
    rfl
  | n + 1, text, lineNo, req, h => by
    cases hl : text.length with
    | zero =>
      obtain rfl := List.length_eq_zero_iff.mp hl
      have hn : ([] : Bytes).dropInfix? crlf = none := by decide
      simp [parseText, parseTextAux, hn]
    | succ m =>
      rw [parseText, hl, parseTextAux, parseTextAux]
      split
      · rfl
      · rename_i line rest hc
        have hlt := dropInfix?_length_lt crlf_ne_nil hc
        split
        · rfl
        · refine bind_congr fun req' => ?_
          rw [parseTextAux_of_le (n := n) (by omega), parseTextAux_of_le (n := m) (by omega)]

theorem parseText_none {text : Bytes} (h : text.dropInfix? crlf = none) (lineNo : ℕ)
    (req : HttpReq) : parseText text lineNo req = .ok (none, req) := by
  unfold parseText
  cases text.length <;> simp [parseTextAux, h]

theorem parseText_blank {text rest : Bytes} (h : text.dropInfix? crlf = some ([], rest))
    (lineNo : ℕ) (req : HttpReq) : parseText text lineNo req = .ok (some rest, req) := by
  have hlt := dropInfix?_length_lt crlf_ne_nil h
  obtain ⟨n, hn⟩ : ∃ n, text.length = n + 1 := ⟨text.length - 1, by omega⟩
  simp [parseText, hn, parseTextAux, h]

theorem parseText_line {text line rest : Bytes} (h : text.dropInfix? crlf = some (line, rest))
    (hline : line ≠ []) (lineNo : ℕ) (req : HttpReq) :
    parseText text lineNo req
      = lineOf lineNo line req >>= fun req => parseText rest (lineNo + 1) req := by
  have hlt := dropInfix?_length_lt crlf_ne_nil h
  obtain ⟨n, hn⟩ : ∃ n, text.length = n + 1 := ⟨text.length - 1, by omega⟩
  rw [parseText, hn, parseTextAux, h]
  simp only
  rw [if_neg hline]
  exact bind_congr fun req' => parseTextAux_of_le (by omega)

/-- **Bytes behind the blank line are only more body.**  The induction is on the length of the
text, which every line shortens. -/
theorem parseText_append : ∀ (n : ℕ) {text body : Bytes} {lineNo : ℕ} {req req' : HttpReq},
    text.length ≤ n → parseText text lineNo req = .ok (some body, req') → ∀ rest : Bytes,
      parseText (text ++ rest) lineNo req = .ok (some (body ++ rest), req')
  | n, text, body, lineNo, req, req', hn, h, rest => by
    cases hc : text.dropInfix? crlf with
    | none =>
      rw [parseText_none hc] at h
      exact absurd h (by simp)
    | some x =>
      obtain ⟨line, tail⟩ := x
      have hc' := dropInfix?_append hc rest
      by_cases hline : line = []
      · subst hline
        rw [parseText_blank hc] at h
        obtain ⟨rfl, rfl⟩ : tail = body ∧ req = req' := by simpa using h
        exact parseText_blank hc' lineNo req
      · rw [parseText_line hc hline] at h
        obtain ⟨req₁, hreq₁, h⟩ := bind_eq_ok.mp h
        have hlt := dropInfix?_length_lt crlf_ne_nil hc
        match n, hn with
        | 0, hn => omega
        | n + 1, hn =>
          rw [parseText_line hc' hline, hreq₁, ok_bind]
          exact parseText_append n (by omega) h rest

/-- The parser's answer, from the body found: the flag, and the offset of the body unless it
is empty. -/
def answer (len : ℕ) : Option Bytes × HttpReq → Bool × HttpReq
  | (none, req) => (false, req)
  | (some body, req) =>
    (true, { req with data := if 0 < body.length then some (len - body.length) else req.data })

/-- The byte at the front of what is left of the buffer, and the one behind it. -/
theorem getElem?_of_drop {buffer t : Bytes} {i : ℕ} {c : UInt8} (h : buffer.drop i = c :: t) :
    buffer[i]? = some c ∧ buffer.drop (i + 1) = t := by
  constructor
  · have := congrArg (fun l => l[0]?) h
    simpa using this
  · rw [← List.drop_drop, h]
    rfl

/-- **The scan.**  From inside a line, the loop runs to the first CRLF of the text that is
left, if there is one before the end. -/
theorem parseLoop_scan {buffer stale : Bytes} {len : ℕ} (lineStart lineNo : ℕ) (req : HttpReq) :
    ∀ (text : Bytes) (n i : ℕ), buffer.drop i = text ++ 0 :: stale → len = i + text.length →
      text.length ≤ n →
      match text.dropInfix? crlf with
      | none => parseLoop buffer len n i lineStart lineNo req = .ok (false, req)
      | some (p, s) => ∃ n', s.length ≤ n' ∧
          parseLoop buffer len n i lineStart lineNo req
            = if (i + p.length) - lineStart > 0 then do
                let req ← onLine buffer lineStart (i + p.length) lineNo req
                parseLoop buffer len n' (i + p.length + 2) (i + p.length + 2) (lineNo + 1) req
              else
                .ok (true, { req with
                  data := if i + p.length + 2 < len then some (i + p.length + 2)
                          else req.data })
  | [], n, i, _, hlen, _ => by
    have hi : ¬ i < len := by simp at hlen; omega
    have hnone : ([] : Bytes).dropInfix? crlf = none := by decide
    simp only [hnone]
    cases n <;> simp [parseLoop, hi]
  | c :: t, n, i, hdrop, hlen, hn => by
    obtain ⟨n, rfl⟩ : ∃ m, n = m + 1 := ⟨n - 1, by simp at hn; omega⟩
    obtain ⟨hc, hdrop'⟩ := getElem?_of_drop hdrop
    have hi : i < len := by simp at hlen; omega
    have hlen' : len = i + 1 + t.length := by simp at hlen; omega
    -- the look-ahead byte is the next one of the text, or the terminator
    obtain ⟨d, hd⟩ : ∃ d, buffer[i + 1]? = some d ∧ (t ++ 0 :: stale).head? = some d := by
      cases t with
      | nil => exact ⟨0, (getElem?_of_drop hdrop').1, rfl⟩
      | cons a t => exact ⟨a, (getElem?_of_drop hdrop').1, rfl⟩
    have hlook : (if c = 13 then buffer[i + 1]? else some 0) = some (if c = 13 then d else 0) := by
      split <;> simp [hd.1]
    by_cases hcr : c = 13 ∧ d = 10
    · -- a CRLF right here
      obtain ⟨rfl, rfl⟩ := hcr
      cases t with
      | nil => exact absurd hd.2 (by simp)
      | cons a t =>
        obtain rfl : a = 10 := by simpa using hd.2
        have hcut : ((13 :: 10 :: t : Bytes)).dropInfix? crlf = some ([], t) :=
          dropInfix?_of_isPrefix crlf t
        simp only [hcut, List.length_nil, Nat.add_zero]
        refine ⟨n, by simp at hn; omega, ?_⟩
        rw [parseLoop, if_pos hi, hc]
        simp [hd.1]
    · -- otherwise one byte further
      have hpre : ¬ crlf <+: c :: t := by
        rintro ⟨s, hs⟩
        cases t with
        | nil => simp [crlf] at hs
        | cons a t =>
          simp only [crlf, List.cons_append, List.nil_append, List.cons.injEq] at hs
          obtain ⟨rfl, rfl, -⟩ := hs
          exact hcr ⟨rfl, by simpa using hd.2.symm⟩
      have hstep : parseLoop buffer len (n + 1) i lineStart lineNo req
          = parseLoop buffer len n (i + 1) lineStart lineNo req := by
        rw [parseLoop, if_pos hi, hc]
        simp only [hlook]
        rw [if_neg]
        rintro ⟨rfl, h10⟩
        exact hcr ⟨rfl, by simpa using h10⟩
      have ih := parseLoop_scan lineStart lineNo req t n (i + 1) hdrop' hlen' (by simpa using hn)
      rw [dropInfix?_cons hpre, hstep]
      cases ht : t.dropInfix? crlf with
      | none => simpa [ht] using ih
      | some x =>
        obtain ⟨p, s⟩ := x
        simp only [ht] at ih
        simp only [Option.map_some, List.length_cons]
        rw [show i + (p.length + 1) = i + 1 + p.length by omega]
        exact ih

/-- From the start of a line, the loop is `parseText` of what is left. -/
theorem parseLoop_eq {buffer stale : Bytes} {len : ℕ} (text : Bytes) :
    ∀ (n i lineNo : ℕ) (req : HttpReq), buffer.drop i = text ++ 0 :: stale →
      len = i + text.length → text.length ≤ n →
      parseLoop buffer len n i i lineNo req = (parseText text lineNo req).map (answer len) := by
  induction text using pieces_induction crlf_ne_nil with
  | hlast text h =>
    intro n i lineNo req hdrop hlen hn
    have hnone := dropInfix?_none_iff.mpr h
    have hscan := parseLoop_scan i lineNo req text n i hdrop hlen hn
    rw [hnone] at hscan
    rw [hscan, parseText_none hnone]
    rfl
  | hcut text line rest hcut ih =>
    intro n i lineNo req hdrop hlen hn
    have hscan := parseLoop_scan i lineNo req text n i hdrop hlen hn
    have htext : text = line ++ crlf ++ rest := (dropInfix?_iff.mp hcut).1
    have hlen₂ : len = i + line.length + 2 + rest.length := by
      rw [hlen, htext]
      simp [crlf]
      omega
    simp only [hcut] at hscan
    obtain ⟨n', hn', hscan⟩ := hscan
    rw [hscan]
    by_cases hline : line = []
    · subst hline
      rw [parseText_blank hcut, if_neg (by simp)]
      simp only [Except.map, answer, List.length_nil, Nat.add_zero] at hlen₂ ⊢
      congr 3
      by_cases hr : 0 < rest.length
      · rw [if_pos (by omega), if_pos hr]
        congr 1
        omega
      · rw [if_neg (by omega), if_neg hr]
    · have hpos : 0 < line.length := List.length_pos_iff.mpr hline
      have hbuf : i + line.length ≤ buffer.length := by
        have := congrArg List.length hdrop
        rw [htext] at this
        simp at this
        omega
      have hslice : slice buffer i (i + line.length) = line := by
        simp [slice, hdrop, htext]
      have hdrop' : buffer.drop (i + line.length + 2) = rest ++ 0 :: stale := by
        rw [show i + line.length + 2 = i + (line.length + 2) by omega, ← List.drop_drop, hdrop,
          htext, show line.length + 2 = (line ++ crlf).length by simp [crlf],
          List.append_assoc, List.drop_left]
      rw [if_pos (by omega), parseText_line hcut hline,
        onLine_eq (Nat.le_add_right _ _) hbuf, hslice]
      cases lineOf lineNo line req with
      | error e => rfl
      | ok req' =>
        simp only [ok_bind]
        exact ih n' _ (lineNo + 1) req' hdrop' hlen₂ hn'

/-- What `parseHttpMessage` assigns before it reads the buffer. -/
def HttpReq.reset (req : HttpReq) : HttpReq :=
  { req with sessionId := 0, data := none, dataSize := 0, keepAlive := false, pragma := 0 }

/-- **The parser computes `parseText`**, whatever stands behind the terminator. -/
theorem parseHttpMessage_eq (text stale : Bytes) (req : HttpReq) :
    parseHttpMessage (text ++ 0 :: stale) text.length req
      = (parseText text 0 req.reset).map (answer text.length) :=
  parseLoop_eq text _ 0 0 req.reset rfl (by simp) (Nat.le_refl _)

end Reflector.Http
