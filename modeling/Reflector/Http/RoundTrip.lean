/-
# Rendering a request and parsing it back

A `Request` is what a client means to send: method, path, command, query parameters, version,
header lines, body.  The structure carries what makes it renderable, so a value of it is
always well formed.  `Request.render` lays it out on the wire.

The result is that `parseHttpMessage` inverts `render` (`parse_render`): the request line comes
back piece by piece, and each of the four header fields the server reads is decoded from the
LAST line that names it, whatever the other lines are and wherever they stand.  The body is
found however much it looks like more header.
-/
import Reflector.Http.Lines

namespace Reflector.Http

open Base

/-! ## 1. Requests and their rendering -/

/-- No byte of `w` is one of `excl`. -/
def Avoids (excl w : Bytes) : Prop := ∀ b ∈ w, b ∉ excl

instance (excl w : Bytes) : Decidable (Avoids excl w) :=
  List.decidableBAll (fun b => b ∉ excl) w

/-- Blank, CR, LF. -/
def lineBreaking : Bytes := [32, 13, 10]

/-- NUL, blank, CR, LF, and the four delimiters of a request target. -/
def targetBreaking : Bytes := [0, 32, 13, 10] ++ ascii "/?&="

/-- A request as a client means it. -/
structure Request where
  method : Bytes
  path : List Bytes
  cmd : Bytes
  param : List HttpUrlParam
  version : Bytes
  headers : List Bytes
  body : Bytes
  method_ne : method ≠ []
  method_ok : Avoids lineBreaking method
  version_ne : version ≠ []
  version_ok : Avoids lineBreaking version
  path_ok : ∀ seg ∈ path, Avoids targetBreaking seg
  cmd_ne : cmd ≠ []
  cmd_ok : Avoids targetBreaking cmd
  param_ne : ∀ p ∈ param, p.key ≠ [] ∧ p.value ≠ []
  param_ok : ∀ p ∈ param, Avoids targetBreaking p.key ∧ Avoids targetBreaking p.value
  headers_ne : ∀ line ∈ headers, line ≠ []
  headers_ok : ∀ line ∈ headers, Avoids [13, 10] line

/-- `k=v`. -/
def renderParam (p : HttpUrlParam) : Bytes := p.key ++ ascii "=" ++ p.value

namespace Request

/-- `cmd`, and `?k1=v1&k2=v2...` when there are parameters. -/
def segment (r : Request) : Bytes :=
  r.cmd ++
    if r.param = [] then [] else ascii "?" ++ (ascii "&").intercalate (r.param.map renderParam)

/-- The request target: the path, and the segment with the command. -/
def target (r : Request) : Bytes :=
  r.path.flatMap (fun seg => ascii "/" ++ seg) ++ ascii "/" ++ r.segment

def line (r : Request) : Bytes := r.method ++ ascii " " ++ r.target ++ ascii " " ++ r.version

/-- Everything in front of the body. -/
def head (r : Request) : Bytes :=
  r.line ++ crlf ++ r.headers.flatMap (fun l => l ++ crlf) ++ crlf

def render (r : Request) : Bytes := r.head ++ r.body

end Request

/-! ## 2. The header fields -/

/-- The value of `line` when the text before its first blank is `name`. -/
def field (name line : Bytes) : Option Bytes :=
  match line.dropInfix? (ascii " ") with
  | none => none
  | some (n, v) => if n = name then some v else none

/-- The value of the last line that names the field. -/
def lastField (name : Bytes) (lines : List Bytes) : Option Bytes :=
  (lines.filterMap (field name)).getLast?

/-- What one header line changes. -/
def applyHeader (req : HttpReq) (line : Bytes) : HttpReq :=
  { req with
    dataSize :=
      ((field (ascii "Content-Length:") line).map fun v => toUInt32 (atoi v)).getD req.dataSize
    pragma := ((field (ascii "Pragma:") line).map fun v => toUInt32 (atoi v)).getD req.pragma
    origin := (field (ascii "Origin:") line).getD req.origin
    keepAlive :=
      ((field (ascii "Connection:") line).map (· == ascii "keep-alive")).getD req.keepAlive }

/-- `headerLine` never raises: it changes the field its line names, or nothing. -/
theorem headerLine_eq (line : Bytes) (req : HttpReq) :
    headerLine line req = .ok (applyHeader req line) := by
  unfold headerLine find applyHeader field
  cases h : line.dropInfix? (ascii " ") with
  | none => simp [h]
  | some x =>
    obtain ⟨name, value⟩ := x
    have hline : line = name ++ ascii " " ++ value := (dropInfix?_iff.mp h).1
    have hname : substr line 0 (some name.length) = .ok name := by
      rw [substr_zero, hline, List.append_assoc, List.take_left]
    have hvalue : substr line (name.length + 1) none = .ok value := by
      have hle : name.length + 1 ≤ line.length := by
        rw [hline]
        simp [ascii]
      rw [substr_of_le hle, hline]
      have : name.length + 1 = (name ++ ascii " ").length := by simp [ascii]
      rw [this, List.drop_left]
    simp only [List.drop_zero, h, Option.map_some, Nat.zero_add, hname, hvalue, ok_bind]
    split
    · rename_i e
      subst e
      simp [ascii]
    · split
      · rename_i e
        subst e
        simp [ascii]
      · split
        · rename_i e
          subst e
          simp [ascii]
        · split
          · rename_i e
            subst e
            simp [ascii]
          · rfl

/-- **The last line wins**, for any field that each line either sets or leaves alone. -/
theorem foldl_applyHeader {β : Type} (get : HttpReq → β) (name : Bytes) (decode : Bytes → β)
    (h : ∀ req line, get (applyHeader req line) = ((field name line).map decode).getD (get req)) :
    ∀ (lines : List Bytes) (req : HttpReq),
      get (lines.foldl applyHeader req) = ((lastField name lines).map decode).getD (get req) := by
  intro lines
  induction lines with
  | nil =>
    intro req
    rfl
  | cons line lines ih =>
    intro req
    rw [List.foldl_cons, ih, h]
    unfold lastField
    rw [List.filterMap_cons]
    cases field name line with
    | none => rfl
    | some v =>
      simp only [List.getLast?_cons, Option.map_some, Option.getD_some]
      cases (lines.filterMap (field name)).getLast? <;> rfl

/-- The four fields, over all header lines, and what no header line touches. -/
theorem foldl_applyHeader_eq (lines : List Bytes) (req : HttpReq) :
    lines.foldl applyHeader req = { req with
      dataSize := ((lastField (ascii "Content-Length:") lines).map fun v =>
        toUInt32 (atoi v)).getD req.dataSize
      pragma := ((lastField (ascii "Pragma:") lines).map fun v => toUInt32 (atoi v)).getD req.pragma
      origin := ((lastField (ascii "Origin:") lines).map id).getD req.origin
      keepAlive := ((lastField (ascii "Connection:") lines).map
        (· == ascii "keep-alive")).getD req.keepAlive } := by
  have hrest : ∀ (lines : List Bytes) (req : HttpReq),
      (lines.foldl applyHeader req) = { req with
        dataSize := (lines.foldl applyHeader req).dataSize
        pragma := (lines.foldl applyHeader req).pragma
        origin := (lines.foldl applyHeader req).origin
        keepAlive := (lines.foldl applyHeader req).keepAlive } := by
    intro lines
    induction lines with
    | nil => intro req; rfl
    | cons line lines ih =>
      intro req
      rw [List.foldl_cons, ih]
      rfl
  rw [hrest, foldl_applyHeader HttpReq.dataSize (ascii "Content-Length:") _ (fun _ _ => rfl),
    foldl_applyHeader HttpReq.pragma (ascii "Pragma:") _ (fun _ _ => rfl),
    foldl_applyHeader HttpReq.origin (ascii "Origin:") id (fun _ _ => by simp [applyHeader]),
    foldl_applyHeader HttpReq.keepAlive (ascii "Connection:") _ (fun _ _ => rfl)]

/-! ## 3. The lines of a rendered request -/

/-- A line without CRLF ends at the CRLF behind it. -/
theorem dropInfix?_line {line : Bytes} (h : ¬ crlf <:+: line) (rest : Bytes) :
    (line ++ crlf ++ rest).dropInfix? crlf = some (line, rest) :=
  dropInfix?_append_of_first crlf_ne_nil (not_infix_dropLast_pair (by decide) h)

theorem parseText_headers : ∀ (lines : List Bytes), (∀ l ∈ lines, l ≠ []) →
    (∀ l ∈ lines, ¬ crlf <:+: l) → ∀ (body : Bytes) (lineNo : ℕ) (req : HttpReq), lineNo ≠ 0 →
    parseText (lines.flatMap (fun l => l ++ crlf) ++ crlf ++ body) lineNo req
      = .ok (some body, lines.foldl applyHeader req) := by
  intro lines
  induction lines with
  | nil =>
    intro _ _ body lineNo req _
    exact parseText_blank (dropInfix?_of_isPrefix crlf body) lineNo req
  | cons l lines ih =>
    intro hne hcr body lineNo req hk
    have hcut : ((l :: lines).flatMap (fun l => l ++ crlf) ++ crlf ++ body).dropInfix? crlf
        = some (l, lines.flatMap (fun l => l ++ crlf) ++ crlf ++ body) := by
      have := dropInfix?_line (hcr l List.mem_cons_self)
        (lines.flatMap (fun l => l ++ crlf) ++ crlf ++ body)
      simpa only [List.flatMap_cons, List.append_assoc] using this
    rw [parseText_line hcut (hne l List.mem_cons_self), lineOf, if_neg hk, headerLine_eq, ok_bind,
      ih (fun x hx => hne x (List.mem_cons_of_mem _ hx))
        (fun x hx => hcr x (List.mem_cons_of_mem _ hx)) body _ _ (by omega)]
    rfl

/-! ## 4. The request line -/

theorem Avoids.notMem {excl w : Bytes} (h : Avoids excl w) {b : UInt8} (hb : b ∈ excl) : b ∉ w :=
  fun hw => h b hw hb

/-- What avoids a set of bytes holds no delimiter from it ... -/
theorem Avoids.contains {excl w ptrn : Bytes} (h : Avoids excl w) (hsub : ptrn ⊆ excl) :
    ∀ b ∈ w, ptrn.contains b = false := by
  intro b hb
  have hn : b ∉ ptrn := fun hp => h b hb (hsub hp)
  simpa using hn

/-- ... and is one token, unless it is empty. -/
theorem Avoids.tokens {excl w ptrn : Bytes} (h : Avoids excl w) (hne : w ≠ [])
    (hsub : ptrn ⊆ excl) : tokens ptrn.contains w = [w] :=
  tokens_of_forall hne (h.contains hsub)

theorem Avoids.append {excl w w' : Bytes} (h : Avoids excl w) (h' : Avoids excl w') :
    Avoids excl (w ++ w') := by
  intro b hb
  rcases List.mem_append.mp hb with hm | hm
  · exact h b hm
  · exact h' b hm

theorem Avoids.mono {excl excl' w : Bytes} (h : Avoids excl w) (hsub : excl' ⊆ excl) :
    Avoids excl' w := fun b hb he => h b hb (hsub he)

/-- Words that avoid `excl`, joined by a word that does, avoid it. -/
theorem Avoids.intercalate {excl sep : Bytes} (hsep : Avoids excl sep) : ∀ {ws : List Bytes},
    (∀ w ∈ ws, Avoids excl w) → Avoids excl (sep.intercalate ws)
  | [], _ => by
    intro b hb
    simp at hb
  | [w], h => by
    rw [List.intercalate_singleton]
    exact h w (by simp)
  | w :: w' :: ws, h => by
    rw [List.intercalate_cons_cons]
    exact ((h w (by simp)).append hsep).append
      (Avoids.intercalate hsep fun x hx => h x (List.mem_cons_of_mem _ hx))

theorem paramOf_renderParam {p : HttpUrlParam} (hne : p.key ≠ [] ∧ p.value ≠ [])
    (hok : Avoids targetBreaking p.key ∧ Avoids targetBreaking p.value) :
    paramOf (renderParam p) = some p := by
  have ht : tokens (ascii "=").contains (renderParam p) = [p.key, p.value] := by
    unfold renderParam
    rw [List.append_assoc, show ascii "=" ++ p.value = 61 :: p.value from rfl,
      tokens_append_cons _ _ (by decide),
      hok.1.tokens hne.1 (by decide), hok.2.tokens hne.2 (by decide)]
    rfl
  simp [paramOf, ht]

/-- The bytes of a query besides those of its keys and values are `&` and `=`. -/
theorem renderParam_avoids {p : HttpUrlParam} (excl : Bytes) (hsub : excl ⊆ targetBreaking)
    (heq : (61 : UInt8) ∉ excl)
    (hok : Avoids targetBreaking p.key ∧ Avoids targetBreaking p.value) :
    Avoids excl (renderParam p) := by
  refine ((hok.1.mono hsub).append ?_).append (hok.2.mono hsub)
  intro b hb he
  obtain rfl : b = 61 := by simpa [ascii] using hb
  exact heq he

namespace Request

/-- The query avoids everything a target avoids but `&` and `=`. -/
theorem query_avoids (r : Request) (excl : Bytes) (hsub : excl ⊆ targetBreaking)
    (hamp : (38 : UInt8) ∉ excl) (heq : (61 : UInt8) ∉ excl) :
    Avoids excl ((ascii "&").intercalate (r.param.map renderParam)) := by
  refine Avoids.intercalate ?_ ?_
  · intro b hb he
    obtain rfl : b = 38 := by simpa [ascii] using hb
    exact hamp he
  · intro w hw
    obtain ⟨p, hp, rfl⟩ := List.mem_map.mp hw
    exact renderParam_avoids excl hsub heq (r.param_ok p hp)

/-- The query's pieces are the parameters. -/
theorem query_params (r : Request) :
    (tokens (ascii "&").contains ((ascii "&").intercalate (r.param.map renderParam))).filterMap
      paramOf = r.param := by
  have ht : tokens (ascii "&").contains ((ascii "&").intercalate (r.param.map renderParam))
      = r.param.map renderParam := by
    refine tokens_intercalate (d := 38) (by decide) _ fun x hx => ?_
    obtain ⟨p, hp, rfl⟩ := List.mem_map.mp hx
    refine ⟨?_, ?_⟩
    · simp [renderParam, (r.param_ne p hp).1]
    · exact (renderParam_avoids [38] (by decide) (by decide)
        (r.param_ok p hp)).contains (by decide)
  rw [ht, List.filterMap_map]
  refine (List.filterMap_congr fun p hp => ?_).trans (List.filterMap_some)
  exact paramOf_renderParam (r.param_ne p hp) (r.param_ok p hp)

/-- The last segment avoids everything a target avoids but `?`, `&` and `=`. -/
theorem segment_avoids (r : Request) (excl : Bytes) (hsub : excl ⊆ targetBreaking)
    (hq : (63 : UInt8) ∉ excl) (hamp : (38 : UInt8) ∉ excl) (heq : (61 : UInt8) ∉ excl) :
    Avoids excl r.segment := by
  unfold segment
  refine (r.cmd_ok.mono hsub).append ?_
  split
  · intro b hb
    simp at hb
  · refine Avoids.append ?_ (r.query_avoids excl hsub hamp heq)
    intro b hb he
    obtain rfl : b = 63 := by simpa [ascii] using hb
    exact hq he

theorem segment_ne_nil (r : Request) : r.segment ≠ [] := by
  simp [segment, r.cmd_ne]

theorem target_avoids (r : Request) : Avoids [0, 32, 13, 10] r.target := by
  have hslash : Avoids [0, 32, 13, 10] (ascii "/") := by
    intro b hb
    obtain rfl : b = 47 := by simpa [ascii] using hb
    decide
  refine (Avoids.append ?_ hslash).append
    (r.segment_avoids _ (by decide) (by decide) (by decide) (by decide))
  intro b hb
  obtain ⟨seg, hseg, hb⟩ := List.mem_flatMap.mp hb
  exact (hslash.append ((r.path_ok seg hseg).mono (by decide))) b hb

/-- **The target says the command and the parameters**, whatever the path in front. -/
theorem urlOf_target (r : Request) : urlOf r.target ⟨[], []⟩ = .ok ⟨r.cmd, r.param⟩ := by
  have hnul : cstr r.target = r.target := cstr_eq_self (r.target_avoids.notMem (by decide))
  -- the part behind the last slash of the path is one segment
  have hlast : (tokens (ascii "/").contains r.target).getLast? = some r.segment := by
    unfold target
    rw [List.append_assoc, show ascii "/" ++ r.segment = 47 :: r.segment from rfl,
      tokens_append_cons _ _ (by decide),
      (r.segment_avoids [47] (by decide) (by decide) (by decide) (by decide)).tokens
        r.segment_ne_nil (by decide)]
    simp
  have hcmd : tokens (ascii "?").contains r.cmd = [r.cmd] :=
    r.cmd_ok.tokens r.cmd_ne (by decide)
  simp only [urlOf, hnul, hlast]
  by_cases hp : r.param = []
  · have hseg : r.segment = r.cmd := by simp [segment, hp]
    rw [hseg, hcmd, hp]
  · obtain ⟨q, hq⟩ : ∃ q, q = (ascii "&").intercalate (r.param.map renderParam) := ⟨_, rfl⟩
    have hqne : q ≠ [] := by
      obtain ⟨p, ps, hps⟩ := List.exists_cons_of_ne_nil hp
      have hk := (r.param_ne p (by simp [hps])).1
      rw [hq, hps]
      cases ps <;> simp [List.intercalate_cons_cons, renderParam, hk]
    have hseg : r.segment = r.cmd ++ 63 :: q := by
      simp only [segment, if_neg hp, hq]
      rfl
    have hqt : tokens (ascii "?").contains q = [q] :=
      (hq ▸ r.query_avoids [63] (by decide) (by decide) (by decide) :
        Avoids [63] q).tokens hqne (by decide)
    rw [hseg, tokens_append_cons _ _ (by decide), hcmd, hqt]
    simp only [List.singleton_append, List.nil_append]
    rw [hq, r.query_params]

theorem line_ne_nil (r : Request) : r.line ≠ [] := by
  simp [line, r.method_ne]

theorem line_cr (r : Request) : (13 : UInt8) ∉ r.line := by
  have hblank : (13 : UInt8) ∉ ascii " " := by decide
  simp only [line, List.mem_append, not_or]
  exact ⟨⟨⟨⟨r.method_ok.notMem (by decide), hblank⟩, r.target_avoids.notMem (by decide)⟩, hblank⟩,
    r.version_ok.notMem (by decide)⟩

/-- The request line, parsed. -/
theorem requestOf_line (r : Request) (req : HttpReq) (hurl : req.url = ⟨[], []⟩) :
    requestOf r.line req
      = .ok { req with type := r.method, url := ⟨r.cmd, r.param⟩, version := r.version } := by
  have ht : tokens (ascii " ").contains r.line = [r.method, r.target, r.version] := by
    have hne : r.target ≠ [] := by simp [target, ascii]
    unfold line
    rw [List.append_assoc, List.append_assoc, List.append_assoc,
      show ascii " " ++ (r.target ++ (ascii " " ++ r.version))
        = 32 :: (r.target ++ 32 :: r.version) from rfl,
      tokens_append_cons _ _ (by decide), tokens_append_cons _ _ (by decide),
      r.method_ok.tokens r.method_ne (by decide), r.target_avoids.tokens hne (by decide),
      r.version_ok.tokens r.version_ne (by decide)]
    rfl
  simp [requestOf, ht, hurl, r.urlOf_target]

/-- A rendered request, cut into its lines and parsed, with any bytes behind its head. -/
theorem parseText_head (r : Request) (rest : Bytes) (req : HttpReq) (hurl : req.url = ⟨[], []⟩) :
    parseText (r.head ++ rest) 0 req
      = .ok (some rest, r.headers.foldl applyHeader
          { req with type := r.method, url := ⟨r.cmd, r.param⟩, version := r.version }) := by
  have hcut : (r.head ++ rest).dropInfix? crlf
      = some (r.line, r.headers.flatMap (fun l => l ++ crlf) ++ crlf ++ rest) := by
    have := dropInfix?_line (not_infix_of_notMem (by decide) r.line_cr)
      (r.headers.flatMap (fun l => l ++ crlf) ++ crlf ++ rest)
    simpa only [head, List.append_assoc] using this
  rw [parseText_line hcut r.line_ne_nil, lineOf, if_pos rfl, r.requestOf_line req hurl, ok_bind]
  have hcr : ∀ l ∈ r.headers, (13 : UInt8) ∉ l := fun l hl => (r.headers_ok l hl).notMem (by decide)
  exact parseText_headers r.headers r.headers_ne
    (fun l hl => not_infix_of_notMem (by decide) (hcr l hl)) rest 1 _ (by decide)

end Request

/-! ## 5. The round trip -/

/-- What the server is to understand of a request. -/
def Request.meaning (r : Request) (data : Option ℕ) : HttpReq :=
  { sessionId := 0
    type := r.method
    url := ⟨r.cmd, r.param⟩
    version := r.version
    origin := (lastField (ascii "Origin:") r.headers).getD []
    keepAlive :=
      ((lastField (ascii "Connection:") r.headers).map (· == ascii "keep-alive")).getD false
    data := data
    dataSize :=
      ((lastField (ascii "Content-Length:") r.headers).map fun v => toUInt32 (atoi v)).getD 0
    pragma := ((lastField (ascii "Pragma:") r.headers).map fun v => toUInt32 (atoi v)).getD 0 }

/-- The id it carries. -/
def Request.pragma (r : Request) : ℕ :=
  ((lastField (ascii "Pragma:") r.headers).map fun v => toUInt32 (atoi v)).getD 0

/-- The parser on a rendered head, any bytes `rest` received behind it, and any bytes left in
the buffer by earlier requests. -/
theorem parse_head (r : Request) (rest stale : Bytes) :
    parseHttpMessage (r.head ++ rest ++ 0 :: stale) (r.head ++ rest).length .fresh
      = .ok (true, r.meaning (if 0 < rest.length then some r.head.length else none)) := by
  rw [parseHttpMessage_eq, r.parseText_head rest _ rfl, foldl_applyHeader_eq]
  simp [Except.map, answer, HttpReq.reset, HttpReq.fresh, Request.meaning, Option.map_id]

/-- The head is needed to its last byte: no shorter part of it is accepted. -/
theorem not_parsed_of_short (r : Request) {text rest : Bytes} (h : text ++ rest = r.head)
    (hrest : rest ≠ []) (stale : Bytes) (httpReq : HttpReq) :
    parseHttpMessage (text ++ 0 :: stale) text.length .fresh ≠ .ok (true, httpReq) := by
  rw [parseHttpMessage_eq]
  intro hparse
  cases htext : parseText text 0 HttpReq.fresh.reset with
  | error e =>
    rw [htext] at hparse
    exact absurd hparse (by simp [Except.map])
  | ok x =>
    obtain ⟨body, req⟩ := x
    cases body with
    | none =>
      rw [htext] at hparse
      exact absurd hparse (by simp [Except.map, answer])
    | some body =>
      -- the whole head has nothing behind its blank line
      have hmore := parseText_append text.length (Nat.le_refl _) htext rest
      have hhead := r.parseText_head [] HttpReq.fresh.reset rfl
      rw [List.append_nil, ← h, hmore] at hhead
      have hnil : body ++ rest = [] := by simpa using (Prod.mk.inj (Except.ok.inj hhead)).1
      exact hrest (List.append_eq_nil_iff.mp hnil).2

/-- **Round trip.**  Every rendered request is accepted and understood: the request line piece
by piece, each header field by the last line that names it (or its default), the body by the
offset of its first byte, and by a null pointer exactly when there is none. -/
theorem parse_render (r : Request) (stale : Bytes) :
    parseHttpMessage (r.render ++ 0 :: stale) r.render.length .fresh
      = .ok (true,
        { sessionId := 0
          type := r.method
          url := ⟨r.cmd, r.param⟩
          version := r.version
          origin := (lastField (ascii "Origin:") r.headers).getD []
          keepAlive := ((lastField (ascii "Connection:") r.headers).map
            (· == ascii "keep-alive")).getD false
          data := if r.body = [] then none else some r.head.length
          dataSize := ((lastField (ascii "Content-Length:") r.headers).map fun v =>
            toUInt32 (atoi v)).getD 0
          pragma := ((lastField (ascii "Pragma:") r.headers).map fun v =>
            toUInt32 (atoi v)).getD 0 })
      ∧ r.render.drop r.head.length = r.body := by
  refine ⟨?_, List.drop_left⟩
  have hdata : (if 0 < r.body.length then some r.head.length else none)
      = if r.body = [] then none else some r.head.length := by
    by_cases hb : r.body = []
    · simp [hb]
    · simp [hb, List.length_pos_iff]
  rw [Request.render, parse_head, hdata]
  rfl

end Reflector.Http
