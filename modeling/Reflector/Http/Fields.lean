/-
# How the header fields have to be spelled

The parser takes the text in front of the FIRST BLANK of a line and compares it with four literals,
`Content-Length:`, `Pragma:`, `Origin:` and `Connection:`.  HTTP compares field names without
regard to letter case, and allows any number of blanks, none included, behind the colon.

* `spelling_iff`: for which requests the four fields do not depend on the spelling.  These are the
  requests whose four fields say nothing in the first place: any line that does can be switched off
  by closing the gap behind its colon.
* `pragma_iff`: a peer id survives its trip through the `Pragma` line exactly when it is below
  `2 ^ 31`; `atoi` stops there.
-/
import Reflector.Http.Target

namespace Reflector.Http

open Base

/-! ## 1. Any request the parser accepts -/

/-- A request by its lines.  Unlike `Request`, it has any first line that does not make the parser
raise, and its lines may hold lone CRs and LFs. -/
structure Message where
  first : Bytes
  headers : List Bytes
  body : Bytes
  first_ne : first ≠ []
  first_ok : ¬ crlf <:+: first
  first_reads : ¬ OnlyMarks (targetOf first)
  headers_ne : ∀ l ∈ headers, l ≠ []
  headers_ok : ∀ l ∈ headers, ¬ crlf <:+: l

namespace Message

def text (m : Message) : Bytes :=
  m.first ++ crlf ++ m.headers.flatMap (fun l => l ++ crlf) ++ crlf ++ m.body

/-- What the server makes of it, whatever stands behind it in the buffer. -/
def parse (m : Message) (stale : Bytes) : Except Raise (Bool × HttpReq) :=
  parseHttpMessage (m.text ++ 0 :: stale) m.text.length .fresh

end Message

/-- What header lines decide: pragma, data size, origin and keep-alive. -/
def HttpReq.fields (req : HttpReq) : ℕ × ℕ × Bytes × Bool :=
  (req.pragma, req.dataSize, req.origin, req.keepAlive)

/-- The same four, from the last line that names each. -/
def decoded (headers : List Bytes) : ℕ × ℕ × Bytes × Bool :=
  (((lastField (ascii "Pragma:") headers).map fun v => toUInt32 (atoi v)).getD 0,
    ((lastField (ascii "Content-Length:") headers).map fun v => toUInt32 (atoi v)).getD 0,
    ((lastField (ascii "Origin:") headers).map id).getD [],
    ((lastField (ascii "Connection:") headers).map (· == ascii "keep-alive")).getD false)

/-- **A message is accepted, and its fields are decoded from its header lines.** -/
theorem Message.parse_fields (m : Message) (stale : Bytes) :
    ∃ req, m.parse stale = .ok (true, req) ∧ req.fields = decoded m.headers := by
  have hcut : m.text.dropInfix? crlf
      = some (m.first, m.headers.flatMap (fun l => l ++ crlf) ++ crlf ++ m.body) := by
    have := dropInfix?_line m.first_ok (m.headers.flatMap (fun l => l ++ crlf) ++ crlf ++ m.body)
    simpa only [text, List.append_assoc] using this
  obtain ⟨req, hreq⟩ := (requestOf_ok_iff m.first HttpReq.fresh.reset).mpr m.first_reads
  have hparse : parseText m.text 0 HttpReq.fresh.reset
      = .ok (some m.body, m.headers.foldl applyHeader req) := by
    rw [parseText_line hcut m.first_ne, lineOf, if_pos rfl, hreq, ok_bind]
    exact parseText_headers m.headers m.headers_ne m.headers_ok m.body 1 req (by decide)
  -- the request line has left the four fields at their defaults
  rw [requestOf_eq] at hreq
  obtain ⟨url, -, rfl⟩ := map_eq_ok.mp hreq
  refine ⟨_, by rw [parse, parseHttpMessage_eq, hparse]; rfl, ?_⟩
  rw [foldl_applyHeader_eq]
  rfl

/-! ## 2. Spellings -/

/-- A letter, in lower case. -/
def lower (b : UInt8) : UInt8 := if 65 ≤ b && b ≤ 90 then b + 32 else b

/-- A header line as HTTP reads it: the name in front of the first colon, in lower case, and the
value behind the blanks that follow the colon. -/
def fieldOf (line : Bytes) : Option (Bytes × Bytes) :=
  (line.dropInfix? (ascii ":")).map fun x => (x.1.map lower, x.2.dropWhile (· == 32))

/-- The same line, or another spelling of the same field. -/
def Respelled (line line' : Bytes) : Prop :=
  line = line' ∨ ∃ f, fieldOf line = some f ∧ fieldOf line' = some f

/-- Two requests that differ only in how their header lines are spelled. -/
structure Message.Variant (m m' : Message) : Prop where
  first : m'.first = m.first
  headers : List.Forall₂ Respelled m.headers m'.headers
  body : m'.body = m.body

/-- A field that leaves the parser's defaults in place: a number that reads as zero, a connection
that is not kept alive, and no origin. -/
def SilentField (name value : Bytes) : Prop :=
  name ≠ ascii "origin" ∧ (name = ascii "connection" → value ≠ ascii "keep-alive") ∧
    (name = ascii "content-length" ∨ name = ascii "pragma" → atoi value = 0)

/-- No header line says anything the server reads, in any spelling. -/
def Silent (headers : List Bytes) : Prop :=
  ∀ line ∈ headers, ∀ name value, fieldOf line = some (name, value) → SilentField name value

/-! ### Lines the parser recognises -/

/-- The parser's rule for a line. -/
theorem field_eq_some_iff {name line value : Bytes} (hblank : (32 : UInt8) ∉ name) :
    field name line = some value ↔ line = name ++ ascii " " ++ value := by
  unfold field
  constructor
  · intro h
    split at h
    · exact absurd h (by simp)
    · rename_i n v hcut
      split at h
      · rename_i hn
        obtain rfl := Option.some.inj h
        rw [← hn]
        exact (dropInfix?_iff.mp hcut).1
      · exact absurd h (by simp)
  · rintro rfl
    have hcut : (name ++ ascii " " ++ value).dropInfix? (ascii " ") = some (name, value) :=
      dropInfix?_symbol hblank value
    rw [hcut]
    exact if_pos rfl

/-- HTTP's rule, for a line given by its name and what is behind the colon. -/
theorem fieldOf_colon {name : Bytes} (hcolon : (58 : UInt8) ∉ name) (rest : Bytes) :
    fieldOf (name ++ ascii ":" ++ rest) = some (name.map lower, rest.dropWhile (· == 32)) := by
  have hcut : (name ++ ascii ":" ++ rest).dropInfix? (ascii ":") = some (name, rest) :=
    dropInfix?_symbol hcolon rest
  rw [fieldOf, hcut]
  rfl

/-- A line with a field has a first colon. -/
theorem exists_colon {line : Bytes} {f : Bytes × Bytes} (h : fieldOf line = some f) :
    ∃ name rest, line = name ++ ascii ":" ++ rest ∧ (58 : UInt8) ∉ name ∧
      f = (name.map lower, rest.dropWhile (· == 32)) := by
  obtain ⟨⟨name, rest⟩, hcut, rfl⟩ := Option.map_eq_some_iff.mp h
  refine ⟨name, rest, (dropInfix?_iff.mp hcut).1, fun hmem => ?_, rfl⟩
  exact not_infix_of_dropInfix? (by decide) hcut ((List.singleton_infix_iff 58 name).mpr hmem)

/-- A line in the parser's own spelling, with `k` more blanks than it needs. -/
def spelled (name : Bytes) (k : ℕ) (value : Bytes) : Bytes :=
  name ++ ascii ":" ++ (List.replicate (k + 1) 32 ++ value)

/-- A line with the gap behind its colon closed. -/
def tight (line : Bytes) : Bytes :=
  match line.dropInfix? (ascii ":") with
  | none => line
  | some (name, rest) => name ++ ascii ":" ++ rest.dropWhile (· == 32)

/-- A line without a colon has no gap ... -/
theorem tight_of_none {line : Bytes} (h : fieldOf line = none) : tight line = line := by
  have hcut : line.dropInfix? (ascii ":") = none := by simpa [fieldOf] using h
  simp only [tight, hcut]

/-- ... and any other is closed up at its first. -/
theorem tight_colon {name : Bytes} (hcolon : (58 : UInt8) ∉ name) (rest : Bytes) :
    tight (name ++ ascii ":" ++ rest) = name ++ ascii ":" ++ rest.dropWhile (· == 32) := by
  have hcut : (name ++ ascii ":" ++ rest).dropInfix? (ascii ":") = some (name, rest) :=
    dropInfix?_symbol hcolon rest
  simp only [tight, hcut]

theorem fieldOf_tight (line : Bytes) : fieldOf (tight line) = fieldOf line := by
  cases hf : fieldOf line with
  | none => rw [tight_of_none hf, hf]
  | some f =>
    obtain ⟨name, rest, rfl, hcolon, rfl⟩ := exists_colon hf
    rw [tight_colon hcolon, fieldOf_colon hcolon, List.dropWhile_idempotent]

theorem respelled_tight (line : Bytes) : Respelled line (tight line) := by
  cases hf : fieldOf line with
  | none => exact .inl (tight_of_none hf).symm
  | some f => exact .inr ⟨f, hf, (fieldOf_tight line).trans hf⟩

/-- **The parser recognises no line whose gap is closed.** -/
theorem field_tight {name : Bytes} (hcolon : (58 : UInt8) ∉ name) (hblank : (32 : UInt8) ∉ name)
    (line : Bytes) : field (name ++ ascii ":") (tight line) = none := by
  rw [Option.eq_none_iff_forall_not_mem]
  intro value hvalue
  have hline : tight line = name ++ ascii ":" ++ (ascii " " ++ value) := by
    rw [← List.append_assoc]
    exact (field_eq_some_iff (by simpa [ascii] using hblank)).mp hvalue
  cases hf : fieldOf line with
  | none =>
    -- a line without a colon is not one that names a field
    have := fieldOf_tight line
    rw [hline, fieldOf_colon hcolon, hf] at this
    exact absurd this (by simp)
  | some f =>
    obtain ⟨n, rest, rfl, hn, rfl⟩ := exists_colon hf
    rw [tight_colon hn] at hline
    have hcut : (n ++ ascii ":" ++ rest.dropWhile (· == 32)).dropInfix? (ascii ":")
        = some (n, rest.dropWhile (· == 32)) := dropInfix?_symbol hn _
    have hcut' : (name ++ ascii ":" ++ (ascii " " ++ value)).dropInfix? (ascii ":")
        = some (name, ascii " " ++ value) := dropInfix?_symbol hcolon _
    rw [hline, hcut'] at hcut
    obtain ⟨-, hrest⟩ := Prod.mk.inj (Option.some.inj hcut)
    have hhead := List.dropWhile_idempotent (p := (· == (32 : UInt8))) (l := rest)
    rw [← hrest] at hhead
    exact absurd (congrArg List.length hhead) (by
      have := (List.dropWhile_suffix (l := value) (· == (32 : UInt8))).length_le
      simp [ascii]
      omega)

/-- A spelled line, as the parser and as HTTP read it. -/
theorem field_spelled {name : Bytes} (hblank : (32 : UInt8) ∉ name) (k : ℕ) (value : Bytes) :
    field (name ++ ascii ":") (spelled name k value) = some (List.replicate k 32 ++ value) := by
  refine (field_eq_some_iff (by simpa [ascii] using hblank)).mpr ?_
  rw [spelled, List.replicate_succ, List.cons_append, List.append_assoc _ (ascii " ")]
  rfl

theorem fieldOf_spelled {name : Bytes} (hcolon : (58 : UInt8) ∉ name) (k : ℕ) {value : Bytes}
    (hvalue : value.dropWhile (· == 32) = value) :
    fieldOf (spelled name k value) = some (name.map lower, value) := by
  rw [spelled, fieldOf_colon hcolon, List.dropWhile_append_of_pos (by simp), hvalue]

/-! ### Respelled requests -/

/-- A CRLF lies on one side of the colon. -/
theorem crlf_infix_colon (name rest : Bytes) :
    crlf <:+: name ++ ascii ":" ++ rest ↔ crlf <:+: name ∨ crlf <:+: rest := by
  rw [List.append_assoc]
  exact infix_append_cons_iff (by decide) crlf_ne_nil rest name

theorem tight_ok {line : Bytes} (h : ¬ crlf <:+: line) : ¬ crlf <:+: tight line := by
  cases hf : fieldOf line with
  | none => rwa [tight_of_none hf]
  | some f =>
    obtain ⟨name, rest, rfl, hcolon, -⟩ := exists_colon hf
    rw [crlf_infix_colon, not_or] at h
    rw [tight_colon hcolon, crlf_infix_colon, not_or]
    exact ⟨h.1, fun hin => h.2 (hin.trans (List.dropWhile_suffix _).isInfix)⟩

theorem tight_ne {line : Bytes} (h : line ≠ []) : tight line ≠ [] := by
  cases hf : fieldOf line with
  | none => rwa [tight_of_none hf]
  | some f =>
    obtain ⟨name, rest, rfl, hcolon, -⟩ := exists_colon hf
    rw [tight_colon hcolon]
    simp [ascii]

theorem spelled_ok {name value : Bytes} (hname : ¬ crlf <:+: name) (hvalue : ¬ crlf <:+: value)
    (k : ℕ) : ¬ crlf <:+: spelled name k value := by
  have hblanks : ∀ b ∈ List.replicate (k + 1) (32 : UInt8), b ∉ crlf := by
    intro b hb
    rw [List.eq_of_mem_replicate hb]
    decide
  rw [spelled, crlf_infix_colon, infix_append_of_disjoint crlf_ne_nil value _ hblanks, not_or]
  exact ⟨hname, hvalue⟩

/-- The request with other header lines. -/
def Message.withHeaders (m : Message) (headers : List Bytes) (hne : ∀ l ∈ headers, l ≠ [])
    (hok : ∀ l ∈ headers, ¬ crlf <:+: l) : Message :=
  { m with headers := headers, headers_ne := hne, headers_ok := hok }

/-- With every gap closed, nothing is recognised. -/
theorem lastField_tight {name : Bytes} (hcolon : (58 : UInt8) ∉ name) (hblank : (32 : UInt8) ∉ name)
    (headers : List Bytes) : lastField (name ++ ascii ":") (headers.map tight) = none := by
  have hnil : (headers.map tight).filterMap (field (name ++ ascii ":")) = [] := by
    rw [List.filterMap_eq_nil_iff]
    intro l hl
    obtain ⟨line, -, rfl⟩ := List.mem_map.mp hl
    exact field_tight hcolon hblank line
  rw [lastField, hnil, List.getLast?_nil]

/-- With every gap closed but one, that line is. -/
theorem lastField_spelled {name : Bytes} (hcolon : (58 : UInt8) ∉ name)
    (hblank : (32 : UInt8) ∉ name) (before after : List Bytes) (k : ℕ) (value : Bytes) :
    lastField (name ++ ascii ":") (before.map tight ++ spelled name k value :: after.map tight)
      = some (List.replicate k 32 ++ value) := by
  have hafter := lastField_tight hcolon hblank after
  rw [lastField, List.getLast?_eq_none_iff] at hafter
  rw [lastField, List.filterMap_append, List.filterMap_cons, field_spelled hblank, hafter]
  simp

/-- A field decoded from any of these lines is the default, so the last one is. -/
theorem lastField_default {β : Type} {name : Bytes} {headers : List Bytes} {decode : Bytes → β}
    {d : β} (h : ∀ line ∈ headers, ∀ v, field name line = some v → decode v = d) :
    ((lastField name headers).map decode).getD d = d := by
  cases hl : lastField name headers with
  | none => rfl
  | some v =>
    obtain ⟨line, hline, hv⟩ := List.mem_filterMap.mp (List.mem_of_getLast? hl)
    exact h line hline v hv

/-! ### Numbers -/

theorem atoi_dropWhile (v : Bytes) : atoi (v.dropWhile (· == 32)) = atoi v := by
  have hspace : (v.dropWhile (· == 32)).dropWhile isSpace = v.dropWhile isSpace := by
    induction v with
    | nil => rfl
    | cons b v ih =>
      by_cases hb : b = 32
      · subst hb
        rw [List.dropWhile_cons_of_pos (by decide), List.dropWhile_cons_of_pos (by decide), ih]
      · rw [List.dropWhile_cons_of_neg (by simpa using hb)]
  rw [atoi, atoi, hspace]

/-- `atoi` gives an `int`, so its conversion to `uint32_t` is zero only for zero. -/
theorem toUInt32_atoi_eq_zero (v : Bytes) : toUInt32 (atoi v) = 0 ↔ atoi v = 0 := by
  have hrange : -2 ^ 31 ≤ atoi v ∧ atoi v ≤ 2 ^ 31 - 1 := by
    unfold atoi
    split
    · omega
    · split
      · omega
      · split <;> omega
  unfold toUInt32
  omega

/-! ## 3. When the spelling does not matter -/

/-- The names, with the colon apart. -/
theorem decoded_eq (headers : List Bytes) : decoded headers =
    (((lastField (ascii "Pragma" ++ ascii ":") headers).map fun v => toUInt32 (atoi v)).getD 0,
      ((lastField (ascii "Content-Length" ++ ascii ":") headers).map
        fun v => toUInt32 (atoi v)).getD 0,
      ((lastField (ascii "Origin" ++ ascii ":") headers).map id).getD [],
      ((lastField (ascii "Connection" ++ ascii ":") headers).map
        (· == ascii "keep-alive")).getD false) :=
  rfl

/-- A line the parser recognises, as HTTP reads it. -/
theorem fieldOf_of_field (name : Bytes) {line value : Bytes} (hcolon : (58 : UInt8) ∉ name)
    (hblank : (32 : UInt8) ∉ name) (h : field (name ++ ascii ":") line = some value) :
    fieldOf line = some (name.map lower, value.dropWhile (· == 32)) := by
  obtain rfl := (field_eq_some_iff (by simpa [ascii] using hblank)).mp h
  rw [List.append_assoc _ (ascii " "), fieldOf_colon hcolon]
  rfl

/-- Silent lines leave the defaults. -/
theorem decoded_of_silent {headers : List Bytes} (h : Silent headers) :
    decoded headers = (0, 0, [], false) := by
  have hnumber : ∀ name : Bytes, (58 : UInt8) ∉ name → (32 : UInt8) ∉ name →
      name.map lower = ascii "content-length" ∨ name.map lower = ascii "pragma" →
      ∀ line ∈ headers, ∀ v, field (name ++ ascii ":") line = some v → toUInt32 (atoi v) = 0 := by
    intro name hcolon hblank hname line hline v hv
    rw [toUInt32_atoi_eq_zero, ← atoi_dropWhile]
    exact (h line hline _ _ (fieldOf_of_field name hcolon hblank hv)).2.2 hname
  have horigin : ∀ line ∈ headers, ∀ v, field (ascii "Origin" ++ ascii ":") line = some v →
      id v = [] := by
    intro line hline v hv
    have hf := fieldOf_of_field (ascii "Origin") (by decide) (by decide) hv
    exact absurd rfl (h line hline _ _ hf).1
  have halive : ∀ line ∈ headers, ∀ v, field (ascii "Connection" ++ ascii ":") line = some v →
      (v == ascii "keep-alive") = false := by
    intro line hline v hv
    have hf := fieldOf_of_field (ascii "Connection") (by decide) (by decide) hv
    have hne := (h line hline _ _ hf).2.1 rfl
    rw [beq_eq_false_iff_ne]
    rintro rfl
    exact hne (by decide)
  rw [decoded_eq,
    lastField_default (hnumber (ascii "Pragma") (by decide) (by decide) (.inr rfl)),
    lastField_default (hnumber (ascii "Content-Length") (by decide) (by decide) (.inl rfl)),
    lastField_default horigin, lastField_default halive]

theorem decoded_tight (headers : List Bytes) :
    decoded (headers.map tight) = (0, 0, [], false) := by
  have hnone : ∀ name : Bytes, (58 : UInt8) ∉ name → (32 : UInt8) ∉ name →
      lastField (name ++ ascii ":") (headers.map tight) = none :=
    fun _ hcolon hblank => lastField_tight hcolon hblank headers
  rw [decoded_eq, hnone (ascii "Pragma") (by decide) (by decide),
    hnone (ascii "Content-Length") (by decide) (by decide),
    hnone (ascii "Origin") (by decide) (by decide),
    hnone (ascii "Connection") (by decide) (by decide)]
  rfl

/-- Another spelling of silent lines is silent. -/
theorem Silent.respelled {headers headers' : List Bytes} (hs : Silent headers)
    (h : List.Forall₂ Respelled headers headers') : Silent headers' := by
  intro line' hline' name value hf
  obtain ⟨line, hline, hspell⟩ : ∃ line ∈ headers, Respelled line line' := by
    clear hs
    induction h with
    | nil => exact absurd hline' (by simp)
    | cons hl _ ih =>
      rcases List.mem_cons.mp hline' with rfl | hmem
      · exact ⟨_, List.mem_cons_self, hl⟩
      · obtain ⟨line, hline, hspell⟩ := ih hmem
        exact ⟨line, List.mem_cons_of_mem _ hline, hspell⟩
  rcases hspell with rfl | ⟨f, hf₁, hf₂⟩
  · exact hs _ hline name value hf
  · rw [hf₂] at hf
    exact hs line hline name value (hf₁.trans hf)

theorem forall₂_tight (headers : List Bytes) :
    List.Forall₂ Respelled headers (headers.map tight) := by
  induction headers with
  | nil => exact .nil
  | cons line headers ih => exact .cons (respelled_tight line) ih

/-- The request with every gap closed. -/
theorem Message.exists_tight (m : Message) :
    ∃ m', m.Variant m' ∧ m'.headers = m.headers.map tight := by
  refine ⟨m.withHeaders (m.headers.map tight) ?_ ?_, ⟨rfl, forall₂_tight m.headers, rfl⟩, rfl⟩
  · intro l hl
    obtain ⟨line, hline, rfl⟩ := List.mem_map.mp hl
    exact tight_ne (m.headers_ne line hline)
  · intro l hl
    obtain ⟨line, hline, rfl⟩ := List.mem_map.mp hl
    exact tight_ok (m.headers_ok line hline)

/-- The request with every gap closed but that of one line, which is spelled for the parser. -/
theorem Message.exists_spelled (m : Message) {line name value : Bytes} (hline : line ∈ m.headers)
    (hcolon : (58 : UInt8) ∉ name) (hcr : (13 : UInt8) ∉ name)
    (hf : fieldOf line = some (name.map lower, value)) (k : ℕ) :
    ∃ (m' : Message) (before after : List Bytes), m.Variant m' ∧
      m'.headers = before.map tight ++ spelled name k value :: after.map tight := by
  obtain ⟨before, after, hsplit⟩ := List.append_of_mem hline
  obtain ⟨n, rest, hrest, -, hvalue⟩ := exists_colon hf
  obtain ⟨-, rfl⟩ := Prod.mk.inj hvalue
  have hmem : ∀ l ∈ before.map tight ++ spelled name k (rest.dropWhile (· == 32)) ::
      after.map tight, l = spelled name k (rest.dropWhile (· == 32)) ∨
        ∃ line ∈ m.headers, l = tight line := by
    intro l hl
    rw [hsplit]
    simp only [List.mem_append, List.mem_cons, List.mem_map] at hl ⊢
    rcases hl with ⟨x, hx, rfl⟩ | rfl | ⟨x, hx, rfl⟩
    · exact .inr ⟨x, .inl hx, rfl⟩
    · exact .inl rfl
    · exact .inr ⟨x, .inr (.inr hx), rfl⟩
  refine ⟨m.withHeaders (before.map tight ++ spelled name k (rest.dropWhile (· == 32)) ::
    after.map tight) ?_ ?_, before, after, ⟨rfl, ?_, rfl⟩, rfl⟩
  · intro l hl
    rcases hmem l hl with rfl | ⟨x, hx, rfl⟩
    · simp [spelled, ascii]
    · exact tight_ne (m.headers_ne x hx)
  · intro l hl
    rcases hmem l hl with rfl | ⟨x, hx, rfl⟩
    · refine spelled_ok (not_infix_of_notMem (by decide) hcr) (fun hin => ?_) k
      refine m.headers_ok line hline ?_
      rw [hrest, crlf_infix_colon]
      exact .inr (hin.trans (List.dropWhile_suffix _).isInfix)
    · exact tight_ok (m.headers_ok x hx)
  · change List.Forall₂ Respelled m.headers
      (before.map tight ++ spelled name k _ :: after.map tight)
    rw [hsplit]
    refine List.rel_append (forall₂_tight before) (.cons ?_ (forall₂_tight after))
    exact .inr ⟨_, hf, fieldOf_spelled hcolon k (List.dropWhile_idempotent _ _)⟩

/-- Two requests agree on the four fields when their header lines do. -/
theorem Message.same_fields_iff (m m' : Message) (stale stale' : Bytes) :
    (∃ req req', m.parse stale = .ok (true, req) ∧ m'.parse stale' = .ok (true, req') ∧
      req'.fields = req.fields) ↔ decoded m'.headers = decoded m.headers := by
  obtain ⟨req, hreq, hdec⟩ := m.parse_fields stale
  obtain ⟨req', hreq', hdec'⟩ := m'.parse_fields stale'
  rw [hreq, hreq', ← hdec, ← hdec']
  constructor
  · rintro ⟨r, r', hr, hr', hsame⟩
    obtain rfl : req = r := by simpa using hr
    obtain rfl : req' = r' := by simpa using hr'
    exact hsame
  · exact fun hsame => ⟨req, req', rfl, rfl, hsame⟩

/-- A request whose spelling does not matter is one that says nothing: with every gap closed the
defaults come out, so they do when any one of its lines is spelled for the parser. -/
theorem Message.silent_of_variants {m : Message}
    (hall : ∀ m', m.Variant m' → decoded m'.headers = decoded m.headers) : Silent m.headers := by
  intro line hline name value hf
  obtain ⟨m₀, hv₀, hm₀⟩ := m.exists_tight
  have hdefault := hall m₀ hv₀
  rw [hm₀, decoded_tight] at hdefault
  have hon : ∀ (N : Bytes) (k : ℕ), (58 : UInt8) ∉ N → (32 : UInt8) ∉ N → (13 : UInt8) ∉ N →
      name = N.map lower → ∃ headers, decoded headers = (0, 0, [], false) ∧
        lastField (N ++ ascii ":") headers = some (List.replicate k 32 ++ value) := by
    rintro N k hcolon hblank hcr rfl
    obtain ⟨m₁, before, after, hv₁, hm₁⟩ := m.exists_spelled hline hcolon hcr hf k
    refine ⟨m₁.headers, (hall m₁ hv₁).trans hdefault.symm, ?_⟩
    rw [hm₁]
    exact lastField_spelled hcolon hblank before after k value
  refine ⟨?_, ?_, ?_⟩
  · intro hname
    obtain ⟨headers, hdec, hlast⟩ := hon (ascii "Origin") 1 (by decide) (by decide) (by decide)
      hname
    have horigin := congrArg (fun x => x.2.2.1) hdec
    rw [decoded_eq, hlast] at horigin
    exact absurd horigin (by simp)
  · rintro hname rfl
    obtain ⟨headers, hdec, hlast⟩ := hon (ascii "Connection") 0 (by decide) (by decide)
      (by decide) hname
    have halive := congrArg (fun x => x.2.2.2) hdec
    rw [decoded_eq, hlast] at halive
    exact absurd halive (by simp)
  · rintro (hname | hname)
    · obtain ⟨headers, hdec, hlast⟩ := hon (ascii "Content-Length") 0 (by decide) (by decide)
        (by decide) hname
      have hsize := congrArg (fun x => x.2.1) hdec
      rw [decoded_eq, hlast] at hsize
      exact (toUInt32_atoi_eq_zero value).mp (by simpa using hsize)
    · obtain ⟨headers, hdec, hlast⟩ := hon (ascii "Pragma") 0 (by decide) (by decide)
        (by decide) hname
      have hpragma := congrArg (fun x => x.1) hdec
      rw [decoded_eq, hlast] at hpragma
      exact (toUInt32_atoi_eq_zero value).mp (by simpa using hpragma)

/-- **The fields do not depend on the spelling exactly when they say nothing.** -/
theorem spelling_iff (m : Message) (stale : Bytes) :
    (∀ (m' : Message) (stale' : Bytes), m.Variant m' → ∃ req req', m.parse stale = .ok (true, req) ∧
        m'.parse stale' = .ok (true, req') ∧ req'.fields = req.fields) ↔
      Silent m.headers := by
  simp only [Message.same_fields_iff]
  constructor
  · exact fun hall => Message.silent_of_variants fun m' => hall m' []
  · intro hs m' stale' hv
    rw [decoded_of_silent hs, decoded_of_silent (hs.respelled hv.headers)]

/-- A request for the wait socket with one header line. -/
def waitMessage (line : Bytes) (hne : line ≠ []) (hok : ¬ crlf <:+: line) : Message where
  first := ascii "POST /wait HTTP/1.1"
  headers := [line]
  body := []
  first_ne := by decide
  first_ok := by decide
  first_reads := by
    change ¬ (_ ∧ _)
    decide
  headers_ne := by simpa using hne
  headers_ok := by simpa using hok

/-- The page's own header line, in lower case, and without the blank: the id is lost. -/
theorem pragma_spellings :
    (waitMessage (ascii "Pragma: 5") (by decide) (by decide)).Variant
        (waitMessage (ascii "pragma: 5") (by decide) (by decide)) ∧
      (waitMessage (ascii "Pragma: 5") (by decide) (by decide)).Variant
        (waitMessage (ascii "Pragma:5") (by decide) (by decide)) ∧
      ((waitMessage (ascii "Pragma: 5") (by decide) (by decide)).parse []).map
        (fun x => x.2.pragma) = .ok 5 ∧
      ((waitMessage (ascii "pragma: 5") (by decide) (by decide)).parse []).map
        (fun x => x.2.pragma) = .ok 0 ∧
      ((waitMessage (ascii "Pragma:5") (by decide) (by decide)).parse []).map
        (fun x => x.2.pragma) = .ok 0 := by
  have hvariant : ∀ {line : Bytes} (hne : line ≠ []) (hok : ¬ crlf <:+: line),
      fieldOf line = fieldOf (ascii "Pragma: 5") →
      (waitMessage (ascii "Pragma: 5") (by decide) (by decide)).Variant
        (waitMessage line hne hok) := by
    intro line hne hok hf
    refine ⟨rfl, .cons (.inr ⟨(ascii "pragma", ascii "5"), ?_, ?_⟩) .nil, rfl⟩
    · decide
    · rw [hf]
      decide
  refine ⟨hvariant _ _ (by decide), hvariant _ _ (by decide), ?_, ?_, ?_⟩
  · decide +kernel
  · decide +kernel
  · decide +kernel

/-! ## 4. Peer ids in the `Pragma` line -/

theorem sprintf_id (id : UInt32) :
    sprintf (ascii "%u") [.int id.toNat] = some (decimal id.toNat) := by
  have hid : toUInt32 (id.toNat : ℤ) = id.toNat := by
    have := id.toNat_lt
    unfold toUInt32
    omega
  have h := sprintf_uint id.toNat [] []
  rw [hid] at h
  rw [show ascii "%u" = [37, 117] from rfl]
  simpa using h

/-- **A peer id comes back as itself exactly when it is a positive `int`.**  The line may stand
among any others, as long as no later one is a `Pragma` line too. -/
theorem pragma_iff (id : UInt32) (digits : Bytes)
    (hdigits : sprintf (ascii "%u") [.int id.toNat] = some digits) (m : Message)
    (before after : List Bytes)
    (hheaders : m.headers = before ++ (ascii "Pragma: " ++ digits) :: after)
    (hlast : ∀ line ∈ after, field (ascii "Pragma:") line = none) (stale : Bytes) :
    (∃ req, m.parse stale = .ok (true, req) ∧ req.pragma = id.toNat) ↔ id.toNat < 2 ^ 31 := by
  rw [sprintf_id] at hdigits
  obtain rfl := Option.some.inj hdigits
  have hline : field (ascii "Pragma:") (ascii "Pragma: " ++ decimal id.toNat)
      = some (decimal id.toNat) :=
    (field_eq_some_iff (by decide)).mpr rfl
  have hfield : lastField (ascii "Pragma:") m.headers = some (decimal id.toNat) := by
    rw [lastField, hheaders, List.filterMap_append, List.filterMap_cons, hline,
      List.filterMap_eq_nil_iff.mpr hlast]
    simp
  obtain ⟨req, hparse, hfields⟩ := m.parse_fields stale
  have hpragma : req.pragma = toUInt32 (min (id.toNat : ℤ) (2 ^ 31 - 1)) := by
    have := congrArg (fun x => x.1) hfields
    simpa [HttpReq.fields, decoded, hfield, atoi_decimal] using this
  have hlt := id.toNat_lt
  rw [hparse]
  constructor
  · rintro ⟨req', hreq', hid⟩
    obtain rfl : req = req' := by simpa using hreq'
    rw [hpragma, toUInt32] at hid
    omega
  · intro hsmall
    refine ⟨req, rfl, ?_⟩
    rw [hpragma, toUInt32]
    omega

/-- An id as the page sends it. -/
theorem pragma_seven :
    ∃ req, (waitMessage (ascii "Pragma: 7") (by decide) (by decide)).parse [] = .ok (true, req) ∧
      req.pragma = (7 : UInt32).toNat :=
  (pragma_iff 7 (ascii "7") (by decide) (waitMessage (ascii "Pragma: 7") (by decide) (by decide))
    [] [] rfl (by simp) []).mpr (by decide)

/-- The first id that is lost: `%u` prints 2147483648, and it comes back as 2147483647. -/
theorem pragma_saturates :
    sprintf (ascii "%u") [.int (2147483648 : UInt32).toNat] = some (ascii "2147483648") ∧
      ((waitMessage (ascii "Pragma: 2147483648") (by decide) (by decide)).parse []).map
        (fun x => x.2.pragma) = .ok 2147483647 := by
  refine ⟨?_, ?_⟩
  · decide +kernel
  · decide +kernel

end Reflector.Http
