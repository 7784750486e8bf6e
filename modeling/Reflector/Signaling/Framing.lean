/-
# The framing of signaling messages, at both ends

A message is `SDP->` and one JSON text, or `ICE->` and one or more JSON texts with `######`
between them.  The arrow and the separator are IN BAND: a JSON writer leaves them alone inside
a string, so they can also occur in what is framed.

The two decoders treat that differently.  The server cuts at the first arrow and keeps the rest
(`onSignalingMessage`); the browser splits at EVERY arrow and keeps the second piece
(`waitOn`).  Both split at every separator.  `recovered_iff` says exactly what survives: from
the browser, every description, and candidates whose strings hold no `######`; from the
server, descriptions whose strings hold no `->`, and candidates whose strings hold neither.
-/
import Reflector.Signaling.Candidates

namespace Reflector.Signaling

open Base

/-! ## 1. The two encoders and the two decoders -/

inductive Kind
  | sdp | ice
  deriving DecidableEq, Repr

def arrow : Bytes := ascii "->"

/-- A candidate object; `σ` is the string type of the end that writes it. -/
structure Candidate (σ : Type) where
  sdpMid : σ
  sdpMLineIndex : ℤ
  candidate : σ
  deriving DecidableEq, Repr

/-- The JSON text the server makes of a candidate ... -/
def Candidate.serverText (c : Candidate Bytes) : Bytes :=
  Observer.candidateText c.sdpMid c.sdpMLineIndex c.candidate

/-- ... and the one the browser makes of it. -/
def Candidate.browserText (c : Candidate JsString) : Bytes :=
  jsObject [(ascii "candidate", jsQuote c.candidate), (ascii "sdpMid", jsQuote c.sdpMid),
    (ascii "sdpMLineIndex", Json.intText c.sdpMLineIndex)]

/-- `JSON.stringify` of a session description. -/
def browserDescription (type sdp : JsString) : Bytes :=
  jsObject [(ascii "type", jsQuote type), (ascii "sdp", jsQuote sdp)]

/-- The server's `OnIceCandidate`, once for each candidate. -/
def Observer.reportCandidates (o : Observer) (cs : List (Candidate Bytes)) : Observer :=
  cs.foldl (fun o c => o.onIceCandidate c.sdpMid c.sdpMLineIndex (some c.candidate)) o

/-- The browser's `onicecandidate`, once for each candidate; the message starts out null. -/
def onicecandidate (iceCandidateMsg : Option Bytes) (c : Candidate JsString) : Option Bytes :=
  match iceCandidateMsg with
  | some msg => some (msg ++ Observer.separator ++ c.browserText)
  | none => some (ascii "ICE->" ++ c.browserText)

/-- What `onicegatheringstatechange` then sends. -/
def browserMessage (cs : List (Candidate JsString)) : Bytes :=
  (cs.foldl onicecandidate none).getD []

/-- The browser's decoder: the kind, and the texts handed to `JSON.parse`. -/
def waitOn (responseText : Bytes) : Option (Kind × List Bytes) :=
  let t := pieces arrow responseText
  match t[0]?, t[1]? with
  | some cmd, some payload =>
    if cmd = ascii "SDP" then some (.sdp, [payload])
    else if cmd = ascii "ICE" then some (.ice, pieces Observer.separator payload)
    else none
  | _, _ => none

/-- What the server does with a kind and a list of texts: a description goes to the branch of
its command, a candidate to `addIceCandidate`. -/
def Observer.handle (env : Env) (o : Observer) (created : Created) :
    Kind → List Bytes → Except Raise (Observer × List Call)
  | .sdp, [text] => o.onCommand env (ascii "SDP") text created
  | .sdp, _ => .ok (o, [])
  | .ice, texts => (Observer.addEach (o.addIceCandidate env) texts).map fun calls => (o, calls)

/-! ## 2. Where the arrow and the separator can occur in a text -/

/-- The patterns, as characters. -/
def arrowChars : List ℕ := [0x2D, 0x3E]

def separatorChars : List ℕ := List.replicate 6 0x23

/-- The bytes of the two patterns. -/
def PatternByte (b : UInt8) : Prop := b = 0x2D ∨ b = 0x3E ∨ b = 0x23

theorem PatternByte.notMem_shortEscape {b : UInt8} (hb : PatternByte b) {cp : ℕ} {e : Bytes}
    (h : shortEscape cp = some e) : b ∉ e := by
  unfold shortEscape at h
  split at h <;> cases h <;> rcases hb with rfl | rfl | rfl <;> decide

theorem PatternByte.notMem_hex {b : UInt8} (hb : PatternByte b) (x : ℕ) :
    b ∉ ascii "\\u" ++ toHex16Bit x := by
  have hd : ∀ d < 16, b ≠ digitChar false d := by
    rcases hb with rfl | rfl | rfl <;> decide
  rw [List.mem_append, not_or]
  constructor
  · rcases hb with rfl | rfl | rfl <;> decide
  · intro hx
    simp only [toHex16Bit, List.map_cons, List.map_nil, List.mem_cons, List.not_mem_nil,
      or_false] at hx
    rcases hx with hx | hx | hx | hx <;> exact hd _ (Nat.mod_lt _ (by decide)) hx

/-- **A byte of a pattern is written by its own character alone**, at the server ... -/
theorem escapeChar_only {cp : ℕ} {b : UInt8} (hb : PatternByte b) (h : b ∈ escapeChar cp) :
    cp = b.toNat := by
  unfold escapeChar at h
  split at h
  · rename_i e he
    exact absurd h (hb.notMem_shortEscape he)
  · split at h
    · rename_i hplain
      have hcp : b = UInt8.ofNat cp := by simpa using h
      rw [hcp, UInt8.toNat_ofNat']
      omega
    · split at h
      · exact absurd h (hb.notMem_hex _)
      · dsimp only at h
        rw [List.append_assoc, List.mem_append] at h
        rcases h with h | h <;> exact absurd h (hb.notMem_hex _)

/-- ... and in the browser: the other bytes of UTF-8 are not ASCII. -/
theorem jsEscapeChar_only {cp : ℕ} {b : UInt8} (hb : PatternByte b) (h : b ∈ jsEscapeChar cp) :
    cp = b.toNat := by
  have hlt : b.toNat < 0x80 := by rcases hb with rfl | rfl | rfl <;> decide
  unfold jsEscapeChar at h
  split at h
  · rename_i e he
    exact absurd h (hb.notMem_shortEscape he)
  · split at h
    · exact absurd h (hb.notMem_hex _)
    · obtain ⟨n, hn, rfl⟩ := List.mem_map.mp h
      rw [UInt8.toNat_ofNat'] at hlt ⊢
      split at hn
      · obtain rfl : n = cp := by simpa using hn
        omega
      · split at hn
        · simp only [List.mem_cons, List.not_mem_nil, or_false] at hn
          omega
        · split at hn
          · simp only [List.mem_cons, List.not_mem_nil, or_false] at hn
            omega
          · simp only [List.mem_cons, List.not_mem_nil, or_false] at hn
            omega

theorem escapeChar_ne_nil (cp : ℕ) : escapeChar cp ≠ [] := by
  unfold escapeChar
  split
  · rename_i e he
    unfold shortEscape at he
    split at he <;> cases he <;> decide
  · split
    · simp
    · split <;> simp [ascii]

theorem jsEscapeChar_ne_nil (cp : ℕ) : jsEscapeChar cp ≠ [] := by
  unfold jsEscapeChar
  split
  · rename_i e he
    unfold shortEscape at he
    split at he <;> cases he <;> decide
  · split
    · simp [ascii]
    · unfold utf8
      split
      · simp
      · split
        · simp
        · split <;> simp

/-- What makes a word of characters a pattern of the framing. -/
structure Pattern (w : List ℕ) : Prop where
  ne_nil : w ≠ []
  chars : ∀ c ∈ w, c = 0x2D ∨ c = 0x3E ∨ c = 0x23
  rare : 0x3E ∈ w ∨ 0x23 ∈ w

theorem arrow_pattern : Pattern arrowChars where
  ne_nil := by decide
  chars := by decide
  rare := by decide

theorem separator_pattern : Pattern separatorChars where
  ne_nil := by decide
  chars := by decide
  rare := by decide

theorem arrowChars_bytes : arrowChars.map UInt8.ofNat = arrow := by decide

theorem separatorChars_bytes : separatorChars.map UInt8.ofNat = Observer.separator := by decide

namespace Pattern

variable {w : List ℕ} (hw : Pattern w)

include hw

/-- The patterns are written as they are, and by nothing else. -/
theorem copied : ∀ c ∈ w, escapeChar c = [UInt8.ofNat c] ∧ jsEscapeChar c = [UInt8.ofNat c] ∧
    PatternByte (UInt8.ofNat c) ∧ (UInt8.ofNat c).toNat = c := by
  intro c hc
  rcases hw.chars c hc with rfl | rfl | rfl
  · exact ⟨by decide, by decide, .inl rfl, by decide⟩
  · exact ⟨by decide, by decide, .inr (.inl rfl), by decide⟩
  · exact ⟨by decide, by decide, .inr (.inr rfl), by decide⟩

theorem bytes_ne_nil : w.map UInt8.ofNat ≠ [] := by
  simpa using hw.ne_nil

/-- No pattern holds a quote. -/
theorem quote_notMem : (34 : UInt8) ∉ w.map UInt8.ofNat := by
  intro h
  obtain ⟨c, hc, heq⟩ := List.mem_map.mp h
  rcases hw.chars c hc with rfl | rfl | rfl <;> exact absurd heq (by decide)

/-- A text without `>` and `#` holds no pattern. -/
theorem not_infix_of_plain {l : Bytes} (h₁ : (0x3E : UInt8) ∉ l) (h₂ : (0x23 : UInt8) ∉ l) :
    ¬ w.map UInt8.ofNat <:+: l := by
  rcases hw.rare with h | h
  · exact not_infix_of_notMem (List.mem_map_of_mem h) h₁
  · exact not_infix_of_notMem (List.mem_map_of_mem h) h₂

/-- **Quoting keeps the patterns of a string**, at the server ... -/
theorem infix_escape (s : List ℕ) :
    w.map UInt8.ofNat <:+: s.flatMap escapeChar ↔ w <:+: s := by
  refine infix_flatMap_iff (fun c hc => (hw.copied c hc).1) (fun c hc c' h => ?_)
    escapeChar_ne_nil hw.ne_nil s
  obtain ⟨-, -, hb, hn⟩ := hw.copied c hc
  rw [escapeChar_only hb h, hn]

/-- ... and in the browser. -/
theorem infix_jsEscape (s : JsString) :
    w.map UInt8.ofNat <:+: s.flatMap jsEscapeChar ↔ w <:+: s := by
  refine infix_flatMap_iff (fun c hc => (hw.copied c hc).2.1) (fun c hc c' h => ?_)
    jsEscapeChar_ne_nil hw.ne_nil s
  obtain ⟨-, -, hb, hn⟩ := hw.copied c hc
  rw [jsEscapeChar_only hb h, hn]

/-- A pattern occurs inside a quoted string or outside it. -/
theorem infix_quoted (x s y : Bytes) :
    w.map UInt8.ofNat <:+: x ++ (34 :: s ++ [34]) ++ y ↔
      w.map UInt8.ofNat <:+: x ∨ w.map UInt8.ofNat <:+: s ∨ w.map UInt8.ofNat <:+: y := by
  have hshape : x ++ (34 :: s ++ [34]) ++ y = x ++ 34 :: (s ++ 34 :: y) := by simp
  rw [hshape, infix_append_cons_iff hw.quote_notMem hw.bytes_ne_nil,
    infix_append_cons_iff hw.quote_notMem hw.bytes_ne_nil]

end Pattern

/-- The text of an integer holds neither `>` nor `#`. -/
theorem intText_plain (i : ℤ) :
    (0x3E : UInt8) ∉ Json.intText i ∧ (0x23 : UInt8) ∉ Json.intText i :=
  ⟨Json.notMem_intText rfl (by decide) i, Json.notMem_intText rfl (by decide) i⟩

/-! ### The texts -/

section Texts

variable {w : List ℕ} (hw : Pattern w)

include hw

theorem infix_descriptionText (type sdp : Bytes) :
    w.map UInt8.ofNat <:+: Observer.descriptionText type sdp
      ↔ w <:+: codepoints sdp ∨ w <:+: codepoints type := by
  have hshape : Observer.descriptionText type sdp
      = ascii "\x7b\n\t\"sdp\" : " ++ (34 :: (codepoints sdp).flatMap escapeChar ++ [34]) ++
        (ascii ",\n\t\"type\" : " ++ (34 :: (codepoints type).flatMap escapeChar ++ [34]) ++
          ascii "\n\x7d") := by
    have h₁ : valueToQuotedString (ascii "sdp") = ascii "\"sdp\"" := by decide
    have h₂ : valueToQuotedString (ascii "type") = ascii "\"type\"" := by decide
    simp only [Observer.descriptionText, writeObject, List.map_cons, List.map_nil,
      List.intercalate_cons_cons, List.intercalate_singleton, h₁, h₂]
    simp only [valueToQuotedString, List.append_assoc]
    rfl
  rw [hshape, hw.infix_quoted, hw.infix_quoted, hw.infix_escape, hw.infix_escape]
  have ha := hw.not_infix_of_plain (l := ascii "\x7b\n\t\"sdp\" : ") (by decide) (by decide)
  have hb := hw.not_infix_of_plain (l := ascii ",\n\t\"type\" : ") (by decide) (by decide)
  have hc := hw.not_infix_of_plain (l := ascii "\n\x7d") (by decide) (by decide)
  simp only [ha, hb, hc, false_or, or_false]

theorem infix_serverText (c : Candidate Bytes) :
    w.map UInt8.ofNat <:+: c.serverText
      ↔ w <:+: codepoints c.candidate ∨ w <:+: codepoints c.sdpMid := by
  have hshape : c.serverText
      = ascii "\x7b\n\t\"candidate\" : " ++
        (34 :: (codepoints c.candidate).flatMap escapeChar ++ [34]) ++
        (ascii ",\n\t\"sdpMLineIndex\" : " ++ Json.intText c.sdpMLineIndex ++
            ascii ",\n\t\"sdpMid\" : " ++
          (34 :: (codepoints c.sdpMid).flatMap escapeChar ++ [34]) ++ ascii "\n\x7d") := by
    have h₁ : valueToQuotedString (ascii "candidate") = ascii "\"candidate\"" := by decide
    have h₂ : valueToQuotedString (ascii "sdpMLineIndex") = ascii "\"sdpMLineIndex\"" := by decide
    have h₃ : valueToQuotedString (ascii "sdpMid") = ascii "\"sdpMid\"" := by decide
    simp only [Candidate.serverText, Observer.candidateText, writeObject, List.map_cons,
      List.map_nil, List.intercalate_cons_cons, List.intercalate_singleton, h₁, h₂, h₃]
    simp only [valueToQuotedString, List.append_assoc]
    rfl
  rw [hshape, hw.infix_quoted, hw.infix_quoted, hw.infix_escape, hw.infix_escape]
  have hi := intText_plain c.sdpMLineIndex
  have ha := hw.not_infix_of_plain (l := ascii "\x7b\n\t\"candidate\" : ") (by decide) (by decide)
  have hb := hw.not_infix_of_plain (l := ascii ",\n\t\"sdpMLineIndex\" : " ++
      Json.intText c.sdpMLineIndex ++ ascii ",\n\t\"sdpMid\" : ")
    (by simp only [List.mem_append, hi.1, or_false]; decide)
    (by simp only [List.mem_append, hi.2, or_false]; decide)
  have hc := hw.not_infix_of_plain (l := ascii "\n\x7d") (by decide) (by decide)
  simp only [ha, hb, hc, false_or, or_false]

theorem infix_browserText (c : Candidate JsString) :
    w.map UInt8.ofNat <:+: c.browserText ↔ w <:+: c.candidate ∨ w <:+: c.sdpMid := by
  have hshape : c.browserText
      = ascii "\x7b\"candidate\":" ++ (34 :: c.candidate.flatMap jsEscapeChar ++ [34]) ++
        (ascii ",\"sdpMid\":" ++ (34 :: c.sdpMid.flatMap jsEscapeChar ++ [34]) ++
          (ascii ",\"sdpMLineIndex\":" ++ Json.intText c.sdpMLineIndex ++ ascii "\x7d")) := by
    simp only [Candidate.browserText, jsObject, List.map_cons, List.map_nil,
      List.intercalate_cons_cons, List.intercalate_singleton, jsQuote, List.append_assoc]
    rfl
  rw [hshape, hw.infix_quoted, hw.infix_quoted, hw.infix_jsEscape, hw.infix_jsEscape]
  have hi := intText_plain c.sdpMLineIndex
  have ha := hw.not_infix_of_plain (l := ascii "\x7b\"candidate\":") (by decide) (by decide)
  have hb := hw.not_infix_of_plain (l := ascii ",\"sdpMid\":") (by decide) (by decide)
  have hc := hw.not_infix_of_plain
    (l := ascii ",\"sdpMLineIndex\":" ++ Json.intText c.sdpMLineIndex ++ ascii "\x7d")
    (by simp only [List.mem_append, hi.1, or_false]; decide)
    (by simp only [List.mem_append, hi.2, or_false]; decide)
  simp only [ha, hb, hc, false_or, or_false]

end Texts

/-! ## 3. Joining and splitting -/

/-- JSON objects end in a brace, so nothing runs into the separator behind them. -/
theorem writeObject_getLast? (members : List (Bytes × Bytes)) :
    (writeObject members).getLast? = some 125 := by
  rw [writeObject, List.getLast?_append]
  rfl

theorem jsObject_getLast? (members : List (Bytes × Bytes)) :
    (jsObject members).getLast? = some 125 := by
  rw [jsObject, List.getLast?_append]
  rfl

/-- The joined texts hold an arrow exactly when one of them does. -/
theorem arrow_infix_intercalate : ∀ texts : List Bytes,
    arrow <:+: Observer.separator.intercalate texts ↔ ∃ t ∈ texts, arrow <:+: t
  | [] => by simp [arrow, ascii]
  | [t] => by simp
  | t :: t' :: ts => by
    have hhash : ∀ a ∈ List.replicate 5 (35 : UInt8), a ∉ arrow := by
      intro a ha
      rw [List.eq_of_mem_replicate ha]
      decide
    have hshape : Observer.separator.intercalate (t :: t' :: ts)
        = t ++ 35 :: (List.replicate 5 35 ++ Observer.separator.intercalate (t' :: ts)) := by
      rw [List.intercalate_cons_cons, List.append_assoc]
      rfl
    rw [hshape, infix_append_cons_iff (by decide) (by decide),
      infix_append_of_disjoint (by decide) _ _ hhash, arrow_infix_intercalate (t' :: ts)]
    simp

/-- Splitting gives the joined texts back exactly when none of them holds the separator. -/
theorem pieces_separator_iff {texts : List Bytes} (hne : texts ≠ [])
    (hlast : ∀ t ∈ texts, t.getLast? = some 125) :
    pieces Observer.separator (Observer.separator.intercalate texts) = texts
      ↔ ∀ t ∈ texts, ¬ Observer.separator <:+: t := by
  constructor
  · intro h t ht
    rw [← h] at ht
    exact not_infix_of_mem_pieces Observer.separator_ne_nil _ t ht
  · intro h
    have hrep : Observer.separator = List.replicate 6 35 := by decide
    refine pieces_intercalate Observer.separator_ne_nil hne fun t ht => ?_
    rw [hrep]
    refine not_infix_dropLast_replicate (hrep ▸ h t ht) ?_
    rw [hlast t ht]
    decide

/-- The second piece at the arrows is the whole payload exactly when it holds no arrow. -/
theorem head_pieces_arrow (payload : Bytes) : ∃ q rest, pieces arrow payload = q :: rest ∧
    (q = payload ↔ ¬ arrow <:+: payload) := by
  by_cases h : arrow <:+: payload
  · cases hc : payload.dropInfix? arrow with
    | none => exact absurd h (dropInfix?_none_iff.mp hc)
    | some x =>
      obtain ⟨q, s⟩ := x
      refine ⟨q, pieces arrow s, pieces_of_dropInfix? (by decide) hc, ?_⟩
      refine iff_of_false (fun heq => ?_) (not_not_intro h)
      exact not_infix_of_dropInfix? (by decide) hc (heq ▸ h)
  · exact ⟨payload, [], pieces_of_notInfix h, iff_of_true rfl h⟩

/-- The first piece of a framed message is its command. -/
theorem pieces_framed {cmd : Bytes} (hcmd : (45 : UInt8) ∉ cmd) (payload : Bytes) :
    pieces arrow (cmd ++ arrow ++ payload) = cmd :: pieces arrow payload := by
  have hnot : ¬ [45, 62] <:+: cmd := fun hin => hcmd (hin.subset (by simp))
  exact pieces_of_dropInfix? (by decide)
    (dropInfix?_append_of_first (by decide) (not_infix_dropLast_pair (by decide) hnot))

/-- **`waitOn` on a description**: it comes back exactly when it holds no arrow. -/
theorem waitOn_sdp_iff (text : Bytes) :
    waitOn (ascii "SDP->" ++ text) = some (.sdp, [text]) ↔ ¬ arrow <:+: text := by
  obtain ⟨q, rest, hq, hiff⟩ := head_pieces_arrow text
  have hp : pieces arrow (ascii "SDP->" ++ text) = ascii "SDP" :: q :: rest :=
    (pieces_framed (show (45 : UInt8) ∉ ascii "SDP" by decide) text).trans (by rw [hq])
  rw [← hiff]
  simp [waitOn, hp]

/-- **`waitOn` on candidates**: they come back exactly when none holds an arrow or a
separator. -/
theorem waitOn_ice_iff {texts : List Bytes} (hne : texts ≠ [])
    (hlast : ∀ t ∈ texts, t.getLast? = some 125) :
    waitOn (ascii "ICE->" ++ Observer.separator.intercalate texts) = some (.ice, texts)
      ↔ ∀ t ∈ texts, ¬ arrow <:+: t ∧ ¬ Observer.separator <:+: t := by
  obtain ⟨q, rest, hq, hiff⟩ := head_pieces_arrow (Observer.separator.intercalate texts)
  have hp : pieces arrow (ascii "ICE->" ++ Observer.separator.intercalate texts)
      = ascii "ICE" :: q :: rest :=
    (pieces_framed (show (45 : UInt8) ∉ ascii "ICE" by decide) _).trans (by rw [hq])
  have hw : waitOn (ascii "ICE->" ++ Observer.separator.intercalate texts)
      = some (.ice, pieces Observer.separator q) := by
    have hcmd : ascii "ICE" ≠ ascii "SDP" := by decide
    simp [waitOn, hp, hcmd]
  rw [hw, Option.some.injEq, Prod.mk.injEq]
  constructor
  · rintro ⟨-, h⟩
    -- what was split joins to what was framed, so nothing was cut off behind an arrow
    have hpay : q = Observer.separator.intercalate texts := by
      rw [← h, intercalate_pieces Observer.separator_ne_nil]
    have harrow := mt (arrow_infix_intercalate texts).mpr (hiff.mp hpay)
    have hsep := (pieces_separator_iff hne hlast).mp (hpay ▸ h)
    exact fun t ht => ⟨fun hin => harrow ⟨t, ht, hin⟩, hsep t ht⟩
  · intro h
    have hpay : q = Observer.separator.intercalate texts := by
      refine hiff.mpr fun hin => ?_
      obtain ⟨t, ht, hin⟩ := (arrow_infix_intercalate texts).mp hin
      exact (h t ht).1 hin
    rw [hpay]
    exact ⟨rfl, (pieces_separator_iff hne hlast).mpr fun t ht => (h t ht).2⟩

/-! ## 4. What is framed -/

/-- The observer's candidate message, once it has begun. -/
theorem reportCandidates_of_ne_nil : ∀ (cs : List (Candidate Bytes)) {o : Observer},
    o.iceCandidateMsg ≠ [] → o.reportCandidates cs = { o with
      iceCandidateMsg :=
        o.iceCandidateMsg ++
            (cs.map Candidate.serverText).flatMap (fun t => Observer.separator ++ t) }
  | [], o, _ => by simp [Observer.reportCandidates]
  | c :: cs, o, h => by
    have hstep : o.onIceCandidate c.sdpMid c.sdpMLineIndex (some c.candidate) = { o with
        iceCandidateMsg := o.iceCandidateMsg ++ Observer.separator ++ c.serverText } := by
      simp only [Observer.onIceCandidate, if_neg h]
      rfl
    have hrec := reportCandidates_of_ne_nil cs
      (o := o.onIceCandidate c.sdpMid c.sdpMLineIndex (some c.candidate))
      (by rw [hstep]; simp [Observer.separator_ne_nil])
    rw [Observer.reportCandidates, List.foldl_cons]
    refine hrec.trans ?_
    rw [hstep]
    simp

/-- **What the server frames**: its candidates' texts, in order, behind `ICE->`. -/
theorem reportCandidates_eq (c : Candidate Bytes) (cs : List (Candidate Bytes)) {o : Observer}
    (h : o.iceCandidateMsg = []) : o.reportCandidates (c :: cs) = { o with
      iceCandidateMsg := ascii "ICE->" ++
        Observer.separator.intercalate ((c :: cs).map Candidate.serverText) } := by
  have hstep : o.onIceCandidate c.sdpMid c.sdpMLineIndex (some c.candidate) = { o with
      iceCandidateMsg := ascii "ICE->" ++ c.serverText } := by
    simp only [Observer.onIceCandidate, if_pos h]
    rfl
  have hrec := reportCandidates_of_ne_nil cs
    (o := o.onIceCandidate c.sdpMid c.sdpMLineIndex (some c.candidate))
    (by rw [hstep]; simp [ascii])
  rw [Observer.reportCandidates, List.foldl_cons, List.map_cons, intercalate_cons_eq]
  refine hrec.trans ?_
  rw [hstep]
  simp

/-- **What the browser frames**: the same, with its own texts. -/
theorem browserMessage_eq (c : Candidate JsString) (cs : List (Candidate JsString)) :
    browserMessage (c :: cs)
      = ascii "ICE->" ++ Observer.separator.intercalate ((c :: cs).map Candidate.browserText) := by
  have hfold : ∀ (cs : List (Candidate JsString)) (m : Bytes),
      cs.foldl onicecandidate (some m)
        = some (m ++ (cs.map Candidate.browserText).flatMap fun t => Observer.separator ++ t) := by
    intro cs
    induction cs with
    | nil => simp
    | cons c cs ih =>
      intro m
      rw [List.foldl_cons, onicecandidate, ih]
      simp
  rw [browserMessage, List.foldl_cons, onicecandidate, hfold, List.map_cons, intercalate_cons_eq]
  simp

/-! ## 5. What comes back -/

/-- Something one end says to the other.  A browser's message is received into a string of the
32-bit target, so it fits one. -/
inductive Signal
  | serverAnswer (type sdp : Bytes)
  | serverCandidates (c : Candidate Bytes) (cs : List (Candidate Bytes))
  | browserOffer (type sdp : JsString)
  | browserCandidates (c : Candidate JsString) (cs : List (Candidate JsString))
      (fits : (browserMessage (c :: cs)).length < 2 ^ 31)

/-- **The receiver's decoder recovers what the sender's encoder framed**: the browser gets the
kind and the texts back, and the server does what it does with that kind and those texts. -/
def Signal.Recovered : Signal → Prop
  | .serverAnswer type sdp => ∀ (env : Env) (o o' : Observer) (calls : List Call),
      o.onSuccess env type sdp = .ok (o', calls) →
      ∃ m, o'.msgQueue = o.msgQueue ++ [m] ∧
        waitOn m = some (.sdp, [Observer.descriptionText type sdp])
  | .serverCandidates c cs => ∀ o : Observer, o.iceCandidateMsg = [] →
      ∃ m, ((o.reportCandidates (c :: cs)).onIceGatheringChange .complete).1.msgQueue
          = o.msgQueue ++ [m] ∧
        waitOn m = some (.ice, (c :: cs).map Candidate.serverText)
  | .browserOffer type sdp => ∀ (env : Env) (o : Observer) (created : Created),
      o.onSignalingMessage env (ascii "SDP->" ++ browserDescription type sdp) created
        = o.handle env created .sdp [browserDescription type sdp]
  | .browserCandidates c cs _ => ∀ (env : Env) (o : Observer) (created : Created),
      o.peerConnection.isSome →
      o.onSignalingMessage env (browserMessage (c :: cs)) created
        = o.handle env created .ice ((c :: cs).map Candidate.browserText)

/-- No string of the signal holds a pattern that its receiver would cut at. -/
def Signal.Clean : Signal → Prop
  | .serverAnswer type sdp => ∀ s ∈ [sdp, type], ¬ arrowChars <:+: codepoints s
  | .serverCandidates c cs => ∀ d ∈ c :: cs, ∀ s ∈ [d.candidate, d.sdpMid],
      ¬ arrowChars <:+: codepoints s ∧ ¬ separatorChars <:+: codepoints s
  | .browserOffer _ _ => True
  | .browserCandidates c cs _ => ∀ d ∈ c :: cs, ∀ s ∈ [d.candidate, d.sdpMid],
      ¬ separatorChars <:+: s

/-- An observer with a peer connection. -/
def connected : Observer := { Observer.new with peerConnection := some 0 }

theorem recovered_serverAnswer_iff (type sdp : Bytes) :
    (Signal.serverAnswer type sdp).Recovered ↔ (Signal.serverAnswer type sdp).Clean := by
  have hclean : ¬ arrow <:+: Observer.descriptionText type sdp
      ↔ (Signal.serverAnswer type sdp).Clean := by
    rw [← arrowChars_bytes, infix_descriptionText arrow_pattern]
    simp [Signal.Clean]
  rw [← hclean, ← waitOn_sdp_iff]
  constructor
  · intro h
    obtain ⟨m, hm, hw⟩ := h deafEnv connected _ _ rfl
    obtain ⟨rfl, -⟩ := List.cons.inj (List.append_inj' hm rfl).2
    exact hw
  · intro h env o o' calls hs
    refine ⟨_, ?_, h⟩
    unfold Observer.onSuccess at hs
    split at hs
    · exact absurd hs (by simp)
    · obtain ⟨cs, -, heq⟩ := bind_eq_ok.mp hs
      obtain ⟨rfl, -⟩ := Prod.mk.inj (Except.ok.inj heq)
      rfl

theorem recovered_serverCandidates_iff (c : Candidate Bytes) (cs : List (Candidate Bytes)) :
    (Signal.serverCandidates c cs).Recovered ↔ (Signal.serverCandidates c cs).Clean := by
  have hlast : ∀ t ∈ (c :: cs).map Candidate.serverText, t.getLast? = some 125 := by
    intro t ht
    obtain ⟨d, -, rfl⟩ := List.mem_map.mp ht
    exact writeObject_getLast? _
  have hclean : (∀ t ∈ (c :: cs).map Candidate.serverText,
      ¬ arrow <:+: t ∧ ¬ Observer.separator <:+: t) ↔ (Signal.serverCandidates c cs).Clean := by
    rw [List.forall_mem_map, ← arrowChars_bytes, ← separatorChars_bytes]
    refine forall₂_congr fun d _ => ?_
    rw [infix_serverText arrow_pattern, infix_serverText separator_pattern]
    simp only [List.mem_cons, List.not_mem_nil, or_false, forall_eq_or_imp, forall_eq]
    tauto
  rw [← hclean, ← waitOn_ice_iff (by simp) hlast]
  constructor
  · intro h
    obtain ⟨m, hm, hw⟩ := h .new rfl
    rw [reportCandidates_eq c cs rfl] at hm
    obtain ⟨rfl, -⟩ := List.cons.inj (List.append_inj' hm rfl).2
    exact hw
  · intro h o ho
    refine ⟨_, ?_, h⟩
    rw [reportCandidates_eq c cs ho]
    rfl

theorem recovered_browserOffer (type sdp : JsString) :
    (Signal.browserOffer type sdp).Recovered := by
  intro env o created
  exact Observer.onSignalingMessage_framed env o (browserDescription type sdp) created
    (show (45 : UInt8) ∉ ascii "SDP" by decide) (by decide)

/-- What the server does with candidate texts, once it has a peer connection. -/
theorem onSignalingMessage_ice {env : Env} {o : Observer} {created : Created} {payload : Bytes}
    (hpc : o.peerConnection.isSome) (hsize : payload.length < 2 ^ 31) :
    o.onSignalingMessage env (ascii "ICE->" ++ payload) created
      = o.handle env created .ice (pieces Observer.separator payload) := by
  obtain ⟨pc, hpc⟩ := Option.isSome_iff_exists.mp hpc
  have hcut := Observer.onSignalingMessage_framed env o payload created
    (show (45 : UInt8) ∉ ascii "ICE" by decide) (by decide)
  refine hcut.trans ?_
  rw [Observer.onCommand, if_neg (by decide), if_pos rfl, hpc]
  simp only [Observer.addCandidates_eq env o hsize, Observer.handle]
  cases Observer.addEach (o.addIceCandidate env) (pieces Observer.separator payload) <;> rfl

/-- The calls of a deaf server are the texts themselves. -/
theorem addEach_deaf : ∀ texts : List Bytes,
    Observer.addEach (connected.addIceCandidate deafEnv) texts
      = .ok (texts.map Call.addIceCandidate) := by
  intro ts
  induction ts with
  | nil =>
    rfl
  | cons t ts ih =>
    rw [Observer.addEach, ih]
    rfl

theorem recovered_browserCandidates_iff (c : Candidate JsString) (cs : List (Candidate JsString))
    (fits : (browserMessage (c :: cs)).length < 2 ^ 31) :
    (Signal.browserCandidates c cs fits).Recovered ↔
      (Signal.browserCandidates c cs fits).Clean := by
  have hlast : ∀ t ∈ (c :: cs).map Candidate.browserText, t.getLast? = some 125 := by
    intro t ht
    obtain ⟨d, -, rfl⟩ := List.mem_map.mp ht
    exact jsObject_getLast? _
  have hclean : (∀ t ∈ (c :: cs).map Candidate.browserText, ¬ Observer.separator <:+: t)
      ↔ (Signal.browserCandidates c cs fits).Clean := by
    rw [List.forall_mem_map, ← separatorChars_bytes]
    refine forall₂_congr fun d _ => ?_
    rw [infix_browserText separator_pattern]
    simp
  have hsize : (Observer.separator.intercalate ((c :: cs).map Candidate.browserText)).length
      < 2 ^ 31 := by
    rw [browserMessage_eq, List.length_append] at fits
    omega
  rw [← hclean, ← pieces_separator_iff (by simp) hlast]
  constructor
  · intro h
    have hdeaf := h deafEnv connected ⟨none, none⟩ rfl
    rw [browserMessage_eq, onSignalingMessage_ice rfl hsize, Observer.handle, Observer.handle,
      addEach_deaf, addEach_deaf] at hdeaf
    have hmap := (Prod.mk.inj (Except.ok.inj hdeaf)).2
    exact List.map_injective_iff.mpr (fun _ _ => Call.addIceCandidate.inj) hmap
  · intro h env o created hpc
    rw [browserMessage_eq, onSignalingMessage_ice hpc hsize, h]

/-- **A signal is recovered exactly when it is clean**, in both directions. -/
theorem recovered_iff (signal : Signal) : signal.Recovered ↔ signal.Clean := by
  cases signal with
  | serverAnswer type sdp => exact recovered_serverAnswer_iff type sdp
  | serverCandidates c cs => exact recovered_serverCandidates_iff c cs
  | browserOffer type sdp => exact iff_of_true (recovered_browserOffer type sdp) trivial
  | browserCandidates c cs fits => exact recovered_browserCandidates_iff c cs fits

/-- An answer with an arrow in it reaches the browser cut short, and a candidate with the
separator in it reaches the server in two pieces. -/
theorem not_recovered_sample :
    ¬ (Signal.serverAnswer (ascii "answer") (ascii "v=0\r\ns=a->b\r\n")).Recovered ∧
      ¬ (Signal.browserCandidates ⟨[0x30], 0, separatorChars⟩ []
          (by decide +kernel)).Recovered := by
  rw [recovered_serverAnswer_iff, recovered_browserCandidates_iff]
  constructor
  · intro h
    refine h (ascii "v=0\r\ns=a->b\r\n") (by simp) ?_
    exact ⟨codepoints (ascii "v=0\r\ns=a"), codepoints (ascii "b\r\n"), by decide⟩
  · intro h
    exact h _ List.mem_cons_self separatorChars (by simp) (List.infix_refl _)

end Reflector.Signaling
