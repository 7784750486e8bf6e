/-
# Where the header ends

`parseHttpMessage` reports a complete header when its scan, which moves by one byte or by two
and looks one byte ahead, meets an empty line.  This file says what that is in terms of the
received text alone: a CRLF at the very start, or a CRLF CRLF anywhere.  Runs of CR, a lone LF
or a CR as the last byte make no difference, since two copies of CRLF cannot overlap.

`BlankEnd text k` says that a blank line ends at position `k`, and `FirstBlank` that no earlier
one does.  Cutting off a first line shifts every blank line by the length of that line and its
CRLF (`blankEnd_cut`), which carries the induction over the lines of the text.

The main results:

* `header_complete`: the parser answers `true` exactly on a text with a blank line, the body
  starts behind the first one, and further bytes change nothing but the body;
* `data_isSome_iff`: the request has a body exactly when a byte arrived behind that line.
-/
import Reflector.Http.RoundTrip
import Mathlib.Order.Bounds.Basic

namespace Reflector.Http

open Base

/-! ## 1. Blank lines -/

/-- A blank line ends at `k`: the text up to there is a lone CRLF, or ends in two of them. -/
def BlankEnd (text : Bytes) (k : ℕ) : Prop :=
  k ≤ text.length ∧ (text.take k = crlf ∨ crlf ++ crlf <:+ text.take k)

instance (text : Bytes) (k : ℕ) : Decidable (BlankEnd text k) :=
  inferInstanceAs (Decidable (_ ∧ _))

/-- The first blank line ends at `k`. -/
def FirstBlank (text : Bytes) (k : ℕ) : Prop := IsLeast {k | BlankEnd text k} k

/-- Somewhere a blank line ends: the two ways a reader of the text would say it. -/
theorem exists_blankEnd_iff (text : Bytes) :
    (∃ k, BlankEnd text k) ↔ crlf <+: text ∨ crlf ++ crlf <:+: text := by
  constructor
  · rintro ⟨k, -, htake | ⟨p, hp⟩⟩
    · exact .inl (htake ▸ List.take_prefix k text)
    · refine .inr ⟨p, text.drop k, ?_⟩
      rw [hp, List.take_append_drop]
  · rintro (⟨s, rfl⟩ | ⟨p, s, rfl⟩)
    · exact ⟨crlf.length, by simp, .inl List.take_left⟩
    · refine ⟨(p ++ (crlf ++ crlf)).length, ?_, .inr ?_⟩
      · exact (List.prefix_append _ _).length_le
      · rw [List.take_left]
        exact List.suffix_append _ _

/-- A CRLF CRLF that does not start before the CRLF behind `line` starts right there, or behind
it: the byte in between is an LF, and no CRLF starts with that. -/
theorem blank_behind {line rest p s : Bytes} (hle : line.length ≤ p.length)
    (h : line ++ crlf ++ rest = p ++ (crlf ++ crlf) ++ s) :
    (p = line ∧ rest = crlf ++ s) ∨
      ∃ p', p = line ++ crlf ++ p' ∧ rest = p' ++ (crlf ++ crlf) ++ s := by
  rw [List.append_assoc, List.append_assoc] at h
  obtain ⟨q, rfl⟩ : line <+: p := by
    refine List.prefix_of_prefix_length_le ⟨crlf ++ rest, h⟩ ⟨crlf ++ crlf ++ s, rfl⟩ hle
  rw [List.append_assoc, List.append_cancel_left_eq] at h
  match q with
  | [] =>
    refine .inl ⟨List.append_nil _, ?_⟩
    simpa [crlf] using h
  | [x] => simp [crlf] at h
  | x :: y :: q =>
    obtain ⟨rfl, rfl, hrest⟩ : x = 13 ∧ y = 10 ∧ rest = q ++ (crlf ++ crlf ++ s) := by
      simp only [crlf, List.cons_append, List.nil_append, List.cons.injEq] at h
      exact ⟨h.1.symm, h.2.1.symm, by simpa [crlf] using h.2.2⟩
    exact .inr ⟨q, by simp [crlf], by rw [hrest]; simp⟩

/-- The text up to a position behind the first line. -/
theorem take_behind_line (line rest : Bytes) (j : ℕ) :
    (line ++ crlf ++ rest).take (line.length + 2 + j) = line ++ crlf ++ rest.take j := by
  have hlen : line.length + 2 = (line ++ crlf).length := by simp [crlf]
  rw [hlen, List.take_append, List.take_of_length_le (Nat.le_add_right _ _),
    Nat.add_sub_cancel_left]

/-- **A first line only shifts the blank lines behind it.** -/
theorem blankEnd_cut {text line rest : Bytes} (hcut : text.dropInfix? crlf = some (line, rest))
    (hline : line ≠ []) (k : ℕ) :
    BlankEnd text k ↔ ∃ j, k = line.length + 2 + j ∧ BlankEnd rest j := by
  obtain ⟨htext, hmin⟩ := dropInfix?_iff.mp hcut
  constructor
  · rintro ⟨hk, htake | ⟨p, hp⟩⟩
    · -- a lone CRLF at the start would have been the first cut
      have hle := hmin [] (text.drop k) (by rw [List.nil_append, ← htake, List.take_append_drop])
      exact absurd hle (by simpa using hline)
    · have hocc : text = p ++ (crlf ++ crlf) ++ text.drop k := by
        rw [hp, List.take_append_drop]
      have hklen : k = p.length + 4 := by
        have := congrArg List.length hp
        rw [List.length_take, Nat.min_eq_left hk] at this
        simpa [crlf] using this.symm
      have hle : line.length ≤ p.length := by
        refine hmin p (crlf ++ text.drop k) (hocc.trans ?_)
        simp only [List.append_assoc]
      rcases blank_behind hle (htext.symm.trans hocc) with ⟨rfl, hrest⟩ | ⟨p', rfl, hrest⟩
      · refine ⟨2, hklen, ?_, .inl ?_⟩
        · rw [hrest]
          simp [crlf]
        · rw [hrest]
          rfl
      · refine ⟨p'.length + 4, ?_, ?_, .inr ?_⟩
        · rw [hklen]
          simp [crlf]
          omega
        · rw [hrest]
          simp [crlf]
        · have hlen : p'.length + 4 = (p' ++ (crlf ++ crlf)).length := by simp [crlf]
          rw [hrest, hlen, List.take_left]
          exact List.suffix_append _ _
  · rintro ⟨j, rfl, hj, hblank⟩
    refine ⟨?_, .inr ?_⟩
    · rw [htext]
      simp [crlf]
      omega
    · rw [htext, take_behind_line]
      rcases hblank with htake | ⟨p, hp⟩
      · exact ⟨line, by rw [htake, List.append_assoc]⟩
      · exact ⟨line ++ crlf ++ p, by rw [← hp, List.append_assoc _ p]⟩

theorem firstBlank_cut {text line rest : Bytes} (hcut : text.dropInfix? crlf = some (line, rest))
    (hline : line ≠ []) {j : ℕ} (h : FirstBlank rest j) :
    FirstBlank text (line.length + 2 + j) := by
  refine ⟨(blankEnd_cut hcut hline _).mpr ⟨j, rfl, h.1⟩, fun k hk => ?_⟩
  obtain ⟨i, rfl, hi⟩ := (blankEnd_cut hcut hline k).mp hk
  have := h.2 hi
  omega

/-- An empty first line is the first blank line. -/
theorem firstBlank_crlf {text rest : Bytes} (hcut : text.dropInfix? crlf = some ([], rest)) :
    FirstBlank text 2 ∧ rest = text.drop 2 := by
  have htext : text = crlf ++ rest := (dropInfix?_iff.mp hcut).1
  subst htext
  refine ⟨⟨⟨by simp [crlf], .inl rfl⟩, fun k hk => ?_⟩, rfl⟩
  -- both kinds of blank line have at least two bytes
  rcases hk with ⟨-, htake | hsuf⟩
  · have := congrArg List.length htake
    simp [crlf] at this
    omega
  · have := hsuf.length_le
    simp [crlf] at this
    omega

/-! ## 2. What the parser finds -/

/-- **The body found is what is behind the first blank line**, and none is found when there is
no blank line. -/
theorem parseText_firstBlank (text : Bytes) : ∀ (lineNo : ℕ) (req req' : HttpReq)
    (body : Option Bytes), parseText text lineNo req = .ok (body, req') →
      (body = none ∧ ∀ k, ¬ BlankEnd text k) ∨
        ∃ k, FirstBlank text k ∧ body = some (text.drop k) := by
  induction text using pieces_induction crlf_ne_nil with
  | hlast text h =>
    intro lineNo req req' body hparse
    rw [parseText_none (dropInfix?_none_iff.mpr h)] at hparse
    refine .inl ⟨(Prod.mk.inj (Except.ok.inj hparse)).1.symm, fun k hk => ?_⟩
    -- a blank line holds a CRLF
    rcases (exists_blankEnd_iff text).mp ⟨k, hk⟩ with hpre | hin
    · exact h hpre.isInfix
    · exact h ((List.prefix_append crlf crlf).isInfix.trans hin)
  | hcut text line rest hcut ih =>
    intro lineNo req req' body hparse
    by_cases hline : line = []
    · subst hline
      rw [parseText_blank hcut] at hparse
      obtain ⟨hfirst, hrest⟩ := firstBlank_crlf hcut
      refine .inr ⟨2, hfirst, ?_⟩
      rw [← hrest]
      exact (Prod.mk.inj (Except.ok.inj hparse)).1.symm
    · rw [parseText_line hcut hline] at hparse
      obtain ⟨req₁, -, hparse⟩ := bind_eq_ok.mp hparse
      rcases ih _ _ _ _ hparse with ⟨hbody, hnone⟩ | ⟨j, hj, hbody⟩
      · refine .inl ⟨hbody, fun k hk => ?_⟩
        obtain ⟨j, -, hj⟩ := (blankEnd_cut hcut hline k).mp hk
        exact hnone j hj
      · refine .inr ⟨_, firstBlank_cut hcut hline hj, ?_⟩
        have hlen : line.length + 2 = (line ++ crlf).length := by simp [crlf]
        rw [hbody, (dropInfix?_iff.mp hcut).1, hlen, ← List.drop_drop, List.drop_left]

/-- The pointer to a body that starts at `k`. -/
def dataAt (len k : ℕ) : Option ℕ := if k = len then none else some k

theorem answer_drop {text : Bytes} {k : ℕ} (hk : k ≤ text.length) {req : HttpReq}
    (hreq : req.data = none) :
    answer text.length (some (text.drop k), req)
      = (true, { req with data := dataAt text.length k }) := by
  simp only [answer, dataAt, List.length_drop, Nat.sub_sub_self hk, hreq]
  by_cases hlt : k = text.length
  · rw [if_neg (by omega), if_pos hlt]
  · rw [if_pos (by omega), if_neg hlt]

/-- The request line raises only where its target does. -/
theorem requestOf_eq (line : Bytes) (req : HttpReq) :
    requestOf line req
      = ((tokens (ascii " ").contains line)[1]?.elim (.ok req.url) (urlOf · req.url)).map
          fun url => { req with
            type := (tokens (ascii " ").contains line)[0]?.getD req.type, url := url,
            version := (tokens (ascii " ").contains line)[2]?.getD req.version } := by
  simp only [requestOf]
  cases (tokens (ascii " ").contains line)[1]? with
  | none => rfl
  | some target =>
    simp only [Option.elim_some]
    cases urlOf target req.url <;> rfl

/-- No line touches the body pointer ... -/
theorem data_lineOf {lineNo : ℕ} {line : Bytes} {req req' : HttpReq}
    (h : lineOf lineNo line req = .ok req') : req'.data = req.data := by
  unfold lineOf at h
  split at h
  · rw [requestOf_eq] at h
    obtain ⟨url, -, rfl⟩ := map_eq_ok.mp h
    rfl
  · rw [headerLine_eq] at h
    obtain rfl := Except.ok.inj h
    rfl

/-- ... so it is still the null pointer when the blank line is met. -/
theorem data_parseText (text : Bytes) : ∀ {lineNo : ℕ} {req req' : HttpReq}
    {body : Option Bytes}, parseText text lineNo req = .ok (body, req') →
      req'.data = req.data := by
  induction text using pieces_induction crlf_ne_nil with
  | hlast text h =>
    intro lineNo req req' body hparse
    rw [parseText_none (dropInfix?_none_iff.mpr h)] at hparse
    rw [(Prod.mk.inj (Except.ok.inj hparse)).2]
  | hcut text line rest hcut ih =>
    intro lineNo req req' body hparse
    by_cases hline : line = []
    · subst hline
      rw [parseText_blank hcut] at hparse
      rw [(Prod.mk.inj (Except.ok.inj hparse)).2]
    · rw [parseText_line hcut hline] at hparse
      obtain ⟨req₁, hreq₁, hparse⟩ := bind_eq_ok.mp hparse
      exact (ih hparse).trans (data_lineOf hreq₁)

/-- What an answer of the parser says about the text: no blank line at all, or a first one with
the body behind it, and then the same of every longer text. -/
theorem parseHttpMessage_blank {text stale : Bytes} {req req' : HttpReq} {done : Bool}
    (h : parseHttpMessage (text ++ 0 :: stale) text.length req = .ok (done, req')) :
    (done = false ∧ req'.data = none ∧ ∀ k, ¬ BlankEnd text k) ∨
      ∃ k, done = true ∧ FirstBlank text k ∧ req'.data = dataAt text.length k ∧
        ∀ more stale' : Bytes,
          parseHttpMessage (text ++ more ++ 0 :: stale') (text ++ more).length req
            = .ok (true, { req' with data := dataAt (text ++ more).length k }) := by
  rw [parseHttpMessage_eq] at h
  cases hparse : parseText text 0 req.reset with
  | error e =>
    rw [hparse] at h
    exact absurd h (by simp [Except.map])
  | ok found =>
    obtain ⟨body, req₁⟩ := found
    have hdata : req₁.data = none := data_parseText text hparse
    rw [hparse] at h
    rcases parseText_firstBlank text _ _ _ _ hparse with ⟨rfl, hnone⟩ | ⟨k, hfirst, rfl⟩
    · obtain ⟨rfl, rfl⟩ := Prod.mk.inj (Except.ok.inj h)
      exact .inl ⟨rfl, hdata, hnone⟩
    · have hk : k ≤ text.length := hfirst.1.1
      have hans : answer text.length (some (text.drop k), req₁) = (done, req') := Except.ok.inj h
      rw [answer_drop hk hdata] at hans
      obtain ⟨rfl, rfl⟩ := Prod.mk.inj hans
      refine .inr ⟨k, rfl, hfirst, rfl, fun more stale' => ?_⟩
      have hmore := parseText_append text.length (Nat.le_refl _) hparse more
      rw [← List.drop_append_of_le_length hk] at hmore
      rw [parseHttpMessage_eq, hmore]
      refine congrArg Except.ok (answer_drop ?_ hdata)
      rw [List.length_append]
      omega

/-- **Header completion is recognised exactly, and more input does not change it.**  Where the
parser does not raise, it answers `true` if and only if the text starts with CRLF or holds CRLF
CRLF; the body then starts behind the first such blank line, and is a null pointer exactly when
nothing is there; and every longer text gives the same request with the same body offset. -/
theorem header_complete {text stale : Bytes} {req req' : HttpReq} {done : Bool}
    (h : parseHttpMessage (text ++ 0 :: stale) text.length req = .ok (done, req')) :
    (done = true ↔ crlf <+: text ∨ crlf ++ crlf <:+: text) ∧
      (done = true → ∃ k, IsLeast {k | BlankEnd text k} k ∧
        req'.data = (if k = text.length then none else some k) ∧
        ∀ more stale' : Bytes,
          parseHttpMessage (text ++ more ++ 0 :: stale') (text ++ more).length req
            = .ok (true, { req' with
                data := if k = (text ++ more).length then none else some k })) := by
  rcases parseHttpMessage_blank h with ⟨rfl, -, hnone⟩ | ⟨k, rfl, hfirst, hdata, hmore⟩
  · refine ⟨⟨fun hf => absurd hf (by simp), fun hb => ?_⟩, fun hf => absurd hf (by simp)⟩
    obtain ⟨k, hk⟩ := (exists_blankEnd_iff text).mpr hb
    exact absurd hk (hnone k)
  · refine ⟨⟨fun _ => (exists_blankEnd_iff text).mp ⟨k, hfirst.1⟩, fun _ => rfl⟩, fun _ => ?_⟩
    exact ⟨k, hfirst, hdata, hmore⟩

/-- A request line ended by a CR, a CRLF and a blank line, with stale bytes behind the NUL. -/
theorem header_complete_crs :
    parseHttpMessage (ascii "GET /wait\x0d\x0d\x0a\x0d\x0a" ++ 0 :: ascii "ab") 14 .fresh
      = .ok (true, { HttpReq.fresh with type := ascii "GET", url := ⟨ascii "wait\x0d", []⟩ }) ∧
    (true = true ↔ crlf <+: ascii "GET /wait\x0d\x0d\x0a\x0d\x0a" ∨
      crlf ++ crlf <:+: ascii "GET /wait\x0d\x0d\x0a\x0d\x0a") := by
  have hrun : parseHttpMessage (ascii "GET /wait\x0d\x0d\x0a\x0d\x0a" ++ 0 :: ascii "ab") 14 .fresh
      = .ok (true, { HttpReq.fresh with type := ascii "GET", url := ⟨ascii "wait\x0d", []⟩ }) := by
    decide
  exact ⟨hrun, (header_complete hrun).1⟩

/-- A body starts inside the text. -/
theorem data_le {text stale : Bytes} {req req' : HttpReq} {done : Bool} {off : ℕ}
    (h : parseHttpMessage (text ++ 0 :: stale) text.length req = .ok (done, req'))
    (hdata : req'.data = some off) : off ≤ text.length := by
  rcases parseHttpMessage_blank h with ⟨-, hnone, -⟩ | ⟨k, -, hfirst, hk, -⟩
  · rw [hnone] at hdata
    exact absurd hdata (by simp)
  · rw [hk, dataAt] at hdata
    split at hdata
    · exact absurd hdata (by simp)
    · obtain rfl := Option.some.inj hdata
      exact hfirst.1.1

/-- The request has a body exactly when a byte arrived behind the first blank line. -/
theorem data_isSome_iff {text stale : Bytes} {req req' : HttpReq}
    (h : parseHttpMessage (text ++ 0 :: stale) text.length req = .ok (true, req')) :
    req'.data ≠ none ↔ ¬ FirstBlank text text.length := by
  rcases parseHttpMessage_blank h with ⟨hf, -⟩ | ⟨k, -, hfirst, hdata, -⟩
  · exact absurd hf (by simp)
  · rw [hdata, dataAt]
    constructor
    · intro hne hlen
      rw [if_pos (hfirst.unique hlen)] at hne
      exact hne rfl
    · intro hne
      have hk : k ≠ text.length := by
        rintro rfl
        exact hne hfirst
      rw [if_neg hk]
      simp

end Reflector.Http
