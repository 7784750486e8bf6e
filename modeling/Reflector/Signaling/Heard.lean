/-
# What the server's messages tell the browser

`Rounds.lean` says when every message of the queue is JSON that the page has a branch for.  Here it
is what the messages MEAN: `waitOn` cuts them into texts, and `JSON.parse`, which is the grammar
(`Base/Grammar.lean`), makes of each text what WebRTC gave the observer, character by character.

`said` is what there is to say, a function of WebRTC's calls alone: a description for each answer,
and at each completed gathering all candidates so far.  `heard_of_run` is that the browser hears
just that, call by call, in every run that gives it something to hear: a candidate comes before the
first completed gathering, and no string holds a pattern that the page cuts at (`Utterable`).
-/
import Reflector.Signaling.Delivered

namespace Reflector.Signaling

open Base Base.Grammar Jsoncpp

/-! ## 1. The two texts -/

theorem descriptionText_eq (type sdp : Bytes) :
    Observer.descriptionText type sdp = writeString (descriptionJson type sdp) := by
  simp [Observer.descriptionText, writeObject, descriptionJson, writeString, writeValue,
    writeMembers, writeIndent, ascii, List.intercalate]

theorem serverText_eq (c : Candidate Bytes) : c.serverText = writeString (candidateJson c) := by
  simp [Candidate.serverText, Observer.candidateText, writeObject, candidateJson, writeString,
    writeValue, writeMembers, writeIndent, ascii, List.intercalate]

/-- `JSON.parse` gives this value. -/
def Parses (text : Bytes) (v : Value) : Prop :=
  ∃ d w t w', text = w ++ t ++ w' ∧ JsonSpace w ∧ Text utf8 d t v ∧ JsonSpace w'

theorem parses_writeString {d : ℕ} {j : Json} (h : Writable d j) :
    Parses (writeString j) (meaning j) := by
  obtain ⟨w, t, heq, hw, ht⟩ := writeString_means h
  exact ⟨d, w, t, [], by rw [heq, List.append_nil], hw, ht, jsonSpace_nil⟩

/-- A description, in characters. -/
def descriptionValue (type sdp : JsString) : Value :=
  .obj [(codepoints (ascii "sdp"), .str sdp), (codepoints (ascii "type"), .str type)]

/-- A candidate, in characters. -/
def candidateValue (c : Candidate JsString) : Value :=
  .obj [(codepoints (ascii "candidate"), .str c.candidate),
    (codepoints (ascii "sdpMLineIndex"), .num (Json.intText c.sdpMLineIndex)),
    (codepoints (ascii "sdpMid"), .str c.sdpMid)]

theorem parses_descriptionText {type sdp : Bytes} (htype : Spellable type)
    (hsdp : Spellable sdp) : Parses (Observer.descriptionText type sdp)
      (descriptionValue (codepoints type) (codepoints sdp)) := by
  rw [descriptionText_eq]
  refine parses_writeString (d := 1) (j := descriptionJson type sdp) ⟨?_, ?_⟩
  · change ∀ name ∈ [ascii "sdp", ascii "type"], Spellable name
    decide
  · rintro m hm
    simp only [List.mem_cons, List.not_mem_nil, or_false] at hm
    rcases hm with rfl | rfl
    · exact hsdp
    · exact htype

/-- The characters of a candidate. -/
def Candidate.chars (c : Candidate Bytes) : Candidate JsString :=
  ⟨codepoints c.sdpMid, c.sdpMLineIndex, codepoints c.candidate⟩

theorem parses_serverText {c : Candidate Bytes} (hmid : Spellable c.sdpMid)
    (hcandidate : Spellable c.candidate) :
    Parses c.serverText (candidateValue c.chars) := by
  rw [serverText_eq]
  refine parses_writeString (d := 1) (j := candidateJson c) ⟨?_, ?_⟩
  · change ∀ name ∈ [ascii "candidate", ascii "sdpMLineIndex", ascii "sdpMid"], Spellable name
    decide
  · rintro m hm
    simp only [List.mem_cons, List.not_mem_nil, or_false] at hm
    rcases hm with rfl | rfl | rfl
    · exact hcandidate
    · trivial
    · exact hmid

/-! ## 2. What is said and what is heard -/

inductive Heard
  | description (type sdp : JsString)
  | candidates (cs : List (Candidate JsString))

/-- What the page makes of a message. -/
def Hears (message : Bytes) : Heard → Prop
  | .description type sdp => ∃ text, waitOn message = some (.sdp, [text]) ∧
      Parses text (descriptionValue type sdp)
  | .candidates cs => ∃ texts, waitOn message = some (.ice, texts) ∧
      List.Forall₂ (fun text c => Parses text (candidateValue c)) texts cs

/-- The candidate that a callback reports; one that `ToString` fails on is not reported. -/
def Callback.candidate : Callback → Option (Candidate Bytes)
  | .onIceCandidate sdpMid sdpMLineIndex (some sdp) => some ⟨sdpMid, sdpMLineIndex, sdp⟩
  | _ => none

/-- What one call gives to say, behind these candidates. -/
def gives (before : List (Candidate Bytes)) : Callback → List Heard
  | .onSuccess type sdp => [.description (codepoints type) (codepoints sdp)]
  | .onIceGatheringChange .complete => [.candidates (before.map Candidate.chars)]
  | _ => []

/-- What the calls give to say, one after the other. -/
def said : List (Candidate Bytes) → List Callback → List Heard
  | _, [] => []
  | before, cb :: cbs => gives before cb ++ said (before ++ cb.candidate.toList) cbs

theorem said_concat (cb : Callback) : ∀ (cbs : List Callback) (before : List (Candidate Bytes)),
    said before (cbs ++ [cb])
      = said before cbs ++ gives (before ++ cbs.filterMap Callback.candidate) cb
  | [], before => by simp [said]
  | cb' :: cbs, before => by
    rw [List.cons_append, said, said_concat cb cbs, said, List.filterMap_cons]
    cases cb'.candidate <;> simp

theorem reports_eq (cb : Callback) : cb.reports = cb.candidate.map Candidate.serverText := by
  rcases cb with _ | _ | ⟨_, _, _ | _⟩ | _ | _ <;> rfl

/-- The texts of the batch are those of the candidates reported. -/
theorem reported_eq (tr : List (Callback × List Call)) :
    reported tr
      = ((tr.map Prod.fst).filterMap Callback.candidate).map Candidate.serverText := by
  rw [reported, List.filterMap_map, List.map_filterMap]
  exact List.filterMap_congr fun x _ => reports_eq x.1

/-! ## 3. One call -/

/-- Its strings are text, and hold nothing that the page cuts at. -/
def Callback.Utterable : Callback → Prop
  | .onSuccess type sdp => ∀ s ∈ [sdp, type], Spellable s ∧ ¬ arrowChars <:+: codepoints s
  | .onIceCandidate sdpMid _ (some sdp) => ∀ s ∈ [sdp, sdpMid], Spellable s ∧
      ¬ arrowChars <:+: codepoints s ∧ ¬ separatorChars <:+: codepoints s
  | _ => True

instance : (cb : Callback) → Decidable cb.Utterable
  | .onSuccess type sdp => inferInstanceAs (Decidable (∀ s ∈ [sdp, type], Spellable s ∧
      ¬ arrowChars <:+: codepoints s))
  | .onIceCandidate sdpMid _ (some sdp) => inferInstanceAs (Decidable (∀ s ∈ [sdp, sdpMid],
      Spellable s ∧ ¬ arrowChars <:+: codepoints s ∧ ¬ separatorChars <:+: codepoints s))
  | .onIceCandidate _ _ none | .onSignalingMessage _ _ | .onIceGatheringChange _
  | .onIceConnectionChange _ => .isTrue trivial

theorem Callback.Utterable.of_candidate {cb : Callback} (h : cb.Utterable) {c : Candidate Bytes}
    (hc : cb.candidate = some c) : ∀ s ∈ [c.candidate, c.sdpMid], Spellable s ∧
      ¬ arrowChars <:+: codepoints s ∧ ¬ separatorChars <:+: codepoints s := by
  unfold Callback.candidate at hc
  split at hc
  · obtain rfl := Option.some.inj hc
    exact h
  · exact absurd hc (by simp)

theorem hears_answer {type sdp : Bytes}
    (h : ∀ s ∈ [sdp, type], Spellable s ∧ ¬ arrowChars <:+: codepoints s) :
    Hears (ascii "SDP->" ++ Observer.descriptionText type sdp)
      (.description (codepoints type) (codepoints sdp)) := by
  obtain ⟨⟨hsdp, hsdp'⟩, htype, htype'⟩ : (Spellable sdp ∧ ¬ arrowChars <:+: codepoints sdp) ∧
      (Spellable type ∧ ¬ arrowChars <:+: codepoints type) := by simpa using h
  have harrow : ¬ arrow <:+: Observer.descriptionText type sdp := by
    rw [← arrowChars_bytes, infix_descriptionText arrow_pattern]
    simp [hsdp', htype']
  exact ⟨_, (waitOn_sdp_iff _).mpr harrow, parses_descriptionText htype hsdp⟩

theorem hears_candidates {cs : List (Candidate Bytes)} (hne : cs ≠ [])
    (h : ∀ c ∈ cs, ∀ s ∈ [c.candidate, c.sdpMid], Spellable s ∧
      ¬ arrowChars <:+: codepoints s ∧ ¬ separatorChars <:+: codepoints s) :
    Hears (iceText (cs.map Candidate.serverText)) (.candidates (cs.map Candidate.chars)) := by
  have htexts : cs.map Candidate.serverText ≠ [] := by simpa using hne
  have hlast : ∀ t ∈ cs.map Candidate.serverText, t.getLast? = some 125 := by
    intro t ht
    obtain ⟨c, -, rfl⟩ := List.mem_map.mp ht
    exact writeObject_getLast? _
  have hclean : ∀ t ∈ cs.map Candidate.serverText,
      ¬ arrow <:+: t ∧ ¬ Observer.separator <:+: t := by
    rw [List.forall_mem_map, ← arrowChars_bytes, ← separatorChars_bytes]
    intro c hc
    rw [infix_serverText arrow_pattern, infix_serverText separator_pattern]
    have := h c hc
    simp only [List.mem_cons, List.not_mem_nil, or_false, forall_eq_or_imp, forall_eq] at this
    tauto
  refine ⟨cs.map Candidate.serverText, ?_, ?_⟩
  · rw [iceText, if_neg htexts]
    exact (waitOn_ice_iff htexts hlast).mpr hclean
  · rw [List.forall₂_map_left_iff, List.forall₂_map_right_iff, List.forall₂_same]
    intro c hc
    have := h c hc
    exact parses_serverText (this c.sdpMid (by simp)).1 (this c.candidate (by simp)).1

/-- **What one call puts into the queue is heard as what it gives to say.** -/
theorem hears_call {env : Env} {o o' : Observer} {cb : Callback} {calls : List Call}
    {before : List (Candidate Bytes)}
    (hbatch : o.iceCandidateMsg = iceText (before.map Candidate.serverText))
    (hbefore : ∀ c ∈ before, ∀ s ∈ [c.candidate, c.sdpMid], Spellable s ∧
      ¬ arrowChars <:+: codepoints s ∧ ¬ separatorChars <:+: codepoints s)
    (hcb : cb.Utterable) (hfirst : cb.completes = true → before ≠ [])
    (h : o.call env cb = .ok (o', calls)) :
    List.Forall₂ Hears (calls.filterMap Call.given) (gives before cb) := by
  cases cb with
  | onSignalingMessage message created =>
    rw [given_of_silent (Observer.onSignalingMessage_silent h).2.2]
    exact .nil
  | onSuccess type sdp =>
    rw [(Observer.onSuccess_given h).2.2]
    exact .cons (hears_answer hcb) .nil
  | onIceCandidate | onIceConnectionChange =>
    obtain ⟨-, rfl⟩ := Prod.mk.inj (Except.ok.inj h)
    exact .nil
  | onIceGatheringChange state =>
    have h := Except.ok.inj h
    cases state with
    | complete =>
      obtain ⟨-, rfl⟩ := Prod.mk.inj h
      refine .cons ?_ .nil
      rw [hbatch]
      exact hears_candidates (hfirst rfl) hbefore
    | new | gathering =>
      obtain ⟨-, rfl⟩ := Prod.mk.inj h
      exact .nil

/-! ## 4. Runs -/

section

variable {env : Env} {tr : List (Callback × List Call)} {o : Observer}

/-- **The browser hears what is said**, message by message, in every run in which no gathering
completes before the first candidate and every string is utterable. -/
theorem heard_of_run (hrun : Run (Observer.step env) .new tr o) (hfirst : CandidateFirst tr)
    (hutter : ∀ x ∈ tr, x.1.Utterable) :
    List.Forall₂ Hears o.msgQueue (said [] (tr.map Prod.fst)) := by
  induction hrun with
  | refl => exact .nil
  | @tail tr o o' cb calls hrun hstep ih =>
    obtain ⟨hfirst, hcomplete⟩ := preceded_concat.mp hfirst
    obtain ⟨hutter, hcb⟩ := List.forall_mem_append.mp hutter
    have hcall := (Observer.step_eq_some hstep).2
    have hbatch := batch_of_run hrun
    rw [reported_eq] at hbatch
    rw [Observer.call_msgQueue hcall, List.map_append, List.map_singleton, said_concat]
    refine List.rel_append (ih hfirst hutter) ?_
    rw [List.nil_append]
    refine hears_call hbatch ?_ (hcb _ (List.mem_singleton_self _)) ?_ hcall
    · intro c hc
      obtain ⟨cb', hcb', hc⟩ := List.mem_filterMap.mp hc
      obtain ⟨x, hx, rfl⟩ := List.mem_map.mp hcb'
      exact (hutter x hx).of_candidate hc
    · intro hcompletes hnil
      obtain ⟨x, hx, hreports⟩ := hcomplete hcompletes
      have hne := (reported_ne_nil_iff tr).mpr ⟨x, hx, hreports⟩
      rw [reported_eq, hnil] at hne
      exact hne rfl

end

end Reflector.Signaling
