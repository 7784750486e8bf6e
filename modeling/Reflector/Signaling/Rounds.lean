/-
# Gathering rounds

`OnIceCandidate` collects the texts of the local candidates in one field, `m_iceCandidateMsg`,
and every `kIceGatheringComplete` sends what the field holds.  The field lives as long as the
observer and nothing ever clears it, so what is sent is the batch of ALL candidates reported so
far (`batch_of_run`), in whatever round and for whatever peer connection they were reported.

Two results follow, each with the exact condition on the run:

* a message is one the browser understands, unless gathering completes before any candidate:
  then the empty text is sent (`understood_iff`);
* a message lists the candidates of its own round, of the current peer connection, unless one
  was reported before an earlier completion or an earlier peer connection (`sent_once_iff`).
-/
import Reflector.Base.JsonText
import Reflector.Signaling.Candidates
import Reflector.Signaling.Outgoing
import Mathlib.Data.List.Sublists

namespace Reflector.Signaling

open Base

/-! ## 1. The batch -/

/-- The candidate text that a callback adds to the batch; one that `ToString` fails on adds
nothing. -/
def Callback.reports : Callback → Option Bytes
  | .onIceCandidate sdpMid sdpMLineIndex (some sdp) =>
    some (Observer.candidateText sdpMid sdpMLineIndex sdp)
  | _ => none

/-- `kIceGatheringComplete`. -/
def Callback.completes : Callback → Bool
  | .onIceGatheringChange .complete => true
  | _ => false

theorem Callback.eq_of_completes {cb : Callback} (h : cb.completes = true) :
    cb = .onIceGatheringChange .complete := by
  unfold Callback.completes at h
  split at h
  · rfl
  · exact absurd h (by simp)

/-- The candidates reported in a run, in order. -/
def reported (tr : List (Callback × List Call)) : List Bytes :=
  tr.filterMap fun x => x.1.reports

/-- A batch: nothing, or `ICE->` and the texts with the separator between them. -/
def iceText (texts : List Bytes) : Bytes :=
  if texts = [] then [] else ascii "ICE->" ++ Observer.separator.intercalate texts

theorem reported_concat (tr : List (Callback × List Call)) (cb : Callback) (calls : List Call) :
    reported (tr ++ [(cb, calls)]) = reported tr ++ cb.reports.toList := by
  cases h : cb.reports <;> simp [reported, h]

/-- `OnIceCandidate` adds its text to the batch. -/
theorem onIceCandidate_batch {o : Observer} {texts : List Bytes}
    (h : o.iceCandidateMsg = iceText texts) (sdpMid : Bytes) (sdpMLineIndex : ℤ)
    (sdp : Option Bytes) :
    (o.onIceCandidate sdpMid sdpMLineIndex sdp).iceCandidateMsg
      = iceText (texts ++ (Callback.onIceCandidate sdpMid sdpMLineIndex sdp).reports.toList) := by
  cases sdp with
  | none => simpa [Observer.onIceCandidate, Callback.reports] using h
  | some sdp =>
    simp only [Observer.onIceCandidate, Callback.reports, Option.toList_some]
    by_cases hnil : texts = []
    · have hempty : o.iceCandidateMsg = [] := by rw [h, iceText, if_pos hnil]
      rw [if_pos hempty, hnil]
      simp [iceText]
    · have hfull : o.iceCandidateMsg ≠ [] := by
        rw [h, iceText, if_neg hnil]
        simp [ascii]
      rw [if_neg hfull, iceText, if_neg (by simp), intercalate_concat _ _ hnil]
      simp only [h, iceText, if_neg hnil, List.append_assoc]

/-- **One call keeps the batch what it is**: the text of everything reported so far. -/
theorem call_batch {env : Env} {o o' : Observer} {cb : Callback} {calls : List Call}
    {texts : List Bytes} (hbatch : o.iceCandidateMsg = iceText texts)
    (h : o.call env cb = .ok (o', calls)) :
    o'.iceCandidateMsg = iceText (texts ++ cb.reports.toList) := by
  cases cb with
  | onSignalingMessage message created =>
    rw [(Observer.onSignalingMessage_silent h).2.1, hbatch]
    simp [Callback.reports]
  | onSuccess type sdp =>
    rw [(Observer.onSuccess_given h).2.1, hbatch]
    simp [Callback.reports]
  | onIceCandidate sdpMid sdpMLineIndex sdp =>
    obtain ⟨rfl, -⟩ := Prod.mk.inj (Except.ok.inj h)
    exact onIceCandidate_batch hbatch sdpMid sdpMLineIndex sdp
  | onIceGatheringChange state =>
    have h := Except.ok.inj h
    unfold Observer.onIceGatheringChange at h
    split at h
    · obtain ⟨rfl, -⟩ := Prod.mk.inj h
      simpa [Callback.reports, Observer.sendSignalingMessage] using hbatch
    · obtain ⟨rfl, -⟩ := Prod.mk.inj h
      simpa [Callback.reports] using hbatch
  | onIceConnectionChange state =>
    obtain ⟨rfl, -⟩ := Prod.mk.inj (Except.ok.inj h)
    simpa [Callback.reports, Observer.onIceConnectionChange] using hbatch

section Run

variable {env : Env} {tr : List (Callback × List Call)} {o : Observer}

/-- **The batch holds every candidate ever reported**, in every state of every run. -/
theorem batch_of_run (hrun : Run (Observer.step env) .new tr o) :
    o.iceCandidateMsg = iceText (reported tr) := by
  induction hrun with
  | refl => rfl
  | tail _ hstep ih =>
    rw [reported_concat]
    exact call_batch ih (Observer.step_eq_some hstep).2

/-- The queue is everything given to `sendSignalingMessage`, since nothing takes from it here. -/
theorem msgQueue_of_run (hrun : Run (Observer.step env) .new tr o) :
    o.msgQueue = (events tr).filterMap Call.given := by
  induction hrun with
  | refl => rfl
  | tail _ hstep ih =>
    rw [events_append, events_singleton, List.filterMap_append, ← ih]
    exact Observer.call_msgQueue (Observer.step_eq_some hstep).2

/-- What a completed gathering says, at any position of a run. -/
theorem complete_at {tr₁ tr₂ : List (Callback × List Call)} {calls : List Call}
    (hrun : Run (Observer.step env) .new
      (tr₁ ++ (.onIceGatheringChange .complete, calls) :: tr₂) o) :
    calls = [.sendSignalingMessage (iceText (reported tr₁))] := by
  obtain ⟨o₁, o₂, hrun₁, hstep, -⟩ := hrun.step_at
  have hcall := Except.ok.inj (Observer.step_eq_some hstep).2
  have hcalls := (Prod.mk.inj hcall).2
  rw [← hcalls]
  exact congrArg (fun m => [Call.sendSignalingMessage m]) (batch_of_run hrun₁)

end Run

/-! ## 2. The texts are JSON -/

theorem jsonChars_hex {s : Bytes} (hs : JsonChars s) (x : ℕ) :
    JsonChars (ascii "\\u" ++ toHex16Bit x ++ s) := by
  have hd : ∀ y, JsonHex (digitChar false (y % 16)) := fun y =>
    jsonHex_digitChar (Nat.mod_lt _ (by decide))
  exact .unicode _ _ _ _ (hd _) (hd _) (hd _) (hd _) hs

/-- Every character is written as JSON has it. -/
theorem jsonChars_escapeChar (cp : ℕ) : JsonChars (escapeChar cp) := by
  unfold escapeChar
  split
  · rename_i e he
    unfold shortEscape at he
    split at he <;> cases he <;> exact .escape _ (by decide) .nil
  · rename_i hshort
    split
    · rename_i hplain
      refine .plain _ ?_ .nil
      have hquote : cp ≠ 0x22 := by
        rintro rfl
        exact absurd hshort (by decide)
      have hslash : cp ≠ 0x5C := by
        rintro rfl
        exact absurd hshort (by decide)
      have hall : ∀ n < 0x80, (0x20 ≤ n ∧ n ≠ 0x22 ∧ n ≠ 0x5C) →
          ((0x20 : UInt8) ≤ UInt8.ofNat n ∧ UInt8.ofNat n < 0x80 ∧ UInt8.ofNat n ≠ 0x22 ∧
            UInt8.ofNat n ≠ 0x5C) := by decide
      exact hall cp hplain.1 ⟨hplain.2, hquote, hslash⟩
    · split
      · have := jsonChars_hex .nil cp
        rwa [List.append_nil] at this
      · dsimp only
        rw [List.append_assoc]
        have hlow := jsonChars_hex .nil ((cp - 0x10000) % 1024 + 0xDC00)
        rw [List.append_nil] at hlow
        exact jsonChars_hex hlow _

theorem jsonString_quoted (s : Bytes) : JsonString (valueToQuotedString s) :=
  ⟨_, JsonChars.flatMap jsonChars_escapeChar (codepoints s), rfl⟩

theorem jsonInt_intText (i : ℤ) : JsonInt (Json.intText i) := by
  obtain ⟨hdigits, hlead⟩ := jsonInt_decimal i.natAbs
  refine ⟨decimal i.natAbs, ?_, decimal_ne_nil _, hdigits, hlead⟩
  unfold Json.intText
  split
  · exact .inr rfl
  · exact .inl rfl

/-- **What the writer makes of strings and integers is a JSON object.** -/
theorem jsonObject_writeObject {members : List (Bytes × Bytes)} (hne : members ≠ [])
    (h : ∀ m ∈ members, JsonString m.2 ∨ JsonInt m.2) : JsonObject (writeObject members) := by
  refine ⟨members.map fun m => ascii "\n\t" ++ valueToQuotedString m.1 ++ ascii " : " ++ m.2,
    [10], by simpa using hne, fun m hm => ?_, by simp [JsonSpace], ?_⟩
  · obtain ⟨x, hx, rfl⟩ := List.mem_map.mp hm
    refine ⟨ascii "\n\t", valueToQuotedString x.1, [32], [32], x.2, ?_, jsonString_quoted x.1, ?_,
      ?_, h x hx, ?_⟩
    · decide
    · decide
    · decide
    · simp only [List.append_assoc]
      rfl
  · simp only [writeObject, List.append_assoc]
    rfl

theorem jsonObject_descriptionText (type sdp : Bytes) :
    JsonObject (Observer.descriptionText type sdp) :=
  jsonObject_writeObject (by simp) (by simp [jsonString_quoted])

theorem jsonObject_reports {cb : Callback} {text : Bytes} (h : cb.reports = some text) :
    JsonObject text := by
  unfold Callback.reports at h
  split at h
  · obtain rfl := Option.some.inj h
    exact jsonObject_writeObject (by simp) (by simp [jsonString_quoted, jsonInt_intText])
  · exact absurd h (by simp)

/-! ## 3. What the browser understands -/

/-- A message that `waitOn` has a branch for. -/
def Understood (message : Bytes) : Prop :=
  (∃ text, message = ascii "SDP->" ++ text ∧ JsonObject text) ∨
    ∃ texts, texts ≠ [] ∧ message = ascii "ICE->" ++ Observer.separator.intercalate texts ∧
      ∀ text ∈ texts, JsonObject text

theorem understood_iceText {texts : List Bytes} (hne : texts ≠ [])
    (h : ∀ text ∈ texts, JsonObject text) : Understood (iceText texts) :=
  .inr ⟨texts, hne, by rw [iceText, if_neg hne], h⟩

theorem Understood.ne_nil {message : Bytes} (h : Understood message) : message ≠ [] := by
  rcases h with ⟨text, rfl, -⟩ | ⟨texts, -, rfl, -⟩ <;> simp [ascii]

/-- Every completed gathering comes after a candidate. -/
def CandidateFirst (tr : List (Callback × List Call)) : Prop :=
  Preceded (fun x => x.1.completes = true) (fun x => x.1.reports.isSome = true) tr

instance (tr : List (Callback × List Call)) : Decidable (CandidateFirst tr) :=
  inferInstanceAs (Decidable (Preceded _ _ tr))

theorem reported_ne_nil_iff (tr : List (Callback × List Call)) :
    reported tr ≠ [] ↔ ∃ x ∈ tr, x.1.reports.isSome = true := by
  rw [Ne, reported, List.filterMap_eq_nil_iff]
  simp only [not_forall, Option.isSome_iff_ne_none, exists_prop, ne_eq]

/-- What one call gives is understood, if a completed gathering finds a candidate. -/
theorem given_understood {env : Env} {o o' : Observer} {cb : Callback} {calls : List Call}
    {texts : List Bytes} (hbatch : o.iceCandidateMsg = iceText texts)
    (htexts : ∀ text ∈ texts, JsonObject text)
    (hfirst : cb.completes = true → texts ≠ [])
    (h : o.call env cb = .ok (o', calls)) : ∀ m ∈ calls.filterMap Call.given, Understood m := by
  cases cb with
  | onSignalingMessage message created =>
    rw [given_of_silent (Observer.onSignalingMessage_silent h).2.2]
    simp
  | onSuccess type sdp =>
    rw [(Observer.onSuccess_given h).2.2]
    intro m hm
    rw [List.mem_singleton.mp hm]
    exact .inl ⟨_, rfl, jsonObject_descriptionText type sdp⟩
  | onIceCandidate sdpMid sdpMLineIndex sdp =>
    obtain ⟨-, rfl⟩ := Prod.mk.inj (Except.ok.inj h)
    simp
  | onIceGatheringChange state =>
    have h := Except.ok.inj h
    unfold Observer.onIceGatheringChange at h
    split at h
    · rename_i hstate
      obtain ⟨-, rfl⟩ := Prod.mk.inj h
      intro m hm
      rw [List.mem_singleton.mp hm, hbatch]
      exact understood_iceText (hfirst (by rw [hstate]; rfl)) htexts
    · obtain ⟨-, rfl⟩ := Prod.mk.inj h
      simp
  | onIceConnectionChange state =>
    obtain ⟨-, rfl⟩ := Prod.mk.inj (Except.ok.inj h)
    simp

theorem jsonObject_reported {tr : List (Callback × List Call)} :
    ∀ text ∈ reported tr, JsonObject text := by
  intro text htext
  obtain ⟨x, -, hx⟩ := List.mem_filterMap.mp htext
  exact jsonObject_reports hx

section Run

variable {env : Env} {tr : List (Callback × List Call)} {o : Observer}

theorem understood_of_run (hrun : Run (Observer.step env) .new tr o) (hfirst : CandidateFirst tr) :
    ∀ m ∈ o.msgQueue, Understood m := by
  induction hrun with
  | refl => simp [Observer.new]
  | @tail tr o o' cb calls hrun hstep ih =>
    obtain ⟨-, hcall⟩ := Observer.step_eq_some hstep
    rw [Observer.call_msgQueue hcall]
    intro m hm
    rcases List.mem_append.mp hm with hm | hm
    · exact ih (preceded_concat.mp hfirst).1 m hm
    · refine given_understood (batch_of_run hrun) jsonObject_reported (fun hcomplete => ?_)
          hcall m hm
      exact (reported_ne_nil_iff tr).mpr ((preceded_concat.mp hfirst).2 hcomplete)

/-- **When every outgoing message is one the browser understands.**  In a run of any calls in
any order, every queued message is non-empty and is `SDP->` and a JSON object, or `ICE->` and
JSON objects with the separator between them, if and only if every completed gathering comes
after a candidate that could be serialised. -/
theorem understood_iff (hrun : Run (Observer.step env) .new tr o) :
    (∀ m ∈ o.msgQueue, m ≠ [] ∧
      ((∃ text, m = ascii "SDP->" ++ text ∧ JsonObject text) ∨
        ∃ texts, texts ≠ [] ∧ m = ascii "ICE->" ++ Observer.separator.intercalate texts ∧
          ∀ text ∈ texts, JsonObject text)) ↔ CandidateFirst tr := by
  constructor
  · rintro h tr₁ ⟨cb, calls⟩ tr₂ rfl hcomplete
    obtain rfl := Callback.eq_of_completes hcomplete
    rw [← reported_ne_nil_iff]
    intro hnone
    -- without a candidate the batch is the empty text, and that is what is queued
    have hcalls := complete_at hrun
    have hqueued : [] ∈ o.msgQueue := by
      rw [msgQueue_of_run hrun, List.mem_filterMap]
      refine ⟨.sendSignalingMessage [], ?_, rfl⟩
      rw [hnone] at hcalls
      simp [events, hcalls, iceText]
    exact (h [] hqueued).1 rfl
  · intro hfirst m hm
    have hunderstood := understood_of_run hrun hfirst m hm
    exact ⟨hunderstood.ne_nil, hunderstood⟩

end Run

/-- A round of an answered offer, with a candidate for each of the media lines. -/
def sampleRound (sdpMids : List Bytes) : List Callback :=
  [.onSignalingMessage (ascii "SDP->" ++ sampleOffer) sampleCreated,
    .onSuccess (ascii "answer") sampleSdp] ++
  sdpMids.map (fun sdpMid => .onIceCandidate sdpMid 0 (some (ascii "candidate:1"))) ++
  [.onIceGatheringChange .complete]

theorem understood_sample : ∃ tr o, Run (Observer.step sampleEnv) .new tr o ∧
    o.msgQueue.length = 2 ∧
    ∀ m ∈ o.msgQueue, m ≠ [] ∧
      ((∃ text, m = ascii "SDP->" ++ text ∧ JsonObject text) ∨
        ∃ texts, texts ≠ [] ∧ m = ascii "ICE->" ++ Observer.separator.intercalate texts ∧
          ∀ text ∈ texts, JsonObject text) := by
  obtain ⟨tr, o, hrun, hp⟩ := exists_run (Observer.step sampleEnv) .new
    (sampleRound [ascii "0", ascii "1"])
    (fun tr o => decide (CandidateFirst tr ∧ o.msgQueue.length = 2)) (by decide +kernel)
  obtain ⟨hfirst, hlen⟩ := of_decide_eq_true hp
  exact ⟨tr, o, hrun, hlen, (understood_iff hrun).mpr hfirst⟩

/-- Gathering that completes with no candidate: the empty message is queued. -/
theorem empty_message_queued : ∃ tr o, Run (Observer.step sampleEnv) .new tr o ∧
    ¬ ∀ m ∈ o.msgQueue, m ≠ [] ∧
      ((∃ text, m = ascii "SDP->" ++ text ∧ JsonObject text) ∨
        ∃ texts, texts ≠ [] ∧ m = ascii "ICE->" ++ Observer.separator.intercalate texts ∧
          ∀ text ∈ texts, JsonObject text) := by
  obtain ⟨tr, o, hrun, hp⟩ := exists_run (Observer.step sampleEnv) .new (sampleRound [])
    (fun _ o => decide ([] ∈ o.msgQueue)) (by decide +kernel)
  refine ⟨tr, o, hrun, fun h => ?_⟩
  exact (h [] (of_decide_eq_true hp)).1 rfl

/-! ## 4. Which candidates a message lists -/

/-- A message of the client that made a new peer connection: its description was set on it. -/
def creates : Callback × List Call → Bool
  | (.onSignalingMessage _ _, calls) => calls.any fun
    | .setRemoteDescription _ _ => true
    | _ => false
  | _ => false

/-- A gathering completed, in an entry of a run. -/
def ends (x : Callback × List Call) : Bool := x.1.completes

/-- **The message of a round**, with `tr₁` the run before it and `calls` what the completed
gathering did: it lists the candidates reported since the last completed gathering, in order,
and none of them was reported for an earlier peer connection. -/
def SentOnce (tr₁ : List (Callback × List Call)) (calls : List Call) : Prop :=
  calls = [.sendSignalingMessage (iceText (reported (since ends tr₁)))] ∧
    reported (since ends tr₁) = reported (since (fun x => ends x || creates x) tr₁)

/-- Between a reported candidate and a completed gathering there is neither another completed
gathering nor a new peer connection. -/
def RoundsApart (tr : List (Callback × List Call)) : Prop :=
  ∀ x y z, [x, y, z].Sublist tr → x.1.reports.isSome = true → ends z = true →
    (ends y || creates y) = false

/-- The same, checked over all triples of entries. -/
theorem roundsApart_iff (tr : List (Callback × List Call)) :
    RoundsApart tr ↔ ∀ s ∈ tr.sublistsLen 3, (match s with
      | [x, y, z] => x.1.reports.isSome && ends z && (ends y || creates y)
      | _ => false) = false := by
  constructor
  · intro h s hs
    obtain ⟨hsub, hlen⟩ := List.mem_sublistsLen.mp hs
    obtain ⟨x, y, z, rfl⟩ := List.length_eq_three.mp hlen
    by_contra htrue
    simp only [Bool.not_eq_false, Bool.and_eq_true] at htrue
    obtain ⟨⟨hx, hz⟩, hy⟩ := htrue
    rw [h x y z hsub hx hz] at hy
    exact absurd hy (by simp)
  · intro h x y z hsub hx hz
    have hnot := h [x, y, z] (List.mem_sublistsLen.mpr ⟨hsub, rfl⟩)
    simpa [hx, hz] using hnot

instance (tr : List (Callback × List Call)) : Decidable (RoundsApart tr) :=
  decidable_of_iff _ (roundsApart_iff tr).symm

theorem not_ends_of_reports {x : Callback × List Call} (h : x.1.reports.isSome = true) :
    ends x = false ∧ creates x = false := by
  obtain ⟨cb, calls⟩ := x
  cases cb with
  | onIceCandidate sdpMid sdpMLineIndex sdp => exact ⟨rfl, rfl⟩
  | _ => exact absurd h (by simp [Callback.reports])

/-- A batch with more candidates in front is a longer text. -/
theorem iceText_append_eq_iff (front texts : List Bytes) :
    iceText (front ++ texts) = iceText texts ↔ front = [] := by
  constructor
  · intro h
    by_contra hne
    obtain ⟨t, ts, rfl⟩ := List.exists_cons_of_ne_nil hne
    have hlen := congrArg List.length h
    rw [List.cons_append, iceText, if_neg (List.cons_ne_nil _ _), intercalate_cons_eq] at hlen
    cases texts with
    | nil =>
      simp [iceText, ascii] at hlen
    | cons r rs =>
      rw [iceText, if_neg (List.cons_ne_nil _ _), intercalate_cons_eq] at hlen
      simp only [List.length_append, List.flatMap_append, List.flatMap_cons,
        show Observer.separator.length = 6 from rfl] at hlen
      omega
  · rintro rfl
    rw [List.nil_append]

/-- Everything reported is of the round exactly when nothing reported stands before its start. -/
theorem reported_since_iff (q : Callback × List Call → Bool)
    (hq : ∀ x, x.1.reports.isSome = true → q x = false) (tr : List (Callback × List Call)) :
    reported tr = reported (since q tr) ↔
      ∀ x y, [x, y].Sublist tr → x.1.reports.isSome = true → q y = false :=
  filterMap_since_iff hq tr

/-- The message lists the whole batch and the batch ends with the round, so when the message is
the round's, nothing of the batch is of an earlier round. -/
theorem reported_since_of_iceText {tr : List (Callback × List Call)}
    (h : iceText (reported tr) = iceText (reported (since ends tr))) :
    reported tr = reported (since ends tr) := by
  obtain ⟨front, hfront⟩ : reported (since ends tr) <:+ reported tr :=
    (List.rtakeWhile_suffix _ _).filterMap _
  rw [← hfront, iceText_append_eq_iff] at h
  rw [← hfront, h, List.nil_append]

section Run

variable {env : Env} {o : Observer}

/-- One message is the message of its round exactly when no candidate was reported before the
round, or for an earlier peer connection. -/
theorem sentOnce_iff {tr₁ tr₂ : List (Callback × List Call)} {calls : List Call}
    (hrun : Run (Observer.step env) .new
      (tr₁ ++ (.onIceGatheringChange .complete, calls) :: tr₂) o) :
    SentOnce tr₁ calls ↔ ∀ x y, [x, y].Sublist tr₁ → x.1.reports.isSome = true →
      (ends y || creates y) = false := by
  have hdisj : ∀ x : Callback × List Call, x.1.reports.isSome = true →
      (ends x || creates x) = false := by
    intro x hx
    obtain ⟨h₁, h₂⟩ := not_ends_of_reports hx
    rw [h₁, h₂]
    rfl
  have hends := reported_since_iff ends (fun x hx => (not_ends_of_reports hx).1) tr₁
  have hboth := reported_since_iff (fun x => ends x || creates x) hdisj tr₁
  rw [← hboth, complete_at hrun, SentOnce]
  constructor
  · rintro ⟨hmsg, hpeer⟩
    have htext : iceText (reported tr₁) = iceText (reported (since ends tr₁)) := by
      simpa using hmsg
    rw [← hpeer, reported_since_of_iceText htext]
  · intro hall
    have hround : reported tr₁ = reported (since ends tr₁) :=
      hends.mpr fun x y hsub hx => (Bool.or_eq_false_iff.mp (hboth.mp hall x y hsub hx)).1
    exact ⟨by rw [← hround], by rw [← hround, hall]⟩

/-- **When each local candidate is sent exactly once.**  In every run, the message queued at each
completed gathering lists exactly the candidates reported since the one before, in order, and
none of an earlier peer connection, if and only if no candidate is followed by a completed
gathering or a new peer connection and then by a completed gathering. -/
theorem sent_once_iff {tr : List (Callback × List Call)}
    (hrun : Run (Observer.step env) .new tr o) :
    (∀ tr₁ calls tr₂, tr = tr₁ ++ (.onIceGatheringChange .complete, calls) :: tr₂ →
      SentOnce tr₁ calls) ↔ RoundsApart tr := by
  constructor
  · intro h x y z hsub hx hz
    obtain ⟨cb, calls⟩ := z
    obtain rfl := Callback.eq_of_completes hz
    -- the third entry splits the run, with the first two before it
    rw [show [x, y, (Callback.onIceGatheringChange .complete, calls)]
      = [x, y] ++ [(Callback.onIceGatheringChange .complete, calls)] from rfl,
      List.append_sublist_iff] at hsub
    obtain ⟨r₁, r₂, rfl, hxy, hz⟩ := hsub
    obtain ⟨s, t, rfl⟩ := List.append_of_mem (List.singleton_sublist.mp hz)
    rw [← List.append_assoc] at hrun
    exact (sentOnce_iff hrun).mp (h (r₁ ++ s) calls t (List.append_assoc _ _ _).symm) x y
      (hxy.trans (List.sublist_append_left _ _)) hx
  · rintro hapart tr₁ calls tr₂ rfl
    rw [sentOnce_iff hrun]
    intro x y hsub hx
    refine hapart x y (.onIceGatheringChange .complete, calls) ?_ hx rfl
    exact hsub.append (List.singleton_sublist.mpr List.mem_cons_self)

end Run

/-- One round: its message lists its two candidates. -/
theorem sent_once_sample : ∃ tr o, Run (Observer.step sampleEnv) .new tr o ∧
    (reported tr).length = 2 ∧
    ∀ tr₁ calls tr₂, tr = tr₁ ++ (.onIceGatheringChange .complete, calls) :: tr₂ →
      SentOnce tr₁ calls := by
  obtain ⟨tr, o, hrun, hp⟩ := exists_run (Observer.step sampleEnv) .new
    (sampleRound [ascii "0", ascii "1"])
    (fun tr _ => decide (RoundsApart tr ∧ (reported tr).length = 2)) (by decide +kernel)
  obtain ⟨hapart, hlen⟩ := of_decide_eq_true hp
  exact ⟨tr, o, hrun, hlen, (sent_once_iff hrun).mpr hapart⟩

/-- A second offer, and a second round: the candidate of the first is offered again. -/
theorem candidate_sent_twice : ∃ tr₁ calls o,
    Run (Observer.step sampleEnv) .new (tr₁ ++ [(.onIceGatheringChange .complete, calls)]) o ∧
      ¬ SentOnce tr₁ calls := by
  obtain ⟨tr, o, hrun, hp⟩ := exists_run (Observer.step sampleEnv) .new
    (sampleRound [ascii "0"] ++ sampleRound [ascii "1"])
    (fun tr _ => decide (tr.getLast?.any ends = true ∧ (reported tr.dropLast).length = 2 ∧
      (reported (since ends tr.dropLast)).length = 1)) (by decide +kernel)
  obtain ⟨hend, hall, hround⟩ := of_decide_eq_true hp
  rcases List.eq_nil_or_concat tr with rfl | ⟨tr₁, ⟨cb, calls⟩, rfl⟩
  · exact absurd hend (by simp)
  · rw [List.concat_eq_append] at hrun hend hall hround
    rw [List.getLast?_concat] at hend
    rw [List.dropLast_concat] at hall hround
    obtain rfl := Callback.eq_of_completes hend
    refine ⟨tr₁, calls, o, hrun, fun honce => ?_⟩
    -- both rounds' candidates are in the message, and one of them is of this round
    have hmsg := (complete_at hrun).symm.trans honce.1
    have htext : iceText (reported tr₁) = iceText (reported (since ends tr₁)) := by
      simpa using hmsg
    rw [reported_since_of_iceText htext, hround] at hall
    exact absurd hall (by decide)

end Reflector.Signaling
