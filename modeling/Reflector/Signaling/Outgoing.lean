/-
# What an observer says

`sendSignalingMessage` is the only way into the observer's queue.  So whatever is called on an
observer, and in whatever order, its queue grows at the end by exactly the messages the call
passed to `sendSignalingMessage` (`call_msgQueue`).

The messages are texts of the JSON writer, which writes every byte that is not printable as an
escape: no message has a NUL (`Plain`), and none is cut on its way through a C string.
-/
import Reflector.Signaling.Observer

namespace Reflector.Signaling

open Base

/-! ## 1. The queue grows by what is given -/

/-- The message passed to `sendSignalingMessage`, if the call is one. -/
def Call.given : Call → Option Bytes
  | .sendSignalingMessage message => some message
  | _ => none

/-- A call that neither speaks to the client nor describes the local end; `OnSuccess` alone
does the second. -/
def Call.Silent : Call → Prop
  | .sendSignalingMessage _ | .setLocalDescription _ _ => False
  | _ => True

theorem given_of_silent {calls : List Call} (h : ∀ x ∈ calls, x.Silent) :
    calls.filterMap Call.given = [] := by
  rw [List.filterMap_eq_nil_iff]
  intro x hx
  have hsilent := h x hx
  cases x with
  | sendSignalingMessage message => exact absurd hsilent id
  | _ => rfl

namespace Observer

variable {env : Env} {o o' : Observer} {calls : List Call}

theorem addIceCandidate_silent {iceStr : Bytes} (h : o.addIceCandidate env iceStr = .ok calls) :
    ∀ x ∈ calls, x.Silent := by
  unfold addIceCandidate at h
  split at h
  · obtain rfl := Except.ok.inj h
    simp [Call.Silent]
  · obtain ⟨_, -, h⟩ := bind_eq_ok.mp h
    split at h
    · obtain rfl := Except.ok.inj h
      simp [Call.Silent]
    · simp only [bind_eq_ok] at h
      obtain ⟨_, -, _, -, _, -, _, -, _, -, _, -, h⟩ := h
      split at h
      · obtain rfl := Except.ok.inj h
        simp [Call.Silent]
      · obtain rfl := Except.ok.inj h
        simp [Call.Silent]

/-- The candidate loop is silent, if what it calls is silent. -/
theorem candidateLoop_silent {add : Bytes → Except Raise (List Call)} {text : Bytes}
    (hadd : ∀ iceStr added, add iceStr = .ok added → ∀ x ∈ added, x.Silent) :
    ∀ (n startPos : ℕ) {calls calls' : List Call},
      candidateLoop add text n startPos calls = .ok calls' → (∀ x ∈ calls, x.Silent) →
      ∀ x ∈ calls', x.Silent := by
  intro n
  induction n with
  | zero =>
    intro _ calls calls' h hcalls
    obtain rfl := Except.ok.inj h
    exact hcalls
  | succ n ih =>
    intro startPos calls calls' h hcalls
    have hboth : ∀ {iceStr added}, add iceStr = .ok added → ∀ x ∈ calls ++ added, x.Silent := by
      intro iceStr added hadded x hx
      rcases List.mem_append.mp hx with hx | hx
      · exact hcalls x hx
      · exact hadd iceStr added hadded x hx
    rw [candidateLoop] at h
    split at h
    · simp only [bind_eq_ok] at h
      obtain ⟨iceStr, -, added, hadded, h⟩ := h
      exact ih _ h (hboth hadded)
    · simp only [bind_eq_ok] at h
      obtain ⟨iceStr, -, added, hadded, h⟩ := h
      obtain rfl := Except.ok.inj h
      exact hboth hadded

theorem addCandidates_silent {text : Bytes} (h : o.addCandidates env text = .ok calls) :
    ∀ x ∈ calls, x.Silent :=
  candidateLoop_silent (fun _ _ => addIceCandidate_silent) _ _ h (by simp)

theorem initPeerConnection_msgQueue (o : Observer) (created : Created) :
    (o.initPeerConnection created).2.msgQueue = o.msgQueue ∧
      (o.initPeerConnection created).2.iceCandidateMsg = o.iceCandidateMsg := by
  unfold initPeerConnection
  cases created.factory with
  | none => exact ⟨rfl, rfl⟩
  | some _ => cases created.peerConnection <;> exact ⟨rfl, rfl⟩

/-- A message of the client puts nothing into the queue. -/
theorem onCommand_silent {cmd payload : Bytes} {created : Created}
    (h : o.onCommand env cmd payload created = .ok (o', calls)) :
    o'.msgQueue = o.msgQueue ∧ o'.iceCandidateMsg = o.iceCandidateMsg ∧
      ∀ x ∈ calls, x.Silent := by
  unfold onCommand at h
  split at h
  · obtain ⟨_, -, h⟩ := bind_eq_ok.mp h
    split at h
    · obtain ⟨rfl, rfl⟩ := Prod.mk.inj (Except.ok.inj h)
      exact ⟨rfl, rfl, by simp⟩
    · simp only [bind_eq_ok] at h
      obtain ⟨_, -, type, -, _, -, sdp, -, h⟩ := h
      split at h
      · obtain ⟨hqueue, hmsg⟩ := initPeerConnection_msgQueue o created
        split at h
        · rename_i heq
          obtain ⟨rfl, rfl⟩ := Prod.mk.inj (Except.ok.inj h)
          rw [heq] at hqueue hmsg
          exact ⟨hqueue, hmsg, by simp⟩
        · rename_i heq
          obtain ⟨rfl, rfl⟩ := Prod.mk.inj (Except.ok.inj h)
          rw [heq] at hqueue hmsg
          refine ⟨hqueue, hmsg, ?_⟩
          split <;> simp [Call.Silent]
      · obtain ⟨rfl, rfl⟩ := Prod.mk.inj (Except.ok.inj h)
        exact ⟨rfl, rfl, by simp⟩
  · split at h
    · split at h
      · obtain ⟨rfl, rfl⟩ := Prod.mk.inj (Except.ok.inj h)
        exact ⟨rfl, rfl, by simp⟩
      · obtain ⟨added, hadded, h⟩ := bind_eq_ok.mp h
        obtain ⟨rfl, rfl⟩ := Prod.mk.inj (Except.ok.inj h)
        exact ⟨rfl, rfl, addCandidates_silent hadded⟩
    · obtain ⟨rfl, rfl⟩ := Prod.mk.inj (Except.ok.inj h)
      exact ⟨rfl, rfl, by simp⟩

theorem onSignalingMessage_silent {message : Bytes} {created : Created}
    (h : o.onSignalingMessage env message created = .ok (o', calls)) :
    o'.msgQueue = o.msgQueue ∧ o'.iceCandidateMsg = o.iceCandidateMsg ∧
      ∀ x ∈ calls, x.Silent := by
  unfold onSignalingMessage at h
  simp only [bind_eq_ok] at h
  obtain ⟨cmd, -, payload, -, h⟩ := h
  exact onCommand_silent h

/-- The answer is the one message of `OnSuccess`. -/
theorem onSuccess_given {type sdp : Bytes} (h : o.onSuccess env type sdp = .ok (o', calls)) :
    o'.msgQueue = o.msgQueue ++ [ascii "SDP->" ++ descriptionText type sdp] ∧
      o'.iceCandidateMsg = o.iceCandidateMsg ∧
      calls.filterMap Call.given = [ascii "SDP->" ++ descriptionText type sdp] := by
  unfold onSuccess at h
  split at h
  · exact absurd h (by simp)
  · obtain ⟨added, hadded, h⟩ := bind_eq_ok.mp h
    obtain ⟨rfl, rfl⟩ := Prod.mk.inj (Except.ok.inj h)
    refine ⟨rfl, rfl, ?_⟩
    have hnone : added.filterMap Call.given = [] := by
      split at hadded
      · obtain rfl := Except.ok.inj hadded
        rfl
      · exact given_of_silent (addCandidates_silent hadded)
    exact congrArg (List.cons _) hnone

theorem onIceCandidate_msgQueue (o : Observer) (sdpMid : Bytes) (sdpMLineIndex : ℤ)
    (sdp : Option Bytes) : (o.onIceCandidate sdpMid sdpMLineIndex sdp).msgQueue = o.msgQueue := by
  unfold onIceCandidate
  split
  · rfl
  · dsimp only
    split <;> rfl

/-- **The queue grows by what is given to `sendSignalingMessage`**, and by nothing else. -/
theorem call_msgQueue {cb : Callback} (h : o.call env cb = .ok (o', calls)) :
    o'.msgQueue = o.msgQueue ++ calls.filterMap Call.given := by
  cases cb with
  | onSignalingMessage message created =>
    obtain ⟨hqueue, -, hsilent⟩ := onSignalingMessage_silent h
    rw [given_of_silent hsilent, List.append_nil, hqueue]
  | onSuccess type sdp =>
    obtain ⟨hqueue, -, hgiven⟩ := onSuccess_given h
    rw [hqueue, hgiven]
  | onIceCandidate sdpMid sdpMLineIndex sdp =>
    obtain ⟨rfl, rfl⟩ := Prod.mk.inj (Except.ok.inj h)
    rw [onIceCandidate_msgQueue, List.filterMap_nil, List.append_nil]
  | onIceGatheringChange state =>
    have h := Except.ok.inj h
    unfold onIceGatheringChange at h
    split at h
    · obtain ⟨rfl, rfl⟩ := Prod.mk.inj h
      rfl
    · obtain ⟨rfl, rfl⟩ := Prod.mk.inj h
      simp
  | onIceConnectionChange state =>
    obtain ⟨rfl, rfl⟩ := Prod.mk.inj (Except.ok.inj h)
    simp [onIceConnectionChange]

end Observer

/-! ## 2. No message has a NUL -/

theorem zero_notMem_toHex16Bit (x : ℕ) : (0 : UInt8) ∉ toHex16Bit x := by
  intro h
  simp only [toHex16Bit, List.map_cons, List.map_nil, List.mem_cons, List.not_mem_nil,
    or_false] at h
  rcases h with h | h | h | h <;>
    exact digitChar_ne_zero false (Nat.mod_lt _ (by decide)) h.symm

theorem zero_notMem_escapeChar (cp : ℕ) : (0 : UInt8) ∉ escapeChar cp := by
  have hu : (0 : UInt8) ∉ ascii "\\u" := by decide
  unfold escapeChar
  split
  · rename_i e he
    unfold shortEscape at he
    split at he <;> cases he <;> decide
  · split
    · rename_i hplain
      intro h
      have h0 : (UInt8.ofNat cp).toNat = 0 := by rw [← List.mem_singleton.mp h]; rfl
      rw [UInt8.toNat_ofNat'] at h0
      omega
    · split
      · simp [hu, zero_notMem_toHex16Bit]
      · simp [hu, zero_notMem_toHex16Bit]

theorem zero_notMem_quoted (s : Bytes) : (0 : UInt8) ∉ valueToQuotedString s := by
  unfold valueToQuotedString
  simp only [List.cons_append, List.mem_cons, List.mem_append, List.mem_flatMap, List.not_mem_nil,
    or_false, not_or, not_exists, not_and]
  exact ⟨by decide, fun cp _ => zero_notMem_escapeChar cp, by decide⟩

theorem zero_notMem_writeObject {members : List (Bytes × Bytes)}
    (h : ∀ m ∈ members, (0 : UInt8) ∉ m.2) : (0 : UInt8) ∉ writeObject members := by
  have htab : (0 : UInt8) ∉ ascii "\n\t" := by decide
  have hcolon : (0 : UInt8) ∉ ascii " : " := by decide
  unfold writeObject
  simp only [List.mem_append, not_or]
  refine ⟨⟨by decide, notMem_intercalate (by decide) ?_⟩, by decide⟩
  intro x hx
  obtain ⟨m, hm, rfl⟩ := List.mem_map.mp hx
  simp only [List.mem_append, not_or]
  exact ⟨⟨⟨htab, zero_notMem_quoted m.1⟩, hcolon⟩, h m hm⟩

theorem zero_notMem_descriptionText (type sdp : Bytes) :
    (0 : UInt8) ∉ Observer.descriptionText type sdp :=
  zero_notMem_writeObject (by simp [zero_notMem_quoted])

theorem zero_notMem_candidateText (sdpMid : Bytes) (sdpMLineIndex : ℤ) (sdp : Bytes) :
    (0 : UInt8) ∉ Observer.candidateText sdpMid sdpMLineIndex sdp := by
  have hindex : (0 : UInt8) ∉ Json.intText sdpMLineIndex := Json.notMem_intText rfl (by decide) _
  exact zero_notMem_writeObject (by simp [zero_notMem_quoted, hindex])

/-- Nothing the observer has to say has a NUL in it. -/
structure Observer.Plain (o : Observer) : Prop where
  candidates : (0 : UInt8) ∉ o.iceCandidateMsg
  queue : ∀ message ∈ o.msgQueue, (0 : UInt8) ∉ message

theorem Observer.plain_new : Observer.new.Plain :=
  ⟨by simp [Observer.new], by simp [Observer.new]⟩

/-- **Every call keeps the observer's messages free of NULs.** -/
theorem Observer.Plain.call {env : Env} {o o' : Observer} {cb : Callback} {calls : List Call}
    (ho : o.Plain) (h : o.call env cb = .ok (o', calls)) : o'.Plain := by
  cases cb with
  | onSignalingMessage message created =>
    obtain ⟨hqueue, hmsg, -⟩ := onSignalingMessage_silent h
    exact ⟨hmsg ▸ ho.candidates, hqueue ▸ ho.queue⟩
  | onSuccess type sdp =>
    obtain ⟨hqueue, hmsg, -⟩ := onSuccess_given h
    refine ⟨hmsg ▸ ho.candidates, fun message hin => ?_⟩
    rw [hqueue] at hin
    rcases List.mem_append.mp hin with hin | hin
    · exact ho.queue message hin
    · rw [List.mem_singleton.mp hin, List.mem_append, not_or]
      exact ⟨by decide, zero_notMem_descriptionText type sdp⟩
  | onIceCandidate sdpMid sdpMLineIndex sdp =>
    obtain ⟨rfl, rfl⟩ := Prod.mk.inj (Except.ok.inj h)
    refine ⟨?_, by rw [onIceCandidate_msgQueue]; exact ho.queue⟩
    unfold onIceCandidate
    split
    · exact ho.candidates
    · rename_i text
      have htext := zero_notMem_candidateText sdpMid sdpMLineIndex text
      dsimp only
      split
      · simp only [List.mem_append, not_or]
        exact ⟨by decide, htext⟩
      · simp only [List.mem_append, not_or]
        exact ⟨⟨ho.candidates, by decide⟩, htext⟩
  | onIceGatheringChange state =>
    have h := Except.ok.inj h
    unfold onIceGatheringChange at h
    split at h
    · obtain ⟨rfl, rfl⟩ := Prod.mk.inj h
      refine ⟨ho.candidates, fun message hin => ?_⟩
      rcases List.mem_append.mp hin with hin | hin
      · exact ho.queue message hin
      · rw [List.mem_singleton.mp hin]
        exact ho.candidates
    · obtain ⟨rfl, rfl⟩ := Prod.mk.inj h
      exact ho
  | onIceConnectionChange state =>
    obtain ⟨rfl, rfl⟩ := Prod.mk.inj (Except.ok.inj h)
    exact ⟨ho.candidates, ho.queue⟩

end Reflector.Signaling
