/-
# Remote candidates, before and after the offer

A browser sends its offer and its candidates in independent requests, so candidate messages
may reach the observer before the offer, between the offer and `OnSuccess`, and after it.  The
observer has an immediate path (there is a peer connection) and a deferred one (there is none:
the message waits in `remoteIceCandidateMsg` until `OnSuccess`).

The deferred path has room for ONE message.  So the candidates applied are those of every
message that came after the offer, and of the LAST message that came before it
(`applied_of_run`); that is every candidate exactly once only if at most one message came
early (`applied_once_iff`).
-/
import Mathlib.Data.List.Perm.Lattice
import Reflector.Signaling.Observer

namespace Reflector.Signaling

open Base

/-! ## 1. Messages and what they ask for -/

/-- `ICE->` and the candidates. -/
def iceMessage (payload : Bytes) : Bytes := ascii "ICE" ++ ascii "->" ++ payload

/-- The payload of a candidate message. -/
def Callback.icePayload : Callback → Option Bytes
  | .onSignalingMessage message _ =>
    if ascii "ICE->" <+: message then some (message.drop 5) else none
  | _ => none

/-- The calls that come at any time: candidate messages, and the callbacks that only report. -/
inductive Callback.Quiet : Callback → Prop
  | ice (payload : Bytes) (created : Created) :
      Quiet (.onSignalingMessage (iceMessage payload) created)
  | candidate (sdpMid : Bytes) (sdpMLineIndex : ℤ) (sdp : Option Bytes) :
      Quiet (.onIceCandidate sdpMid sdpMLineIndex sdp)
  | gathering (state : IceGatheringState) : Quiet (.onIceGatheringChange state)
  | connection (state : IceConnectionState) : Quiet (.onIceConnectionChange state)

/-- The payloads of the candidate messages of a run, in order. -/
def payloads (tr : List (Callback × List Call)) : List Bytes :=
  tr.filterMap fun x => x.1.icePayload

/-- The texts `addIceCandidate` was entered with, in order. -/
def added (calls : List Call) : List Bytes :=
  calls.filterMap fun
    | .addIceCandidate iceStr => some iceStr
    | _ => none

/-- The candidates of a payload: its pieces between the separators. -/
def candidatesOf (payload : Bytes) : List Bytes := pieces Observer.separator payload

/-- An offer that WebRTC takes, with `initPeerConnection` succeeding. -/
structure ValidOffer (env : Env) (message : Bytes) (created : Created) : Prop where
  framed : ∃ payload j, message = ascii "SDP" ++ ascii "->" ++ payload ∧
    env.readJson payload = .ok (some j) ∧ ∃ jtype jsdp sdp,
      j.member (ascii "type") = .ok jtype ∧ jtype.asString = .ok (ascii "offer") ∧
      j.member (ascii "sdp") = .ok jsdp ∧ jsdp.asString = .ok sdp ∧
      env.createSessionDescription (ascii "offer") sdp = true
  factory : created.factory.isSome
  peerConnection : created.peerConnection.isSome

theorem icePayload_iceMessage (payload : Bytes) (created : Created) :
    (Callback.onSignalingMessage (iceMessage payload) created).icePayload = some payload := by
  have hframe : iceMessage payload = ascii "ICE->" ++ payload := rfl
  have hpre : ascii "ICE->" <+: ascii "ICE->" ++ payload := List.prefix_append _ _
  have hlen : (ascii "ICE->").length = 5 := rfl
  simp only [Callback.icePayload, hframe, if_pos hpre]
  rw [← hlen, List.drop_left]

@[simp] theorem added_nil : added [] = [] := rfl

@[simp] theorem added_append (a b : List Call) : added (a ++ b) = added a ++ added b := by
  simp [added]

@[simp] theorem payloads_nil : payloads [] = [] := rfl

@[simp] theorem payloads_append (a b : List (Callback × List Call)) :
    payloads (a ++ b) = payloads a ++ payloads b := by
  simp [payloads]

/-! ## 2. One call -/

/-- A call of `addIceCandidate` that returns was entered once, with its argument. -/
theorem added_addIceCandidate {env : Env} {o : Observer} {t : Bytes} {calls : List Call}
    (h : o.addIceCandidate env t = .ok calls) : added calls = [t] := by
  unfold Observer.addIceCandidate at h
  split at h
  · obtain rfl : [Call.addIceCandidate t] = calls := by simpa using h
    rfl
  · obtain ⟨_, _, h⟩ := bind_eq_ok.mp h
    split at h
    · obtain rfl : [Call.addIceCandidate t] = calls := by simpa using h
      rfl
    · simp only [bind_eq_ok] at h
      obtain ⟨_, _, _, _, _, _, _, _, _, _, _, _, h⟩ := h
      split at h <;> obtain rfl := Except.ok.inj h <;> rfl

theorem added_addEach {add : Bytes → Except Raise (List Call)}
    (hadd : ∀ t calls, add t = .ok calls → added calls = [t]) : ∀ {ps : List Bytes}
      {calls : List Call}, Observer.addEach add ps = .ok calls → added calls = ps := by
  intro ps
  induction ps with
  | nil =>
    intro calls h
    obtain rfl := Except.ok.inj h
    rfl
  | cons p ps ih =>
    intro calls h
    rw [Observer.addEach, bind_eq_ok] at h
    obtain ⟨c₁, h₁, h⟩ := h
    rw [bind_eq_ok] at h
    obtain ⟨c₂, h₂, h⟩ := h
    obtain rfl := Except.ok.inj h
    rw [added_append, hadd p c₁ h₁, ih h₂, List.singleton_append]

/-- **The loop enters `addIceCandidate` once for each candidate**, and for nothing else. -/
theorem added_addCandidates {env : Env} {o : Observer} {text : Bytes} {calls : List Call}
    (hsize : text.length < 2 ^ 31) (h : o.addCandidates env text = .ok calls) :
    added calls = candidatesOf text := by
  rw [Observer.addCandidates_eq env o hsize] at h
  exact added_addEach (fun _ _ => added_addIceCandidate) h

/-- A step is a call that returned, on a message that fits a string. -/
theorem Observer.step_eq_some {env : Env} {o o' : Observer} {cb : Callback} {calls : List Call}
    (h : o.step env cb = some (o', calls)) :
    cb.Representable ∧ o.call env cb = .ok (o', calls) := by
  unfold Observer.step at h
  split at h
  · rename_i hr
    refine ⟨hr, ?_⟩
    cases hc : o.call env cb with
    | error e => simp [hc, Except.toOption] at h
    | ok x =>
      rw [hc] at h
      simpa [Except.toOption] using h
  · exact absurd h (by simp)

/-! ## 3. Quiet calls

Before the offer a quiet call enters `addIceCandidate` for nothing and may replace the waiting
message; after it, a quiet call enters it for the candidates of its own message. -/

/-- A quiet call is a candidate message, or it changes neither the peer connection nor the waiting
message, and enters `addIceCandidate` for nothing. -/
theorem Callback.Quiet.call_cases {env : Env} {o o' : Observer} {cb : Callback}
    {calls : List Call} (hq : cb.Quiet) (h : o.call env cb = .ok (o', calls)) :
    (∃ payload created, cb = .onSignalingMessage (iceMessage payload) created) ∨
      (cb.icePayload = none ∧ o'.peerConnection = o.peerConnection ∧
        o'.remoteIceCandidateMsg = o.remoteIceCandidateMsg ∧ added calls = []) := by
  cases hq with
  | ice payload created => exact .inl ⟨payload, created, rfl⟩
  | candidate sdpMid sdpMLineIndex sdp =>
    refine .inr ⟨rfl, ?_⟩
    obtain ⟨rfl, rfl⟩ := Prod.mk.inj (Except.ok.inj h)
    unfold Observer.onIceCandidate
    split
    · exact ⟨rfl, rfl, rfl⟩
    · dsimp only
      split <;> exact ⟨rfl, rfl, rfl⟩
  | gathering state =>
    refine .inr ⟨rfl, ?_⟩
    rw [Observer.call, Observer.onIceGatheringChange] at h
    split at h <;> obtain ⟨rfl, rfl⟩ := Prod.mk.inj (Except.ok.inj h) <;> exact ⟨rfl, rfl, rfl⟩
  | connection state =>
    obtain ⟨rfl, rfl⟩ := Prod.mk.inj (Except.ok.inj h)
    exact .inr ⟨rfl, rfl, rfl, rfl⟩

theorem Callback.Quiet.step_early {env : Env} {o o' : Observer} {cb : Callback}
    {calls : List Call} (hq : cb.Quiet) (hpc : o.peerConnection = none)
    (h : o.step env cb = some (o', calls)) :
    o'.peerConnection = none ∧ added calls = [] ∧
      o'.remoteIceCandidateMsg = cb.icePayload.getD o.remoteIceCandidateMsg := by
  obtain ⟨-, h⟩ := Observer.step_eq_some h
  rcases hq.call_cases h with ⟨payload, created, rfl⟩ | ⟨hice, hpc', hmsg, hadded⟩
  · rw [Observer.call, iceMessage, Observer.onSignalingMessage_framed env o payload created
      (by decide) (by decide), Observer.onCommand, if_neg (by decide), if_pos rfl, hpc] at h
    obtain ⟨rfl, rfl⟩ := Prod.mk.inj (Except.ok.inj h)
    rw [icePayload_iceMessage]
    exact ⟨rfl, rfl, rfl⟩
  · rw [hice]
    exact ⟨hpc'.trans hpc, hadded, hmsg⟩

theorem Callback.Quiet.step_late {env : Env} {o o' : Observer} {cb : Callback}
    {calls : List Call} {pc : ℕ} (hq : cb.Quiet) (hpc : o.peerConnection = some pc)
    (h : o.step env cb = some (o', calls)) :
    o'.peerConnection = some pc ∧ o'.remoteIceCandidateMsg = o.remoteIceCandidateMsg ∧
      added calls = cb.icePayload.toList.flatMap candidatesOf := by
  obtain ⟨hrep, h⟩ := Observer.step_eq_some h
  rcases hq.call_cases h with ⟨payload, created, rfl⟩ | ⟨hice, hpc', hmsg, hadded⟩
  · have hsize : payload.length < 2 ^ 31 := by
      have hlen : (iceMessage payload).length = 5 + payload.length := by
        rw [iceMessage, List.length_append]
        rfl
      have hlt : (iceMessage payload).length < 2 ^ 31 := hrep
      omega
    rw [Observer.call, iceMessage, Observer.onSignalingMessage_framed env o payload created
      (by decide) (by decide), Observer.onCommand, if_neg (by decide), if_pos rfl, hpc] at h
    obtain ⟨cs, hcs, heq⟩ := bind_eq_ok.mp h
    obtain ⟨rfl, rfl⟩ := Prod.mk.inj (Except.ok.inj heq)
    rw [icePayload_iceMessage, added_addCandidates hsize hcs]
    exact ⟨hpc, rfl, by simp⟩
  · rw [hice]
    exact ⟨hpc'.trans hpc, hmsg, hadded⟩

/-- The waiting message is one that was received, so it fits a string too. -/
theorem Callback.Quiet.payload_length {env : Env} {o o' : Observer} {cb : Callback}
    {calls : List Call} {payload : Bytes} (hq : cb.Quiet) (hp : cb.icePayload = some payload)
    (h : o.step env cb = some (o', calls)) : payload.length < 2 ^ 31 := by
  obtain ⟨hrep, -⟩ := Observer.step_eq_some h
  cases hq with
  | ice p created =>
    rw [icePayload_iceMessage, Option.some.injEq] at hp
    have hlt : (iceMessage p).length < 2 ^ 31 := hrep
    rw [iceMessage, List.length_append] at hlt
    subst hp
    omega
  | candidate => exact absurd hp (by simp [Callback.icePayload])
  | gathering => exact absurd hp (by simp [Callback.icePayload])
  | connection => exact absurd hp (by simp [Callback.icePayload])

/-! ## 4. Runs of quiet calls -/

section Quiet

variable {env : Env} {o o' : Observer} {tr : List (Callback × List Call)}

/-- **Before the offer** nothing is applied, and the last message waits. -/
theorem run_early (hrun : Run (Observer.step env) o tr o') (hq : ∀ x ∈ tr, x.1.Quiet)
    (hpc : o.peerConnection = none) (hsize : o.remoteIceCandidateMsg.length < 2 ^ 31) :
    o'.peerConnection = none ∧ added (events tr) = [] ∧
      o'.remoteIceCandidateMsg = (payloads tr).getLast?.getD o.remoteIceCandidateMsg ∧
      o'.remoteIceCandidateMsg.length < 2 ^ 31 := by
  induction hrun with
  | refl => exact ⟨hpc, rfl, rfl, hsize⟩
  | @tail tr s s' cb calls hr hs ih =>
    obtain ⟨h₁, h₂, h₃, h₄⟩ := ih fun x hx => hq x (List.mem_append_left _ hx)
    have hqcb : cb.Quiet := hq (cb, calls) (by simp)
    obtain ⟨g₁, g₂, g₃⟩ := hqcb.step_early h₁ hs
    cases hp : cb.icePayload with
    | none =>
      have hlast : payloads (tr ++ [(cb, calls)]) = payloads tr := by simp [payloads, hp]
      rw [hp, Option.getD_none] at g₃
      rw [hlast, events_append, events_singleton, added_append, h₂, g₂, g₃]
      exact ⟨g₁, rfl, h₃, h₄⟩
    | some payload =>
      have hlast : payloads (tr ++ [(cb, calls)]) = payloads tr ++ [payload] := by
        simp [payloads, hp]
      rw [hp, Option.getD_some] at g₃
      rw [hlast, events_append, events_singleton, added_append, h₂, g₂, g₃]
      exact ⟨g₁, rfl, by simp, hqcb.payload_length hp hs⟩

/-- **Once there is a peer connection** every candidate is applied as it comes. -/
theorem run_late {pc : ℕ} (hrun : Run (Observer.step env) o tr o') (hq : ∀ x ∈ tr, x.1.Quiet)
    (hpc : o.peerConnection = some pc) :
    o'.peerConnection = some pc ∧ o'.remoteIceCandidateMsg = o.remoteIceCandidateMsg ∧
      added (events tr) = (payloads tr).flatMap candidatesOf := by
  induction hrun with
  | refl => exact ⟨hpc, rfl, rfl⟩
  | @tail tr s s' cb calls hr hs ih =>
    obtain ⟨h₁, h₂, h₃⟩ := ih fun x hx => hq x (List.mem_append_left _ hx)
    obtain ⟨g₁, g₂, g₃⟩ := (hq (cb, calls) (by simp)).step_late h₁ hs
    refine ⟨g₁, g₂.trans h₂, ?_⟩
    rw [events_append, events_singleton, added_append, h₃, g₃, payloads_append,
      List.flatMap_append]
    cases hp : cb.icePayload <;> simp [payloads, hp]

end Quiet

/-! ## 5. The offer and its answer -/

theorem ValidOffer.step {env : Env} {o o' : Observer} {message : Bytes} {created : Created}
    {calls : List Call} (hv : ValidOffer env message created)
    (h : o.step env (.onSignalingMessage message created) = some (o', calls)) :
    o'.peerConnection = created.peerConnection ∧
      o'.remoteIceCandidateMsg = o.remoteIceCandidateMsg ∧ added calls = [] := by
  obtain ⟨-, h⟩ := Observer.step_eq_some h
  obtain ⟨⟨payload, j, rfl, hj, jtype, jsdp, sdp, ht, hta, hs, hsa, hcs⟩, hf, hp⟩ := hv
  obtain ⟨f, hf⟩ := Option.isSome_iff_exists.mp hf
  obtain ⟨p, hp⟩ := Option.isSome_iff_exists.mp hp
  rw [Observer.call, Observer.onSignalingMessage_framed env o payload created (by decide)
    (by decide), Observer.onCommand, if_pos rfl, hj, ok_bind] at h
  simp only [ht, hta, hs, hsa, hcs, ok_bind, Observer.initPeerConnection, hf, hp, if_true]
    at h
  obtain ⟨rfl, rfl⟩ := Prod.mk.inj (Except.ok.inj h)
  exact ⟨hp.symm ▸ rfl, rfl, rfl⟩

/-- `OnSuccess` applies the message that waited, unless it is empty. -/
theorem step_onSuccess {env : Env} {o o' : Observer} {type sdp : Bytes} {calls : List Call}
    {pc : ℕ} (hpc : o.peerConnection = some pc) (hsize : o.remoteIceCandidateMsg.length < 2 ^ 31)
    (h : o.step env (.onSuccess type sdp) = some (o', calls)) :
    o'.peerConnection = some pc ∧
      added calls =
        if o.remoteIceCandidateMsg = [] then [] else candidatesOf o.remoteIceCandidateMsg := by
  obtain ⟨-, h⟩ := Observer.step_eq_some h
  rw [Observer.call, Observer.onSuccess, hpc] at h
  obtain ⟨cs, hcs, heq⟩ := bind_eq_ok.mp h
  obtain ⟨rfl, rfl⟩ := Prod.mk.inj (Except.ok.inj heq)
  refine ⟨hpc, ?_⟩
  change (if o.remoteIceCandidateMsg = [] then .ok [] else _) = Except.ok cs at hcs
  change added cs = _
  by_cases hr : o.remoteIceCandidateMsg = []
  · rw [if_pos hr] at hcs
    obtain rfl := Except.ok.inj hcs
    rw [if_pos hr]
    rfl
  · rw [if_neg hr] at hcs
    rw [if_neg hr]
    exact added_addCandidates hsize hcs

/-! ## 6. Every candidate exactly once -/

/-- The candidates that wait for `OnSuccess`: those of the last early message. -/
def waiting (early : List Bytes) : List Bytes :=
  if early.getLast?.getD [] = [] then [] else candidatesOf (early.getLast?.getD [])

section Session

variable {env : Env} {tr₁ tr₂ tr₃ : List (Callback × List Call)} {offer type sdp : Bytes}
  {created : Created} {es₁ es₂ : List Call} {o : Observer}

/-- The run of one session: quiet calls around an offer and its `OnSuccess`. -/
def session (tr₁ tr₂ tr₃ : List (Callback × List Call)) (offer : Bytes) (created : Created)
    (type sdp : Bytes) (es₁ es₂ : List Call) : List (Callback × List Call) :=
  tr₁ ++ (.onSignalingMessage offer created, es₁) :: (tr₂ ++ (.onSuccess type sdp, es₂) :: tr₃)

/-- **What is applied, and in which order**: the candidates that came between the offer and its
answer, the ones that waited, the ones that came later. -/
theorem applied_of_run (h₁ : ∀ x ∈ tr₁, x.1.Quiet) (h₂ : ∀ x ∈ tr₂, x.1.Quiet)
    (h₃ : ∀ x ∈ tr₃, x.1.Quiet) (hoffer : ValidOffer env offer created)
    (hrun : Run (Observer.step env) .new (session tr₁ tr₂ tr₃ offer created type sdp es₁ es₂) o) :
    added (events (session tr₁ tr₂ tr₃ offer created type sdp es₁ es₂))
      = (payloads tr₂).flatMap candidatesOf ++ waiting (payloads tr₁)
        ++ (payloads tr₃).flatMap candidatesOf := by
  obtain ⟨s₁, s₂, r₁, g₁, hrest⟩ := hrun.step_at
  obtain ⟨s₃, s₄, r₂, g₂, r₃⟩ := hrest.step_at
  obtain ⟨pc, hpc⟩ := Option.isSome_iff_exists.mp hoffer.peerConnection
  obtain ⟨-, e₁, m₁, l₁⟩ := run_early r₁ h₁ rfl (by decide)
  obtain ⟨p₂, m₂, e₂⟩ := hoffer.step g₁
  obtain ⟨p₃, m₃, e₃⟩ := run_late r₂ h₂ (p₂.trans hpc)
  have hm : s₃.remoteIceCandidateMsg = s₁.remoteIceCandidateMsg := m₃.trans m₂
  obtain ⟨p₄, e₄⟩ := step_onSuccess p₃ (hm ▸ l₁) g₂
  obtain ⟨-, -, e₅⟩ := run_late r₃ h₃ p₄
  have hw : waiting (payloads tr₁)
      = if s₃.remoteIceCandidateMsg = [] then [] else candidatesOf s₃.remoteIceCandidateMsg := by
    rw [hm, m₁]
    rfl
  have hev : events (session tr₁ tr₂ tr₃ offer created type sdp es₁ es₂)
      = events tr₁ ++ (es₁ ++ (events tr₂ ++ (es₂ ++ events tr₃))) := by
    simp [session, events]
  rw [hev, added_append, added_append, added_append, added_append, e₁, e₂, e₃, e₄, e₅, ← hw]
  simp

/-- The waiting message carries every early candidate exactly when it is the only one. -/
theorem waiting_perm_iff (early : List Bytes) :
    (waiting early).Perm (early.flatMap candidatesOf)
      ↔ early = [] ∨ ∃ p, early = [p] ∧ p ≠ [] := by
  have hpos : ∀ p, 0 < (candidatesOf p).length := fun p =>
    List.length_pos_iff.mpr (pieces_ne_nil _ p)
  constructor
  · intro h
    rcases List.eq_nil_or_concat early with rfl | ⟨front, p, rfl⟩
    · exact .inl rfl
    · rw [List.concat_eq_append] at h ⊢
      have hlen := h.length_eq
      rw [List.flatMap_append, List.flatMap_singleton, List.length_append] at hlen
      have hp : p ≠ [] := by
        rintro rfl
        have : waiting (front ++ [[]]) = [] := by simp [waiting]
        rw [this, List.length_nil] at hlen
        have := hpos []
        omega
      have hw : waiting (front ++ [p]) = candidatesOf p := by simp [waiting, hp]
      cases front with
      | nil => exact .inr ⟨p, rfl, hp⟩
      | cons q front =>
        -- an earlier message was overwritten, and it had at least one candidate
        rw [hw, List.flatMap_cons, List.length_append] at hlen
        have := hpos q
        omega
  · rintro (rfl | ⟨p, rfl, hp⟩)
    · simp [waiting]
    · simp [waiting, hp]

/-- **Every candidate received is applied exactly once, and nothing else is, if and only if at
most one candidate message came before the offer** (and that one is not empty). -/
theorem applied_once_iff (h₁ : ∀ x ∈ tr₁, x.1.Quiet) (h₂ : ∀ x ∈ tr₂, x.1.Quiet)
    (h₃ : ∀ x ∈ tr₃, x.1.Quiet) (hoffer : ValidOffer env offer created)
    (hrun : Run (Observer.step env) .new (session tr₁ tr₂ tr₃ offer created type sdp es₁ es₂) o) :
    (added (events (session tr₁ tr₂ tr₃ offer created type sdp es₁ es₂))).Perm
        ((payloads (tr₁ ++ tr₂ ++ tr₃)).flatMap candidatesOf)
      ↔ payloads tr₁ = [] ∨ ∃ p, payloads tr₁ = [p] ∧ p ≠ [] := by
  rw [applied_of_run h₁ h₂ h₃ hoffer hrun, payloads_append, payloads_append, List.flatMap_append,
    List.flatMap_append, List.perm_append_right_iff, ← waiting_perm_iff]
  have hcomm : ((payloads tr₂).flatMap candidatesOf ++ waiting (payloads tr₁)).Perm
      (waiting (payloads tr₁) ++ (payloads tr₂).flatMap candidatesOf) := List.perm_append_comm
  rw [hcomm.congr_left, List.perm_append_right_iff]

end Session

/-! ## 7. A session with two early messages -/

/-- A smallest session description, and an offer that carries it. -/
def sampleSdp : Bytes := ascii "v=0\r\no=- 1 1 IN IP4 127.0.0.1\r\ns=-\r\nt=0 0\r\n"

def sampleOffer : Bytes :=
  jsObject [(ascii "type", jsQuote ((ascii "offer").map UInt8.toNat)),
    (ascii "sdp", jsQuote (sampleSdp.map UInt8.toNat))]

def sampleCandidate (sdpMid : Bytes) : Bytes :=
  jsObject [(ascii "candidate", jsQuote []), (ascii "sdpMid", jsQuote (sdpMid.map UInt8.toNat)),
    (ascii "sdpMLineIndex", Json.intText 0)]

def sampleOfferJson : Json :=
  .obj [(ascii "type", .str (ascii "offer")), (ascii "sdp", .str sampleSdp)]

/-- The reader on the texts of the session, and the descriptions and candidates in them. -/
def sampleEnv : Env where
  readJson text :=
    if text = sampleOffer then .ok (some sampleOfferJson)
    else if text = sampleCandidate (ascii "0") then
      .ok (some (.obj [(ascii "candidate", .str []), (ascii "sdpMid", .str (ascii "0")),
        (ascii "sdpMLineIndex", .int 0)]))
    else if text = sampleCandidate (ascii "1") then
      .ok (some (.obj [(ascii "candidate", .str []), (ascii "sdpMid", .str (ascii "1")),
        (ascii "sdpMLineIndex", .int 0)]))
    else .ok none
  createSessionDescription type sdp := type = ascii "offer" && sdp = sampleSdp
  createIceCandidate _ _ sdp := sdp = []

def sampleCreated : Created := ⟨some 1, some 2⟩

theorem sampleOffer_valid :
    ValidOffer sampleEnv (ascii "SDP" ++ ascii "->" ++ sampleOffer) sampleCreated where
  framed := ⟨sampleOffer, sampleOfferJson, rfl, by simp [sampleEnv],
    .str (ascii "offer"), .str sampleSdp, sampleSdp, rfl, rfl, rfl, rfl, by decide +kernel⟩
  factory := rfl
  peerConnection := rfl

/-- A candidate message as a step of a run that has no peer connection yet. -/
def earlyStep (payload : Bytes) : Callback × List Call :=
  (.onSignalingMessage (iceMessage payload) sampleCreated, [])

/-- The session in which the candidate messages `early` come before the offer, and the
candidate `applied` is what `OnSuccess` finds waiting. -/
def sampleSession (early : List Bytes) (sdpMid : Bytes) : List (Callback × List Call) :=
  session (early.map earlyStep) [] [] (ascii "SDP" ++ ascii "->" ++ sampleOffer) sampleCreated
    (ascii "answer") sampleSdp
    [.setRemoteDescription (ascii "offer") sampleSdp, .createAnswer]
    [.sendSignalingMessage (ascii "SDP->" ++ Observer.descriptionText (ascii "answer") sampleSdp),
      .setLocalDescription (ascii "answer") sampleSdp, .addIceCandidate (sampleCandidate sdpMid),
      .applyCandidate sdpMid 0 []]

/-- The observer after such a session. -/
def sampleObserver (sdpMid : Bytes) : Observer :=
  { peerConnection := some 2, peerConnectionFactory := some 1, iceCandidateMsg := [],
    remoteIceCandidateMsg := sampleCandidate sdpMid,
    msgQueue := [ascii "SDP->" ++ Observer.descriptionText (ascii "answer") sampleSdp],
    localIceState := .new }

theorem earlyStep_quiet {early : List Bytes} : ∀ x ∈ early.map earlyStep, x.1.Quiet := by
  intro x hx
  obtain ⟨p, -, rfl⟩ := List.mem_map.mp hx
  exact .ice p sampleCreated

/-- One early message: its candidate is applied. -/
theorem applied_once_sample :
    Run (Observer.step sampleEnv) .new
        (sampleSession [sampleCandidate (ascii "0")] (ascii "0")) (sampleObserver (ascii "0")) ∧
      (added (events (sampleSession [sampleCandidate (ascii "0")] (ascii "0")))).Perm
        ((payloads ([earlyStep (sampleCandidate (ascii "0"))] ++ [] ++ [])).flatMap
          candidatesOf) := by
  have hrun : Run (Observer.step sampleEnv) .new
      (sampleSession [sampleCandidate (ascii "0")] (ascii "0")) (sampleObserver (ascii "0")) :=
    run_of_runLabels ((sampleSession [sampleCandidate (ascii "0")] (ascii "0")).map Prod.fst)
      (by decide +kernel)
  refine ⟨hrun,
    (applied_once_iff earlyStep_quiet (by simp) (by simp) sampleOffer_valid hrun).mpr ?_⟩
  exact .inr ⟨sampleCandidate (ascii "0"), by decide +kernel, by decide +kernel⟩

/-- Two early messages: the first is overwritten, and its candidate is never applied. -/
theorem early_candidate_lost :
    ValidOffer sampleEnv (ascii "SDP" ++ ascii "->" ++ sampleOffer) sampleCreated ∧
      Run (Observer.step sampleEnv) .new
        (sampleSession [sampleCandidate (ascii "0"), sampleCandidate (ascii "1")] (ascii "1"))
        (sampleObserver (ascii "1")) ∧
      ¬ (added (events
          (sampleSession [sampleCandidate (ascii "0"), sampleCandidate (ascii "1")]
            (ascii "1")))).Perm
        ((payloads [earlyStep (sampleCandidate (ascii "0")),
          earlyStep (sampleCandidate (ascii "1"))]).flatMap candidatesOf) := by
  refine ⟨sampleOffer_valid, ?_, fun h => absurd h.length_eq (by decide +kernel)⟩
  exact run_of_runLabels
    ((sampleSession [sampleCandidate (ascii "0"), sampleCandidate (ascii "1")]
      (ascii "1")).map Prod.fst) (by decide +kernel)

end Reflector.Signaling
