/-
# Documents that cannot be used

A payload that is not JSON is logged and dropped.  A payload that IS JSON is read through
accessors that are partial: `operator[]` wants null or an object, `asString` wants anything but
an array or an object, `asInt` wants a number in range, a boolean or null.  Nothing catches what
they throw.  `survives_iff` says which documents the worker survives: those whose members have a
usable shape (`SdpShaped`, `CandidateShaped`), the candidates piece by piece.

A description can also be given up on without anything being thrown, at four points
(`Rejected`).  The first two leave the observer as it was.  The other two lie inside
`initPeerConnection`, behind an assignment, and leave it half changed; `kept_iff` says exactly when
they do not.
-/
import Reflector.Signaling.Dispatch

namespace Reflector.Signaling

open Base

/-! ## 1. Shapes -/

namespace Json

/-- `asString` has a text for it. -/
def Textual : Json → Prop
  | .null | .bool _ | .int _ | .real _ _ | .str _ => True
  | .arr _ | .obj _ => False

/-- `asInt` has a value for it. -/
def Integral : Json → Prop
  | .null | .bool _ => True
  | .int i => -2 ^ 31 ≤ i ∧ i < 2 ^ 31
  | .real _ q => -2 ^ 31 ≤ q ∧ q ≤ 2 ^ 31 - 1
  | .str _ | .arr _ | .obj _ => False

/-- `P` of the member under this name; an absent member is null. -/
def At (name : Bytes) (P : Json → Prop) : Json → Prop
  | .null => P .null
  | .obj members => P ((members.lookup name).getD .null)
  | .bool _ | .int _ | .real _ _ | .str _ | .arr _ => False

/-- A document that `onSignalingMessage` can take a description from. -/
def SdpShaped (j : Json) : Prop := j.At (ascii "type") Textual ∧ j.At (ascii "sdp") Textual

/-- A document that `addIceCandidate` can take a candidate from. -/
def CandidateShaped (j : Json) : Prop :=
  j.At (ascii "sdpMid") Textual ∧ j.At (ascii "sdpMLineIndex") Integral ∧
    j.At (ascii "candidate") Textual

theorem asString_returns_iff (j : Json) : (∃ s, j.asString = .ok s) ↔ j.Textual := by
  cases j <;> simp [asString, Textual]

theorem asInt_returns_iff (j : Json) : (∃ i, j.asInt = .ok i) ↔ j.Integral := by
  cases j with
  | int i =>
    simp only [asInt, Integral]
    split <;> simp_all
  | real text q =>
    simp only [asInt, Integral]
    split <;> simp_all
  | null | bool _ | str _ | arr _ | obj _ => simp [asInt, Integral]

/-- A member, converted: it is there exactly when the document has members and the member has
the shape. -/
theorem member_returns_iff {α : Type} {conv : Json → Except Raise α} {P : Json → Prop}
    (hconv : ∀ j : Json, (∃ a, conv j = .ok a) ↔ P j) (name : Bytes) (j : Json) :
    (∃ a, (j.member name >>= conv) = .ok a) ↔ j.At name P := by
  cases j with
  | null => exact hconv .null
  | obj members => exact hconv _
  | bool _ | int _ | real _ _ | str _ | arr _ => simp [member, At]

end Json

/-! ## 2. What the worker survives -/

/-- A text that `addIceCandidate` returns from: the reader does, and what it reads is shaped like
a candidate. -/
def Readable (env : Env) (iceStr : Bytes) : Prop :=
  ∃ doc, env.readJson iceStr = .ok doc ∧ ∀ j, doc = some j → j.CandidateShaped

theorem addIceCandidate_returns_iff (env : Env) {o : Observer} (hpc : o.peerConnection.isSome)
    (iceStr : Bytes) :
    (∃ calls, o.addIceCandidate env iceStr = .ok calls) ↔ Readable env iceStr := by
  obtain ⟨pc, hpc⟩ := Option.isSome_iff_exists.mp hpc
  unfold Observer.addIceCandidate Readable
  rw [hpc]
  cases hread : env.readJson iceStr with
  | error e => simp
  | ok doc =>
    cases doc with
    | none => simp
    | some j =>
      have hmid := Json.member_returns_iff Json.asString_returns_iff (ascii "sdpMid") j
      have hindex := Json.member_returns_iff Json.asInt_returns_iff (ascii "sdpMLineIndex") j
      have hsdp := Json.member_returns_iff Json.asString_returns_iff (ascii "candidate") j
      simp only [ok_bind, Except.ok.injEq, exists_eq_left', Option.some.injEq, forall_eq',
        Json.CandidateShaped, ← hmid, ← hindex, ← hsdp, bind_eq_ok]
      constructor
      · rintro ⟨calls, m₁, h₁, a₁, h₂, m₂, h₃, a₂, h₄, m₃, h₅, a₃, h₆, -⟩
        exact ⟨⟨a₁, m₁, h₁, h₂⟩, ⟨a₂, m₂, h₃, h₄⟩, a₃, m₃, h₅, h₆⟩
      · rintro ⟨⟨a₁, m₁, h₁, h₂⟩, ⟨a₂, m₂, h₃, h₄⟩, a₃, m₃, h₅, h₆⟩
        by_cases hvalid : env.createIceCandidate a₁ a₂ a₃
        · exact ⟨_, m₁, h₁, a₁, h₂, m₂, h₃, a₂, h₄, m₃, h₅, a₃, h₆, if_pos hvalid⟩
        · exact ⟨_, m₁, h₁, a₁, h₂, m₂, h₃, a₂, h₄, m₃, h₅, a₃, h₆, if_neg hvalid⟩

theorem addCandidates_returns_iff (env : Env) {o : Observer} (hpc : o.peerConnection.isSome)
    {payload : Bytes} (hsize : payload.length < 2 ^ 31) :
    (∃ calls, o.addCandidates env payload = .ok calls) ↔
      ∀ iceStr ∈ pieces Observer.separator payload, Readable env iceStr := by
  simp only [Observer.addCandidates_eq env o hsize, Observer.addEach_returns_iff,
    addIceCandidate_returns_iff env hpc]

/-- The description, as far as it is read before anything is decided. -/
def readDescription (j : Json) : Except Raise (Bytes × Bytes) := do
  let type ← (← j.member (ascii "type")).asString
  let sdp ← (← j.member (ascii "sdp")).asString
  .ok (type, sdp)

theorem readDescription_returns_iff (j : Json) :
    (∃ x, readDescription j = .ok x) ↔ j.SdpShaped := by
  have htype := Json.member_returns_iff Json.asString_returns_iff (ascii "type") j
  have hsdp := Json.member_returns_iff Json.asString_returns_iff (ascii "sdp") j
  simp only [readDescription, Json.SdpShaped, ← htype, ← hsdp, bind_eq_ok]
  constructor
  · rintro ⟨x, m₁, h₁, a₁, h₂, m₂, h₃, a₂, h₄, -⟩
    exact ⟨⟨a₁, m₁, h₁, h₂⟩, a₂, m₂, h₃, h₄⟩
  · rintro ⟨⟨a₁, m₁, h₁, h₂⟩, a₂, m₂, h₃, h₄⟩
    exact ⟨_, m₁, h₁, a₁, h₂, m₂, h₃, a₂, h₄, rfl⟩

/-- What follows once a description has been read. -/
def takeDescription (env : Env) (o : Observer) (created : Created) (type sdp : Bytes) :
    Observer × List Call :=
  if env.createSessionDescription type sdp then
    match o.initPeerConnection created with
    | (false, o) => (o, [])
    | (true, o) =>
      (o, .setRemoteDescription type sdp :: if type = ascii "offer" then [.createAnswer] else [])
  else (o, [])

/-- **A description message is read, and then taken.** -/
theorem onSignalingMessage_sdp (env : Env) (o : Observer) (payload : Bytes) (created : Created) :
    o.onSignalingMessage env (ascii "SDP" ++ ascii "->" ++ payload) created
      = env.readJson payload >>= fun doc =>
        match doc with
        | none => .ok (o, [])
        | some j => readDescription j >>= fun x => .ok (takeDescription env o created x.1 x.2) := by
  rw [Observer.onSignalingMessage_framed env o payload created (by decide) (by decide),
    Observer.onCommand, if_pos rfl]
  refine bind_congr fun doc => ?_
  cases doc with
  | none => rfl
  | some j =>
    simp only [readDescription, bind_assoc, ok_bind, takeDescription]
    refine bind_congr fun m₁ => bind_congr fun type => bind_congr fun m₂ => bind_congr fun sdp => ?_
    split
    · split <;> simp_all
    · rfl

/-- Both messages with this payload are handled without raising. -/
def Survives (env : Env) (o : Observer) (payload : Bytes) (created : Created) : Prop :=
  (∃ r, o.onSignalingMessage env (ascii "SDP" ++ ascii "->" ++ payload) created = .ok r) ∧
    (o.peerConnection.isSome →
      ∃ r, o.onSignalingMessage env (ascii "ICE" ++ ascii "->" ++ payload) created = .ok r)

/-- **The worker survives a document exactly when its members have the shapes it expects**, those
of a candidate in each piece of the payload. -/
theorem survives_iff (env : Env) (o : Observer) (payload : Bytes) (created : Created) (j : Json)
    (hread : env.readJson payload = .ok (some j)) (hsize : payload.length < 2 ^ 31) :
    Survives env o payload created ↔
      j.SdpShaped ∧ (o.peerConnection.isSome →
        ∀ iceStr ∈ pieces Observer.separator payload, Readable env iceStr) := by
  have hsdp : (∃ r, o.onSignalingMessage env (ascii "SDP" ++ ascii "->" ++ payload) created = .ok r)
      ↔ j.SdpShaped := by
    rw [onSignalingMessage_sdp, hread, ok_bind, ← readDescription_returns_iff]
    constructor
    · rintro ⟨r, hr⟩
      obtain ⟨x, hx, -⟩ := bind_eq_ok.mp hr
      exact ⟨x, hx⟩
    · rintro ⟨x, hx⟩
      exact ⟨_, bind_eq_ok.mpr ⟨x, hx, rfl⟩⟩
  have hice : o.peerConnection.isSome →
      ((∃ r, o.onSignalingMessage env (ascii "ICE" ++ ascii "->" ++ payload) created = .ok r) ↔
        ∀ iceStr ∈ pieces Observer.separator payload, Readable env iceStr) := by
    intro hpc
    rw [← addCandidates_returns_iff env hpc hsize,
      ← onSignalingMessage_loop env hpc payload created]
    simp only [map_eq_ok]
    constructor
    · rintro ⟨r, hr⟩
      exact ⟨r.2, r, hr, rfl⟩
    · rintro ⟨calls, r, hr, -⟩
      exact ⟨r, hr⟩
  exact and_congr hsdp (forall_congr' hice)

/-- A reader that knows one document; WebRTC takes any description in it and no candidate. -/
def documentEnv (text : Bytes) (j : Json) : Env where
  readJson t := if t = text then .ok (some j) else .ok none
  createSessionDescription _ _ := true
  createIceCandidate _ _ _ := false

/-- An observer in a call. -/
def established : Observer :=
  { Observer.new with peerConnection := some 2, peerConnectionFactory := some 1 }

/-- An empty object is survived: every member is absent, and null converts to anything. -/
theorem survives_empty_object :
    Survives (documentEnv (ascii "\x7b\x7d") (.obj [])) established (ascii "\x7b\x7d")
      ⟨some 3, some 4⟩ := by
  refine (survives_iff _ established (ascii "\x7b\x7d") ⟨some 3, some 4⟩ (.obj []) rfl
    (by decide)).mpr ⟨⟨trivial, trivial⟩, fun _ iceStr hmem => ?_⟩
  obtain rfl : iceStr = ascii "\x7b\x7d" := by
    rw [pieces_of_notInfix (by decide)] at hmem
    exact List.mem_singleton.mp hmem
  refine ⟨some (.obj []), rfl, ?_⟩
  rintro j hj
  obtain rfl := Option.some.inj hj
  exact ⟨trivial, trivial, trivial⟩

/-- An empty array is not. -/
theorem empty_array_raises :
    ¬ Survives (documentEnv (ascii "[]") (.arr [])) established (ascii "[]") ⟨some 3, some 4⟩ ∧
      established.onSignalingMessage (documentEnv (ascii "[]") (.arr []))
        (ascii "SDP" ++ ascii "->" ++ ascii "[]") ⟨some 3, some 4⟩ = .error .json ∧
      established.onSignalingMessage (documentEnv (ascii "[]") (.arr []))
        (ascii "ICE" ++ ascii "->" ++ ascii "[]") ⟨some 3, some 4⟩ = .error .json := by
  have hsdp : established.onSignalingMessage (documentEnv (ascii "[]") (.arr []))
      (ascii "SDP" ++ ascii "->" ++ ascii "[]") ⟨some 3, some 4⟩ = .error .json := by
    rw [onSignalingMessage_sdp]
    rfl
  refine ⟨?_, hsdp, ?_⟩
  · rintro ⟨⟨r, hr⟩, -⟩
    rw [hsdp] at hr
    exact absurd hr (by simp)
  · rw [Observer.onSignalingMessage_framed _ _ _ _ (by decide) (by decide)]
    rfl

/-! ## 3. A description that is given up on -/

/-- The payload is no document, or WebRTC makes no description of it. -/
def Undescribed (env : Env) (payload : Bytes) : Prop :=
  env.readJson payload = .ok none ∨
    ∃ j type sdp, env.readJson payload = .ok (some j) ∧ readDescription j = .ok (type, sdp) ∧
      env.createSessionDescription type sdp = false

/-- The four points at which `onSignalingMessage` returns early. -/
inductive Rejected (env : Env) (payload : Bytes) (created : Created) : Prop
  | notJson (hread : env.readJson payload = .ok none)
  | invalid {j : Json} {type sdp : Bytes} (hread : env.readJson payload = .ok (some j))
      (hdesc : readDescription j = .ok (type, sdp))
      (hinvalid : env.createSessionDescription type sdp = false)
  | noFactory {j : Json} {type sdp : Bytes} (hread : env.readJson payload = .ok (some j))
      (hdesc : readDescription j = .ok (type, sdp))
      (hvalid : env.createSessionDescription type sdp = true) (hnone : created.factory = none)
  | noPeerConnection {j : Json} {type sdp : Bytes} (hread : env.readJson payload = .ok (some j))
      (hdesc : readDescription j = .ok (type, sdp))
      (hvalid : env.createSessionDescription type sdp = true) (hsome : created.factory.isSome)
      (hnone : created.peerConnection = none)

/-- The five fields that make up a session. -/
def SameSession (o o' : Observer) : Prop :=
  o'.peerConnection = o.peerConnection ∧ o'.peerConnectionFactory = o.peerConnectionFactory ∧
    o'.iceCandidateMsg = o.iceCandidateMsg ∧
    o'.remoteIceCandidateMsg = o.remoteIceCandidateMsg ∧ o'.msgQueue = o.msgQueue

/-- The call returns, and the session is what it was. -/
def Kept (env : Env) (o : Observer) (payload : Bytes) (created : Created) : Prop :=
  ∃ o' calls, o.onSignalingMessage env (ascii "SDP" ++ ascii "->" ++ payload) created
    = .ok (o', calls) ∧ SameSession o o'

theorem kept_of_undescribed {env : Env} {payload : Bytes} (h : Undescribed env payload)
    (o : Observer) (created : Created) : Kept env o payload created := by
  refine ⟨o, [], ?_, rfl, rfl, rfl, rfl, rfl⟩
  rw [onSignalingMessage_sdp]
  rcases h with hread | ⟨j, type, sdp, hread, hdesc, hinvalid⟩
  · rw [hread]
    rfl
  · rw [hread, ok_bind]
    simp only [hdesc, ok_bind, takeDescription, hinvalid]
    rfl

theorem not_undescribed {env : Env} {payload : Bytes} {j : Json} {type sdp : Bytes}
    (hread : env.readJson payload = .ok (some j)) (hdesc : readDescription j = .ok (type, sdp))
    (hvalid : env.createSessionDescription type sdp = true) : ¬ Undescribed env payload := by
  rintro (hnone | ⟨j', type', sdp', hread', hdesc', hinvalid⟩)
  · rw [hread] at hnone
    exact absurd hnone (by simp)
  · obtain rfl : j = j' := by simpa [hread] using hread'
    obtain ⟨rfl, rfl⟩ : type = type' ∧ sdp = sdp' := by simpa [hdesc] using hdesc'
    rw [hvalid] at hinvalid
    exact absurd hinvalid (by simp)

/-- A description that is taken, as far as `initPeerConnection`. -/
theorem kept_of_described {env : Env} {payload : Bytes} {j : Json} {type sdp : Bytes}
    (hread : env.readJson payload = .ok (some j)) (hdesc : readDescription j = .ok (type, sdp))
    (hvalid : env.createSessionDescription type sdp = true) (o : Observer) (created : Created) :
    Kept env o payload created ↔ SameSession o (o.initPeerConnection created).2 := by
  have houtcome : o.onSignalingMessage env (ascii "SDP" ++ ascii "->" ++ payload) created
      = .ok (takeDescription env o created type sdp) := by
    rw [onSignalingMessage_sdp, hread, ok_bind]
    simp only [hdesc, ok_bind]
  have hfst : (takeDescription env o created type sdp).1 = (o.initPeerConnection created).2 := by
    rw [takeDescription, if_pos hvalid]
    split
    · rename_i hinit
      rw [hinit]
    · rename_i hinit
      rw [hinit]
  rw [← hfst]
  unfold Kept
  rw [houtcome]
  constructor
  · rintro ⟨o', calls, heq, hsame⟩
    rwa [Except.ok.inj heq]
  · intro hsame
    exact ⟨_, _, rfl, hsame⟩

/-- **A rejected description leaves the session as it was** exactly when it is the description
that is rejected, or what `initPeerConnection` assigned before it failed was there already: the
same factory, and no peer connection if that was assigned too. -/
theorem kept_iff (env : Env) (o : Observer) (payload : Bytes) (created : Created)
    (h : Rejected env payload created) :
    Kept env o payload created ↔
      Undescribed env payload ∨
        (o.peerConnectionFactory = created.factory ∧
          (created.factory.isSome → o.peerConnection = none)) := by
  cases h with
  | notJson hread =>
    have hun : Undescribed env payload := .inl hread
    exact iff_of_true (kept_of_undescribed hun o created) (.inl hun)
  | invalid hread hdesc hinvalid =>
    have hun : Undescribed env payload := .inr ⟨_, _, _, hread, hdesc, hinvalid⟩
    exact iff_of_true (kept_of_undescribed hun o created) (.inl hun)
  | noFactory hread hdesc hvalid hnone =>
    rw [kept_of_described hread hdesc hvalid, or_iff_right (not_undescribed hread hdesc hvalid)]
    simp [SameSession, Observer.initPeerConnection, hnone, eq_comm]
  | noPeerConnection hread hdesc hvalid hsome hnone =>
    rw [kept_of_described hread hdesc hvalid, or_iff_right (not_undescribed hread hdesc hvalid)]
    obtain ⟨f, hf⟩ := Option.isSome_iff_exists.mp hsome
    simp [SameSession, Observer.initPeerConnection, hf, hnone, eq_comm, and_comm]

theorem sampleOffer_rejected : Rejected sampleEnv sampleOffer ⟨none, none⟩ :=
  have hread : sampleEnv.readJson sampleOffer = .ok (some sampleOfferJson) := by simp [sampleEnv]
  have hdesc : readDescription sampleOfferJson = .ok (ascii "offer", sampleSdp) := rfl
  .noFactory hread hdesc (by decide +kernel) rfl

/-- An observer without a session has none to lose. -/
theorem kept_without_session :
    Rejected sampleEnv sampleOffer ⟨none, none⟩ ∧ Kept sampleEnv .new sampleOffer ⟨none, none⟩ :=
  ⟨sampleOffer_rejected,
    (kept_iff sampleEnv .new sampleOffer ⟨none, none⟩ sampleOffer_rejected).mpr
      (.inr ⟨rfl, fun h => absurd h (by decide)⟩)⟩

/-- In a call, a factory that cannot be created leaves the peer connection without one. -/
theorem half_changed_session :
    Rejected sampleEnv sampleOffer ⟨none, none⟩ ∧
      established.onSignalingMessage sampleEnv (ascii "SDP" ++ ascii "->" ++ sampleOffer)
          ⟨none, none⟩
        = .ok ({ established with peerConnectionFactory := none }, []) ∧
      ¬ Kept sampleEnv established sampleOffer ⟨none, none⟩ := by
  have hread : sampleEnv.readJson sampleOffer = .ok (some sampleOfferJson) := by simp [sampleEnv]
  have hdesc : readDescription sampleOfferJson = .ok (ascii "offer", sampleSdp) := rfl
  have hvalid : sampleEnv.createSessionDescription (ascii "offer") sampleSdp = true := by
    decide +kernel
  refine ⟨sampleOffer_rejected, ?_, fun h => ?_⟩
  · rw [onSignalingMessage_sdp, hread, ok_bind]
    simp only [hdesc, ok_bind, takeDescription, hvalid]
    rfl
  · have hsame := (kept_of_described hread hdesc hvalid established ⟨none, none⟩).mp h
    exact absurd hsame.2.1 (by decide)

end Reflector.Signaling
