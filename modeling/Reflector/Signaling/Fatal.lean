/-
# Messages that end the process

Nothing catches what a handler throws, so a message that makes `onSignalingMessage` throw ends the
server, for all of its clients.  `Kills` names the three kinds of such messages by what stands in
them: the empty message, a description that the handler cannot read, and candidates one of which it
cannot read.  `kills_iff` is that there are no others: a message kills exactly when there is an
observer that it makes throw.

Candidates that come before the peer connection are not read at once.  They wait in the observer,
and what waits there is the payload of a message (`remote_of_run`), so a callback of WebRTC that
throws does it for a message that kills (`call_returns`).

What the browser makes of an offer or of candidates does not kill (`not_kills_offer`,
`not_kills_batch`).  A payload that nests too deep for the reader does, and so does one that begins
with a single quote which the reader takes for a comment: under either command, whatever state the
observer is in and whatever follows (`fatal_payload`).
-/
import Reflector.Jsoncpp.Faults
import Reflector.Signaling.Delivered

namespace Reflector.Signaling

open Base Base.Grammar Jsoncpp

/-! ## 1. Why a message can kill -/

/-- A payload that a description message returns from: the reader does, and what it reads is shaped
like a description. -/
def Describable (env : Env) (payload : Bytes) : Prop :=
  ∃ doc, env.readJson payload = .ok doc ∧ ∀ j, doc = some j → j.SdpShaped

/-- Why a message ends the process. -/
inductive Kills (env : Env) (message : Bytes) : Prop
  | empty (hnil : message = [])
  | sdp {payload : Bytes} (hsplit : splitMessage message = .ok (ascii "SDP", payload))
      (h : ¬ Describable env payload)
  | ice {payload iceStr : Bytes} (hsplit : splitMessage message = .ok (ascii "ICE", payload))
      (hpiece : iceStr ∈ pieces Observer.separator payload) (h : ¬ Readable env iceStr)

section

variable {env : Env} {o o' : Observer} {cmd payload message : Bytes} {created : Created}
  {calls : List Call}

/-- A message is a command and a payload that is a part of it, or is empty. -/
theorem splitMessage_ends (hsize : message.length < 2 ^ 31) :
    Ends (fun e => e = .outOfRange ∧ message = []) (fun x => x.2 <:+: message)
      (splitMessage message) := by
  by_cases harrow : ascii "->" <:+: message
  · cases hcut : message.dropInfix? (ascii "->") with
    | none => exact absurd harrow (dropInfix?_none_iff.mp hcut)
    | some x =>
      obtain ⟨cmd, payload⟩ := x
      have heq := (dropInfix?_iff.mp hcut).1
      have hcmd := not_infix_of_dropInfix? (by decide) hcut
      rw [heq, splitMessage_framed hcmd (by
        rw [← heq]
        exact Nat.lt_of_lt_of_le hsize (by decide))]
      exact (List.suffix_append _ _).isInfix
  · rw [splitMessage_unframed harrow]
    split
    · exact ⟨rfl, ‹_›⟩
    · exact (List.drop_suffix 1 message).isInfix

theorem length_payload (hsize : message.length < 2 ^ 31)
    (hsplit : splitMessage message = .ok (cmd, payload)) : payload.length < 2 ^ 31 :=
  Nat.lt_of_le_of_lt ((splitMessage_ends hsize).of_ok hsplit).length_le hsize

/-- The empty message is the only one that is not split. -/
theorem splitMessage_returns_iff (hsize : message.length < 2 ^ 31) :
    (∃ x, splitMessage message = .ok x) ↔ message ≠ [] := by
  constructor
  · rintro ⟨x, hx⟩ rfl
    rw [splitMessage_unframed (by decide), if_pos rfl] at hx
    exact absurd hx (by simp)
  · intro hne
    exact ((splitMessage_ends hsize).mono (fun _ he => hne he.2) fun _ h => h).returns.imp
      fun _ h => h.1

/-- What is not returned from is thrown out of. -/
theorem not_returns_iff {α : Type} {x : Except Raise α} :
    (¬ ∃ r, x = .ok r) ↔ ∃ e, x = .error e := by
  cases x <;> simp

/-! ## 2. What the handler returns from -/

theorem onCommand_sdp (env : Env) (o : Observer) (payload : Bytes) (created : Created) :
    o.onCommand env (ascii "SDP") payload created
      = o.onSignalingMessage env (ascii "SDP" ++ ascii "->" ++ payload) created :=
  (Observer.onSignalingMessage_framed env o payload created (by decide) (by decide)).symm

theorem onCommand_sdp_returns_iff :
    (∃ r, o.onCommand env (ascii "SDP") payload created = .ok r) ↔ Describable env payload := by
  rw [onCommand_sdp, onSignalingMessage_sdp]
  unfold Describable
  cases env.readJson payload with
  | error e => simp
  | ok doc =>
    cases doc with
    | none => simp
    | some j =>
      simp only [ok_bind, Except.ok.injEq, exists_eq_left', Option.some.injEq, forall_eq',
        ← readDescription_returns_iff, bind_eq_ok]
      constructor
      · rintro ⟨r, x, hx, -⟩
        exact ⟨x, hx⟩
      · rintro ⟨x, hx⟩
        exact ⟨_, x, hx, rfl⟩

/-- Without a peer connection the candidates are kept as they are. -/
theorem onCommand_ice_returns_iff (hsize : payload.length < 2 ^ 31) :
    (∃ r, o.onCommand env (ascii "ICE") payload created = .ok r) ↔
      (o.peerConnection.isSome →
        ∀ iceStr ∈ pieces Observer.separator payload, Readable env iceStr) := by
  rw [Observer.onCommand, if_neg (by decide), if_pos rfl]
  cases hpc : o.peerConnection with
  | none => simp
  | some pc =>
    have hsome : o.peerConnection.isSome := by rw [hpc, Option.isSome_some]
    rw [← addCandidates_returns_iff env hsome hsize]
    simp only [bind_eq_ok, Option.isSome_some, forall_const]
    constructor
    · rintro ⟨r, calls, hcalls, -⟩
      exact ⟨calls, hcalls⟩
    · rintro ⟨calls, hcalls⟩
      exact ⟨_, calls, hcalls, rfl⟩

/-- Under an unknown command nothing is read. -/
theorem onCommand_returns_iff (hsize : payload.length < 2 ^ 31) :
    (∃ r, o.onCommand env cmd payload created = .ok r) ↔
      (cmd = ascii "SDP" → Describable env payload) ∧
      (cmd = ascii "ICE" → o.peerConnection.isSome →
        ∀ iceStr ∈ pieces Observer.separator payload, Readable env iceStr) := by
  by_cases hsdp : cmd = ascii "SDP"
  · subst hsdp
    rw [onCommand_sdp_returns_iff]
    exact ⟨fun h => ⟨fun _ => h, fun heq => absurd heq (by decide)⟩, fun h => h.1 rfl⟩
  · by_cases hice : cmd = ascii "ICE"
    · subst hice
      rw [onCommand_ice_returns_iff hsize]
      exact ⟨fun h => ⟨fun heq => absurd heq hsdp, fun _ => h⟩, fun h => h.2 rfl⟩
    · rw [Observer.onCommand, if_neg hsdp, if_neg hice]
      exact iff_of_true ⟨_, rfl⟩ ⟨fun heq => absurd heq hsdp, fun heq => absurd heq hice⟩

/-- **The handler returns from a message exactly if** it can be split and its payload can be read
under its command. -/
theorem onSignalingMessage_returns_iff (hsize : message.length < 2 ^ 31) :
    (∃ r, o.onSignalingMessage env message created = .ok r) ↔
      ∃ cmd payload, splitMessage message = .ok (cmd, payload) ∧
        (cmd = ascii "SDP" → Describable env payload) ∧
        (cmd = ascii "ICE" → o.peerConnection.isSome →
          ∀ iceStr ∈ pieces Observer.separator payload, Readable env iceStr) := by
  rw [onSignalingMessage_split]
  simp only [bind_eq_ok]
  constructor
  · rintro ⟨r, ⟨cmd, payload⟩, hsplit, hr⟩
    have hpayload := length_payload hsize hsplit
    exact ⟨cmd, payload, hsplit, (onCommand_returns_iff hpayload).mp ⟨r, hr⟩⟩
  · rintro ⟨cmd, payload, hsplit, h⟩
    obtain ⟨r, hr⟩ := (onCommand_returns_iff (length_payload hsize hsplit)).mpr h
    exact ⟨r, (cmd, payload), hsplit, hr⟩

theorem returns_of_not_kills (h : ¬ Kills env message) (hsize : message.length < 2 ^ 31)
    (o : Observer) (created : Created) :
    ∃ r, o.onSignalingMessage env message created = .ok r := by
  obtain ⟨⟨cmd, payload⟩, hsplit⟩ :=
    (splitMessage_returns_iff hsize).mpr fun hnil => h (.empty hnil)
  refine (onSignalingMessage_returns_iff hsize).mpr ⟨cmd, payload, hsplit, ?_, ?_⟩
  · rintro rfl
    by_contra hdoc
    exact h (.sdp hsplit hdoc)
  · rintro rfl - iceStr hpiece
    by_contra hdoc
    exact h (.ice hsplit hpiece hdoc)

/-- **A message kills exactly when it makes an observer throw.** -/
theorem kills_iff (hsize : message.length < 2 ^ 31) :
    Kills env message ↔ ∃ o created e, Observer.onSignalingMessage env o message created
      = .error e := by
  constructor
  · intro h
    -- an observer with a peer connection reads everything at once
    refine ⟨connected, ⟨none, none⟩, not_returns_iff.mp fun hreturns => ?_⟩
    obtain ⟨cmd, payload, hsplit, hsdp, hice⟩ := (onSignalingMessage_returns_iff hsize).mp hreturns
    have hsame : ∀ {cmd' payload'}, splitMessage message = .ok (cmd', payload') →
        cmd = cmd' ∧ payload = payload' :=
      fun heq => Prod.mk.inj (Except.ok.inj (hsplit.symm.trans heq))
    cases h with
    | empty hnil => exact (splitMessage_returns_iff hsize).mp ⟨_, hsplit⟩ hnil
    | sdp heq h =>
      obtain ⟨rfl, rfl⟩ := hsame heq
      exact h (hsdp rfl)
    | ice heq hpiece h =>
      obtain ⟨rfl, rfl⟩ := hsame heq
      exact h (hice rfl rfl _ hpiece)
  · rintro ⟨o, created, e, he⟩
    by_contra h
    obtain ⟨r, hr⟩ := returns_of_not_kills h hsize o created
    exact absurd (hr.symm.trans he) (by simp)

/-! ## 3. What waits in the observer -/

/-- A description leaves the candidates that wait where they are. -/
theorem takeDescription_remote (type sdp : Bytes) (created : Created) :
    (takeDescription env o created type sdp).1.remoteIceCandidateMsg
      = o.remoteIceCandidateMsg := by
  unfold takeDescription Observer.initPeerConnection
  cases env.createSessionDescription type sdp
  · rfl
  · obtain ⟨factory, peerConnection⟩ := created
    cases factory with
    | none => rfl
    | some f => cases peerConnection <;> rfl

theorem onCommand_remote (h : o.onCommand env cmd payload created = .ok (o', calls)) :
    o'.remoteIceCandidateMsg = o.remoteIceCandidateMsg ∨
      cmd = ascii "ICE" ∧ o'.remoteIceCandidateMsg = payload := by
  by_cases hsdp : cmd = ascii "SDP"
  · rw [hsdp, onCommand_sdp, onSignalingMessage_sdp] at h
    obtain ⟨doc, -, h⟩ := bind_eq_ok.mp h
    cases doc with
    | none =>
      obtain ⟨rfl, -⟩ := Prod.mk.inj (Except.ok.inj h)
      exact .inl rfl
    | some j =>
      obtain ⟨x, -, h⟩ := bind_eq_ok.mp h
      have hremote := @takeDescription_remote env o x.1 x.2 created
      rw [Except.ok.inj h] at hremote
      exact .inl hremote
  · rw [Observer.onCommand, if_neg hsdp] at h
    split at h
    · rename_i hice
      split at h
      · obtain ⟨rfl, -⟩ := Prod.mk.inj (Except.ok.inj h)
        exact .inr ⟨hice, rfl⟩
      · obtain ⟨_, -, h⟩ := bind_eq_ok.mp h
        obtain ⟨rfl, -⟩ := Prod.mk.inj (Except.ok.inj h)
        exact .inl rfl
    · obtain ⟨rfl, -⟩ := Prod.mk.inj (Except.ok.inj h)
      exact .inl rfl

/-- **The candidates that wait are the payload of the message that brought them.** -/
theorem onSignalingMessage_remote
    (h : o.onSignalingMessage env message created = .ok (o', calls)) :
    o'.remoteIceCandidateMsg = o.remoteIceCandidateMsg ∨
      splitMessage message = .ok (ascii "ICE", o'.remoteIceCandidateMsg) := by
  rw [onSignalingMessage_split] at h
  obtain ⟨⟨cmd, payload⟩, hsplit, h⟩ := bind_eq_ok.mp h
  refine (onCommand_remote h).imp_right ?_
  rintro ⟨rfl, rfl⟩
  exact hsplit

/-- What waits in an observer came in a message. -/
theorem remote_of_run {tr : List (Callback × List Call)}
    (hrun : Run (Observer.step env) .new tr o) :
    o.remoteIceCandidateMsg = [] ∨ ∃ message created calls,
      (.onSignalingMessage message created, calls) ∈ tr ∧ message.length < 2 ^ 31 ∧
        splitMessage message = .ok (ascii "ICE", o.remoteIceCandidateMsg) := by
  refine hrun.invariant (fun tr o => o.remoteIceCandidateMsg = [] ∨ ∃ message created calls,
    (.onSignalingMessage message created, calls) ∈ tr ∧ message.length < 2 ^ 31 ∧
      splitMessage message = .ok (ascii "ICE", o.remoteIceCandidateMsg)) (.inl rfl) ?_
  intro tr o cb o' calls _ ih hstep
  obtain ⟨hrep, hcall⟩ := Observer.step_eq_some hstep
  -- what waits waits on
  have hkept : o'.remoteIceCandidateMsg = o.remoteIceCandidateMsg →
      o'.remoteIceCandidateMsg = [] ∨ ∃ message created calls',
        (.onSignalingMessage message created, calls') ∈ tr ++ [(cb, calls)] ∧
          message.length < 2 ^ 31 ∧
          splitMessage message = .ok (ascii "ICE", o'.remoteIceCandidateMsg) := by
    intro heq
    rw [heq]
    refine ih.imp_right ?_
    rintro ⟨message, created, calls', hin, h⟩
    exact ⟨message, created, calls', List.mem_append_left _ hin, h⟩
  cases cb with
  | onSignalingMessage message created =>
    rcases onSignalingMessage_remote hcall with heq | hsplit
    · exact hkept heq
    · exact .inr ⟨message, created, calls, List.mem_append_right _ List.mem_cons_self, hrep, hsplit⟩
  | onSuccess type sdp =>
    rw [Observer.call, Observer.onSuccess] at hcall
    split at hcall
    · exact absurd hcall (by simp)
    · obtain ⟨_, -, hcall⟩ := bind_eq_ok.mp hcall
      obtain ⟨rfl, -⟩ := Prod.mk.inj (Except.ok.inj hcall)
      exact hkept rfl
  | onIceCandidate sdpMid sdpMLineIndex sdp =>
    obtain ⟨rfl, -⟩ := Prod.mk.inj (Except.ok.inj hcall)
    refine hkept ?_
    cases sdp with
    | none => rfl
    | some sdp =>
      unfold Observer.onIceCandidate
      dsimp only
      split <;> rfl
  | onIceGatheringChange state =>
    obtain ⟨rfl, -⟩ := Prod.mk.inj (Except.ok.inj hcall)
    cases state <;> exact hkept rfl
  | onIceConnectionChange state =>
    obtain ⟨rfl, -⟩ := Prod.mk.inj (Except.ok.inj hcall)
    exact hkept rfl

/-- What WebRTC calls.  An answer comes from a peer connection. -/
def Callback.Due (o : Observer) : Callback → Prop
  | .onSignalingMessage _ _ => False
  | .onSuccess _ _ => o.peerConnection.isSome
  | _ => True

/-- **A callback returns if the candidates that wait can be read**; the other callbacks but the
answer read nothing. -/
theorem call_returns {cb : Callback} (hdue : cb.Due o)
    (hsize : o.remoteIceCandidateMsg.length < 2 ^ 31)
    (hread : o.remoteIceCandidateMsg ≠ [] →
      ∀ iceStr ∈ pieces Observer.separator o.remoteIceCandidateMsg, Readable env iceStr) :
    ∃ r, o.call env cb = .ok r := by
  cases cb with
  | onSignalingMessage => exact absurd hdue id
  | onSuccess type sdp =>
    obtain ⟨pc, hpc⟩ := Option.isSome_iff_exists.mp hdue
    have hcalls : ∀ message, ∃ calls, (if o.remoteIceCandidateMsg = [] then .ok []
        else (o.sendSignalingMessage message).addCandidates env o.remoteIceCandidateMsg)
          = Except.ok calls := by
      intro message
      split
      · exact ⟨[], rfl⟩
      · rename_i hne
        exact (addCandidates_returns_iff env hdue hsize).mpr (hread hne)
    obtain ⟨calls, hcalls⟩ := hcalls (ascii "SDP->" ++ Observer.descriptionText type sdp)
    rw [Observer.call, Observer.onSuccess, hpc]
    exact ⟨_, bind_eq_ok.mpr ⟨calls, hcalls, rfl⟩⟩
  | onIceCandidate | onIceGatheringChange | onIceConnectionChange => exact ⟨_, rfl⟩

end

section

variable {sscanf : Bytes → Option (Bytes × ℚ)} {webrtc : Env} {o : Observer}

/-- The browser's offer does not kill, -/
theorem not_kills_offer {type sdp : JsString} (htype : ∀ c ∈ type, Scalar c)
    (hsdp : ∀ c ∈ sdp, Scalar c) (hlen : (browserDescription type sdp).length < 2 ^ 30) :
    ¬ Kills (jsonEnv sscanf webrtc) (ascii "SDP" ++ ascii "->" ++ browserDescription type sdp) := by
  have hsize : (ascii "SDP" ++ ascii "->" ++ browserDescription type sdp).length < 2 ^ 31 := by
    simp only [List.length_append, show (ascii "SDP").length = 3 from rfl,
      show (ascii "->").length = 2 from rfl]
    omega
  rw [kills_iff hsize]
  rintro ⟨o, created, e, he⟩
  rw [offer_taken sscanf webrtc htype hsdp hlen] at he
  exact absurd he (by simp)

/-- and nor do its candidates. -/
theorem not_kills_batch {b : Batch} (hsize : (browserMessage b.candidates).length < 2 ^ 31) :
    ¬ Kills (jsonEnv sscanf webrtc) (browserMessage b.candidates) := by
  have hpayload : b.payload.length < 2 ^ 31 := by
    rw [b.browserMessage_candidates, List.length_append] at hsize
    omega
  rw [kills_iff hsize]
  rintro ⟨o, created, e, he⟩
  cases hpc : o.peerConnection with
  | none =>
    rw [batch_waits sscanf webrtc hpc created] at he
    exact absurd he (by simp)
  | some pc =>
    rw [batch_applied sscanf webrtc (by rw [hpc, Option.isSome_some]) hpayload created] at he
    exact absurd he (by simp)

/-! ## 4. Payloads that kill -/

/-- The reader throws on it, whatever follows: it opens too many values, or a comment stands in
front of them that begins with a single quote. -/
inductive Poisoned : Bytes → Prop
  | nested {n : ℕ} {payload : Bytes} (hn : stackLimit < n) (h : Nested n payload) :
      Poisoned payload
  | quote {w rest : Bytes} {c : UInt8} (hw : JsonSpace w)
      (hcomment : (scanComment c rest).1 = true) : Poisoned (w ++ 0x27 :: c :: rest)

theorem Poisoned.ne_nil {payload : Bytes} (h : Poisoned payload) : payload ≠ [] := by
  cases h with
  | nested hn h =>
    cases h with
    | behind => exact absurd hn (Nat.not_lt_zero _)
    | opening hw ho ht =>
      obtain ⟨c, o', rfl, -⟩ := ho.head
      simp
  | quote => simp

theorem Poisoned.readJson {payload : Bytes} (h : Poisoned payload) :
    (jsonEnv sscanf webrtc).readJson payload = .error .json := by
  have hparse : ∃ e, parse sscanf payload = .error e ∧ raiseOf e = .json := by
    cases h with
    | nested hn h => exact ⟨_, parse_deep sscanf hn h, rfl⟩
    | quote hw hcomment => exact ⟨_, parse_quote sscanf hw hcomment, rfl⟩
  obtain ⟨e, hparse, he⟩ := hparse
  change (parse sscanf payload).mapError raiseOf = _
  rw [hparse]
  exact congrArg Except.error he

theorem Poisoned.addCandidates {payload : Bytes} (h : Poisoned payload)
    (hpc : o.peerConnection.isSome) (hsep : ¬ Observer.separator <:+: payload)
    (hsize : payload.length < 2 ^ 31) :
    o.addCandidates (jsonEnv sscanf webrtc) payload = .error .json := by
  rw [Observer.addCandidates_eq _ o hsize, pieces_of_notInfix hsep, Observer.addEach,
    addIceCandidate_some hpc, h.readJson]
  rfl

/-- **A poisoned payload kills the process**: as a description at once, and as a candidate at once
or with the answer that it waits for. -/
theorem fatal_payload {payload : Bytes} (h : Poisoned payload)
    (hsep : ¬ Observer.separator <:+: payload) (hsize : payload.length < 2 ^ 31) (o : Observer)
    (created : Created) :
    o.onSignalingMessage (jsonEnv sscanf webrtc) (ascii "SDP" ++ ascii "->" ++ payload) created
        = .error .json ∧
      (o.peerConnection.isSome → o.onSignalingMessage (jsonEnv sscanf webrtc)
        (ascii "ICE" ++ ascii "->" ++ payload) created = .error .json) ∧
      (o.peerConnection = none → ∃ o', o.onSignalingMessage (jsonEnv sscanf webrtc)
          (ascii "ICE" ++ ascii "->" ++ payload) created = .ok (o', []) ∧
        ∀ factory peerConnection type sdp, peerConnection.isSome →
          Observer.onSuccess (jsonEnv sscanf webrtc)
            { o' with peerConnectionFactory := factory, peerConnection := peerConnection } type sdp
              = .error .json) := by
  have hice := Observer.onSignalingMessage_framed (jsonEnv sscanf webrtc) o payload created
    (show (45 : UInt8) ∉ ascii "ICE" by decide) (by decide)
  refine ⟨?_, fun hpc => ?_, fun hpc => ?_⟩
  · rw [onSignalingMessage_sdp, h.readJson]
    rfl
  · have hadd : o.addCandidates (jsonEnv sscanf webrtc) payload = .error .json :=
      h.addCandidates hpc hsep hsize
    obtain ⟨pc, hpc⟩ := Option.isSome_iff_exists.mp hpc
    rw [hice, Observer.onCommand, if_neg (by decide), if_pos rfl, hpc]
    dsimp only
    rw [hadd]
    rfl
  · refine ⟨{ o with remoteIceCandidateMsg := payload }, ?_, ?_⟩
    · rw [hice, Observer.onCommand, if_neg (by decide), if_pos rfl, hpc]
    · intro factory peerConnection type sdp hsome
      obtain ⟨pc, rfl⟩ := Option.isSome_iff_exists.mp hsome
      unfold Observer.onSuccess
      dsimp only [Observer.sendSignalingMessage]
      rw [if_neg h.ne_nil, h.addCandidates rfl hsep hsize]
      rfl

end

/-- Two bytes. -/
theorem fatal_payload_sample :
    Observer.new.onSignalingMessage (jsonEnv noDouble eagerEnv)
        (ascii "SDP" ++ ascii "->" ++ ascii "'/") sampleCreated = .error .json :=
  (fatal_payload (show Poisoned ([] ++ 0x27 :: 0x2F :: []) from .quote jsonSpace_nil rfl)
    (by decide) (by decide) .new sampleCreated).1

end Reflector.Signaling
