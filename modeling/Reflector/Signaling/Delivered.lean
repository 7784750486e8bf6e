/-
# What the browser's messages bring

The observer with the reader of jsoncpp in it (`jsonEnv`), where `Observer.lean` has a parameter.
What `JSON.stringify` makes of an offer is read as the offer, and what it makes of candidates as the
candidates, as long as no string holds a lone surrogate; the strings come out in UTF-8.

A message of candidates that comes through whole is a `Batch`: no string of it holds a lone
surrogate or the separator, which the server would cut at, and every index is a 32-bit `int`.
`candidates_applied` says what becomes of one, and `asked_of_session` what the peer connection is
asked for in a whole session of batches: the browser's SDP, and the candidates of the batches in
order.  A batch that comes before the offer waits for its answer, and only the last one does.
-/
import Reflector.Jsoncpp.Writer
import Reflector.Signaling.Documents
import Reflector.Signaling.Framing
import Reflector.Signaling.Rounds

namespace Reflector.Signaling

open Base Base.Grammar Jsoncpp

/-! ## 1. The reader in its place -/

/-- What its caller sees of a fault.  The last one does not happen. -/
def raiseOf : Fault → Raise
  | .runtimeError | .logicError => .json
  | .outOfBounds => .outOfBounds
  | .outOfFuel => .alloc

/-- What WebRTC accepts comes from `webrtc`. -/
def jsonEnv (sscanf : Bytes → Option (Bytes × ℚ)) (webrtc : Env) : Env :=
  { webrtc with readJson := fun text => (parse sscanf text).mapError raiseOf }

theorem jsonEnv_readJson {sscanf : Bytes → Option (Bytes × ℚ)} {text : Bytes} {doc : Option Json}
    (h : parse sscanf text = .ok doc) (webrtc : Env) :
    (jsonEnv sscanf webrtc).readJson text = .ok doc := by
  change (parse sscanf text).mapError raiseOf = _
  rw [h]
  rfl

/-! ## 2. The browser's texts -/

/-- A character as `JSON.stringify` spells it. -/
theorem chars_jsEscapeChar {c : ℕ} (hc : Scalar c) {t : Bytes} {s : List ℕ}
    (ht : Chars utf8 t s) : Chars utf8 (jsEscapeChar c ++ t) (c :: s) := by
  unfold jsEscapeChar
  split
  case h_1 e he =>
    obtain ⟨b, rfl, hb⟩ := shortEscape_cases he
    exact .escape b c hb ht
  case h_2 hshort =>
    split
    case isTrue hcontrol =>
      have hsmall : c < 0x10000 := by omega
      exact .unicode c (hex4_toHex16Bit hsmall) hc ht
    case isFalse hplain =>
      have hne : c ≠ 0x22 ∧ c ≠ 0x5C := by
        constructor <;> rintro rfl <;> exact absurd hshort (by decide)
      exact .plain c ⟨hc, by omega, hne⟩ ht

theorem stringText_jsQuote {s : JsString} (h : ∀ c ∈ s, Scalar c) :
    StringText utf8 (jsQuote s) s := by
  have hall : Chars utf8 (s.flatMap jsEscapeChar) s := by
    induction s with
    | nil => exact .nil
    | cons c s ih =>
      obtain ⟨hc, hs⟩ := List.forall_mem_cons.mp h
      exact chars_jsEscapeChar hc (ih hs)
  exact ⟨_, hall, rfl⟩

/-- A string is a text at every depth. -/
theorem text_string {d : ℕ} {t : Bytes} {s : List ℕ} (h : StringText utf8 t s) :
    Text utf8 d t (.str s) :=
  .of_node (.str h)

theorem text_number {d : ℕ} {t : Bytes} (h : NumberText t) : Text utf8 d t (.num t) :=
  .of_node (.num h)

/-- A member that `JSON.stringify` writes, and what it means. -/
def Stringified (d : ℕ) (m : Bytes × Bytes) (v : List ℕ × Value) : Prop :=
  StringText utf8 (0x22 :: m.1 ++ [0x22]) v.1 ∧ Text utf8 d m.2 v.2

theorem members_stringified {d : ℕ} {members : List (Bytes × Bytes)}
    {values : List (List ℕ × Value)} (h : List.Forall₂ (Stringified d) members values) :
    ∀ {m : Bytes × Bytes} {v : List ℕ × Value}, Stringified d m v →
      Members utf8 (Text utf8 d) ((ascii ",").intercalate
        ((m :: members).map fun m => ascii "\"" ++ m.1 ++ ascii "\":" ++ m.2)) (v :: values) := by
  have hmember : ∀ {m : Bytes × Bytes} {v : List ℕ × Value}, Stringified d m v →
      Member utf8 (Text utf8 d) (ascii "\"" ++ m.1 ++ ascii "\":" ++ m.2) v := by
    intro m v ⟨hname, hvalue⟩
    have := Member.mk jsonSpace_nil hname jsonSpace_nil jsonSpace_nil hvalue jsonSpace_nil
    simpa [ascii] using this
  induction h with
  | nil =>
    intro m v hm
    have := Members.last (hmember hm)
    simpa [List.intercalate] using this
  | cons hm' _ ih =>
    intro m v hm
    have := Members.more (hmember hm) (ih hm')
    simpa [List.intercalate, ascii] using this

/-- **What `JSON.stringify` makes of an object means the object.** -/
theorem text_jsObject {d : ℕ} {m : Bytes × Bytes} {v : List ℕ × Value}
    {members : List (Bytes × Bytes)} {values : List (List ℕ × Value)}
    (hm : Stringified d m v) (h : List.Forall₂ (Stringified d) members values) :
    Text utf8 (d + 1) (jsObject (m :: members)) (.obj (v :: values)) :=
  Node.obj (members_stringified h hm)

/-- A member whose name is spelled as it is. -/
theorem stringified {d : ℕ} (name : Bytes) {t : Bytes} {v : Value}
    (hplain : valueToQuotedString name = 0x22 :: name ++ [0x22]) (hname : Spellable name)
    (ht : Text utf8 d t v) : Stringified d (name, t) (codepoints name, v) :=
  ⟨hplain ▸ stringText_quoted hname, ht⟩

instance (s : Bytes) : Decidable (Spellable s) :=
  inferInstanceAs (Decidable (∀ c ∈ codepoints s, Scalar c))

/-! ## 3. From the browser -/

section

variable (sscanf : Bytes → Option (Bytes × ℚ)) (webrtc : Env)

/-- A description as the reader has it. -/
def descriptionJson (type sdp : Bytes) : Json :=
  .obj [(ascii "sdp", .str sdp), (ascii "type", .str type)]

/-- A candidate as the reader has it. -/
def candidateJson (c : Candidate Bytes) : Json :=
  .obj [(ascii "candidate", .str c.candidate), (ascii "sdpMLineIndex", .int c.sdpMLineIndex),
    (ascii "sdpMid", .str c.sdpMid)]

theorem parse_browserDescription {type sdp : JsString} (htype : ∀ c ∈ type, Scalar c)
    (hsdp : ∀ c ∈ sdp, Scalar c) (hlen : (browserDescription type sdp).length < 2 ^ 30) :
    parse sscanf (browserDescription type sdp)
      = .ok (some (descriptionJson (type.flatMap utf8) (sdp.flatMap utf8))) := by
  have htext : Text utf8 1 (browserDescription type sdp)
      (.obj [(codepoints (ascii "type"), .str type), (codepoints (ascii "sdp"), .str sdp)]) :=
    text_jsObject
      (stringified _ (by decide) (by decide) (text_string (stringText_jsQuote htype)))
      (.cons (stringified _ (by decide) (by decide) (text_string (stringText_jsQuote hsdp))) .nil)
  have hvalue : ofValue sscanf
      (.obj [(codepoints (ascii "type"), .str type), (codepoints (ascii "sdp"), .str sdp)])
      = some (descriptionJson (type.flatMap utf8) (sdp.flatMap utf8)) := rfl
  have := parse_text (by decide) htext hvalue jsonSpace_nil jsonSpace_nil (by simpa using hlen)
  simpa using this

/-- The browser's candidate, in the bytes it is sent in. -/
def Candidate.encoded (c : Candidate JsString) : Candidate Bytes :=
  ⟨c.sdpMid.flatMap utf8, c.sdpMLineIndex, c.candidate.flatMap utf8⟩

/-- A candidate of whole characters, its index a 32-bit `int`, and its text short enough for the
reader. -/
structure Candidate.Sendable (c : Candidate JsString) : Prop where
  sdpMid : ∀ x ∈ c.sdpMid, Scalar x
  candidate : ∀ x ∈ c.candidate, Scalar x
  index : -2 ^ 31 ≤ c.sdpMLineIndex ∧ c.sdpMLineIndex < 2 ^ 31
  length : c.browserText.length < 2 ^ 30

theorem parse_browserText {c : Candidate JsString} (h : c.Sendable) :
    parse sscanf c.browserText = .ok (some (candidateJson c.encoded)) := by
  have htext : Text utf8 1 c.browserText
      (.obj [(codepoints (ascii "candidate"), .str c.candidate),
        (codepoints (ascii "sdpMid"), .str c.sdpMid),
        (codepoints (ascii "sdpMLineIndex"), .num (Json.intText c.sdpMLineIndex))]) :=
    text_jsObject
      (stringified _ (by decide) (by decide) (text_string (stringText_jsQuote h.candidate)))
      (.cons (stringified _ (by decide) (by decide) (text_string (stringText_jsQuote h.sdpMid)))
        (.cons (stringified _ (by decide) (by decide) (text_number (numberText_intText _))) .nil))
  have hvalue : ofValue sscanf
      (.obj [(codepoints (ascii "candidate"), .str c.candidate),
        (codepoints (ascii "sdpMid"), .str c.sdpMid),
        (codepoints (ascii "sdpMLineIndex"), .num (Json.intText c.sdpMLineIndex))])
      = some (candidateJson c.encoded) := by
    have hrange := h.index
    have hindex := ofNumber_intText sscanf (i := c.sdpMLineIndex) (by omega) (by omega)
    simp only [ofValue, ofMembers, hindex]
    rfl
  have := parse_text (by decide) htext hvalue jsonSpace_nil jsonSpace_nil (by simpa using h.length)
  simpa using this

/-- **An offer is taken as the browser wrote it**, its strings in UTF-8. -/
theorem offer_taken {type sdp : JsString} (htype : ∀ c ∈ type, Scalar c)
    (hsdp : ∀ c ∈ sdp, Scalar c) (hlen : (browserDescription type sdp).length < 2 ^ 30)
    (o : Observer) (created : Created) :
    o.onSignalingMessage (jsonEnv sscanf webrtc)
        (ascii "SDP" ++ ascii "->" ++ browserDescription type sdp) created
      = .ok (takeDescription webrtc o created (type.flatMap utf8) (sdp.flatMap utf8)) := by
  rw [onSignalingMessage_sdp,
    jsonEnv_readJson (parse_browserDescription sscanf htype hsdp hlen) webrtc, ok_bind]
  rfl

end

/-! ## 4. Batches of candidates -/

/-- What the browser puts into one message, if it comes through whole: no lone surrogates, indices
that fit `int`, texts that the reader takes (`sendable`), and no separator in a string (`clean`). -/
structure Batch where
  first : Candidate JsString
  rest : List (Candidate JsString)
  sendable : ∀ c ∈ first :: rest, c.Sendable
  clean : ∀ c ∈ first :: rest, ∀ s ∈ [c.candidate, c.sdpMid], ¬ separatorChars <:+: s

namespace Batch

def candidates (b : Batch) : List (Candidate JsString) := b.first :: b.rest

/-- What `browserMessage` puts behind `ICE->`. -/
def payload (b : Batch) : Bytes :=
  Observer.separator.intercalate (b.candidates.map Candidate.browserText)

theorem browserMessage_candidates (b : Batch) :
    browserMessage b.candidates = ascii "ICE->" ++ b.payload :=
  browserMessage_eq b.first b.rest

/-- **Its payload is cut into its texts.** -/
theorem candidatesOf_payload (b : Batch) :
    candidatesOf b.payload = b.candidates.map Candidate.browserText := by
  have hlast : ∀ t ∈ b.candidates.map Candidate.browserText, t.getLast? = some 125 := by
    intro t ht
    obtain ⟨c, -, rfl⟩ := List.mem_map.mp ht
    exact jsObject_getLast? _
  refine (pieces_separator_iff (by simp [candidates]) hlast).mpr ?_
  rw [List.forall_mem_map, ← separatorChars_bytes]
  intro c hc
  rw [infix_browserText separator_pattern]
  simpa using b.clean c hc

theorem payload_ne_nil (b : Batch) : b.payload ≠ [] := by
  intro h
  have hcut := b.candidatesOf_payload
  rw [h, candidatesOf, pieces_of_notInfix (by decide)] at hcut
  obtain ⟨htext, -⟩ := List.cons.inj hcut
  exact absurd (congrArg List.getLast? htext) (by
    rw [Candidate.browserText, jsObject_getLast?]
    simp)

end Batch

/-! ## 5. What is asked of the peer connection -/

/-- The candidates it is given. -/
def asked (calls : List Call) : List (Candidate Bytes) :=
  calls.filterMap fun
    | .applyCandidate sdpMid sdpMLineIndex sdp => some ⟨sdpMid, sdpMLineIndex, sdp⟩
    | _ => none

@[simp] theorem asked_append (a b : List Call) : asked (a ++ b) = asked a ++ asked b := by
  simp [asked]

/-- `CreateIceCandidate` takes it. -/
def Candidate.accepted (webrtc : Env) (c : Candidate Bytes) : Bool :=
  webrtc.createIceCandidate c.sdpMid c.sdpMLineIndex c.candidate

/-- The candidate in a text, as far as `addIceCandidate` reads it. -/
def readCandidate (j : Json) : Except Raise (Candidate Bytes) := do
  let sdpMid ← (← j.member (ascii "sdpMid")).asString
  let sdpMLineIndex ← (← j.member (ascii "sdpMLineIndex")).asInt
  let sdp ← (← j.member (ascii "candidate")).asString
  .ok ⟨sdpMid, sdpMLineIndex, sdp⟩

/-- What `addIceCandidate` does with what the reader gives it. -/
def addRead (env : Env) (iceStr : Bytes) : Option Json → Except Raise (List Call)
  | none => .ok [.addIceCandidate iceStr]
  | some j => readCandidate j >>= fun c => .ok (.addIceCandidate iceStr ::
      if c.accepted env then [.applyCandidate c.sdpMid c.sdpMLineIndex c.candidate] else [])

theorem addIceCandidate_some {env : Env} {o : Observer} (hpc : o.peerConnection.isSome)
    (iceStr : Bytes) :
    o.addIceCandidate env iceStr = env.readJson iceStr >>= addRead env iceStr := by
  obtain ⟨pc, hpc⟩ := Option.isSome_iff_exists.mp hpc
  unfold Observer.addIceCandidate
  rw [hpc]
  refine bind_congr fun doc => ?_
  cases doc with
  | none => rfl
  | some j =>
    simp only [addRead, readCandidate, bind_assoc, ok_bind]
    refine bind_congr fun m₁ => bind_congr fun sdpMid => bind_congr fun m₂ =>
      bind_congr fun sdpMLineIndex => bind_congr fun m₃ => bind_congr fun sdp => ?_
    have haccepted : Candidate.accepted env ⟨sdpMid, sdpMLineIndex, sdp⟩
        = env.createIceCandidate sdpMid sdpMLineIndex sdp := rfl
    rw [haccepted]
    cases env.createIceCandidate sdpMid sdpMLineIndex sdp <;> rfl

/-- The candidate that a text makes `addIceCandidate` ask for. -/
def candidateIn (env : Env) (iceStr : Bytes) : Option (Candidate Bytes) :=
  match env.readJson iceStr with
  | .ok (some j) => (readCandidate j).toOption.filter (Candidate.accepted env)
  | _ => none

section

variable {env : Env} {o o' : Observer}

theorem asked_addIceCandidate (hpc : o.peerConnection.isSome) {iceStr : Bytes} {calls : List Call}
    (h : o.addIceCandidate env iceStr = .ok calls) :
    asked calls = (candidateIn env iceStr).toList := by
  rw [addIceCandidate_some hpc] at h
  obtain ⟨doc, hread, h⟩ := bind_eq_ok.mp h
  unfold candidateIn
  rw [hread]
  cases doc with
  | none =>
    obtain rfl := Except.ok.inj h
    rfl
  | some j =>
    obtain ⟨c, hc, h⟩ := bind_eq_ok.mp h
    obtain rfl := Except.ok.inj h
    dsimp only
    rw [hc]
    cases haccept : c.accepted env <;> simp [asked, Except.toOption, Option.filter, haccept]

/-- The candidates asked for are those in the texts that `addIceCandidate` was entered with. -/
def Answered (env : Env) (calls : List Call) : Prop :=
  asked calls = (added calls).filterMap (candidateIn env)

theorem answered_nil : Answered env [] := rfl

theorem Answered.append {a b : List Call} (ha : Answered env a) (hb : Answered env b) :
    Answered env (a ++ b) := by
  rw [Answered, asked_append, ha, hb, added_append, List.filterMap_append]

theorem answered_addIceCandidate (hpc : o.peerConnection.isSome) {iceStr : Bytes}
    {calls : List Call} (h : o.addIceCandidate env iceStr = .ok calls) : Answered env calls := by
  rw [Answered, asked_addIceCandidate hpc h, added_addIceCandidate h, List.filterMap_cons]
  cases candidateIn env iceStr <;> rfl

theorem answered_candidateLoop {add : Bytes → Except Raise (List Call)} {text : Bytes}
    (hadd : ∀ iceStr added, add iceStr = .ok added → Answered env added) :
    ∀ (n startPos : ℕ) {calls calls' : List Call}, Answered env calls →
      Observer.candidateLoop add text n startPos calls = .ok calls' → Answered env calls' := by
  intro n
  induction n with
  | zero =>
    intro _ calls calls' hcalls h
    obtain rfl := Except.ok.inj h
    exact hcalls
  | succ n ih =>
    intro startPos calls calls' hcalls h
    rw [Observer.candidateLoop] at h
    split at h
    · obtain ⟨iceStr, -, h⟩ := bind_eq_ok.mp h
      obtain ⟨more, hmore, h⟩ := bind_eq_ok.mp h
      exact ih _ (hcalls.append (hadd iceStr more hmore)) h
    · obtain ⟨iceStr, -, h⟩ := bind_eq_ok.mp h
      obtain ⟨more, hmore, h⟩ := bind_eq_ok.mp h
      obtain rfl := Except.ok.inj h
      exact hcalls.append (hadd iceStr more hmore)

theorem answered_addCandidates (hpc : o.peerConnection.isSome) {text : Bytes} {calls : List Call}
    (h : o.addCandidates env text = .ok calls) : Answered env calls :=
  answered_candidateLoop (fun _ _ => answered_addIceCandidate hpc) _ _ answered_nil h

theorem answered_onCommand {cmd payload : Bytes} {created : Created} {calls : List Call}
    (h : o.onCommand env cmd payload created = .ok (o', calls)) : Answered env calls := by
  unfold Observer.onCommand at h
  split at h
  · obtain ⟨_, -, h⟩ := bind_eq_ok.mp h
    split at h
    · obtain ⟨-, rfl⟩ := Prod.mk.inj (Except.ok.inj h)
      exact answered_nil
    · simp only [bind_eq_ok] at h
      obtain ⟨_, -, type, -, _, -, sdp, -, h⟩ := h
      split at h
      · split at h
        · obtain ⟨-, rfl⟩ := Prod.mk.inj (Except.ok.inj h)
          exact answered_nil
        · obtain ⟨-, rfl⟩ := Prod.mk.inj (Except.ok.inj h)
          split <;> rfl
      · obtain ⟨-, rfl⟩ := Prod.mk.inj (Except.ok.inj h)
        exact answered_nil
  · split at h
    · split at h
      · obtain ⟨-, rfl⟩ := Prod.mk.inj (Except.ok.inj h)
        exact answered_nil
      · rename_i hpc
        obtain ⟨more, hmore, h⟩ := bind_eq_ok.mp h
        obtain ⟨-, rfl⟩ := Prod.mk.inj (Except.ok.inj h)
        exact answered_addCandidates (by rw [hpc]; rfl) hmore
    · obtain ⟨-, rfl⟩ := Prod.mk.inj (Except.ok.inj h)
      exact answered_nil

theorem answered_onSuccess {type sdp : Bytes} {calls : List Call}
    (h : o.onSuccess env type sdp = .ok (o', calls)) : Answered env calls := by
  unfold Observer.onSuccess at h
  split at h
  · exact absurd h (by simp)
  · rename_i hpc
    obtain ⟨more, hmore, h⟩ := bind_eq_ok.mp h
    obtain ⟨-, rfl⟩ := Prod.mk.inj (Except.ok.inj h)
    have hsome : o.peerConnection.isSome = true := by rw [hpc, Option.isSome_some]
    have hrest : Answered env more := by
      split at hmore
      · obtain rfl := Except.ok.inj hmore
        exact answered_nil
      · exact answered_addCandidates (o := o.sendSignalingMessage _) hsome hmore
    exact hrest

/-- **One call asks for nothing else.** -/
theorem answered_call {cb : Callback} {calls : List Call} (h : o.call env cb = .ok (o', calls)) :
    Answered env calls := by
  cases cb with
  | onSignalingMessage message created =>
    rw [Observer.call, onSignalingMessage_split] at h
    obtain ⟨x, -, h⟩ := bind_eq_ok.mp h
    exact answered_onCommand h
  | onSuccess type sdp => exact answered_onSuccess h
  | onIceCandidate | onIceConnectionChange =>
    obtain ⟨-, rfl⟩ := Prod.mk.inj (Except.ok.inj h)
    exact answered_nil
  | onIceGatheringChange state =>
    have h := Except.ok.inj h
    unfold Observer.onIceGatheringChange at h
    split at h <;> (obtain ⟨-, rfl⟩ := Prod.mk.inj h; exact answered_nil)

/-- **A run asks for the candidates in the texts that were added**, in their order. -/
theorem answered_of_run {tr : List (Callback × List Call)} (h : Run (Observer.step env) o tr o') :
    Answered env (events tr) := by
  induction h with
  | refl => exact answered_nil
  | tail _ hstep ih =>
    rw [events_append, events_singleton]
    exact ih.append (answered_call (Observer.step_eq_some hstep).2)

end

/-! ## 6. A whole session -/

section

variable (sscanf : Bytes → Option (Bytes × ℚ)) (webrtc : Env)

theorem readCandidate_candidateJson {c : Candidate Bytes}
    (h : -2 ^ 31 ≤ c.sdpMLineIndex ∧ c.sdpMLineIndex < 2 ^ 31) :
    readCandidate (candidateJson c) = .ok c := by
  have hindex : (Json.int c.sdpMLineIndex).asInt = .ok c.sdpMLineIndex := if_pos h
  change ((Json.int c.sdpMLineIndex).asInt >>= fun i =>
    Except.ok (Candidate.mk c.sdpMid i c.candidate)) = _
  rw [hindex]
  rfl

/-- A candidate of the browser's, if WebRTC takes it. -/
theorem candidateIn_browserText {c : Candidate JsString} (h : c.Sendable) :
    candidateIn (jsonEnv sscanf webrtc) c.browserText
      = (some c.encoded).filter (Candidate.accepted webrtc) := by
  unfold candidateIn
  rw [jsonEnv_readJson (parse_browserText sscanf h) webrtc]
  dsimp only
  rw [readCandidate_candidateJson h.index]
  rfl

theorem Batch.asked (b : Batch) :
    (candidatesOf b.payload).filterMap (candidateIn (jsonEnv sscanf webrtc))
      = (b.candidates.map Candidate.encoded).filter (Candidate.accepted webrtc) := by
  rw [b.candidatesOf_payload, List.filterMap_map, ← List.filterMap_eq_filter,
    List.filterMap_map]
  refine List.filterMap_congr fun c hc => ?_
  rw [Function.comp_apply, candidateIn_browserText sscanf webrtc (b.sendable c hc)]
  rfl

theorem asked_batches (bs : List Batch) :
    ((bs.map Batch.payload).flatMap candidatesOf).filterMap (candidateIn (jsonEnv sscanf webrtc))
      = ((bs.flatMap Batch.candidates).map Candidate.encoded).filter
          (Candidate.accepted webrtc) := by
  induction bs with
  | nil => rfl
  | cons b bs ih =>
    rw [List.map_cons, List.flatMap_cons, List.filterMap_append, ih, b.asked sscanf webrtc,
      List.flatMap_cons, List.map_append, List.filter_append]

theorem waiting_batches (bs : List Batch) :
    waiting (bs.map Batch.payload)
      = ((bs.getLast?.toList.map Batch.payload).flatMap candidatesOf) := by
  rw [waiting, List.getLast?_map]
  cases bs.getLast? with
  | none => rfl
  | some b =>
    rw [Option.map_some, Option.getD_some, if_neg b.payload_ne_nil]
    simp

/-- What `addIceCandidate` does with a candidate of the browser's. -/
def applied (webrtc : Env) (c : Candidate JsString) : List Call :=
  .addIceCandidate c.browserText ::
    if c.encoded.accepted webrtc then
      [.applyCandidate c.encoded.sdpMid c.encoded.sdpMLineIndex c.encoded.candidate]
    else []

theorem addIceCandidate_sent {o : Observer} (hpc : o.peerConnection.isSome)
    {c : Candidate JsString} (h : c.Sendable) :
    o.addIceCandidate (jsonEnv sscanf webrtc) c.browserText = .ok (applied webrtc c) := by
  rw [addIceCandidate_some hpc, jsonEnv_readJson (parse_browserText sscanf h) webrtc, ok_bind,
    addRead, readCandidate_candidateJson h.index]
  rfl

theorem addCandidates_batch {o : Observer} (hpc : o.peerConnection.isSome) {b : Batch}
    (hsize : b.payload.length < 2 ^ 31) :
    o.addCandidates (jsonEnv sscanf webrtc) b.payload
      = .ok (b.candidates.flatMap (applied webrtc)) := by
  have heach : ∀ cs : List (Candidate JsString), (∀ c ∈ cs, c.Sendable) →
      Observer.addEach (o.addIceCandidate (jsonEnv sscanf webrtc)) (cs.map Candidate.browserText)
        = .ok (cs.flatMap (applied webrtc)) := by
    intro cs hcs
    induction cs with
    | nil => rfl
    | cons c cs ih =>
      obtain ⟨hc, hcs⟩ := List.forall_mem_cons.mp hcs
      rw [List.map_cons, Observer.addEach, addIceCandidate_sent sscanf webrtc hpc hc, ok_bind,
        ih hcs, ok_bind, List.flatMap_cons]
  have hcut := b.candidatesOf_payload
  rw [candidatesOf] at hcut
  rw [Observer.addCandidates_eq _ o hsize, hcut]
  exact heach _ b.sendable

variable {o : Observer} {b : Batch}

theorem onCommand_batch (created : Created) :
    o.onSignalingMessage (jsonEnv sscanf webrtc) (browserMessage b.candidates) created
      = o.onCommand (jsonEnv sscanf webrtc) (ascii "ICE") b.payload created := by
  have hmessage : browserMessage b.candidates = ascii "ICE" ++ ascii "->" ++ b.payload :=
    b.browserMessage_candidates
  rw [hmessage, Observer.onSignalingMessage_framed _ o b.payload created (by decide) (by decide)]

theorem batch_applied (hpc : o.peerConnection.isSome) (hsize : b.payload.length < 2 ^ 31)
    (created : Created) :
    o.onSignalingMessage (jsonEnv sscanf webrtc) (browserMessage b.candidates) created
      = .ok (o, b.candidates.flatMap (applied webrtc)) := by
  have hbatch := addCandidates_batch sscanf webrtc hpc hsize
  obtain ⟨pc, hpc⟩ := Option.isSome_iff_exists.mp hpc
  rw [onCommand_batch, Observer.onCommand, if_neg (by decide), if_pos rfl, hpc]
  dsimp only
  rw [hbatch]
  rfl

theorem batch_waits (hpc : o.peerConnection = none) (created : Created) :
    o.onSignalingMessage (jsonEnv sscanf webrtc) (browserMessage b.candidates) created
      = .ok ({ o with remoteIceCandidateMsg := b.payload }, []) := by
  rw [onCommand_batch, Observer.onCommand, if_neg (by decide), if_pos rfl, hpc]

theorem waiting_applied (hpc : o.peerConnection.isSome) (hsize : b.payload.length < 2 ^ 31)
    (hwait : o.remoteIceCandidateMsg = b.payload) (type sdp : Bytes) :
    o.onSuccess (jsonEnv sscanf webrtc) type sdp
      = .ok (o.sendSignalingMessage (ascii "SDP->" ++ Observer.descriptionText type sdp),
          .sendSignalingMessage (ascii "SDP->" ++ Observer.descriptionText type sdp) ::
          .setLocalDescription type sdp :: b.candidates.flatMap (applied webrtc)) := by
  have hbatch := addCandidates_batch sscanf webrtc
    (o := o.sendSignalingMessage (ascii "SDP->" ++ Observer.descriptionText type sdp)) hpc hsize
  obtain ⟨pc, hpc⟩ := Option.isSome_iff_exists.mp hpc
  have hwaiting : (o.sendSignalingMessage (ascii "SDP->" ++ Observer.descriptionText type sdp)
      ).remoteIceCandidateMsg = b.payload := hwait
  unfold Observer.onSuccess
  rw [hpc]
  dsimp only
  rw [hwaiting, if_neg b.payload_ne_nil, hbatch]
  rfl

/-- **A batch is applied when it comes, or waits for the answer and is applied then**, and nothing
is thrown.  It takes a batch for that: a candidate with a separator in one of its strings is cut in
two. -/
theorem candidates_applied (b : Batch) (hsize : b.payload.length < 2 ^ 31) (o : Observer)
    (created : Created) :
    (o.peerConnection.isSome →
      o.onSignalingMessage (jsonEnv sscanf webrtc) (browserMessage b.candidates) created
        = .ok (o, b.candidates.flatMap (applied webrtc))) ∧
    (o.peerConnection = none → ∀ factory peerConnection type sdp, peerConnection.isSome →
      ∃ o', o.onSignalingMessage (jsonEnv sscanf webrtc) (browserMessage b.candidates) created
          = .ok (o', []) ∧
        Observer.onSuccess (jsonEnv sscanf webrtc)
            { o' with peerConnectionFactory := factory, peerConnection := peerConnection } type sdp
          = .ok (Observer.sendSignalingMessage
              { o' with peerConnectionFactory := factory, peerConnection := peerConnection }
              (ascii "SDP->" ++ Observer.descriptionText type sdp),
            .sendSignalingMessage (ascii "SDP->" ++ Observer.descriptionText type sdp) ::
            .setLocalDescription type sdp :: b.candidates.flatMap (applied webrtc))) :=
  ⟨fun hpc => batch_applied sscanf webrtc hpc hsize created,
    fun hpc _ _ type sdp hsome => ⟨_, batch_waits sscanf webrtc hpc created,
      waiting_applied sscanf webrtc hsome hsize rfl type sdp⟩⟩

/-- The browser's offer is a valid one, if WebRTC takes it. -/
theorem validOffer {sdp : JsString} (hsdp : ∀ c ∈ sdp, Scalar c) {created : Created}
    (hlen : (browserDescription (codepoints (ascii "offer")) sdp).length < 2 ^ 30)
    (haccept : webrtc.createSessionDescription (ascii "offer") (sdp.flatMap utf8) = true)
    (hfactory : created.factory.isSome) (hpc : created.peerConnection.isSome) :
    ValidOffer (jsonEnv sscanf webrtc)
      (ascii "SDP->" ++ browserDescription (codepoints (ascii "offer")) sdp) created where
  framed := ⟨_, _, rfl, jsonEnv_readJson (parse_browserDescription sscanf
    (show Spellable (ascii "offer") by decide) hsdp hlen) webrtc, _, _, _, rfl, rfl, rfl, rfl,
    haccept⟩
  factory := hfactory
  peerConnection := hpc

/-- **A whole session**: from the browser's offer the peer connection gets the browser's SDP, and
then the candidates that WebRTC takes out of the batches, each once, in order and as the browser
had them.  Of the batches that came before the offer it gets the last one.  The offer is one that
can be read (no lone surrogate, a text short enough) and that WebRTC takes. -/
theorem asked_of_session {tr₁ tr₂ tr₃ : List (Callback × List Call)} {early mid late : List Batch}
    {offer : JsString} {created : Created} {type sdp : Bytes} {es₁ es₂ : List Call} {o : Observer}
    (h₁ : ∀ x ∈ tr₁, x.1.Quiet) (h₂ : ∀ x ∈ tr₂, x.1.Quiet) (h₃ : ∀ x ∈ tr₃, x.1.Quiet)
    (hearly : payloads tr₁ = early.map Batch.payload)
    (hmid : payloads tr₂ = mid.map Batch.payload) (hlate : payloads tr₃ = late.map Batch.payload)
    (hoffer : ∀ c ∈ offer, Scalar c)
    (hlen : (browserDescription (codepoints (ascii "offer")) offer).length < 2 ^ 30)
    (haccept : webrtc.createSessionDescription (ascii "offer") (offer.flatMap utf8) = true)
    (hfactory : created.factory.isSome) (hpc : created.peerConnection.isSome)
    (hrun : Run (Observer.step (jsonEnv sscanf webrtc)) .new
      (session tr₁ tr₂ tr₃
        (ascii "SDP" ++ ascii "->" ++ browserDescription (codepoints (ascii "offer")) offer) created
        type sdp es₁ es₂) o) :
    es₁ = [.setRemoteDescription (ascii "offer") (offer.flatMap utf8), .createAnswer] ∧
      asked (events (session tr₁ tr₂ tr₃
          (ascii "SDP" ++ ascii "->" ++ browserDescription (codepoints (ascii "offer")) offer)
          created type sdp es₁ es₂))
        = (((mid ++ early.getLast?.toList ++ late).flatMap Batch.candidates).map
            Candidate.encoded).filter (Candidate.accepted webrtc) := by
  have hspell : ∀ c ∈ codepoints (ascii "offer"), Scalar c := by decide
  constructor
  · obtain ⟨s₁, s₂, -, hstep, -⟩ := hrun.step_at
    have hcall := (Observer.step_eq_some hstep).2
    rw [Observer.call, offer_taken sscanf webrtc hspell hoffer hlen] at hcall
    obtain ⟨f, hf⟩ := Option.isSome_iff_exists.mp hfactory
    obtain ⟨pc, hpc⟩ := Option.isSome_iff_exists.mp hpc
    have htake : (takeDescription webrtc s₁ created (ascii "offer") (offer.flatMap utf8)).2
        = [.setRemoteDescription (ascii "offer") (offer.flatMap utf8), .createAnswer] := by
      rw [takeDescription, if_pos haccept]
      simp only [Observer.initPeerConnection, hf, hpc, if_true]
    rw [← htake]
    exact (congrArg Prod.snd (Except.ok.inj hcall)).symm
  · have hvalid := validOffer sscanf webrtc hoffer hlen haccept hfactory hpc
    have hadded := applied_of_run h₁ h₂ h₃ hvalid hrun
    rw [answered_of_run hrun]
    refine (congrArg (List.filterMap (candidateIn (jsonEnv sscanf webrtc))) hadded).trans ?_
    rw [hearly, hmid, hlate, waiting_batches, List.filterMap_append, List.filterMap_append,
      asked_batches, asked_batches, asked_batches]
    simp only [List.flatMap_append, List.map_append, List.filter_append]

end

/-- A candidate without a character that is escaped. -/
def sampleBatch : Batch where
  first := ⟨codepoints (ascii "0"), 0, codepoints (ascii "c:1")⟩
  rest := []
  sendable := by
    intro c hc
    obtain rfl := List.mem_singleton.mp hc
    exact ⟨by decide, by decide +kernel, by decide, by decide +kernel⟩
  clean := by
    intro c hc
    obtain rfl := List.mem_singleton.mp hc
    decide +kernel

/-- WebRTC takes everything. -/
def eagerEnv : Env where
  readJson _ := .ok none
  createSessionDescription _ _ := true
  createIceCandidate _ _ _ := true

/-- A `sscanf` that reads no number. -/
def noDouble : Bytes → Option (Bytes × ℚ) := fun _ => none

theorem step_of_call {env : Env} {o o' : Observer} {cb : Callback} {calls : List Call}
    (hrep : cb.Representable) (h : o.call env cb = .ok (o', calls)) :
    o.step env cb = some (o', calls) := by
  rw [Observer.step, if_pos hrep, h]
  rfl

def sampleText : Bytes := browserDescription (codepoints (ascii "offer")) (codepoints (ascii "v=0"))

/-- The batch before the offer ... -/
def sampleEarly : List (Callback × List Call) :=
  [(.onSignalingMessage (iceMessage sampleBatch.payload) sampleCreated, [])]

/-- ... and behind its answer. -/
def sampleLate : List (Callback × List Call) :=
  [(.onSignalingMessage (iceMessage sampleBatch.payload) sampleCreated,
    sampleBatch.candidates.flatMap (applied eagerEnv))]

theorem sampleBatch_length : sampleBatch.payload.length < 2 ^ 31 := by decide +kernel

theorem candidates_applied_sample :
    Observer.onSignalingMessage (jsonEnv noDouble eagerEnv)
        { Observer.new with peerConnection := some 0 } (browserMessage sampleBatch.candidates)
        sampleCreated
      = .ok ({ Observer.new with peerConnection := some 0 },
          sampleBatch.candidates.flatMap (applied eagerEnv)) :=
  (candidates_applied noDouble eagerEnv sampleBatch sampleBatch_length _ _).1 rfl

theorem sampleBatch_run : ∃ es₁ es₂ o, Run (Observer.step (jsonEnv noDouble eagerEnv)) .new
    (session sampleEarly [] sampleLate (ascii "SDP" ++ ascii "->" ++ sampleText) sampleCreated
      (ascii "answer") (ascii "v=0") es₁ es₂) o := by
  have hmessage : iceMessage sampleBatch.payload = browserMessage sampleBatch.candidates :=
    sampleBatch.browserMessage_candidates.symm
  have hice : (Callback.onSignalingMessage (iceMessage sampleBatch.payload)
      sampleCreated).Representable := by decide +kernel
  have hsdp : (Callback.onSignalingMessage (ascii "SDP" ++ ascii "->" ++ sampleText)
      sampleCreated).Representable := by decide +kernel
  have hwaits := batch_waits noDouble eagerEnv (o := .new) (b := sampleBatch) rfl sampleCreated
  have htakes := offer_taken noDouble eagerEnv (show Spellable (ascii "offer") by decide)
    (show Spellable (ascii "v=0") by decide +kernel) (by decide +kernel)
    { Observer.new with remoteIceCandidateMsg := sampleBatch.payload } sampleCreated
  have happlies := waiting_applied noDouble eagerEnv (o := (takeDescription eagerEnv
    { Observer.new with remoteIceCandidateMsg := sampleBatch.payload } sampleCreated
    ((codepoints (ascii "offer")).flatMap utf8) ((codepoints (ascii "v=0")).flatMap utf8)).1) rfl
    sampleBatch_length rfl (ascii "answer") (ascii "v=0")
  have hlate := batch_applied noDouble eagerEnv (o := Observer.sendSignalingMessage
    (takeDescription eagerEnv { Observer.new with remoteIceCandidateMsg := sampleBatch.payload }
      sampleCreated ((codepoints (ascii "offer")).flatMap utf8)
      ((codepoints (ascii "v=0")).flatMap utf8)).1
    (ascii "SDP->" ++ Observer.descriptionText (ascii "answer") (ascii "v=0"))) rfl
    sampleBatch_length sampleCreated
  rw [← hmessage] at hwaits hlate
  have hanswer : (Callback.onSuccess (ascii "answer") (ascii "v=0")).Representable := trivial
  exact ⟨_, _, _, (((Run.refl.tail (step_of_call hice hwaits)).tail
    (step_of_call hsdp htakes)).tail (step_of_call hanswer happlies)).tail
    (step_of_call hice hlate)⟩

theorem asked_of_session_sample : ∃ es₁ es₂ o, Run (Observer.step (jsonEnv noDouble eagerEnv)) .new
    (session sampleEarly [] sampleLate (ascii "SDP" ++ ascii "->" ++ sampleText) sampleCreated
      (ascii "answer") (ascii "v=0") es₁ es₂) o ∧
    asked (events (session sampleEarly [] sampleLate (ascii "SDP" ++ ascii "->" ++ sampleText)
      sampleCreated (ascii "answer") (ascii "v=0") es₁ es₂))
      = [sampleBatch.first.encoded, sampleBatch.first.encoded] := by
  obtain ⟨es₁, es₂, o, hrun⟩ := sampleBatch_run
  have hquiet : (Callback.onSignalingMessage (iceMessage sampleBatch.payload)
      sampleCreated).Quiet := .ice _ _
  have hpayloads : ∀ calls : List Call, payloads
      [(.onSignalingMessage (iceMessage sampleBatch.payload) sampleCreated, calls)]
        = [sampleBatch].map Batch.payload := by
    intro calls
    simp [payloads, icePayload_iceMessage]
  refine ⟨es₁, es₂, o, hrun, ?_⟩
  exact (asked_of_session noDouble eagerEnv (by simpa [sampleEarly] using hquiet) (by simp)
    (by simpa [sampleLate] using hquiet) (hpayloads _)
    (show payloads [] = ([] : List Batch).map Batch.payload from rfl) (hpayloads _)
    (show Spellable (ascii "v=0") by decide +kernel) (by decide +kernel) rfl rfl rfl hrun).2

end Reflector.Signaling
