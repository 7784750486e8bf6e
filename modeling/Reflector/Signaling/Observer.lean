/-
# The observer (`observer.h`, `observer.cpp`)

One `Observer` per peer: it takes the client's signaling messages, drives the peer connection,
and queues what is to go back.  The model has every field the signaling reads or writes, and a
CALL for everything it asks of WebRTC, so that what was done to the peer connection can be read
off a run.

Three things come from outside the repository and are parameters: the JSON reader and the two
WebRTC constructors (`Env`), which are functions of their arguments here, and the pointers that
`CreatePeerConnectionFactory` and `CreatePeerConnection` return (`Created`), which may be null
at any call and so come with the call.

The two candidate-splitting loops of the source differ only in the string they walk over, and
are one definition here (`candidateLoop`).
-/
import Reflector.Base.Run
import Reflector.Signaling.Json

namespace Reflector.Signaling

open Base

/-! ## 1. The data model -/

inductive IceConnectionState
  | new | checking | connected | completed | failed | disconnected | closed | max
  deriving DecidableEq, Repr

inductive IceGatheringState
  | new | gathering | complete
  deriving DecidableEq, Repr

/-- The library functions the observer calls: what the reader makes of a text, and which
descriptions and candidates WebRTC accepts.  The reader itself raises on some texts (it has a
limit on nesting). -/
structure Env where
  readJson : Bytes → Except Raise (Option Json)
  createSessionDescription : (type sdp : Bytes) → Bool
  createIceCandidate : (sdpMid : Bytes) → (sdpMLineIndex : ℤ) → (sdp : Bytes) → Bool

/-- A reader that accepts nothing. -/
def deafEnv : Env where
  readJson _ := .ok none
  createSessionDescription _ _ := false
  createIceCandidate _ _ _ := false

/-- What the two `Create` calls of `initPeerConnection` return. -/
structure Created where
  factory : Option ℕ
  peerConnection : Option ℕ
  deriving DecidableEq, Repr

structure Observer where
  peerConnection : Option ℕ
  peerConnectionFactory : Option ℕ
  iceCandidateMsg : Bytes
  remoteIceCandidateMsg : Bytes
  msgQueue : List Bytes
  localIceState : IceConnectionState
  deriving DecidableEq, Repr

def Observer.new : Observer :=
  { peerConnection := none, peerConnectionFactory := none, iceCandidateMsg := [],
    remoteIceCandidateMsg := [], msgQueue := [], localIceState := .new }

/-- What the observer does: to the peer connection, and to its own queue.  `addIceCandidate` is
the observer's own function, entered with a candidate text; `applyCandidate` is the call it
ends in. -/
inductive Call
  | sendSignalingMessage (message : Bytes)
  | setRemoteDescription (type sdp : Bytes)
  | createAnswer
  | setLocalDescription (type sdp : Bytes)
  | addIceCandidate (iceStr : Bytes)
  | applyCandidate (sdpMid : Bytes) (sdpMLineIndex : ℤ) (sdp : Bytes)
  deriving DecidableEq, Repr

/-! ## 2. Taking a message -/

namespace Observer

def sendSignalingMessage (o : Observer) (message : Bytes) : Observer :=
  { o with msgQueue := o.msgQueue ++ [message] }

def getSignalingMessageCount (o : Observer) : ℕ := o.msgQueue.length

/-- The front of the queue, unless it is empty. -/
def getSignalingMessage (o : Observer) : Option (Bytes × Observer) :=
  match o.msgQueue with
  | [] => none
  | message :: rest => some (message, { o with msgQueue := rest })

def getIceState (o : Observer) : IceConnectionState := o.localIceState

/-- The factory is assigned before it is checked, and so is the peer connection. -/
def initPeerConnection (o : Observer) (created : Created) : Bool × Observer :=
  let o := { o with peerConnectionFactory := created.factory }
  match created.factory with
  | none => (false, o)
  | some _ =>
    let o := { o with peerConnection := created.peerConnection }
    match created.peerConnection with
    | none => (false, o)
    | some _ => (true, o)

def addIceCandidate (env : Env) (o : Observer) (iceStr : Bytes) : Except Raise (List Call) :=
  match o.peerConnection with
  | none => .ok [.addIceCandidate iceStr]
  | some _ => do
    match ← env.readJson iceStr with
    | none => .ok [.addIceCandidate iceStr]
    | some jmessage =>
      let sdpMid ← (← jmessage.member (ascii "sdpMid")).asString
      let sdpMLineIndex ← (← jmessage.member (ascii "sdpMLineIndex")).asInt
      let sdp ← (← jmessage.member (ascii "candidate")).asString
      if env.createIceCandidate sdpMid sdpMLineIndex sdp then
        .ok [.addIceCandidate iceStr, .applyCandidate sdpMid sdpMLineIndex sdp]
      else .ok [.addIceCandidate iceStr]

/-- What stands between two candidates of a message. -/
def separator : Bytes := ascii "######"

/-- `while (1)`: cut at the next separator, from `startPos`.  Every turn moves `startPos` on,
so `n` turns are enough when `n` exceeds the length of the text. -/
def candidateLoop (add : Bytes → Except Raise (List Call)) (text : Bytes) :
    ℕ → ℕ → List Call → Except Raise (List Call)
  | 0, _, calls => .ok calls
  | n + 1, startPos, calls =>
    match find text separator startPos with
    | some pos => do
      let iceStr ← substr text startPos (some (subSize pos startPos))
      let added ← add iceStr
      candidateLoop add text n (addSize startPos (addSize (subSize pos startPos) 6))
        (calls ++ added)
    | none => do
      let iceStr ← substr text startPos (some (subSize npos text.length))
      let added ← add iceStr
      .ok (calls ++ added)

def addCandidates (env : Env) (o : Observer) (text : Bytes) : Except Raise (List Call) :=
  candidateLoop (addIceCandidate env o) text (text.length + 1) 0 []

/-- The body of `onSignalingMessage`, behind the split of the message. -/
def onCommand (env : Env) (o : Observer) (cmd payload : Bytes) (created : Created) :
    Except Raise (Observer × List Call) := do
  if cmd = ascii "SDP" then
    match ← env.readJson payload with
    | none => .ok (o, [])
    | some jmessage =>
      let type ← (← jmessage.member (ascii "type")).asString
      let sdp ← (← jmessage.member (ascii "sdp")).asString
      if env.createSessionDescription type sdp then
        match o.initPeerConnection created with
        | (false, o) => .ok (o, [])
        | (true, o) =>
          .ok (o, .setRemoteDescription type sdp ::
            if type = ascii "offer" then [.createAnswer] else [])
      else .ok (o, [])
  else if cmd = ascii "ICE" then
    match o.peerConnection with
    | none => .ok ({ o with remoteIceCandidateMsg := payload }, [])
    | some _ => do
      let calls ← o.addCandidates env payload
      .ok (o, calls)
  else .ok (o, [])

def onSignalingMessage (env : Env) (o : Observer) (message : Bytes) (created : Created) :
    Except Raise (Observer × List Call) := do
  let pos := find message (ascii "->") 0
  let cmd ← substr message 0 pos
  -- `npos + 2` is 1
  let payload ← substr message (addSize (pos.getD npos) 2) none
  o.onCommand env cmd payload created

/-! ## 3. The callbacks of WebRTC -/

/-- The text of an answer. -/
def descriptionText (type sdp : Bytes) : Bytes :=
  writeObject [(ascii "sdp", valueToQuotedString sdp), (ascii "type", valueToQuotedString type)]

/-- The text of a candidate; jsoncpp keeps the members of an object sorted by name. -/
def candidateText (sdpMid : Bytes) (sdpMLineIndex : ℤ) (sdp : Bytes) : Bytes :=
  writeObject [(ascii "candidate", valueToQuotedString sdp),
    (ascii "sdpMLineIndex", Json.intText sdpMLineIndex),
    (ascii "sdpMid", valueToQuotedString sdpMid)]

/-- The answer goes into the queue, and the candidates that came before the peer connection
are applied now. -/
def onSuccess (env : Env) (o : Observer) (type sdp : Bytes) :
    Except Raise (Observer × List Call) :=
  match o.peerConnection with
  | none => .error .nullPointer
  | some _ => do
    let sdpAnswer := ascii "SDP->" ++ descriptionText type sdp
    let o := o.sendSignalingMessage sdpAnswer
    let calls ← (if o.remoteIceCandidateMsg = [] then .ok []
      else o.addCandidates env o.remoteIceCandidateMsg)
    .ok (o, .sendSignalingMessage sdpAnswer :: .setLocalDescription type sdp :: calls)

/-- `sdp` is what `ToString` gave, if it succeeded. -/
def onIceCandidate (o : Observer) (sdpMid : Bytes) (sdpMLineIndex : ℤ) (sdp : Option Bytes) :
    Observer :=
  match sdp with
  | none => o
  | some sdp =>
    let text := candidateText sdpMid sdpMLineIndex sdp
    if o.iceCandidateMsg = [] then { o with iceCandidateMsg := ascii "ICE->" ++ text }
    else { o with iceCandidateMsg := o.iceCandidateMsg ++ separator ++ text }

def onIceGatheringChange (o : Observer) (state : IceGatheringState) : Observer × List Call :=
  if state = .complete then
    (o.sendSignalingMessage o.iceCandidateMsg, [.sendSignalingMessage o.iceCandidateMsg])
  else (o, [])

def onIceConnectionChange (o : Observer) (state : IceConnectionState) : Observer :=
  { o with localIceState := state }

end Observer

/-- Everything that is ever called on an observer. -/
inductive Callback
  | onSignalingMessage (message : Bytes) (created : Created)
  | onSuccess (type sdp : Bytes)
  | onIceCandidate (sdpMid : Bytes) (sdpMLineIndex : ℤ) (sdp : Option Bytes)
  | onIceGatheringChange (state : IceGatheringState)
  | onIceConnectionChange (state : IceConnectionState)
  deriving DecidableEq, Repr

/-- The outcome of one call. -/
def Observer.call (env : Env) (o : Observer) : Callback → Except Raise (Observer × List Call)
  | .onSignalingMessage message created => o.onSignalingMessage env message created
  | .onSuccess type sdp => o.onSuccess env type sdp
  | .onIceCandidate sdpMid sdpMLineIndex sdp => .ok (o.onIceCandidate sdpMid sdpMLineIndex sdp, [])
  | .onIceGatheringChange state => .ok (o.onIceGatheringChange state)
  | .onIceConnectionChange state => .ok (o.onIceConnectionChange state, [])

/-- A `std::string` of the 32-bit target has fewer than `2 ^ 31` bytes, so no longer message
is ever passed. -/
def Callback.Representable : Callback → Prop
  | .onSignalingMessage message _ => message.length < 2 ^ 31
  | _ => True

instance : (cb : Callback) → Decidable cb.Representable
  | .onSignalingMessage message _ => inferInstanceAs (Decidable (message.length < 2 ^ 31))
  | .onSuccess _ _ | .onIceCandidate _ _ _ | .onIceGatheringChange _ | .onIceConnectionChange _ =>
    .isTrue trivial

/-- One call as a step; a call that raises ends the process, and the run with it. -/
def Observer.step (env : Env) (o : Observer) (cb : Callback) : Option (Observer × List Call) :=
  if cb.Representable then (o.call env cb).toOption else none

/-! ## 4. The candidate loop -/

namespace Observer

theorem separator_ne_nil : separator ≠ [] := by decide

/-- A call for each piece, in order. -/
def addEach (add : Bytes → Except Raise (List Call)) : List Bytes → Except Raise (List Call)
  | [] => .ok []
  | p :: ps => do
    let added ← add p
    let rest ← addEach add ps
    .ok (added ++ rest)

/-- One call after the other returns exactly when each of them does. -/
theorem addEach_returns_iff (add : Bytes → Except Raise (List Call)) (ps : List Bytes) :
    (∃ calls, addEach add ps = .ok calls) ↔ ∀ p ∈ ps, ∃ added, add p = .ok added := by
  induction ps with
  | nil => simp [addEach]
  | cons p ps ih =>
    rw [List.forall_mem_cons, ← ih]
    simp only [addEach, bind_eq_ok]
    constructor
    · rintro ⟨calls, added, hadded, rest, hrest, -⟩
      exact ⟨⟨added, hadded⟩, rest, hrest⟩
    · rintro ⟨⟨added, hadded⟩, rest, hrest⟩
      exact ⟨added ++ rest, added, hadded, rest, hrest, rfl⟩

/-- The loop is one call per piece of the text it has left. -/
theorem candidateLoop_eq (add : Bytes → Except Raise (List Call)) {text : Bytes}
    (hsize : text.length < 2 ^ 31) : ∀ (n startPos : ℕ) (calls : List Call),
      startPos ≤ text.length → text.length - startPos < n →
      candidateLoop add text n startPos calls
        = (addEach add (pieces separator (text.drop startPos))).map (calls ++ ·) := by
  intro n
  induction n with
  | zero =>
    intro _ _ _ hn
    exact absurd hn (by omega)
  | succ n ih =>
    intro startPos calls hle hn
    rw [candidateLoop, find]
    cases hc : (text.drop startPos).dropInfix? separator with
    | none =>
      have hp : pieces separator (text.drop startPos) = [text.drop startPos] :=
        pieces_of_notInfix (dropInfix?_none_iff.mp hc)
      -- the count `npos - size` reaches past the end
      have hsub : substr text startPos (some (subSize npos text.length))
          = .ok (text.drop startPos) := by
        have hcount : text.length - startPos ≤ subSize npos text.length := by
          unfold subSize npos
          omega
        rw [substr, if_pos hle, List.take_of_length_le (by simpa using hcount)]
      simp only [Option.map_none, hsub, ok_bind, hp, addEach]
      cases add (text.drop startPos) with
      | error e => rfl
      | ok added => simp [Except.map]
    | some x =>
      obtain ⟨p, s⟩ := x
      have hcut : text.drop startPos = p ++ separator ++ s := (dropInfix?_iff.mp hc).1
      have hlen : text.length - startPos = p.length + 6 + s.length := by
        have := congrArg List.length hcut
        rw [List.length_drop, List.length_append, List.length_append,
          show separator.length = 6 from rfl] at this
        exact this
      have hpos : subSize (startPos + p.length) startPos = p.length := by
        unfold subSize
        omega
      have hnext : addSize startPos (addSize p.length 6) = startPos + (p.length + 6) := by
        unfold addSize
        omega
      have hsub : substr text startPos (some p.length) = .ok p := by
        rw [substr, if_pos hle, hcut, List.append_assoc, List.take_left]
      have hrest : text.drop (startPos + (p.length + 6)) = s := by
        rw [← List.drop_drop, hcut, show p.length + 6 = (p ++ separator).length by
          simp [separator, ascii], List.drop_left]
      simp only [Option.map_some, hpos, hsub, ok_bind, hnext,
          pieces_of_dropInfix? separator_ne_nil hc,
        addEach]
      cases add p with
      | error e => rfl
      | ok added =>
        simp only [ok_bind]
        rw [ih _ _ (by omega) (by omega), hrest]
        cases addEach add (pieces separator s) with
        | error e => rfl
        | ok rest => simp [Except.map]

/-- **One call of `addIceCandidate` for each piece of the text.** -/
theorem addCandidates_eq (env : Env) (o : Observer) {text : Bytes} (hsize : text.length < 2 ^ 31) :
    o.addCandidates env text = addEach (o.addIceCandidate env) (pieces separator text) := by
  rw [addCandidates, candidateLoop_eq _ hsize _ 0 [] (by omega) (by omega), List.drop_zero]
  cases addEach (o.addIceCandidate env) (pieces separator text) <;> simp [Except.map]

/-! ## 5. The split of a message -/

/-- **A framed message is cut at its first arrow**, whatever the payload holds. -/
theorem onSignalingMessage_framed (env : Env) (o : Observer) {cmd : Bytes} (payload : Bytes)
    (created : Created) (hcmd : (45 : UInt8) ∉ cmd) (hlen : cmd.length < 2 ^ 31) :
    o.onSignalingMessage env (cmd ++ ascii "->" ++ payload) created
      = o.onCommand env cmd payload created := by
  have hnot : ¬ [45, 62] <:+: cmd := fun hin => hcmd (hin.subset (by simp))
  have hfirst : (cmd ++ ascii "->" ++ payload).dropInfix? (ascii "->") = some (cmd, payload) :=
    dropInfix?_append_of_first (by decide) (not_infix_dropLast_pair (by decide) hnot)
  have hfind : find (cmd ++ ascii "->" ++ payload) (ascii "->") 0 = some cmd.length := by
    rw [find, List.drop_zero, hfirst]
    simp
  have hadd : addSize cmd.length 2 = (cmd ++ ascii "->").length := by
    rw [List.length_append, show (ascii "->").length = 2 from rfl, addSize]
    omega
  simp only [onSignalingMessage, hfind, Option.getD_some, hadd, substr_zero, ok_bind]
  rw [substr_of_le (by simp), List.drop_left, ok_bind, List.append_assoc, List.take_left]

end Observer

end Reflector.Signaling
