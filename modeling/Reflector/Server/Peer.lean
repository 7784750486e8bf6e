/-
# One peer: its observer, its worker and its wait sockets

What a client of the server sees of it is one connection: its own messages go into `m_queue`, its
wait sockets into the slot, and the worker and the callbacks of WebRTC do the rest.  `Peer.step`
is that connection alone, with the client free to send anything at any time.

`Server.step` takes a callback as one step, which hides the one place where the order of two
statements matters: `OnSuccess` queues the answer BEFORE it calls `SetLocalDescription`, and
only that call starts the gathering of candidates.  Here `OnSuccess` is its three statements,
and everything else may happen between them.

So a client gets the answer before any candidate, each on a wait socket of its own
(`answer_first`).
-/
import Reflector.Signaling.Candidates
import Reflector.Server.Relay

namespace Reflector

open Base Signaling

/-! ## 1. `OnSuccess`, statement by statement -/

namespace Signaling.Observer

/-- The assertion, and the answer put into the queue. -/
def answer (o : Observer) (type sdp : Bytes) : Except Raise (Observer × List Call) :=
  match o.peerConnection with
  | none => .error .nullPointer
  | some _ =>
    let sdpAnswer := ascii "SDP->" ++ descriptionText type sdp
    .ok (o.sendSignalingMessage sdpAnswer, [.sendSignalingMessage sdpAnswer])

/-- `m_peer_connection_.get()->SetLocalDescription`. -/
def setLocalDescription (o : Observer) (type sdp : Bytes) : Except Raise (List Call) :=
  match o.peerConnection with
  | none => .error .nullPointer
  | some _ => .ok [.setLocalDescription type sdp]

/-- The candidates that came before the peer connection. -/
def addRemoteCandidates (env : Env) (o : Observer) : Except Raise (List Call) :=
  if o.remoteIceCandidateMsg = [] then .ok [] else o.addCandidates env o.remoteIceCandidateMsg

/-- With nothing in between, the three statements are `OnSuccess`. -/
theorem onSuccess_eq (env : Env) (o : Observer) (type sdp : Bytes) :
    o.onSuccess env type sdp = (do
      let (o, sent) ← o.answer type sdp
      let described ← o.setLocalDescription type sdp
      let added ← o.addRemoteCandidates env
      .ok (o, sent ++ described ++ added)) := by
  unfold onSuccess answer
  cases hpeer : o.peerConnection with
  | none => rfl
  | some peer =>
    simp only [ok_bind, setLocalDescription, addRemoteCandidates, sendSignalingMessage, hpeer]
    split <;> rfl

variable {env : Env} {o o' : Observer} {type sdp : Bytes} {calls : List Call}

theorem answer_eq (h : o.answer type sdp = .ok (o', calls)) :
    o' = o.sendSignalingMessage (ascii "SDP->" ++ descriptionText type sdp) ∧
      calls = [.sendSignalingMessage (ascii "SDP->" ++ descriptionText type sdp)] := by
  unfold answer at h
  split at h
  · exact absurd h (by simp)
  · obtain ⟨rfl, rfl⟩ := Prod.mk.inj (Except.ok.inj h)
    exact ⟨rfl, rfl⟩

theorem setLocalDescription_eq (h : o.setLocalDescription type sdp = .ok calls) :
    calls = [.setLocalDescription type sdp] := by
  unfold setLocalDescription at h
  split at h
  · exact absurd h (by simp)
  · exact (Except.ok.inj h).symm

theorem addRemoteCandidates_silent (h : o.addRemoteCandidates env = .ok calls) :
    ∀ x ∈ calls, x.Silent := by
  unfold addRemoteCandidates at h
  split at h
  · obtain rfl := Except.ok.inj h
    simp
  · exact addCandidates_silent h

end Signaling.Observer

/-! ## 2. The peer -/

/-- What an `OnSuccess` that has queued its answer still has to do. -/
inductive Rest
  | setLocalDescription (type sdp : Bytes)
  | addRemoteCandidates
  deriving DecidableEq, Repr

structure Peer where
  conn : WebrtcConnection
  /-- The calls of `OnSuccess` that have not returned. -/
  running : List Rest
  /-- No socket from here on has been used. -/
  nextSock : SockPtr
  deriving DecidableEq, Repr

namespace Peer

def new (peerId : ℕ) : Peer := { conn := .new peerId, running := [], nextSock := 0 }

/-- Who moves. -/
inductive Label
  /-- The client's `message` request, in the main loop. -/
  | message (message : Bytes)
  /-- The client's `wait` request, on a socket of its own. -/
  | wait (s : SockPtr)
  | worker (act : WebrtcConnection.Act)
  /-- A callback; of `OnSuccess`, the first statement. -/
  | callback (cb : Callback)
  /-- The next statement of an `OnSuccess`. -/
  | resume (rest : Rest)
  deriving DecidableEq, Repr

/-- A call of the observer, while there is one. -/
def observe (c : ConnPtr) (p : Peer) (observer : Observer) (running : List Rest)
    (calls : List Call) : Option (Peer × List Event) :=
  if p.conn.pc = .start ∨ p.conn.pc = .done then none
  else some ({ p with conn := { p.conn with observer := observer }, running := running },
    [.observed c calls])

/-- **The peer**, statement by statement. -/
def step (env : Env) (c : ConnPtr) (p : Peer) : Label → Option (Peer × List Event)
  | .message message => some ({ p with conn := p.conn.pushMessage message }, [.push c message])
  | .wait s =>
    if p.nextSock ≤ s then
      (p.conn.setOutboundSocket s).map fun conn =>
        ({ p with conn := conn, nextSock := s + 1 }, [.park c s])
    else none
  | .worker act => (p.conn.work env c act).map fun (conn, es) => ({ p with conn := conn }, es)
  | .callback (.onSuccess type sdp) =>
    match p.conn.observer.answer type sdp with
    | .error _ => none
    | .ok (observer, calls) =>
      p.observe c observer (.setLocalDescription type sdp :: p.running) calls
  | .callback cb => (p.conn.callback env c cb).map fun (conn, es) => ({ p with conn := conn }, es)
  | .resume (.setLocalDescription type sdp) =>
    if .setLocalDescription type sdp ∈ p.running then
      match p.conn.observer.setLocalDescription type sdp with
      | .error _ => none
      | .ok calls =>
        p.observe c p.conn.observer
          (.addRemoteCandidates :: p.running.erase (.setLocalDescription type sdp)) calls
    else none
  | .resume .addRemoteCandidates =>
    if .addRemoteCandidates ∈ p.running then
      match p.conn.observer.addRemoteCandidates env with
      | .error _ => none
      | .ok calls =>
        p.observe c p.conn.observer (p.running.erase .addRemoteCandidates) calls
    else none

/-! ## 3. What a step can do -/

/-- Everything a step can do to the connection, to the calls under way and to the sockets. -/
inductive Does (env : Env) (c : ConnPtr) (p : Peer) : Label → Peer → List Event → Prop
  | message (message : Bytes) :
      Does env c p (.message message) { p with conn := p.conn.pushMessage message }
        [.push c message]
  | wait (s : SockPtr) (hfresh : p.nextSock ≤ s) (hlock : ¬ p.conn.Locked) :
      Does env c p (.wait s)
        { p with conn := { p.conn with clientSocket := some s }, nextSock := s + 1 } [.park c s]
  | worker (act : WebrtcConnection.Act) (conn' : WebrtcConnection) (es : List Event)
      (hwork : p.conn.work env c act = some (conn', es)) :
      Does env c p (.worker act) { p with conn := conn' } es
  | callback (cb : Callback) (observer : Observer) (calls : List Call)
      (hcb : ∀ type sdp, cb ≠ .onSuccess type sdp) (hpc : p.conn.pc ≠ .start ∧ p.conn.pc ≠ .done)
      (hcall : p.conn.observer.call env cb = .ok (observer, calls)) :
      Does env c p (.callback cb) { p with conn := { p.conn with observer := observer } }
        [.observed c calls]
  | answer (type sdp : Bytes) (observer : Observer) (calls : List Call)
      (hcall : p.conn.observer.answer type sdp = .ok (observer, calls)) :
      Does env c p (.callback (.onSuccess type sdp))
        { p with
          conn := { p.conn with observer := observer }
          running := .setLocalDescription type sdp :: p.running } [.observed c calls]
  | describe (type sdp : Bytes) (hin : .setLocalDescription type sdp ∈ p.running) :
      Does env c p (.resume (.setLocalDescription type sdp))
        { p with
          running := .addRemoteCandidates :: p.running.erase (.setLocalDescription type sdp) }
        [.observed c [.setLocalDescription type sdp]]
  | add (calls : List Call) (hin : .addRemoteCandidates ∈ p.running)
      (hcall : p.conn.observer.addRemoteCandidates env = .ok calls) :
      Does env c p (.resume .addRemoteCandidates)
        { p with running := p.running.erase .addRemoteCandidates } [.observed c calls]

section

variable {env : Env} {c : ConnPtr} {p p' : Peer} {l : Label} {es : List Event}

theorem observe_eq {observer : Observer} {running : List Rest} {calls : List Call}
    (h : p.observe c observer running calls = some (p', es)) :
    p' = { p with conn := { p.conn with observer := observer }, running := running } ∧
      es = [.observed c calls] := by
  unfold observe at h
  split at h
  · exact absurd h (by simp)
  · obtain ⟨rfl, rfl⟩ := Prod.mk.inj (Option.some.inj h)
    exact ⟨rfl, rfl⟩

theorem does_of_callback {cb : Callback} (hcb : ∀ type sdp, cb ≠ .onSuccess type sdp)
    (h : (p.conn.callback env c cb).map (fun (conn, es) => ({ p with conn := conn }, es))
      = some (p', es)) : Does env c p (.callback cb) p' es := by
  obtain ⟨⟨conn, es'⟩, hcall, heq⟩ := Option.map_eq_some_iff.mp h
  obtain ⟨rfl, rfl⟩ := Prod.mk.inj heq
  obtain ⟨hpc, observer, calls, hok, rfl, rfl⟩ := callback_eq_some hcall
  exact .callback cb observer calls hcb hpc hok

theorem does_of_resume {rest : Rest} (h : p.step env c (.resume rest) = some (p', es)) :
    Does env c p (.resume rest) p' es := by
  cases rest with
  | setLocalDescription type sdp =>
    simp only [step] at h
    split at h
    · rename_i hin
      split at h
      · exact absurd h (by simp)
      · rename_i calls hcall
        obtain ⟨rfl, rfl⟩ := observe_eq h
        obtain rfl := Observer.setLocalDescription_eq hcall
        exact .describe type sdp hin
    · exact absurd h (by simp)
  | addRemoteCandidates =>
    simp only [step] at h
    split at h
    · rename_i hin
      split at h
      · exact absurd h (by simp)
      · rename_i calls hcall
        obtain ⟨rfl, rfl⟩ := observe_eq h
        exact .add calls hin hcall
    · exact absurd h (by simp)

/-- **A step of the peer is one of the list.** -/
theorem does_of_step (h : p.step env c l = some (p', es)) : Does env c p l p' es := by
  cases l with
  | message message =>
    obtain ⟨rfl, rfl⟩ := Prod.mk.inj (Option.some.inj h)
    exact .message message
  | wait s =>
    simp only [step] at h
    split at h
    · rename_i hfresh
      obtain ⟨conn, hset, heq⟩ := Option.map_eq_some_iff.mp h
      obtain ⟨rfl, rfl⟩ := Prod.mk.inj heq
      unfold WebrtcConnection.setOutboundSocket at hset
      split at hset
      · exact absurd hset (by simp)
      · rename_i hlock
        obtain rfl := Option.some.inj hset
        exact .wait s hfresh hlock
    · exact absurd h (by simp)
  | worker act =>
    obtain ⟨⟨conn, es'⟩, hwork, heq⟩ := Option.map_eq_some_iff.mp h
    obtain ⟨rfl, rfl⟩ := Prod.mk.inj heq
    exact .worker act conn es' hwork
  | callback cb =>
    cases cb with
    | onSuccess type sdp =>
      simp only [step] at h
      split at h
      · exact absurd h (by simp)
      · rename_i observer calls hcall
        obtain ⟨rfl, rfl⟩ := observe_eq h
        exact .answer type sdp observer calls hcall
    | _ => exact does_of_callback (by simp) h
  | resume rest => exact does_of_resume h

end

end Peer

/-! ## 4. What is said, and when -/

/-- `SetLocalDescription` is called. -/
def Signaling.Call.describes : Call → Bool
  | .setLocalDescription _ _ => true
  | _ => false

/-- `SetLocalDescription` is called on a peer connection of this connection's observer. -/
def Event.describes (c : ConnPtr) : Event → Bool
  | .observed c' calls => c' == c && calls.any Call.describes
  | _ => false

/-- What WebRTC calls when it gathers: a candidate, or the end of them. -/
def Signaling.Callback.gathers : Callback → Bool
  | .onIceCandidate _ _ _ => true
  | .onIceGatheringChange state => state == .complete
  | _ => false

def Peer.Label.gathers : Peer.Label → Bool
  | .callback cb => cb.gathers
  | _ => false

/-- **What is assumed of WebRTC**: it gathers only after `SetLocalDescription`. -/
def GathersLate (c : ConnPtr) (tr : List (Peer.Label × List Event)) : Prop :=
  Preceded (fun x => x.1.gathers = true) (fun x => x.2.any (Event.describes c) = true) tr

instance (c : ConnPtr) (tr : List (Peer.Label × List Event)) : Decidable (GathersLate c tr) :=
  inferInstanceAs (Decidable (Preceded _ _ tr))

theorem any_describes_iff {c : ConnPtr} {L : Type} {tr : List (L × List Event)} :
    (events tr).any (Event.describes c) = true ↔
      ∃ x ∈ tr, x.2.any (Event.describes c) = true := by
  simp only [events, List.any_eq_true, List.mem_flatMap]
  constructor
  · rintro ⟨e, ⟨x, hx, he⟩, hdescribes⟩
    exact ⟨x, hx, e, he, hdescribes⟩
  · rintro ⟨x, hx, e, he, hdescribes⟩
    exact ⟨e, ⟨x, hx, he⟩, hdescribes⟩

/-- An event with which the observer neither speaks nor describes itself. -/
def Event.Quiet : Event → Prop
  | .observed _ calls => ∀ x ∈ calls, x.Silent
  | _ => True

theorem Event.Quiet.given_eq {e : Event} (h : e.Quiet) (c : ConnPtr) : e.given c = [] := by
  cases e with
  | observed c' calls =>
    simp only [Event.given, given_of_silent h, ite_self]
  | _ => rfl

theorem Event.Quiet.describes_eq {e : Event} (h : e.Quiet) (c : ConnPtr) :
    e.describes c = false := by
  cases e with
  | observed c' calls =>
    have hnone : calls.any Call.describes = false := by
      rw [List.any_eq_false]
      intro x hx hdescribes
      have hsilent := h x hx
      cases x with
      | setLocalDescription type sdp => exact absurd hsilent id
      | _ => exact absurd hdescribes (by simp [Call.describes])
    rw [Event.describes, hnone, Bool.and_false]
  | _ => rfl

theorem quiet_of_dequeue {env : Env} {c : ConnPtr} {conn conn' : WebrtcConnection}
    {created : Created} {es : List Event}
    (h : conn.dequeue env c created = some (conn', es)) : ∀ e ∈ es, e.Quiet := by
  unfold WebrtcConnection.dequeue at h
  split at h
  · obtain ⟨rfl, rfl⟩ := Prod.mk.inj (Option.some.inj h)
    simp
  · split at h
    · exact absurd h (by simp)
    · rename_i observer calls hcall
      obtain ⟨rfl, rfl⟩ := Prod.mk.inj (Option.some.inj h)
      obtain ⟨-, -, hsilent⟩ := Observer.onSignalingMessage_silent hcall
      simpa [Event.Quiet] using hsilent

theorem quiet_of_relay {c : ConnPtr} {conn conn' : WebrtcConnection} {es : List Event}
    (h : conn.relay c = some (conn', es)) : ∀ e ∈ es, e.Quiet := by
  unfold WebrtcConnection.relay at h
  split at h
  · obtain ⟨rfl, rfl⟩ := Prod.mk.inj (Option.some.inj h)
    simp
  · split at h
    · obtain ⟨rfl, rfl⟩ := Prod.mk.inj (Option.some.inj h)
      simp
    · split at h
      · exact absurd h (by simp)
      · obtain ⟨rfl, rfl⟩ := Prod.mk.inj (Option.some.inj h)
        simp [Event.Quiet]

/-- The worker never makes the observer speak: it hands it messages, and takes its answers. -/
theorem quiet_of_work {env : Env} {c : ConnPtr} {conn conn' : WebrtcConnection}
    {act : WebrtcConnection.Act} {es : List Event} (h : conn.work env c act = some (conn', es)) :
    ∀ e ∈ es, e.Quiet := by
  cases act with
  | timeout =>
    simp only [WebrtcConnection.work] at h
    split at h
    · obtain ⟨rfl, rfl⟩ := Prod.mk.inj (Option.some.inj h)
      simp
    · exact absurd h (by simp)
  | step now created =>
    simp only [WebrtcConnection.work] at h
    cases hpc : conn.pc with
    | dequeue | waiting =>
      simp only [WebrtcConnection.next, hpc] at h
      exact quiet_of_dequeue h
    | slot =>
      simp only [WebrtcConnection.next, hpc] at h
      exact quiet_of_relay h
    | done =>
      simp only [WebrtcConnection.next, hpc] at h
      exact absurd h (by simp)
    | sent =>
      simp only [WebrtcConnection.next, hpc] at h
      obtain ⟨rfl, rfl⟩ := Prod.mk.inj (Option.some.inj h)
      cases conn.clientSocket <;> simp [Event.Quiet]
    | _ =>
      simp only [WebrtcConnection.next, hpc] at h
      obtain ⟨rfl, rfl⟩ := Prod.mk.inj (Option.some.inj h)
      simp

/-! ## 5. The answer is the first thing said -/

/-- The queue loses nothing, the first message is an answer, and nothing is described before
something was said. -/
structure Spoken (c : ConnPtr) (es : List Event) (p : Peer) : Prop where
  balanced : Balanced es c p.conn
  first : ∀ m ∈ (es.flatMap (Event.given c)).head?, ascii "SDP->" <+: m
  described : p.running ≠ [] ∨ es.any (Event.describes c) = true → es.flatMap (Event.given c) ≠ []

namespace Spoken

variable {env : Env} {c : ConnPtr} {es es' : List Event} {p p' : Peer}

theorem new (c : ConnPtr) (peerId : ℕ) : Spoken c [] (Peer.new peerId) where
  balanced := Balanced.fresh (by simp) peerId
  first := by simp
  described := by simp [Peer.new]

/-- A step in which nothing is said. -/
theorem quiet (h : Spoken c es p) (hbal : Balanced (es ++ es') c p'.conn)
    (hes : ∀ e ∈ es', e.Quiet) (hrunning : p'.running ≠ [] → p.running ≠ []) :
    Spoken c (es ++ es') p' := by
  have hgiven : es'.flatMap (Event.given c) = [] :=
    List.flatMap_eq_nil_iff.mpr fun e he => (hes e he).given_eq c
  have hnone : es'.any (Event.describes c) = false := by
    rw [List.any_eq_false]
    intro e he
    rw [(hes e he).describes_eq c]
    simp
  constructor
  · exact hbal
  · rw [List.flatMap_append, hgiven, List.append_nil]
    exact h.first
  · rw [List.flatMap_append, hgiven, List.append_nil, List.any_append, hnone, Bool.or_false]
    exact fun hdone => h.described (hdone.imp_left hrunning)

/-- A step in which one thing is said: an answer, or something behind it. -/
theorem say (h : Spoken c es p) {message : Bytes}
    (hbal : Balanced (es ++ [.observed c [.sendSignalingMessage message]]) c p'.conn)
    (hmessage : es.flatMap (Event.given c) = [] → ascii "SDP->" <+: message) :
    Spoken c (es ++ [.observed c [.sendSignalingMessage message]]) p' := by
  have hgiven : [Event.observed c [.sendSignalingMessage message]].flatMap (Event.given c)
      = [message] := by
    simp [Event.given, Call.given]
  constructor
  · exact hbal
  · rw [List.flatMap_append, hgiven]
    intro m hm
    cases hsaid : es.flatMap (Event.given c) with
    | nil =>
      rw [hsaid] at hm
      obtain rfl : message = m := by simpa using hm
      exact hmessage hsaid
    | cons m' said =>
      rw [hsaid] at hm
      refine h.first m ?_
      rw [hsaid]
      simpa using hm
  · rw [List.flatMap_append, hgiven]
    simp

/-- A callback that is not `OnSuccess` says nothing, unless the gathering is complete. -/
theorem callback (h : Spoken c es p) {cb : Callback} {observer : Observer} {calls : List Call}
    (hcb : ∀ type sdp, cb ≠ .onSuccess type sdp)
    (hcall : p.conn.observer.call env cb = .ok (observer, calls))
    (hlate : cb.gathers = true → es.any (Event.describes c) = true) :
    Spoken c (es ++ [.observed c calls])
      { p with conn := { p.conn with observer := observer } } := by
  have hbal : Balanced (es ++ [.observed c calls]) c { p.conn with observer := observer } :=
    h.balanced.observed hcall rfl rfl
  cases cb with
  | onSignalingMessage message created =>
    obtain ⟨-, -, hsilent⟩ := Observer.onSignalingMessage_silent hcall
    exact h.quiet hbal (by simpa [Event.Quiet] using hsilent) id
  | onSuccess type sdp => exact absurd rfl (hcb type sdp)
  | onIceCandidate sdpMid sdpMLineIndex sdp =>
    obtain ⟨rfl, rfl⟩ := Prod.mk.inj (Except.ok.inj hcall)
    exact h.quiet hbal (by simp [Event.Quiet]) id
  | onIceConnectionChange state =>
    obtain ⟨rfl, rfl⟩ := Prod.mk.inj (Except.ok.inj hcall)
    exact h.quiet hbal (by simp [Event.Quiet]) id
  | onIceGatheringChange state =>
    have hcall := Except.ok.inj hcall
    unfold Observer.onIceGatheringChange at hcall
    split at hcall
    · rename_i hcomplete
      obtain ⟨rfl, rfl⟩ := Prod.mk.inj hcall
      -- the local description was set before, and the answer given before that
      have hsaid := h.described (.inr (hlate (by simpa [Callback.gathers] using hcomplete)))
      exact h.say hbal fun hnone => absurd hnone hsaid
    · obtain ⟨rfl, rfl⟩ := Prod.mk.inj hcall
      exact h.quiet hbal (by simp [Event.Quiet]) id

/-- **One step keeps it.** -/
theorem step {l : Peer.Label} (h : Spoken c es p)
    (hlate : l.gathers = true → es.any (Event.describes c) = true)
    (hstep : Peer.Does env c p l p' es') : Spoken c (es ++ es') p' := by
  cases hstep with
  | message message => exact h.quiet (h.balanced.push message) (by simp [Event.Quiet]) id
  | wait s hfresh hlock =>
    exact h.quiet (h.balanced.frame (by simp [Event.conn]) rfl rfl) (by simp [Event.Quiet]) id
  | worker act conn' es' hwork =>
    exact h.quiet (h.balanced.move (moves_of_work hwork)) (quiet_of_work hwork) id
  | callback cb observer calls hcb hpc hcall => exact h.callback hcb hcall hlate
  | answer type sdp observer calls hcall =>
    obtain ⟨rfl, rfl⟩ := Observer.answer_eq hcall
    exact h.say (h.balanced.said rfl rfl) fun _ => List.prefix_append _ _
  | describe type sdp hin =>
    have hrunning : p.running ≠ [] := List.ne_nil_of_mem hin
    have hgiven : [Event.observed c [.setLocalDescription type sdp]].flatMap (Event.given c)
        = [] := by
      simp [Event.given, Call.given]
    constructor
    · exact h.balanced.said rfl (by simp [Call.given])
    · rw [List.flatMap_append, hgiven, List.append_nil]
      exact h.first
    · rw [List.flatMap_append, hgiven, List.append_nil]
      exact fun _ => h.described (.inl hrunning)
  | add calls hin hcall =>
    have hsilent := Observer.addRemoteCandidates_silent hcall
    refine h.quiet (h.balanced.said rfl ?_) (by simpa [Event.Quiet] using hsilent) fun _ =>
      List.ne_nil_of_mem hin
    rw [given_of_silent hsilent, List.append_nil]

end Spoken

/-! ## 6. One message for each wait -/

/-- A socket that carried a message was parked before, and the socket in the slot was parked
after everything that was carried; between a message and the end of its socket the slot is
nobody's. -/
structure InTurn (c : ConnPtr) (es : List Event) (p : Peer) : Prop where
  parked : ∀ s message writes, Event.relay c s message writes ∈ es →
    s < p.nextSock ∧ [Event.park c s, .relay c s message writes].Sublist es
  slot : ∀ s, p.conn.clientSocket = some s → s < p.nextSock ∧
    (p.conn.pc ≠ .sent ∧ p.conn.pc ≠ .deleted → ∃ es₁ es₂, es = es₁ ++ .park c s :: es₂ ∧
      ∀ s' message writes, Event.relay c s' message writes ∈ es →
        s' < s ∧ [Event.park c s', .relay c s' message writes].Sublist es₁)

namespace InTurn

variable {env : Env} {c : ConnPtr} {es es' : List Event} {p p' : Peer}

theorem new (c : ConnPtr) (peerId : ℕ) : InTurn c [] (Peer.new peerId) where
  parked := by simp
  slot := by simp [Peer.new, WebrtcConnection.new]

/-- A step that neither parks a socket nor writes to one. -/
theorem frame (h : InTurn c es p) (hes : ∀ s message writes, Event.relay c s message writes ∉ es')
    (hnext : p'.nextSock = p.nextSock)
    (hslot : ∀ s, p'.conn.clientSocket = some s → p.conn.clientSocket = some s ∧
      (p'.conn.pc ≠ .sent ∧ p'.conn.pc ≠ .deleted → p.conn.pc ≠ .sent ∧ p.conn.pc ≠ .deleted)) :
    InTurn c (es ++ es') p' := by
  have hold : ∀ {s message writes}, Event.relay c s message writes ∈ es ++ es' →
      Event.relay c s message writes ∈ es := fun hin =>
    (List.mem_append.mp hin).resolve_right (hes _ _ _)
  constructor
  · intro s message writes hin
    obtain ⟨hlt, hsub⟩ := h.parked s message writes (hold hin)
    exact ⟨hnext ▸ hlt, hsub.trans (List.sublist_append_left _ _)⟩
  · intro s hs
    obtain ⟨hs, hpc⟩ := hslot s hs
    obtain ⟨hlt, hfree⟩ := h.slot s hs
    refine ⟨hnext ▸ hlt, fun hpc' => ?_⟩
    obtain ⟨es₁, es₂, rfl, hall⟩ := hfree (hpc hpc')
    exact ⟨es₁, es₂ ++ es', by simp, fun s' message writes hin =>
      hall s' message writes (hold hin)⟩

/-- **A wait**: everything that was carried came before it. -/
theorem wait (h : InTurn c es p) {s : SockPtr} (hfresh : p.nextSock ≤ s) :
    InTurn c (es ++ [.park c s])
      { p with conn := { p.conn with clientSocket := some s }, nextSock := s + 1 } := by
  have hold : ∀ {s' message writes}, Event.relay c s' message writes ∈ es ++ [.park c s] →
      Event.relay c s' message writes ∈ es := by
    intro s' message writes hin
    simpa using hin
  constructor
  · intro s' message writes hin
    obtain ⟨hlt, hsub⟩ := h.parked s' message writes (hold hin)
    exact ⟨Nat.lt_succ_of_lt (Nat.lt_of_lt_of_le hlt hfresh),
      hsub.trans (List.sublist_append_left _ _)⟩
  · intro s' hs'
    obtain rfl : s = s' := Option.some.inj hs'
    refine ⟨Nat.lt_succ_self s, fun _ => ⟨es, [], rfl, ?_⟩⟩
    intro s' message writes hin
    obtain ⟨hlt, hsub⟩ := h.parked s' message writes (hold hin)
    exact ⟨Nat.lt_of_lt_of_le hlt hfresh, hsub⟩

/-- **A message goes out** on the socket in the slot. -/
theorem relay (h : InTurn c es p) {s : SockPtr} {message : Bytes} {writes : List Bytes}
    {observer : Observer} (hpc : p.conn.pc = .slot) (hslot : p.conn.clientSocket = some s) :
    InTurn c (es ++ [.relay c s message writes])
      { p with conn := { p.conn with observer := observer, pc := .sent } } := by
  obtain ⟨hlt, hfree⟩ := h.slot s hslot
  constructor
  · intro s' message' writes' hin
    rcases List.mem_append.mp hin with hin | hin
    · obtain ⟨hlt', hsub⟩ := h.parked s' message' writes' hin
      exact ⟨hlt', hsub.trans (List.sublist_append_left _ _)⟩
    · obtain ⟨-, rfl, rfl, rfl⟩ := Event.relay.inj (List.mem_singleton.mp hin)
      obtain ⟨es₁, es₂, rfl, -⟩ := hfree (by simp [hpc])
      have hpark : Event.park c s' ∈ es₁ ++ Event.park c s' :: es₂ := by simp
      exact ⟨hlt, (List.singleton_sublist.mpr hpark).append (List.Sublist.refl _)⟩
  · intro s' hs'
    obtain rfl : s = s' := Option.some.inj (hslot.symm.trans hs')
    exact ⟨hlt, fun hsent => absurd rfl hsent.1⟩

theorem move {conn' : WebrtcConnection} (h : InTurn c es p)
    (hmove : Moves env c p.conn conn' es') : InTurn c (es ++ es') { p with conn := conn' } := by
  cases hmove with
  | go pc state alive startTime hfrom hto hstate =>
    exact h.frame (by simp) rfl fun s hs => ⟨hs, fun _ => ⟨hfrom.1, hfrom.2.1⟩⟩
  | hand message queue created observer calls hpc hqueue hcall =>
    refine h.frame (by simp) rfl fun s hs => ⟨hs, fun _ => ?_⟩
    rcases hpc with hpc | hpc <;> simp [hpc]
  | relay s message msgQueue writes hpc hslot hqueue hsend => exact h.relay hpc hslot
  | close hpc =>
    refine h.frame ?_ rfl fun s hs => ⟨hs, fun hdeleted => absurd rfl hdeleted.2⟩
    cases p.conn.clientSocket <;> simp
  | clear hpc => exact h.frame (by simp) rfl (by simp)
  | callback cb observer calls hpc hcall => exact h.frame (by simp) rfl fun s hs => ⟨hs, id⟩

theorem step {l : Peer.Label} (h : InTurn c es p) (hstep : Peer.Does env c p l p' es') :
    InTurn c (es ++ es') p' := by
  cases hstep with
  | wait s hfresh hlock => exact h.wait hfresh
  | worker act conn' es' hwork => exact h.move (moves_of_work hwork)
  | _ => exact h.frame (by simp) rfl fun s hs => ⟨hs, id⟩

end InTurn

/-! ## 7. The answer comes first -/

/-- A message with candidates goes out only behind an answer, which went out on a socket that
was parked earlier. -/
def AnswerFirst (c : ConnPtr) (pre : List Event) : Event → Prop
  | .relay _ s message _ => ascii "ICE->" <+: message → ∃ s' message' writes',
      ascii "SDP->" <+: message' ∧ s' < s ∧
        [Event.park c s', .relay c s' message' writes', .park c s].Sublist pre
  | _ => True

section

variable {env : Env} {c : ConnPtr} {es es' : List Event} {p p' : Peer}

/-- The first message that came out of the queue is the first that went in. -/
theorem Spoken.answer_relayed (h : Spoken c es p) {message : Bytes} {msgQueue : List Bytes}
    (hqueue : p.conn.observer.msgQueue = message :: msgQueue) (hice : ascii "ICE->" <+: message) :
    ∃ s' message' writes', ascii "SDP->" <+: message' ∧ Event.relay c s' message' writes' ∈ es := by
  have hbal := h.balanced.outbound
  rw [hqueue] at hbal
  cases hrelayed : es.filterMap (Event.relayed c) with
  | nil =>
    -- nothing has come out yet, so this message is the first, and no answer
    rw [hrelayed, List.nil_append] at hbal
    have hsdp : ascii "SDP->" <+: message := h.first message (by rw [← hbal]; rfl)
    exact absurd (List.prefix_of_prefix_length_le hsdp hice (by decide)) (by decide)
  | cons message' rest =>
    rw [hrelayed, List.cons_append] at hbal
    have hin : message' ∈ es.filterMap (Event.relayed c) := by
      rw [hrelayed]
      exact List.mem_cons_self
    obtain ⟨e, he, hmessage⟩ := List.mem_filterMap.mp hin
    cases e with
    | relay c' s' m writes' =>
      simp only [Event.relayed] at hmessage
      split at hmessage
      · rename_i heq
        subst heq
        obtain rfl := Option.some.inj hmessage
        exact ⟨s', m, writes', h.first m (by rw [← hbal]; rfl), he⟩
      · exact absurd hmessage (by simp)
    | _ => exact absurd hmessage (by simp [Event.relayed])

/-- Only the worker in front of a full slot writes a message. -/
theorem relay_of_does {l : Peer.Label} (hstep : Peer.Does env c p l p' es')
    {es₁ es₂ : List Event} {c' : ConnPtr} {s : SockPtr} {message : Bytes} {writes : List Bytes}
    (hsplit : es' = es₁ ++ .relay c' s message writes :: es₂) :
    es₁ = [] ∧ p.conn.pc = .slot ∧ p.conn.clientSocket = some s ∧
      ∃ msgQueue, p.conn.observer.msgQueue = message :: msgQueue := by
  have hin : Event.relay c' s message writes ∈ es' := by rw [hsplit]; simp
  cases hstep with
  | worker act conn' es' hwork =>
    cases moves_of_work hwork with
    | relay s' message' msgQueue writes' hpc hslot hqueue hsend =>
      obtain ⟨-, rfl, rfl, rfl⟩ := Event.relay.inj (List.mem_singleton.mp hin)
      refine ⟨?_, hpc, hslot, msgQueue, hqueue⟩
      cases es₁ with
      | nil => rfl
      | cons e es₁ => simp at hsplit
    | close hpc =>
      cases hslot : p.conn.clientSocket <;> simp [hslot] at hin
    | _ => simp at hin
  | _ => simp at hin

/-- **The step of the order.** -/
theorem answerFirst_of_does {l : Peer.Label} (hspoken : Spoken c es p) (hturn : InTurn c es p)
    (hstep : Peer.Does env c p l p' es') {es₁ es₂ : List Event} {e : Event}
    (hsplit : es' = es₁ ++ e :: es₂) : AnswerFirst c (es ++ es₁) e := by
  cases e with
  | relay c' s message writes =>
    obtain ⟨rfl, hpc, hslot, msgQueue, hqueue⟩ := relay_of_does hstep hsplit
    intro hice
    obtain ⟨s', message', writes', hsdp, hin⟩ := hspoken.answer_relayed hqueue hice
    obtain ⟨es₁, es₂, rfl, hall⟩ := (hturn.slot s hslot).2 (by simp [hpc])
    obtain ⟨hlt, hsub⟩ := hall s' message' writes' hin
    refine ⟨s', message', writes', hsdp, hlt, ?_⟩
    rw [List.append_nil]
    exact hsub.append (List.singleton_sublist.mpr List.mem_cons_self)
  | _ => trivial

/-- The order holds at every message of every run. -/
theorem answerFirst_of_run {peerId : ℕ} {tr : List (Peer.Label × List Event)}
    (hrun : Run (Peer.step env c) (Peer.new peerId) tr p) (hlate : GathersLate c tr) :
    ∀ es₁ e es₂, events tr = es₁ ++ e :: es₂ → AnswerFirst c es₁ e := by
  suffices h : GathersLate c tr → Spoken c (events tr) p ∧ InTurn c (events tr) p ∧
      ∀ es₁ e es₂, events tr = es₁ ++ e :: es₂ → AnswerFirst c es₁ e from (h hlate).2.2
  refine hrun.invariant (fun tr p => GathersLate c tr → Spoken c (events tr) p ∧
    InTurn c (events tr) p ∧ ∀ es₁ e es₂, events tr = es₁ ++ e :: es₂ → AnswerFirst c es₁ e) ?_ ?_
  · exact fun _ => ⟨.new c peerId, .new c peerId, by simp⟩
  · intro tr p l p' es hr ih hstep hlate
    obtain ⟨hlate, hnow⟩ := preceded_concat.mp hlate
    obtain ⟨hspoken, hturn, hfirst⟩ := ih hlate
    have hdoes := Peer.does_of_step hstep
    have hdescribed : l.gathers = true → (events tr).any (Event.describes c) = true :=
      fun hgathers => any_describes_iff.mpr (hnow hgathers)
    rw [events_append, events_singleton]
    refine ⟨hspoken.step hdescribed hdoes, hturn.step hdoes, ?_⟩
    exact forall_split_append.mpr ⟨hfirst, fun es₁ e es₂ hsplit =>
      answerFirst_of_does hspoken hturn hdoes hsplit⟩

/-- **The answer comes before the candidates.**  In every run of a peer, whatever its client
sends and whenever it waits, a message with candidates is written to a wait socket only after an
answer was written to another, which had been parked earlier. -/
theorem answer_first {peerId : ℕ} {tr : List (Peer.Label × List Event)}
    (hrun : Run (Peer.step env c) (Peer.new peerId) tr p) (hlate : GathersLate c tr)
    {pre post : List Event} {s : SockPtr} {message : Bytes} {writes : List Bytes}
    (hrelay : events tr = pre ++ .relay c s message writes :: post)
    (hice : ascii "ICE->" <+: message) :
    ∃ s' message' writes', ascii "SDP->" <+: message' ∧ s' < s ∧
      [Event.park c s', .relay c s' message' writes', .park c s].Sublist pre :=
  answerFirst_of_run hrun hlate pre _ post hrelay hice

/-- The worker's statements, taken in a row. -/
def samplePeerWork (statements : ℕ) : List Peer.Label :=
  List.replicate statements (.worker (.step 0 sampleCreated))

/-- An offer is answered; candidates are gathered before the client has fetched the answer, which
it then does on one socket, and on the next it fetches the candidates. -/
def samplePeerSession : List Peer.Label :=
  [.message (ascii "SDP->" ++ sampleOffer)] ++ samplePeerWork 3 ++
    [.callback (.onSuccess (ascii "answer") sampleSdp),
      .resume (.setLocalDescription (ascii "answer") sampleSdp),
      .callback (.onIceCandidate (ascii "0") 0 (some (ascii "candidate:1"))),
      .callback (.onIceGatheringChange .complete), .wait 0] ++ samplePeerWork 9 ++
    [.wait 1, .worker .timeout] ++ samplePeerWork 3

/-- A message of this kind is written to this socket. -/
def Event.writes (c : ConnPtr) (s : SockPtr) (kind : Bytes) : Event → Bool
  | .relay c' s' message _ => c' == c && s' == s && kind.isPrefixOf message
  | _ => false

theorem answer_first_sample : ∃ tr p pre message writes,
    Run (Peer.step sampleEnv 0) (Peer.new 1) tr p ∧ GathersLate 0 tr ∧
    events tr = pre ++ [.relay 0 1 message writes] ∧ ascii "ICE->" <+: message ∧
    ∃ s' message' writes', ascii "SDP->" <+: message' ∧ s' < 1 ∧
      [Event.park 0 s', .relay 0 s' message' writes', .park 0 1].Sublist pre := by
  obtain ⟨tr, p, hrun, hp⟩ := exists_run (Peer.step sampleEnv 0) (Peer.new 1) samplePeerSession
    (fun tr _ => decide (GathersLate 0 tr ∧
      (events tr).getLast?.any (Event.writes 0 1 (ascii "ICE->")) = true)) (by decide +kernel)
  obtain ⟨hlate, hany⟩ := of_decide_eq_true hp
  obtain ⟨e, hlast, hwrites⟩ := (Option.any_eq_true _ _).mp hany
  cases e with
  | relay c s message writes =>
    obtain ⟨⟨rfl, rfl⟩, hice⟩ : (c = 0 ∧ s = 1) ∧ ascii "ICE->" <+: message := by
      simpa [Event.writes, List.isPrefixOf_iff_prefix] using hwrites
    obtain ⟨pre, hrelay⟩ : ∃ pre, events tr = pre ++ [.relay 0 1 message writes] :=
      List.getLast?_eq_some_iff.mp hlast
    exact ⟨tr, p, pre, message, writes, hrun, hlate, hrelay, hice,
      answer_first hrun hlate hrelay hice⟩
  | _ => exact absurd hwrites (by simp [Event.writes])

end

end Reflector
