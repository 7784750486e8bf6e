/-
# The observers of the server

What is proved of an observer in `Signaling/` is about runs of its calls alone.  The observer of a
connection of the server goes through such a run, whatever the other threads do
(`observer_of_run`): the calls are those that the server's steps make of it (`observations`), and
the only difference is its queue, which the worker empties and which nothing in the observer looks
at.  Messages are short on the way, since they come out of the one buffer, so every one is a
message that a run of the observer admits.

So what WebRTC has the observer say reaches the client of the server, as long as its strings are
text and hold nothing that the page cuts at: what was written to the connection's wait sockets,
followed by what is still to come, is heard as what was said (`heard_by_client`).
-/
import Reflector.Server.Delivery
import Reflector.Server.Relay
import Reflector.Signaling.Heard

namespace Reflector

open Base Signaling

/-! ## 1. Nothing depends on the queue -/

/-- The same observer, but for its queue. -/
def Signaling.Observer.Like (o o' : Observer) : Prop := o' = { o with msgQueue := o'.msgQueue }

namespace Signaling.Observer

variable {env : Env} {o p p' : Observer} {calls : List Call}

theorem Like.refl (o : Observer) : Like o o := rfl

theorem Like.trans (h : Like o p) (h' : Like p p') : Like o p' := by
  rw [Like, h', h]

theorem takeDescription_frame (o : Observer) (created : Created) (type sdp : Bytes)
    (queue : List Bytes) :
    takeDescription env { o with msgQueue := queue } created type sdp
      = ({ (takeDescription env o created type sdp).1 with msgQueue := queue },
          (takeDescription env o created type sdp).2) := by
  unfold takeDescription initPeerConnection
  cases env.createSessionDescription type sdp
  · rfl
  · obtain ⟨factory, peerConnection⟩ := created
    cases factory with
    | none => rfl
    | some f => cases peerConnection <;> rfl

theorem onCommand_frame (o : Observer) (cmd payload : Bytes) (created : Created)
    (queue : List Bytes) :
    onCommand env { o with msgQueue := queue } cmd payload created
      = (fun r : Observer × List Call => ({ r.1 with msgQueue := queue }, r.2)) <$>
          o.onCommand env cmd payload created := by
  by_cases hsdp : cmd = ascii "SDP"
  · rw [hsdp, ← onSignalingMessage_framed _ o payload created (by decide) (by decide),
      ← onSignalingMessage_framed _ { o with msgQueue := queue } payload created (by decide)
        (by decide), onSignalingMessage_sdp, onSignalingMessage_sdp, map_bind]
    refine bind_congr fun doc => ?_
    cases doc with
    | none => rfl
    | some j =>
      rw [map_bind]
      refine bind_congr fun x => ?_
      rw [takeDescription_frame]
      rfl
  · unfold onCommand
    rw [if_neg hsdp, if_neg hsdp]
    split
    · obtain ⟨_ | pc, factory, ice, remote, messages, state⟩ := o
      · rfl
      · dsimp only
        rw [map_bind]
        rfl
    · rfl

/-- **A call does the same to an observer that differs in its queue.** -/
theorem Like.call (h : Like o p) {cb : Callback} (hcall : p.call env cb = .ok (p', calls)) :
    ∃ o', o.call env cb = .ok (o', calls) ∧ Like o' p' := by
  rw [h] at hcall
  cases cb with
  | onSignalingMessage message created =>
    rw [Observer.call, onSignalingMessage_split] at hcall ⊢
    obtain ⟨x, hsplit, hcall⟩ := bind_eq_ok.mp hcall
    rw [onCommand_frame] at hcall
    obtain ⟨r, hr, heq⟩ := map_eq_ok.mp hcall
    obtain ⟨rfl, rfl⟩ := Prod.mk.inj heq
    exact ⟨r.1, by rw [hsplit, ok_bind, hr], rfl⟩
  | onSuccess type sdp =>
    obtain ⟨_ | pc, factory, ice, remote, messages, state⟩ := o
    · exact absurd hcall (by simp [Observer.call, onSuccess])
    · obtain ⟨more, hmore, hcall⟩ := bind_eq_ok.mp hcall
      obtain ⟨rfl, rfl⟩ := Prod.mk.inj (Except.ok.inj hcall)
      exact ⟨_, bind_eq_ok.mpr ⟨more, hmore, rfl⟩, rfl⟩
  | onIceCandidate sdpMid sdpMLineIndex sdp =>
    obtain ⟨rfl, rfl⟩ := Prod.mk.inj (Except.ok.inj hcall)
    refine ⟨_, rfl, ?_⟩
    cases sdp with
    | none => rfl
    | some sdp =>
      unfold Like onIceCandidate
      dsimp only
      split <;> rfl
  | onIceGatheringChange state =>
    obtain ⟨rfl, rfl⟩ := Prod.mk.inj (Except.ok.inj hcall)
    cases state <;> exact ⟨_, rfl, rfl⟩
  | onIceConnectionChange state =>
    obtain ⟨rfl, rfl⟩ := Prod.mk.inj (Except.ok.inj hcall)
    exact ⟨_, rfl, rfl⟩

end Signaling.Observer

/-! ## 2. One step -/

/-- The calls that one step of the server makes of the observer of connection `c`. -/
def observations (c : ConnPtr) : Label × List Event → List (Callback × List Call)
  | (.worker c' (.step _ created), [.hand _ message, .observed _ calls]) =>
    if c' = c then [(.onSignalingMessage message created, calls)] else []
  | (.callback c' cb, [.observed _ calls]) => if c' = c then [(cb, calls)] else []
  | _ => []

/-- The calls take the observer of the one to that of the other. -/
def Observes (env : Env) (conn conn' : WebrtcConnection) (obs : List (Callback × List Call)) :
    Prop :=
  ∀ o, Observer.Like o conn.observer →
    ∃ o', Run (Observer.step env) o obs o' ∧ Observer.Like o' conn'.observer

/-- What the calls say is what the events say. -/
def Tells (c : ConnPtr) (l : Label) (es : List Event) : Prop :=
  es.flatMap (Event.given c) = (events (observations c (l, es))).filterMap Call.given

section

variable {env : Env} {c : ConnPtr} {conn conn' : WebrtcConnection} {es : List Event}

theorem Observes.nil (h : Observer.Like conn.observer conn'.observer) :
    Observes env conn conn' [] :=
  fun o ho => ⟨o, .refl, ho.trans h⟩

theorem Observes.call {cb : Callback} {calls : List Call} (hrep : cb.Representable)
    (hcall : conn.observer.call env cb = .ok (conn'.observer, calls)) :
    Observes env conn conn' [(cb, calls)] := by
  intro o ho
  obtain ⟨o', hcall', hlike⟩ := ho.call hcall
  exact ⟨o', Run.refl.tail (step_of_call hrep hcall'), hlike⟩

/-- A step of the worker that calls nothing. -/
theorem observes_silent {act : WebrtcConnection.Act}
    (hlike : Observer.Like conn.observer conn'.observer)
    (hes : ∀ e ∈ es, ∀ c' calls, e ≠ .observed c' calls) :
    Observes env conn conn' (observations c (.worker c act, es)) ∧
      Tells c (.worker c act) es := by
  have hnil : observations c (.worker c act, es) = [] := by
    unfold observations
    split
    case h_1 heq =>
      obtain ⟨-, rfl⟩ := Prod.mk.inj heq
      exact absurd rfl (hes _ (List.mem_cons_of_mem _ List.mem_cons_self) _ _)
    case h_2 heq => exact absurd (Prod.mk.inj heq).1 (by simp)
    case h_3 => rfl
  refine ⟨hnil ▸ .nil hlike, ?_⟩
  rw [Tells, hnil, List.flatMap_eq_nil_iff.mpr]
  · rfl
  · intro e he
    cases e with
    | observed c' calls => exact absurd rfl (hes _ he _ _)
    | _ => rfl

theorem observes_dequeue {now : ℤ} {created : Created}
    (hshort : ∀ message ∈ conn.queue, message.length < 2 ^ 31)
    (h : conn.dequeue env c created = some (conn', es)) :
    Observes env conn conn' (observations c (.worker c (.step now created), es)) ∧
      Tells c (.worker c (.step now created)) es := by
  unfold WebrtcConnection.dequeue at h
  split at h
  · obtain ⟨rfl, rfl⟩ := Prod.mk.inj (Option.some.inj h)
    exact observes_silent (Observer.Like.refl _) (by simp)
  · rename_i message queue hqueue
    split at h
    · exact absurd h (by simp)
    · rename_i observer calls hcall
      obtain ⟨rfl, rfl⟩ := Prod.mk.inj (Option.some.inj h)
      have hobs : observations c (.worker c (.step now created),
          [.hand c message, .observed c calls]) = [(.onSignalingMessage message created, calls)] :=
        if_pos rfl
      rw [Tells, hobs]
      refine ⟨.call (hshort message (by rw [hqueue]; exact List.mem_cons_self)) hcall, ?_⟩
      simp [Event.given, events]

theorem observes_relay {act : WebrtcConnection.Act} (h : conn.relay c = some (conn', es)) :
    Observes env conn conn' (observations c (.worker c act, es)) ∧
      Tells c (.worker c act) es := by
  unfold WebrtcConnection.relay at h
  split at h
  · obtain ⟨rfl, rfl⟩ := Prod.mk.inj (Option.some.inj h)
    exact observes_silent (Observer.Like.refl _) (by simp)
  · split at h
    · obtain ⟨rfl, rfl⟩ := Prod.mk.inj (Option.some.inj h)
      exact observes_silent (Observer.Like.refl _) (by simp)
    · rename_i message observer hget
      split at h
      · exact absurd h (by simp)
      · obtain ⟨rfl, rfl⟩ := Prod.mk.inj (Option.some.inj h)
        refine observes_silent ?_ (by simp)
        unfold Observer.getSignalingMessage at hget
        split at hget
        · exact absurd hget (by simp)
        · obtain ⟨-, rfl⟩ := Prod.mk.inj (Option.some.inj hget)
          rfl

/-- **A step of the worker**: the message it hands on is the one call it makes. -/
theorem observes_work {act : WebrtcConnection.Act}
    (hshort : ∀ message ∈ conn.queue, message.length < 2 ^ 31)
    (h : conn.work env c act = some (conn', es)) :
    Observes env conn conn' (observations c (.worker c act, es)) ∧
      Tells c (.worker c act) es := by
  cases act with
  | timeout =>
    simp only [WebrtcConnection.work] at h
    split at h
    · obtain ⟨rfl, rfl⟩ := Prod.mk.inj (Option.some.inj h)
      exact observes_silent (Observer.Like.refl _) (by simp)
    · exact absurd h (by simp)
  | step now created =>
    simp only [WebrtcConnection.work] at h
    cases hpc : conn.pc with
    | dequeue | waiting =>
      simp only [WebrtcConnection.next, hpc] at h
      exact observes_dequeue hshort h
    | slot =>
      simp only [WebrtcConnection.next, hpc] at h
      exact observes_relay h
    | done =>
      simp only [WebrtcConnection.next, hpc] at h
      exact absurd h (by simp)
    | sent =>
      simp only [WebrtcConnection.next, hpc] at h
      obtain ⟨rfl, rfl⟩ := Prod.mk.inj (Option.some.inj h)
      exact observes_silent (Observer.Like.refl _) (by cases conn.clientSocket <;> simp)
    | ice =>
      simp only [WebrtcConnection.next, hpc] at h
      obtain ⟨rfl, rfl⟩ := Prod.mk.inj (Option.some.inj h)
      refine observes_silent ?_ (by simp)
      obtain ⟨alive, halive⟩ : ∃ alive, conn.checkIce now = { conn with alive := alive } :=
        checkIce_eq conn now
      rw [halive]
      exact Observer.Like.refl _
    | _ =>
      simp only [WebrtcConnection.next, hpc] at h
      obtain ⟨rfl, rfl⟩ := Prod.mk.inj (Option.some.inj h)
      exact observes_silent (Observer.Like.refl _) (by simp)

theorem observes_callback {cb : Callback} (h : conn.callback env c cb = some (conn', es)) :
    Observes env conn conn' (observations c (.callback c cb, es)) ∧
      Tells c (.callback c cb) es := by
  obtain ⟨-, observer, calls, hcall, rfl, rfl⟩ := callback_eq_some h
  have hobs : observations c (.callback c cb, [.observed c calls]) = [(cb, calls)] := if_pos rfl
  rw [Tells, hobs]
  refine ⟨.call ?_ hcall, by simp [Event.given, events]⟩
  cases cb with
  | onSignalingMessage message created =>
    unfold WebrtcConnection.callback at h
    split at h <;> exact absurd h (by simp)
  | _ => trivial

end

/-! ## 3. Messages are short -/

/-- No message on its way to a worker is longer than the buffer it came in. -/
structure Short (srv : Server) : Prop where
  buffer : srv.httpRwBuffer.length = Http.rwBufferSize
  queued : ∀ c conn, srv.heap c = some conn →
    ∀ message ∈ conn.queue, message.length ≤ Http.rwBufferSize
  pending : ∀ s acts, srv.pc = .handle s acts →
    ∀ c message, .pushMessage c message ∈ acts → message.length ≤ Http.rwBufferSize

namespace Short

variable {env : Env} {cfg : Http.Config} {srv srv' : Server}

/-- **The frame rule**: no message is new. -/
theorem frame (h : Short srv) (hbuffer : srv'.httpRwBuffer.length = Http.rwBufferSize)
    (hheap : ∀ c conn', srv'.heap c = some conn' → ∀ message ∈ conn'.queue,
      (∃ conn, srv.heap c = some conn ∧ message ∈ conn.queue) ∨
        message.length ≤ Http.rwBufferSize)
    (hpc : ∀ s acts, srv'.pc = .handle s acts → ∀ c message, .pushMessage c message ∈ acts →
      message.length ≤ Http.rwBufferSize) : Short srv' where
  buffer := hbuffer
  queued := by
    intro c conn' hc message hmessage
    rcases hheap c conn' hc message hmessage with ⟨conn, hc, hmem⟩ | hle
    · exact h.queued c conn hc message hmem
    · exact hle
  pending := hpc

/-- Of one connection. -/
theorem heap_update {heap : ConnPtr → Option WebrtcConnection} {c : ConnPtr}
    {conn₁ : Option WebrtcConnection}
    (h : ∀ conn', conn₁ = some conn' → ∀ message ∈ conn'.queue,
      (∃ conn, heap c = some conn ∧ message ∈ conn.queue) ∨
        message.length ≤ Http.rwBufferSize) :
    ∀ c' conn', Function.update heap c conn₁ c' = some conn' → ∀ message ∈ conn'.queue,
      (∃ conn, heap c' = some conn ∧ message ∈ conn.queue) ∨
        message.length ≤ Http.rwBufferSize := by
  intro c' conn' hc' message hmessage
  by_cases heq : c' = c
  · subst heq
    rw [Function.update_self] at hc'
    exact h conn' hc' message hmessage
  · rw [Function.update_of_ne heq] at hc'
    exact .inl ⟨conn', hc', hmessage⟩

theorem length_of_dispatched {buffer : Bytes} {httpReq : Http.HttpReq} {acts : List MainAct}
    (hbuffer : buffer.length = Http.rwBufferSize) (h : Dispatched srv buffer httpReq acts)
    {c : ConnPtr} {message : Bytes} (hin : .pushMessage c message ∈ acts) :
    message.length ≤ Http.rwBufferSize := by
  cases h with
  | message writes c' data =>
    simp only [List.mem_cons, List.not_mem_nil, or_false, reduceCtorEq,
      MainAct.pushMessage.injEq] at hin
    rw [hin.2, ← hbuffer]
    exact Nat.le_trans (cstr_isPrefix _).length_le (by simp)
  | _ => simp at hin

theorem step {l : Label} {es : List Event} (h : Short srv) (hstep : Happens env cfg srv l srv' es) :
    Short srv' := by
  have hbuffer := length_buffer_step h.buffer hstep
  -- a statement that is taken leaves those behind it
  have hrest : ∀ {s : SockPtr} {act : MainAct} {acts : List MainAct},
      srv.pc = .handle s (act :: acts) → ∀ s' acts', MainPc.handle s acts = .handle s' acts' →
      ∀ c message, .pushMessage c message ∈ acts' → message.length ≤ Http.rwBufferSize := by
    intro s act acts hpc s' acts' heq c message hin
    obtain ⟨rfl, rfl⟩ := MainPc.handle.inj heq
    exact h.pending s _ hpc c message (List.mem_cons_of_mem _ hin)
  have hsame : ∀ c conn', srv.heap c = some conn' → ∀ message ∈ conn'.queue,
      (∃ conn, srv.heap c = some conn ∧ message ∈ conn.queue) ∨
        message.length ≤ Http.rwBufferSize :=
    fun c conn' hc message hmessage => .inl ⟨conn', hc, hmessage⟩
  cases hstep with
  | idle | cleanupEnd | cleanupSkip | handled => exact h.frame hbuffer hsame (by simp)
  | reject => exact h.frame hbuffer hsame (by simp)
  | begin client buffer buffer' httpReq acts hpc hread hdispatch =>
    refine h.frame hbuffer hsame ?_
    intro s acts' heq c message hin
    obtain ⟨-, rfl⟩ := MainPc.handle.inj heq
    have hin : .pushMessage c message ∈ acts := by simpa using hin
    exact length_of_dispatched (Http.length_readRequest h.buffer hread)
      (dispatched_of_dispatch hdispatch) hin
  | cleanupDelete i c conn hpc hi hc hend =>
    exact h.frame hbuffer (heap_update (by simp)) (by simp)
  | newConnection s acts hpc =>
    refine h.frame hbuffer (heap_update ?_) (hrest hpc)
    rintro conn' heq message hmessage
    obtain rfl := Option.some.inj heq
    exact absurd hmessage (by simp [WebrtcConnection.new])
  | pushMessage s c message acts conn hpc hc =>
    refine h.frame hbuffer (heap_update ?_) (hrest hpc)
    rintro conn' heq message' hmessage
    obtain rfl := Option.some.inj heq
    rw [WebrtcConnection.pushMessage, List.mem_append, List.mem_singleton] at hmessage
    rcases hmessage with hmem | rfl
    · exact .inl ⟨conn, hc, hmem⟩
    · exact .inr (h.pending s _ hpc c message' List.mem_cons_self)
  | park s c acts conn hpc hc =>
    refine h.frame hbuffer (heap_update ?_) (hrest hpc)
    rintro conn' heq message hmessage
    obtain rfl := Option.some.inj heq
    exact .inl ⟨conn, hc, hmessage⟩
  | keepOpen s acts hpc | respond s writes acts hpc | closeUnlessWaiting s acts hpc
  | discard s acts hpc => exact h.frame hbuffer hsame (hrest hpc)
  | move l c conn conn' es hl hc hmove =>
    refine h.frame hbuffer (heap_update ?_) h.pending
    rintro conn'' heq message hmessage
    obtain rfl := Option.some.inj heq
    refine .inl ⟨conn, hc, ?_⟩
    cases hmove with
    | hand m queue created observer calls hpc hqueue =>
      rw [hqueue]
      exact List.mem_cons_of_mem _ hmessage
    | _ => exact hmessage

theorem of_run {buffer : Bytes} {tr : List (Label × List Event)}
    (hbuf : buffer.length = Http.rwBufferSize)
    (hrun : Run (Server.step env cfg) (Server.start buffer) tr srv) : Short srv :=
  hrun.invariant (fun _ srv => Short srv)
    ⟨hbuf, by simp [Server.start], by simp [Server.start]⟩
    fun _ _ _ _ _ _ ih hstep => ih.step (happens_of_step hstep)

theorem lt (h : Short srv) {c : ConnPtr} {conn : WebrtcConnection} (hc : srv.heap c = some conn) :
    ∀ message ∈ conn.queue, message.length < 2 ^ 31 := fun message hmessage =>
  Nat.lt_of_le_of_lt (h.queued c conn hc message hmessage) (by decide)

end Short

/-! ## 4. Along a run -/

/-- The observer of the connection went through the calls that the server made of it, and said
what the events say; before the connection there were none. -/
structure Observed (env : Env) (c : ConnPtr) (tr : List (Label × List Event)) (srv : Server) :
    Prop where
  run : ∃ o, Run (Observer.step env) .new (tr.flatMap (observations c)) o ∧
    ∀ conn, srv.heap c = some conn → Observer.Like o conn.observer
  told : (events tr).flatMap (Event.given c)
    = (events (tr.flatMap (observations c))).filterMap Call.given
  unborn : srv.nextConn ≤ c → tr.flatMap (observations c) = []

namespace Observed

variable {env : Env} {cfg : Http.Config} {c : ConnPtr} {tr : List (Label × List Event)}
  {srv srv' : Server} {l : Label} {es : List Event}

theorem start (buffer : Bytes) : Observed env c [] (Server.start buffer) where
  run := ⟨_, .refl, by simp [Server.start]⟩
  told := rfl
  unborn _ := rfl

theorem told_append (h : Observed env c tr srv) (htells : Tells c l es) :
    (events (tr ++ [(l, es)])).flatMap (Event.given c)
      = (events ((tr ++ [(l, es)]).flatMap (observations c))).filterMap Call.given := by
  rw [events_append, events_singleton, List.flatMap_append, h.told, htells, List.flatMap_append,
    List.flatMap_singleton, events_append, List.filterMap_append]

/-- **The frame rule**: a step that does not call the observer. -/
theorem frame (h : Observed env c tr srv) (hobs : observations c (l, es) = [])
    (htells : Tells c l es)
    (hheap : ∀ conn', srv'.heap c = some conn' →
      ∃ conn, srv.heap c = some conn ∧ conn'.observer = conn.observer)
    (hnext : srv.nextConn ≤ srv'.nextConn) : Observed env c (tr ++ [(l, es)]) srv' where
  run := by
    obtain ⟨o, hrun, hlike⟩ := h.run
    refine ⟨o, by simpa [hobs] using hrun, fun conn' hc' => ?_⟩
    obtain ⟨conn, hc, heq⟩ := hheap conn' hc'
    rw [heq]
    exact hlike conn hc
  told := h.told_append htells
  unborn := by
    intro hle
    rw [List.flatMap_append, List.flatMap_singleton, hobs, List.append_nil]
    exact h.unborn (Nat.le_trans hnext hle)

/-- A step of the connection itself. -/
theorem own {conn conn' : WebrtcConnection} (h : Observed env c tr srv)
    (hreg : Registry (events tr) srv) (hc : srv.heap c = some conn)
    (hobserves : Observes env conn conn' (observations c (l, es))) (htells : Tells c l es) :
    Observed env c (tr ++ [(l, es)])
      { srv with heap := Function.update srv.heap c (some conn') } where
  run := by
    obtain ⟨o, hrun, hlike⟩ := h.run
    obtain ⟨o', hrun', hlike'⟩ := hobserves o (hlike conn hc)
    refine ⟨o', by simpa using hrun.trans hrun', fun conn₁ hc₁ => ?_⟩
    dsimp only at hc₁
    rw [Function.update_self, Option.some.injEq] at hc₁
    exact hc₁ ▸ hlike'
  told := h.told_append htells
  unborn := fun hle => absurd (hreg.allocated c (hreg.mem_list hc)) (Nat.not_lt_of_le hle)

/-- A step of another connection. -/
theorem other {c' : ConnPtr} {conn conn' : WebrtcConnection} (h : Observed env c tr srv)
    (hne : c' ≠ c) (hl : (∃ act, l = .worker c' act) ∨ ∃ cb, l = .callback c' cb)
    (hmove : Moves env c' conn conn' es) :
    Observed env c (tr ++ [(l, es)])
      { srv with heap := Function.update srv.heap c' (some conn') } := by
  have hobs : observations c (l, es) = [] := by
    unfold observations
    rcases hl with ⟨act, rfl⟩ | ⟨cb, rfl⟩
    · split
      case h_1 heq =>
        obtain ⟨heq, -⟩ := Prod.mk.inj heq
        exact if_neg ((Label.worker.inj heq).1 ▸ hne)
      case h_2 heq => exact absurd (Prod.mk.inj heq).1 (by simp)
      case h_3 => rfl
    · split
      case h_1 heq => exact absurd (Prod.mk.inj heq).1 (by simp)
      case h_2 heq =>
        obtain ⟨heq, -⟩ := Prod.mk.inj heq
        exact if_neg ((Label.callback.inj heq).1 ▸ hne)
      case h_3 => rfl
  have hgiven : es.flatMap (Event.given c) = [] := by
    cases hmove with
    | close => cases conn.clientSocket <;> rfl
    | _ => simp [Event.given, hne]
  refine h.frame hobs (by rw [Tells, hobs, hgiven]; rfl) ?_ (Nat.le_refl _)
  intro conn₁ hc₁
  dsimp only at hc₁
  rw [Function.update_of_ne (Ne.symm hne)] at hc₁
  exact ⟨conn₁, hc₁, rfl⟩

/-- A new connection has a new observer. -/
theorem newConnection {s : SockPtr} {acts : List MainAct} (h : Observed env c tr srv) :
    Observed env c (tr ++ [(.main, [.signIn srv.nextConn srv.peerId])]) { srv with
      peerId := (srv.peerId + 1) % 2 ^ 32
      webrtcConnectionList := srv.webrtcConnectionList ++ [srv.nextConn]
      heap := Function.update srv.heap srv.nextConn (some (.new srv.peerId))
      nextConn := srv.nextConn + 1
      pc := .handle s acts } := by
  by_cases heq : c = srv.nextConn
  · have hnil := h.unborn (Nat.le_of_eq heq.symm)
    have hnil' : (tr ++ [(Label.main, [Event.signIn srv.nextConn srv.peerId])]).flatMap
        (observations c) = [] := by
      rw [List.flatMap_append, hnil]
      rfl
    refine ⟨⟨.new, hnil' ▸ .refl, fun conn hc => ?_⟩, h.told_append rfl, fun _ => hnil'⟩
    dsimp only at hc
    rw [heq, Function.update_self, Option.some.injEq] at hc
    rw [← hc]
    rfl
  · refine h.frame rfl rfl (fun conn' hc' => ?_) (Nat.le_succ _)
    dsimp only at hc'
    rw [Function.update_of_ne heq] at hc'
    exact ⟨conn', hc', rfl⟩

/-- A step of a worker or a callback. -/
theorem conn_step {c' : ConnPtr} (h : Observed env c tr srv) (hreg : Registry (events tr) srv)
    (hshort : Short srv) (hl : (∃ act, l = .worker c' act) ∨ ∃ cb, l = .callback c' cb)
    (hstep : srv.step env cfg l = some (srv', es)) : Observed env c (tr ++ [(l, es)]) srv' := by
  by_cases heq : c' = c
  · subst heq
    rcases hl with ⟨act, rfl⟩ | ⟨cb, rfl⟩
    · obtain ⟨conn, conn', hc, hwork, rfl⟩ := onConn_eq_some hstep
      obtain ⟨hobserves, htells⟩ := observes_work (hshort.lt hc) hwork
      exact h.own hreg hc hobserves htells
    · obtain ⟨conn, conn', hc, hcallback, rfl⟩ := onConn_eq_some hstep
      obtain ⟨hobserves, htells⟩ := observes_callback hcallback
      exact h.own hreg hc hobserves htells
  · obtain ⟨conn, conn', hc, hmove, rfl⟩ := moves_of_step hl hstep
    exact h.other heq hl hmove

theorem step (h : Observed env c tr srv) (hreg : Registry (events tr) srv) (hshort : Short srv)
    (hstep : srv.step env cfg l = some (srv', es)) : Observed env c (tr ++ [(l, es)]) srv' := by
  have hsame : ∀ conn', srv.heap c = some conn' →
      ∃ conn, srv.heap c = some conn ∧ conn'.observer = conn.observer :=
    fun conn' hc => ⟨conn', hc, rfl⟩
  -- of the connections, the main loop changes what is not the observer
  have hupdate : ∀ {c' : ConnPtr} {conn conn₁ : WebrtcConnection}, srv.heap c' = some conn →
      conn₁.observer = conn.observer →
      ∀ conn', Function.update srv.heap c' (some conn₁) c = some conn' →
        ∃ conn, srv.heap c = some conn ∧ conn'.observer = conn.observer := by
    intro c' conn conn₁ hc hobserver conn' hc'
    by_cases heq : c = c'
    · subst heq
      rw [Function.update_self, Option.some.injEq] at hc'
      exact ⟨conn, hc, hc' ▸ hobserver⟩
    · rw [Function.update_of_ne heq] at hc'
      exact ⟨conn', hc', rfl⟩
  cases happens_of_step hstep with
  | newConnection s acts hpc => exact h.newConnection
  | cleanupDelete i c' conn hpc hi hc hend =>
    refine h.frame rfl rfl (fun conn' hc' => ?_) (Nat.le_refl _)
    dsimp only at hc'
    by_cases heq : c = c'
    · rw [heq, Function.update_self] at hc'
      exact absurd hc' (by simp)
    · rw [Function.update_of_ne heq] at hc'
      exact ⟨conn', hc', rfl⟩
  | pushMessage s c' message acts conn hpc hc =>
    exact h.frame rfl rfl (hupdate hc rfl) (Nat.le_refl _)
  | park s c' acts conn hpc hc => exact h.frame rfl rfl (hupdate hc rfl) (Nat.le_refl _)
  | closeUnlessWaiting s acts hpc =>
    refine h.frame rfl ?_ hsame (Nat.le_refl _)
    unfold Tells
    split <;> rfl
  | move l c' conn conn' es hl hc hmove => exact h.conn_step hreg hshort hl hstep
  | _ => exact h.frame rfl rfl hsame (Nat.le_refl _)

theorem of_run {buffer : Bytes} (c : ConnPtr) (hbuf : buffer.length = Http.rwBufferSize)
    (hrun : Run (Server.step env cfg) (Server.start buffer) tr srv) : Observed env c tr srv := by
  refine hrun.invariant (fun tr srv => Observed env c tr srv) (start buffer) ?_
  intro tr srv l srv' es hr ih hstep
  exact ih.step (Registry.of_run hr) (Short.of_run hbuf hr) hstep

end Observed

/-! ## 5. What the client hears -/

section

variable {env : Env} {cfg : Http.Config} {buffer : Bytes} {tr : List (Label × List Event)}
  {srv : Server}

/-- **A connection's observer goes through a run of its own**, up to its queue: what was written to
the connection's sockets, followed by what is in the queue now, is the queue that the observer alone
would have. -/
theorem observer_of_run (hbuf : buffer.length = Http.rwBufferSize)
    (hrun : Run (Server.step env cfg) (Server.start buffer) tr srv) (c : ConnPtr) :
    ∃ o, Run (Observer.step env) .new (tr.flatMap (observations c)) o ∧
      (events tr).flatMap (Event.given c) = o.msgQueue ∧
      ∀ conn, srv.heap c = some conn →
        conn.observer = { o with msgQueue := conn.observer.msgQueue } ∧
        (events tr).filterMap (Event.relayed c) ++ conn.observer.msgQueue = o.msgQueue := by
  have h := Observed.of_run c hbuf hrun
  obtain ⟨o, hobs, hlike⟩ := h.run
  have hgiven : (events tr).flatMap (Event.given c) = o.msgQueue := by
    rw [h.told, msgQueue_of_run hobs]
  refine ⟨o, hobs, hgiven, fun conn hc => ⟨hlike conn hc, ?_⟩⟩
  rw [← hgiven]
  exact ((Relayed.of_run hrun).balanced c conn hc).outbound

/-- Once a connection is gone, nothing more is about it. -/
theorem conn_of_gone {srv' : Server} {l : Label} {es : List Event} {c : ConnPtr}
    (h : Happens env cfg srv l srv' es) (hgone : srv'.heap c = none) :
    ∀ e ∈ es, e.conn ≠ some c := by
  have hupdate : ∀ {c' : ConnPtr} {conn : WebrtcConnection},
      Function.update srv.heap c' (some conn) c = none → c' ≠ c := by
    rintro c' conn hnone rfl
    rw [Function.update_self] at hnone
    exact absurd hnone (by simp)
  cases h with
  | pushMessage s c' message acts conn hpc hc => simpa [Event.conn] using hupdate hgone
  | closeUnlessWaiting =>
    split <;> simp [Event.conn]
  | move l c' conn conn' es hl hc hmove =>
    have hne := hupdate hgone
    cases hmove with
    | close => cases conn.clientSocket <;> simp [Event.conn]
    | _ => simp [Event.conn, hne]
  | _ => simp [Event.conn]

/-- What was written to a connection's sockets is the first part of what its observer said, whether
the connection still exists or not. -/
theorem relayed_prefix (hrun : Run (Server.step env cfg) (Server.start buffer) tr srv)
    (c : ConnPtr) :
    (events tr).filterMap (Event.relayed c) <+: (events tr).flatMap (Event.given c) := by
  refine hrun.invariant (fun tr _ => (events tr).filterMap (Event.relayed c) <+:
    (events tr).flatMap (Event.given c)) (List.prefix_refl _) ?_
  intro tr srv l srv' es hr ih hstep
  cases hc : srv'.heap c with
  | some conn =>
    have hbalanced := (Relayed.of_run (hr.tail hstep)).balanced c conn hc
    exact ⟨_, hbalanced.outbound⟩
  | none =>
    obtain ⟨-, -, hrelayed, hgiven⟩ :=
      Balanced.entries_nil (conn_of_gone (happens_of_step hstep) hc)
    rw [events_append, events_singleton, List.filterMap_append, List.flatMap_append, hrelayed,
      hgiven, List.append_nil, List.append_nil]
    exact ih

/-- **The client of a connection hears what WebRTC had its observer say**, in that order: what was
written to its wait sockets so far, and then what waits in the queue.  So it is in every run of the
server in which the strings WebRTC gives it are text, none of them holds an arrow and none of a
candidate's a separator (`Utterable`), and no gathering completes before the first candidate. -/
theorem heard_by_client (hbuf : buffer.length = Http.rwBufferSize)
    (hrun : Run (Server.step env cfg) (Server.start buffer) tr srv) (c : ConnPtr)
    (hfirst : CandidateFirst (tr.flatMap (observations c)))
    (hutter : ∀ x ∈ tr.flatMap (observations c), x.1.Utterable) :
    ∃ later, List.Forall₂ Hears ((events tr).filterMap (Event.relayed c) ++ later)
        (said [] ((tr.flatMap (observations c)).map Prod.fst)) ∧
      ∀ conn, srv.heap c = some conn → later = conn.observer.msgQueue := by
  have h := Observed.of_run c hbuf hrun
  obtain ⟨o, hobs, -⟩ := h.run
  obtain ⟨later, hlater⟩ := relayed_prefix hrun c
  refine ⟨later, ?_, fun conn hc => ?_⟩
  · rw [hlater, h.told, ← msgQueue_of_run hobs]
    exact heard_of_run hobs hfirst hutter
  · have houtbound := ((Relayed.of_run hrun).balanced c conn hc).outbound
    rw [← hlater] at houtbound
    exact (List.append_cancel_left houtbound).symm

end

/-- A candidate goes out on the socket that waits for it. -/
theorem sampleExchange_run : ∃ tr srv, Run (Server.step deafEnv sampleConfig) sampleStart tr srv ∧
    CandidateFirst (tr.flatMap (observations 0)) ∧
    (∀ x ∈ tr.flatMap (observations 0), x.1.Utterable) ∧
    ((events tr).filterMap (Event.relayed 0)).length = 1 ∧ (srv.heap 0).isSome := by
  obtain ⟨tr, srv, hrun, hp⟩ := exists_run (Server.step deafEnv sampleConfig) sampleStart
    sampleExchange (fun tr srv => decide (CandidateFirst (tr.flatMap (observations 0)) ∧
      (∀ x ∈ tr.flatMap (observations 0), x.1.Utterable) ∧
      ((events tr).filterMap (Event.relayed 0)).length = 1 ∧ (srv.heap 0).isSome))
    (by decide +kernel)
  exact ⟨tr, srv, hrun, of_decide_eq_true hp⟩

theorem observer_of_run_sample : ∃ tr srv o conn,
    Run (Server.step deafEnv sampleConfig) sampleStart tr srv ∧
    Run (Observer.step deafEnv) .new (tr.flatMap (observations 0)) o ∧
    srv.heap 0 = some conn ∧ ((events tr).filterMap (Event.relayed 0)).length = 1 ∧
    (events tr).filterMap (Event.relayed 0) ++ conn.observer.msgQueue = o.msgQueue := by
  obtain ⟨tr, srv, hrun, -, -, hone, hsome⟩ := sampleExchange_run
  obtain ⟨conn, hc⟩ := Option.isSome_iff_exists.mp hsome
  obtain ⟨o, hobs, -, hconn⟩ := observer_of_run List.length_replicate hrun 0
  exact ⟨tr, srv, o, conn, hrun, hobs, hc, hone, (hconn conn hc).2⟩

theorem heard_by_client_sample : ∃ tr srv later,
    Run (Server.step deafEnv sampleConfig) sampleStart tr srv ∧
    ((events tr).filterMap (Event.relayed 0)).length = 1 ∧
    List.Forall₂ Hears ((events tr).filterMap (Event.relayed 0) ++ later)
      (said [] ((tr.flatMap (observations 0)).map Prod.fst)) := by
  obtain ⟨tr, srv, hrun, hfirst, hutter, hone, -⟩ := sampleExchange_run
  obtain ⟨later, hheard, -⟩ := heard_by_client List.length_replicate hrun 0 hfirst hutter
  exact ⟨tr, srv, later, hrun, hone, hheard⟩

end Reflector
