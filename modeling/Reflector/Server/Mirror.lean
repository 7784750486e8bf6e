/-
# The connections of the server are peers

Whatever the other threads and the other clients do, a connection of the server goes through what
a peer alone could go through (`Mirrored`): the steps that are nothing to it drop out, a step of
its own is a step of the peer, and a callback of `OnSuccess` is its three statements in a row.  The
events its client can see are the same, in the same order (`peer_of_run`).

So what holds of a peer's dealings with its client holds of every connection of the server; the
answer comes first there, too (`answerFirst_of_server`).
-/
import Reflector.Server.Peer

namespace Reflector

open Base Signaling

/-! ## 1. What one step of the server stands for -/

/-- What the client of a connection sends, and what it gets. -/
def Event.ofClient (c : ConnPtr) : Event → Bool
  | .push c' _ | .park c' _ | .hand c' _ | .relay c' _ _ _ => c' == c
  | _ => false

def Label.gathers (c : ConnPtr) : Label → Bool
  | .callback c' cb => c' == c && cb.gathers
  | _ => false

/-- The steps of a peer that one step of the server stands for. -/
structure Stands (env : Env) (c : ConnPtr) (p p' : Peer) (l : Label) (es : List Event)
    (tr : List (Peer.Label × List Event)) : Prop where
  run : Run (Peer.step env c) p tr p'
  ofClient : (events tr).filter (Event.ofClient c) = es.filter (Event.ofClient c)
  gathers : ∀ x ∈ tr, x.1.gathers = true → l.gathers c = true
  describes : es.any (Event.describes c) = true → (events tr).any (Event.describes c) = true

section

variable {env : Env} {cfg : Http.Config} {c : ConnPtr} {conn conn' : WebrtcConnection}
  {es : List Event} {p : Peer}

theorem Stands.refl {l : Label} (hes : ∀ e ∈ es, e.ofClient c = false)
    (hdescribes : ∀ e ∈ es, e.describes c = false) : Stands env c p p l es [] where
  run := .refl
  ofClient := by
    rw [events_nil, List.filter_nil, eq_comm, List.filter_eq_nil_iff]
    intro e he
    simp [hes e he]
  gathers := by simp
  describes := by
    intro hany
    obtain ⟨e, he, hdescribes'⟩ := List.any_eq_true.mp hany
    exact absurd hdescribes' (by simp [hdescribes e he])

/-- One step, of the same kind and with the same events. -/
theorem Stands.single {l : Label} {l' : Peer.Label} {p' : Peer}
    (hstep : p.step env c l' = some (p', es)) (hl : l'.gathers = true → l.gathers c = true) :
    Stands env c p p' l es [(l', es)] where
  run := Run.refl.tail hstep
  ofClient := by rw [events_singleton]
  gathers := by simpa using hl
  describes := by rw [events_singleton]; exact id

/-- **The three statements of `OnSuccess` in a row are its callback.** -/
theorem stands_of_onSuccess {type sdp : Bytes} (hrunning : p.running = [])
    (h : p.conn.callback env c (.onSuccess type sdp) = some (conn', es)) :
    ∃ tr, Stands env c p { p with conn := conn' } (.callback c (.onSuccess type sdp)) es tr := by
  obtain ⟨hpc, observer, calls, hcall, rfl, rfl⟩ := callback_eq_some h
  rw [Observer.call, Observer.onSuccess_eq] at hcall
  obtain ⟨⟨o, sent⟩, hanswer, hcall⟩ := bind_eq_ok.mp hcall
  obtain ⟨described, hdescribe, hcall⟩ := bind_eq_ok.mp hcall
  obtain ⟨added, hadd, hcall⟩ := bind_eq_ok.mp hcall
  obtain ⟨rfl, rfl⟩ := Prod.mk.inj (Except.ok.inj hcall)
  have h₁ : p.step env c (.callback (.onSuccess type sdp))
      = some (⟨{ p.conn with observer := o }, [.setLocalDescription type sdp], p.nextSock⟩,
        [.observed c sent]) := by
    simp [Peer.step, hanswer, Peer.observe, hpc, hrunning]
  have h₂ : Peer.step env c
      ⟨{ p.conn with observer := o }, [.setLocalDescription type sdp], p.nextSock⟩
      (.resume (.setLocalDescription type sdp))
      = some (⟨{ p.conn with observer := o }, [.addRemoteCandidates], p.nextSock⟩,
        [.observed c described]) := by
    simp [Peer.step, hdescribe, Peer.observe, hpc]
  have h₃ : Peer.step env c ⟨{ p.conn with observer := o }, [.addRemoteCandidates], p.nextSock⟩
      (.resume .addRemoteCandidates)
      = some ({ p with conn := { p.conn with observer := o } }, [.observed c added]) := by
    simp [Peer.step, hadd, Peer.observe, hpc, hrunning]
  exact ⟨_, {
    run := ((Run.refl.tail h₁).tail h₂).tail h₃
    ofClient := by simp [events, Event.ofClient]
    gathers := by simp [Peer.Label.gathers, Callback.gathers]
    describes := by simp [events, Event.describes] }⟩

/-- A callback of the server is one of the peer. -/
theorem stands_of_callback {cb : Callback} (hrunning : p.running = [])
    (h : p.conn.callback env c cb = some (conn', es)) :
    ∃ tr, Stands env c p { p with conn := conn' } (.callback c cb) es tr := by
  have hgathers : (Peer.Label.callback cb).gathers = true →
      (Label.callback c cb).gathers c = true := by
    simp [Peer.Label.gathers, Label.gathers]
  cases cb with
  | onSuccess type sdp => exact stands_of_onSuccess hrunning h
  | _ => exact ⟨_, .single (by simp only [Peer.step, h, Option.map_some]) hgathers⟩

/-! ## 2. Along a run -/

/-- A run of a peer that looks to its client as connection `c` of the server does. -/
structure Mirrors (env : Env) (c : ConnPtr) (tr : List (Label × List Event)) (srv : Server)
    (p : Peer) (tr' : List (Peer.Label × List Event)) : Prop where
  run : ∃ peerId, Run (Peer.step env c) (Peer.new peerId) tr' p
  running : p.running = []
  ofClient : (events tr').filter (Event.ofClient c) = (events tr).filter (Event.ofClient c)
  late : Preceded (fun x => x.1.gathers c = true) (fun x => x.2.any (Event.describes c) = true) tr →
    GathersLate c tr'
  describes : (events tr).any (Event.describes c) = true →
    (events tr').any (Event.describes c) = true
  sockets : p.nextSock ≤ srv.nextSock
  /-- The socket at hand is later than those the connection was given. -/
  waits : ∀ s acts, srv.pc = .handle s acts → .setOutboundSocket c ∈ acts → p.nextSock ≤ s

theorem Mirrors.step {tr : List (Label × List Event)} {srv srv' : Server} {l : Label} {p' : Peer}
    {tr' tr₁ : List (Peer.Label × List Event)} (h : Mirrors env c tr srv p tr')
    (hstands : Stands env c p p' l es tr₁) (hrunning : p'.running = [])
    (hsockets : p'.nextSock ≤ srv'.nextSock)
    (hwaits : ∀ s acts, srv'.pc = .handle s acts → .setOutboundSocket c ∈ acts →
      p'.nextSock ≤ s) :
    Mirrors env c (tr ++ [(l, es)]) srv' p' (tr' ++ tr₁) where
  run := by
    obtain ⟨peerId, hrun⟩ := h.run
    exact ⟨peerId, hrun.trans hstands.run⟩
  running := hrunning
  ofClient := by
    rw [events_append, events_append, events_singleton, List.filter_append, List.filter_append,
      h.ofClient, hstands.ofClient]
  late := by
    intro hlate
    obtain ⟨hlate, hnow⟩ := preceded_concat.mp hlate
    refine forall_split_append.mpr ⟨h.late hlate, ?_⟩
    rintro l₁ x l₂ rfl hgathers
    have hany := h.describes (any_describes_iff.mpr (hnow (hstands.gathers x (by simp) hgathers)))
    obtain ⟨y, hy, hdescribes⟩ := any_describes_iff.mp hany
    exact ⟨y, List.mem_append_left _ hy, hdescribes⟩
  describes := by
    simp only [events_append, events_singleton, List.any_append, Bool.or_eq_true]
    exact Or.imp h.describes hstands.describes
  sockets := hsockets
  waits := hwaits

/-! ## 3. Every step keeps it -/

/-- An event that is nothing to connection `c`. -/
def Event.Other (c : ConnPtr) (e : Event) : Prop := e.ofClient c = false ∧ e.describes c = false

theorem Moves.other {c' : ConnPtr} (h : Moves env c' conn conn' es) (hne : c' ≠ c) :
    ∀ e ∈ es, e.Other c := by
  cases h with
  | close hpc =>
    cases conn.clientSocket <;> simp [Event.Other, Event.ofClient, Event.describes]
  | _ => simp [Event.Other, Event.ofClient, Event.describes, hne]

/-- The connection, while it exists, behaves as a peer; before that, nothing is about it. -/
structure Mirrored (env : Env) (c : ConnPtr) (tr : List (Label × List Event)) (srv : Server) :
    Prop where
  alive : ∀ conn, srv.heap c = some conn → ∃ p tr', p.conn = conn ∧ Mirrors env c tr srv p tr'
  unborn : srv.nextConn ≤ c → ∀ e ∈ events tr, e.Other c

namespace Mirrored

variable {tr : List (Label × List Event)} {srv srv' : Server} {l : Label}

theorem start (env : Env) (c : ConnPtr) (buffer : Bytes) :
    Mirrored env c [] (Server.start buffer) where
  alive := by simp [Server.start]
  unborn := by simp

theorem unborn_append (h : Mirrored env c tr srv) (hnext : srv.nextConn ≤ srv'.nextConn)
    (hes : srv'.nextConn ≤ c → ∀ e ∈ es, e.Other c) :
    srv'.nextConn ≤ c → ∀ e ∈ events (tr ++ [(l, es)]), e.Other c := by
  intro hle e he
  rw [events_append, events_singleton] at he
  rcases List.mem_append.mp he with he | he
  · exact h.unborn (Nat.le_trans hnext hle) e he
  · exact hes hle e he

/-- **The frame rule**: a step that is nothing to the connection. -/
theorem frame (h : Mirrored env c tr srv) (hes : ∀ e ∈ es, e.Other c)
    (hheap : srv'.heap c = srv.heap c) (hnext : srv.nextConn ≤ srv'.nextConn)
    (hsockets : srv.nextSock ≤ srv'.nextSock)
    (hwaits : ∀ s acts, srv'.pc = .handle s acts → .setOutboundSocket c ∈ acts →
      srv.nextSock ≤ s ∨ ∃ acts', srv.pc = .handle s acts' ∧ .setOutboundSocket c ∈ acts') :
    Mirrored env c (tr ++ [(l, es)]) srv' where
  alive := by
    intro conn hc
    rw [hheap] at hc
    obtain ⟨p, tr', hp, hmirrors⟩ := h.alive conn hc
    refine ⟨p, tr' ++ [], hp, hmirrors.step (.refl (fun e he => (hes e he).1) fun e he =>
      (hes e he).2) hmirrors.running (Nat.le_trans hmirrors.sockets hsockets) ?_⟩
    intro s acts hpc hin
    rcases hwaits s acts hpc hin with hle | ⟨acts', hpc', hin'⟩
    · exact Nat.le_trans hmirrors.sockets hle
    · exact hmirrors.waits s acts' hpc' hin'
  unborn := h.unborn_append hnext fun _ => hes

/-- The main loop takes the next statement of its request. -/
theorem frame_main (h : Mirrored env c tr srv) {s : SockPtr} {act : MainAct}
    {acts : List MainAct} (hpc : srv.pc = .handle s (act :: acts)) (hes : ∀ e ∈ es, e.Other c)
    (hheap : srv'.heap c = srv.heap c) (hnext : srv.nextConn ≤ srv'.nextConn)
    (hsockets : srv'.nextSock = srv.nextSock) (hpc' : srv'.pc = .handle s acts) :
    Mirrored env c (tr ++ [(l, es)]) srv' := by
  refine h.frame hes hheap hnext (Nat.le_of_eq hsockets.symm) fun s' acts' heq hin => .inr ?_
  obtain ⟨rfl, rfl⟩ := MainPc.handle.inj (hpc'.symm.trans heq)
  exact ⟨act :: acts, hpc, List.mem_cons_of_mem _ hin⟩

/-- A step of the connection itself. -/
theorem own (h : Mirrored env c tr srv) (hreg : Registry (events tr) srv)
    (hc : srv.heap c = some conn)
    (hstep : ∀ p : Peer, p.conn = conn → p.running = [] →
      ∃ tr₁, Stands env c p { p with conn := conn' } l es tr₁)
    (hheap : srv'.heap = Function.update srv.heap c (some conn'))
    (hnext : srv'.nextConn = srv.nextConn) (hsockets : srv'.nextSock = srv.nextSock)
    (hwaits : ∀ s acts, srv'.pc = .handle s acts → .setOutboundSocket c ∈ acts →
      ∃ acts', srv.pc = .handle s acts' ∧ .setOutboundSocket c ∈ acts') :
    Mirrored env c (tr ++ [(l, es)]) srv' where
  alive := by
    intro conn₁ hc₁
    rw [hheap, Function.update_self] at hc₁
    obtain rfl := Option.some.inj hc₁
    obtain ⟨p, tr', hp, hmirrors⟩ := h.alive conn hc
    obtain ⟨tr₁, hstands⟩ := hstep p hp hmirrors.running
    refine ⟨_, tr' ++ tr₁, rfl, hmirrors.step hstands hmirrors.running
      (hsockets ▸ hmirrors.sockets) ?_⟩
    intro s acts hpc hin
    obtain ⟨acts', hpc', hin'⟩ := hwaits s acts hpc hin
    exact hmirrors.waits s acts' hpc' hin'
  unborn := by
    refine h.unborn_append (Nat.le_of_eq hnext.symm) fun hle => ?_
    rw [hnext] at hle
    exact absurd (hreg.allocated c (hreg.mem_list hc)) (Nat.not_lt_of_le hle)

/-- A worker or a callback, of this connection or another. -/
theorem conn_step {c' : ConnPtr} (h : Mirrored env c tr srv) (hreg : Registry (events tr) srv)
    (hc : srv.heap c' = some conn) (hmove : Moves env c' conn conn' es)
    (hstep : c' = c → ∀ p : Peer, p.conn = conn → p.running = [] →
      ∃ tr₁, Stands env c p { p with conn := conn' } l es tr₁) :
    Mirrored env c (tr ++ [(l, es)])
      { srv with heap := Function.update srv.heap c' (some conn') } := by
  by_cases heq : c' = c
  · subst heq
    exact h.own hreg hc (hstep rfl) rfl rfl rfl fun s acts hpc hin => ⟨acts, hpc, hin⟩
  · exact h.frame (hmove.other heq) (Function.update_of_ne (Ne.symm heq) _ _) (Nat.le_refl _)
      (Nat.le_refl _) fun s acts hpc hin => .inr ⟨acts, hpc, hin⟩

/-- **A wait of the connection**: the socket at hand goes into its slot. -/
theorem park (h : Mirrored env c tr srv) (hinv : Sockets (events tr) srv)
    (hreg : Registry (events tr) srv) {s : SockPtr} {acts : List MainAct}
    (hpc : srv.pc = .handle s (.setOutboundSocket c :: acts)) (hc : srv.heap c = some conn)
    (hlock : ¬ conn.Locked) :
    Mirrored env c (tr ++ [(l, [.park c s])]) { srv with
      heap := Function.update srv.heap c (some { conn with clientSocket := some s })
      pc := .handle s acts } where
  alive := by
    intro conn₁ hc₁
    simp only [Function.update_self, Option.some.injEq] at hc₁
    subst hc₁
    obtain ⟨p, tr', rfl, hmirrors⟩ := h.alive conn hc
    have hfresh : p.nextSock ≤ s := hmirrors.waits s _ hpc List.mem_cons_self
    have hstep : p.step env c (.wait s) = some ({ p with
        conn := { p.conn with clientSocket := some s }, nextSock := s + 1 }, [.park c s]) := by
      simp only [Peer.step, if_pos hfresh, WebrtcConnection.setOutboundSocket, if_neg hlock,
        Option.map_some]
    obtain ⟨hlt, hacts⟩ := hinv.main s _ hpc
    -- a request waits once
    have hnone : MainAct.setOutboundSocket c ∉ acts := by
      rcases hacts with hreleased | ⟨howned, -⟩
      · cases hreleased
      · cases howned
        simp
    refine ⟨_, _, rfl, hmirrors.step (.single hstep (by simp [Peer.Label.gathers]))
      hmirrors.running hlt ?_⟩
    intro s' acts' hpc' hin
    obtain ⟨rfl, rfl⟩ := MainPc.handle.inj hpc'
    exact absurd hin hnone
  unborn := h.unborn_append (Nat.le_refl _) fun hle =>
    absurd (hreg.allocated c (hreg.mem_list hc)) (Nat.not_lt_of_le hle)

/-- A new connection is a new peer. -/
theorem newConnection (h : Mirrored env c tr srv) {s : SockPtr} {acts : List MainAct}
    (hpc : srv.pc = .handle s (.newConnection :: acts)) :
    Mirrored env c (tr ++ [(.main, [.signIn srv.nextConn srv.peerId])]) { srv with
      peerId := (srv.peerId + 1) % 2 ^ 32
      webrtcConnectionList := srv.webrtcConnectionList ++ [srv.nextConn]
      heap := Function.update srv.heap srv.nextConn (some (.new srv.peerId))
      nextConn := srv.nextConn + 1
      pc := .handle s acts } := by
  have hes : ∀ e ∈ [Event.signIn srv.nextConn srv.peerId], e.Other c := by
    simp [Event.Other, Event.ofClient, Event.describes]
  by_cases heq : c = srv.nextConn
  · constructor
    · intro conn hc
      simp only [heq, Function.update_self, Option.some.injEq] at hc
      subst hc
      have hall : ∀ e ∈ events (tr ++ [(Label.main, [Event.signIn srv.nextConn srv.peerId])]),
          e.Other c := by
        intro e he
        rw [events_append, events_singleton] at he
        rcases List.mem_append.mp he with he | he
        · exact h.unborn (Nat.le_of_eq heq.symm) e he
        · exact hes e he
      have hnone : Stands env c (Peer.new srv.peerId) (Peer.new srv.peerId) .main
          (events (tr ++ [(Label.main, [Event.signIn srv.nextConn srv.peerId])])) [] :=
        .refl (fun e he => (hall e he).1) fun e he => (hall e he).2
      exact ⟨Peer.new srv.peerId, [], rfl, {
        run := ⟨srv.peerId, .refl⟩
        running := rfl
        ofClient := hnone.ofClient
        late := fun _ => preceded_nil
        describes := hnone.describes
        sockets := Nat.zero_le _
        waits := fun _ _ _ _ => Nat.zero_le _ }⟩
    · exact h.unborn_append (Nat.le_succ _) fun _ => hes
  · exact h.frame_main hpc hes (Function.update_of_ne heq _ _) (Nat.le_succ _) rfl rfl

/-- **The main loop keeps it.** -/
theorem main_step (h : Mirrored env c tr srv) (hinv : Sockets (events tr) srv)
    (hreg : Registry (events tr) srv) (hstep : Happens env cfg srv .main srv' es) :
    Mirrored env c (tr ++ [(.main, es)]) srv' := by
  cases hstep with
  | cleanupEnd i hpc hi | cleanupSkip i c' conn hpc hi hc hend | handled s hpc =>
    exact h.frame (by simp) rfl (Nat.le_refl _) (Nat.le_refl _) (by simp)
  | cleanupDelete i c' conn hpc hi hc hend =>
    by_cases heq : c = c'
    · subst heq
      constructor
      · intro conn₁ hc₁
        simp at hc₁
      · refine h.unborn_append (Nat.le_refl _) fun hle => ?_
        exact absurd (hreg.allocated c (hreg.mem_list hc)) (Nat.not_lt_of_le hle)
    · exact h.frame (by simp [Event.Other, Event.ofClient, Event.describes])
        (Function.update_of_ne heq _ _) (Nat.le_refl _) (Nat.le_refl _) (by simp)
  | newConnection s acts hpc => exact h.newConnection hpc
  | pushMessage s c' message acts conn hpc hc =>
    by_cases heq : c' = c
    · subst heq
      refine h.own hreg hc (fun p hp _ => ?_) rfl rfl rfl fun s' acts' hpc' hin => ?_
      · have hstep : p.step env c' (.message message) = some ({ p with
            conn := conn.pushMessage message }, [.push c' message]) := by
          rw [Peer.step, hp]
        exact ⟨_, .single hstep (by simp [Peer.Label.gathers])⟩
      · obtain ⟨rfl, rfl⟩ := MainPc.handle.inj hpc'
        exact ⟨_, hpc, List.mem_cons_of_mem _ hin⟩
    · exact h.frame_main hpc (by simp [Event.Other, Event.ofClient, Event.describes, heq])
        (Function.update_of_ne (Ne.symm heq) _ _) (Nat.le_refl _) rfl rfl
  | park s c' acts conn hpc hc hlock =>
    by_cases heq : c' = c
    · subst heq
      exact h.park hinv hreg hpc hc hlock
    · exact h.frame_main hpc (by simp [Event.Other, Event.ofClient, Event.describes, heq])
        (Function.update_of_ne (Ne.symm heq) _ _) (Nat.le_refl _) rfl rfl
  | keepOpen s acts hpc => exact h.frame_main hpc (by simp) rfl (Nat.le_refl _) rfl rfl
  | respond s writes acts hpc =>
    exact h.frame_main hpc (by simp [Event.Other, Event.ofClient, Event.describes]) rfl
      (Nat.le_refl _) rfl rfl
  | closeUnlessWaiting s acts hpc =>
    refine h.frame_main hpc ?_ rfl (Nat.le_refl _) rfl rfl
    split <;> simp [Event.Other, Event.ofClient, Event.describes]
  | discard s acts hpc =>
    exact h.frame_main hpc (by simp [Event.Other, Event.ofClient, Event.describes]) rfl
      (Nat.le_refl _) rfl rfl
  | move l c' conn conn' es hl hc hmove => exact absurd hl (by simp)

/-- **One step of the server keeps it.** -/
theorem step (h : Mirrored env c tr srv) (hinv : Sockets (events tr) srv)
    (hreg : Registry (events tr) srv) (hstep : srv.step env cfg l = some (srv', es)) :
    Mirrored env c (tr ++ [(l, es)]) srv' := by
  cases l with
  | idle =>
    cases happens_of_step hstep with
    | idle hpc => exact h.frame (by simp) rfl (Nat.le_refl _) (Nat.le_refl _) (by simp)
    | move l c' conn conn' es hl hc hmove => exact absurd hl (by simp)
  | accept client =>
    cases happens_of_step hstep with
    | reject client buffer httpReq hpc hread =>
      exact h.frame (by simp) rfl (Nat.le_refl _) (Nat.le_succ _) (by simp)
    | begin client buffer buffer' httpReq acts hpc hread hdispatch =>
      refine h.frame (by simp) rfl (Nat.le_refl _) (Nat.le_succ _) fun s acts' hpc' _ => .inl ?_
      exact Nat.le_of_eq (MainPc.handle.inj hpc').1
    | move l c' conn conn' es hl hc hmove => exact absurd hl (by simp)
  | main => exact h.main_step hinv hreg (happens_of_step hstep)
  | worker c' act =>
    obtain ⟨conn, conn', hc, hwork, rfl⟩ := onConn_eq_some hstep
    refine h.conn_step hreg hc (moves_of_work hwork) ?_
    rintro rfl p rfl -
    have hstep : p.step env c' (.worker act) = some ({ p with conn := conn' }, es) := by
      rw [Peer.step, hwork]
      rfl
    exact ⟨_, .single hstep (by simp [Peer.Label.gathers])⟩
  | callback c' cb =>
    obtain ⟨conn, conn', hc, hcall, rfl⟩ := onConn_eq_some hstep
    refine h.conn_step hreg hc (moves_of_callback hcall) ?_
    rintro rfl p rfl hrunning
    exact stands_of_callback hrunning hcall

theorem of_run {buffer : Bytes} (c : ConnPtr)
    (hrun : Run (Server.step env cfg) (Server.start buffer) tr srv) : Mirrored env c tr srv := by
  refine hrun.invariant (fun tr srv => Mirrored env c tr srv) (Mirrored.start env c buffer) ?_
  intro tr srv l srv' es hr ih hstep
  exact ih.step (Sockets.of_run hr) (Registry.of_run hr) hstep

end Mirrored

/-! ## 4. What follows for the server -/

/-- **Every connection of the server is a peer**: whatever the other threads and the other
clients do, there is a run of the peer alone that ends in the same connection, in which its client
sends and gets the same things in the same order. -/
theorem peer_of_run {buffer : Bytes} {tr : List (Label × List Event)} {srv : Server}
    (hrun : Run (Server.step env cfg) (Server.start buffer) tr srv) (hc : srv.heap c = some conn) :
    ∃ peerId tr' p, Run (Peer.step env c) (Peer.new peerId) tr' p ∧ p.conn = conn ∧
      p.running = [] ∧
      (events tr').filter (Event.ofClient c) = (events tr).filter (Event.ofClient c) := by
  obtain ⟨p, tr', hp, hmirrors⟩ := (Mirrored.of_run c hrun).alive conn hc
  obtain ⟨peerId, hpeer⟩ := hmirrors.run
  exact ⟨peerId, tr', p, hpeer, hp, hmirrors.running, hmirrors.ofClient⟩

/-- Who writes a message exists, then and after it. -/
theorem exists_of_relay {srv srv' : Server} {l : Label}
    (hstep : Happens env cfg srv l srv' es) {s : SockPtr} {message : Bytes} {writes : List Bytes}
    (hin : Event.relay c s message writes ∈ es) : ∃ conn, srv'.heap c = some conn := by
  cases hstep with
  | move l c' conn conn' es hl hc hmove =>
    by_cases heq : c' = c
    · subst heq
      exact ⟨conn', Function.update_self ..⟩
    · exact absurd (hmove.other heq _ hin).1 (by simp [Event.ofClient])
  | closeUnlessWaiting s' acts hpc => split at hin <;> simp at hin
  | _ => simp at hin

/-- **The whole server answers first**: to every client, with any number of other clients. -/
theorem answerFirst_of_server {buffer : Bytes} {tr : List (Label × List Event)} {srv : Server}
    (hrun : Run (Server.step env cfg) (Server.start buffer) tr srv)
    (hlate : Preceded (fun x => x.1.gathers c = true)
      (fun x => x.2.any (Event.describes c) = true) tr) :
    ∀ es₁ e es₂, events tr = es₁ ++ e :: es₂ → e.ofClient c = true → AnswerFirst c es₁ e := by
  induction hrun with
  | refl => simp
  | @tail tr srv srv' l es hr hstep ih =>
    rw [events_append, events_singleton]
    refine forall_split_append.mpr ⟨ih (preceded_concat.mp hlate).1, ?_⟩
    rintro es₁ e es₂ rfl hclient
    cases e with
    | relay c' s message writes =>
      obtain rfl : c' = c := by simpa [Event.ofClient] using hclient
      obtain ⟨conn, hc⟩ := exists_of_relay (happens_of_step hstep)
        (List.mem_append_right es₁ List.mem_cons_self)
      obtain ⟨p, tr', -, hmirrors⟩ := (Mirrored.of_run c' (hr.tail hstep)).alive conn hc
      obtain ⟨peerId, hpeer⟩ := hmirrors.run
      -- the peer alone writes the same message, behind the same events of its client
      have hsame := hmirrors.ofClient
      rw [events_append, events_singleton, ← List.append_assoc, List.filter_append,
        List.filter_cons_of_pos hclient] at hsame
      obtain ⟨q₁, q₂, hq, hq₁, hq₂⟩ := List.filter_eq_append_iff.mp hsame
      obtain ⟨q₃, q₄, rfl, hq₃, -, -⟩ := List.filter_eq_cons_iff.mp hq₂
      have hsplit : events tr' = (q₁ ++ q₃) ++ .relay c' s message writes :: q₄ := by
        rw [hq, List.append_assoc]
      intro hice
      obtain ⟨s', message', writes', hsdp, hlt, hsub⟩ :=
        answerFirst_of_run hpeer (hmirrors.late hlate) _ _ _ hsplit hice
      refine ⟨s', message', writes', hsdp, hlt, ?_⟩
      have hsub' := hsub.filter (Event.ofClient c')
      rw [List.filter_append, hq₁, List.filter_eq_nil_iff.mpr hq₃, List.append_nil] at hsub'
      refine List.Sublist.trans ?_ (hsub'.trans List.filter_sublist)
      simp [Event.ofClient]
    | _ => trivial

end

/-- What a peer alone is given in `samplePeerSession`, from a server. -/
def sampleSession : List Label :=
  sampleRequest (sampleClient "signIn" "0") 4 ++
    sampleRequest
      ⟨[.data (ascii "POST /message HTTP/1.1\r\nPragma: 1\r\n\r\nSDP->" ++ sampleOffer)], none,
        ⟨none, none⟩⟩ 4 ++
    List.replicate 3 (.worker 0 (.step 0 sampleCreated)) ++
    [.callback 0 (.onSuccess (ascii "answer") sampleSdp),
      .callback 0 (.onIceCandidate (ascii "0") 0 (some (ascii "candidate:1"))),
      .callback 0 (.onIceGatheringChange .complete)] ++
    sampleRequest (sampleClient "wait" "1") 4 ++ sampleWork 0 9 ++
    sampleRequest (sampleClient "wait" "1") 4 ++ [.worker 0 .timeout] ++ sampleWork 0 3

theorem sampleSession_run : ∃ tr srv conn,
    Run (Server.step sampleEnv sampleConfig) sampleStart tr srv ∧ srv.heap 0 = some conn ∧
    ((events tr).filter (Event.ofClient 0)).length = 6 ∧
    Preceded (fun x => x.1.gathers 0 = true) (fun x => x.2.any (Event.describes 0) = true) tr ∧
    (events tr).getLast?.any (Event.writes 0 3 (ascii "ICE->")) = true := by
  obtain ⟨tr, srv, hrun, hp⟩ := exists_run (Server.step sampleEnv sampleConfig) sampleStart
    sampleSession (fun tr srv => decide ((srv.heap 0).isSome ∧
      ((events tr).filter (Event.ofClient 0)).length = 6 ∧
      Preceded (fun x : Label × List Event => x.1.gathers 0 = true)
        (fun x => x.2.any (Event.describes 0) = true) tr ∧
      (events tr).getLast?.any (Event.writes 0 3 (ascii "ICE->")) = true)) (by decide +kernel)
  obtain ⟨hsome, hlen, hlate, hlast⟩ := of_decide_eq_true hp
  obtain ⟨conn, hc⟩ := Option.isSome_iff_exists.mp hsome
  exact ⟨tr, srv, conn, hrun, hc, hlen, hlate, hlast⟩

theorem peer_of_run_sample : ∃ tr srv conn peerId tr' p,
    Run (Server.step sampleEnv sampleConfig) sampleStart tr srv ∧ srv.heap 0 = some conn ∧
    Run (Peer.step sampleEnv 0) (Peer.new peerId) tr' p ∧ p.conn = conn ∧
    ((events tr').filter (Event.ofClient 0)).length = 6 := by
  obtain ⟨tr, srv, conn, hrun, hc, hlen, -, -⟩ := sampleSession_run
  obtain ⟨peerId, tr', p, hpeer, hconn, -, hsame⟩ := peer_of_run hrun hc
  exact ⟨tr, srv, conn, peerId, tr', p, hrun, hc, hpeer, hconn, by rw [hsame, hlen]⟩

theorem answerFirst_of_server_sample : ∃ tr srv pre message writes,
    Run (Server.step sampleEnv sampleConfig) sampleStart tr srv ∧
    events tr = pre ++ [.relay 0 3 message writes] ∧ ascii "ICE->" <+: message ∧
    AnswerFirst 0 pre (.relay 0 3 message writes) := by
  obtain ⟨tr, srv, -, hrun, -, -, hlate, hany⟩ := sampleSession_run
  obtain ⟨e, hlast, hwrites⟩ := (Option.any_eq_true _ _).mp hany
  cases e with
  | relay c s message writes =>
    obtain ⟨⟨rfl, rfl⟩, hice⟩ : (c = 0 ∧ s = 3) ∧ ascii "ICE->" <+: message := by
      simpa [Event.writes, List.isPrefixOf_iff_prefix] using hwrites
    obtain ⟨pre, hrelay⟩ : ∃ pre, events tr = pre ++ [.relay 0 3 message writes] :=
      List.getLast?_eq_some_iff.mp hlast
    exact ⟨tr, srv, pre, message, writes, hrun, hrelay, hice,
      answerFirst_of_server hrun hlate _ _ _ hrelay rfl⟩
  | _ => exact absurd hwrites (by simp [Event.writes])

end Reflector
