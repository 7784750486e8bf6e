/-
# What a step can do

`Moves` lists everything a worker or a callback can do to its connection, and `Happens`
everything the system can do in one step, with the guards under which it does it.  Every
invariant of the system is proved by cases on these two lists and never unfolds a step
function again.

At the end, the two grains of the main loop are connected: a coarse run is a fine run with the
same events (`fine_of_coarse`).
-/
import Reflector.Server.Main

namespace Reflector

open Base Signaling

/-! ## 1. One connection -/

/-- What the worker or a callback of connection `c` can do. -/
inductive Moves (env : Env) (c : ConnPtr) (conn : WebrtcConnection) :
    WebrtcConnection → List Event → Prop
  /-- Nothing that the queues or the slot show. -/
  | go (pc : Pc) (state : ConnectionState) (alive : Bool) (startTime : ℤ)
      (hfrom : conn.pc ≠ .sent ∧ conn.pc ≠ .deleted ∧ conn.pc ≠ .done)
      (hto : pc ≠ .sent ∧ pc ≠ .deleted ∧ pc ≠ .start)
      (hstate : state = .ended → pc = .done ∨ conn.state = .ended) :
      Moves env c conn
        { conn with pc := pc, state := state, alive := alive, startTime := startTime } []
  | hand (message : Bytes) (queue : List Bytes) (created : Created) (observer : Observer)
      (calls : List Call) (hpc : conn.pc = .dequeue ∨ conn.pc = .waiting)
      (hqueue : conn.queue = message :: queue)
      (hcall : conn.observer.onSignalingMessage env message created = .ok (observer, calls)) :
      Moves env c conn { conn with queue := queue, observer := observer, pc := .count }
        [.hand c message, .observed c calls]
  | relay (s : SockPtr) (message : Bytes) (msgQueue : List Bytes) (writes : List Bytes)
      (hpc : conn.pc = .slot) (hslot : conn.clientSocket = some s)
      (hqueue : conn.observer.msgQueue = message :: msgQueue)
      (hsend : Http.sendMessage conn.peerId message = .ok writes) :
      Moves env c conn
        { conn with observer := { conn.observer with msgQueue := msgQueue }, pc := .sent }
        [.relay c s message writes]
  | close (hpc : conn.pc = .sent) :
      Moves env c conn { conn with pc := .deleted } (conn.clientSocket.map Event.close).toList
  | clear (hpc : conn.pc = .deleted) :
      Moves env c conn { conn with clientSocket := none, pc := .ice } []
  | callback (cb : Callback) (observer : Observer) (calls : List Call)
      (hpc : conn.pc ≠ .start ∧ conn.pc ≠ .done)
      (hcall : conn.observer.call env cb = .ok (observer, calls)) :
      Moves env c conn { conn with observer := observer } [.observed c calls]

theorem moves_of_relay {env : Env} {c : ConnPtr} {conn conn' : WebrtcConnection}
    {es : List Event} (hpc : conn.pc = .slot) (h : conn.relay c = some (conn', es)) :
    Moves env c conn conn' es := by
  have hgo : Moves env c conn { conn with pc := .ice } [] :=
    .go .ice conn.state conn.alive conn.startTime (by simp [hpc]) (by simp) .inr
  unfold WebrtcConnection.relay at h
  split at h
  · obtain ⟨rfl, rfl⟩ := Prod.mk.inj (Option.some.inj h)
    exact hgo
  · rename_i s hs
    unfold Observer.getSignalingMessage at h
    cases hq : conn.observer.msgQueue with
    | nil =>
      simp only [hq] at h
      obtain ⟨rfl, rfl⟩ := Prod.mk.inj (Option.some.inj h)
      exact hgo
    | cons message msgQueue =>
      simp only [hq] at h
      split at h
      · exact absurd h (by simp)
      · rename_i writes hw
        obtain ⟨rfl, rfl⟩ := Prod.mk.inj (Option.some.inj h)
        exact .relay s message msgQueue writes hpc hs hq hw

theorem moves_of_dequeue {env : Env} {c : ConnPtr} {conn conn' : WebrtcConnection}
    {created : Created} {es : List Event} (hpc : conn.pc = .dequeue ∨ conn.pc = .waiting)
    (h : conn.dequeue env c created = some (conn', es)) : Moves env c conn conn' es := by
  unfold WebrtcConnection.dequeue at h
  split at h
  · obtain ⟨rfl, rfl⟩ := Prod.mk.inj (Option.some.inj h)
    refine .go .waiting conn.state conn.alive conn.startTime ?_ (by simp) .inr
    rcases hpc with hpc | hpc <;> simp [hpc]
  · rename_i message queue hq
    split at h
    · exact absurd h (by simp)
    · rename_i observer calls hcall
      obtain ⟨rfl, rfl⟩ := Prod.mk.inj (Option.some.inj h)
      exact .hand message queue created observer calls hpc hq hcall

/-- The ICE check only ever clears `m_alive`. -/
theorem checkIce_eq (conn : WebrtcConnection) (now : ℤ) :
    ∃ alive, conn.checkIce now = { conn with alive := alive } := by
  unfold WebrtcConnection.checkIce
  dsimp only
  split
  · exact ⟨false, rfl⟩
  · split
    · split
      · exact ⟨false, rfl⟩
      · exact ⟨conn.alive, rfl⟩
    · exact ⟨conn.alive, rfl⟩

/-- A statement of the worker is one of the moves. -/
theorem moves_of_next {env : Env} {c : ConnPtr} {conn conn' : WebrtcConnection} {now : ℤ}
    {created : Created} {es : List Event} (h : conn.next env c now created = some (conn', es)) :
    Moves env c conn conn' es := by
  cases hpc : conn.pc with
  | start =>
    simp only [WebrtcConnection.next, hpc] at h
    obtain ⟨rfl, rfl⟩ := Prod.mk.inj (Option.some.inj h)
    exact .go .loop .connected conn.alive now (by simp [hpc]) (by simp) (by simp)
  | loop =>
    simp only [WebrtcConnection.next, hpc] at h
    obtain ⟨rfl, rfl⟩ := Prod.mk.inj (Option.some.inj h)
    refine .go _ conn.state conn.alive conn.startTime (by simp [hpc]) ?_ .inr
    split <;> simp
  | dequeue =>
    simp only [WebrtcConnection.next, hpc] at h
    exact moves_of_dequeue (.inl hpc) h
  | waiting =>
    simp only [WebrtcConnection.next, hpc] at h
    exact moves_of_dequeue (.inr hpc) h
  | count =>
    simp only [WebrtcConnection.next, hpc] at h
    obtain ⟨rfl, rfl⟩ := Prod.mk.inj (Option.some.inj h)
    refine .go _ conn.state conn.alive conn.startTime (by simp [hpc]) ?_ .inr
    split <;> simp
  | lock =>
    simp only [WebrtcConnection.next, hpc] at h
    obtain ⟨rfl, rfl⟩ := Prod.mk.inj (Option.some.inj h)
    exact .go .slot conn.state conn.alive conn.startTime (by simp [hpc]) (by simp) .inr
  | slot =>
    simp only [WebrtcConnection.next, hpc] at h
    exact moves_of_relay hpc h
  | sent =>
    simp only [WebrtcConnection.next, hpc] at h
    obtain ⟨rfl, rfl⟩ := Prod.mk.inj (Option.some.inj h)
    exact .close hpc
  | deleted =>
    simp only [WebrtcConnection.next, hpc] at h
    obtain ⟨rfl, rfl⟩ := Prod.mk.inj (Option.some.inj h)
    exact .clear hpc
  | ice =>
    obtain ⟨alive, halive⟩ := checkIce_eq conn now
    simp only [WebrtcConnection.next, hpc, halive] at h
    obtain ⟨rfl, rfl⟩ := Prod.mk.inj (Option.some.inj h)
    exact .go .process conn.state alive conn.startTime (by simp [hpc]) (by simp) .inr
  | process =>
    simp only [WebrtcConnection.next, hpc] at h
    obtain ⟨rfl, rfl⟩ := Prod.mk.inj (Option.some.inj h)
    exact .go .loop conn.state conn.alive conn.startTime (by simp [hpc]) (by simp) .inr
  | leaving =>
    simp only [WebrtcConnection.next, hpc] at h
    obtain ⟨rfl, rfl⟩ := Prod.mk.inj (Option.some.inj h)
    exact .go .done .ended conn.alive conn.startTime (by simp [hpc]) (by simp) fun _ => .inl rfl
  | done =>
    simp only [WebrtcConnection.next, hpc] at h
    exact absurd h (by simp)

theorem moves_of_work {env : Env} {c : ConnPtr} {conn conn' : WebrtcConnection}
    {act : WebrtcConnection.Act} {es : List Event} (h : conn.work env c act = some (conn', es)) :
    Moves env c conn conn' es := by
  cases act with
  | step now created => exact moves_of_next h
  | timeout =>
    simp only [WebrtcConnection.work] at h
    split at h
    · rename_i hpc
      obtain ⟨rfl, rfl⟩ := Prod.mk.inj (Option.some.inj h)
      exact .go .count conn.state conn.alive conn.startTime (by simp [hpc]) (by simp) .inr
    · exact absurd h (by simp)

/-- A callback is one call of the observer, while there is one. -/
theorem callback_eq_some {env : Env} {c : ConnPtr} {conn conn' : WebrtcConnection}
    {cb : Callback} {es : List Event} (h : conn.callback env c cb = some (conn', es)) :
    (conn.pc ≠ .start ∧ conn.pc ≠ .done) ∧ ∃ observer calls,
      conn.observer.call env cb = .ok (observer, calls) ∧
      conn' = { conn with observer := observer } ∧ es = [.observed c calls] := by
  unfold WebrtcConnection.callback at h
  split at h
  · exact absurd h (by simp)
  · rename_i hpc
    rw [not_or] at hpc
    split at h
    · exact absurd h (by simp)
    · split at h
      · exact absurd h (by simp)
      · rename_i observer calls hcall
        obtain ⟨rfl, rfl⟩ := Prod.mk.inj (Option.some.inj h)
        exact ⟨hpc, observer, calls, hcall, rfl, rfl⟩

theorem moves_of_callback {env : Env} {c : ConnPtr} {conn conn' : WebrtcConnection}
    {cb : Callback} {es : List Event} (h : conn.callback env c cb = some (conn', es)) :
    Moves env c conn conn' es := by
  obtain ⟨hpc, observer, calls, hcall, rfl, rfl⟩ := callback_eq_some h
  exact .callback cb observer calls hpc hcall

/-! ## 2. The system -/

/-- What the system can do in one step. -/
inductive Happens (env : Env) (cfg : Http.Config) (srv : Server) :
    Label → Server → List Event → Prop
  | idle (hpc : srv.pc = .accept) : Happens env cfg srv .idle { srv with pc := .cleanup 0 } []
  | reject (client : Client) (buffer : Bytes) (httpReq : Http.HttpReq) (hpc : srv.pc = .accept)
      (hread : Http.readRequest srv.httpRwBuffer client.arrivals = .ok (buffer, false, httpReq)) :
      Happens env cfg srv (.accept client)
        { srv with
          httpRwBuffer := buffer, nextSock := srv.nextSock + 1
          pc := .handle srv.nextSock [.discard] } []
  | begin (client : Client) (buffer buffer' : Bytes) (httpReq : Http.HttpReq) (acts : List MainAct)
      (hpc : srv.pc = .accept)
      (hread : Http.readRequest srv.httpRwBuffer client.arrivals = .ok (buffer, true, httpReq))
      (hdispatch : srv.dispatch cfg client buffer httpReq = .ok (acts, buffer')) :
      Happens env cfg srv (.accept client)
        { srv with
          httpRwBuffer := buffer', nextSock := srv.nextSock + 1
          pc := .handle srv.nextSock (acts ++ [.closeUnlessWaiting]) } []
  | cleanupEnd (i : ℕ) (hpc : srv.pc = .cleanup i) (hi : srv.webrtcConnectionList[i]? = none) :
      Happens env cfg srv .main { srv with pc := .accept } []
  | cleanupDelete (i : ℕ) (c : ConnPtr) (conn : WebrtcConnection) (hpc : srv.pc = .cleanup i)
      (hi : srv.webrtcConnectionList[i]? = some c) (hc : srv.heap c = some conn)
      (hend : conn.state = .ended) :
      Happens env cfg srv .main
        { srv with
          webrtcConnectionList := srv.webrtcConnectionList.eraseIdx i
          heap := Function.update srv.heap c none
          pc := .cleanup i } [.delete c]
  | cleanupSkip (i : ℕ) (c : ConnPtr) (conn : WebrtcConnection) (hpc : srv.pc = .cleanup i)
      (hi : srv.webrtcConnectionList[i]? = some c) (hc : srv.heap c = some conn)
      (hend : conn.state ≠ .ended) :
      Happens env cfg srv .main { srv with pc := .cleanup (i + 1) } []
  | handled (s : SockPtr) (hpc : srv.pc = .handle s []) :
      Happens env cfg srv .main { srv with pc := .accept } []
  | newConnection (s : SockPtr) (acts : List MainAct)
      (hpc : srv.pc = .handle s (.newConnection :: acts)) :
      Happens env cfg srv .main
        { srv with
          peerId := (srv.peerId + 1) % 2 ^ 32
          webrtcConnectionList := srv.webrtcConnectionList ++ [srv.nextConn]
          heap := Function.update srv.heap srv.nextConn (some (.new srv.peerId))
          nextConn := srv.nextConn + 1
          pc := .handle s acts } [.signIn srv.nextConn srv.peerId]
  | pushMessage (s : SockPtr) (c : ConnPtr) (message : Bytes) (acts : List MainAct)
      (conn : WebrtcConnection) (hpc : srv.pc = .handle s (.pushMessage c message :: acts))
      (hc : srv.heap c = some conn) :
      Happens env cfg srv .main
        { srv with
          heap := Function.update srv.heap c (some (conn.pushMessage message))
          pc := .handle s acts } [.push c message]
  | park (s : SockPtr) (c : ConnPtr) (acts : List MainAct) (conn : WebrtcConnection)
      (hpc : srv.pc = .handle s (.setOutboundSocket c :: acts)) (hc : srv.heap c = some conn)
      (hlock : ¬ conn.Locked) :
      Happens env cfg srv .main
        { srv with
          heap := Function.update srv.heap c (some { conn with clientSocket := some s })
          pc := .handle s acts } [.park c s]
  | keepOpen (s : SockPtr) (acts : List MainAct) (hpc : srv.pc = .handle s (.keepOpen :: acts)) :
      Happens env cfg srv .main { srv with closeWait := false, pc := .handle s acts } []
  | respond (s : SockPtr) (writes : List Bytes) (acts : List MainAct)
      (hpc : srv.pc = .handle s (.respond writes :: acts)) :
      Happens env cfg srv .main { srv with pc := .handle s acts } [.respond s writes]
  | closeUnlessWaiting (s : SockPtr) (acts : List MainAct)
      (hpc : srv.pc = .handle s (.closeUnlessWaiting :: acts)) :
      Happens env cfg srv .main { srv with pc := .handle s acts }
        (if srv.closeWait then [.close s] else [])
  | discard (s : SockPtr) (acts : List MainAct) (hpc : srv.pc = .handle s (.discard :: acts)) :
      Happens env cfg srv .main { srv with pc := .handle s acts } [.close s]
  | move (l : Label) (c : ConnPtr) (conn conn' : WebrtcConnection) (es : List Event)
      (hl : (∃ act, l = .worker c act) ∨ ∃ cb, l = .callback c cb)
      (hc : srv.heap c = some conn) (hmove : Moves env c conn conn' es) :
      Happens env cfg srv l { srv with heap := Function.update srv.heap c (some conn') } es

section

variable {env : Env} {cfg : Http.Config} {srv srv' : Server} {l : Label} {es : List Event}

theorem happens_of_begin {client : Client} (hpc : srv.pc = .accept)
    (h : srv.begin cfg client = .ok srv') : Happens env cfg srv (.accept client) srv' [] := by
  unfold Server.begin at h
  obtain ⟨⟨buffer, parsingDone, httpReq⟩, hread, h⟩ := bind_eq_ok.mp h
  dsimp only at h
  cases parsingDone with
  | false =>
    obtain rfl := Except.ok.inj h
    exact .reject client buffer httpReq hpc hread
  | true =>
    obtain ⟨⟨acts, buffer'⟩, hdispatch, h⟩ := bind_eq_ok.mp h
    obtain rfl := Except.ok.inj h
    exact .begin client buffer buffer' httpReq acts hpc hread hdispatch

theorem happens_of_exec {s : SockPtr} {act : MainAct} {acts : List MainAct}
    (hpc : srv.pc = .handle s (act :: acts)) (h : srv.exec s act = some (srv', es)) :
    Happens env cfg srv .main { srv' with pc := .handle s acts } es := by
  cases act with
  | newConnection =>
    obtain ⟨rfl, rfl⟩ := Prod.mk.inj (Option.some.inj h)
    exact .newConnection s acts hpc
  | pushMessage c message =>
    obtain ⟨conn, hc, heq⟩ := Option.map_eq_some_iff.mp h
    obtain ⟨rfl, rfl⟩ := Prod.mk.inj heq
    exact .pushMessage s c message acts conn hpc hc
  | setOutboundSocket c =>
    simp only [Server.exec] at h
    split at h
    · exact absurd h (by simp)
    · rename_i conn hc
      obtain ⟨conn', hset, heq⟩ := Option.map_eq_some_iff.mp h
      obtain ⟨rfl, rfl⟩ := Prod.mk.inj heq
      unfold WebrtcConnection.setOutboundSocket at hset
      split at hset
      · exact absurd hset (by simp)
      · rename_i hlock
        obtain rfl := Option.some.inj hset
        exact .park s c acts conn hpc hc hlock
  | keepOpen =>
    obtain ⟨rfl, rfl⟩ := Prod.mk.inj (Option.some.inj h)
    exact .keepOpen s acts hpc
  | respond writes =>
    obtain ⟨rfl, rfl⟩ := Prod.mk.inj (Option.some.inj h)
    exact .respond s writes acts hpc
  | closeUnlessWaiting =>
    obtain ⟨rfl, rfl⟩ := Prod.mk.inj (Option.some.inj h)
    exact .closeUnlessWaiting s acts hpc
  | discard =>
    obtain ⟨rfl, rfl⟩ := Prod.mk.inj (Option.some.inj h)
    exact .discard s acts hpc

theorem happens_of_cleanup {i : ℕ} (hpc : srv.pc = .cleanup i)
    (h : srv.cleanup i = some (srv', es)) : Happens env cfg srv .main srv' es := by
  unfold Server.cleanup at h
  split at h
  · rename_i hi
    obtain ⟨rfl, rfl⟩ := Prod.mk.inj (Option.some.inj h)
    exact .cleanupEnd i hpc hi
  · rename_i c hi
    split at h
    · exact absurd h (by simp)
    · rename_i conn hc
      split at h
      · rename_i hend
        obtain ⟨rfl, rfl⟩ := Prod.mk.inj (Option.some.inj h)
        exact .cleanupDelete i c conn hpc hi hc hend
      · rename_i hend
        obtain ⟨rfl, rfl⟩ := Prod.mk.inj (Option.some.inj h)
        exact .cleanupSkip i c conn hpc hi hc hend

theorem happens_of_advance (h : srv.advance = some (srv', es)) :
    Happens env cfg srv .main srv' es := by
  cases hpc : srv.pc with
  | accept =>
    rw [Server.advance, hpc] at h
    exact absurd h (by simp)
  | cleanup i =>
    rw [Server.advance, hpc] at h
    exact happens_of_cleanup hpc h
  | handle s acts =>
    cases acts with
    | nil =>
      rw [Server.advance, hpc] at h
      obtain ⟨rfl, rfl⟩ := Prod.mk.inj (Option.some.inj h)
      exact .handled s hpc
    | cons act acts =>
      rw [Server.advance, hpc] at h
      obtain ⟨⟨srv₁, es₁⟩, hexec, heq⟩ := Option.map_eq_some_iff.mp h
      obtain ⟨rfl, rfl⟩ := Prod.mk.inj heq
      exact happens_of_exec hpc hexec

/-- A move of a connection shows in that connection alone. -/
theorem onConn_eq_some {c : ConnPtr}
    {move : WebrtcConnection → Option (WebrtcConnection × List Event)}
    (h : srv.onConn c move = some (srv', es)) :
    ∃ conn conn', srv.heap c = some conn ∧ move conn = some (conn', es) ∧
      srv' = { srv with heap := Function.update srv.heap c (some conn') } := by
  unfold Server.onConn at h
  split at h
  · exact absurd h (by simp)
  · rename_i conn hc
    obtain ⟨⟨conn', es'⟩, hm, heq⟩ := Option.map_eq_some_iff.mp h
    obtain ⟨rfl, rfl⟩ := Prod.mk.inj heq
    exact ⟨conn, conn', hc, hm, rfl⟩

/-- The worker's steps and the callbacks of one connection. -/
theorem moves_of_step {c : ConnPtr} (hl : (∃ act, l = .worker c act) ∨ ∃ cb, l = .callback c cb)
    (h : srv.step env cfg l = some (srv', es)) :
    ∃ conn conn', srv.heap c = some conn ∧ Moves env c conn conn' es ∧
      srv' = { srv with heap := Function.update srv.heap c (some conn') } := by
  obtain ⟨act, rfl⟩ | ⟨cb, rfl⟩ := hl
  · obtain ⟨conn, conn', hc, hm, hsrv⟩ := onConn_eq_some h
    exact ⟨conn, conn', hc, moves_of_work hm, hsrv⟩
  · obtain ⟨conn, conn', hc, hm, hsrv⟩ := onConn_eq_some h
    exact ⟨conn, conn', hc, moves_of_callback hm, hsrv⟩

theorem happens_of_move {c : ConnPtr} (hl : (∃ act, l = .worker c act) ∨ ∃ cb, l = .callback c cb)
    (h : srv.step env cfg l = some (srv', es)) : Happens env cfg srv l srv' es := by
  obtain ⟨conn, conn', hc, hmove, rfl⟩ := moves_of_step hl h
  exact .move l c conn conn' es hl hc hmove

/-- **Every step is one of these.** -/
theorem happens_of_step (h : srv.step env cfg l = some (srv', es)) :
    Happens env cfg srv l srv' es := by
  cases l with
  | idle =>
    simp only [Server.step] at h
    split at h
    · rename_i hpc
      obtain ⟨rfl, rfl⟩ := Prod.mk.inj (Option.some.inj h)
      exact .idle hpc
    · exact absurd h (by simp)
  | accept client =>
    simp only [Server.step] at h
    split at h
    · rename_i hpc
      obtain ⟨srv₁, hbegin, heq⟩ := Option.map_eq_some_iff.mp h
      obtain ⟨rfl, rfl⟩ := Prod.mk.inj heq
      cases hb : srv.begin cfg client with
      | error e =>
        rw [hb] at hbegin
        exact absurd hbegin (by simp [Except.toOption])
      | ok srv₂ =>
        rw [hb] at hbegin
        obtain rfl : srv₂ = srv₁ := by simpa [Except.toOption] using hbegin
        exact happens_of_begin hpc hb
    · exact absurd h (by simp)
  | main => exact happens_of_advance h
  | worker c act => exact happens_of_move (.inl ⟨act, rfl⟩) h
  | callback c cb => exact happens_of_move (.inr ⟨cb, rfl⟩) h

end

/-! ## 3. Two grains -/

section Grains

variable {env : Env} {cfg : Http.Config}

/-- Statements in a row are a run of the fine system. -/
theorem run_of_advances : ∀ {n : ℕ} {srv srv' : Server} {es : List Event},
    Server.advances n srv = some (srv', es) →
    ∃ tr, Run (Server.step env cfg) srv tr srv' ∧ events tr = es := by
  intro n
  induction n with
  | zero =>
    intro srv srv' es h
    obtain ⟨rfl, rfl⟩ := Prod.mk.inj (Option.some.inj h)
    exact ⟨[], .refl, rfl⟩
  | succ n ih =>
    intro srv srv' es h
    rw [Server.advances] at h
    split at h
    · exact absurd h (by simp)
    · rename_i srv₁ es₁ hadv
      obtain ⟨⟨srv₂, es₂⟩, hrest, heq⟩ := Option.map_eq_some_iff.mp h
      obtain ⟨rfl, rfl⟩ := Prod.mk.inj heq
      obtain ⟨tr, hrun, rfl⟩ := ih hrest
      have hfirst := Run.tail .refl (show srv.step env cfg .main = _ from hadv)
      refine ⟨[(.main, es₁)] ++ tr, hfirst.trans hrun, ?_⟩
      rw [events_append, events_singleton]

/-- A coarse step is a run of the fine system with the same events. -/
theorem run_of_iterate {srv srv' : Server} {l : Label} {es : List Event}
    (h : srv.iterate env cfg l = some (srv', es)) :
    ∃ tr, Run (Server.step env cfg) srv tr srv' ∧ events tr = es := by
  have hone : ∀ (l' : Label) {srv₁ : Server} {es₁ : List Event},
      srv.step env cfg l' = some (srv₁, es₁) →
      Run (Server.step env cfg) srv [(l', es₁)] srv₁ := fun _ _ _ hs => Run.tail .refl hs
  have hwhole : ∀ (l' : Label) {srv₁ : Server} {es₁ : List Event},
      srv.step env cfg l' = some (srv₁, es₁) →
      (Server.advances srv₁.left srv₁).map (fun x => (x.1, es₁ ++ x.2)) = some (srv', es) →
      ∃ tr, Run (Server.step env cfg) srv tr srv' ∧ events tr = es := by
    intro l' srv₁ es₁ hs h
    obtain ⟨⟨srv₂, es₂⟩, hadv, heq⟩ := Option.map_eq_some_iff.mp h
    obtain ⟨rfl, rfl⟩ := Prod.mk.inj heq
    obtain ⟨tr, hrun, rfl⟩ : ∃ tr, Run (Server.step env cfg) srv₁ tr srv₂ ∧ events tr = es₂ :=
      run_of_advances hadv
    exact ⟨[(l', es₁)] ++ tr, (hone l' hs).trans hrun, by rw [events_append, events_singleton]⟩
  cases l with
  | main => exact absurd h (by simp [Server.iterate])
  | worker c act => exact ⟨_, hone (.worker c act) h, by simp⟩
  | callback c cb => exact ⟨_, hone (.callback c cb) h, by simp⟩
  | idle | accept client =>
    simp only [Server.iterate] at h
    split at h
    · exact absurd h (by simp)
    · rename_i srv₁ es₁ hs
      exact hwhole _ hs h

/-- **The coarse system refines the fine one**: its runs are runs, with the same events. -/
theorem fine_of_coarse {srv₀ srv : Server} {tr : List (Label × List Event)}
    (h : Run (Server.iterate env cfg) srv₀ tr srv) :
    ∃ tr', Run (Server.step env cfg) srv₀ tr' srv ∧ events tr' = events tr := by
  induction h with
  | refl => exact ⟨[], .refl, rfl⟩
  | tail _ hs ih =>
    obtain ⟨tr₁, h₁, e₁⟩ := ih
    obtain ⟨tr₂, h₂, e₂⟩ := run_of_iterate hs
    refine ⟨tr₁ ++ tr₂, h₁.trans h₂, ?_⟩
    rw [events_append, events_append, events_singleton, e₁, e₂]

/-- The other threads move in the coarse system as they do in the fine one. -/
theorem moves_of_iterate {srv srv' : Server} {l : Label} {es : List Event} {c : ConnPtr}
    (hl : (∃ act, l = .worker c act) ∨ ∃ cb, l = .callback c cb)
    (h : srv.iterate env cfg l = some (srv', es)) :
    ∃ conn conn', srv.heap c = some conn ∧ Moves env c conn conn' es ∧
      srv' = { srv with heap := Function.update srv.heap c (some conn') } := by
  have hstep : srv.step env cfg l = some (srv', es) := by
    obtain ⟨act, rfl⟩ | ⟨cb, rfl⟩ := hl <;> exact h
  exact moves_of_step hl hstep

/-! ### A request in one go -/

/-- Statements of an iteration, without the program counter. -/
def Server.execs (srv : Server) (s : SockPtr) : List MainAct → Option (Server × List Event)
  | [] => some (srv, [])
  | act :: acts =>
    match srv.exec s act with
    | none => none
    | some (srv, es) => (srv.execs s acts).map fun (srv, es') => (srv, es ++ es')

/-- No statement of an iteration looks at the program counter. -/
theorem exec_pc (srv : Server) (pc : MainPc) (s : SockPtr) (act : MainAct) :
    Server.exec { srv with pc := pc } s act
      = (srv.exec s act).map fun (srv, es) => ({ srv with pc := pc }, es) := by
  cases act with
  | pushMessage c message =>
    simp only [Server.exec]
    cases srv.heap c <;> rfl
  | setOutboundSocket c =>
    simp only [Server.exec]
    cases srv.heap c with
    | none => rfl
    | some conn =>
      simp only [Option.map_map]
      rfl
  | newConnection => rfl
  | keepOpen => rfl
  | respond writes => rfl
  | closeUnlessWaiting => rfl
  | discard => rfl

/-- **Handling a request takes its statements in a row**, and ends at `accept`. -/
theorem advances_handle (s : SockPtr) : ∀ (acts : List MainAct) (srv : Server),
    Server.advances (acts.length + 1) { srv with pc := .handle s acts }
      = (srv.execs s acts).map fun (srv, es) => ({ srv with pc := .accept }, es)
  | [], srv => rfl
  | act :: acts, srv => by
    have hadv : Server.advance { srv with pc := .handle s (act :: acts) }
        = (srv.exec s act).map fun (srv, es) => ({ srv with pc := .handle s acts }, es) := by
      simp only [Server.advance, exec_pc, Option.map_map]
      rfl
    rw [List.length_cons, Server.advances, hadv, Server.execs]
    cases srv.exec s act with
    | none => rfl
    | some x =>
      obtain ⟨srv₁, es₁⟩ := x
      simp only [Option.map_some, advances_handle s acts srv₁, Option.map_map]
      rfl

end Grains

end Reflector
