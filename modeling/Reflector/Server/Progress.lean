/-
# No thread of the server stands still

The next statement of a thread can fail to come for three reasons.

* A mutex: the main loop cannot park a wait socket while the worker of the connection answers the
  one before.  The worker needs nobody for that, and gives the mutex back with its third statement
  at the latest (`main_of_run`).
* An empty queue: the worker waits, but never longer than its time-out.
* What a statement throws, and then there is no process any more.  In the threads of a connection
  only a message that kills can do that (`Kills`), at once or when the candidates it brought are
  applied (`threads_of_run`).
-/
import Reflector.Base.Rank
import Reflector.Server.Observed
import Reflector.Signaling.Fatal

namespace Reflector

open Base Signaling

/-! ## 1. What is left of an iteration -/

/-- The connection that a statement names. -/
def MainAct.names : MainAct → Option ConnPtr
  | .pushMessage c _ | .setOutboundSocket c => some c
  | _ => none

/-- The statements that are left name connections that exist. -/
def Server.Pending (srv : Server) : Prop :=
  ∀ s acts, srv.pc = .handle s acts → ∀ act ∈ acts, ∀ c, act.names = some c →
    ∃ conn, srv.heap c = some conn

section

variable {env : Env} {cfg : Http.Config} {srv srv' : Server} {l : Label} {es : List Event}
  {c : ConnPtr}

/-- A connection is put in the place of what it was, so nobody is gone. -/
theorem exists_update {heap : ConnPtr → Option WebrtcConnection} {c₁ : ConnPtr}
    {conn₁ : WebrtcConnection} (h : ∃ conn, heap c = some conn) :
    ∃ conn, Function.update heap c₁ (some conn₁) c = some conn := by
  by_cases heq : c = c₁
  · subst heq
    exact ⟨conn₁, Function.update_self ..⟩
  · rwa [Function.update_of_ne heq]

theorem Server.Pending.step (h : srv.Pending) (hstep : Happens env cfg srv l srv' es) :
    srv'.Pending := by
  -- the statement in front is taken, and nobody is deleted
  have hrest : ∀ {s act acts} {srv' : Server}, srv.pc = .handle s (act :: acts) →
      srv'.pc = .handle s acts →
      (∀ c, (∃ conn, srv.heap c = some conn) → ∃ conn, srv'.heap c = some conn) →
      srv'.Pending := by
    intro s act acts srv' hpc hpc' hheap s' acts' heq act' hact c hc
    obtain ⟨rfl, rfl⟩ := MainPc.handle.inj (hpc'.symm.trans heq)
    exact hheap c (h s _ hpc act' (List.mem_cons_of_mem _ hact) c hc)
  cases hstep with
  | idle hpc | cleanupEnd i hpc hi | handled s hpc | cleanupSkip i c conn hpc hi hc hend
  | cleanupDelete i c conn hpc hi hc hend =>
    intro s acts heq
    exact absurd heq (by simp)
  | reject client buffer httpReq hpc hread =>
    intro s acts heq act hact c hc
    obtain ⟨rfl, rfl⟩ := MainPc.handle.inj heq
    rw [List.mem_singleton.mp hact] at hc
    exact absurd hc (by simp [MainAct.names])
  | begin client buffer buffer' httpReq acts hpc hread hdispatch =>
    intro s acts' heq act hact c hc
    obtain ⟨rfl, rfl⟩ := MainPc.handle.inj heq
    -- the connection is the one that has just been found
    have hfound : ∀ {c'}, srv.findPeer httpReq.pragma srv.webrtcConnectionList = .ok (some c') →
        some c' = some c → ∃ conn, srv.heap c = some conn := by
      intro c' hfind heq
      obtain rfl := Option.some.inj heq
      obtain ⟨conn, hconn, -⟩ := Option.map_eq_some_iff.mp (findPeer_some hfind).2
      exact ⟨conn, hconn⟩
    cases dispatched_of_dispatch hdispatch with
    | message writes c' data hcmd hfind hdata =>
      simp only [List.cons_append, List.nil_append, List.mem_cons, List.not_mem_nil,
        or_false] at hact
      rcases hact with rfl | rfl | rfl
      · exact hfound hfind hc
      · exact absurd hc (by simp [MainAct.names])
      · exact absurd hc (by simp [MainAct.names])
    | wait c' hcmd hfind =>
      simp only [List.cons_append, List.nil_append, List.mem_cons, List.not_mem_nil,
        or_false] at hact
      rcases hact with rfl | rfl | rfl
      · exact hfound hfind hc
      · exact absurd hc (by simp [MainAct.names])
      · exact absurd hc (by simp [MainAct.names])
    | reply | signIn | signOut | messageUnknown | waitUnknown =>
      simp only [List.cons_append, List.nil_append, List.mem_cons, List.not_mem_nil,
        or_false] at hact
      rcases hact with rfl | rfl | rfl <;> exact absurd hc (by simp [MainAct.names])
  | newConnection s acts hpc | pushMessage s c' message acts conn hpc hc'
  | park s c' acts conn hpc hc' hlock =>
    exact hrest hpc rfl fun c hc => exists_update hc
  | keepOpen s acts hpc | respond s writes acts hpc | closeUnlessWaiting s acts hpc
  | discard s acts hpc => exact hrest hpc rfl fun c hc => hc
  | move l c' conn conn' es hl hc' hmove =>
    exact fun s acts hpc act hact c hc => exists_update (h s acts hpc act hact c hc)

theorem Server.Pending.of_run {buffer : Bytes} {tr : List (Label × List Event)}
    (hrun : Run (Server.step env cfg) (Server.start buffer) tr srv) : srv.Pending :=
  hrun.invariant (fun _ srv => srv.Pending) (by simp [Server.Pending, Server.start])
    fun _ _ _ _ _ _ ih hstep => ih.step (happens_of_step hstep)

/-! ## 2. The main loop -/

/-- The main loop can go on, if need be without a client. -/
def Server.Ready (env : Env) (cfg : Http.Config) (srv : Server) : Prop :=
  ∃ l srv' es, (l = .idle ∨ l = .main) ∧ srv.step env cfg l = some (srv', es)

/-- The main loop stands before a mutex that the worker of connection `c` holds. -/
def Server.Waits (srv : Server) (c : ConnPtr) : Prop :=
  ∃ s acts conn, srv.pc = .handle s (.setOutboundSocket c :: acts) ∧ srv.heap c = some conn ∧
    conn.Locked

/-- The main loop parks a socket with connection `c`. -/
def Server.Parks (env : Env) (cfg : Http.Config) (srv : Server) (c : ConnPtr) : Prop :=
  ∃ s srv', srv.step env cfg .main = some (srv', [.park c s])

theorem parks_of_free {s : SockPtr} {acts : List MainAct} {conn : WebrtcConnection}
    (hpc : srv.pc = .handle s (.setOutboundSocket c :: acts)) (hc : srv.heap c = some conn)
    (hlock : ¬ conn.Locked) : srv.Parks env cfg c := by
  have hexec : srv.exec s (.setOutboundSocket c)
      = some (srv.setConn c (some { conn with clientSocket := some s }), [.park c s]) := by
    rw [Server.exec, hc]
    dsimp only
    rw [WebrtcConnection.setOutboundSocket, if_neg hlock, Option.map_some]
  refine ⟨s, { srv.setConn c (some { conn with clientSocket := some s }) with
    pc := .handle s acts }, ?_⟩
  rw [Server.step, Server.advance, hpc]
  dsimp only
  rw [hexec, Option.map_some]

theorem ready_or_waits (hreg : ∃ es, Registry es srv) (hpend : srv.Pending) :
    srv.Ready env cfg ∨ ∃ c, srv.Waits c := by
  have hmain : ∀ x, srv.advance = some x → srv.Ready env cfg :=
    fun x hx => ⟨.main, x.1, x.2, .inr rfl, hx⟩
  obtain ⟨es, hreg⟩ := hreg
  cases hpc : srv.pc with
  | accept => exact .inl ⟨.idle, _, _, .inl rfl, if_pos hpc⟩
  | cleanup i =>
    have hadv : srv.advance = srv.cleanup i := by rw [Server.advance, hpc]
    unfold Server.cleanup at hadv
    split at hadv
    · exact .inl (hmain _ hadv)
    · rename_i c hi
      -- what is listed exists
      obtain ⟨conn, hc, -⟩ := hreg.isSome_heap (List.mem_of_getElem? hi)
      rw [hc] at hadv
      dsimp only at hadv
      split at hadv <;> exact .inl (hmain _ hadv)
  | handle s acts =>
    cases acts with
    | nil => exact .inl (hmain _ (by rw [Server.advance, hpc]))
    | cons act acts =>
      have hexec : ∀ x, srv.exec s act = some x → srv.Ready env cfg := by
        intro x hx
        refine hmain ({ x.1 with pc := .handle s acts }, x.2) ?_
        rw [Server.advance, hpc]
        dsimp only
        rw [hx, Option.map_some]
      have hnamed := hpend s _ hpc act List.mem_cons_self
      cases act with
      | pushMessage c message =>
        obtain ⟨conn, hc⟩ := hnamed c rfl
        exact .inl (hexec _ (by rw [Server.exec, hc, Option.map_some]))
      | setOutboundSocket c =>
        obtain ⟨conn, hc⟩ := hnamed c rfl
        by_cases hlock : conn.Locked
        · exact .inr ⟨c, s, acts, conn, hpc, hc, hlock⟩
        · obtain ⟨s', srv', hpark⟩ := @parks_of_free env cfg srv c s acts conn hpc hc hlock
          exact .inl ⟨.main, srv', _, .inr rfl, hpark⟩
      | newConnection | keepOpen | respond | closeUnlessWaiting | discard =>
        exact .inl (hexec _ rfl)

/-! ## 3. The mutex -/

/-- How many statements the worker still holds the mutex for. -/
def Pc.hold : Pc → ℕ
  | .slot => 3
  | .sent => 2
  | .deleted => 1
  | _ => 0

def Server.hold (srv : Server) (c : ConnPtr) : ℕ := (srv.heap c).elim 0 fun conn => conn.pc.hold

def Label.ofWorker (c : ConnPtr) : Label → Bool
  | .worker c' _ => c' == c
  | _ => false

variable {conn conn' : WebrtcConnection}

theorem locked_iff : conn.Locked ↔ 0 < conn.pc.hold := by
  unfold WebrtcConnection.Locked
  cases conn.pc <;> simp [Pc.hold]

theorem Server.Waits.hold_pos (h : srv.Waits c) : 0 < srv.hold c := by
  obtain ⟨s, acts, conn, -, hc, hlock⟩ := h
  rw [Server.hold, hc]
  exact locked_iff.mp hlock

/-- A message can always be sent: the parts of its header are numbers. -/
theorem relay_returns (c : ConnPtr) (conn : WebrtcConnection) :
    ∃ x, conn.relay c = some x := by
  unfold WebrtcConnection.relay
  split
  · exact ⟨_, rfl⟩
  · split
    · exact ⟨_, rfl⟩
    · rw [Http.sendMessage, Http.format_messageHeader]
      exact ⟨_, rfl⟩

/-- Where the worker stands behind `relay`. -/
theorem pc_of_relay (h : conn.relay c = some (conn', es)) : conn'.pc = .ice ∨ conn'.pc = .sent := by
  unfold WebrtcConnection.relay at h
  split at h
  · obtain ⟨rfl, -⟩ := Prod.mk.inj (Option.some.inj h)
    exact .inl rfl
  · split at h
    · obtain ⟨rfl, -⟩ := Prod.mk.inj (Option.some.inj h)
      exact .inl rfl
    · split at h
      · exact absurd h (by simp)
      · obtain ⟨rfl, -⟩ := Prod.mk.inj (Option.some.inj h)
        exact .inr rfl

/-- The worker that holds the mutex goes on, -/
theorem next_of_locked (hlock : conn.Locked) (now : ℤ) (created : Created) :
    ∃ x, conn.next env c now created = some x := by
  unfold WebrtcConnection.next
  rcases hlock with hpc | hpc | hpc <;> rw [hpc]
  · exact relay_returns c conn
  · exact ⟨_, rfl⟩
  · exact ⟨_, rfl⟩

/-- towards its release. -/
theorem hold_of_work {act : WebrtcConnection.Act} (hlock : conn.Locked)
    (h : conn.work env c act = some (conn', es)) : conn'.pc.hold < conn.pc.hold := by
  cases act with
  | timeout =>
    simp only [WebrtcConnection.work] at h
    split at h
    · rename_i hpc
      exact absurd (locked_iff.mp hlock) (by simp [hpc, Pc.hold])
    · exact absurd h (by simp)
  | step now created =>
    simp only [WebrtcConnection.work, WebrtcConnection.next] at h
    rcases hlock with hpc | hpc | hpc
    · simp only [hpc] at h
      rcases pc_of_relay h with hpc' | hpc' <;> simp [hpc, hpc', Pc.hold]
    · simp only [hpc] at h
      obtain ⟨rfl, -⟩ := Prod.mk.inj (Option.some.inj h)
      simp [hpc, Pc.hold]
    · simp only [hpc] at h
      obtain ⟨rfl, -⟩ := Prod.mk.inj (Option.some.inj h)
      simp [hpc, Pc.hold]

/-- **One step of the wait**: of the system only the worker can end it, and each of its statements
brings the end nearer. -/
theorem Server.Waits.step (h : srv.Waits c) (hstep : srv.step env cfg l = some (srv', es)) :
    srv'.Parks env cfg c ∨
      srv'.Waits c ∧ (l.ofWorker c).toNat + srv'.hold c ≤ srv.hold c := by
  obtain ⟨s, acts, conn, hpc, hc, hlock⟩ := h
  -- the connection is as it was
  have hsame : ∀ {c' : ConnPtr} {conn₁ : WebrtcConnection}, c' ≠ c → l.ofWorker c = false →
      srv' = { srv with heap := Function.update srv.heap c' (some conn₁) } →
      srv'.Waits c ∧ (l.ofWorker c).toNat + srv'.hold c ≤ srv.hold c := by
    rintro c' conn₁ hne hl rfl
    have hc' : Function.update srv.heap c' (some conn₁) c = some conn := by
      rw [Function.update_of_ne (Ne.symm hne), hc]
    refine ⟨⟨s, acts, conn, hpc, hc', hlock⟩, ?_⟩
    simp only [Server.hold, hc, hc', hl]
    exact Nat.le_of_eq (Nat.zero_add _)
  cases l with
  | idle | accept client => simp [Server.step, hpc] at hstep
  | main =>
    simp [Server.step, Server.advance, hpc, Server.exec, hc, WebrtcConnection.setOutboundSocket,
      hlock] at hstep
  | callback c' cb =>
    obtain ⟨conn₁, conn₂, hc₁, hcall, hsrv⟩ := onConn_eq_some hstep
    by_cases heq : c' = c
    · subst heq
      subst hsrv
      obtain rfl := Option.some.inj (hc.symm.trans hc₁)
      obtain ⟨-, observer, calls, -, rfl, -⟩ := callback_eq_some hcall
      refine .inr ⟨⟨s, acts, _, hpc, Function.update_self .., hlock⟩, ?_⟩
      simp [Server.hold, hc, Label.ofWorker]
    · exact .inr (hsame heq rfl hsrv)
  | worker c' act =>
    obtain ⟨conn₁, conn₂, hc₁, hwork, hsrv⟩ := onConn_eq_some hstep
    by_cases heq : c' = c
    · subst heq
      subst hsrv
      obtain rfl := Option.some.inj (hc.symm.trans hc₁)
      have hlt := hold_of_work hlock hwork
      by_cases hlock' : conn₂.Locked
      · refine .inr ⟨⟨s, acts, conn₂, hpc, Function.update_self .., hlock'⟩, ?_⟩
        simp only [Server.hold, hc, Function.update_self, Label.ofWorker, beq_self_eq_true,
          Bool.toNat_true, Option.elim_some]
        omega
      · exact .inl (parks_of_free hpc (Function.update_self ..) hlock')
    · exact .inr (hsame heq (by simpa [Label.ofWorker] using heq) hsrv)

/-- A move of a connection is a step of the system. -/
theorem onConn_eq {move : WebrtcConnection → Option (WebrtcConnection × List Event)}
    (hc : srv.heap c = some conn) (h : move conn = some (conn', es)) :
    srv.onConn c move
      = some ({ srv with heap := Function.update srv.heap c (some conn') }, es) := by
  rw [Server.onConn, hc]
  dsimp only
  rw [h]
  rfl

/-- **The main loop can always go on, or waits for a mutex that its worker gives back**, with the
third of its statements at the latest and whatever else moves in between. -/
theorem main_of_run {buffer : Bytes} {tr : List (Label × List Event)}
    (hrun : Run (Server.step env cfg) (Server.start buffer) tr srv) :
    srv.Ready env cfg ∨ ∃ c, srv.Waits c ∧
      (∀ now created, ∃ x, srv.step env cfg (.worker c (.step now created)) = some x) ∧
      ∀ tr' srv', Run (Server.step env cfg) srv tr' srv' →
        3 ≤ tr'.countP (fun x => x.1.ofWorker c) →
        ∃ tr₁ tr₂ srv₁, tr' = tr₁ ++ tr₂ ∧ Run (Server.step env cfg) srv tr₁ srv₁ ∧
          srv₁.Parks env cfg c ∧ tr₁.countP (fun x => x.1.ofWorker c) ≤ 3 := by
  refine (ready_or_waits ⟨_, Registry.of_run hrun⟩ (.of_run hrun)).imp_right ?_
  rintro ⟨c, hwaits⟩
  refine ⟨c, hwaits, fun now created => ?_, fun tr' srv' hrun' hcount => ?_⟩
  · obtain ⟨s, acts, conn, -, hc, hlock⟩ := hwaits
    have hnext : ∃ x, conn.next env c now created = some x := next_of_locked hlock now created
    obtain ⟨x, hx⟩ := hnext
    exact ⟨({ srv with heap := Function.update srv.heap c (some x.1) }, x.2),
      onConn_eq hc (by rw [WebrtcConnection.work, hx])⟩
  · have hthree : srv.hold c ≤ 3 := by
      unfold Server.hold
      cases srv.heap c with
      | none => exact Nat.zero_le _
      | some conn => cases hpc : conn.pc <;> simp [hpc, Pc.hold]
    rcases hrun'.awaits hwaits (fun _ h => Server.Waits.hold_pos h)
        (fun _ _ _ _ h hstep => Server.Waits.step h hstep) with
      ⟨tr₁, tr₂, srv₁, hsplit, hrun₁, hparks, hle⟩ | ⟨hwaits', hle⟩
    · exact ⟨tr₁, tr₂, srv₁, hsplit, hrun₁, hparks, hle.trans hthree⟩
    · have := hwaits'.hold_pos
      omega

/-! ## 4. The threads of a connection -/

/-- The calls of `onSignalingMessage` are the messages handed on. -/
theorem hand_of_observations {message : Bytes} {created : Created} {calls : List Call}
    (hstep : srv.step env cfg l = some (srv', es))
    (hin : (.onSignalingMessage message created, calls) ∈ observations c (l, es)) :
    .hand c message ∈ es := by
  cases l with
  | worker c' act =>
    obtain ⟨conn, conn', -, hwork, -⟩ := onConn_eq_some hstep
    cases act with
    | timeout => simp [observations] at hin
    | step now created' =>
      cases moves_of_work hwork with
      | hand message' queue created'' observer calls' hpc hqueue hcall =>
        rw [observations] at hin
        split at hin
        · rename_i heq
          subst heq
          obtain ⟨⟨rfl, -⟩, -⟩ : (message = message' ∧ created = created') ∧ calls = calls' := by
            simpa using hin
          exact List.mem_cons_self
        · simp at hin
      | close => cases hslot : conn.clientSocket <;> simp [observations, hslot] at hin
      | go | relay | clear | callback => simp [observations] at hin
  | callback c' cb =>
    obtain ⟨conn, conn', -, hcall, -⟩ := onConn_eq_some hstep
    obtain ⟨-, observer, calls', -, -, rfl⟩ := callback_eq_some hcall
    rw [observations] at hin
    split at hin
    · obtain ⟨rfl, -⟩ : .onSignalingMessage message created = cb ∧ calls = calls' := by
        simpa using hin
      unfold WebrtcConnection.callback at hcall
      split at hcall <;> exact absurd hcall (by simp)
    · simp at hin
  | idle | accept | main => simp [observations] at hin

variable {buffer : Bytes} {tr : List (Label × List Event)}

theorem mem_pushed_iff {es : List Event} {message : Bytes} :
    message ∈ es.filterMap (Event.pushed c) ↔ .push c message ∈ es := by
  rw [List.mem_filterMap]
  constructor
  · rintro ⟨e, he, heq⟩
    cases e with
    | push c' message' =>
      obtain ⟨rfl, rfl⟩ : c' = c ∧ message' = message := by
        simpa [Event.pushed] using heq
      exact he
    | _ => simp [Event.pushed] at heq
  · intro h
    exact ⟨_, h, if_pos rfl⟩

/-- What a connection has been sent was pushed: what waits in its queue, and what waits in its
observer. -/
theorem sent_of_run (hbuf : buffer.length = Http.rwBufferSize)
    (hrun : Run (Server.step env cfg) (Server.start buffer) tr srv) (hc : srv.heap c = some conn) :
    (∀ message ∈ conn.queue, .push c message ∈ events tr ∧ message.length < 2 ^ 31) ∧
      (conn.observer.remoteIceCandidateMsg = [] ∨ ∃ message, .push c message ∈ events tr ∧
        message.length < 2 ^ 31 ∧
        splitMessage message = .ok (ascii "ICE", conn.observer.remoteIceCandidateMsg)) := by
  have hbalanced := ((Relayed.of_run hrun).balanced c conn hc).inbound
  have hpushed : ∀ message, message ∈ (events tr).filterMap (Event.handed c) ++ conn.queue →
      .push c message ∈ events tr := by
    intro message hin
    rw [hbalanced] at hin
    exact mem_pushed_iff.mp hin
  refine ⟨fun message hin => ⟨hpushed message (List.mem_append_right _ hin),
    (Short.of_run hbuf hrun).lt hc message hin⟩, ?_⟩
  obtain ⟨o, hobs, hlike⟩ := (Observed.of_run c hbuf hrun).run
  have hremote : conn.observer.remoteIceCandidateMsg = o.remoteIceCandidateMsg := by
    rw [hlike conn hc]
  rw [hremote]
  refine (remote_of_run hobs).imp_right ?_
  rintro ⟨message, created, calls, hin, hsize, hsplit⟩
  refine ⟨message, hpushed message (List.mem_append_left _ ?_), hsize, hsplit⟩
  -- the message was handed on before it was kept
  obtain ⟨⟨l, es⟩, hx, hcall⟩ := List.mem_flatMap.mp hin
  obtain ⟨tr₁, tr₂, rfl⟩ := List.append_of_mem hx
  obtain ⟨srv₁, srv₂, -, hstep, -⟩ := hrun.step_at
  have hhand := hand_of_observations hstep hcall
  refine List.mem_filterMap.mpr ⟨.hand c message, ?_, if_pos rfl⟩
  rw [events_append]
  exact List.mem_append_right _ (List.mem_append_left _ hhand)

/-- The worker has a next statement, unless its observer throws for the message in hand. -/
theorem next_returns (hpc : conn.pc ≠ .done) {now : ℤ} {created : Created}
    (hhand : ∀ message ∈ conn.queue, ∃ r,
      conn.observer.onSignalingMessage env message created = .ok r) :
    ∃ x, conn.next env c now created = some x := by
  have hdequeue : ∃ x, conn.dequeue env c created = some x := by
    unfold WebrtcConnection.dequeue
    split
    · exact ⟨_, rfl⟩
    · rename_i message queue hqueue
      obtain ⟨r, hr⟩ := hhand message (by rw [hqueue]; exact List.mem_cons_self)
      rw [hr]
      exact ⟨_, rfl⟩
  unfold WebrtcConnection.next
  cases h : conn.pc with
  | dequeue | waiting => exact hdequeue
  | slot => exact relay_returns c conn
  | done => exact absurd h hpc
  | start | loop | count | lock | sent | deleted | ice | process | leaving => exact ⟨_, rfl⟩

/-- A callback that returns is a move. -/
theorem callback_eq {cb : Callback} {r : Observer × List Call} (hstart : conn.pc ≠ .start)
    (hdone : conn.pc ≠ .done) (hdue : cb.Due conn.observer)
    (hr : conn.observer.call env cb = .ok r) :
    conn.callback env c cb = some ({ conn with observer := r.1 }, [.observed c r.2]) := by
  unfold WebrtcConnection.callback
  rw [if_neg (not_or.mpr ⟨hstart, hdone⟩)]
  cases cb with
  | onSignalingMessage => exact absurd hdue id
  | onSuccess | onIceCandidate | onIceGatheringChange | onIceConnectionChange =>
    dsimp only
    rw [hr]

/-- Nothing that was pushed to this connection kills. -/
def Spared (env : Env) (c : ConnPtr) (tr : List (Label × List Event)) : Prop :=
  ∀ message, .push c message ∈ events tr → ¬ Kills env message

/-- Unless a client has sent a message that kills, the worker goes on to its end. -/
theorem worker_of_run (hbuf : buffer.length = Http.rwBufferSize)
    (hrun : Run (Server.step env cfg) (Server.start buffer) tr srv) (hc : srv.heap c = some conn)
    (hspared : Spared env c tr) (hpc : conn.pc ≠ .done) (now : ℤ) (created : Created) :
    ∃ x, srv.step env cfg (.worker c (.step now created)) = some x := by
  obtain ⟨hqueue, -⟩ := sent_of_run hbuf hrun hc
  have hhand : ∀ message ∈ conn.queue, ∃ r,
      conn.observer.onSignalingMessage env message created = .ok r := by
    intro message hin
    obtain ⟨hpush, hsize⟩ := hqueue message hin
    exact returns_of_not_kills (hspared message hpush) hsize conn.observer created
  have hnext : ∃ x, conn.next env c now created = some x := next_returns hpc hhand
  obtain ⟨x, hx⟩ := hnext
  exact ⟨_, onConn_eq hc hx⟩

/-- **Unless a client has sent a message that kills, the threads of a connection go on**: the worker
up to its end, and WebRTC's while there is an observer to call. -/
theorem threads_of_run (hbuf : buffer.length = Http.rwBufferSize)
    (hrun : Run (Server.step env cfg) (Server.start buffer) tr srv) (hc : srv.heap c = some conn)
    (hspared : Spared env c tr) :
    (conn.pc ≠ .done → ∀ now created, ∃ x,
      srv.step env cfg (.worker c (.step now created)) = some x) ∧
    (conn.pc ≠ .start → conn.pc ≠ .done → ∀ cb, cb.Due conn.observer → ∃ x,
      srv.step env cfg (.callback c cb) = some x) := by
  refine ⟨worker_of_run hbuf hrun hc hspared, fun hstart hdone cb hdue => ?_⟩
  -- what a callback reads is the payload of a message that was pushed
  obtain ⟨-, hwaits⟩ := sent_of_run hbuf hrun hc
  have hsize : conn.observer.remoteIceCandidateMsg.length < 2 ^ 31 := by
    rcases hwaits with hnil | ⟨message, -, hsize, hsplit⟩
    · rw [hnil]
      decide
    · exact length_payload hsize hsplit
  have hread : conn.observer.remoteIceCandidateMsg ≠ [] →
      ∀ iceStr ∈ pieces Observer.separator conn.observer.remoteIceCandidateMsg,
        Readable env iceStr := by
    intro hne iceStr hpiece
    obtain ⟨message, hpush, -, hsplit⟩ := hwaits.resolve_left hne
    by_contra hdoc
    exact hspared message hpush (.ice hsplit hpiece hdoc)
  obtain ⟨r, hr⟩ := call_returns hdue hsize hread
  exact ⟨_, onConn_eq hc (callback_eq hstart hdone hdue hr)⟩

end

/-! ## 5. Samples -/

/-- A worker is about to answer, when its client waits on another socket. -/
def sampleBusy : List Label :=
  sampleRequest (sampleClient "signIn" "0") 4 ++ sampleWork 0 3 ++
    [.callback 0 (.onIceGatheringChange .complete), .worker 0 .timeout] ++ sampleWork 0 2 ++
    [.accept (sampleClient "wait" "1")]

theorem main_of_run_sample : ∃ tr srv, Run (Server.step deafEnv sampleConfig) sampleStart tr srv ∧
    tr.map Prod.fst = sampleBusy ∧ ∃ c, srv.Waits c ∧ ∀ now created, ∃ x,
      srv.step deafEnv sampleConfig (.worker c (.step now created)) = some x := by
  obtain ⟨tr, srv, hrun, hp⟩ := exists_run (Server.step deafEnv sampleConfig) sampleStart
    sampleBusy (fun tr srv => decide (tr.map Prod.fst = sampleBusy ∧
      (srv.step deafEnv sampleConfig .idle).isNone ∧ (srv.step deafEnv sampleConfig .main).isNone))
    (by decide +kernel)
  obtain ⟨hlabels, hidle, hmain⟩ := of_decide_eq_true hp
  have hbusy : ¬ srv.Ready deafEnv sampleConfig := by
    rintro ⟨l, srv', es, rfl | rfl, hstep⟩
    · exact absurd (hstep ▸ hidle) (by simp)
    · exact absurd (hstep ▸ hmain) (by simp)
  obtain ⟨c, hwaits, hworker, -⟩ := (main_of_run hrun).resolve_left hbusy
  exact ⟨tr, srv, hrun, hlabels, c, hwaits, hworker⟩

/-- A client that posts a message. -/
def samplePost (message : Bytes) : Client :=
  ⟨[.data (ascii "POST /message HTTP/1.1\r\nPragma: 1\r\n\r\n" ++ message)], none, ⟨none, none⟩⟩

/-- The browser's offer, in its frame. -/
def sampleDescribed : Bytes := ascii "SDP" ++ ascii "->" ++ sampleText

/-- A peer signs in and sends its offer and its candidates.  WebRTC has answered the offer, and the
worker is about to hand the candidates on. -/
def sampleTalk : List Label :=
  sampleRequest (sampleClient "signIn" "0") 4 ++ sampleRequest (samplePost sampleDescribed) 4 ++
    sampleRequest (samplePost (browserMessage sampleBatch.candidates)) 4 ++ sampleWork 0 2 ++
    [.worker 0 (.step 0 sampleCreated), .callback 0 (.onSuccess (ascii "answer") (ascii "v=0"))] ++
    sampleWork 0 6

/-- Neither message kills. -/
theorem sampleTalk_spared {tr : List (Label × List Event)}
    (hpushed : (events tr).filterMap (Event.pushed 0)
      = [sampleDescribed, browserMessage sampleBatch.candidates]) :
    Spared (jsonEnv noDouble eagerEnv) 0 tr := by
  intro message hin
  have hmem := mem_pushed_iff.mpr hin
  rw [hpushed] at hmem
  rcases List.mem_cons.mp hmem with rfl | hmem
  · exact not_kills_offer (show Jsoncpp.Spellable (ascii "offer") by decide)
      (show Jsoncpp.Spellable (ascii "v=0") by decide +kernel) (by decide +kernel)
  · rw [List.mem_singleton.mp hmem]
    exact not_kills_batch (by decide +kernel)

theorem threads_of_run_sample : ∃ tr srv conn,
    Run (Server.step (jsonEnv noDouble eagerEnv) sampleConfig) sampleStart tr srv ∧
    tr.map Prod.fst = sampleTalk ∧ srv.heap 0 = some conn ∧ conn.pc = .dequeue ∧
    conn.queue = [browserMessage sampleBatch.candidates] ∧
    (∀ now created, ∃ x, srv.step (jsonEnv noDouble eagerEnv) sampleConfig
      (.worker 0 (.step now created)) = some x) ∧
    ∀ cb, cb.Due conn.observer → ∃ x, srv.step (jsonEnv noDouble eagerEnv) sampleConfig
      (.callback 0 cb) = some x := by
  obtain ⟨tr, srv, hrun, hp⟩ := exists_run (Server.step (jsonEnv noDouble eagerEnv) sampleConfig)
    sampleStart sampleTalk (fun (tr : List (Label × List Event)) (srv : Server) =>
      decide (tr.map Prod.fst = sampleTalk ∧
        (events tr).filterMap (Event.pushed 0)
          = [sampleDescribed, browserMessage sampleBatch.candidates] ∧
        (srv.heap 0).any (fun (conn : WebrtcConnection) => decide (conn.pc = .dequeue ∧
          conn.queue = [browserMessage sampleBatch.candidates])) = true)) (by decide +kernel)
  obtain ⟨hlabels, hpushed, hconn⟩ := of_decide_eq_true hp
  obtain ⟨conn, hc, hconn⟩ := (Option.any_eq_true _ _).mp hconn
  obtain ⟨hpc, hqueue⟩ := of_decide_eq_true hconn
  obtain ⟨hworker, hcallback⟩ :=
    threads_of_run List.length_replicate hrun hc (sampleTalk_spared hpushed)
  exact ⟨tr, srv, conn, hrun, hlabels, hc, hpc, hqueue, hworker (by rw [hpc]; decide),
    hcallback (by rw [hpc]; decide) (by rw [hpc]; decide)⟩

end Reflector
