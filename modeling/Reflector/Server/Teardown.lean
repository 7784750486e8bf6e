/-
# How a call is taken down

Nobody ends a worker from outside.  It ends by itself when the check at the end of an iteration
finds its call over, and the main loop deletes the connection when it passes by with nothing else
to do.

* From the moment on that every check finds the call over, the worker has thirteen statements
  left at most, wherever it stands and whatever the others do.  Until then it can go on, unless a
  client has sent a message that kills (`call_ends`).
* A connection whose worker has ended is deleted by the next cleanup pass, for all that moves while
  the pass goes on, and by no later one (`reclaimed`).
-/
import Reflector.Server.Lifetime
import Reflector.Server.Progress

namespace Reflector

open Base Signaling

/-! ## 1. The rest of a worker's life -/

/-- How many statements a worker has left at most, when the next check finds its call over. -/
def Pc.left (alive : Bool) : Pc → ℕ
  | .start => 13
  | .loop => if alive then 12 else 2
  | .dequeue => 11
  | .waiting => 10
  | .count => 9
  | .lock => 8
  | .slot => 7
  | .sent => 6
  | .deleted => 5
  | .ice => 4
  | .process => if alive then 13 else 3
  | .leaving => 1
  | .done => 0

def WebrtcConnection.left (conn : WebrtcConnection) : ℕ := conn.pc.left conn.alive

/-- A wake-up that finds the queue empty: the wait goes on. -/
def WebrtcConnection.wakesForNothing (conn : WebrtcConnection) : WebrtcConnection.Act → Bool
  | .step _ _ => conn.pc = .waiting && conn.queue.isEmpty
  | .timeout => false

/-- The check finds the call over: it has disconnected, or a minute was not enough to connect. -/
def WebrtcConnection.Over (conn : WebrtcConnection) (now : ℤ) : Prop :=
  conn.observer.getIceState = .disconnected ∨
    conn.observer.getIceState ≠ .connected ∧ 60 * 10 ^ 9 ≤ now - conn.startTime

instance (conn : WebrtcConnection) (now : ℤ) : Decidable (conn.Over now) :=
  inferInstanceAs (Decidable (_ ∨ _))

theorem left_le (conn : WebrtcConnection) : conn.left ≤ 13 := by
  unfold WebrtcConnection.left
  cases conn.pc <;> cases conn.alive <;> decide

section

variable {env : Env} {cfg : Http.Config} {srv srv' : Server} {l : Label} {es : List Event}
  {c : ConnPtr} {conn conn' : WebrtcConnection}

theorem left_of_pc {pc : Pc} (hpc : conn.pc = pc) : conn.left = pc.left conn.alive := by
  rw [WebrtcConnection.left, hpc]

theorem pc_of_dequeue {created : Created} (h : conn.dequeue env c created = some (conn', es)) :
    conn.queue = [] ∧ conn'.pc = .waiting ∨ conn.queue ≠ [] ∧ conn'.pc = .count := by
  unfold WebrtcConnection.dequeue at h
  split at h
  · rename_i hqueue
    obtain ⟨rfl, -⟩ := Prod.mk.inj (Option.some.inj h)
    exact .inl ⟨hqueue, rfl⟩
  · rename_i hqueue
    split at h
    · exact absurd h (by simp)
    · obtain ⟨rfl, -⟩ := Prod.mk.inj (Option.some.inj h)
      exact .inr ⟨by simp [hqueue], rfl⟩

/-- **A statement of the worker is paid for.** -/
theorem left_of_next {now : ℤ} {created : Created} (hover : conn.pc = .ice → conn.Over now)
    (h : conn.next env c now created = some (conn', es)) :
    (!conn.wakesForNothing (.step now created)).toNat + conn'.left ≤ conn.left := by
  have hpaid : conn'.left < conn.left →
      (!conn.wakesForNothing (.step now created)).toNat + conn'.left ≤ conn.left := by
    intro hlt
    have := (!conn.wakesForNothing (.step now created)).toNat_le
    omega
  cases hpc : conn.pc with
  | waiting =>
    simp only [WebrtcConnection.next, hpc] at h
    rcases pc_of_dequeue h with ⟨hqueue, hpc'⟩ | ⟨-, hpc'⟩
    · -- it waits on, and that is free
      rw [left_of_pc hpc, left_of_pc hpc']
      simp [WebrtcConnection.wakesForNothing, hpc, hqueue, Pc.left]
    · refine hpaid ?_
      rw [left_of_pc hpc, left_of_pc hpc', Pc.left, Pc.left]
      decide
  | dequeue =>
    simp only [WebrtcConnection.next, hpc] at h
    refine hpaid ?_
    rcases pc_of_dequeue h with ⟨-, hpc'⟩ | ⟨-, hpc'⟩ <;>
      rw [left_of_pc hpc, left_of_pc hpc', Pc.left, Pc.left] <;> decide
  | slot =>
    simp only [WebrtcConnection.next, hpc] at h
    refine hpaid ?_
    rcases pc_of_relay h with hpc' | hpc' <;>
      rw [left_of_pc hpc, left_of_pc hpc', Pc.left, Pc.left] <;> decide
  | ice =>
    simp only [WebrtcConnection.next, hpc] at h
    obtain ⟨rfl, -⟩ := Prod.mk.inj (Option.some.inj h)
    have hdead := (checkIce_alive_iff conn now).mpr (.inr (hover hpc))
    exact hpaid (by simp [WebrtcConnection.left, hpc, hdead, Pc.left])
  | done =>
    simp only [WebrtcConnection.next, hpc] at h
    exact absurd h (by simp)
  | loop | process =>
    simp only [WebrtcConnection.next, hpc] at h
    obtain ⟨rfl, -⟩ := Prod.mk.inj (Option.some.inj h)
    refine hpaid ?_
    cases halive : conn.alive <;> simp [WebrtcConnection.left, hpc, halive, Pc.left]
  | count =>
    simp only [WebrtcConnection.next, hpc] at h
    obtain ⟨rfl, -⟩ := Prod.mk.inj (Option.some.inj h)
    refine hpaid ?_
    rw [left_of_pc hpc, WebrtcConnection.left]
    dsimp only
    split <;> simp [Pc.left]
  | start =>
    simp only [WebrtcConnection.next, hpc] at h
    obtain ⟨rfl, -⟩ := Prod.mk.inj (Option.some.inj h)
    refine hpaid ?_
    rw [left_of_pc hpc, WebrtcConnection.left]
    dsimp only
    cases conn.alive <;> decide
  | lock | sent | deleted | leaving =>
    simp only [WebrtcConnection.next, hpc] at h
    obtain ⟨rfl, -⟩ := Prod.mk.inj (Option.some.inj h)
    exact hpaid (by simp [WebrtcConnection.left, hpc, Pc.left])

theorem left_of_work {act : WebrtcConnection.Act}
    (hover : ∀ now created, act = .step now created → conn.pc = .ice → conn.Over now)
    (h : conn.work env c act = some (conn', es)) :
    (!conn.wakesForNothing act).toNat + conn'.left ≤ conn.left := by
  cases act with
  | step now created => exact left_of_next (hover now created rfl) h
  | timeout =>
    simp only [WebrtcConnection.work] at h
    split at h
    · rename_i hpc
      obtain ⟨rfl, -⟩ := Prod.mk.inj (Option.some.inj h)
      simp [WebrtcConnection.wakesForNothing, WebrtcConnection.left, hpc, Pc.left]
    · exact absurd h (by simp)

/-! ## 2. In the midst of the others -/

/-- The worker of connection `c` makes a statement, and more than a wake-up. -/
def Advances (c : ConnPtr) (srv : Server) : Label → Bool
  | .worker c' act => c' == c && (srv.heap c).any fun conn => !conn.wakesForNothing act
  | _ => false

/-- If the step is a check of connection `c`, it finds the call over. -/
def Doomed (c : ConnPtr) (srv : Server) : Label → Prop
  | .worker c' (.step now _) => c' = c → ∀ conn ∈ srv.heap c, conn.pc = .ice → conn.Over now
  | _ => True

instance (c : ConnPtr) (srv : Server) : (l : Label) → Decidable (Doomed c srv l)
  | .worker c' (.step now _) => inferInstanceAs (Decidable (c' = c → ∀ conn ∈ srv.heap c,
      conn.pc = .ice → conn.Over now))
  | .worker _ .timeout | .idle | .accept _ | .main | .callback _ _ => .isTrue trivial

def Server.leftOf (srv : Server) (c : ConnPtr) : ℕ :=
  (srv.heap c).elim 0 WebrtcConnection.left

theorem leftOf_le (srv : Server) (c : ConnPtr) : srv.leftOf c ≤ 13 := by
  unfold Server.leftOf
  cases srv.heap c with
  | none => exact Nat.zero_le _
  | some conn => exact left_le conn

/-- What one step makes of a connection: what its worker makes of it, or nothing that its worker
looks at. -/
inductive Becomes (env : Env) (l : Label) (c : ConnPtr) (conn : WebrtcConnection) :
    WebrtcConnection → Prop
  | work (act : WebrtcConnection.Act) (conn' : WebrtcConnection) (es : List Event)
      (hl : l = .worker c act) (h : conn.work env c act = some (conn', es)) :
      Becomes env l c conn conn'
  | keep (conn' : WebrtcConnection) (hl : ∀ act, l ≠ .worker c act) (hpc : conn'.pc = conn.pc)
      (hstate : conn'.state = conn.state) (halive : conn'.alive = conn.alive) :
      Becomes env l c conn conn'

/-- **What a step does to a connection** that is there behind it. -/
theorem becomes_of_step (hstep : srv.step env cfg l = some (srv', es))
    (hc' : srv'.heap c = some conn') :
    (c = srv.nextConn ∧ ∃ peerId, conn' = .new peerId) ∨
      ∃ conn, srv.heap c = some conn ∧ Becomes env l c conn conn' := by
  have hsame : (∀ act, l ≠ .worker c act) → srv.heap c = some conn' →
      ∃ conn, srv.heap c = some conn ∧ Becomes env l c conn conn' :=
    fun hl hc => ⟨conn', hc, .keep conn' hl rfl rfl rfl⟩
  -- a connection put in the place of what it was
  have hput : ∀ {c₁ conn₁ conn₂}, srv.heap c₁ = some conn₁ →
      Function.update srv.heap c₁ (some conn₂) c = some conn' →
      (c₁ ≠ c → ∀ act, l ≠ .worker c act) → (c₁ = c → Becomes env l c conn₁ conn₂) →
      ∃ conn, srv.heap c = some conn ∧ Becomes env l c conn conn' := by
    intro c₁ conn₁ conn₂ hc₁ hc' hl hbecomes
    by_cases heq : c₁ = c
    · subst heq
      rw [Function.update_self] at hc'
      obtain rfl := Option.some.inj hc'
      exact ⟨conn₁, hc₁, hbecomes rfl⟩
    · rw [Function.update_of_ne (Ne.symm heq)] at hc'
      exact hsame (hl heq) hc'
  cases l with
  | worker c₁ act =>
    obtain ⟨conn₁, conn₂, hc₁, hwork, rfl⟩ := onConn_eq_some hstep
    refine .inr (hput hc₁ hc' (fun hne act heq => hne (Label.worker.inj heq).1) ?_)
    rintro rfl
    exact .work act conn₂ es rfl hwork
  | callback c₁ cb =>
    obtain ⟨conn₁, conn₂, hc₁, hcall, rfl⟩ := onConn_eq_some hstep
    obtain ⟨-, observer, calls, -, rfl, -⟩ := callback_eq_some hcall
    exact .inr (hput hc₁ hc' (fun _ => by simp) fun _ => .keep _ (by simp) rfl rfl rfl)
  | idle =>
    cases happens_of_step hstep with
    | idle hpc => exact .inr (hsame (by simp) hc')
    | move _ _ _ _ _ hl => exact absurd hl (by simp)
  | accept client =>
    cases happens_of_step hstep with
    | reject | begin => exact .inr (hsame (by simp) hc')
    | move _ _ _ _ _ hl => exact absurd hl (by simp)
  | main =>
    cases happens_of_step hstep with
    | cleanupDelete i c₁ conn hpc hi hc hend =>
      by_cases heq : c = c₁
      · subst heq
        simp at hc'
      · exact .inr (hsame (by simp) (by simpa [Function.update_of_ne heq] using hc'))
    | newConnection s acts hpc =>
      by_cases heq : c = srv.nextConn
      · subst heq
        exact .inl ⟨rfl, srv.peerId, by simpa using hc'.symm⟩
      · exact .inr (hsame (by simp) (by simpa [Function.update_of_ne heq] using hc'))
    | pushMessage s c₁ message acts conn hpc hc =>
      exact .inr (hput hc hc' (fun _ => by simp) fun _ => .keep _ (by simp) rfl rfl rfl)
    | park s c₁ acts conn hpc hc hlock =>
      exact .inr (hput hc hc' (fun _ => by simp) fun _ => .keep _ (by simp) rfl rfl rfl)
    | move _ _ _ _ _ hl => exact absurd hl (by simp)
    | _ => exact .inr (hsame (by simp) hc')

/-- Numbers of connections are not given back. -/
theorem nextConn_le (hstep : srv.step env cfg l = some (srv', es)) :
    srv.nextConn ≤ srv'.nextConn := by
  cases happens_of_step hstep with
  | newConnection => exact Nat.le_succ _
  | _ => exact Nat.le_refl _

/-- **One step of the system is paid for.** -/
theorem leftOf_step (hlt : c < srv.nextConn) (hstep : srv.step env cfg l = some (srv', es))
    (hdoom : Doomed c srv l) :
    c < srv'.nextConn ∧ (Advances c srv l).toNat + srv'.leftOf c ≤ srv.leftOf c := by
  refine ⟨Nat.lt_of_lt_of_le hlt (nextConn_le hstep), ?_⟩
  cases hc' : srv'.heap c with
  | none =>
    have hno : Advances c srv l = false := by
      cases l with
      | worker c₁ act =>
        obtain ⟨conn₁, conn₂, hc₁, -, rfl⟩ := onConn_eq_some hstep
        have hne : c₁ ≠ c := by
          rintro rfl
          simp at hc'
        simp [Advances, hne]
      | _ => rfl
    simp [hno, Server.leftOf, hc']
  | some conn' =>
    rcases becomes_of_step hstep hc' with ⟨hnew, -⟩ | ⟨conn, hc, hbecomes⟩
    · exact absurd hnew (Nat.ne_of_lt hlt)
    · cases hbecomes with
      | work act conn' es' hl hwork =>
        subst hl
        have hover : ∀ now created, act = .step now created → conn.pc = .ice → conn.Over now := by
          rintro now created rfl hpc
          exact hdoom rfl conn hc hpc
        simpa [Server.leftOf, Advances, hc, hc'] using left_of_work hover hwork
      | keep conn' hl hpc hstate halive =>
        have hno : Advances c srv l = false := by
          cases l with
          | worker c₁ act =>
            have hne : c₁ ≠ c := fun heq => hl act (by rw [heq])
            simp [Advances, hne]
          | _ => rfl
        simp [hno, Server.leftOf, hc, hc', WebrtcConnection.left, hpc, halive]

/-! ## 3. The end of a worker -/

theorem ended_of_work {act : WebrtcConnection.Act} (h : conn.work env c act = some (conn', es))
    (hdone : conn'.pc = .done) : conn'.state = .ended := by
  cases act with
  | timeout =>
    simp only [WebrtcConnection.work] at h
    split at h
    · obtain ⟨rfl, -⟩ := Prod.mk.inj (Option.some.inj h)
      exact absurd hdone (by simp)
    · exact absurd h (by simp)
  | step now created =>
    cases hpc : conn.pc with
    | dequeue | waiting =>
      simp only [WebrtcConnection.work, WebrtcConnection.next, hpc] at h
      rcases pc_of_dequeue h with ⟨-, hpc'⟩ | ⟨-, hpc'⟩ <;>
        exact absurd (hpc'.symm.trans hdone) (by simp)
    | slot =>
      simp only [WebrtcConnection.work, WebrtcConnection.next, hpc] at h
      rcases pc_of_relay h with hpc' | hpc' <;> exact absurd (hpc'.symm.trans hdone) (by simp)
    | leaving =>
      simp only [WebrtcConnection.work, WebrtcConnection.next, hpc] at h
      obtain ⟨rfl, -⟩ := Prod.mk.inj (Option.some.inj h)
      rfl
    | done =>
      simp only [WebrtcConnection.work, WebrtcConnection.next, hpc] at h
      exact absurd h (by simp)
    | loop | count =>
      simp only [WebrtcConnection.work, WebrtcConnection.next, hpc] at h
      obtain ⟨rfl, -⟩ := Prod.mk.inj (Option.some.inj h)
      dsimp only at hdone
      split at hdone <;> exact absurd hdone (by simp)
    | start | lock | sent | deleted | ice | process =>
      simp only [WebrtcConnection.work, WebrtcConnection.next, hpc] at h
      obtain ⟨rfl, -⟩ := Prod.mk.inj (Option.some.inj h)
      exact absurd hdone (by simp)

/-- `m_state` is assigned with the last statement. -/
theorem ended_of_run {buffer : Bytes} {tr : List (Label × List Event)}
    (hrun : Run (Server.step env cfg) (Server.start buffer) tr srv) :
    ∀ c conn, srv.heap c = some conn → conn.pc = .done → conn.state = .ended := by
  refine hrun.invariant (fun _ srv => ∀ c conn, srv.heap c = some conn → conn.pc = .done →
    conn.state = .ended) (by simp [Server.start]) ?_
  intro tr srv l srv' es _ ih hstep c conn' hc' hdone
  rcases becomes_of_step hstep hc' with ⟨-, peerId, rfl⟩ | ⟨conn, hc, hbecomes⟩
  · exact absurd hdone (by simp [WebrtcConnection.new])
  · cases hbecomes with
    | work act conn' es' hl hwork => exact ended_of_work hwork hdone
    | keep conn' hl hpc hstate halive => exact hstate.trans (ih c conn hc (hpc.symm.trans hdone))

/-- **Once every check finds the call over, its worker comes to an end**: it has thirteen statements
left at most, and as long as it has not ended it can make one, if no client has sent a message that
kills. -/
theorem call_ends {buffer : Bytes} {tr tr' : List (Label × List Event)}
    (hbuf : buffer.length = Http.rwBufferSize)
    (hrun : Run (Server.step env cfg) (Server.start buffer) tr srv) (hc : srv.heap c = some conn)
    (hmore : Run (Server.step env cfg) srv tr' srv')
    (hdoom : AllGood (Server.step env cfg) srv (Doomed c) tr') :
    tally (Server.step env cfg) (Advances c) srv (tr'.map Prod.fst) ≤ 13 ∧
      (Spared env c (tr ++ tr') → ∀ conn', srv'.heap c = some conn' → conn'.state = .ended ∨
        ∃ act x, Advances c srv' (.worker c act) = true ∧
          srv'.step env cfg (.worker c act) = some x) := by
  have hreg := Registry.of_run hrun
  constructor
  · have hstep : ∀ srv l srv' es, c < srv.nextConn →
        Server.step env cfg srv l = some (srv', es) → Doomed c srv l →
        c < srv'.nextConn ∧ (Advances c srv l).toNat + srv'.leftOf c ≤ srv.leftOf c :=
      fun _ _ _ _ hlt hs hgood => leftOf_step hlt hs hgood
    have hpaid := (hmore.tally_add_le (hreg.allocated c (hreg.mem_list hc)) hstep hdoom).2
    have := leftOf_le srv c
    omega
  · intro hspared conn' hc'
    have hwhole := hrun.trans hmore
    by_cases hdone : conn'.pc = .done
    · exact .inl (ended_of_run hwhole c conn' hc' hdone)
    · right
      by_cases hwakes : conn'.wakesForNothing (.step 0 ⟨none, none⟩) = true
      · -- there is nothing to wake up for, but the wait is bounded
        have hpc : conn'.pc = .waiting := by
          simp only [WebrtcConnection.wakesForNothing, Bool.and_eq_true,
            decide_eq_true_eq] at hwakes
          exact hwakes.1
        refine ⟨.timeout, _, ?_, onConn_eq hc' (if_pos hpc)⟩
        simp [Advances, hc', WebrtcConnection.wakesForNothing]
      · obtain ⟨x, hx⟩ := worker_of_run hbuf hwhole hc' hspared hdone 0 ⟨none, none⟩
        refine ⟨.step 0 ⟨none, none⟩, x, ?_, hx⟩
        simpa [Advances, hc'] using hwakes

/-! ## 4. The cleanup pass -/

/-- The pass that is going on has yet to come to connection `c`, whose worker has ended. -/
def Server.Sweeps (srv : Server) (c : ConnPtr) : Prop :=
  ∃ i conn, srv.pc = .cleanup i ∧ c ∈ srv.webrtcConnectionList.drop i ∧
    srv.heap c = some conn ∧ conn.state = .ended

/-- **One step of the pass.** -/
theorem Server.Sweeps.step {es₀ : List Event} (hsock : Sockets es₀ srv) (h : srv.Sweeps c)
    (hstep : srv.step env cfg l = some (srv', es)) : srv'.Sweeps c ∨ srv'.heap c = none := by
  obtain ⟨i, conn, hpc, hin, hc, hend⟩ := h
  have hdone := hsock.ended c conn hc hend
  cases l with
  | idle | accept client => simp [Server.step, hpc] at hstep
  | worker c' act =>
    obtain ⟨conn₁, conn₂, hc₁, hwork, rfl⟩ := onConn_eq_some hstep
    have hne : c ≠ c' := by
      rintro rfl
      obtain rfl := Option.some.inj (hc.symm.trans hc₁)
      cases act <;> simp [WebrtcConnection.work, WebrtcConnection.next, hdone] at hwork
    exact .inl ⟨i, conn, hpc, hin, (Function.update_of_ne hne ..).trans hc, hend⟩
  | callback c' cb =>
    obtain ⟨conn₁, conn₂, hc₁, hcall, rfl⟩ := onConn_eq_some hstep
    have hne : c ≠ c' := by
      rintro rfl
      obtain rfl := Option.some.inj (hc.symm.trans hc₁)
      exact (callback_eq_some hcall).1.2 hdone
    exact .inl ⟨i, conn, hpc, hin, (Function.update_of_ne hne ..).trans hc, hend⟩
  | main =>
    -- the element under the iterator
    have hfront : ∀ {c₁}, srv.webrtcConnectionList[i]? = some c₁ → c = c₁ ∨
        c ∈ srv.webrtcConnectionList.drop (i + 1) := by
      intro c₁ hi
      obtain ⟨hlt, rfl⟩ := List.getElem?_eq_some_iff.mp hi
      rw [List.drop_eq_getElem_cons hlt] at hin
      exact List.mem_cons.mp hin
    have hsame : ∀ {i'}, srv.pc = .cleanup i' → i = i' := fun h =>
      MainPc.cleanup.inj (hpc.symm.trans h)
    cases happens_of_step hstep with
    | cleanupEnd i' hpc' hi =>
      obtain rfl := hsame hpc'
      rw [List.drop_eq_nil_of_le (List.getElem?_eq_none_iff.mp hi)] at hin
      exact absurd hin List.not_mem_nil
    | cleanupDelete i' c₁ conn₁ hpc' hi hc₁ hend₁ =>
      obtain rfl := hsame hpc'
      by_cases heq : c = c₁
      · subst heq
        exact .inr (Function.update_self ..)
      · refine .inl ⟨i, conn, rfl, ?_, (Function.update_of_ne heq ..).trans hc, hend⟩
        have hlen : (srv.webrtcConnectionList.take i).length = i :=
          List.length_take_of_le (List.getElem?_eq_some_iff.mp hi).1.le
        rw [List.eraseIdx_eq_take_drop_succ, List.drop_left' hlen]
        exact (hfront hi).resolve_left heq
    | cleanupSkip i' c₁ conn₁ hpc' hi hc₁ hend₁ =>
      obtain rfl := hsame hpc'
      have hne : c ≠ c₁ := by
        rintro rfl
        obtain rfl := Option.some.inj (hc.symm.trans hc₁)
        exact hend₁ hend
      exact .inl ⟨i + 1, conn, rfl, (hfront hi).resolve_left hne, hc, hend⟩
    | move _ _ _ _ _ hl => exact absurd hl (by simp)
    | _ => simp_all

/-- A connection that is gone stays gone. -/
theorem gone_step (hlt : c < srv.nextConn) (hgone : srv.heap c = none)
    (hstep : srv.step env cfg l = some (srv', es)) : srv'.heap c = none := by
  by_contra hnot
  obtain ⟨conn', hc'⟩ := Option.ne_none_iff_exists'.mp hnot
  rcases becomes_of_step hstep hc' with ⟨hnew, -⟩ | ⟨conn, hc, -⟩
  · exact Nat.ne_of_lt hlt hnew
  · exact absurd (hgone.symm.trans hc) (by simp)

variable {buffer : Bytes} {tr tr' : List (Label × List Event)}

/-- **A connection that is gone was deleted, once**, and no other was. -/
theorem deletes_of_run (hrun : Run (Server.step env cfg) (Server.start buffer) tr srv)
    (c : ConnPtr) : (events tr).count (.delete c)
      = if c < srv.nextConn ∧ srv.heap c = none then 1 else 0 := by
  refine hrun.invariant (fun tr srv => (events tr).count (.delete c)
    = if c < srv.nextConn ∧ srv.heap c = none then 1 else 0) (by simp [Server.start]) ?_
  intro tr srv l srv' es hr ih hstep
  have hreg := Registry.of_run hr
  rw [events_append, events_singleton, List.count_append, ih]
  -- nobody is deleted, and nobody comes or goes
  have hsame : Event.delete c ∉ es → srv'.nextConn = srv.nextConn →
      (srv'.heap c = none ↔ srv.heap c = none) →
      (if c < srv.nextConn ∧ srv.heap c = none then 1 else 0) + es.count (.delete c)
        = if c < srv'.nextConn ∧ srv'.heap c = none then 1 else 0 := by
    intro hno hnext hheap
    rw [List.count_eq_zero_of_not_mem hno, hnext, Nat.add_zero]
    simp only [hheap]
  have hput : ∀ {c₁ conn₁ conn₂}, srv.heap c₁ = some conn₁ →
      (Function.update srv.heap c₁ (some conn₂) c = none ↔ srv.heap c = none) := by
    intro c₁ conn₁ conn₂ hc₁
    by_cases heq : c = c₁
    · subst heq
      simp [hc₁]
    · rw [Function.update_of_ne heq]
  cases happens_of_step hstep with
  | cleanupDelete i c₁ conn hpc hi hc hend =>
    by_cases heq : c = c₁
    · subst heq
      have hlt := hreg.allocated c (hreg.mem_list hc)
      simp [hc, hlt]
    · refine hsame (by simpa using heq) rfl ?_
      dsimp only
      rw [Function.update_of_ne heq]
  | newConnection s acts hpc =>
    by_cases heq : c = srv.nextConn
    · subst heq
      simp
    · simp only [Function.update_of_ne heq, Nat.lt_succ_iff_lt_or_eq, heq, or_false]
      simp
  | pushMessage s c₁ message acts conn hpc hc => exact hsame (by simp) rfl (hput hc)
  | park s c₁ acts conn hpc hc hlock => exact hsame (by simp) rfl (hput hc)
  | move _ c₁ conn conn' _ hl hc hmove =>
    refine hsame ?_ rfl (hput hc)
    cases hmove with
    | close => cases conn.clientSocket <;> simp
    | _ => simp
  | closeUnlessWaiting => exact hsame (by split <;> simp) rfl Iff.rfl
  | _ => exact hsame (by simp) rfl Iff.rfl

/-- **A connection whose worker has ended is deleted by the next pass**, for good. -/
theorem reclaimed {srv₁ : Server}
    (hrun : Run (Server.step env cfg) (Server.start buffer) tr srv) (hc : srv.heap c = some conn)
    (hend : conn.state = .ended) (hidle : srv.step env cfg .idle = some (srv₁, es))
    (hmore : Run (Server.step env cfg) srv₁ tr' srv') (hpc : srv'.pc = .accept) :
    srv'.heap c = none ∧ c ∉ srv'.webrtcConnectionList ∧
      (events tr).count (.delete c) = 0 ∧
      (events (tr ++ (.idle, es) :: tr')).count (.delete c) = 1 := by
  have hreg := Registry.of_run hrun
  have hmem := hreg.mem_list hc
  have hpass := hrun.tail hidle
  -- the pass begins with the whole list before it
  have hsrv₁ : srv₁.nextConn = srv.nextConn ∧ srv₁.Sweeps c := by
    simp only [Server.step] at hidle
    split at hidle
    · obtain ⟨rfl, -⟩ := Prod.mk.inj (Option.some.inj hidle)
      exact ⟨rfl, 0, conn, rfl, hmem, hc, hend⟩
    · exact absurd hidle (by simp)
  have hswept : c < srv'.nextConn ∧ (srv'.Sweeps c ∨ srv'.heap c = none) := by
    refine hmore.invariant (fun _ srv' => c < srv'.nextConn ∧ (srv'.Sweeps c ∨ srv'.heap c = none))
      ⟨hsrv₁.1 ▸ hreg.allocated c hmem, .inl hsrv₁.2⟩ ?_
    rintro tr₁ srv₂ l srv₃ es₁ hr ⟨hlt, hsweeps | hgone⟩ hstep
    · have hlt' := Nat.lt_of_lt_of_le hlt (nextConn_le hstep)
      exact ⟨hlt', hsweeps.step (Sockets.of_run (hpass.trans hr)) hstep⟩
    · exact ⟨Nat.lt_of_lt_of_le hlt (nextConn_le hstep), .inr (gone_step hlt hgone hstep)⟩
  have hgone : srv'.heap c = none := by
    refine hswept.2.resolve_left ?_
    rintro ⟨i, conn', hpc', -⟩
    exact absurd (hpc.symm.trans hpc') (by simp)
  have hwhole : Run (Server.step env cfg) (Server.start buffer)
      (tr ++ (.idle, es) :: tr') srv' := by
    have := hpass.trans hmore
    rwa [List.append_assoc, List.singleton_append] at this
  refine ⟨hgone, fun hin => ?_, ?_, ?_⟩
  · obtain ⟨conn', hc', -⟩ := (Registry.of_run hwhole).isSome_heap hin
    exact absurd (hgone.symm.trans hc') (by simp)
  · rw [deletes_of_run hrun, if_neg (by simp [hc])]
  · rw [deletes_of_run hwhole, if_pos ⟨hswept.1, hgone⟩]

end

/-! ## 5. Samples -/

/-- The client of a call hangs up, and its worker hands on what is left and looks at the state. -/
def sampleHangUp : List Label :=
  .callback 0 (.onIceConnectionChange .disconnected) :: sampleWork 0 5

theorem call_ends_sample : ∃ tr srv tr' srv',
    Run (Server.step (jsonEnv noDouble eagerEnv) sampleConfig) sampleStart tr srv ∧
    tr.map Prod.fst = sampleTalk ∧
    Run (Server.step (jsonEnv noDouble eagerEnv) sampleConfig) srv tr' srv' ∧
    tr'.map Prod.fst = sampleHangUp ∧ ∀ conn', srv'.heap 0 = some conn' → conn'.state = .ended ∨
      ∃ act x, Advances 0 srv' (.worker 0 act) = true ∧
        srv'.step (jsonEnv noDouble eagerEnv) sampleConfig (.worker 0 act) = some x := by
  obtain ⟨tr, srv, hrun, hp⟩ := exists_run (Server.step (jsonEnv noDouble eagerEnv) sampleConfig)
    sampleStart sampleTalk (fun (tr : List (Label × List Event)) (srv : Server) => decide
      (tr.map Prod.fst = sampleTalk ∧ (srv.heap 0).isSome ∧
        (events tr).filterMap (Event.pushed 0)
          = [sampleDescribed, browserMessage sampleBatch.candidates] ∧
        (runLabels (Server.step (jsonEnv noDouble eagerEnv) sampleConfig) srv sampleHangUp).any
          (fun (x : List (Label × List Event) × Server) =>
            decide (x.1.map Prod.fst = sampleHangUp ∧
              (events x.1).filterMap (Event.pushed 0) = [] ∧
              goodLabels (Server.step (jsonEnv noDouble eagerEnv) sampleConfig)
                (fun srv l => decide (Doomed 0 srv l)) srv (x.1.map Prod.fst) = true)) = true))
    (by decide +kernel)
  obtain ⟨hcall, hsome, hpushed, hrest⟩ := of_decide_eq_true hp
  obtain ⟨conn, hc⟩ := Option.isSome_iff_exists.mp hsome
  obtain ⟨⟨tr', srv'⟩, hlabels, hx⟩ := (Option.any_eq_true _ _).mp hrest
  obtain ⟨hfst, hpushed', hgood⟩ := of_decide_eq_true hx
  have hmore := run_of_runLabels _ hlabels
  have hdoom := (allGood_iff hmore).mpr hgood
  refine ⟨tr, srv, tr', srv', hrun, hcall, hmore, hfst,
    (call_ends List.length_replicate hrun hc hmore (by simpa using hdoom)).2
      (sampleTalk_spared ?_)⟩
  rw [events_append, List.filterMap_append, hpushed, hpushed', List.append_nil]

/-- A peer signs in and is never heard of again; a minute later its worker looks at the clock. -/
def sampleSignIn : List Label := sampleRequest (sampleClient "signIn" "0") 4

def sampleSilence : List Label :=
  sampleWork 0 3 ++ [.worker 0 .timeout] ++ sampleWork 0 1 ++
    [.worker 0 (.step (60 * 10 ^ 9) ⟨none, none⟩)]

/-- After its last statements the connection is deleted. -/
theorem reclaimed_sample : ∃ tr srv srv₁ tr' srv',
    Run (Server.step deafEnv sampleConfig) sampleStart tr srv ∧ (srv.heap 0).isSome ∧
    srv.step deafEnv sampleConfig .idle = some (srv₁, []) ∧
    Run (Server.step deafEnv sampleConfig) srv₁ tr' srv' ∧
    (events (tr ++ (.idle, []) :: tr')).count (.delete 0) = 1 := by
  obtain ⟨tr, srv, hrun, hp⟩ := exists_run (Server.step deafEnv sampleConfig) sampleStart
    (sampleSignIn ++ sampleSilence ++ sampleWork 0 3) (fun tr srv => decide
      ((srv.heap 0).any (fun conn => conn.state = .ended) = true ∧
        (srv.step deafEnv sampleConfig .idle).any (fun x => x.2 = [] ∧
          (runLabels (Server.step deafEnv sampleConfig) x.1 [.main, .main]).any
            (fun y => y.2.pc = .accept)) = true)) (by decide +kernel)
  obtain ⟨hconn, hpass⟩ := of_decide_eq_true hp
  obtain ⟨conn, hc, hend⟩ := (Option.any_eq_true _ _).mp hconn
  obtain ⟨⟨srv₁, es⟩, hidle, hx⟩ := (Option.any_eq_true _ _).mp hpass
  obtain ⟨rfl, hrest⟩ := of_decide_eq_true hx
  obtain ⟨⟨tr', srv'⟩, hlabels, hpc⟩ := (Option.any_eq_true _ _).mp hrest
  have hmore := run_of_runLabels _ hlabels
  exact ⟨tr, srv, srv₁, tr', srv', hrun, by rw [hc]; rfl, hidle, hmore,
    (reclaimed hrun hc (of_decide_eq_true hend) hidle hmore (of_decide_eq_true hpc)).2.2.2⟩

end Reflector
