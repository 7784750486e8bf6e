/-
# How long a call lasts (`WebrtcConnection::Run`)

A worker leaves its loop when `m_alive` is false, and one statement clears it: the ICE check at
the end of an iteration.  A call that has disconnected ends there, and so does a peer that is
not connected one minute after the worker began (`MAX_CONNECTION_TIME_SEC`; the log says
`not connected in 60 seconds, aborting`).

The limit is meant for peers that never connect, but "not connected" is spelled
`!= kIceConnectionConnected`, and a call that works has two names: once ICE has stopped looking
for a better pair it is `kIceConnectionCompleted`.  Such a call is ended by the first check that
finds it so after the first minute, and by no other (`call_spared_iff`).
-/
import Reflector.Signaling.Candidates
import Reflector.Server.Sockets

namespace Reflector

open Base Signaling

/-! ## 1. The check -/

/-- The states in which the two ends are talking. -/
def Signaling.IceConnectionState.Established (state : IceConnectionState) : Prop :=
  state = .connected ∨ state = .completed

/-- Whole seconds, counted towards zero. -/
theorem limit_iff (diff : ℤ) :
    diff.tdiv (10 ^ 9) ≥ WebrtcConnection.maxConnectionTimeSec ↔ 60 * 10 ^ 9 ≤ diff := by
  rw [WebrtcConnection.maxConnectionTimeSec]
  rcases le_total 0 diff with hpos | hneg
  · rw [Int.tdiv_eq_ediv_of_nonneg hpos]
    omega
  · have hquot : 0 ≤ (-diff).tdiv (10 ^ 9) := Int.tdiv_nonneg (by omega) (by decide)
    rw [Int.neg_tdiv] at hquot
    omega

/-- **What the check asks for.** -/
theorem checkIce_alive_iff (conn : WebrtcConnection) (now : ℤ) :
    (conn.checkIce now).alive = false ↔
      conn.alive = false ∨ conn.observer.getIceState = .disconnected ∨
        conn.observer.getIceState ≠ .connected ∧ 60 * 10 ^ 9 ≤ now - conn.startTime := by
  unfold WebrtcConnection.checkIce
  dsimp only
  split
  · rename_i hdis
    exact ⟨fun _ => .inr (.inl hdis), fun _ => rfl⟩
  · rename_i hdis
    split
    · rename_i hcon
      split
      · rename_i hlate
        exact ⟨fun _ => .inr (.inr ⟨hcon, (limit_iff _).mp hlate⟩), fun _ => rfl⟩
      · rename_i hlate
        rw [limit_iff] at hlate
        exact ⟨.inl, fun h => h.elim id fun h => h.elim (absurd · hdis) (absurd ·.2 hlate)⟩
    · rename_i hcon
      exact ⟨.inl, fun h => h.elim id fun h => h.elim (absurd · hdis) (absurd ·.1 hcon)⟩

/-- `m_alive` is false only behind the check. -/
def WebrtcConnection.Checked (conn : WebrtcConnection) : Prop :=
  conn.alive = false →
    conn.pc = .process ∨ conn.pc = .loop ∨ conn.pc = .leaving ∨ conn.pc = .done

/-! ## 2. One step -/

section

variable {env : Env} {cfg : Http.Config} {srv srv' : Server} {l : Label} {es : List Event}
  {c : ConnPtr} {conn conn' : WebrtcConnection}

/-- A statement elsewhere in the loop leaves `m_alive` alone. -/
theorem alive_of_next {now : ℤ} {created : Created} (hice : conn.pc ≠ .ice)
    (hchk : conn.Checked) (h : conn.next env c now created = some (conn', es)) :
    conn'.alive = conn.alive ∧ conn'.Checked := by
  -- in front of the check nothing has been cleared yet
  have hfront : ∀ conn' : WebrtcConnection, conn'.alive = conn.alive → conn.alive = true →
      conn'.alive = conn.alive ∧ conn'.Checked := fun conn' heq halive =>
    ⟨heq, fun hdead => absurd (hdead.symm.trans (heq.trans halive)) (by simp)⟩
  have halive : conn.pc ≠ .process → conn.pc ≠ .loop → conn.pc ≠ .leaving → conn.pc ≠ .done →
      conn.alive = true := by
    intro h₁ h₂ h₃ h₄
    by_contra hdead
    rcases hchk (by simpa using hdead) with hpc | hpc | hpc | hpc
    · exact h₁ hpc
    · exact h₂ hpc
    · exact h₃ hpc
    · exact h₄ hpc
  cases hpc : conn.pc with
  | ice => exact absurd hpc hice
  | done =>
    simp only [WebrtcConnection.next, hpc] at h
    exact absurd h (by simp)
  | loop =>
    simp only [WebrtcConnection.next, hpc] at h
    obtain ⟨rfl, rfl⟩ := Prod.mk.inj (Option.some.inj h)
    refine ⟨rfl, fun hdead => ?_⟩
    simp only at hdead
    simp [hdead]
  | process =>
    simp only [WebrtcConnection.next, hpc] at h
    obtain ⟨rfl, rfl⟩ := Prod.mk.inj (Option.some.inj h)
    exact ⟨rfl, fun _ => .inr (.inl rfl)⟩
  | leaving =>
    simp only [WebrtcConnection.next, hpc] at h
    obtain ⟨rfl, rfl⟩ := Prod.mk.inj (Option.some.inj h)
    exact ⟨rfl, fun _ => .inr (.inr (.inr rfl))⟩
  | dequeue | waiting =>
    simp only [WebrtcConnection.next, hpc, WebrtcConnection.dequeue] at h
    refine hfront conn' ?_ (halive (by simp [hpc]) (by simp [hpc]) (by simp [hpc]) (by simp [hpc]))
    split at h
    · obtain ⟨rfl, rfl⟩ := Prod.mk.inj (Option.some.inj h)
      rfl
    · split at h
      · exact absurd h (by simp)
      · obtain ⟨rfl, rfl⟩ := Prod.mk.inj (Option.some.inj h)
        rfl
  | slot =>
    simp only [WebrtcConnection.next, hpc] at h
    refine hfront conn' ?_ (halive (by simp [hpc]) (by simp [hpc]) (by simp [hpc]) (by simp [hpc]))
    unfold WebrtcConnection.relay at h
    split at h
    · obtain ⟨rfl, rfl⟩ := Prod.mk.inj (Option.some.inj h)
      rfl
    · split at h
      · obtain ⟨rfl, rfl⟩ := Prod.mk.inj (Option.some.inj h)
        rfl
      · split at h
        · exact absurd h (by simp)
        · obtain ⟨rfl, rfl⟩ := Prod.mk.inj (Option.some.inj h)
          rfl
  | start | count | lock | sent | deleted =>
    simp only [WebrtcConnection.next, hpc] at h
    obtain ⟨rfl, rfl⟩ := Prod.mk.inj (Option.some.inj h)
    exact hfront _ rfl (halive (by simp [hpc]) (by simp [hpc]) (by simp [hpc]) (by simp [hpc]))

/-- What a step can do to connection `c`, as far as `m_alive` goes. -/
inductive Ages (l : Label) (c : ConnPtr) (conn : WebrtcConnection) : WebrtcConnection → Prop
  | check (now : ℤ) (created : Created) (hl : l = .worker c (.step now created))
      (hpc : conn.pc = .ice) : Ages l c conn { conn.checkIce now with pc := .process }
  | keep (conn' : WebrtcConnection) (halive : conn'.alive = conn.alive) (hchk : conn'.Checked) :
      Ages l c conn conn'

theorem ages_of_work {act : WebrtcConnection.Act} (hchk : conn.Checked)
    (h : conn.work env c act = some (conn', es)) : Ages (.worker c act) c conn conn' := by
  cases act with
  | step now created =>
    by_cases hice : conn.pc = .ice
    · simp only [WebrtcConnection.work, WebrtcConnection.next, hice] at h
      obtain ⟨rfl, rfl⟩ := Prod.mk.inj (Option.some.inj h)
      exact .check now created rfl hice
    · obtain ⟨halive, hchk⟩ := alive_of_next hice hchk h
      exact .keep conn' halive hchk
  | timeout =>
    simp only [WebrtcConnection.work] at h
    split at h
    · rename_i hpc
      obtain ⟨rfl, rfl⟩ := Prod.mk.inj (Option.some.inj h)
      exact .keep _ rfl fun hdead => absurd (hchk hdead) (by simp [hpc])
    · exact absurd h (by simp)

/-- **What a step does to the connections**: each of them is new, or has aged. -/
theorem ages_of_step (hchk : ∀ c conn, srv.heap c = some conn → conn.Checked)
    (h : srv.step env cfg l = some (srv', es)) (hc' : srv'.heap c = some conn') :
    (∃ peerId, conn' = .new peerId) ∨ ∃ conn, srv.heap c = some conn ∧ Ages l c conn conn' := by
  have hsame : srv.heap c = some conn' →
      (∃ peerId, conn' = .new peerId) ∨ ∃ conn, srv.heap c = some conn ∧ Ages l c conn conn' :=
    fun hc => .inr ⟨conn', hc, .keep conn' rfl (hchk c conn' hc)⟩
  -- a connection put in the place of what it was
  have hput : ∀ {c₁ conn₁ conn₂}, srv.heap c₁ = some conn₁ →
      Function.update srv.heap c₁ (some conn₂) c = some conn' → Ages l c₁ conn₁ conn₂ →
      (∃ peerId, conn' = .new peerId) ∨ ∃ conn, srv.heap c = some conn ∧ Ages l c conn conn' := by
    intro c₁ conn₁ conn₂ hc₁ hc' hages
    by_cases heq : c = c₁
    · subst heq
      rw [Function.update_self] at hc'
      obtain rfl := Option.some.inj hc'
      exact .inr ⟨conn₁, hc₁, hages⟩
    · rw [Function.update_of_ne heq] at hc'
      exact hsame hc'
  cases happens_of_step h with
  | cleanupDelete i c₁ conn hpc hi hc hend =>
    by_cases heq : c = c₁
    · subst heq
      simp at hc'
    · exact hsame (by simpa [Function.update_of_ne heq] using hc')
  | newConnection s acts hpc =>
    by_cases heq : c = srv.nextConn
    · subst heq
      exact .inl ⟨srv.peerId, by simpa using hc'.symm⟩
    · exact hsame (by simpa [Function.update_of_ne heq] using hc')
  | pushMessage s c₁ message acts conn hpc hc =>
    exact hput hc hc' (.keep _ rfl (hchk c₁ conn hc))
  | park s c₁ acts conn hpc hc hlock =>
    exact hput hc hc' (.keep _ rfl (hchk c₁ conn hc))
  | move _ c₁ conn₁ conn₂ _ hl hc₁ =>
    -- the list of moves does not say what the clock was
    obtain ⟨act, rfl⟩ | ⟨cb, rfl⟩ := hl
    · obtain ⟨conn, conn₃, hc, hwork, hsrv⟩ := onConn_eq_some h
      rw [hsrv] at hc'
      exact hput hc hc' (ages_of_work (hchk c₁ conn hc) hwork)
    · obtain ⟨conn, conn₃, hc, hcall, hsrv⟩ := onConn_eq_some h
      obtain ⟨-, observer, calls, -, rfl, -⟩ := callback_eq_some hcall
      rw [hsrv] at hc'
      exact hput hc hc' (.keep _ rfl (hchk c₁ conn hc))
  | _ => exact hsame hc'

theorem checked_of_run {buffer : Bytes} {tr : List (Label × List Event)}
    (hrun : Run (Server.step env cfg) (Server.start buffer) tr srv) :
    ∀ c conn, srv.heap c = some conn → conn.Checked := by
  refine hrun.invariant (fun _ srv => ∀ c conn, srv.heap c = some conn → conn.Checked)
    (fun c conn hc => absurd hc (by simp [Server.start])) ?_
  intro tr srv l srv' es _ ih hstep c conn' hc'
  rcases ages_of_step ih hstep hc' with ⟨peerId, rfl⟩ | ⟨conn, -, hages⟩
  · exact fun hdead => absurd hdead (by simp [WebrtcConnection.new])
  · cases hages with
    | check now created hl hpc => exact fun _ => .inl rfl
    | keep conn' halive hchk => exact hchk

/-! ## 3. Calls that are torn down -/

/-- The step clears `m_alive` while the two ends are talking. -/
def TearsDown (srv srv' : Server) : Prop :=
  ∃ c conn conn', srv.heap c = some conn ∧ srv'.heap c = some conn' ∧
    conn.observer.getIceState.Established ∧ conn.alive = true ∧ conn'.alive = false

/-- A check that finds its call completed is made in the first minute of the worker. -/
def InTime (srv : Server) : Label → Prop
  | .worker c (.step now _) => ∀ conn ∈ srv.heap c, conn.pc = .ice →
      conn.observer.getIceState = .completed → now - conn.startTime < 60 * 10 ^ 9
  | _ => True

instance (srv : Server) : (l : Label) → Decidable (InTime srv l)
  | .worker c (.step now _) => inferInstanceAs (Decidable (∀ conn ∈ srv.heap c, conn.pc = .ice →
      conn.observer.getIceState = .completed → now - conn.startTime < 60 * 10 ^ 9))
  | .worker _ .timeout | .idle | .accept _ | .main | .callback _ _ => .isTrue trivial

theorem exists_late (h : ¬ InTime srv l) : ∃ c now created conn,
    l = .worker c (.step now created) ∧ srv.heap c = some conn ∧ conn.pc = .ice ∧
    conn.observer.getIceState = .completed ∧ 60 * 10 ^ 9 ≤ now - conn.startTime := by
  cases l with
  | worker c act =>
    cases act with
    | step now created =>
      simp only [InTime] at h
      push Not at h
      obtain ⟨conn, hc, hpc, hcompleted, hlate⟩ := h
      exact ⟨c, now, created, conn, rfl, hc, hpc, hcompleted, hlate⟩
    | timeout => exact absurd trivial h
  | idle | accept client | main | callback c cb => exact absurd trivial h

/-- **A step tears down a call exactly when it is a check, of a completed call, after the first
minute.** -/
theorem tearsDown_iff (hchk : ∀ c conn, srv.heap c = some conn → conn.Checked)
    (h : srv.step env cfg l = some (srv', es)) : TearsDown srv srv' ↔ ¬ InTime srv l := by
  constructor
  · rintro ⟨c, conn, conn', hc, hc', hest, halive, hdead⟩ hin
    rcases ages_of_step hchk h hc' with ⟨peerId, rfl⟩ | ⟨conn₁, hc₁, hages⟩
    · exact absurd hdead (by simp [WebrtcConnection.new])
    · obtain rfl := Option.some.inj (hc.symm.trans hc₁)
      cases hages with
      | check now created hl hpc =>
        subst hl
        rcases (checkIce_alive_iff conn now).mp hdead with hdead | hdis | ⟨hcon, hlate⟩
        · exact absurd (halive.symm.trans hdead) (by simp)
        · rcases hest with hest | hest <;> exact absurd (hdis.symm.trans hest) (by simp)
        · have hcompleted := hest.resolve_left hcon
          exact absurd (hin conn hc hpc hcompleted) (by omega)
      | keep conn' hsame _ => exact absurd (hdead.symm.trans (hsame.trans halive)) (by simp)
  · intro hlate
    obtain ⟨c, now, created, conn, rfl, hc, hpc, hcompleted, hlate⟩ := exists_late hlate
    obtain ⟨conn₁, conn', hc₁, hwork, rfl⟩ := onConn_eq_some h
    obtain rfl := Option.some.inj (hc.symm.trans hc₁)
    simp only [WebrtcConnection.work, WebrtcConnection.next, hpc] at hwork
    obtain ⟨rfl, -⟩ := Prod.mk.inj (Option.some.inj hwork)
    -- the worker is in front of the check, so its loop is still running
    have halive : conn.alive = true := by
      by_contra hdead
      exact absurd (hchk c conn hc (by simpa using hdead)) (by simp [hpc])
    refine ⟨c, conn, _, hc, Function.update_self .., .inr hcompleted, halive, ?_⟩
    exact (checkIce_alive_iff conn now).mpr (.inr (.inr ⟨by simp [hcompleted], hlate⟩))

/-- **No step of a run tears down a call exactly when every check of the run that finds a call
completed is made in the first minute of its worker.** -/
theorem call_spared_iff {buffer : Bytes} {tr : List (Label × List Event)}
    (hrun : Run (Server.step env cfg) (Server.start buffer) tr srv) :
    (∀ tr₁ l es tr₂ srv₁ srv₂, tr = tr₁ ++ (l, es) :: tr₂ →
      Run (Server.step env cfg) (Server.start buffer) tr₁ srv₁ →
      srv₁.step env cfg l = some (srv₂, es) → ¬ TearsDown srv₁ srv₂) ↔
    ∀ tr₁ l es tr₂ srv₁, tr = tr₁ ++ (l, es) :: tr₂ →
      Run (Server.step env cfg) (Server.start buffer) tr₁ srv₁ → InTime srv₁ l := by
  constructor
  · rintro hall tr₁ l es tr₂ srv₁ rfl hr₁
    obtain ⟨srv₂, srv₃, hr₂, hstep, -⟩ := hrun.step_at
    obtain rfl := hr₁.det hr₂
    by_contra hlate
    exact hall tr₁ l es tr₂ srv₁ srv₃ rfl hr₁ hstep
      ((tearsDown_iff (checked_of_run hr₁) hstep).mpr hlate)
  · rintro hall tr₁ l es tr₂ srv₁ srv₂ rfl hr₁ hstep htears
    exact (tearsDown_iff (checked_of_run hr₁) hstep).mp htears (hall tr₁ l es tr₂ srv₁ rfl hr₁)

end

/-- A peer signs in and posts an offer, the answer is made, and ICE goes through its states
while the worker goes on to its check. -/
def sampleCall : List Label :=
  sampleRequest (sampleClient "signIn" "0") 4 ++
    sampleRequest
      ⟨[.data (ascii "POST /message HTTP/1.1\r\nPragma: 1\r\n\r\nSDP->" ++ sampleOffer)], none,
        ⟨none, none⟩⟩ 4 ++
    List.replicate 3 (.worker 0 (.step 0 sampleCreated)) ++
    [.callback 0 (.onSuccess (ascii "answer") sampleSdp),
      .callback 0 (.onIceConnectionChange .checking),
      .callback 0 (.onIceConnectionChange .connected),
      .callback 0 (.onIceConnectionChange .completed)] ++
    List.replicate 3 (.worker 0 (.step (10 ^ 9) sampleCreated))

/-- The check that comes next, with the clock at `now`. -/
def sampleCheck (now : ℤ) : Label := .worker 0 (.step now sampleCreated)

/-- Within the minute the call goes on. -/
theorem call_spared_sample : ∃ tr srv, Run (Server.step sampleEnv sampleConfig) sampleStart tr srv ∧
    tr.map Prod.fst = sampleCall ++ [sampleCheck (59 * 10 ^ 9)] ∧
    ∀ tr₁ l es tr₂ srv₁ srv₂, tr = tr₁ ++ (l, es) :: tr₂ →
      Run (Server.step sampleEnv sampleConfig) sampleStart tr₁ srv₁ →
      srv₁.step sampleEnv sampleConfig l = some (srv₂, es) → ¬ TearsDown srv₁ srv₂ := by
  obtain ⟨tr, srv, hrun, hp⟩ := exists_run (Server.step sampleEnv sampleConfig) sampleStart
    (sampleCall ++ [sampleCheck (59 * 10 ^ 9)])
    (fun tr _ => decide (tr.map Prod.fst = sampleCall ++ [sampleCheck (59 * 10 ^ 9)] ∧
      goodLabels (Server.step sampleEnv sampleConfig) (fun srv l => decide (InTime srv l))
        sampleStart (tr.map Prod.fst) = true)) (by decide +kernel)
  obtain ⟨hlabels, hgood⟩ := of_decide_eq_true hp
  refine ⟨tr, srv, hrun, hlabels, (call_spared_iff hrun).mpr ?_⟩
  intro tr₁ l es tr₂ srv₁ hsplit hr
  simpa using (allGood_iff hrun).mpr hgood tr₁ l es tr₂ srv₁ hsplit hr

/-- When the minute is over the completed call is torn down. -/
theorem completed_call_torn_down : ∃ tr srv srv',
    Run (Server.step sampleEnv sampleConfig) sampleStart tr srv ∧ tr.map Prod.fst = sampleCall ∧
    srv.step sampleEnv sampleConfig (sampleCheck (60 * 10 ^ 9)) = some (srv', []) ∧
    TearsDown srv srv' := by
  obtain ⟨tr, srv, hrun, hp⟩ := exists_run (Server.step sampleEnv sampleConfig) sampleStart
    sampleCall (fun tr srv => decide (tr.map Prod.fst = sampleCall ∧
      ((srv.step sampleEnv sampleConfig (sampleCheck (60 * 10 ^ 9))).map Prod.snd = some []) ∧
      ¬ InTime srv (sampleCheck (60 * 10 ^ 9)))) (by decide +kernel)
  obtain ⟨hlabels, hstep, hlate⟩ := of_decide_eq_true hp
  obtain ⟨⟨srv', es⟩, hstep, hes⟩ := Option.map_eq_some_iff.mp hstep
  obtain rfl : es = [] := hes
  exact ⟨tr, srv, srv', hrun, hlabels, hstep,
    (tearsDown_iff (checked_of_run hrun) hstep).mpr hlate⟩

end Reflector
