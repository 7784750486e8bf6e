/-
# Forgotten sockets

A slot holds one socket, and two statements of the main loop overwrite it without looking:
`setOutboundSocket`, which assigns `m_clientSocket` whatever was in it, and the `delete` of a
connection, whose destructor is empty.  A socket that is dropped so is never answered and never
closed.

The worker drops nothing: it clears the slot only behind its own `delete`.  So a run orphans a
socket exactly when one of the two statements finds a slot taken (`no_orphan_iff`).
-/
import Reflector.Server.Sockets

namespace Reflector

open Base Signaling

/-! ## 1. Orphans, and how they are made -/

/-- Every socket that was ever parked is closed, or in the slot of a connection that exists. -/
def NoOrphan (es : List Event) (srv : Server) : Prop :=
  ∀ c s, Event.park c s ∈ es → Event.close s ∈ es ∨
    ∃ c' conn, srv.heap c' = some conn ∧ conn.clientSocket = some s

/-- The next statement drops no socket: a `setOutboundSocket` finds the slot empty, and so does
the cleanup loop for a connection that it is about to delete. -/
def Spares (srv : Server) : Label → Prop
  | .main =>
    match srv.pc with
    | .handle _ (.setOutboundSocket c :: _) =>
      ∀ conn, srv.heap c = some conn → conn.clientSocket = none
    | .cleanup i => ∀ c conn, srv.webrtcConnectionList[i]? = some c → srv.heap c = some conn →
      conn.state = .ended → conn.clientSocket = none
    | _ => True
  | _ => True

/-! ## 2. One step -/

section

variable {env : Env} {cfg : Http.Config} {es es' : List Event} {srv srv' : Server} {l : Label}

/-- A step that parks nothing, and leaves in a slot or closed whatever was in a slot. -/
theorem NoOrphan.frame (h : NoOrphan es srv) (hes : ∀ c s, Event.park c s ∉ es')
    (hheap : ∀ c conn s, srv.heap c = some conn → conn.clientSocket = some s →
      Event.close s ∈ es ∨ ∃ c' conn', srv'.heap c' = some conn' ∧ conn'.clientSocket = some s) :
    NoOrphan (es ++ es') srv' := by
  intro c s hpark
  rcases List.mem_append.mp hpark with hpark | hpark
  · rcases h c s hpark with hclose | ⟨c', conn, hc, hs⟩
    · exact .inl (List.mem_append_left _ hclose)
    · exact (hheap c' conn s hc hs).imp (List.mem_append_left _) id
  · exact absurd hpark (hes c s)

/-- Slots survive the replacement of one connection, whose own slot may be lost if it is empty
or its socket is closed. -/
theorem slot_update {c c' : ConnPtr} {conn conn' : WebrtcConnection}
    {new : Option WebrtcConnection} {s : SockPtr} (hc : srv.heap c = some conn)
    (hnew : ∀ s, conn.clientSocket = some s → Event.close s ∈ es ∨
      ∃ conn₁, new = some conn₁ ∧ conn₁.clientSocket = some s)
    (hc' : srv.heap c' = some conn') (hs : conn'.clientSocket = some s) :
    Event.close s ∈ es ∨
      ∃ x conn₁, Function.update srv.heap c new x = some conn₁ ∧ conn₁.clientSocket = some s := by
  by_cases heq : c' = c
  · subst heq
    obtain rfl := Option.some.inj (hc.symm.trans hc')
    refine (hnew s hs).imp id ?_
    rintro ⟨conn₁, rfl, hs₁⟩
    exact ⟨c', conn₁, Function.update_self .., hs₁⟩
  · exact .inr ⟨c', conn', by rw [Function.update_of_ne heq, hc'], hs⟩

theorem NoOrphan.move (hinv : Sockets es srv) (h : NoOrphan es srv) {c : ConnPtr}
    {conn conn' : WebrtcConnection} (hc : srv.heap c = some conn)
    (hmove : Moves env c conn conn' es') :
    NoOrphan (es ++ es') { srv with heap := Function.update srv.heap c (some conn') } := by
  -- the slot is kept by every move but one
  have hkeep : ∀ conn' : WebrtcConnection, conn'.clientSocket = conn.clientSocket →
      (∀ c s, Event.park c s ∉ es') → NoOrphan (es ++ es')
        { srv with heap := Function.update srv.heap c (some conn') } := fun conn' hslot hes =>
    h.frame hes fun c₁ conn₁ s hc₁ hs => slot_update hc
      (fun s hs => .inr ⟨conn', rfl, hslot.trans hs⟩) hc₁ hs
  cases hmove with
  | go => exact hkeep _ rfl (by simp)
  | hand => exact hkeep _ rfl (by simp)
  | relay => exact hkeep _ rfl (by simp)
  | close hpc =>
    refine hkeep _ rfl ?_
    cases conn.clientSocket <;> simp
  | clear hpc =>
    exact h.frame (by simp) fun c₁ conn₁ s hc₁ hs => slot_update hc
      (fun s hs => .inl ((hinv.slot c conn s hc hs).2.mpr hpc)) hc₁ hs
  | callback => exact hkeep _ rfl (by simp)

/-- **A step that drops no socket orphans none.** -/
theorem NoOrphan.step (hinv : Sockets es srv) (hreg : Registry es srv) (h : NoOrphan es srv)
    (hstep : Happens env cfg srv l srv' es') (hsp : Spares srv l) : NoOrphan (es ++ es') srv' := by
  have hsame : ∀ c conn s, srv.heap c = some conn → conn.clientSocket = some s →
      Event.close s ∈ es ∨ ∃ c' conn', srv.heap c' = some conn' ∧ conn'.clientSocket = some s :=
    fun c conn s hc hs => .inr ⟨c, conn, hc, hs⟩
  cases hstep with
  | cleanupDelete i c conn hpc hi hc hend =>
    have hnone : conn.clientSocket = none := by
      rw [Spares, hpc] at hsp
      exact hsp c conn hi hc hend
    exact h.frame (by simp) fun c₁ conn₁ s hc₁ hs => slot_update hc
      (fun s hs => absurd (hnone.symm.trans hs) (by simp)) hc₁ hs
  | newConnection s acts hpc =>
    refine h.frame (by simp) fun c₁ conn₁ s hc₁ hs => .inr ⟨c₁, conn₁, ?_, hs⟩
    have hlt := hreg.allocated c₁ (hreg.mem_list hc₁)
    simp only [Function.update_of_ne (Nat.ne_of_lt hlt), hc₁]
  | pushMessage s c message acts conn hpc hc =>
    exact h.frame (by simp) fun c₁ conn₁ s hc₁ hs => slot_update hc
      (fun s hs => .inr ⟨_, rfl, hs⟩) hc₁ hs
  | park s c acts conn hpc hc hlock =>
    have hnone : conn.clientSocket = none := by
      rw [Spares, hpc] at hsp
      exact hsp conn hc
    intro c₁ s₁ hpark
    rcases List.mem_append.mp hpark with hpark | hpark
    · rcases h c₁ s₁ hpark with hclose | ⟨c', conn', hc', hs⟩
      · exact .inl (List.mem_append_left _ hclose)
      · exact (slot_update hc (fun s hs => absurd (hnone.symm.trans hs) (by simp)) hc' hs).imp
          (List.mem_append_left _) id
    · -- the socket that was parked just now
      obtain ⟨rfl, rfl⟩ : c₁ = c ∧ s₁ = s := by simpa using hpark
      exact .inr ⟨c₁, _, Function.update_self .., rfl⟩
  | move l c conn conn' es hl hc hmove => exact h.move hinv hc hmove
  | closeUnlessWaiting s acts hpc =>
    refine h.frame (fun c₁ s₁ => ?_) hsame
    split <;> simp
  | _ => exact h.frame (by simp) hsame

/-- A socket that leaves its slot unclosed is orphaned. -/
theorem orphan_of_dropped (hinv : Sockets es srv) {c : ConnPtr} {conn : WebrtcConnection}
    {s : SockPtr} (hc : srv.heap c = some conn) (hs : conn.clientSocket = some s)
    (hdel : conn.pc ≠ .deleted) (hes : Event.close s ∉ es') (hheap : ∀ c' conn',
      srv'.heap c' = some conn' → conn'.clientSocket = some s → c' ≠ c ∧ srv.heap c' = some conn') :
    ¬ NoOrphan (es ++ es') srv' := by
  obtain ⟨hpark, hclose⟩ := hinv.slot c conn s hc hs
  intro h
  rcases h c s (List.mem_append_left _ hpark) with hin | ⟨c', conn', hc', hs'⟩
  · rcases List.mem_append.mp hin with hin | hin
    · exact hdel (hclose.mp hin)
    · exact hes hin
  · obtain ⟨hne, hold⟩ := hheap c' conn' hc' hs'
    exact hne (hinv.parkedOnce c' c s (hinv.slot c' conn' s hold hs').1 hpark)

/-- **A step that drops a socket orphans it.** -/
theorem orphan_of_not_spares (hinv : Sockets es srv) (hstep : Happens env cfg srv l srv' es')
    (hsp : ¬ Spares srv l) : ¬ NoOrphan (es ++ es') srv' := by
  cases hstep with
  | cleanupDelete i c conn hpc hi hc hend =>
    have hsome : conn.clientSocket ≠ none := fun hnone => hsp (by
      rw [Spares, hpc]
      intro c₁ conn₁ hi₁ hc₁ _
      obtain rfl := Option.some.inj (hi.symm.trans hi₁)
      obtain rfl := Option.some.inj (hc.symm.trans hc₁)
      exact hnone)
    obtain ⟨s, hs⟩ := Option.ne_none_iff_exists'.mp hsome
    have hdone : conn.pc = .done := hinv.ended c conn hc hend
    refine orphan_of_dropped hinv hc hs (by simp [hdone]) (by simp) fun c' conn' hc' _ => ?_
    by_cases heq : c' = c
    · subst heq
      simp at hc'
    · simp only [Function.update_of_ne heq] at hc'
      exact ⟨heq, hc'⟩
  | park s c acts conn hpc hc hlock =>
    have hsome : conn.clientSocket ≠ none := fun hnone => hsp (by
      rw [Spares, hpc]
      intro conn₁ hc₁
      obtain rfl := Option.some.inj (hc.symm.trans hc₁)
      exact hnone)
    obtain ⟨s₀, hs₀⟩ := Option.ne_none_iff_exists'.mp hsome
    obtain ⟨-, hrel | ⟨-, hun⟩⟩ := hinv.main s _ hpc
    · cases hrel
    have hne : s ≠ s₀ := fun he => hun.2 c (he ▸ (hinv.slot c conn s₀ hc hs₀).1)
    refine orphan_of_dropped hinv hc hs₀ (fun hdel => hlock (.inr (.inr hdel))) (by simp)
      fun c' conn' hc' hs' => ?_
    by_cases heq : c' = c
    · subst heq
      simp only [Function.update_self, Option.some.injEq] at hc'
      subst hc'
      exact absurd (Option.some.inj hs') hne
    · simp only [Function.update_of_ne heq] at hc'
      exact ⟨heq, hc'⟩
  | cleanupEnd i hpc hi =>
    refine absurd ?_ hsp
    rw [Spares, hpc]
    intro c conn hi'
    exact absurd (hi.symm.trans hi') (by simp)
  | cleanupSkip i c conn hpc hi hc hend =>
    refine absurd ?_ hsp
    rw [Spares, hpc]
    intro c₁ conn₁ hi₁ hc₁ hend₁
    obtain rfl := Option.some.inj (hi.symm.trans hi₁)
    obtain rfl := Option.some.inj (hc.symm.trans hc₁)
    exact absurd hend₁ hend
  | move l c conn conn' es hl hc hmove =>
    obtain ⟨act, rfl⟩ | ⟨cb, rfl⟩ := hl <;> exact absurd trivial hsp
  | idle => exact absurd trivial hsp
  | reject => exact absurd trivial hsp
  | begin => exact absurd trivial hsp
  | handled s hpc => exact absurd (by rw [Spares, hpc]; trivial) hsp
  | newConnection s acts hpc => exact absurd (by rw [Spares, hpc]; trivial) hsp
  | pushMessage s c message acts conn hpc => exact absurd (by rw [Spares, hpc]; trivial) hsp
  | keepOpen s acts hpc => exact absurd (by rw [Spares, hpc]; trivial) hsp
  | respond s writes acts hpc => exact absurd (by rw [Spares, hpc]; trivial) hsp
  | closeUnlessWaiting s acts hpc => exact absurd (by rw [Spares, hpc]; trivial) hsp
  | discard s acts hpc => exact absurd (by rw [Spares, hpc]; trivial) hsp

/-! ## 3. Whole runs -/

/-- **Parked sockets are never orphaned exactly in the runs whose statements drop none**: at
every moment of the run no socket is orphaned if, and only if, every `setOutboundSocket` of the
run found the slot empty and every connection that was deleted had an empty slot. -/
theorem no_orphan_iff {buffer : Bytes} {tr : List (Label × List Event)}
    (hrun : Run (Server.step env cfg) (Server.start buffer) tr srv) :
    (∀ tr₁ tr₂ srv₁, tr = tr₁ ++ tr₂ →
      Run (Server.step env cfg) (Server.start buffer) tr₁ srv₁ → NoOrphan (events tr₁) srv₁) ↔
    ∀ tr₁ l es tr₂ srv₁, tr = tr₁ ++ (l, es) :: tr₂ →
      Run (Server.step env cfg) (Server.start buffer) tr₁ srv₁ → Spares srv₁ l := by
  refine hrun.always_iff (I := fun tr srv => NoOrphan (events tr) srv)
    (P := fun tr srv => NoOrphan (events tr) srv) (fun c s hpark => absurd hpark (by simp))
    (fun tr srv h => h) ?_ ?_
  · intro tr srv l srv' es hr ih hstep hsp
    rw [events_append, events_singleton]
    exact ih.step (Sockets.of_run hr) (Registry.of_run hr) (happens_of_step hstep) hsp
  · intro tr srv l srv' es hr ih hstep hsp
    rw [events_append, events_singleton]
    exact orphan_of_not_spares (Sockets.of_run hr) (happens_of_step hstep) hsp

end

/-- A peer that waits twice: its first socket is open, and in no slot. -/
theorem exists_second_wait : ∃ tr srv,
    Run (Server.step deafEnv sampleConfig) sampleStart tr srv ∧ Event.park 0 1 ∈ events tr ∧
      Event.close 1 ∉ events tr ∧
      ∀ c conn, srv.heap c = some conn → conn.clientSocket ≠ some 1 := by
  obtain ⟨tr, srv, hrun, hp⟩ := exists_run (Server.step deafEnv sampleConfig) sampleStart
    (sampleRequest (sampleClient "signIn" "0") 4 ++ sampleRequest (sampleClient "wait" "1") 4 ++
      sampleRequest (sampleClient "wait" "1") 4)
    (fun tr srv => decide (Event.park 0 1 ∈ events tr ∧ Event.close 1 ∉ events tr ∧
      srv.webrtcConnectionList = [0] ∧ (srv.heap 0).map (·.clientSocket) = some (some 2)))
    (by decide +kernel)
  obtain ⟨hpark, hopen, hlist, hslot⟩ := of_decide_eq_true hp
  refine ⟨tr, srv, hrun, hpark, hopen, fun c conn hc hs => ?_⟩
  -- there is only the one connection
  obtain rfl : c = 0 := by simpa [hlist] using (Registry.of_run hrun).mem_list hc
  rw [hc, Option.map_some, hs] at hslot
  exact absurd hslot (by simp)

theorem orphaned_by_second_wait : ∃ tr srv,
    Run (Server.step deafEnv sampleConfig) sampleStart tr srv ∧ ¬ NoOrphan (events tr) srv := by
  obtain ⟨tr, srv, hrun, hpark, hopen, hnone⟩ := exists_second_wait
  refine ⟨tr, srv, hrun, fun h => ?_⟩
  rcases h 0 1 hpark with hclose | ⟨c, conn, hc, hs⟩
  · exact hopen hclose
  · exact hnone c conn hc hs

/-- In that run a statement finds the slot taken. -/
theorem not_spared_by_second_wait : ∃ tr srv,
    Run (Server.step deafEnv sampleConfig) sampleStart tr srv ∧
    ¬ ∀ tr₁ l es tr₂ srv₁, tr = tr₁ ++ (l, es) :: tr₂ →
      Run (Server.step deafEnv sampleConfig) sampleStart tr₁ srv₁ → Spares srv₁ l := by
  obtain ⟨tr, srv, hrun, hpark, hopen, hnone⟩ := exists_second_wait
  refine ⟨tr, srv, hrun, fun hsp => ?_⟩
  rcases (no_orphan_iff hrun).mpr hsp tr [] srv (by simp) hrun 0 1 hpark with
    hclose | ⟨c, conn, hc, hs⟩
  · exact hopen hclose
  · exact hnone c conn hc hs

end Reflector
