/-
# Who owns a socket

An accepted socket belongs to the main loop until it is closed, or until `setOutboundSocket`
puts it in the slot of a connection, whose worker owns it from then on.  The main loop keeps
its hands off a socket it has given away only because `closeWait` is false by then, and stays
false: `Owned` and `Released` say which statements can be left of an iteration on either side
of that moment.

`Sockets` is the invariant of all fine runs that ties the two together, and no socket is used
after it was closed (`safe_of_run`).
-/
import Reflector.Server.Registry

namespace Reflector

open Base Signaling

/-! ## 1. Events and sockets -/

/-- The socket an event is about. -/
def Event.socket : Event → Option SockPtr
  | .park _ s | .relay _ s _ _ | .respond s _ | .close s => some s
  | .signIn _ _ | .push _ _ | .hand _ _ | .observed _ _ | .delete _ => none

/-- **Nothing happens to a socket after it was closed**; a second close is something, too. -/
def Safe (es : List Event) : Prop :=
  es.Pairwise fun e e' => ∀ s, e = .close s → e'.socket ≠ some s

theorem Safe.append {es es' : List Event} (h : Safe es) (h' : Safe es')
    (hfresh : ∀ e ∈ es', ∀ s, e.socket = some s → Event.close s ∉ es) : Safe (es ++ es') := by
  refine List.pairwise_append.mpr ⟨h, h', ?_⟩
  rintro e he e' he' s rfl hs
  exact hfresh e' he' s hs he

theorem safe_singleton (e : Event) : Safe [e] := List.pairwise_singleton _ _

/-! ## 2. The main loop's side -/

/-- What can be left of an iteration whose socket is the main loop's own. -/
inductive Owned : List MainAct → Prop
  | newConnection {acts : List MainAct} : Owned acts → Owned (.newConnection :: acts)
  | pushMessage (c : ConnPtr) (message : Bytes) {acts : List MainAct} :
      Owned acts → Owned (.pushMessage c message :: acts)
  | respond (writes : List Bytes) {acts : List MainAct} :
      Owned acts → Owned (.respond writes :: acts)
  | wait (c : ConnPtr) : Owned [.setOutboundSocket c, .keepOpen, .closeUnlessWaiting]
  | close : Owned [.closeUnlessWaiting]
  | discard : Owned [.discard]

/-- What can be left of an iteration whose socket is closed or given away. -/
inductive Released (closeWait : Bool) : List MainAct → Prop
  | keepOpen : Released closeWait [.keepOpen, .closeUnlessWaiting]
  | kept (h : closeWait = false) : Released closeWait [.closeUnlessWaiting]
  | nil : Released closeWait []

/-- A request starts with a socket of its own. -/
theorem owned_of_dispatched {srv : Server} {buffer : Bytes} {httpReq : Http.HttpReq}
    {acts : List MainAct} (h : Dispatched srv buffer httpReq acts) :
    Owned (acts ++ [.closeUnlessWaiting]) := by
  cases h with
  | reply writes => exact .respond writes .close
  | signIn writes => exact .newConnection (.respond writes .close)
  | signOut => exact .close
  | messageUnknown writes => exact .respond writes .close
  | message writes c data => exact .pushMessage c _ (.respond writes .close)
  | waitUnknown => exact .close
  | wait c => exact .wait c

/-- A socket that nobody has closed or parked. -/
def Untouched (es : List Event) (s : SockPtr) : Prop :=
  Event.close s ∉ es ∧ ∀ c, Event.park c s ∉ es

/-- The socket of the iteration, and what is left to do with it. -/
def MainOwns (es : List Event) (srv : Server) : Prop :=
  ∀ s acts, srv.pc = .handle s acts →
    s < srv.nextSock ∧ (Released srv.closeWait acts ∨ Owned acts ∧ Untouched es s)

/-! ## 3. The invariant -/

structure Sockets (es : List Event) (srv : Server) : Prop where
  safe : Safe es
  used : ∀ e ∈ es, ∀ s, e.socket = some s → s < srv.nextSock
  /-- A socket in a slot was parked there, and is closed only for the moment between the
  worker's `delete` and its `m_clientSocket = nullptr`. -/
  slot : ∀ c conn s, srv.heap c = some conn → conn.clientSocket = some s →
    Event.park c s ∈ es ∧ (Event.close s ∈ es ↔ conn.pc = .deleted)
  parkedOnce : ∀ c c' s, Event.park c s ∈ es → Event.park c' s ∈ es → c = c'
  ended : ∀ c conn, srv.heap c = some conn → conn.state = .ended → conn.pc = .done
  main : MainOwns es srv

namespace Sockets

variable {es es' : List Event} {srv srv' : Server}

theorem start (buffer : Bytes) : Sockets [] (Server.start buffer) where
  safe := List.Pairwise.nil
  used := by simp
  slot := by simp [Server.start]
  parkedOnce := by simp
  ended := by simp [Server.start]
  main s acts h := by simp [Server.start] at h

/-- A socket that has not been handed out yet. -/
theorem untouched_next (h : Sockets es srv) : Untouched es srv.nextSock :=
  ⟨fun hin => Nat.lt_irrefl _ (h.used _ hin _ rfl),
    fun _ hin => Nat.lt_irrefl _ (h.used _ hin _ rfl)⟩

/-- What a connection may become while its slot stays as it is. -/
def Keeps (conn conn' : WebrtcConnection) : Prop :=
  conn'.clientSocket = conn.clientSocket ∧ (conn'.state = .ended → conn'.pc = .done) ∧
    ∀ s, conn.clientSocket = some s → (conn'.pc = .deleted ↔ conn.pc = .deleted)

theorem Keeps.refl (h : Sockets es srv) {c : ConnPtr} {conn : WebrtcConnection}
    (hc : srv.heap c = some conn) : Keeps conn conn :=
  ⟨rfl, h.ended c conn hc, fun _ _ => Iff.rfl⟩

/-- Events that neither close nor park a socket, and use only sockets that are open. -/
def Uses (es : List Event) (srv : Server) (es' : List Event) : Prop :=
  ∀ e ∈ es', ∀ s, e.socket = some s →
    s < srv.nextSock ∧ Event.close s ∉ es ∧ e ≠ .close s ∧ ∀ c, e ≠ .park c s

theorem Uses.of_quiet (hes : ∀ e ∈ es', e.socket = none) : Uses es srv es' := fun e he s hs => by
  rw [hes e he] at hs
  exact absurd hs (by simp)

theorem Uses.close_mem (hes : Uses es srv es') {s : SockPtr} :
    Event.close s ∈ es ++ es' ↔ Event.close s ∈ es := by
  rw [List.mem_append, or_iff_left]
  exact fun hin => (hes _ hin s rfl).2.2.1 rfl

theorem Uses.park_mem (hes : Uses es srv es') {c : ConnPtr} {s : SockPtr} :
    Event.park c s ∈ es ++ es' ↔ Event.park c s ∈ es := by
  rw [List.mem_append, or_iff_left]
  exact fun hin => (hes _ hin s rfl).2.2.2 c rfl

theorem Uses.untouched (hes : Uses es srv es') {s : SockPtr} :
    Untouched (es ++ es') s ↔ Untouched es s := by
  simp only [Untouched, hes.close_mem, hes.park_mem]

/-- **The frame rule**: a step that closes and parks nothing, after which every connection has
an empty slot, or was there and keeps its slot. -/
theorem frame (h : Sockets es srv) (hes : Uses es srv es')
    (hnext : srv.nextSock ≤ srv'.nextSock)
    (hheap : ∀ c conn', srv'.heap c = some conn' →
      (conn'.clientSocket = none ∧ conn'.state ≠ .ended) ∨
        ∃ conn, srv.heap c = some conn ∧ Keeps conn conn')
    (hmain : MainOwns es srv') : Sockets (es ++ es') srv' where
  safe := by
    refine h.safe.append ?_ fun e he s hs => (hes e he s hs).2.1
    refine List.pairwise_of_forall_mem_list ?_
    rintro e he e' - s rfl
    exact absurd rfl (hes _ he s rfl).2.2.1
  used e he s hs := by
    refine Nat.lt_of_lt_of_le ?_ hnext
    rcases List.mem_append.mp he with he | he
    · exact h.used e he s hs
    · exact (hes e he s hs).1
  slot c conn' s hc hs := by
    rw [hes.close_mem, hes.park_mem]
    rcases hheap c conn' hc with ⟨hnone, -⟩ | ⟨conn, hconn, hslot, -, hdel⟩
    · rw [hnone] at hs
      exact absurd hs (by simp)
    · rw [hslot] at hs
      obtain ⟨hpark, hclose⟩ := h.slot c conn s hconn hs
      exact ⟨hpark, hclose.trans (hdel s hs).symm⟩
  parkedOnce c c' s hc hc' := by
    rw [hes.park_mem] at hc hc'
    exact h.parkedOnce c c' s hc hc'
  ended c conn' hc hend := by
    rcases hheap c conn' hc with ⟨-, hne⟩ | ⟨conn, -, -, hdone, -⟩
    · exact absurd hend hne
    · exact hdone hend
  main s acts hpc := by
    rw [hes.untouched]
    exact hmain s acts hpc

theorem untouched_append {e : Event} {s s' : SockPtr} (h : Untouched es s')
    (he : e.socket = some s) (hne : s' ≠ s) : Untouched (es ++ [e]) s' := by
  refine ⟨fun hin => ?_, fun c hin => ?_⟩
  · rcases List.mem_append.mp hin with hin | hin
    · exact h.1 hin
    · rw [← List.mem_singleton.mp hin] at he
      exact hne (Option.some.inj he)
  · rcases List.mem_append.mp hin with hin | hin
    · exact h.2 c hin
    · rw [← List.mem_singleton.mp hin] at he
      exact hne (Option.some.inj he)

/-- **Closing an open socket**, which must then be nowhere but in a slot that is about to be
cleared. -/
theorem close (h : Sockets es srv) {s : SockPtr} (hlt : s < srv.nextSock)
    (hopen : Event.close s ∉ es) (hnext : srv'.nextSock = srv.nextSock)
    (hheap : ∀ c conn', srv'.heap c = some conn' →
      (conn'.clientSocket = some s ∧ conn'.pc = .deleted ∧ conn'.state ≠ .ended ∧
        Event.park c s ∈ es) ∨
      conn'.clientSocket ≠ some s ∧ ∃ conn, srv.heap c = some conn ∧ Keeps conn conn')
    (hmain : MainOwns (es ++ [.close s]) srv') : Sockets (es ++ [.close s]) srv' where
  safe := by
    refine h.safe.append (safe_singleton _) fun e he s' hs => ?_
    rw [List.mem_singleton.mp he] at hs
    rw [← Option.some.inj hs]
    exact hopen
  used e he s' hs := by
    rw [hnext]
    rcases List.mem_append.mp he with he | he
    · exact h.used e he s' hs
    · rw [List.mem_singleton.mp he] at hs
      rw [← Option.some.inj hs]
      exact hlt
  slot c conn' s' hc hs := by
    rcases hheap c conn' hc with ⟨hs', hdel, -, hpark⟩ | ⟨hne, conn, hconn, hslot, -, hdel⟩
    · obtain rfl : s = s' := Option.some.inj (hs'.symm.trans hs)
      exact ⟨List.mem_append_left _ hpark, by simp [hdel]⟩
    · have hss : s' ≠ s := fun he => hne (he ▸ hs)
      rw [hslot] at hs
      obtain ⟨hpark, hclose⟩ := h.slot c conn s' hconn hs
      refine ⟨List.mem_append_left _ hpark, ?_⟩
      rw [hdel s' hs, ← hclose]
      simp [hss]
  parkedOnce c c' s' hc hc' := by
    simp only [List.mem_append, List.mem_singleton, reduceCtorEq, or_false] at hc hc'
    exact h.parkedOnce c c' s' hc hc'
  ended c conn' hc hend := by
    rcases hheap c conn' hc with ⟨-, -, hne, -⟩ | ⟨-, conn, -, -, hdone, -⟩
    · exact absurd hend hne
    · exact hdone hend
  main := hmain

/-- **Parking a socket of the main loop's own** on a connection whose worker does not hold the
mutex. -/
theorem park (h : Sockets es srv) {s : SockPtr} {c : ConnPtr} {conn : WebrtcConnection}
    {pc : MainPc} (hc : srv.heap c = some conn) (hlock : ¬ conn.Locked) (hlt : s < srv.nextSock)
    (hown : Untouched es s)
    (hmain : MainOwns (es ++ [.park c s]) { srv with
      heap := Function.update srv.heap c (some { conn with clientSocket := some s }), pc := pc }) :
    Sockets (es ++ [.park c s]) { srv with
      heap := Function.update srv.heap c (some { conn with clientSocket := some s })
      pc := pc } where
  safe := by
    refine h.safe.append (safe_singleton _) fun e he s' hs => ?_
    rw [List.mem_singleton.mp he] at hs
    rw [← Option.some.inj hs]
    exact hown.1
  used e he s' hs := by
    rcases List.mem_append.mp he with he | he
    · exact h.used e he s' hs
    · rw [List.mem_singleton.mp he] at hs
      rw [← Option.some.inj hs]
      exact hlt
  slot c' conn' s' hc' hs := by
    have hclose : Event.close s' ∈ es ++ [.park c s] ↔ Event.close s' ∈ es := by simp
    rw [hclose]
    by_cases heq : c' = c
    · subst heq
      simp only [Function.update_self, Option.some.injEq] at hc'
      subst hc'
      obtain rfl : s = s' := by simpa using hs
      exact ⟨by simp, iff_of_false hown.1 fun hpc => hlock (.inr (.inr hpc))⟩
    · simp only [Function.update_of_ne heq] at hc'
      obtain ⟨hpark, hdel⟩ := h.slot c' conn' s' hc' hs
      exact ⟨List.mem_append_left _ hpark, hdel⟩
  parkedOnce c₁ c₂ s' h₁ h₂ := by
    simp only [List.mem_append, List.mem_singleton, Event.park.injEq] at h₁ h₂
    rcases h₁ with h₁ | ⟨rfl, rfl⟩ <;> rcases h₂ with h₂ | ⟨rfl, h₂⟩
    · exact h.parkedOnce c₁ c₂ s' h₁ h₂
    · exact absurd (h₂ ▸ h₁) (hown.2 c₁)
    · exact absurd h₂ (hown.2 c₂)
    · rfl
  ended c' conn' hc' hend := by
    by_cases heq : c' = c
    · subst heq
      simp only [Function.update_self, Option.some.injEq] at hc'
      subst hc'
      exact h.ended c' conn hc hend
    · simp only [Function.update_of_ne heq] at hc'
      exact h.ended c' conn' hc' hend
  main := hmain

/-! ## 4. Every step keeps it -/

theorem kept (h : Sockets es srv) : ∀ c conn', srv.heap c = some conn' →
    ∃ conn, srv.heap c = some conn ∧ Keeps conn conn' :=
  fun _ conn' hc => ⟨conn', hc, Keeps.refl h hc⟩

theorem kept_update (h : Sockets es srv) {c : ConnPtr} {conn conn₁ : WebrtcConnection}
    (hc : srv.heap c = some conn) (hk : Keeps conn conn₁) :
    ∀ c' conn', Function.update srv.heap c (some conn₁) c' = some conn' →
      ∃ conn, srv.heap c' = some conn ∧ Keeps conn conn' := by
  intro c' conn' hc'
  by_cases heq : c' = c
  · subst heq
    simp only [Function.update_self, Option.some.injEq] at hc'
    exact ⟨conn, hc, hc' ▸ hk⟩
  · rw [Function.update_of_ne heq] at hc'
    exact h.kept c' conn' hc'

/-- The frame rule, for a step that replaces one connection. -/
theorem frame_conn (h : Sockets es srv) {c : ConnPtr} {conn conn₁ : WebrtcConnection} {pc : MainPc}
    (hes : Uses es srv es') (hc : srv.heap c = some conn) (hk : Keeps conn conn₁)
    (hmain : MainOwns es
      { srv with heap := Function.update srv.heap c (some conn₁), pc := pc }) :
    Sockets (es ++ es') { srv with heap := Function.update srv.heap c (some conn₁), pc := pc } :=
  h.frame hes (Nat.le_refl _) (fun c' conn' hc' => .inr (h.kept_update hc hk c' conn' hc')) hmain

theorem mainOwns_handle (srv : Server) {s : SockPtr} {acts : List MainAct} (hlt : s < srv.nextSock)
    (hpc : srv.pc = .handle s acts)
    (h : Released srv.closeWait acts ∨ Owned acts ∧ Untouched es s) : MainOwns es srv := by
  intro s' acts' hpc'
  rw [hpc] at hpc'
  obtain ⟨rfl, rfl⟩ := MainPc.handle.inj hpc'
  exact ⟨hlt, h⟩

theorem mainOwns_of_ne (srv : Server) (hpc : ∀ s acts, srv.pc ≠ .handle s acts) :
    MainOwns es srv := fun s acts h => absurd h (hpc s acts)

/-- The moves of a worker, and the callbacks. -/
theorem move {env : Env} (h : Sockets es srv) {c : ConnPtr} {conn conn' : WebrtcConnection}
    (hc : srv.heap c = some conn) (hmove : Moves env c conn conn' es') :
    Sockets (es ++ es') { srv with heap := Function.update srv.heap c (some conn') } := by
  have hrunning : conn.pc ≠ .done → conn.state ≠ .ended := fun hne hend =>
    hne (h.ended c conn hc hend)
  -- the main loop is where it was, and so is its socket
  have hmain : MainOwns es { srv with heap := Function.update srv.heap c (some conn') } := h.main
  cases hmove with
  | go pc state alive startTime hfrom hto hstate =>
    refine h.frame_conn (Uses.of_quiet (by simp)) hc
      ⟨rfl, fun hend => ?_, fun _ _ => iff_of_false hto.2.1 hfrom.2.1⟩ hmain
    exact (hstate hend).resolve_right (hrunning hfrom.2.2)
  | hand message queue created observer calls hpc hqueue hcall =>
    have hne : conn.pc ≠ .deleted ∧ conn.pc ≠ .done := by
      rcases hpc with hpc | hpc <;> simp [hpc]
    exact h.frame_conn (Uses.of_quiet (by simp [Event.socket])) hc
      ⟨rfl, fun hend => absurd hend (hrunning hne.2), fun _ _ => iff_of_false (by simp) hne.1⟩ hmain
  | relay s message msgQueue writes hpc hslot hqueue hsend =>
    obtain ⟨hpark, hopen⟩ := h.slot c conn s hc hslot
    refine h.frame_conn (fun e he s' hs => ?_) hc
      ⟨rfl, fun hend => absurd hend (hrunning (by simp [hpc])), by simp [hpc]⟩ hmain
    rw [List.mem_singleton.mp he] at hs ⊢
    obtain rfl := Option.some.inj hs
    exact ⟨h.used _ hpark s rfl, fun hin => absurd (hopen.mp hin) (by simp [hpc]), by simp, by simp⟩
  | close hpc =>
    have hstate : conn.state ≠ .ended := hrunning (by simp [hpc])
    rcases Option.eq_none_or_eq_some conn.clientSocket with hslot | ⟨s, hslot⟩
    · have hes : (conn.clientSocket.map Event.close).toList = [] := by rw [hslot]; rfl
      rw [hes]
      exact h.frame_conn (Uses.of_quiet (by simp)) hc
        ⟨rfl, fun hend => absurd hend hstate, by simp [hslot]⟩ hmain
    · have hes : (conn.clientSocket.map Event.close).toList = [.close s] := by rw [hslot]; rfl
      rw [hes]
      obtain ⟨hpark, hopen⟩ := h.slot c conn s hc hslot
      refine h.close (h.used _ hpark s rfl) (fun hin => absurd (hopen.mp hin) (by simp [hpc])) rfl
        (fun c' conn' hc' => ?_) ?_
      · by_cases heq : c' = c
        · subst heq
          simp only [Function.update_self, Option.some.injEq] at hc'
          subst hc'
          exact .inl ⟨hslot, rfl, hstate, hpark⟩
        · -- a socket is in the slot it was parked in, and in no other
          simp only [Function.update_of_ne heq] at hc'
          exact .inr ⟨fun hs => heq (h.parkedOnce c' c s (h.slot c' conn' s hc' hs).1 hpark),
            h.kept c' conn' hc'⟩
      · intro s' acts hpc'
        obtain ⟨hlt, hrel | ⟨hown, hun⟩⟩ := h.main s' acts hpc'
        · exact ⟨hlt, .inl hrel⟩
        · exact ⟨hlt, .inr ⟨hown, untouched_append hun rfl fun he => hun.2 c (he ▸ hpark)⟩⟩
  | clear hpc =>
    refine h.frame (Uses.of_quiet (by simp)) (Nat.le_refl _) (fun c' conn' hc' => ?_) hmain
    by_cases heq : c' = c
    · subst heq
      simp only [Function.update_self, Option.some.injEq] at hc'
      subst hc'
      exact .inl ⟨rfl, hrunning (by simp [hpc])⟩
    · simp only [Function.update_of_ne heq] at hc'
      exact .inr (h.kept c' conn' hc')
  | callback cb observer calls hpc hcall =>
    exact h.frame_conn (Uses.of_quiet (by simp [Event.socket])) hc
      ⟨rfl, fun hend => absurd hend (hrunning hpc.2), fun _ _ => Iff.rfl⟩ hmain

/-- **Closing the main loop's own socket**, which is in no slot. -/
theorem close_own (h : Sockets es srv) {s : SockPtr} {pc : MainPc} (hlt : s < srv.nextSock)
    (hun : Untouched es s) (hmain : MainOwns (es ++ [.close s]) { srv with pc := pc }) :
    Sockets (es ++ [.close s]) { srv with pc := pc } := by
  refine h.close hlt hun.1 rfl (fun c conn hc => .inr ⟨fun hs => ?_, h.kept c conn hc⟩) hmain
  exact hun.2 c (h.slot c conn s hc hs).1

/-- **One step keeps the invariant.** -/
theorem step {env : Env} {cfg : Http.Config} {l : Label} (h : Sockets es srv)
    (hstep : Happens env cfg srv l srv' es') : Sockets (es ++ es') srv' := by
  have hkept : ∀ c conn', srv.heap c = some conn' →
      (conn'.clientSocket = none ∧ conn'.state ≠ .ended) ∨
        ∃ conn, srv.heap c = some conn ∧ Keeps conn conn' :=
    fun c conn' hc => .inr (h.kept c conn' hc)
  have hquiet : Uses es srv [] := Uses.of_quiet (by simp)
  cases hstep with
  | idle hpc => exact h.frame hquiet (Nat.le_refl _) hkept (mainOwns_of_ne _ (by simp))
  | cleanupEnd i hpc hi => exact h.frame hquiet (Nat.le_refl _) hkept (mainOwns_of_ne _ (by simp))
  | cleanupSkip i c conn hpc hi hc hend =>
    exact h.frame hquiet (Nat.le_refl _) hkept (mainOwns_of_ne _ (by simp))
  | handled s hpc => exact h.frame hquiet (Nat.le_refl _) hkept (mainOwns_of_ne _ (by simp))
  | reject client buffer httpReq hpc hread =>
    exact h.frame hquiet (Nat.le_succ _) hkept
      (mainOwns_handle _ (Nat.lt_succ_self _) rfl (.inr ⟨.discard, h.untouched_next⟩))
  | begin client buffer buffer' httpReq acts hpc hread hdispatch =>
    have hown := owned_of_dispatched (dispatched_of_dispatch hdispatch)
    exact h.frame hquiet (Nat.le_succ _) hkept
      (mainOwns_handle _ (Nat.lt_succ_self _) rfl (.inr ⟨hown, h.untouched_next⟩))
  | cleanupDelete i c conn hpc hi hc hend =>
    refine h.frame (Uses.of_quiet (by simp [Event.socket])) (Nat.le_refl _)
      (fun c' conn' hc' => ?_) (mainOwns_of_ne _ (by simp))
    by_cases heq : c' = c
    · subst heq
      simp at hc'
    · simp only [Function.update_of_ne heq] at hc'
      exact hkept c' conn' hc'
  | newConnection s acts hpc =>
    obtain ⟨hlt, hrel | ⟨hown, hun⟩⟩ := h.main s _ hpc
    · cases hrel
    cases hown with
    | newConnection hacts =>
      refine h.frame (Uses.of_quiet (by simp [Event.socket])) (Nat.le_refl _)
        (fun c' conn' hc' => ?_) (mainOwns_handle _ hlt rfl (.inr ⟨hacts, hun⟩))
      by_cases heq : c' = srv.nextConn
      · subst heq
        simp only [Function.update_self, Option.some.injEq] at hc'
        subst hc'
        exact .inl ⟨rfl, by simp [WebrtcConnection.new]⟩
      · simp only [Function.update_of_ne heq] at hc'
        exact hkept c' conn' hc'
  | pushMessage s c message acts conn hpc hc =>
    obtain ⟨hlt, hrel | ⟨hown, hun⟩⟩ := h.main s _ hpc
    · cases hrel
    cases hown with
    | pushMessage _ _ hacts =>
      exact h.frame_conn (Uses.of_quiet (by simp [Event.socket])) hc
        ⟨rfl, h.ended c conn hc, fun _ _ => Iff.rfl⟩
        (mainOwns_handle _ hlt rfl (.inr ⟨hacts, hun⟩))
  | park s c acts conn hpc hc hlock =>
    obtain ⟨hlt, hrel | ⟨hown, hun⟩⟩ := h.main s _ hpc
    · cases hrel
    cases hown with
    | wait => exact h.park hc hlock hlt hun (mainOwns_handle _ hlt rfl (.inl .keepOpen))
  | keepOpen s acts hpc =>
    obtain ⟨hlt, hrel | ⟨hown, hun⟩⟩ := h.main s _ hpc
    · cases hrel with
      | keepOpen =>
        exact h.frame hquiet (Nat.le_refl _) hkept (mainOwns_handle _ hlt rfl (.inl (.kept rfl)))
    · cases hown
  | respond s writes acts hpc =>
    obtain ⟨hlt, hrel | ⟨hown, hun⟩⟩ := h.main s _ hpc
    · cases hrel
    cases hown with
    | respond _ hacts =>
      refine h.frame (fun e he s' hs => ?_) (Nat.le_refl _) hkept
        (mainOwns_handle _ hlt rfl (.inr ⟨hacts, hun⟩))
      rw [List.mem_singleton.mp he] at hs ⊢
      obtain rfl := Option.some.inj hs
      exact ⟨hlt, hun.1, by simp, by simp⟩
  | closeUnlessWaiting s acts hpc =>
    obtain ⟨hlt, hrel | ⟨hown, hun⟩⟩ := h.main s _ hpc
    · -- the socket is parked, and `closeWait` is false
      cases hrel with
      | kept hfalse =>
        rw [hfalse]
        exact h.frame hquiet (Nat.le_refl _) hkept (mainOwns_handle _ hlt rfl (.inl .nil))
    · cases hown with
      | close =>
        have hnil : ∀ es₁, MainOwns es₁ { srv with pc := .handle s [] } := fun _ =>
          mainOwns_handle _ hlt rfl (.inl .nil)
        split
        · exact h.close_own hlt hun (hnil _)
        · exact h.frame hquiet (Nat.le_refl _) hkept (hnil _)
  | discard s acts hpc =>
    obtain ⟨hlt, hrel | ⟨hown, hun⟩⟩ := h.main s _ hpc
    · cases hrel
    cases hown with
    | discard => exact h.close_own hlt hun (mainOwns_handle _ hlt rfl (.inl .nil))
  | move l c conn conn' es hl hc hmove => exact h.move hc hmove

theorem of_run {env : Env} {cfg : Http.Config} {buffer : Bytes} {tr : List (Label × List Event)}
    (h : Run (Server.step env cfg) (Server.start buffer) tr srv) : Sockets (events tr) srv := by
  refine h.invariant (fun tr srv => Sockets (events tr) srv) (Sockets.start buffer) ?_
  intro tr srv l srv' es _ hinv hstep
  rw [events_append, events_singleton]
  exact hinv.step (happens_of_step hstep)

end Sockets

/-! ## 5. No use after close -/

/-- **Every socket is closed at most once, and nothing is written to it and it is not parked
after that**, in every run of the main loop with all the workers and callbacks. -/
theorem safe_of_run {env : Env} {cfg : Http.Config} {buffer : Bytes}
    {tr : List (Label × List Event)} {srv : Server}
    (hrun : Run (Server.step env cfg) (Server.start buffer) tr srv) : Safe (events tr) :=
  (Sockets.of_run hrun).safe

/-- The statements of one request, taken in a row. -/
def sampleRequest (client : Client) (statements : ℕ) : List Label :=
  .accept client :: List.replicate statements .main

/-- The worker's statements, taken in a row. -/
def sampleWork (c : ConnPtr) (statements : ℕ) : List Label :=
  List.replicate statements (.worker c (.step 0 ⟨none, none⟩))

/-- A peer signs in and waits, its gathering ends, and its worker answers the parked socket. -/
def sampleAnswer : List Label :=
  sampleRequest (sampleClient "signIn" "0") 4 ++ sampleRequest (sampleClient "wait" "1") 4 ++
    sampleWork 0 2 ++ [.callback 0 (.onIceGatheringChange .complete)] ++ sampleWork 0 1 ++
    [.worker 0 .timeout] ++ sampleWork 0 5

/-- One socket is closed by the main loop and the other by the worker. -/
theorem safe_sample : ∃ tr srv, Run (Server.step deafEnv sampleConfig) sampleStart tr srv ∧
    Event.close 0 ∈ events tr ∧ Event.park 0 1 ∈ events tr ∧ Event.close 1 ∈ events tr ∧
    Safe (events tr) := by
  obtain ⟨tr, srv, hrun, hp⟩ := exists_run (Server.step deafEnv sampleConfig) sampleStart
    sampleAnswer (fun tr _ => decide (Event.close 0 ∈ events tr ∧ Event.park 0 1 ∈ events tr ∧
      Event.close 1 ∈ events tr)) (by decide +kernel)
  obtain ⟨h₀, h₁, h₂⟩ := of_decide_eq_true hp
  exact ⟨tr, srv, hrun, h₀, h₁, h₂, safe_of_run hrun⟩

end Reflector
