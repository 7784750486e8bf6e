/-
# The relay, in both directions

Two queues stand between a client and its peer connection: `m_queue`, which the main loop fills
and the worker empties into the observer, and the observer's own `m_msgQueue`, which the
callbacks fill and the worker empties into parked sockets.  `Balanced` is the ledger of a
connection: what came out of a queue, followed by what is still in it, is what went in.  It is
kept by every step of every thread, whatever the interleaving, because the ends of a queue are
moved one statement at a time under its own mutex.

That a socket carries one message at most is a matter of the slot: between the message and the
end of the socket the worker holds `m_mutex`, so the slot can be neither read nor replaced
(`Relayed.step`).
-/
import Reflector.Server.Sockets
import Reflector.Signaling.Outgoing

namespace Reflector

open Base Signaling

/-! ## 1. What went in and what came out -/

/-- A message pushed for a connection. -/
def Event.pushed (c : ConnPtr) : Event → Option Bytes
  | .push c' message => if c' = c then some message else none
  | _ => none

/-- A message handed to a connection's `onSignalingMessage`. -/
def Event.handed (c : ConnPtr) : Event → Option Bytes
  | .hand c' message => if c' = c then some message else none
  | _ => none

/-- A message that a connection's worker wrote to a socket. -/
def Event.relayed (c : ConnPtr) : Event → Option Bytes
  | .relay c' _ message _ => if c' = c then some message else none
  | _ => none

/-- The messages that a connection's observer gave to `sendSignalingMessage` in one call. -/
def Event.given (c : ConnPtr) : Event → List Bytes
  | .observed c' calls => if c' = c then calls.filterMap Call.given else []
  | _ => []

/-- The connection whose queues an event is about. -/
def Event.conn : Event → Option ConnPtr
  | .push c _ | .hand c _ | .relay c _ _ _ | .observed c _ => some c
  | _ => none

/-- **The ledger of one connection**, for both directions. -/
structure Balanced (es : List Event) (c : ConnPtr) (conn : WebrtcConnection) : Prop where
  inbound : es.filterMap (Event.handed c) ++ conn.queue = es.filterMap (Event.pushed c)
  outbound : es.filterMap (Event.relayed c) ++ conn.observer.msgQueue = es.flatMap (Event.given c)

namespace Balanced

variable {env : Env} {es es' : List Event} {c : ConnPtr} {conn conn' : WebrtcConnection}

/-- **The step rule**: of either queue, what comes out and what is left is what was there and
what goes in. -/
theorem append (h : Balanced es c conn)
    (hin : es'.filterMap (Event.handed c) ++ conn'.queue
      = conn.queue ++ es'.filterMap (Event.pushed c))
    (hout : es'.filterMap (Event.relayed c) ++ conn'.observer.msgQueue
      = conn.observer.msgQueue ++ es'.flatMap (Event.given c)) : Balanced (es ++ es') c conn' := by
  constructor
  · rw [List.filterMap_append, List.filterMap_append, ← h.inbound, List.append_assoc, hin,
      List.append_assoc]
  · rw [List.filterMap_append, List.flatMap_append, ← h.outbound, List.append_assoc, hout,
      List.append_assoc]

/-- An event of another connection is not in the ledger. -/
theorem entry_nil {e : Event} (he : e.conn ≠ some c) :
    e.handed c = none ∧ e.pushed c = none ∧ e.relayed c = none ∧ e.given c = [] := by
  have hne : ∀ {c'}, e.conn = some c' → c' ≠ c := fun h₁ h₂ => he (h₁.trans (congrArg some h₂))
  cases e with
  | push c' message => exact ⟨rfl, if_neg (hne rfl), rfl, rfl⟩
  | hand c' message => exact ⟨if_neg (hne rfl), rfl, rfl, rfl⟩
  | relay c' s message writes => exact ⟨rfl, rfl, if_neg (hne rfl), rfl⟩
  | observed c' calls => exact ⟨rfl, rfl, rfl, if_neg (hne rfl)⟩
  | _ => exact ⟨rfl, rfl, rfl, rfl⟩

theorem entries_nil (hes : ∀ e ∈ es, e.conn ≠ some c) :
    es.filterMap (Event.handed c) = [] ∧ es.filterMap (Event.pushed c) = [] ∧
      es.filterMap (Event.relayed c) = [] ∧ es.flatMap (Event.given c) = [] := by
  simp only [List.filterMap_eq_nil_iff, List.flatMap_eq_nil_iff]
  exact ⟨fun e he => (entry_nil (hes e he)).1, fun e he => (entry_nil (hes e he)).2.1,
    fun e he => (entry_nil (hes e he)).2.2.1, fun e he => (entry_nil (hes e he)).2.2.2⟩

/-- A connection with empty queues that nothing was said about. -/
theorem fresh (hes : ∀ e ∈ es, e.conn ≠ some c) (peerId : ℕ) : Balanced es c (.new peerId) := by
  obtain ⟨h₁, h₂, h₃, h₄⟩ := entries_nil hes
  exact ⟨by rw [h₁, h₂]; rfl, by rw [h₃, h₄]; rfl⟩

/-- **The frame rule**: events of other connections, and no change to the queues. -/
theorem frame (h : Balanced es c conn) (hes : ∀ e ∈ es', e.conn ≠ some c)
    (hqueue : conn'.queue = conn.queue)
    (hmsg : conn'.observer.msgQueue = conn.observer.msgQueue) : Balanced (es ++ es') c conn' := by
  obtain ⟨h₁, h₂, h₃, h₄⟩ := entries_nil hes
  refine h.append ?_ ?_
  · rw [h₁, h₂, hqueue, List.append_nil, List.nil_append]
  · rw [h₃, h₄, hmsg, List.append_nil, List.nil_append]

/-- A message pushed is a message in the queue. -/
theorem push (h : Balanced es c conn) (message : Bytes) :
    Balanced (es ++ [.push c message]) c (conn.pushMessage message) := by
  refine h.append ?_ ?_
  · simp [List.filterMap_cons, Event.handed, Event.pushed, WebrtcConnection.pushMessage]
  · simp [List.filterMap_cons, Event.relayed, Event.given, WebrtcConnection.pushMessage]

/-- What the observer says shows in its own queue, and only there. -/
theorem said (h : Balanced es c conn) {calls : List Call} (hqueue : conn'.queue = conn.queue)
    (hmsg : conn'.observer.msgQueue = conn.observer.msgQueue ++ calls.filterMap Call.given) :
    Balanced (es ++ [.observed c calls]) c conn' := by
  refine h.append ?_ ?_
  · simp [List.filterMap_cons, Event.handed, Event.pushed, hqueue]
  · simp [List.filterMap_cons, Event.relayed, Event.given, hmsg]

/-- What the observer is called with shows there, too. -/
theorem observed (h : Balanced es c conn) {cb : Callback} {observer : Observer}
    {calls : List Call} (hcall : conn.observer.call env cb = .ok (observer, calls))
    (hqueue : conn'.queue = conn.queue) (hobserver : conn'.observer = observer) :
    Balanced (es ++ [.observed c calls]) c conn' :=
  h.said hqueue (by rw [hobserver, Observer.call_msgQueue hcall])

/-- **The worker and the callbacks keep the ledger.** -/
theorem move (h : Balanced es c conn) (hmove : Moves env c conn conn' es') :
    Balanced (es ++ es') c conn' := by
  cases hmove with
  | go => exact h.frame (by simp) rfl rfl
  | hand message queue created observer calls hpc hqueue hcall =>
    have hhand : Balanced (es ++ [.hand c message]) c { conn with queue := queue } := by
      refine h.append ?_ ?_
      · simp [List.filterMap_cons, Event.handed, Event.pushed, hqueue]
      · simp [List.filterMap_cons, Event.relayed, Event.given]
    have hcall : conn.observer.call env (.onSignalingMessage message created)
        = .ok (observer, calls) := hcall
    have hobserved : Balanced (es ++ [.hand c message] ++ [.observed c calls]) c
        { conn with queue := queue, observer := observer, pc := .count } :=
      hhand.observed hcall rfl rfl
    rwa [List.append_assoc] at hobserved
  | relay s message msgQueue writes hpc hslot hqueue hsend =>
    refine h.append ?_ ?_
    · simp [List.filterMap_cons, Event.handed, Event.pushed]
    · simp [Event.relayed, Event.given, hqueue]
  | close hpc =>
    refine h.frame ?_ rfl rfl
    cases conn.clientSocket <;> simp [Event.conn]
  | clear => exact h.frame (by simp) rfl rfl
  | callback cb observer calls hpc hcall => exact h.observed hcall rfl rfl

end Balanced

/-! ## 2. The invariant of all connections -/

/-- A message is written to this socket. -/
def Event.carries (s : SockPtr) : Event → Bool
  | .relay _ s' _ _ => s' == s
  | _ => false

structure Relayed (es : List Event) (srv : Server) : Prop where
  balanced : ∀ c conn, srv.heap c = some conn → Balanced es c conn
  plain : ∀ c conn, srv.heap c = some conn → conn.observer.Plain
  named : ∀ e ∈ es, ∀ c, e.conn = some c → c < srv.nextConn
  /-- A socket that carried a message is closed, or about to be. -/
  sent : ∀ c s message writes, Event.relay c s message writes ∈ es → Event.close s ∈ es ∨
    ∃ conn, srv.heap c = some conn ∧ conn.pc = .sent ∧ conn.clientSocket = some s
  once : ∀ s, es.countP (Event.carries s) ≤ 1
  parked : ∀ c s message writes, Event.relay c s message writes ∈ es →
    [Event.park c s, Event.relay c s message writes].Sublist es
  whole : ∀ c s message writes, Event.relay c s message writes ∈ es →
    message.length < 2 ^ 31 → (writes.drop 1).flatten = message

namespace Relayed

variable {env : Env} {cfg : Http.Config} {es es' : List Event} {srv srv' : Server}

theorem start (buffer : Bytes) : Relayed [] (Server.start buffer) where
  balanced := by simp [Server.start]
  plain := by simp [Server.start]
  named := by simp
  sent := by simp
  once := by simp
  parked := by simp
  whole := by simp

/-- **The frame rule**: a step that relays nothing.  What it has to say is what becomes of the
ledgers, and that no slot is touched between a message and the end of its socket. -/
theorem frame (h : Relayed es srv) (hrelay : ∀ c s message writes,
      Event.relay c s message writes ∉ es')
    (hnext : srv.nextConn ≤ srv'.nextConn)
    (hnamed : ∀ e ∈ es', ∀ c, e.conn = some c → c < srv'.nextConn)
    (hheap : ∀ c conn', srv'.heap c = some conn' →
      Balanced (es ++ es') c conn' ∧ conn'.observer.Plain)
    (hsent : ∀ c conn s, srv.heap c = some conn → conn.pc = .sent → conn.clientSocket = some s →
      Event.close s ∈ es' ∨
        ∃ conn', srv'.heap c = some conn' ∧ conn'.pc = .sent ∧ conn'.clientSocket = some s) :
    Relayed (es ++ es') srv' := by
  have hold : ∀ {c s message writes}, Event.relay c s message writes ∈ es ++ es' →
      Event.relay c s message writes ∈ es := fun hin =>
    (List.mem_append.mp hin).resolve_right (hrelay _ _ _ _)
  exact {
    balanced := fun c conn hc => (hheap c conn hc).1
    plain := fun c conn hc => (hheap c conn hc).2
    named := fun e he c hc => by
      rcases List.mem_append.mp he with he | he
      · exact Nat.lt_of_lt_of_le (h.named e he c hc) hnext
      · exact hnamed e he c hc
    sent := fun c s message writes hin => by
      rcases h.sent c s message writes (hold hin) with hclose | ⟨conn, hc, hpc, hslot⟩
      · exact .inl (List.mem_append_left _ hclose)
      · exact (hsent c conn s hc hpc hslot).imp (List.mem_append_right _) id
    once := fun s => by
      have hnone : es'.countP (Event.carries s) = 0 := List.countP_eq_zero.mpr fun e he => by
        cases e with
        | relay c s' message writes => exact absurd he (hrelay c s' message writes)
        | _ => simp [Event.carries]
      rw [List.countP_append, hnone, Nat.add_zero]
      exact h.once s
    parked := fun c s message writes hin =>
      (h.parked c s message writes (hold hin)).trans (List.sublist_append_left _ _)
    whole := fun c s message writes hin => h.whole c s message writes (hold hin) }

/-- The frame rule, for a step that touches no connection and concerns none. -/
theorem frame_main (h : Relayed es srv) (hes : ∀ e ∈ es', e.conn = none)
    (hheap : srv'.heap = srv.heap) (hnext : srv'.nextConn = srv.nextConn) :
    Relayed (es ++ es') srv' := by
  refine h.frame (fun c s message writes hin => ?_) (Nat.le_of_eq hnext.symm)
    (fun e he c hc => ?_) (fun c conn hc => ?_) fun c conn s hc hpc hslot =>
      .inr ⟨conn, hheap ▸ hc, hpc, hslot⟩
  · exact absurd (hes _ hin) (by simp [Event.conn])
  · rw [hes e he] at hc
    exact absurd hc (by simp)
  · rw [hheap] at hc
    exact ⟨(h.balanced c conn hc).frame (fun e he => by rw [hes e he]; simp) rfl rfl,
      h.plain c conn hc⟩

/-- The frame rule, for a step that replaces one connection. -/
theorem frame_conn (h : Relayed es srv) {c : ConnPtr} {conn conn' : WebrtcConnection}
    {pc : MainPc} (hc : srv.heap c = some conn) (hlt : c < srv.nextConn)
    (hrelay : ∀ c s message writes, Event.relay c s message writes ∉ es')
    (hes : ∀ e ∈ es', ∀ x, e.conn = some x → x = c) (hbal : Balanced (es ++ es') c conn')
    (hplain : conn'.observer.Plain)
    (hsent : ∀ s, conn.pc = .sent → conn.clientSocket = some s →
      Event.close s ∈ es' ∨ conn'.pc = .sent ∧ conn'.clientSocket = some s) :
    Relayed (es ++ es') { srv with heap := Function.update srv.heap c (some conn'), pc := pc } := by
  refine h.frame hrelay (Nat.le_refl _) (fun e he x hx => hes e he x hx ▸ hlt)
    (fun x conn₁ hx => ?_) fun x conn₁ s hx hpc hslot => ?_
  · by_cases heq : x = c
    · subst heq
      simp only [Function.update_self, Option.some.injEq] at hx
      exact hx ▸ ⟨hbal, hplain⟩
    · simp only [Function.update_of_ne heq] at hx
      exact ⟨(h.balanced x conn₁ hx).frame (fun e he he' => heq (hes e he x he')) rfl rfl,
        h.plain x conn₁ hx⟩
  · by_cases heq : x = c
    · subst heq
      obtain rfl := Option.some.inj (hc.symm.trans hx)
      refine (hsent s hpc hslot).imp id fun hkeep => ?_
      exact ⟨conn', Function.update_self .., hkeep⟩
    · exact .inr ⟨conn₁, by simp only [Function.update_of_ne heq, hx], hpc, hslot⟩

/-! ## 3. Every step keeps it -/

/-- A socket that is in a slot, with the worker in front of it, has carried nothing yet. -/
theorem not_carried (h : Relayed es srv) (hinv : Sockets es srv) {c : ConnPtr}
    {conn : WebrtcConnection} {s : SockPtr} (hc : srv.heap c = some conn) (hpc : conn.pc = .slot)
    (hslot : conn.clientSocket = some s) : es.countP (Event.carries s) = 0 := by
  obtain ⟨hpark, hclose⟩ := hinv.slot c conn s hc hslot
  refine List.countP_eq_zero.mpr fun e he hcarries => ?_
  cases e with
  | relay c' s' message writes =>
    obtain rfl : s' = s := by simpa [Event.carries] using hcarries
    rcases h.sent c' s' message writes he with hin | ⟨conn', hc', hpc', hslot'⟩
    · exact absurd (hclose.mp hin) (by simp [hpc])
    · -- the one slot the socket is in is this one, and its worker is not behind a message
      obtain rfl := hinv.parkedOnce c' c s' (hinv.slot c' conn' s' hc' hslot').1 hpark
      obtain rfl := Option.some.inj (hc.symm.trans hc')
      exact absurd (hpc.symm.trans hpc') (by simp)
  | _ => exact absurd hcarries (by simp [Event.carries])

/-- **A message goes out.** -/
theorem relay (h : Relayed es srv) (hinv : Sockets es srv) {c : ConnPtr}
    {conn : WebrtcConnection} {s : SockPtr} {message : Bytes} {msgQueue writes : List Bytes}
    (hlt : c < srv.nextConn) (hc : srv.heap c = some conn) (hpc : conn.pc = .slot)
    (hslot : conn.clientSocket = some s) (hqueue : conn.observer.msgQueue = message :: msgQueue)
    (hsend : Http.sendMessage conn.peerId message = .ok writes)
    (hbal : Balanced (es ++ [.relay c s message writes]) c { conn with
      observer := { conn.observer with msgQueue := msgQueue }, pc := .sent }) :
    Relayed (es ++ [.relay c s message writes]) { srv with
      heap := Function.update srv.heap c (some { conn with
        observer := { conn.observer with msgQueue := msgQueue }, pc := .sent }) } := by
  have hplain := h.plain c conn hc
  have hpark := (hinv.slot c conn s hc hslot).1
  have hnotsent : ∀ x conn₁, srv.heap x = some conn₁ → conn₁.pc = .sent → x ≠ c := by
    rintro x conn₁ hx hsent rfl
    obtain rfl := Option.some.inj (hc.symm.trans hx)
    exact absurd (hpc.symm.trans hsent) (by simp)
  constructor
  · intro x conn₁ hx
    by_cases heq : x = c
    · subst heq
      simp only [Function.update_self, Option.some.injEq] at hx
      exact hx ▸ hbal
    · simp only [Function.update_of_ne heq] at hx
      refine (h.balanced x conn₁ hx).frame (fun e he => ?_) rfl rfl
      rw [List.mem_singleton.mp he]
      simpa [Event.conn] using Ne.symm heq
  · intro x conn₁ hx
    by_cases heq : x = c
    · subst heq
      simp only [Function.update_self, Option.some.injEq] at hx
      subst hx
      refine ⟨hplain.candidates, fun m hm => hplain.queue m ?_⟩
      rw [hqueue]
      exact List.mem_cons_of_mem _ hm
    · simp only [Function.update_of_ne heq] at hx
      exact h.plain x conn₁ hx
  · intro e he x hx
    rcases List.mem_append.mp he with he | he
    · exact h.named e he x hx
    · rw [List.mem_singleton.mp he] at hx
      exact Option.some.inj hx ▸ hlt
  · intro x s' m w hin
    rcases List.mem_append.mp hin with hin | hin
    · rcases h.sent x s' m w hin with hclose | ⟨conn₁, hx, hpc₁, hslot₁⟩
      · exact .inl (List.mem_append_left _ hclose)
      · refine .inr ⟨conn₁, ?_, hpc₁, hslot₁⟩
        simp only [Function.update_of_ne (hnotsent x conn₁ hx hpc₁), hx]
    · obtain ⟨rfl, rfl, -⟩ := Event.relay.inj (List.mem_singleton.mp hin)
      exact .inr ⟨_, Function.update_self .., rfl, hslot⟩
  · intro s'
    rw [List.countP_append, List.countP_singleton]
    by_cases heq : s = s'
    · subst heq
      rw [h.not_carried hinv hc hpc hslot]
      split <;> omega
    · have hnot : Event.carries s' (.relay c s message writes) = false := by
        simpa [Event.carries] using heq
      rw [hnot]
      exact h.once s'
  · intro x s' m w hin
    rcases List.mem_append.mp hin with hin | hin
    · exact (h.parked x s' m w hin).trans (List.sublist_append_left _ _)
    · obtain ⟨rfl, rfl, rfl, rfl⟩ := Event.relay.inj (List.mem_singleton.mp hin)
      exact (List.singleton_sublist.mpr hpark).append (List.Sublist.refl _)
  · intro x s' m w hin hlen
    rcases List.mem_append.mp hin with hin | hin
    · exact h.whole x s' m w hin hlen
    · obtain ⟨rfl, rfl, rfl, rfl⟩ := Event.relay.inj (List.mem_singleton.mp hin)
      refine Http.sendMessage_body (hplain.queue m ?_) hlen hsend
      rw [hqueue]
      exact List.mem_cons_self

theorem move (h : Relayed es srv) (hinv : Sockets es srv) {c : ConnPtr}
    {conn conn' : WebrtcConnection} (hlt : c < srv.nextConn) (hc : srv.heap c = some conn)
    (hmove : Moves env c conn conn' es') :
    Relayed (es ++ es') { srv with heap := Function.update srv.heap c (some conn') } := by
  have hbal := (h.balanced c conn hc).move hmove
  have hplain := h.plain c conn hc
  cases hmove with
  | go pc state alive startTime hfrom hto hstate =>
    exact h.frame_conn hc hlt (by simp) (by simp) hbal hplain fun s hpc => absurd hpc hfrom.1
  | hand message queue created observer calls hpc hqueue hcall =>
    have hcall : conn.observer.call env (.onSignalingMessage message created)
        = .ok (observer, calls) := hcall
    refine h.frame_conn hc hlt (by simp) (by simp [Event.conn]) hbal (hplain.call hcall) ?_
    intro s hsent
    rcases hpc with hpc | hpc <;> exact absurd (hpc.symm.trans hsent) (by simp)
  | relay s message msgQueue writes hpc hslot hqueue hsend =>
    exact h.relay hinv hlt hc hpc hslot hqueue hsend hbal
  | close hpc =>
    refine h.frame_conn hc hlt ?_ ?_ hbal hplain fun s _ hslot => .inl (by simp [hslot])
    · cases conn.clientSocket <;> simp
    · cases conn.clientSocket <;> simp [Event.conn]
  | clear hpc =>
    exact h.frame_conn hc hlt (by simp) (by simp) hbal hplain fun s hsent =>
      absurd (hpc.symm.trans hsent) (by simp)
  | callback cb observer calls hpc hcall =>
    exact h.frame_conn hc hlt (by simp) (by simp [Event.conn]) hbal (hplain.call hcall)
      fun s hsent hslot => .inr ⟨hsent, hslot⟩

/-- **One step keeps the invariant.** -/
theorem step {l : Label} (h : Relayed es srv) (hinv : Sockets es srv) (hreg : Registry es srv)
    (hstep : Happens env cfg srv l srv' es') : Relayed (es ++ es') srv' := by
  have hlt : ∀ {c conn}, srv.heap c = some conn → c < srv.nextConn := fun hc =>
    hreg.allocated _ (hreg.mem_list hc)
  cases hstep with
  | cleanupDelete i c conn hpc hi hc hend =>
    have hdone : conn.pc = .done := hinv.ended c conn hc hend
    refine h.frame (by simp) (Nat.le_refl _) (by simp [Event.conn]) (fun x conn₁ hx => ?_)
      fun x conn₁ s hx hsent hslot => .inr ⟨conn₁, ?_, hsent, hslot⟩
    · by_cases heq : x = c
      · subst heq
        simp at hx
      · simp only [Function.update_of_ne heq] at hx
        exact ⟨(h.balanced x conn₁ hx).frame (by simp [Event.conn]) rfl rfl, h.plain x conn₁ hx⟩
    · have hne : x ≠ c := by
        rintro rfl
        obtain rfl := Option.some.inj (hc.symm.trans hx)
        exact absurd (hdone.symm.trans hsent) (by simp)
      simp only [Function.update_of_ne hne, hx]
  | newConnection s acts hpc =>
    refine h.frame (by simp) (Nat.le_succ _) (by simp [Event.conn]) (fun x conn₁ hx => ?_)
      fun x conn₁ s hx hsent hslot => .inr ⟨conn₁, ?_, hsent, hslot⟩
    · by_cases heq : x = srv.nextConn
      · subst heq
        simp only [Function.update_self, Option.some.injEq] at hx
        subst hx
        refine ⟨Balanced.fresh (fun e he hconn => ?_) _, Observer.plain_new⟩
        rcases List.mem_append.mp he with he | he
        · exact Nat.lt_irrefl _ (h.named e he _ hconn)
        · rw [List.mem_singleton.mp he] at hconn
          exact absurd hconn (by simp [Event.conn])
      · simp only [Function.update_of_ne heq] at hx
        exact ⟨(h.balanced x conn₁ hx).frame (by simp [Event.conn]) rfl rfl, h.plain x conn₁ hx⟩
    · simp only [Function.update_of_ne (Nat.ne_of_lt (hlt hx)), hx]
  | pushMessage s c message acts conn hpc hc =>
    exact h.frame_conn hc (hlt hc) (by simp) (by simp [Event.conn])
      ((h.balanced c conn hc).push message) (h.plain c conn hc)
      fun s hsent hslot => .inr ⟨hsent, hslot⟩
  | park s c acts conn hpc hc hlock =>
    exact h.frame_conn hc (hlt hc) (by simp) (by simp [Event.conn])
      ((h.balanced c conn hc).frame (by simp [Event.conn]) rfl rfl) (h.plain c conn hc)
      fun s hsent => absurd (.inr (.inl hsent)) hlock
  | move l c conn conn' es hl hc hmove => exact h.move hinv (hlt hc) hc hmove
  | closeUnlessWaiting s acts hpc =>
    refine h.frame_main ?_ rfl rfl
    split <;> simp [Event.conn]
  | _ => exact h.frame_main (by simp [Event.conn]) rfl rfl

theorem of_run {buffer : Bytes} {tr : List (Label × List Event)}
    (hrun : Run (Server.step env cfg) (Server.start buffer) tr srv) : Relayed (events tr) srv := by
  refine hrun.invariant (fun tr srv => Relayed (events tr) srv) (Relayed.start buffer) ?_
  intro tr srv l srv' es hr ih hstep
  rw [events_append, events_singleton]
  exact ih.step (Sockets.of_run hr) (Registry.of_run hr) (happens_of_step hstep)

end Relayed

/-! ## 4. The relay -/

/-- **Nothing is lost, duplicated, reordered or delivered to another peer**, at any moment of
any run: the messages handed to the observer and those still queued are the messages pushed; the
messages written to wait sockets and those still queued are the messages the observer gave; a
wait socket carries at most one message, in full, and it is one of the connection on which the
socket was parked before. -/
theorem relayed_of_run {env : Env} {cfg : Http.Config} {buffer : Bytes}
    {tr : List (Label × List Event)} {srv : Server}
    (hrun : Run (Server.step env cfg) (Server.start buffer) tr srv) :
    (∀ c conn, srv.heap c = some conn →
      (events tr).filterMap (Event.handed c) ++ conn.queue
        = (events tr).filterMap (Event.pushed c) ∧
      (events tr).filterMap (Event.relayed c) ++ conn.observer.msgQueue
        = (events tr).flatMap (Event.given c)) ∧
    (∀ s, (events tr).countP (Event.carries s) ≤ 1) ∧
    ∀ c s message writes, Event.relay c s message writes ∈ events tr →
      [Event.park c s, Event.relay c s message writes].Sublist (events tr) ∧
      (∀ c', Event.park c' s ∈ events tr → c' = c) ∧
      (message.length < 2 ^ 31 → (writes.drop 1).flatten = message) := by
  have h : Relayed (events tr) srv := Relayed.of_run hrun
  refine ⟨fun c conn hc => ?_, h.once, fun c s message writes hin => ?_⟩
  · exact ⟨(h.balanced c conn hc).inbound, (h.balanced c conn hc).outbound⟩
  · have hsub := h.parked c s message writes hin
    have hpark : Event.park c s ∈ events tr := hsub.subset List.mem_cons_self
    exact ⟨hsub, fun c' hc' => (Sockets.of_run hrun).parkedOnce c' c s hc' hpark,
      h.whole c s message writes hin⟩

/-- A message comes in and is handed on; a candidate goes out on the socket that waits. -/
def sampleExchange : List Label :=
  sampleRequest (sampleClient "signIn" "0") 4 ++ sampleRequest (sampleClient "wait" "1") 4 ++
    sampleRequest ⟨[.data (ascii "POST /message HTTP/1.1\r\nPragma: 1\r\n\r\nhello")], none,
      ⟨none, none⟩⟩ 4 ++ sampleWork 0 3 ++
    [.callback 0 (.onIceCandidate (ascii "0") 0 (some (ascii "candidate:1"))),
      .callback 0 (.onIceGatheringChange .complete)] ++ sampleWork 0 3

theorem relayed_sample : ∃ tr srv conn,
    Run (Server.step deafEnv sampleConfig) sampleStart tr srv ∧ srv.heap 0 = some conn ∧
    (events tr).countP (Event.carries 1) = 1 ∧
    (events tr).filterMap (Event.pushed 0) = [ascii "hello"] ∧
    (events tr).filterMap (Event.handed 0) ++ conn.queue = [ascii "hello"] ∧
    (events tr).filterMap (Event.relayed 0) ++ conn.observer.msgQueue
      = (events tr).flatMap (Event.given 0) := by
  obtain ⟨tr, srv, hrun, hp⟩ := exists_run (Server.step deafEnv sampleConfig) sampleStart
    sampleExchange (fun tr srv => decide ((srv.heap 0).isSome ∧
      (events tr).countP (Event.carries 1) = 1 ∧
      (events tr).filterMap (Event.pushed 0) = [ascii "hello"])) (by decide +kernel)
  obtain ⟨hsome, hcount, hpushed⟩ := of_decide_eq_true hp
  obtain ⟨conn, hc⟩ := Option.isSome_iff_exists.mp hsome
  obtain ⟨hin, hout⟩ := (relayed_of_run hrun).1 0 conn hc
  exact ⟨tr, srv, conn, hrun, hc, hcount, hpushed, hin.trans hpushed, hout⟩

end Reflector
