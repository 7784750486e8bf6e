/-
# The registry: ids, the list, and routing

A connection's id is the value of a counter at its `signIn`, and the connection is appended to
the list in the same iteration.  Every `signIn` allocates one connection, so the id is the
connection's place in the order of allocation (`idOf`) as long as the counter does not wrap,
and the list, which is only ever appended to and erased from, is in that order.

`Registry` is the invariant, over ALL runs of the fine system; the statements about whole
iterations follow by `fine_of_coarse`.
-/
import Reflector.Server.Requests

namespace Reflector

open Base Signaling

/-! ## 1. The invariant -/

/-- The id of the connection that was allocated as number `c`. -/
def idOf (c : ConnPtr) : ℕ := (c + 1) % 2 ^ 32

theorem idOf_of_lt {c : ℕ} (h : c < 2 ^ 31) : idOf c = c + 1 :=
  Nat.mod_eq_of_lt (by omega)

def Event.isSignIn : Event → Bool
  | .signIn _ _ => true
  | _ => false

/-- What the main loop keeps true of its list, its counter and the connections behind them. -/
structure Registry (es : List Event) (srv : Server) : Prop where
  ordered : srv.webrtcConnectionList.Pairwise (· < ·)
  allocated : ∀ c ∈ srv.webrtcConnectionList, c < srv.nextConn
  /-- The connections that exist are the listed ones. -/
  ids : ∀ c, (srv.heap c).map (·.peerId)
    = if c ∈ srv.webrtcConnectionList then some (idOf c) else none
  counter : srv.peerId = idOf srv.nextConn
  signedIn : ∀ c id, Event.signIn c id ∈ es ↔ c < srv.nextConn ∧ id = idOf c
  count : es.countP Event.isSignIn = srv.nextConn

namespace Registry

variable {es es' : List Event} {srv srv' : Server}

theorem start (buffer : Bytes) : Registry [] (Server.start buffer) where
  ordered := List.Pairwise.nil
  allocated := by simp [Server.start]
  ids := by simp [Server.start]
  counter := rfl
  signedIn := by simp [Server.start]
  count := rfl

/-- **The frame rule**: a step that leaves the list, the counters and the ids alone. -/
theorem frame (h : Registry es srv)
    (hlist : srv'.webrtcConnectionList = srv.webrtcConnectionList)
    (hnext : srv'.nextConn = srv.nextConn) (hpeer : srv'.peerId = srv.peerId)
    (hheap : ∀ c, (srv'.heap c).map (·.peerId) = (srv.heap c).map (·.peerId))
    (hes : ∀ e ∈ es', e.isSignIn = false) : Registry (es ++ es') srv' where
  ordered := hlist ▸ h.ordered
  allocated := by rw [hlist, hnext]; exact h.allocated
  ids c := by rw [hheap, hlist]; exact h.ids c
  counter := by rw [hpeer, hnext]; exact h.counter
  signedIn c id := by
    have hno : Event.signIn c id ∉ es' := fun hin => absurd (hes _ hin) (by simp [Event.isSignIn])
    rw [List.mem_append, or_iff_left hno, hnext]
    exact h.signedIn c id
  count := by
    have hno : es'.countP Event.isSignIn = 0 :=
      List.countP_eq_zero.mpr fun e he => by simp [hes e he]
    rw [List.countP_append, hno, hnext, Nat.add_zero]
    exact h.count

theorem isSome_heap (h : Registry es srv) {c : ConnPtr} (hc : c ∈ srv.webrtcConnectionList) :
    ∃ conn, srv.heap c = some conn ∧ conn.peerId = idOf c := by
  have hid := h.ids c
  rw [if_pos hc] at hid
  exact Option.map_eq_some_iff.mp hid

theorem mem_list (h : Registry es srv) {c : ConnPtr} {conn : WebrtcConnection}
    (hc : srv.heap c = some conn) : c ∈ srv.webrtcConnectionList := by
  by_contra hnot
  have hid := h.ids c
  rw [if_neg hnot, hc] at hid
  exact absurd hid (by simp)

theorem nodup (h : Registry es srv) : srv.webrtcConnectionList.Nodup :=
  h.ordered.imp Nat.ne_of_lt

/-- A `signIn` appends the next connection, with the counter's value. -/
theorem newConnection (h : Registry es srv) {pc : MainPc} :
    Registry (es ++ [.signIn srv.nextConn srv.peerId])
      { srv with
        peerId := (srv.peerId + 1) % 2 ^ 32
        webrtcConnectionList := srv.webrtcConnectionList ++ [srv.nextConn]
        heap := Function.update srv.heap srv.nextConn (some (.new srv.peerId))
        nextConn := srv.nextConn + 1
        pc := pc } where
  ordered := by
    rw [List.pairwise_append]
    refine ⟨h.ordered, List.pairwise_singleton _ _, fun a ha b hb => ?_⟩
    rw [List.mem_singleton.mp hb]
    exact h.allocated a ha
  allocated c hc := by
    rcases List.mem_append.mp hc with hc | hc
    · exact Nat.lt_succ_of_lt (h.allocated c hc)
    · rw [List.mem_singleton.mp hc]
      exact Nat.lt_succ_self _
  ids c := by
    by_cases hc : c = srv.nextConn
    · subst hc
      simp [WebrtcConnection.new, h.counter]
    · simp only [Function.update_of_ne hc, List.mem_append, List.mem_singleton, hc, or_false]
      exact h.ids c
  counter := by
    simp only [h.counter, idOf]
    omega
  signedIn c id := by
    rw [List.mem_append, h.signedIn, List.mem_singleton, Event.signIn.injEq, h.counter]
    constructor
    · rintro (⟨hc, rfl⟩ | ⟨rfl, rfl⟩)
      · exact ⟨Nat.lt_succ_of_lt hc, rfl⟩
      · exact ⟨Nat.lt_succ_self _, rfl⟩
    · rintro ⟨hc, rfl⟩
      rcases Nat.lt_succ_iff_lt_or_eq.mp hc with hc | rfl
      · exact .inl ⟨hc, rfl⟩
      · exact .inr ⟨rfl, rfl⟩
  count := by simp [List.countP_append, h.count, Event.isSignIn]

/-- An erased connection is gone from the list and from the heap. -/
theorem cleanupDelete (h : Registry es srv) {i : ℕ} {c : ConnPtr} {pc : MainPc}
    (hi : srv.webrtcConnectionList[i]? = some c) :
    Registry (es ++ [.delete c])
      { srv with
        webrtcConnectionList := srv.webrtcConnectionList.eraseIdx i
        heap := Function.update srv.heap c none
        pc := pc } := by
  obtain ⟨hlt, hget⟩ := List.getElem?_eq_some_iff.mp hi
  have herase : srv.webrtcConnectionList.eraseIdx i = srv.webrtcConnectionList.erase c := by
    rw [← hget, h.nodup.erase_getElem]
  have hmem : ∀ x, x ∈ srv.webrtcConnectionList.erase c ↔ x ≠ c ∧ x ∈ srv.webrtcConnectionList :=
    fun x => h.nodup.mem_erase_iff
  have hsame : Registry (es ++ [.delete c]) srv :=
    h.frame rfl rfl rfl (fun _ => rfl) (by simp [Event.isSignIn])
  exact {
    ordered := h.ordered.sublist (List.eraseIdx_sublist _ _)
    allocated := fun x hx => h.allocated x ((List.eraseIdx_sublist _ _).subset hx)
    ids := fun x => by
      dsimp only
      rw [herase]
      by_cases hx : x = c
      · subst hx
        simp [hmem]
      · simp only [Function.update_of_ne hx, hmem, ne_eq, hx, not_false_eq_true, true_and]
        exact h.ids x
    counter := h.counter
    signedIn := hsame.signedIn
    count := hsame.count }

end Registry

/-! ## 2. Every step keeps it -/

section

variable {env : Env} {cfg : Http.Config}

/-- No worker and no callback changes an id, or signs anyone in. -/
theorem Moves.peerId_eq {c : ConnPtr} {conn conn' : WebrtcConnection} {es : List Event}
    (h : Moves env c conn conn' es) : conn'.peerId = conn.peerId := by
  cases h <;> rfl

theorem Moves.not_isSignIn {c : ConnPtr} {conn conn' : WebrtcConnection} {es : List Event}
    (h : Moves env c conn conn' es) : ∀ e ∈ es, e.isSignIn = false := by
  cases h with
  | close hpc => cases conn.clientSocket <;> simp [Event.isSignIn]
  | _ => simp [Event.isSignIn]

/-- Replacing a connection by one with the same id shows in no id. -/
theorem map_peerId_update {heap : ConnPtr → Option WebrtcConnection} {c : ConnPtr}
    {conn conn' : WebrtcConnection} (hc : heap c = some conn) (hid : conn'.peerId = conn.peerId)
    (x : ConnPtr) : (Function.update heap c (some conn') x).map (·.peerId)
      = (heap x).map (·.peerId) := by
  by_cases hx : x = c
  · subst hx
    rw [Function.update_self, hc, Option.map_some, Option.map_some, hid]
  · rw [Function.update_of_ne hx]

/-- **One step keeps the registry.** -/
theorem Registry.step {es es' : List Event} {srv srv' : Server} {l : Label}
    (h : Registry es srv) (hstep : Happens env cfg srv l srv' es') :
    Registry (es ++ es') srv' := by
  cases hstep with
  | newConnection s acts hpc => exact h.newConnection
  | cleanupDelete i c conn hpc hi hc hend => exact h.cleanupDelete hi
  | pushMessage s c message acts conn hpc hc =>
    exact h.frame rfl rfl rfl (map_peerId_update hc rfl) (by simp [Event.isSignIn])
  | park s c acts conn hpc hc hlock =>
    exact h.frame rfl rfl rfl (map_peerId_update hc rfl) (by simp [Event.isSignIn])
  | move l c conn conn' es hl hc hmove =>
    exact h.frame rfl rfl rfl (map_peerId_update hc hmove.peerId_eq) hmove.not_isSignIn
  | closeUnlessWaiting s acts hpc =>
    refine h.frame rfl rfl rfl (fun _ => rfl) ?_
    split <;> simp [Event.isSignIn]
  | _ => exact h.frame rfl rfl rfl (fun _ => rfl) (by simp [Event.isSignIn])

/-- **The registry holds in every state of every run**, at either grain. -/
theorem Registry.of_run {buffer : Bytes} {tr : List (Label × List Event)} {srv : Server}
    (h : Run (Server.step env cfg) (Server.start buffer) tr srv) : Registry (events tr) srv := by
  refine h.invariant (fun tr srv => Registry (events tr) srv) (Registry.start buffer) ?_
  intro tr srv l srv' es _ hreg hstep
  rw [events_append, events_singleton]
  exact hreg.step (happens_of_step hstep)

theorem Registry.of_coarse {buffer : Bytes} {tr : List (Label × List Event)} {srv : Server}
    (h : Run (Server.iterate env cfg) (Server.start buffer) tr srv) :
    Registry (events tr) srv := by
  obtain ⟨tr', hrun, htr⟩ := fine_of_coarse h
  rw [← htr]
  exact Registry.of_run hrun

end

/-! ## 3. The cleanup pass -/

namespace Server

/-- `getState() == CONNECTION_STATE_END`. -/
def ended (srv : Server) (c : ConnPtr) : Bool := (srv.heap c).any fun conn => conn.state == .ended

/-- What a cleanup pass is for: the connections that have ended, and only those, are erased and
deleted. -/
def cleaned (srv : Server) : Server :=
  { srv with
    webrtcConnectionList := srv.webrtcConnectionList.filter fun c => !srv.ended c
    heap := fun c => if c ∈ srv.webrtcConnectionList ∧ srv.ended c then none else srv.heap c }

end Server

theorem ended_of_heap {srv srv' : Server} {c : ConnPtr} (h : srv'.heap c = srv.heap c) :
    srv'.ended c = srv.ended c := by
  rw [Server.ended, h, Server.ended]

theorem ended_iff {srv : Server} {c : ConnPtr} :
    srv.ended c = true ↔ ∃ conn, srv.heap c = some conn ∧ conn.state = .ended := by
  rw [Server.ended]
  cases srv.heap c <;> simp

/-- A turn of the loop at a connection that has ended. -/
theorem advance_delete {srv : Server} {front rest : List ConnPtr} {c : ConnPtr}
    (hpc : srv.pc = .cleanup front.length) (hlist : srv.webrtcConnectionList = front ++ c :: rest)
    (hended : srv.ended c = true) :
    srv.advance = some
      ({ srv with
          webrtcConnectionList := front ++ rest
          heap := Function.update srv.heap c none
          pc := .cleanup front.length }, [.delete c]) := by
  obtain ⟨conn, hconn, hstate⟩ := ended_iff.mp hended
  have hget : srv.webrtcConnectionList[front.length]? = some c := by simp [hlist]
  have herase : srv.webrtcConnectionList.eraseIdx front.length = front ++ rest := by
    rw [hlist, List.eraseIdx_append_of_length_le (Nat.le_refl _), Nat.sub_self,
      List.eraseIdx_cons_zero]
  rw [Server.advance, hpc]
  simp only [Server.cleanup, hget, hconn, if_pos hstate, herase]

/-- A turn of the loop at a connection that has not. -/
theorem advance_skip {srv : Server} {front rest : List ConnPtr} {c : ConnPtr}
    {conn : WebrtcConnection} (hpc : srv.pc = .cleanup front.length)
    (hlist : srv.webrtcConnectionList = front ++ c :: rest) (hconn : srv.heap c = some conn)
    (hended : srv.ended c = false) :
    srv.advance = some ({ srv with pc := .cleanup (front.length + 1) }, []) := by
  have hget : srv.webrtcConnectionList[front.length]? = some c := by simp [hlist]
  have hstate : conn.state ≠ .ended := fun hs => by
    rw [ended_iff.mpr ⟨conn, hconn, hs⟩] at hended
    exact absurd hended (by simp)
  rw [Server.advance, hpc]
  simp only [Server.cleanup, hget, hconn, if_neg hstate]

/-- The loop from any iterator on: what is in front of it stays, what is behind it is
filtered.  The induction is on the part of the list behind the iterator, which every turn
shortens, by an erasure or by a step. -/
theorem advances_cleanup : ∀ (rest front : List ConnPtr) (srv : Server),
    srv.pc = .cleanup front.length → srv.webrtcConnectionList = front ++ rest → rest.Nodup →
    (∀ c ∈ rest, ∃ conn, srv.heap c = some conn) →
    Server.advances (rest.length + 1) srv = some
      ({ srv with
          webrtcConnectionList := front ++ rest.filter fun c => !srv.ended c
          heap := fun c => if c ∈ rest ∧ srv.ended c then none else srv.heap c
          pc := .accept },
        (rest.filter srv.ended).map Event.delete)
  | [], front, srv, hpc, hlist, _, _ => by
    have hend : srv.webrtcConnectionList[front.length]? = none := by simp [hlist]
    have hadv : srv.advance = some ({ srv with pc := .accept }, []) := by
      rw [Server.advance, hpc]
      simp only [Server.cleanup, hend]
    simp only [List.length_nil, Server.advances, hadv, Option.map_some]
    simp [← hlist]
  | c :: rest, front, srv, hpc, hlist, hnodup, halive => by
    obtain ⟨hc, hnodup⟩ := List.nodup_cons.mp hnodup
    obtain ⟨conn, hconn⟩ := halive c List.mem_cons_self
    have hne : ∀ x ∈ rest, x ≠ c := fun x hx he => hc (he ▸ hx)
    rw [List.length_cons, Server.advances]
    cases hended : srv.ended c with
    | true =>
      let srv₁ : Server := { srv with
        webrtcConnectionList := front ++ rest
        heap := Function.update srv.heap c none
        pc := .cleanup front.length }
      have hheap : ∀ x ∈ rest, srv₁.heap x = srv.heap x := fun x hx =>
        Function.update_of_ne (hne x hx) _ _
      have hsame : ∀ x ∈ rest, srv₁.ended x = srv.ended x := fun x hx => ended_of_heap (hheap x hx)
      have ih := advances_cleanup rest front srv₁ rfl rfl hnodup fun x hx => by
        rw [hheap x hx]
        exact halive x (List.mem_cons_of_mem _ hx)
      rw [List.filter_congr hsame, List.filter_congr fun x hx => congrArg not (hsame x hx)] at ih
      rw [advance_delete hpc hlist hended]
      simp only [show Server.advances (rest.length + 1) { srv with
        webrtcConnectionList := front ++ rest
        heap := Function.update srv.heap c none
        pc := .cleanup front.length } = _ from ih, Option.map_some]
      have hfinal : (fun x => if x ∈ rest ∧ srv₁.ended x then none else srv₁.heap x)
          = fun x => if x ∈ c :: rest ∧ srv.ended x then none else srv.heap x := by
        funext x
        by_cases hx : x = c
        · subst hx
          simp [hc, hended, srv₁]
        · by_cases hin : x ∈ rest
          · rw [hsame x hin, hheap x hin]
            simp [hin]
          · simp [hx, hin, srv₁]
      rw [hfinal]
      simp [hended, srv₁]
    | false =>
      have hfinal : (fun x => if x ∈ rest ∧ srv.ended x then none else srv.heap x)
          = fun x => if x ∈ c :: rest ∧ srv.ended x then none else srv.heap x := by
        funext x
        by_cases hx : x = c
        · subst hx
          simp [hc, hended]
        · simp [hx]
      have ih : Server.advances (rest.length + 1) { srv with pc := .cleanup (front.length + 1) }
          = some ({ srv with
              webrtcConnectionList := front ++ [c] ++ rest.filter fun x => !srv.ended x
              heap := fun x => if x ∈ rest ∧ srv.ended x then none else srv.heap x
              pc := .accept }, (rest.filter srv.ended).map Event.delete) :=
        advances_cleanup rest (front ++ [c]) _ (by simp) (by simp [hlist]) hnodup
          fun x hx => halive x (List.mem_cons_of_mem _ hx)
      rw [advance_skip hpc hlist hconn hended]
      simp only [ih, Option.map_some, hfinal]
      simp [hended]

/-- **A cleanup pass** always goes through, and does what it is for. -/
theorem Registry.iterate_idle {env : Env} {cfg : Http.Config} {es : List Event} {srv : Server}
    (h : Registry es srv) (hpc : srv.pc = .accept) :
    srv.iterate env cfg .idle = some (srv.cleaned,
      (srv.webrtcConnectionList.filter srv.ended).map Event.delete) := by
  have hpass := advances_cleanup srv.webrtcConnectionList [] { srv with pc := .cleanup 0 } rfl rfl
    h.nodup fun c hc => (h.isSome_heap hc).imp fun _ hconn => hconn.1
  simp only [Server.iterate, Server.step, if_pos hpc]
  rw [show Server.left { srv with pc := .cleanup 0 } = srv.webrtcConnectionList.length + 1 from rfl,
    hpass, Option.map_some, List.nil_append, ← hpc]
  rfl

/-- Between iterations the main loop is at `accept`. -/
theorem pc_of_coarse {env : Env} {cfg : Http.Config} {buffer : Bytes}
    {tr : List (Label × List Event)} {srv : Server}
    (h : Run (Server.iterate env cfg) (Server.start buffer) tr srv) : srv.pc = .accept := by
  refine h.invariant (fun _ srv => srv.pc = .accept) rfl ?_
  intro tr srv l srv' es hrun hpc hstep
  cases l with
  | main => exact absurd hstep (by simp [Server.iterate])
  | idle =>
    rw [(Registry.of_coarse hrun).iterate_idle hpc] at hstep
    obtain ⟨rfl, -⟩ := Prod.mk.inj (Option.some.inj hstep)
    exact hpc
  | accept client =>
    cases (served_of_iterate hstep).2 with
    | rejected => rfl
    | handled _ _ _ _ _ hhandled => cases hhandled <;> rfl
  | worker c act =>
    obtain ⟨conn, conn', -, -, rfl⟩ := moves_of_iterate (.inl ⟨act, rfl⟩) hstep
    exact hpc
  | callback c cb =>
    obtain ⟨conn, conn', -, -, rfl⟩ := moves_of_iterate (.inr ⟨cb, rfl⟩) hstep
    exact hpc

/-! ## 4. Routing -/

/-- The connection that a request with this pragma is for: it is still listed, and it was given
the id at its `signIn`. -/
def Addressee (es : List Event) (srv : Server) (pragma : ℕ) (c : ConnPtr) : Prop :=
  c ∈ srv.webrtcConnectionList ∧ Event.signIn c pragma ∈ es

instance (es : List Event) (srv : Server) (pragma : ℕ) (c : ConnPtr) :
    Decidable (Addressee es srv pragma c) :=
  inferInstanceAs (Decidable (_ ∧ _))

/-- The search over the list, when everything listed is there. -/
theorem findPeer_eq {srv : Server} (pragma : ℕ) : ∀ {list : List ConnPtr},
    (∀ c ∈ list, ∃ conn, srv.heap c = some conn ∧ conn.peerId = idOf c) →
    srv.findPeer pragma list = .ok (list.find? fun c => idOf c = pragma) := by
  intro list
  induction list with
  | nil =>
    intro _
    rfl
  | cons c list ih =>
    intro h
    obtain ⟨conn, hconn, hid⟩ := h c List.mem_cons_self
    have htail := ih fun x hx => h x (List.mem_cons_of_mem _ hx)
    simp only [Server.findPeer, hconn, hid]
    by_cases hc : idOf c = pragma
    · rw [if_pos hc, List.find?_cons_of_pos (by simpa using hc)]
    · rw [if_neg hc, htail, List.find?_cons_of_neg (by simpa using hc)]

namespace Registry

variable {es : List Event} {srv : Server}

/-- Below the wrap of the counter, ids are distinct. -/
theorem idOf_inj (h : Registry es srv) (hcount : es.countP Event.isSignIn < 2 ^ 31)
    {c c' : ConnPtr} (hc : c < srv.nextConn) (hc' : c' < srv.nextConn) (hid : idOf c = idOf c') :
    c = c' := by
  have hnext : srv.nextConn < 2 ^ 31 := h.count ▸ hcount
  rw [idOf_of_lt (Nat.lt_trans hc hnext), idOf_of_lt (Nat.lt_trans hc' hnext)] at hid
  exact Nat.succ.inj hid

theorem findPeer_ok (h : Registry es srv) (pragma : ℕ) :
    srv.findPeer pragma srv.webrtcConnectionList
      = .ok (srv.webrtcConnectionList.find? fun c => idOf c = pragma) :=
  findPeer_eq pragma fun _ => h.isSome_heap

/-- The connection the search finds is listed, and was given the id at its `signIn`. -/
theorem of_findPeer (h : Registry es srv) {pragma : ℕ} {c : ConnPtr}
    (hfind : srv.findPeer pragma srv.webrtcConnectionList = .ok (some c)) :
    Addressee es srv pragma c := by
  rw [h.findPeer_ok] at hfind
  have hfound := Except.ok.inj hfind
  have hmem := List.mem_of_find?_eq_some hfound
  have hid : idOf c = pragma := by simpa using List.find?_some hfound
  exact ⟨hmem, (h.signedIn c pragma).mpr ⟨h.allocated c hmem, hid.symm⟩⟩

/-- **The search finds the one connection that was given the id**, if it is listed. -/
theorem findPeer_iff (h : Registry es srv) (hcount : es.countP Event.isSignIn < 2 ^ 31)
    {pragma : ℕ} {found : Option ConnPtr}
    (hfind : srv.findPeer pragma srv.webrtcConnectionList = .ok found) (c : ConnPtr) :
    Addressee es srv pragma c ↔ found = some c := by
  constructor
  · rintro ⟨hmem, hin⟩
    obtain ⟨hlt, hid⟩ := (h.signedIn c pragma).mp hin
    cases found with
    | none =>
      rw [h.findPeer_ok] at hfind
      have hnone := List.find?_eq_none.mp (Except.ok.inj hfind) c hmem
      exact absurd hid.symm (by simpa using hnone)
    | some c' =>
      obtain ⟨-, hin'⟩ := h.of_findPeer hfind
      obtain ⟨hlt', hid'⟩ := (h.signedIn c' pragma).mp hin'
      rw [h.idOf_inj hcount hlt' hlt (hid'.symm.trans hid)]
  · rintro rfl
    exact h.of_findPeer hfind

end Registry

/-! ## 5. What the registry is for -/

/-- The peer ids, in list order. -/
def Server.peerIds (srv : Server) : List ℕ :=
  srv.webrtcConnectionList.filterMap fun c => (srv.heap c).map (·.peerId)

/-- Every listed pointer is good; the ids increase strictly, and all of them have been handed
out by the counter. -/
structure Server.InOrder (srv : Server) : Prop where
  alive : ∀ c ∈ srv.webrtcConnectionList, (srv.heap c).isSome
  increasing : srv.peerIds.Pairwise (· < ·)
  range : ∀ id ∈ srv.peerIds, 1 ≤ id ∧ id < srv.peerId

/-- The effect of a `message` or a `wait` on every connection there is. -/
structure Routed (es : List Event) (srv : Server) (client : Client) (srv' : Server) : Prop where
  message : ∀ buffer httpReq,
    Http.readRequest srv.httpRwBuffer client.arrivals = .ok (buffer, true, httpReq) →
    httpReq.url.cmd = ascii "message" →
    ∃ text, ∀ c, srv'.heap c = if Addressee es srv httpReq.pragma c then
      (srv.heap c).map fun conn => { conn with queue := conn.queue ++ [text] } else srv.heap c
  wait : ∀ buffer httpReq,
    Http.readRequest srv.httpRwBuffer client.arrivals = .ok (buffer, true, httpReq) →
    httpReq.url.cmd = ascii "wait" →
    ∀ c, srv'.heap c = if Addressee es srv httpReq.pragma c then
      (srv.heap c).map fun conn => { conn with clientSocket := some srv.nextSock } else srv.heap c

/-- The registry of a server that has come through the events `es`. -/
structure Managed (env : Env) (cfg : Http.Config) (es : List Event) (srv : Server) : Prop where
  inOrder : srv.InOrder
  /-- No id is given twice, and 0, which stands for a missing pragma, is given to nobody. -/
  unique : ∀ c c' id, Event.signIn c id ∈ es → Event.signIn c' id ∈ es → c = c'
  nonzero : ∀ c, Event.signIn c 0 ∉ es
  /-- A cleanup pass goes through, and removes exactly the connections that have ended. -/
  pass : ∃ es', srv.iterate env cfg .idle = some (srv.cleaned, es')
  /-- Nothing else removes a connection. -/
  leaves : ∀ l srv' es', srv.iterate env cfg l = some (srv', es') →
    ∀ c ∈ srv.webrtcConnectionList, c ∉ srv'.webrtcConnectionList → l = .idle ∧ srv.ended c
  routed : ∀ client srv' es', srv.iterate env cfg (.accept client) = some (srv', es') →
    Routed es srv client srv'
  /-- A `message` that has a body is handled, and so is a `wait` unless the worker of its
  addressee holds the mutex. -/
  handled : ∀ client buffer httpReq,
    Http.readRequest srv.httpRwBuffer client.arrivals = .ok (buffer, true, httpReq) →
    (httpReq.url.cmd = ascii "message" ∧ httpReq.data ≠ none ∨
      httpReq.url.cmd = ascii "wait" ∧ ∀ c conn, Addressee es srv httpReq.pragma c →
        srv.heap c = some conn → ¬ conn.Locked) →
    ∃ srv' es', srv.iterate env cfg (.accept client) = some (srv', es')

namespace Registry

variable {env : Env} {cfg : Http.Config} {es es' : List Event} {srv srv' : Server}
  {client : Client}

theorem peerIds_eq (h : Registry es srv) (hcount : es.countP Event.isSignIn < 2 ^ 31) :
    srv.peerIds = srv.webrtcConnectionList.map (· + 1) := by
  rw [Server.peerIds, ← List.filterMap_eq_map]
  refine List.filterMap_congr fun c hc => ?_
  have hlt : c < 2 ^ 31 := Nat.lt_trans (h.allocated c hc) (h.count ▸ hcount)
  rw [h.ids, if_pos hc, idOf_of_lt hlt]
  rfl

theorem inOrder (h : Registry es srv) (hcount : es.countP Event.isSignIn < 2 ^ 31) :
    srv.InOrder where
  alive c hc := by
    obtain ⟨conn, hconn, -⟩ := h.isSome_heap hc
    rw [hconn]
    rfl
  increasing := by
    rw [h.peerIds_eq hcount]
    exact h.ordered.map _ fun _ _ hlt => Nat.succ_lt_succ hlt
  range id hid := by
    rw [h.peerIds_eq hcount] at hid
    obtain ⟨c, hc, rfl⟩ := List.mem_map.mp hid
    have hnext : srv.nextConn < 2 ^ 31 := h.count ▸ hcount
    rw [h.counter, idOf_of_lt hnext]
    exact ⟨Nat.le_add_left 1 c, Nat.succ_lt_succ (h.allocated c hc)⟩

theorem leaves (h : Registry es srv) {l : Label}
    (hpc : srv.pc = .accept) (hstep : srv.iterate env cfg l = some (srv', es'))
    {c : ConnPtr} (hc : c ∈ srv.webrtcConnectionList) (hnot : c ∉ srv'.webrtcConnectionList) :
    l = .idle ∧ srv.ended c := by
  cases l with
  | main => exact absurd hstep (by simp [Server.iterate])
  | idle =>
    refine ⟨rfl, ?_⟩
    rw [h.iterate_idle hpc] at hstep
    obtain ⟨rfl, -⟩ := Prod.mk.inj (Option.some.inj hstep)
    by_contra hend
    exact hnot (List.mem_filter.mpr ⟨hc, by simpa using hend⟩)
  | accept client =>
    -- the list is kept, or appended to
    cases (served_of_iterate hstep).2 with
    | rejected => exact absurd hc hnot
    | handled _ _ _ _ _ hhandled =>
      cases hhandled with
      | signIn => exact absurd (List.mem_append_left _ hc) hnot
      | _ => exact absurd hc hnot
  | worker c' act =>
    obtain ⟨conn, conn', -, -, rfl⟩ := moves_of_iterate (.inl ⟨act, rfl⟩) hstep
    exact absurd hc hnot
  | callback c' cb =>
    obtain ⟨conn, conn', -, -, rfl⟩ := moves_of_iterate (.inr ⟨cb, rfl⟩) hstep
    exact absurd hc hnot

/-- One connection is replaced: the one the search found. -/
theorem update_addressee (h : Registry es srv) (hcount : es.countP Event.isSignIn < 2 ^ 31)
    {pragma : ℕ} {c : ConnPtr} {conn : WebrtcConnection}
    (hfind : srv.findPeer pragma srv.webrtcConnectionList = .ok (some c))
    (hc : srv.heap c = some conn) (f : WebrtcConnection → WebrtcConnection) (x : ConnPtr) :
    Function.update srv.heap c (some (f conn)) x
      = if Addressee es srv pragma x then (srv.heap x).map f else srv.heap x := by
  by_cases hx : x = c
  · subst hx
    rw [Function.update_self, if_pos ((h.findPeer_iff hcount hfind x).mpr rfl), hc, Option.map_some]
  · have hnot : ¬ Addressee es srv pragma x := fun ha =>
      hx (Option.some.inj ((h.findPeer_iff hcount hfind x).mp ha)).symm
    rw [Function.update_of_ne hx, if_neg hnot]

/-- Nothing is replaced when the search finds nobody. -/
theorem not_addressee (h : Registry es srv) (hcount : es.countP Event.isSignIn < 2 ^ 31)
    {pragma : ℕ} (hfind : srv.findPeer pragma srv.webrtcConnectionList = .ok none) (x : ConnPtr) :
    ¬ Addressee es srv pragma x := fun ha =>
  absurd ((h.findPeer_iff hcount hfind x).mp ha) (by simp)

theorem routed (h : Registry es srv) (hcount : es.countP Event.isSignIn < 2 ^ 31)
    (hstep : srv.iterate env cfg (.accept client) = some (srv', es')) :
    Routed es srv client srv' where
  message buffer httpReq hread hcmd := by
    obtain ⟨hfind, buffer', writes, rfl, -⟩ |
      ⟨buffer', writes, c, conn, data, hfind, hc, -, rfl, -⟩ :=
      (handled_of_iterate hread hstep).of_message hcmd
    · exact ⟨[], fun x => (if_neg (h.not_addressee hcount hfind x)).symm⟩
    · exact ⟨_, h.update_addressee hcount hfind hc fun conn => conn.pushMessage _⟩
  wait buffer httpReq hread hcmd := by
    obtain ⟨hfind, buffer', rfl, -⟩ | ⟨buffer', c, conn, hfind, hc, rfl, -⟩ :=
      (handled_of_iterate hread hstep).of_wait hcmd
    · exact fun x => (if_neg (h.not_addressee hcount hfind x)).symm
    · exact h.update_addressee hcount hfind hc fun conn =>
        { conn with clientSocket := some srv.nextSock }

theorem handled (h : Registry es srv) (hpc : srv.pc = .accept) {buffer : Bytes}
    {httpReq : Http.HttpReq}
    (hread : Http.readRequest srv.httpRwBuffer client.arrivals = .ok (buffer, true, httpReq))
    (hready : httpReq.url.cmd = ascii "message" ∧ httpReq.data ≠ none ∨
      httpReq.url.cmd = ascii "wait" ∧ ∀ c conn, Addressee es srv httpReq.pragma c →
        srv.heap c = some conn → ¬ conn.Locked) :
    ∃ srv' es', srv.iterate env cfg (.accept client) = some (srv', es') := by
  have hfind := h.findPeer_ok httpReq.pragma
  generalize srv.webrtcConnectionList.find? (fun c => idOf c = httpReq.pragma) = found at hfind
  have hthere : ∀ c, found = some c → ∃ conn, srv.heap c = some conn := by
    rintro c rfl
    exact (h.isSome_heap (h.of_findPeer hfind).1).imp fun _ hconn => hconn.1
  rcases hready with ⟨hcmd, hdata⟩ | ⟨hcmd, hfree⟩
  · cases found with
    | none => exact iterate_messageUnknown hpc hread hcmd hfind
    | some c =>
      obtain ⟨conn, hc⟩ := hthere c rfl
      obtain ⟨data, hdata⟩ := Option.ne_none_iff_exists'.mp hdata
      obtain ⟨srv', writes, hstep⟩ := iterate_message hpc hread hcmd hfind hc hdata
      exact ⟨srv', _, hstep⟩
  · refine iterate_wait hpc hread hcmd hfind ?_
    rintro c rfl
    obtain ⟨conn, hc⟩ := hthere c rfl
    exact ⟨conn, hc, hfree c conn (h.of_findPeer hfind) hc⟩

end Registry

/-- **The registry and the routing**, in every state of every run with fewer than `2 ^ 31`
sign-ins, whatever requests came and in whatever order. -/
theorem managed_of_run {env : Env} {cfg : Http.Config} {buffer : Bytes}
    {tr : List (Label × List Event)} {srv : Server}
    (hrun : Run (Server.iterate env cfg) (Server.start buffer) tr srv)
    (hcount : (events tr).countP Event.isSignIn < 2 ^ 31) : Managed env cfg (events tr) srv := by
  have h : Registry (events tr) srv := Registry.of_coarse hrun
  have hpc : srv.pc = .accept := pc_of_coarse hrun
  exact {
    inOrder := h.inOrder hcount
    unique := fun c c' id hc hc' => by
      obtain ⟨hlt, hid⟩ := (h.signedIn c id).mp hc
      obtain ⟨hlt', hid'⟩ := (h.signedIn c' id).mp hc'
      exact h.idOf_inj hcount hlt hlt' (hid.symm.trans hid')
    nonzero := fun c hc => by
      obtain ⟨hlt, hid⟩ := (h.signedIn c 0).mp hc
      have hsmall : c < 2 ^ 31 := Nat.lt_trans hlt (h.count ▸ hcount)
      rw [idOf_of_lt hsmall] at hid
      exact absurd hid.symm (Nat.succ_ne_zero c)
    pass := ⟨_, h.iterate_idle hpc⟩
    leaves := fun _ _ _ hstep _ hc hnot => h.leaves hpc hstep hc hnot
    routed := fun _ _ _ hstep => h.routed hcount hstep
    handled := fun _ _ _ hread hready => h.handled hpc hread hready }

def sampleConfig : Http.Config := { serverIp := ascii "127.0.0.1", httpsPort := 443, log := 0 }

def sampleStart : Server := Server.start (List.replicate Http.rwBufferSize 0)

/-- A client that sends a request without a body, and waits. -/
def sampleClient (cmd pragma : String) : Client :=
  { arrivals := [.data (ascii "GET /" ++ ascii cmd ++ ascii " HTTP/1.1\r\nPragma: " ++ ascii pragma
      ++ ascii "\r\n\r\n"), .timeout]
    page := none
    icon := ⟨none, none⟩ }

/-- Two sign-ins, with a `wait` and a cleanup pass between them. -/
theorem managed_sample : ∃ tr srv, Run (Server.iterate deafEnv sampleConfig) sampleStart tr srv ∧
    srv.peerIds = [1, 2] ∧ Managed deafEnv sampleConfig (events tr) srv := by
  obtain ⟨tr, srv, hrun, hp⟩ := exists_run (Server.iterate deafEnv sampleConfig) sampleStart
    [.accept (sampleClient "signIn" "0"), .accept (sampleClient "wait" "1"), .idle,
      .accept (sampleClient "signIn" "0")]
    (fun tr srv => decide ((events tr).countP Event.isSignIn < 2 ^ 31 ∧ srv.peerIds = [1, 2]))
    (by decide +kernel)
  obtain ⟨hcount, hids⟩ := of_decide_eq_true hp
  exact ⟨tr, srv, hrun, hids, managed_of_run hrun hcount⟩

end Reflector
