/-
# What becomes of an accepted socket

At the end of an iteration the socket of a parsed request should be parked for a worker, or
answered and closed.  Two things stand in the way.  `closeWait` is set to false by the first
`wait` that finds its peer, and nothing ever sets it back, so from then on NO socket of the main
loop is closed (`closeWait_iff`).  And two branches write nothing at all: `signOut`, and `wait`
for a peer that is not listed.

`disposed_iff` says that these are the only ways a socket goes astray.
-/
import Reflector.Server.Sockets

namespace Reflector

open Base Signaling

/-! ## 1. The flag that outlives its iteration -/

def Event.isPark : Event → Bool
  | .park _ _ => true
  | _ => false

section

variable {env : Env} {cfg : Http.Config} {srv srv' : Server} {es : List Event}

theorem Moves.not_isPark {c : ConnPtr} {conn conn' : WebrtcConnection}
    (h : Moves env c conn conn' es) : ∀ e ∈ es, e.isPark = false := by
  cases h with
  | close hpc => cases conn.clientSocket <;> simp [Event.isPark]
  | _ => simp [Event.isPark]

theorem closing_not_isPark (srv : Server) : ∀ e ∈ srv.closing, e.isPark = false := by
  unfold Server.closing
  split <;> simp [Event.isPark]

/-- A parsed request clears the flag exactly if it parks its socket. -/
theorem Handled.closeWait {buffer : Bytes} {httpReq : Http.HttpReq}
    (h : Handled srv buffer httpReq srv' es) :
    srv'.closeWait = (srv.closeWait && !es.any Event.isPark) := by
  have hclosing : srv.closing.any Event.isPark = false := by
    rw [List.any_eq_false]
    exact fun e he => by simp [closing_not_isPark srv e he]
  cases h <;> simp [Event.isPark, Server.after, Server.setConn, hclosing]

/-- One coarse step clears the flag exactly if it parks a socket. -/
theorem closeWait_step {l : Label} (hreg : ∃ es₀, Registry es₀ srv) (hpc : srv.pc = .accept)
    (h : srv.iterate env cfg l = some (srv', es)) :
    srv'.closeWait = (srv.closeWait && !es.any Event.isPark) := by
  cases l with
  | main => exact absurd h (by simp [Server.iterate])
  | idle =>
    obtain ⟨es₀, hreg⟩ := hreg
    rw [hreg.iterate_idle hpc] at h
    obtain ⟨rfl, rfl⟩ := Prod.mk.inj (Option.some.inj h)
    simp [Server.cleaned, Event.isPark, Function.comp_def]
  | accept client =>
    cases (served_of_iterate h).2 with
    | rejected => simp [Event.isPark, Server.after]
    | handled _ _ _ _ _ hhandled => exact hhandled.closeWait
  | worker c act =>
    obtain ⟨conn, conn', -, hmove, rfl⟩ := moves_of_iterate (.inl ⟨act, rfl⟩) h
    have hnone : es.any Event.isPark = false :=
      List.any_eq_false.mpr fun e he => by simp [hmove.not_isPark e he]
    simp [hnone]
  | callback c cb =>
    obtain ⟨conn, conn', -, hmove, rfl⟩ := moves_of_iterate (.inr ⟨cb, rfl⟩) h
    have hnone : es.any Event.isPark = false :=
      List.any_eq_false.mpr fun e he => by simp [hmove.not_isPark e he]
    simp [hnone]

/-- **`closeWait` is true exactly until the first socket is parked.** -/
theorem closeWait_iff {buffer : Bytes} {tr : List (Label × List Event)}
    (hrun : Run (Server.iterate env cfg) (Server.start buffer) tr srv) :
    srv.closeWait = true ↔ ∀ c s, Event.park c s ∉ events tr := by
  have hflag : srv.closeWait = !(events tr).any Event.isPark := by
    refine hrun.invariant (fun tr srv => srv.closeWait = !(events tr).any Event.isPark) rfl ?_
    intro tr srv l srv' es hr ih hstep
    rw [closeWait_step ⟨_, Registry.of_coarse hr⟩ (pc_of_coarse hr) hstep, ih, events_append,
      events_singleton, List.any_append, Bool.not_or]
  rw [hflag, Bool.not_eq_true', List.any_eq_false]
  constructor
  · exact fun h c s hin => h _ hin rfl
  · intro h e he hpark
    cases e with
    | park c s => exact h c s he
    | _ => exact absurd hpark (by simp [Event.isPark])

end

/-! ## 2. Disposal -/

/-- What an iteration did to a socket. -/
def history (s : SockPtr) (es : List Event) : List Event :=
  es.filter fun e => e.socket == some s

/-- The socket was parked, on the listed connection with this id. -/
def ParkedFor (srv : Server) (pragma : ℕ) (s : SockPtr) (es : List Event) : Prop :=
  ∃ c ∈ srv.webrtcConnectionList, (srv.heap c).map (·.peerId) = some pragma ∧
    history s es = [.park c s]

/-- One response was written to the socket, and then it was closed. -/
def Answered (s : SockPtr) (es : List Event) : Prop :=
  ∃ writes, history s es = [.respond s writes, .close s]

/-- **The socket of an iteration is disposed of**, in one of two ways. -/
def Disposed (srv : Server) (pragma : ℕ) (s : SockPtr) (es : List Event) : Prop :=
  Xor (ParkedFor srv pragma s es) (Answered s es)

section

variable {env : Env} {cfg : Http.Config} {srv srv' : Server} {es : List Event} {pragma : ℕ}

/-- The two ways exclude each other. -/
theorem disposed_eq_or {s : SockPtr} :
    Disposed srv pragma s es ↔ ParkedFor srv pragma s es ∨ Answered s es := by
  refine xor_iff_or_and_not_and _ _ |>.trans (and_iff_left ?_)
  rintro ⟨⟨c, -, -, hpark⟩, ⟨writes, hanswer⟩⟩
  rw [hpark] at hanswer
  exact absurd hanswer (by simp)

theorem history_closing (srv : Server) : history srv.nextSock srv.closing = srv.closing := by
  unfold Server.closing
  split <;> simp [history, Event.socket]

theorem history_respond (srv : Server) (writes : List Bytes) :
    history srv.nextSock (.respond srv.nextSock writes :: srv.closing)
      = .respond srv.nextSock writes :: srv.closing := by
  rw [history, List.filter_cons_of_pos (by simp [Event.socket]), ← history, history_closing]

/-- An answered socket is closed if the flag says so. -/
theorem disposed_of_respond {writes : List Bytes}
    (h : history srv.nextSock es = .respond srv.nextSock writes :: srv.closing) :
    Disposed srv pragma srv.nextSock es ↔ srv.closeWait = true := by
  rw [disposed_eq_or]
  constructor
  · rintro (⟨c, -, -, hpark⟩ | ⟨writes', hanswer⟩)
    · rw [h] at hpark
      exact absurd hpark (by simp)
    · rw [h] at hanswer
      by_contra hflag
      simp [Server.closing, hflag] at hanswer
  · intro hflag
    exact .inr ⟨writes, by simp [h, Server.closing, hflag]⟩

/-- A socket that gets no answer is not disposed of, closed or not. -/
theorem not_disposed_of_silent (h : es = srv.closing) : ¬ Disposed srv pragma srv.nextSock es := by
  rw [disposed_eq_or, ParkedFor, Answered, h, history_closing]
  unfold Server.closing
  rintro (⟨c, -, -, hpark⟩ | ⟨writes, hanswer⟩)
  · split at hpark <;> simp at hpark
  · split at hanswer <;> simp at hanswer

theorem Handled.disposed_iff_closeWait {buffer : Bytes} {httpReq : Http.HttpReq}
    (h : Handled srv buffer httpReq srv' es) :
    Disposed srv httpReq.pragma srv.nextSock es ↔
      (httpReq.url.cmd = ascii "wait" ∧
        ∃ c, srv.findPeer httpReq.pragma srv.webrtcConnectionList = .ok (some c)) ∨
      srv.closeWait = true ∧ httpReq.url.cmd ≠ ascii "signOut" ∧
        httpReq.url.cmd ≠ ascii "wait" := by
  -- of the two conditions only the second concerns a request that is not a `wait`
  have hrest : ∀ writes, history srv.nextSock es = .respond srv.nextSock writes :: srv.closing →
      httpReq.url.cmd ≠ ascii "signOut" → httpReq.url.cmd ≠ ascii "wait" →
      (Disposed srv httpReq.pragma srv.nextSock es ↔
        (httpReq.url.cmd = ascii "wait" ∧
          ∃ c, srv.findPeer httpReq.pragma srv.webrtcConnectionList = .ok (some c)) ∨
        srv.closeWait = true ∧ httpReq.url.cmd ≠ ascii "signOut" ∧
          httpReq.url.cmd ≠ ascii "wait") := by
    intro writes hhist hout hwait
    rw [disposed_of_respond hhist]
    simp [hout, hwait]
  cases h with
  | reply buffer' writes hcmd =>
    exact hrest writes (history_respond srv writes) (fun h => hcmd (.inr (.inl h)))
      (fun h => hcmd (.inr (.inr (.inr h))))
  | signIn buffer' writes hcmd =>
    refine hrest writes ?_ (by rw [hcmd]; decide) (by rw [hcmd]; decide)
    exact history_respond srv writes
  | messageUnknown buffer' writes hcmd hfind =>
    exact hrest writes (history_respond srv writes) (by rw [hcmd]; decide) (by rw [hcmd]; decide)
  | message buffer' writes c conn data hcmd hfind hc hdata =>
    refine hrest writes ?_ (by rw [hcmd]; decide) (by rw [hcmd]; decide)
    exact history_respond srv writes
  | signOut buffer' hcmd =>
    refine iff_of_false (not_disposed_of_silent rfl) ?_
    rw [hcmd]
    rintro (⟨h, -⟩ | ⟨-, h, -⟩)
    · exact absurd h (by decide)
    · exact h rfl
  | waitUnknown buffer' hcmd hfind =>
    refine iff_of_false (not_disposed_of_silent rfl) ?_
    rintro (⟨-, c, h⟩ | ⟨-, -, h⟩)
    · rw [hfind] at h
      exact absurd h (by simp)
    · exact h hcmd
  | wait buffer' c conn hcmd hfind hc hlock =>
    refine iff_of_true (disposed_eq_or.mpr (.inl ?_)) (.inl ⟨hcmd, c, hfind⟩)
    obtain ⟨hmem, hid⟩ := findPeer_some hfind
    exact ⟨c, hmem, hid, by simp [history, Event.socket]⟩

/-- **When the socket of a parsed request is disposed of**: the request is a `wait` whose peer
is listed; or no socket was ever parked before, and the request is neither a `signOut` nor a
`wait`. -/
theorem disposed_iff {buffer : Bytes} {tr : List (Label × List Event)} {client : Client}
    {httpRwBuffer : Bytes} {httpReq : Http.HttpReq}
    (hrun : Run (Server.iterate env cfg) (Server.start buffer) tr srv)
    (hread : Http.readRequest srv.httpRwBuffer client.arrivals = .ok (httpRwBuffer, true, httpReq))
    (hstep : srv.iterate env cfg (.accept client) = some (srv', es)) :
    Disposed srv httpReq.pragma srv.nextSock es ↔
      (httpReq.url.cmd = ascii "wait" ∧
        ∃ c, srv.findPeer httpReq.pragma srv.webrtcConnectionList = .ok (some c)) ∨
      (∀ c s, Event.park c s ∉ events tr) ∧
        httpReq.url.cmd ≠ ascii "signOut" ∧ httpReq.url.cmd ≠ ascii "wait" := by
  rw [(handled_of_iterate hread hstep).disposed_iff_closeWait, closeWait_iff hrun]

end

/-- The next request is read, is this command, and is handled. -/
def sampleHandled (client : Client) (cmd : Bytes) (srv : Server) : Bool :=
  ((Http.readRequest srv.httpRwBuffer client.arrivals).toOption.any fun x =>
    x.2.1 && decide (x.2.2.url.cmd = cmd)) &&
    (srv.iterate deafEnv sampleConfig (.accept client)).isSome

theorem of_sampleHandled (client : Client) (cmd : Bytes) (srv : Server)
    (h : sampleHandled client cmd srv = true) : ∃ httpRwBuffer httpReq srv' es,
      Http.readRequest srv.httpRwBuffer client.arrivals = .ok (httpRwBuffer, true, httpReq) ∧
      httpReq.url.cmd = cmd ∧
      srv.iterate deafEnv sampleConfig (.accept client) = some (srv', es) := by
  obtain ⟨hread, hstep⟩ := Bool.and_eq_true_iff.mp h
  obtain ⟨⟨srv', es⟩, hstep⟩ := Option.isSome_iff_exists.mp hstep
  cases hr : Http.readRequest srv.httpRwBuffer client.arrivals with
  | error e =>
    rw [hr] at hread
    exact absurd hread (by simp [Except.toOption])
  | ok x =>
    obtain ⟨buffer, parsingDone, httpReq⟩ := x
    rw [hr] at hread
    obtain ⟨rfl, hcmd⟩ : parsingDone = true ∧ httpReq.url.cmd = cmd := by
      simpa [Except.toOption] using hread
    exact ⟨buffer, httpReq, srv', es, rfl, hcmd, hstep⟩

/-- On a new server a `signIn` is answered, and its socket closed. -/
theorem disposed_sample : ∃ httpRwBuffer httpReq srv' es,
    Http.readRequest sampleStart.httpRwBuffer (sampleClient "signIn" "0").arrivals
      = .ok (httpRwBuffer, true, httpReq) ∧
    sampleStart.iterate deafEnv sampleConfig (.accept (sampleClient "signIn" "0"))
      = some (srv', es) ∧
    Disposed sampleStart httpReq.pragma sampleStart.nextSock es := by
  obtain ⟨buffer, httpReq, srv', es, hread, hcmd, hstep⟩ :=
    of_sampleHandled (sampleClient "signIn" "0") (ascii "signIn") sampleStart (by decide +kernel)
  refine ⟨buffer, httpReq, srv', es, hread, hstep,
    (disposed_iff .refl hread hstep).mpr (.inr ⟨by simp, ?_, ?_⟩)⟩
  · rw [hcmd]; decide
  · rw [hcmd]; decide

/-- After one `wait` has been parked, a `signIn` is answered and its socket stays open. -/
theorem not_disposed_after_wait : ∃ tr srv client httpRwBuffer httpReq srv' es,
    Run (Server.iterate deafEnv sampleConfig) sampleStart tr srv ∧
    Http.readRequest srv.httpRwBuffer client.arrivals = .ok (httpRwBuffer, true, httpReq) ∧
    srv.iterate deafEnv sampleConfig (.accept client) = some (srv', es) ∧
    ¬ Disposed srv httpReq.pragma srv.nextSock es := by
  obtain ⟨tr, srv, hrun, hp⟩ := exists_run (Server.iterate deafEnv sampleConfig) sampleStart
    [.accept (sampleClient "signIn" "0"), .accept (sampleClient "wait" "1")]
    (fun tr srv => decide (Event.park 0 1 ∈ events tr) &&
      sampleHandled (sampleClient "signIn" "0") (ascii "signIn") srv) (by decide +kernel)
  obtain ⟨hpark, hhandled⟩ := Bool.and_eq_true_iff.mp hp
  obtain ⟨buffer, httpReq, srv', es, hread, hcmd, hstep⟩ := of_sampleHandled _ _ _ hhandled
  refine ⟨tr, srv, _, buffer, httpReq, srv', es, hrun, hread, hstep, fun hdisposed => ?_⟩
  rcases (handled_of_iterate hread hstep).disposed_iff_closeWait.mp hdisposed with
    ⟨hwait, -⟩ | ⟨hflag, -, -⟩
  · rw [hcmd] at hwait
    exact absurd hwait (by decide)
  · exact (closeWait_iff hrun).mp hflag 0 1 (of_decide_eq_true hpark)

end Reflector
