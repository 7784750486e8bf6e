/-
# The requests, one by one

`Dispatched` lists the branches of the dispatcher with the statements each of them comes to,
and `Served` what one whole iteration makes of the server.  The socket's fate is the same in
every branch but one: whatever was or was not written to it, it is closed exactly if
`closeWait` still has its initial value.
-/
import Reflector.Server.Steps

namespace Reflector

open Base Signaling

/-! ## 1. The branches of the dispatcher -/

/-- The commands whose branch does more than reply. -/
def Special (cmd : Bytes) : Prop :=
  cmd = ascii "signIn" ∨ cmd = ascii "signOut" ∨ cmd = ascii "message" ∨ cmd = ascii "wait"

/-- What a parsed request comes to. -/
inductive Dispatched (srv : Server) (buffer : Bytes) (httpReq : Http.HttpReq) :
    List MainAct → Prop
  | reply (writes : List Bytes) (hcmd : ¬ Special httpReq.url.cmd) :
      Dispatched srv buffer httpReq [.respond writes]
  | signIn (writes : List Bytes) (hcmd : httpReq.url.cmd = ascii "signIn") :
      Dispatched srv buffer httpReq [.newConnection, .respond writes]
  | signOut (hcmd : httpReq.url.cmd = ascii "signOut") : Dispatched srv buffer httpReq []
  | messageUnknown (writes : List Bytes) (hcmd : httpReq.url.cmd = ascii "message")
      (hfind : srv.findPeer httpReq.pragma srv.webrtcConnectionList = .ok none) :
      Dispatched srv buffer httpReq [.respond writes]
  | message (writes : List Bytes) (c : ConnPtr) (data : ℕ)
      (hcmd : httpReq.url.cmd = ascii "message")
      (hfind : srv.findPeer httpReq.pragma srv.webrtcConnectionList = .ok (some c))
      (hdata : httpReq.data = some data) :
      Dispatched srv buffer httpReq [.pushMessage c (cstr (buffer.drop data)), .respond writes]
  | waitUnknown (hcmd : httpReq.url.cmd = ascii "wait")
      (hfind : srv.findPeer httpReq.pragma srv.webrtcConnectionList = .ok none) :
      Dispatched srv buffer httpReq []
  | wait (c : ConnPtr) (hcmd : httpReq.url.cmd = ascii "wait")
      (hfind : srv.findPeer httpReq.pragma srv.webrtcConnectionList = .ok (some c)) :
      Dispatched srv buffer httpReq [.setOutboundSocket c, .keepOpen]

section

variable {cfg : Http.Config} {srv : Server} {client : Client} {buffer buffer' : Bytes}
  {httpReq : Http.HttpReq} {acts : List MainAct}

theorem dispatched_of_message {writes : List Bytes} (hcmd : httpReq.url.cmd = ascii "message")
    (h : srv.messageActs buffer httpReq = .ok acts) :
    Dispatched srv buffer httpReq (acts ++ [.respond writes]) := by
  unfold Server.messageActs at h
  obtain ⟨found, hfind, h⟩ := bind_eq_ok.mp h
  cases found with
  | none =>
    obtain rfl := Except.ok.inj h
    exact .messageUnknown writes hcmd hfind
  | some c =>
    dsimp only at h
    split at h
    · exact absurd h (by simp)
    · rename_i data hdata
      obtain rfl := Except.ok.inj h
      exact .message writes c data hcmd hfind hdata

theorem dispatched_of_wait (hcmd : httpReq.url.cmd = ascii "wait")
    (h : srv.waitActs httpReq = .ok acts) : Dispatched srv buffer httpReq acts := by
  unfold Server.waitActs at h
  obtain ⟨found, hfind, h⟩ := bind_eq_ok.mp h
  cases found with
  | none =>
    obtain rfl := Except.ok.inj h
    exact .waitUnknown hcmd hfind
  | some c =>
    obtain rfl := Except.ok.inj h
    exact .wait c hcmd hfind

/-- **The seven branches.** -/
theorem dispatched_of_dispatch (h : srv.dispatch cfg client buffer httpReq = .ok (acts, buffer')) :
    Dispatched srv buffer httpReq acts := by
  unfold Server.dispatch at h
  dsimp only at h
  split at h
  · rename_i hcmd
    obtain ⟨reply, -, h⟩ := bind_eq_ok.mp h
    obtain ⟨rfl, -⟩ := Prod.mk.inj (Except.ok.inj h)
    refine .reply _ ?_
    have hlanding : httpReq.url.cmd = [] ∨ httpReq.url.cmd = ascii "index.html" := by
      rcases hcmd with hcmd | hcmd | hcmd
      · exact .inl hcmd
      · exact .inl hcmd
      · exact .inr hcmd
    rcases hlanding with hcmd | hcmd <;> rw [hcmd, Special] <;> decide
  split at h
  · rename_i hcmd
    obtain ⟨reply, -, h⟩ := bind_eq_ok.mp h
    obtain ⟨rfl, -⟩ := Prod.mk.inj (Except.ok.inj h)
    exact .signIn _ hcmd
  rename_i h₁
  split at h
  · rename_i hcmd
    obtain ⟨rfl, -⟩ := Prod.mk.inj (Except.ok.inj h)
    exact .signOut hcmd
  rename_i h₂
  split at h
  · rename_i hcmd
    obtain ⟨acts', hacts, h⟩ := bind_eq_ok.mp h
    obtain ⟨reply, -, h⟩ := bind_eq_ok.mp h
    obtain ⟨rfl, -⟩ := Prod.mk.inj (Except.ok.inj h)
    exact dispatched_of_message hcmd hacts
  rename_i h₃
  split at h
  · rename_i hcmd
    obtain ⟨acts', hacts, h⟩ := bind_eq_ok.mp h
    obtain ⟨rfl, -⟩ := Prod.mk.inj (Except.ok.inj h)
    exact dispatched_of_wait hcmd hacts
  rename_i h₄
  have hplain : ¬ Special httpReq.url.cmd := by
    rintro (h | h | h | h)
    · exact h₁ h
    · exact h₂ h
    · exact h₃ h
    · exact h₄ h
  split at h
  · obtain ⟨reply, -, h⟩ := bind_eq_ok.mp h
    obtain ⟨rfl, -⟩ := Prod.mk.inj (Except.ok.inj h)
    exact .reply _ hplain
  · obtain ⟨reply, -, h⟩ := bind_eq_ok.mp h
    obtain ⟨rfl, -⟩ := Prod.mk.inj (Except.ok.inj h)
    exact .reply _ hplain

end

/-- The search gives a listed connection with the id. -/
theorem findPeer_some {srv : Server} {pragma : ℕ} : ∀ {list : List ConnPtr} {c : ConnPtr},
    srv.findPeer pragma list = .ok (some c) →
      c ∈ list ∧ (srv.heap c).map (·.peerId) = some pragma := by
  intro list
  induction list with
  | nil =>
    intro c h
    simp [Server.findPeer] at h
  | cons x list ih =>
    intro c h
    rw [Server.findPeer] at h
    split at h
    · exact absurd h (by simp)
    · rename_i conn hx
      split at h
      · rename_i hid
        obtain rfl : x = c := by simpa using h
        exact ⟨List.mem_cons_self, by rw [hx, Option.map_some, hid]⟩
      · obtain ⟨hmem, hid⟩ := ih h
        exact ⟨List.mem_cons_of_mem _ hmem, hid⟩

/-! ## 2. A whole iteration -/

/-- The server behind an iteration that touched no connection. -/
def Server.after (srv : Server) (buffer : Bytes) : Server :=
  { srv with httpRwBuffer := buffer, nextSock := srv.nextSock + 1, pc := .accept }

@[simp] theorem Server.heap_after (srv : Server) (buffer : Bytes) :
    (srv.after buffer).heap = srv.heap := rfl

/-- `if (closeWait) delete clientSocket`, for the socket of this iteration. -/
def Server.closing (srv : Server) : List Event :=
  if srv.closeWait then [.close srv.nextSock] else []

/-- What a parsed request makes of the server. -/
inductive Handled (srv : Server) (buffer : Bytes) (httpReq : Http.HttpReq) :
    Server → List Event → Prop
  | reply (buffer' : Bytes) (writes : List Bytes) (hcmd : ¬ Special httpReq.url.cmd) :
      Handled srv buffer httpReq (srv.after buffer')
        (.respond srv.nextSock writes :: srv.closing)
  | signIn (buffer' : Bytes) (writes : List Bytes) (hcmd : httpReq.url.cmd = ascii "signIn") :
      Handled srv buffer httpReq
        { srv.after buffer' with
          peerId := (srv.peerId + 1) % 2 ^ 32
          webrtcConnectionList := srv.webrtcConnectionList ++ [srv.nextConn]
          heap := Function.update srv.heap srv.nextConn (some (.new srv.peerId))
          nextConn := srv.nextConn + 1 }
        (.signIn srv.nextConn srv.peerId :: .respond srv.nextSock writes :: srv.closing)
  | signOut (buffer' : Bytes) (hcmd : httpReq.url.cmd = ascii "signOut") :
      Handled srv buffer httpReq (srv.after buffer') srv.closing
  | messageUnknown (buffer' : Bytes) (writes : List Bytes)
      (hcmd : httpReq.url.cmd = ascii "message")
      (hfind : srv.findPeer httpReq.pragma srv.webrtcConnectionList = .ok none) :
      Handled srv buffer httpReq (srv.after buffer')
        (.respond srv.nextSock writes :: srv.closing)
  | message (buffer' : Bytes) (writes : List Bytes) (c : ConnPtr) (conn : WebrtcConnection)
      (data : ℕ) (hcmd : httpReq.url.cmd = ascii "message")
      (hfind : srv.findPeer httpReq.pragma srv.webrtcConnectionList = .ok (some c))
      (hc : srv.heap c = some conn) (hdata : httpReq.data = some data) :
      Handled srv buffer httpReq
        ((srv.after buffer').setConn c (some (conn.pushMessage (cstr (buffer.drop data)))))
        (.push c (cstr (buffer.drop data)) :: .respond srv.nextSock writes :: srv.closing)
  | waitUnknown (buffer' : Bytes) (hcmd : httpReq.url.cmd = ascii "wait")
      (hfind : srv.findPeer httpReq.pragma srv.webrtcConnectionList = .ok none) :
      Handled srv buffer httpReq (srv.after buffer') srv.closing
  | wait (buffer' : Bytes) (c : ConnPtr) (conn : WebrtcConnection)
      (hcmd : httpReq.url.cmd = ascii "wait")
      (hfind : srv.findPeer httpReq.pragma srv.webrtcConnectionList = .ok (some c))
      (hc : srv.heap c = some conn) (hlock : ¬ conn.Locked) :
      Handled srv buffer httpReq
        { (srv.after buffer').setConn c (some { conn with clientSocket := some srv.nextSock }) with
          closeWait := false }
        [.park c srv.nextSock]

/-- What an iteration with an accepted socket makes of the server. -/
inductive Served (srv : Server) (client : Client) : Server → List Event → Prop
  | rejected (buffer : Bytes) (httpReq : Http.HttpReq)
      (hread : Http.readRequest srv.httpRwBuffer client.arrivals = .ok (buffer, false, httpReq)) :
      Served srv client (srv.after buffer) [.close srv.nextSock]
  | handled (buffer : Bytes) (httpReq : Http.HttpReq) (srv' : Server) (es : List Event)
      (hread : Http.readRequest srv.httpRwBuffer client.arrivals = .ok (buffer, true, httpReq))
      (hhandled : Handled srv buffer httpReq srv' es) : Served srv client srv' es

section

variable {env : Env} {cfg : Http.Config} {srv srv' : Server} {client : Client} {es : List Event}

/-- The iteration is its statements in a row, from the server that has read the request. -/
theorem execs_of_advances (buffer : Bytes) {acts : List MainAct}
    (h : Server.advances (acts.length + 1)
      { srv.after buffer with pc := .handle srv.nextSock acts } = some (srv', es)) :
    ∃ srv₁, (srv.after buffer).execs srv.nextSock acts = some (srv₁, es) ∧
      srv' = { srv₁ with pc := .accept } := by
  rw [advances_handle] at h
  obtain ⟨⟨srv₁, es₁⟩, hexecs, heq⟩ := Option.map_eq_some_iff.mp h
  obtain ⟨rfl, rfl⟩ := Prod.mk.inj heq
  exact ⟨srv₁, hexecs, rfl⟩

/-- The statements of each branch, executed. -/
theorem handled_of_dispatched {buffer buffer' : Bytes} {httpReq : Http.HttpReq}
    {acts : List MainAct} {srv₁ : Server} (hd : Dispatched srv buffer httpReq acts)
    (h : (srv.after buffer').execs srv.nextSock (acts ++ [.closeUnlessWaiting])
      = some (srv₁, es)) :
    Handled srv buffer httpReq { srv₁ with pc := .accept } es := by
  cases hd with
  | reply writes hcmd =>
    simp only [List.cons_append, List.nil_append, Server.execs, Server.exec, Option.map_some,
      List.append_nil] at h
    obtain ⟨rfl, rfl⟩ := Prod.mk.inj (Option.some.inj h)
    exact .reply buffer' writes hcmd
  | signIn writes hcmd =>
    simp only [List.cons_append, List.nil_append, Server.execs, Server.exec, Option.map_some,
      List.append_nil] at h
    obtain ⟨rfl, rfl⟩ := Prod.mk.inj (Option.some.inj h)
    exact .signIn buffer' writes hcmd
  | signOut hcmd =>
    simp only [List.nil_append, Server.execs, Server.exec, Option.map_some, List.append_nil] at h
    obtain ⟨rfl, rfl⟩ := Prod.mk.inj (Option.some.inj h)
    exact .signOut buffer' hcmd
  | messageUnknown writes hcmd hfind =>
    simp only [List.cons_append, List.nil_append, Server.execs, Server.exec, Option.map_some,
      List.append_nil] at h
    obtain ⟨rfl, rfl⟩ := Prod.mk.inj (Option.some.inj h)
    exact .messageUnknown buffer' writes hcmd hfind
  | message writes c data hcmd hfind hdata =>
    cases hc : srv.heap c with
    | none =>
      simp [Server.execs, Server.exec, hc] at h
    | some conn =>
      simp only [List.cons_append, List.nil_append, Server.execs, Server.exec,
        Server.heap_after, hc, Option.map_some, List.append_nil] at h
      obtain ⟨rfl, rfl⟩ := Prod.mk.inj (Option.some.inj h)
      exact .message buffer' writes c conn data hcmd hfind hc hdata
  | waitUnknown hcmd hfind =>
    simp only [List.nil_append, Server.execs, Server.exec, Option.map_some, List.append_nil] at h
    obtain ⟨rfl, rfl⟩ := Prod.mk.inj (Option.some.inj h)
    exact .waitUnknown buffer' hcmd hfind
  | wait c hcmd hfind =>
    cases hc : srv.heap c with
    | none =>
      simp [Server.execs, Server.exec, hc] at h
    | some conn =>
      by_cases hlock : conn.Locked
      · simp [Server.execs, Server.exec, hc, WebrtcConnection.setOutboundSocket, hlock] at h
      · simp only [List.cons_append, List.nil_append, Server.execs, Server.exec,
          Server.heap_after, hc, WebrtcConnection.setOutboundSocket, if_neg hlock,
          Option.map_some, List.append_nil, List.nil_append] at h
        obtain ⟨rfl, rfl⟩ := Prod.mk.inj (Option.some.inj h)
        exact .wait buffer' c conn hcmd hfind hc hlock

/-- **What an iteration does**, for every socket that is accepted. -/
theorem served_of_iterate (h : srv.iterate env cfg (.accept client) = some (srv', es)) :
    srv.pc = .accept ∧ Served srv client srv' es := by
  simp only [Server.iterate] at h
  split at h
  · exact absurd h (by simp)
  · rename_i srv₁ es₁ hstep
    obtain ⟨⟨srv₂, es₂⟩, hadv, heq⟩ := Option.map_eq_some_iff.mp h
    obtain ⟨rfl, rfl⟩ := Prod.mk.inj heq
    generalize hl : Label.accept client = l at hstep
    cases happens_of_step hstep with
    | reject client' buffer httpReq hpc hread =>
      obtain rfl := Label.accept.inj hl
      obtain ⟨srv₃, hexecs, rfl⟩ := execs_of_advances buffer hadv
      obtain ⟨rfl, rfl⟩ := Prod.mk.inj (Option.some.inj hexecs)
      exact ⟨hpc, .rejected buffer httpReq hread⟩
    | begin client' buffer buffer' httpReq acts hpc hread hdispatch =>
      obtain rfl := Label.accept.inj hl
      obtain ⟨srv₃, hexecs, rfl⟩ := execs_of_advances buffer' hadv
      exact ⟨hpc, .handled buffer httpReq _ _ hread
        (handled_of_dispatched (dispatched_of_dispatch hdispatch) hexecs)⟩
    | move l c conn conn' es hmv hc hmove =>
      subst hl
      obtain ⟨act, hact⟩ | ⟨cb, hcb⟩ := hmv
      · exact absurd hact (by simp)
      · exact absurd hcb (by simp)
    | _ => exact absurd hl (by simp)

/-- The same, for a request of which one knows how it reads. -/
theorem handled_of_iterate {buffer : Bytes} {httpReq : Http.HttpReq}
    (hread : Http.readRequest srv.httpRwBuffer client.arrivals = .ok (buffer, true, httpReq))
    (h : srv.iterate env cfg (.accept client) = some (srv', es)) :
    Handled srv buffer httpReq srv' es := by
  cases (served_of_iterate h).2 with
  | rejected buffer₁ httpReq₁ hread₁ =>
    rw [hread₁] at hread
    exact absurd hread (by simp)
  | handled buffer₁ httpReq₁ _ _ hread₁ hhandled =>
    rw [hread₁] at hread
    simp only [Except.ok.injEq, Prod.mk.injEq, true_and] at hread
    obtain ⟨rfl, rfl⟩ := hread
    exact hhandled

/-- A `message`: two outcomes. -/
theorem Handled.of_message {buffer : Bytes} {httpReq : Http.HttpReq}
    (h : Handled srv buffer httpReq srv' es) (hcmd : httpReq.url.cmd = ascii "message") :
    (srv.findPeer httpReq.pragma srv.webrtcConnectionList = .ok none ∧
      ∃ buffer' writes, srv' = srv.after buffer' ∧
        es = .respond srv.nextSock writes :: srv.closing) ∨
    ∃ buffer' writes c conn data,
      srv.findPeer httpReq.pragma srv.webrtcConnectionList = .ok (some c) ∧
      srv.heap c = some conn ∧ httpReq.data = some data ∧
      srv' = (srv.after buffer').setConn c (some (conn.pushMessage (cstr (buffer.drop data)))) ∧
      es = .push c (cstr (buffer.drop data)) :: .respond srv.nextSock writes :: srv.closing := by
  cases h with
  | messageUnknown buffer' writes _ hfind => exact .inl ⟨hfind, buffer', writes, rfl, rfl⟩
  | message buffer' writes c conn data _ hfind hc hdata =>
    exact .inr ⟨buffer', writes, c, conn, data, hfind, hc, hdata, rfl, rfl⟩
  | reply _ _ hcmd' => exact absurd (.inr (.inr (.inl hcmd))) hcmd'
  | signIn _ _ hcmd' => exact absurd (hcmd.symm.trans hcmd') (by decide)
  | signOut _ hcmd' => exact absurd (hcmd.symm.trans hcmd') (by decide)
  | waitUnknown _ hcmd' => exact absurd (hcmd.symm.trans hcmd') (by decide)
  | wait _ _ _ hcmd' => exact absurd (hcmd.symm.trans hcmd') (by decide)

/-- A `wait`: two outcomes. -/
theorem Handled.of_wait {buffer : Bytes} {httpReq : Http.HttpReq}
    (h : Handled srv buffer httpReq srv' es) (hcmd : httpReq.url.cmd = ascii "wait") :
    (srv.findPeer httpReq.pragma srv.webrtcConnectionList = .ok none ∧
      ∃ buffer', srv' = srv.after buffer' ∧ es = srv.closing) ∨
    ∃ buffer' c conn, srv.findPeer httpReq.pragma srv.webrtcConnectionList = .ok (some c) ∧
      srv.heap c = some conn ∧
      srv' = { (srv.after buffer').setConn c (some { conn with clientSocket := some srv.nextSock })
        with closeWait := false } ∧
      es = [.park c srv.nextSock] := by
  cases h with
  | waitUnknown buffer' _ hfind => exact .inl ⟨hfind, buffer', rfl, rfl⟩
  | wait buffer' c conn _ hfind hc => exact .inr ⟨buffer', c, conn, hfind, hc, rfl, rfl⟩
  | reply _ _ hcmd' => exact absurd (.inr (.inr (.inr hcmd))) hcmd'
  | signIn _ _ hcmd' => exact absurd (hcmd.symm.trans hcmd') (by decide)
  | signOut _ hcmd' => exact absurd (hcmd.symm.trans hcmd') (by decide)
  | messageUnknown _ _ hcmd' => exact absurd (hcmd.symm.trans hcmd') (by decide)
  | message _ _ _ _ _ hcmd' => exact absurd (hcmd.symm.trans hcmd') (by decide)

/-! ## 3. Requests that go through -/

/-- An iteration whose statements all succeed. -/
theorem iterate_of_dispatch {buffer buffer' : Bytes} {httpReq : Http.HttpReq}
    {acts : List MainAct} {srv₁ : Server} (hpc : srv.pc = .accept)
    (hread : Http.readRequest srv.httpRwBuffer client.arrivals = .ok (buffer, true, httpReq))
    (hdispatch : srv.dispatch cfg client buffer httpReq = .ok (acts, buffer'))
    (hexecs : (srv.after buffer').execs srv.nextSock (acts ++ [.closeUnlessWaiting])
      = some (srv₁, es)) :
    srv.iterate env cfg (.accept client) = some ({ srv₁ with pc := .accept }, es) := by
  have hbegin : srv.begin cfg client = .ok { srv.after buffer' with
      pc := .handle srv.nextSock (acts ++ [.closeUnlessWaiting]) } := by
    simp only [Server.begin, hread, hdispatch, ok_bind, if_true]
    rfl
  have hadv := advances_handle srv.nextSock (acts ++ [.closeUnlessWaiting]) (srv.after buffer')
  rw [hexecs] at hadv
  simp only [Server.iterate, Server.step, if_pos hpc, hbegin, Except.toOption, Option.map_some]
  rw [show Server.left { srv.after buffer' with
      pc := .handle srv.nextSock (acts ++ [.closeUnlessWaiting]) }
    = (acts ++ [MainAct.closeUnlessWaiting]).length + 1 from rfl, hadv]
  rfl

/-- The dispatcher on a `message`. -/
theorem dispatch_message {buffer : Bytes} {httpReq : Http.HttpReq} {acts : List MainAct}
    (hcmd : httpReq.url.cmd = ascii "message") (hacts : srv.messageActs buffer httpReq = .ok acts) :
    ∃ writes buffer', srv.dispatch cfg client buffer httpReq
      = .ok (acts ++ [.respond writes], buffer') := by
  obtain ⟨reply, hreply⟩ := Http.sendReply_ok httpReq.origin httpReq.pragma [] buffer
  refine ⟨reply.writes, reply.outBuffer, ?_⟩
  unfold Server.dispatch
  dsimp only
  rw [hcmd, if_neg (by decide), if_neg (by decide), if_neg (by decide), if_pos rfl, hacts, hreply]
  rfl

/-- The dispatcher on a `wait`. -/
theorem dispatch_wait {buffer : Bytes} {httpReq : Http.HttpReq} {acts : List MainAct}
    (hcmd : httpReq.url.cmd = ascii "wait") (hacts : srv.waitActs httpReq = .ok acts) :
    srv.dispatch cfg client buffer httpReq = .ok (acts, buffer) := by
  unfold Server.dispatch
  dsimp only
  rw [hcmd, if_neg (by decide), if_neg (by decide), if_neg (by decide), if_neg (by decide),
    if_pos rfl, hacts]
  rfl

/-- **A `message` with a body, for a listed peer, is pushed.** -/
theorem iterate_message {buffer : Bytes} {httpReq : Http.HttpReq} {c : ConnPtr}
    {conn : WebrtcConnection} {data : ℕ} (hpc : srv.pc = .accept)
    (hread : Http.readRequest srv.httpRwBuffer client.arrivals = .ok (buffer, true, httpReq))
    (hcmd : httpReq.url.cmd = ascii "message")
    (hfind : srv.findPeer httpReq.pragma srv.webrtcConnectionList = .ok (some c))
    (hc : srv.heap c = some conn) (hdata : httpReq.data = some data) :
    ∃ srv' writes, srv.iterate env cfg (.accept client) = some (srv',
      .push c (cstr (buffer.drop data)) :: .respond srv.nextSock writes :: srv.closing) := by
  have hacts : srv.messageActs buffer httpReq = .ok [.pushMessage c (cstr (buffer.drop data))] := by
    simp only [Server.messageActs, hfind, hdata, ok_bind]
  obtain ⟨writes, buffer', hdispatch⟩ : ∃ writes buffer', srv.dispatch cfg client buffer httpReq
      = .ok ([.pushMessage c (cstr (buffer.drop data))] ++ [.respond writes], buffer') :=
    dispatch_message hcmd hacts
  obtain ⟨srv₁, hexecs⟩ : ∃ srv₁, (srv.after buffer').execs srv.nextSock
      ([.pushMessage c (cstr (buffer.drop data))] ++ [.respond writes] ++ [.closeUnlessWaiting])
      = some (srv₁, .push c (cstr (buffer.drop data)) :: .respond srv.nextSock writes
          :: srv.closing) := by
    simp only [List.cons_append, List.nil_append, Server.execs, Server.exec, Server.heap_after,
      hc, Option.map_some, List.append_nil]
    exact ⟨_, rfl⟩
  exact ⟨_, writes, iterate_of_dispatch hpc hread hdispatch hexecs⟩

/-- A `message` for a peer that is not listed only gets its reply. -/
theorem iterate_messageUnknown {buffer : Bytes} {httpReq : Http.HttpReq} (hpc : srv.pc = .accept)
    (hread : Http.readRequest srv.httpRwBuffer client.arrivals = .ok (buffer, true, httpReq))
    (hcmd : httpReq.url.cmd = ascii "message")
    (hfind : srv.findPeer httpReq.pragma srv.webrtcConnectionList = .ok none) :
    ∃ srv' es, srv.iterate env cfg (.accept client) = some (srv', es) := by
  have hacts : srv.messageActs buffer httpReq = .ok [] := by
    simp only [Server.messageActs, hfind, ok_bind]
  obtain ⟨writes, buffer', hdispatch⟩ : ∃ writes buffer', srv.dispatch cfg client buffer httpReq
      = .ok ([] ++ [.respond writes], buffer') := dispatch_message hcmd hacts
  exact ⟨_, _, iterate_of_dispatch hpc hread hdispatch rfl⟩

/-- **A `wait` goes through** unless the worker of its peer holds the mutex. -/
theorem iterate_wait {buffer : Bytes} {httpReq : Http.HttpReq} {found : Option ConnPtr}
    (hpc : srv.pc = .accept)
    (hread : Http.readRequest srv.httpRwBuffer client.arrivals = .ok (buffer, true, httpReq))
    (hcmd : httpReq.url.cmd = ascii "wait")
    (hfind : srv.findPeer httpReq.pragma srv.webrtcConnectionList = .ok found)
    (hfree : ∀ c, found = some c → ∃ conn, srv.heap c = some conn ∧ ¬ conn.Locked) :
    ∃ srv' es, srv.iterate env cfg (.accept client) = some (srv', es) := by
  cases found with
  | none =>
    have hacts : srv.waitActs httpReq = .ok [] := by simp only [Server.waitActs, hfind, ok_bind]
    exact ⟨_, _, iterate_of_dispatch hpc hread (dispatch_wait hcmd hacts) rfl⟩
  | some c =>
    obtain ⟨conn, hc, hlock⟩ := hfree c rfl
    have hacts : srv.waitActs httpReq = .ok [.setOutboundSocket c, .keepOpen] := by
      simp only [Server.waitActs, hfind, ok_bind]
    obtain ⟨srv₁, es, hexecs⟩ : ∃ srv₁ es, (srv.after buffer).execs srv.nextSock
        ([.setOutboundSocket c, .keepOpen] ++ [.closeUnlessWaiting]) = some (srv₁, es) := by
      simp only [List.cons_append, List.nil_append, Server.execs, Server.exec,
        Server.heap_after, hc, WebrtcConnection.setOutboundSocket, if_neg hlock, Option.map_some]
      exact ⟨_, _, rfl⟩
    exact ⟨_, _, iterate_of_dispatch hpc hread (dispatch_wait hcmd hacts) hexecs⟩

end

end Reflector
