/-
# What of a body is delivered

The main loop takes what has arrived when a read gives nothing, and hands the C string at the
start of the body to the peer.  It never looks at the `Content-Length` it has parsed.  So the
message is cut where the bytes stopped arriving or at the first NUL, and it goes on into
whatever was sent behind the body.

`delivered_iff` has the exact condition on the bytes that had arrived.  When nothing had arrived
behind the head there is no string to hand on: the body pointer is null, and the handler makes a
`std::string` from it all the same (`body_pointer_iff`).
-/
import Reflector.Http.Blank
import Reflector.Server.Registry

namespace Reflector

open Base Signaling

/-! ## 1. The buffer keeps its size -/

section

variable {env : Env} {cfg : Http.Config} {srv srv' : Server} {client : Client}

theorem length_dispatch {buffer buffer' : Bytes} {httpReq : Http.HttpReq} {acts : List MainAct}
    (hbuf : buffer.length = Http.rwBufferSize)
    (h : srv.dispatch cfg client buffer httpReq = .ok (acts, buffer')) :
    buffer'.length = Http.rwBufferSize := by
  have hroom : 1024 - 1 ≤ buffer.length := by rw [hbuf]; decide
  have hreply : ∀ {reply : Http.Reply}, Http.Formatted buffer reply →
      reply.outBuffer.length = Http.rwBufferSize := fun hf => (hf.length hroom).trans hbuf
  unfold Server.dispatch at h
  dsimp only at h
  split at h
  · obtain ⟨reply, hsend, h⟩ := bind_eq_ok.mp h
    obtain ⟨-, rfl⟩ := Prod.mk.inj (Except.ok.inj h)
    exact hreply (Http.sendReplyPage_formatted hsend)
  split at h
  · obtain ⟨reply, hsend, h⟩ := bind_eq_ok.mp h
    obtain ⟨-, rfl⟩ := Prod.mk.inj (Except.ok.inj h)
    exact hreply (Http.sendReply_formatted hsend)
  split at h
  · obtain ⟨-, rfl⟩ := Prod.mk.inj (Except.ok.inj h)
    exact hbuf
  split at h
  · obtain ⟨acts', -, h⟩ := bind_eq_ok.mp h
    obtain ⟨reply, hsend, h⟩ := bind_eq_ok.mp h
    obtain ⟨-, rfl⟩ := Prod.mk.inj (Except.ok.inj h)
    exact hreply (Http.sendReply_formatted hsend)
  split at h
  · obtain ⟨acts', -, h⟩ := bind_eq_ok.mp h
    obtain ⟨-, rfl⟩ := Prod.mk.inj (Except.ok.inj h)
    exact hbuf
  split at h
  · obtain ⟨reply, hsend, h⟩ := bind_eq_ok.mp h
    obtain ⟨-, rfl⟩ := Prod.mk.inj (Except.ok.inj h)
    exact hreply (Http.sendReplyFavicon_formatted hsend)
  · obtain ⟨reply, hsend, h⟩ := bind_eq_ok.mp h
    obtain ⟨-, rfl⟩ := Prod.mk.inj (Except.ok.inj h)
    exact hreply (Http.sendReplyError_formatted hsend)

theorem length_buffer_step {l : Label} {es : List Event}
    (hbuf : srv.httpRwBuffer.length = Http.rwBufferSize)
    (h : Happens env cfg srv l srv' es) : srv'.httpRwBuffer.length = Http.rwBufferSize := by
  cases h with
  | reject client buffer httpReq hpc hread => exact Http.length_readRequest hbuf hread
  | begin client buffer buffer' httpReq acts hpc hread hdispatch =>
    exact length_dispatch (Http.length_readRequest hbuf hread) hdispatch
  | _ => exact hbuf

/-- **The one buffer has its size**, in every state of every run. -/
theorem length_buffer_of_run {buffer : Bytes} {tr : List (Label × List Event)}
    (hbuf : buffer.length = Http.rwBufferSize)
    (hrun : Run (Server.step env cfg) (Server.start buffer) tr srv) :
    srv.httpRwBuffer.length = Http.rwBufferSize :=
  hrun.invariant (fun _ srv => srv.httpRwBuffer.length = Http.rwBufferSize) hbuf
    fun _ _ _ _ _ _ ih hstep => length_buffer_step ih (happens_of_step hstep)

theorem length_buffer_of_coarse {buffer : Bytes} {tr : List (Label × List Event)}
    (hbuf : buffer.length = Http.rwBufferSize)
    (hrun : Run (Server.iterate env cfg) (Server.start buffer) tr srv) :
    srv.httpRwBuffer.length = Http.rwBufferSize := by
  obtain ⟨tr', hfine, -⟩ := fine_of_coarse hrun
  exact length_buffer_of_run hbuf hfine

end

/-! ## 2. A `message` whose head has arrived, and one whose head has not -/

/-- A POST of a message, with the length of its body. -/
structure PostsMessage (r : Http.Request) : Prop where
  method : r.method = ascii "POST"
  cmd : r.cmd = ascii "message"
  contentLength : Http.lastField (ascii "Content-Length:") r.headers = some (decimal r.body.length)

/-- **Every message pushed is the body**, and the body had arrived. -/
def Delivers (r : Http.Request) (client : Client) (es : List Event) : Prop :=
  ∀ c message, Event.push c message ∈ es →
    message = r.body ∧ r.render <+: Http.received client.arrivals

section

variable {env : Env} {cfg : Http.Config} {srv srv' : Server} {client : Client} {es : List Event}
  {r : Http.Request} {c : ConnPtr}

theorem push_notMem_closing (srv : Server) (c : ConnPtr) (message : Bytes) :
    Event.push c message ∉ srv.closing := by
  unfold Server.closing
  split <;> simp

/-- A request that is not understood pushes nothing. -/
theorem no_push_of_rejected
    (hread : ∀ buffer httpReq,
      Http.readRequest srv.httpRwBuffer client.arrivals ≠ .ok (buffer, true, httpReq))
    (hstep : srv.iterate env cfg (.accept client) = some (srv', es)) (message : Bytes) :
    Event.push c message ∉ es := by
  cases (served_of_iterate hstep).2 with
  | rejected => simp
  | handled buffer httpReq _ _ hread' => exact absurd hread' (hread buffer httpReq)

/-- What the iteration reads when nothing but a part of the head has arrived. -/
theorem not_read_of_short (hbuf : srv.httpRwBuffer.length = Http.rwBufferSize)
    (hfits : (Http.received client.arrivals).length < Http.rwBufferSize) {rest : Bytes}
    (hhead : Http.received client.arrivals ++ rest = r.head) (hrest : rest ≠ [])
    (buffer : Bytes) (httpReq : Http.HttpReq) :
    Http.readRequest srv.httpRwBuffer client.arrivals ≠ .ok (buffer, true, httpReq) := by
  rw [Http.readRequest_eq client.arrivals hbuf hfits]
  intro hread
  cases hparse : Http.parseHttpMessage (Http.received client.arrivals ++
      0 :: srv.httpRwBuffer.drop ((Http.received client.arrivals).length + 1))
      (Http.received client.arrivals).length .fresh with
  | error e =>
    rw [hparse] at hread
    exact absurd hread (by simp [Except.map])
  | ok x =>
    rw [hparse] at hread
    obtain ⟨-, rfl⟩ := Prod.mk.inj (Except.ok.inj hread)
    exact Http.not_parsed_of_short r hhead hrest _ httpReq hparse

/-- What it reads when the head has arrived, with `rest` behind it. -/
theorem read_of_head (hbuf : srv.httpRwBuffer.length = Http.rwBufferSize)
    (hfits : (Http.received client.arrivals).length < Http.rwBufferSize) {rest : Bytes}
    (hhead : Http.received client.arrivals = r.head ++ rest) :
    ∃ stale, Http.readRequest srv.httpRwBuffer client.arrivals
      = .ok (r.head ++ rest ++ 0 :: stale, true,
          r.meaning (if 0 < rest.length then some r.head.length else none)) := by
  refine ⟨srv.httpRwBuffer.drop ((Http.received client.arrivals).length + 1), ?_⟩
  rw [Http.readRequest_eq client.arrivals hbuf hfits, hhead, Http.parse_head]
  rfl

/-- Without a byte of the body there is nothing to push: the pointer to the body is null. -/
theorem no_push_of_empty {buffer : Bytes} (hr : PostsMessage r)
    (hfind : srv.findPeer r.pragma srv.webrtcConnectionList = .ok (some c))
    (hread : Http.readRequest srv.httpRwBuffer client.arrivals
      = .ok (buffer, true, r.meaning none))
    (hstep : srv.iterate env cfg (.accept client) = some (srv', es)) (c' : ConnPtr)
    (message : Bytes) : Event.push c' message ∉ es := by
  obtain ⟨hnone, -⟩ | ⟨_, _, _, _, _, -, -, hdata, -, -⟩ :=
    (handled_of_iterate hread hstep).of_message hr.cmd
  · have hfind' : srv.findPeer (r.meaning none).pragma srv.webrtcConnectionList = .ok (some c) :=
      hfind
    rw [hnone] at hfind'
    exact absurd hfind' (by simp)
  · exact absurd hdata (by simp [Http.Request.meaning])

/-- Otherwise the C string behind the head is pushed, and nothing else. -/
theorem push_iff_of_body (hpc : srv.pc = .accept) (hr : PostsMessage r)
    (hfind : srv.findPeer r.pragma srv.webrtcConnectionList = .ok (some c))
    {rest stale : Bytes} (hread : Http.readRequest srv.httpRwBuffer client.arrivals
      = .ok (r.head ++ rest ++ 0 :: stale, true, r.meaning (some r.head.length))) :
    ∃ srv' es, srv.iterate env cfg (.accept client) = some (srv', es) ∧
      ∀ c' message, Event.push c' message ∈ es ↔ c' = c ∧ message = cstr rest := by
  obtain ⟨conn, hc, -⟩ := Option.map_eq_some_iff.mp (findPeer_some hfind).2
  obtain ⟨srv', writes, hstep⟩ :=
    iterate_message hpc hread hr.cmd hfind hc (rfl : (r.meaning (some r.head.length)).data = _)
  refine ⟨srv', _, hstep, fun c' message => ?_⟩
  have hstring : cstr ((r.head ++ rest ++ 0 :: stale).drop r.head.length) = cstr rest := by
    rw [List.append_assoc, List.drop_left, cstr_append_nul']
  rw [hstring]
  simp [push_notMem_closing]

end

/-! ## 3. Delivery -/

/-- **When a peer is given the body**: what arrived before the first read without bytes ends in
the head (and nothing is pushed); or the body has no NUL, and what arrived ends with the body or
has a NUL right behind it. -/
theorem delivered_iff {env : Env} {cfg : Http.Config} {buffer : Bytes}
    {tr : List (Label × List Event)} {srv : Server} {client : Client} {r : Http.Request}
    {c : ConnPtr} {extra : Bytes} (hbuf : buffer.length = Http.rwBufferSize)
    (hrun : Run (Server.iterate env cfg) (Server.start buffer) tr srv) (hr : PostsMessage r)
    (hfind : srv.findPeer r.pragma srv.webrtcConnectionList = .ok (some c))
    (hstream : Http.received client.arrivals <+: r.render ++ extra)
    (hfits : (Http.received client.arrivals).length < Http.rwBufferSize) :
    (∀ srv' es, srv.iterate env cfg (.accept client) = some (srv', es) →
      Delivers r client es) ↔
    (Http.received client.arrivals).length ≤ r.head.length ∨
      0 ∉ r.body ∧ (Http.received client.arrivals = r.render ∨
        r.render ++ [0] <+: Http.received client.arrivals) := by
  have hlen : srv.httpRwBuffer.length = Http.rwBufferSize := length_buffer_of_coarse hbuf hrun
  have hstream' : Http.received client.arrivals <+: r.head ++ (r.body ++ extra) := by
    rwa [← List.append_assoc]
  rcases Nat.lt_or_ge r.head.length (Http.received client.arrivals).length with hlong | hshort
  · -- the head, and some of what follows it
    obtain ⟨rest, hrest⟩ : r.head <+: Http.received client.arrivals :=
      List.prefix_of_prefix_length_le (List.prefix_append _ _) hstream' (Nat.le_of_lt hlong)
    have hpos : 0 < rest.length := by
      rw [← hrest, List.length_append] at hlong
      omega
    obtain ⟨stale, hread⟩ := read_of_head hlen hfits hrest.symm
    rw [if_pos hpos] at hread
    obtain ⟨srv', es, hstep, hpush⟩ :=
      push_iff_of_body (pc_of_coarse hrun) hr hfind hread
    have hwhole : r.render <+: Http.received client.arrivals ↔ r.body <+: rest := by
      rw [← hrest, Http.Request.render, List.prefix_append_right_inj]
    have hcond : 0 ∉ r.body ∧ (Http.received client.arrivals = r.render ∨
        r.render ++ [0] <+: Http.received client.arrivals) ↔ cstr rest = r.body := by
      rw [cstr_eq_iff, ← hrest, Http.Request.render, List.append_assoc,
        List.prefix_append_right_inj, List.append_cancel_left_eq]
    rw [hcond, or_iff_right (Nat.not_le_of_lt hlong)]
    constructor
    · intro h
      exact (h srv' es hstep c (cstr rest) ((hpush c _).mpr ⟨rfl, rfl⟩)).1
    · intro heq srv₁ es₁ hstep₁ c' message hin
      rw [hstep] at hstep₁
      obtain ⟨-, rfl⟩ := Prod.mk.inj (Option.some.inj hstep₁)
      obtain ⟨-, rfl⟩ := (hpush c' message).mp hin
      exact ⟨heq, hwhole.mpr (heq ▸ cstr_isPrefix rest)⟩
  · -- the head at most
    refine iff_of_true (fun srv' es hstep c' message hin => ?_) (.inl hshort)
    obtain ⟨rest, hrest⟩ : Http.received client.arrivals <+: r.head :=
      List.prefix_of_prefix_length_le hstream' (List.prefix_append _ _) hshort
    by_cases hnil : rest = []
    · subst hnil
      obtain ⟨stale, hread⟩ := read_of_head hlen hfits
        (show Http.received client.arrivals = r.head ++ [] by rw [← hrest]; simp)
      exact absurd hin (no_push_of_empty hr hfind hread hstep c' message)
    · exact absurd hin (no_push_of_rejected (not_read_of_short hlen hfits hrest hnil) hstep message)

/-- `hello`, for the first peer. -/
def sampleMessage : Http.Request where
  method := ascii "POST"
  path := []
  cmd := ascii "message"
  param := []
  version := ascii "HTTP/1.1"
  headers := [ascii "Pragma: 1", ascii "Content-Length: 5"]
  body := ascii "hello"
  method_ne := by decide
  method_ok := by decide
  version_ne := by decide
  version_ok := by decide
  path_ok := by decide
  cmd_ne := by decide
  cmd_ok := by decide
  param_ne := by decide
  param_ok := by decide
  headers_ne := by decide
  headers_ok := by decide

theorem sampleMessage_posts : PostsMessage sampleMessage where
  method := rfl
  cmd := rfl
  contentLength := by decide +kernel

/-- The message in two segments, with a time-out of the read between them, or not. -/
def sampleSender (cut : Bool) : Client :=
  { arrivals := .data (sampleMessage.head ++ ascii "hel") ::
      (if cut then [.timeout, .data (ascii "lo")] else [.data (ascii "lo")])
    page := none
    icon := ⟨none, none⟩ }

/-- A server on which one peer has signed in. -/
theorem exists_signed_in : ∃ tr srv, Run (Server.iterate deafEnv sampleConfig) sampleStart tr srv ∧
    srv.findPeer sampleMessage.pragma srv.webrtcConnectionList = .ok (some 0) ∧
    ∃ srv' es, srv.iterate deafEnv sampleConfig (.accept (sampleSender true)) = some (srv', es) ∧
      Event.push 0 (ascii "hel") ∈ es := by
  obtain ⟨tr, srv, hrun, hp⟩ := exists_run (Server.iterate deafEnv sampleConfig) sampleStart
    [.accept (sampleClient "signIn" "0")]
    (fun _ srv => decide
      (srv.findPeer sampleMessage.pragma srv.webrtcConnectionList = .ok (some 0)) &&
      (srv.iterate deafEnv sampleConfig (.accept (sampleSender true))).any
        fun x : Server × List Event => decide (Event.push 0 (ascii "hel") ∈ x.2))
    (by decide +kernel)
  obtain ⟨hfind, hpush⟩ := Bool.and_eq_true_iff.mp hp
  refine ⟨tr, srv, hrun, of_decide_eq_true hfind, ?_⟩
  cases hstep : srv.iterate deafEnv sampleConfig (.accept (sampleSender true)) with
  | none =>
    rw [hstep] at hpush
    exact absurd hpush (by simp)
  | some x =>
    rw [hstep] at hpush
    exact ⟨x.1, x.2, rfl, of_decide_eq_true hpush⟩

theorem received_sampleSender (cut : Bool) : Http.received (sampleSender cut).arrivals
    = sampleMessage.head ++ if cut then ascii "hel" else ascii "hello" := by
  cases cut <;> decide +kernel

/-- In two segments, one read after the other, the message is delivered. -/
theorem delivered_sample : ∃ tr srv, Run (Server.iterate deafEnv sampleConfig) sampleStart tr srv ∧
    ∀ srv' es, srv.iterate deafEnv sampleConfig (.accept (sampleSender false)) = some (srv', es) →
      Delivers sampleMessage (sampleSender false) es := by
  obtain ⟨tr, srv, hrun, hfind, -⟩ := exists_signed_in
  have hwhole : Http.received (sampleSender false).arrivals = sampleMessage.render :=
    received_sampleSender false
  have hstream : Http.received (sampleSender false).arrivals <+: sampleMessage.render ++ [] := by
    rw [hwhole, List.append_nil]
  have hfits : (Http.received (sampleSender false).arrivals).length < Http.rwBufferSize := by
    rw [hwhole]
    decide +kernel
  exact ⟨tr, srv, hrun, (delivered_iff List.length_replicate hrun sampleMessage_posts hfind hstream
    hfits).mpr (.inr ⟨by decide, .inl hwhole⟩)⟩

/-- With a time-out between them the first segment alone is: `hel`. -/
theorem not_delivered_split : ∃ tr srv srv' es,
    Run (Server.iterate deafEnv sampleConfig) sampleStart tr srv ∧ PostsMessage sampleMessage ∧
    srv.findPeer sampleMessage.pragma srv.webrtcConnectionList = .ok (some 0) ∧
    Http.received (sampleSender true).arrivals <+: sampleMessage.render ∧
    (Http.received (sampleSender true).arrivals).length < Http.rwBufferSize ∧
    srv.iterate deafEnv sampleConfig (.accept (sampleSender true)) = some (srv', es) ∧
    ¬ Delivers sampleMessage (sampleSender true) es := by
  obtain ⟨tr, srv, hrun, hfind, srv', es, hstep, hpush⟩ := exists_signed_in
  refine ⟨tr, srv, srv', es, hrun, sampleMessage_posts, hfind, ?_, ?_, hstep, fun h => ?_⟩
  · rw [received_sampleSender]
    exact ⟨ascii "lo", by decide +kernel⟩
  · rw [received_sampleSender]
    decide +kernel
  · exact absurd (h 0 (ascii "hel") hpush).1 (by decide)

/-! ## 4. A message without a body -/

/-- A listed connection has this id. -/
def Server.Lists (srv : Server) (pragma : ℕ) : Prop :=
  ∃ c ∈ srv.webrtcConnectionList, (srv.heap c).map WebrtcConnection.peerId = some pragma

/-- The search finds a connection with the id, when one is listed. -/
theorem findPeer_of_lists {es : List Event} {srv : Server} (h : Registry es srv) {pragma : ℕ}
    (hlisted : srv.Lists pragma) :
    ∃ c, srv.findPeer pragma srv.webrtcConnectionList = .ok (some c) := by
  obtain ⟨c, hmem, hpeer⟩ := hlisted
  obtain ⟨conn, hconn, hid⟩ := h.isSome_heap hmem
  have hfound : (srv.webrtcConnectionList.find? fun c => idOf c = pragma).isSome := by
    rw [List.find?_isSome]
    rw [hconn, Option.map_some, hid, Option.some.injEq] at hpeer
    exact ⟨c, hmem, by simpa using hpeer⟩
  obtain ⟨c', hc'⟩ := Option.isSome_iff_exists.mp hfound
  exact ⟨c', by rw [h.findPeer_ok, hc']⟩

/-- The handler on a `message` for a listed peer: it needs the body pointer, and nothing else can
go wrong. -/
theorem dispatch_null_iff {cfg : Http.Config} {srv : Server} {client : Client} {buffer : Bytes}
    {httpReq : Http.HttpReq} {c : ConnPtr} (hcmd : httpReq.url.cmd = ascii "message")
    (hfind : srv.findPeer httpReq.pragma srv.webrtcConnectionList = .ok (some c)) :
    srv.dispatch cfg client buffer httpReq = .error .nullPointer ↔ httpReq.data = none := by
  cases hdata : httpReq.data with
  | none =>
    have hacts : srv.messageActs buffer httpReq = .error .nullPointer := by
      rw [Server.messageActs, hfind, ok_bind]
      simp only [hdata]
    refine iff_of_true ?_ rfl
    unfold Server.dispatch
    dsimp only
    rw [hcmd, if_neg (by decide), if_neg (by decide), if_neg (by decide), if_pos rfl, hacts]
    rfl
  | some data =>
    have hacts : srv.messageActs buffer httpReq
        = .ok [.pushMessage c (cstr (buffer.drop data))] := by
      rw [Server.messageActs, hfind, ok_bind]
      simp only [hdata]
    obtain ⟨writes, buffer', hok⟩ :
        ∃ writes buffer', srv.dispatch cfg client buffer httpReq
          = .ok ([.pushMessage c (cstr (buffer.drop data))] ++ [.respond writes], buffer') :=
      dispatch_message hcmd hacts
    rw [hok]
    simp

/-- **When the body pointer is there.**  In every reachable state, a `message` request for a
listed peer has a body pointer exactly when its first blank line is not the end of what was
received; where it has none, the handler dereferences it. -/
theorem body_pointer_iff {env : Env} {cfg : Http.Config} {buffer buffer' : Bytes}
    {tr : List (Label × List Event)} {srv : Server} {client : Client} {httpReq : Http.HttpReq}
    (hbuf : buffer.length = Http.rwBufferSize)
    (hrun : Run (Server.step env cfg) (Server.start buffer) tr srv)
    (hfits : (Http.received client.arrivals).length < Http.rwBufferSize)
    (hread : Http.readRequest srv.httpRwBuffer client.arrivals = .ok (buffer', true, httpReq))
    (hcmd : httpReq.url.cmd = ascii "message") (hlisted : srv.Lists httpReq.pragma) :
    (httpReq.data ≠ none ↔ ¬ Http.FirstBlank (Http.received client.arrivals)
        (Http.received client.arrivals).length) ∧
      (srv.dispatch cfg client buffer' httpReq = .error .nullPointer ↔ httpReq.data = none) := by
  obtain ⟨c, hfind⟩ := findPeer_of_lists (Registry.of_run hrun) hlisted
  refine ⟨?_, dispatch_null_iff hcmd hfind⟩
  rw [Http.readRequest_eq client.arrivals (length_buffer_of_run hbuf hrun) hfits] at hread
  obtain ⟨answer, hparse, hanswer⟩ := map_eq_ok.mp hread
  obtain ⟨-, rfl⟩ := Prod.mk.inj hanswer
  exact Http.data_isSome_iff hparse

/-- `hello` arrives in two segments. -/
theorem body_pointer_sample : ∃ tr srv buffer' httpReq,
    Run (Server.step deafEnv sampleConfig) sampleStart tr srv ∧
    Http.readRequest srv.httpRwBuffer (sampleSender false).arrivals = .ok (buffer', true, httpReq) ∧
    httpReq.data ≠ none := by
  obtain ⟨tr, srv, hrun, hfind, -⟩ := exists_signed_in
  obtain ⟨tr', hfine, -⟩ := fine_of_coarse hrun
  have hfits : (Http.received (sampleSender false).arrivals).length < Http.rwBufferSize := by
    rw [received_sampleSender]
    decide +kernel
  have hbody : ¬ Http.FirstBlank (Http.received (sampleSender false).arrivals)
      (Http.received (sampleSender false).arrivals).length := by
    intro h
    exact absurd h.1 (by rw [received_sampleSender]; decide +kernel)
  obtain ⟨stale, hread⟩ := read_of_head (length_buffer_of_coarse List.length_replicate hrun) hfits
    (received_sampleSender false)
  obtain ⟨hmem, hid⟩ := findPeer_some hfind
  exact ⟨tr', srv, _, _, hfine, hread,
    (body_pointer_iff List.length_replicate hfine hfits hread rfl ⟨0, hmem, hid⟩).1.mpr hbody⟩

/-- The head of the same request, and the body after the read has timed out. -/
def lateBody : Client :=
  { arrivals := [.data sampleMessage.head, .timeout, .data sampleMessage.body]
    page := none
    icon := ⟨none, none⟩ }

/-- The handler reads from a null pointer. -/
theorem body_pointer_null : ∃ tr srv buffer' httpReq,
    Run (Server.step deafEnv sampleConfig) sampleStart tr srv ∧
    (Http.received lateBody.arrivals).length < Http.rwBufferSize ∧
    Http.readRequest srv.httpRwBuffer lateBody.arrivals = .ok (buffer', true, httpReq) ∧
    httpReq.url.cmd = ascii "message" ∧ srv.Lists httpReq.pragma ∧ httpReq.data = none ∧
    srv.dispatch sampleConfig lateBody buffer' httpReq = .error .nullPointer := by
  obtain ⟨tr, srv, hrun, hfind, -⟩ := exists_signed_in
  obtain ⟨tr', hfine, -⟩ := fine_of_coarse hrun
  have hhead : Http.received lateBody.arrivals = sampleMessage.head ++ [] := by
    decide +kernel
  have hfits : (Http.received lateBody.arrivals).length < Http.rwBufferSize := by
    rw [hhead]
    decide +kernel
  obtain ⟨stale, hread⟩ :=
    read_of_head (length_buffer_of_coarse List.length_replicate hrun) hfits hhead
  obtain ⟨hmem, hid⟩ := findPeer_some hfind
  exact ⟨tr', srv, _, _, hfine, hfits, hread, rfl, ⟨0, hmem, hid⟩, rfl,
    (dispatch_null_iff (c := 0) rfl hfind).mpr rfl⟩

end Reflector
