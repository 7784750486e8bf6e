/-
# The main loop and the system (`server.cpp`)

One thread accepts sockets, reads a request from each, and dispatches it; one worker per
connection runs beside it.  `step` is the system at the grain of single statements: the main
loop's place in its iteration is `MainPc`, and between any two of its statements any worker or
callback may move.  `iterate` is the same main loop taking a whole iteration at once, which is
how one thinks of it when no other thread matters; every coarse run is a fine run
(`fine_of_coarse`).

The list of connections, the peer id counter, the flag `closeWait` and the buffer belong to the
main loop alone, so a request is read, parsed and dispatched in one go: `dispatch` gives the
statements (`MainAct`) that still have to touch something another thread can see, or the
client's socket.

A step that would dereference a null or dangling pointer, or raise in any other way, does not
exist: the process is gone.
-/
import Reflector.Http.Receive
import Reflector.Server.Connection

namespace Reflector

open Base Signaling

/-! ## 1. State -/

/-- What is left to do of an iteration. -/
inductive MainAct
  /-- `new WebrtcConnection(peerId++)`, `push_back`, `connect`. -/
  | newConnection
  | pushMessage (c : ConnPtr) (message : Bytes)
  | setOutboundSocket (c : ConnPtr)
  /-- `closeWait = false`. -/
  | keepOpen
  | respond (writes : List Bytes)
  /-- `if (closeWait) delete clientSocket`. -/
  | closeUnlessWaiting
  /-- The `delete clientSocket` of a request that could not be parsed. -/
  | discard
  deriving DecidableEq, Repr

/-- Where the main loop is. -/
inductive MainPc
  | accept
  /-- The cleanup loop; `i` is the iterator. -/
  | cleanup (i : ℕ)
  | handle (s : SockPtr) (acts : List MainAct)
  deriving DecidableEq, Repr

structure Server where
  peerId : ℕ
  webrtcConnectionList : List ConnPtr
  heap : ConnPtr → Option WebrtcConnection
  closeWait : Bool
  httpRwBuffer : Bytes
  nextConn : ConnPtr
  nextSock : SockPtr
  pc : MainPc

/-- Before the first iteration; the buffer is not initialised. -/
def Server.start (httpRwBuffer : Bytes) : Server :=
  { peerId := 1, webrtcConnectionList := [], heap := fun _ => none, closeWait := true,
    httpRwBuffer := httpRwBuffer, nextConn := 0, nextSock := 0, pc := .accept }

/-- What an accepted client brings: its bytes as they arrive, and the files as they are then; of
the page, what a stream in text mode makes of its line ends. -/
structure Client where
  arrivals : List Http.Arrival
  page : Option Bytes
  icon : Http.IconFile
  deriving DecidableEq, Repr

inductive Label
  /-- `accept` returned null. -/
  | idle
  | accept (client : Client)
  /-- The main loop's next statement. -/
  | main
  | worker (c : ConnPtr) (act : WebrtcConnection.Act)
  | callback (c : ConnPtr) (cb : Callback)
  deriving DecidableEq, Repr

namespace Server

/-! ## 2. Dispatching a request -/

/-- The loop over the list, up to the connection with this id. -/
def findPeer (srv : Server) (pragma : ℕ) : List ConnPtr → Except Raise (Option ConnPtr)
  | [] => .ok none
  | c :: list =>
    match srv.heap c with
    | none => .error .dangling
    | some conn => if conn.peerId = pragma then .ok (some c) else srv.findPeer pragma list

/-- `message`: the body becomes a `std::string`, up to its first NUL. -/
def messageActs (srv : Server) (buffer : Bytes) (httpReq : Http.HttpReq) :
    Except Raise (List MainAct) := do
  match ← srv.findPeer httpReq.pragma srv.webrtcConnectionList with
  | none => .ok []
  | some c =>
    match httpReq.data with
    | none => .error .nullPointer
    | some data => .ok [.pushMessage c (cstr (buffer.drop data))]

/-- `wait`. -/
def waitActs (srv : Server) (httpReq : Http.HttpReq) : Except Raise (List MainAct) := do
  match ← srv.findPeer httpReq.pragma srv.webrtcConnectionList with
  | none => .ok []
  | some c => .ok [.setOutboundSocket c, .keepOpen]

/-- The seven branches, each with what it leaves in the buffer. -/
def dispatch (cfg : Http.Config) (srv : Server) (client : Client) (buffer : Bytes)
    (httpReq : Http.HttpReq) : Except Raise (List MainAct × Bytes) := do
  let cmd := httpReq.url.cmd
  if cmd = [] ∨ cmd = ascii "" ∨ cmd = ascii "index.html" then
    let reply ← Http.sendReplyPage cfg client.page Http.landingMime buffer
    .ok ([.respond reply.writes], reply.outBuffer)
  else if cmd = ascii "signIn" then
    -- the reply carries the new connection's id
    let reply ← Http.sendReply httpReq.origin srv.peerId [] buffer
    .ok ([.newConnection, .respond reply.writes], reply.outBuffer)
  else if cmd = ascii "signOut" then .ok ([], buffer)
  else if cmd = ascii "message" then
    let acts ← srv.messageActs buffer httpReq
    let reply ← Http.sendReply httpReq.origin httpReq.pragma [] buffer
    .ok (acts ++ [.respond reply.writes], reply.outBuffer)
  else if cmd = ascii "wait" then
    let acts ← srv.waitActs httpReq
    .ok (acts, buffer)
  else if cmd = ascii "favicon.ico" then
    let reply ← Http.sendReplyFavicon client.icon Http.iconMime buffer
    .ok ([.respond reply.writes], reply.outBuffer)
  else
    let reply ← Http.sendReplyError (ascii "Invalid Request!") buffer
    .ok ([.respond reply.writes], reply.outBuffer)

/-! ## 3. The main loop, statement by statement -/

/-- An accepted socket: read, parse, and know what is to be done. -/
def begin (cfg : Http.Config) (srv : Server) (client : Client) : Except Raise Server := do
  let s := srv.nextSock
  let (buffer, parsingDone, httpReq) ← Http.readRequest srv.httpRwBuffer client.arrivals
  if parsingDone then
    let (acts, buffer) ← srv.dispatch cfg client buffer httpReq
    .ok { srv with
      httpRwBuffer := buffer, nextSock := s + 1, pc := .handle s (acts ++ [.closeUnlessWaiting]) }
  else .ok { srv with httpRwBuffer := buffer, nextSock := s + 1, pc := .handle s [.discard] }

/-- `connection->setX(...)`: the object behind the pointer. -/
def setConn (srv : Server) (c : ConnPtr) (conn : Option WebrtcConnection) : Server :=
  { srv with heap := Function.update srv.heap c conn }

def exec (srv : Server) (s : SockPtr) : MainAct → Option (Server × List Event)
  | .newConnection =>
    let c := srv.nextConn
    some ({ srv with
      peerId := (srv.peerId + 1) % 2 ^ 32
      webrtcConnectionList := srv.webrtcConnectionList ++ [c]
      heap := Function.update srv.heap c (some (.new srv.peerId))
      nextConn := c + 1 }, [.signIn c srv.peerId])
  | .pushMessage c message =>
    (srv.heap c).map fun conn =>
      (srv.setConn c (some (conn.pushMessage message)), [.push c message])
  | .setOutboundSocket c =>
    match srv.heap c with
    | none => none
    | some conn => (conn.setOutboundSocket s).map fun conn =>
        (srv.setConn c (some conn), [.park c s])
  | .keepOpen => some ({ srv with closeWait := false }, [])
  | .respond writes => some (srv, [.respond s writes])
  | .closeUnlessWaiting => some (srv, if srv.closeWait then [.close s] else [])
  | .discard => some (srv, [.close s])

/-- One turn of the cleanup loop: `erase` gives the iterator of the element behind. -/
def cleanup (srv : Server) (i : ℕ) : Option (Server × List Event) :=
  match srv.webrtcConnectionList[i]? with
  | none => some ({ srv with pc := .accept }, [])
  | some c =>
    match srv.heap c with
    | none => none
    | some conn =>
      if conn.state = .ended then
        some ({ srv with
          webrtcConnectionList := srv.webrtcConnectionList.eraseIdx i
          heap := Function.update srv.heap c none
          pc := .cleanup i }, [.delete c])
      else some ({ srv with pc := .cleanup (i + 1) }, [])

/-- The main loop's next statement, inside an iteration. -/
def advance (srv : Server) : Option (Server × List Event) :=
  match srv.pc with
  | .accept => none
  | .cleanup i => srv.cleanup i
  | .handle _ [] => some ({ srv with pc := .accept }, [])
  | .handle s (act :: acts) =>
    (srv.exec s act).map fun (srv, es) => ({ srv with pc := .handle s acts }, es)

/-! ## 4. The system -/

/-- A move of the worker or of a callback of connection `c`. -/
def onConn (srv : Server) (c : ConnPtr)
    (move : WebrtcConnection → Option (WebrtcConnection × List Event)) :
    Option (Server × List Event) :=
  match srv.heap c with
  | none => none
  | some conn => (move conn).map fun (conn, es) => (srv.setConn c (some conn), es)

/-- **The system**, statement by statement. -/
def step (env : Env) (cfg : Http.Config) (srv : Server) : Label → Option (Server × List Event)
  | .idle => if srv.pc = .accept then some ({ srv with pc := .cleanup 0 }, []) else none
  | .accept client =>
    if srv.pc = .accept then (srv.begin cfg client).toOption.map fun srv => (srv, []) else none
  | .main => srv.advance
  | .worker c act => srv.onConn c fun conn => conn.work env c act
  | .callback c cb => srv.onConn c fun conn => conn.callback env c cb

/-! ## 5. Whole iterations -/

/-- How many statements the iteration still has. -/
def left (srv : Server) : ℕ :=
  match srv.pc with
  | .accept => 0
  | .cleanup i => srv.webrtcConnectionList.length - i + 1
  | .handle _ acts => acts.length + 1

/-- `n` statements of the main loop, with nothing in between. -/
def advances : ℕ → Server → Option (Server × List Event)
  | 0, srv => some (srv, [])
  | n + 1, srv =>
    match srv.advance with
    | none => none
    | some (srv, es) => (advances n srv).map fun (srv, es') => (srv, es ++ es')

/-- **The system, iteration by iteration**: the cleanup pass and the handling of a request are
one step each. -/
def iterate (env : Env) (cfg : Http.Config) (srv : Server) (l : Label) :
    Option (Server × List Event) :=
  match l with
  | .main => none
  | .worker _ _ | .callback _ _ => srv.step env cfg l
  | .idle | .accept _ =>
    match srv.step env cfg l with
    | none => none
    | some (srv, es) => (advances srv.left srv).map fun (srv, es') => (srv, es ++ es')

end Server

end Reflector
