/-
# A connection and its worker (`webrtc_connection.cpp`, `message_queue.cpp`)

A `WebrtcConnection` is shared by two threads.  The main loop pushes the client's messages into
its queue and parks the client's wait sockets in its slot; the worker (`Run`) takes messages
out of the queue, hands them to the observer, and answers a parked socket when the observer has
something to say.

The worker is a program counter (`Pc`) and one step for each of its statements that touches
what another thread can see.  Three steps do more than one access, and in each of them the
second one touches nothing that another thread can see or change in between: a message taken
out of the queue is handed on, a message taken out of the observer's queue is written to the
socket in the slot (whose mutex the worker holds), and `m_state` is the last thing `Run`
assigns.  So the string variable that both directions share never holds a message between two
steps.

`dequeue` is the one statement with a choice: a wait ends with a wake-up, after which the queue
is looked at again, or with a TIME-OUT, after which it is not, whatever has arrived.
-/
import Reflector.Http.Reply
import Reflector.Signaling.Observer

namespace Reflector

open Base Signaling

/-! ## 1. The data model -/

/-- Objects are known by the order in which they were allocated. -/
abbrev SockPtr := ℕ

abbrev ConnPtr := ℕ

inductive ConnectionState
  | init | connected | error | ended
  deriving DecidableEq, Repr

/-- Where the worker is. -/
inductive Pc
  /-- The thread is started; `Run` has not begun. -/
  | start
  /-- `while (m_alive)`. -/
  | loop
  /-- `dequeue`, before it looks at the queue. -/
  | dequeue
  /-- `dequeue`, in `wait_for`. -/
  | waiting
  /-- `getSignalingMessageCount() > 0`. -/
  | count
  /-- Before `m_mutex` is taken. -/
  | lock
  /-- `m_mutex` held: the slot is looked at, and a message sent. -/
  | slot
  /-- `m_mutex` held: the socket is about to be deleted. -/
  | sent
  /-- `m_mutex` held: the slot is about to be cleared. -/
  | deleted
  /-- The ICE state is looked at. -/
  | ice
  /-- `ProcessMessages`. -/
  | process
  /-- Behind the loop. -/
  | leaving
  /-- `Run` has returned. -/
  | done
  deriving DecidableEq, Repr

structure WebrtcConnection where
  peerId : ℕ
  clientSocket : Option SockPtr
  queue : List Bytes
  state : ConnectionState
  alive : Bool
  pc : Pc
  /-- `Run` makes it; nothing reaches it before that. -/
  observer : Observer
  /-- Clock readings are in nanoseconds. -/
  startTime : ℤ
  deriving DecidableEq, Repr

/-- What can be seen of a run. -/
inductive Event
  | signIn (c : ConnPtr) (peerId : ℕ)
  | push (c : ConnPtr) (message : Bytes)
  | park (c : ConnPtr) (s : SockPtr)
  | hand (c : ConnPtr) (message : Bytes)
  | observed (c : ConnPtr) (calls : List Call)
  | relay (c : ConnPtr) (s : SockPtr) (message : Bytes) (writes : List Bytes)
  | respond (s : SockPtr) (writes : List Bytes)
  | close (s : SockPtr)
  | delete (c : ConnPtr)
  deriving DecidableEq, Repr

namespace WebrtcConnection

/-! ## 2. What the main loop does to it -/

/-- The constructor, and `connect`. -/
def new (peerId : ℕ) : WebrtcConnection :=
  { peerId := peerId, clientSocket := none, queue := [], state := .init, alive := true,
    pc := .start, observer := .new, startTime := 0 }

def pushMessage (conn : WebrtcConnection) (message : Bytes) : WebrtcConnection :=
  { conn with queue := conn.queue ++ [message] }

/-- The worker holds `m_mutex`. -/
def Locked (conn : WebrtcConnection) : Prop :=
  conn.pc = .slot ∨ conn.pc = .sent ∨ conn.pc = .deleted

instance (conn : WebrtcConnection) : Decidable conn.Locked :=
  inferInstanceAs (Decidable (_ ∨ _))

/-- Blocks while the worker holds the mutex. -/
def setOutboundSocket (conn : WebrtcConnection) (s : SockPtr) : Option WebrtcConnection :=
  if conn.Locked then none else some { conn with clientSocket := some s }

/-! ## 3. The worker -/

/-- What moves the worker: its next statement, with the clock and with what a peer connection's
constructors would return; or the end of a wait by time-out. -/
inductive Act
  | step (now : ℤ) (created : Created)
  | timeout
  deriving DecidableEq, Repr

/-- `MAX_CONNECTION_TIME_SEC`. -/
def maxConnectionTimeSec : ℤ := 60

/-- `while (m_queue.size() == 0)`, and what follows it. -/
def dequeue (env : Env) (c : ConnPtr) (conn : WebrtcConnection) (created : Created) :
    Option (WebrtcConnection × List Event) :=
  match conn.queue with
  | [] => some ({ conn with pc := .waiting }, [])
  | message :: queue =>
    match conn.observer.onSignalingMessage env message created with
    | .error _ => none
    | .ok (observer, calls) =>
      some ({ conn with queue := queue, observer := observer, pc := .count },
        [.hand c message, .observed c calls])

/-- With `m_mutex` held: a message for the socket in the slot, if there are both. -/
def relay (c : ConnPtr) (conn : WebrtcConnection) : Option (WebrtcConnection × List Event) :=
  match conn.clientSocket with
  | none => some ({ conn with pc := .ice }, [])
  | some s =>
    match conn.observer.getSignalingMessage with
    | none => some ({ conn with pc := .ice }, [])
    | some (message, observer) =>
      match Http.sendMessage conn.peerId message with
      | .error _ => none
      | .ok writes =>
        some ({ conn with observer := observer, pc := .sent }, [.relay c s message writes])

/-- A call that has disconnected ends; one that has not connected ends after a minute. -/
def checkIce (conn : WebrtcConnection) (now : ℤ) : WebrtcConnection :=
  let localIceState := conn.observer.getIceState
  if localIceState = .disconnected then { conn with alive := false }
  else if localIceState ≠ .connected then
    let diff := (now - conn.startTime).tdiv (10 ^ 9)
    if diff ≥ maxConnectionTimeSec then { conn with alive := false } else conn
  else conn

/-- The worker's next statement. -/
def next (env : Env) (c : ConnPtr) (conn : WebrtcConnection) (now : ℤ) (created : Created) :
    Option (WebrtcConnection × List Event) :=
  match conn.pc with
  | .start => some ({ conn with state := .connected, startTime := now, pc := .loop }, [])
  | .loop => some ({ conn with pc := if conn.alive then .dequeue else .leaving }, [])
  | .dequeue | .waiting => conn.dequeue env c created
  | .count =>
    some ({ conn with
      pc := if conn.observer.getSignalingMessageCount > 0 then .lock else .ice }, [])
  | .lock => some ({ conn with pc := .slot }, [])
  | .slot => conn.relay c
  | .sent => some ({ conn with pc := .deleted }, (conn.clientSocket.map Event.close).toList)
  | .deleted => some ({ conn with clientSocket := none, pc := .ice }, [])
  | .ice => some ({ conn.checkIce now with pc := .process }, [])
  | .process => some ({ conn with pc := .loop }, [])
  | .leaving => some ({ conn with state := .ended, pc := .done }, [])
  | .done => none

/-- One step of the worker of connection `c`. -/
def work (env : Env) (c : ConnPtr) (conn : WebrtcConnection) :
    Act → Option (WebrtcConnection × List Event)
  | .step now created => conn.next env c now created
  | .timeout => if conn.pc = .waiting then some ({ conn with pc := .count }, []) else none

/-- A callback of WebRTC, while there is an observer. -/
def callback (env : Env) (c : ConnPtr) (conn : WebrtcConnection) (cb : Callback) :
    Option (WebrtcConnection × List Event) :=
  if conn.pc = .start ∨ conn.pc = .done then none
  else
    match cb with
    -- messages come from the worker alone
    | .onSignalingMessage _ _ => none
    | cb =>
      match conn.observer.call env cb with
      | .error _ => none
      | .ok (observer, calls) => some ({ conn with observer := observer }, [.observed c calls])

end WebrtcConnection

end Reflector
