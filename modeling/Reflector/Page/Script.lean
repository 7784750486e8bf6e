/-
# The page (`bin/index.html`)

The script of the landing page is a handful of handlers that share global variables.  The browser
calls one handler at a time and lets it run to its end, so a run of the page is a sequence of
events, in any order the browser may choose: clicks, the progress of requests, expired timers,
`canplay`, and promises that are settled.

A `Page` has the script's variables, and beside them what the browser keeps for it: the requests
with their states, the peer connections that are open, the interval timers that run, and the calls
of `waitOn` that `setTimeout` has scheduled.  The variables name these things, but they need not
name all of them: `req`, `reqGet`, `peerConnection` and `statusTimer` are simply assigned when
something new is made, and every handler of a request looks at the request that the VARIABLE
names, not at the one it was called for.

What a handler does not get to see, and what changes none of this, is left out: the contents of
the page and the statistics.  The messages it sends are added by a `Caller`.
-/
import Reflector.Base.Run
import Reflector.Base.Text

namespace Reflector

open Base

/-! ## 1. Requests -/

inductive ReadyState
  | unsent | opened | headersReceived | loading | done
  deriving DecidableEq, Repr

/-- An `XMLHttpRequest`.  The script sends a request right after it has opened it. -/
structure Xhr where
  /-- The `Pragma` that it was sent with, if any. -/
  sentPragma : Option (Option ℕ)
  readyState : ReadyState
  status : ℕ
  /-- `parseInt` of the response's `Pragma`; `none` is `NaN`. -/
  pragma : Option ℕ
  responseText : Bytes
  deriving DecidableEq, Repr

namespace Xhr

/-- Opened and sent. -/
def sent (sentPragma : Option (Option ℕ)) : Xhr :=
  { sentPragma := sentPragma, readyState := .opened, status := 0, pragma := none,
    responseText := [] }

/-- Sent, and neither done nor aborted. -/
def inFlight (xhr : Xhr) : Bool :=
  match xhr.readyState with
  | .opened | .headersReceived | .loading => true
  | .unsent | .done => false

/-- What the network does with a request. -/
inductive Progress
  | headers (status : ℕ) (pragma : Option ℕ)
  | loading
  | done (responseText : Bytes)
  /-- A network error: done, with status 0. -/
  | error
  deriving DecidableEq, Repr

/-- The request after a change of its state; `none` where there is no such change. -/
def progress (xhr : Xhr) : Progress → Option Xhr
  | .headers status pragma =>
    if xhr.readyState = .opened then
      some { xhr with readyState := .headersReceived, status := status, pragma := pragma }
    else none
  | .loading =>
    if xhr.readyState = .headersReceived ∨ xhr.readyState = .loading then
      some { xhr with readyState := .loading }
    else none
  | .done responseText =>
    if xhr.readyState = .headersReceived ∨ xhr.readyState = .loading then
      some { xhr with readyState := .done, responseText := responseText }
    else none
  | .error =>
    if xhr.inFlight then
      some { xhr with readyState := .done, status := 0, pragma := none, responseText := [] }
    else none

/-- `abort`.  A request in flight is done with status 0 for a moment, in which its handler is
called; both handlers of this page return at such a status. -/
def abort (xhr : Xhr) : Xhr :=
  { xhr with readyState := .unsent, status := 0, pragma := none, responseText := [] }

/-- `readyState == 4` and `status == 200`. -/
def answered (xhr : Xhr) : Bool := xhr.readyState == .done && xhr.status == 200

end Xhr

/-! ## 2. The page -/

/-- Which texts the browser accepts as a session description and as a candidate: for the others
`JSON.parse` or the constructor throws. -/
structure Browser where
  description : Bytes → Bool
  candidate : Bytes → Bool

structure Page where
  /-- Whether `mediaStream` is not null. -/
  mediaStream : Bool
  /-- The lengths of the two arrays, and the devices that are selected. -/
  micDevice : ℕ
  micIndex : ℕ
  cameraDevice : ℕ
  cameraIndex : ℕ
  peerConnection : Option ℕ
  peerId : Option ℕ
  connected : Bool
  req : Option ℕ
  reqGet : Option ℕ
  statusTimer : Option ℕ
  /-- The requests of `signIn` and of `waitOn`, in the order in which they were made. -/
  signIns : List Xhr
  waits : List Xhr
  /-- The calls of `waitOn` that are scheduled. -/
  scheduled : ℕ
  /-- The peer connections that were created and not closed, and how many were created. -/
  openPeers : List ℕ
  createdPeers : ℕ
  /-- The interval timers that run, and how many were started. -/
  timers : List ℕ
  startedTimers : ℕ
  /-- The promises of `getUserMedia` that are not settled. -/
  userMedia : ℕ
  /-- Whether `enumerateDevices` has answered. -/
  enumerated : Bool
  deriving DecidableEq, Repr

/-- Something that shows of a handler. -/
inductive PageEvent
  /-- It threw; what it did before that stays done. -/
  | raised
  /-- `stopRecording` returned. -/
  | stopped
  deriving DecidableEq, Repr

inductive PageLabel
  /-- A click on the button that says "Connect" or "Disconnect". -/
  | click
  | signIn (i : ℕ) (progress : Xhr.Progress)
  | wait (i : ℕ) (progress : Xhr.Progress)
  /-- A scheduled `waitOn` is due. -/
  | timeout
  | canPlay
  /-- `getUserMedia` is settled. -/
  | userMedia (granted : Bool)
  | devices (mics cameras : ℕ)
  | selectMic (i : ℕ)
  | selectCamera (i : ℕ)
  deriving DecidableEq, Repr

namespace Page

/-- The page as it is loaded. -/
def start : Page :=
  { mediaStream := false, micDevice := 0, micIndex := 0, cameraDevice := 0, cameraIndex := 0,
    peerConnection := none, peerId := some 0, connected := false, req := none, reqGet := none,
    statusTimer := none, signIns := [], waits := [], scheduled := 0, openPeers := [],
    createdPeers := 0, timers := [], startedTimers := 0, userMedia := 0, enumerated := false }

/-- The request that `req` names. -/
def reqXhr (page : Page) : Option Xhr := page.req.bind fun i => page.signIns[i]?

/-- The request that `reqGet` names. -/
def reqGetXhr (page : Page) : Option Xhr := page.reqGet.bind fun i => page.waits[i]?

/-! ## 3. The functions of the script -/

def signIn (page : Page) : Page :=
  { page with req := some page.signIns.length, signIns := page.signIns ++ [.sent none] }

/-- `timeout` is never set on the request, so its `ontimeout` is never called. -/
def waitOn (page : Page) : Page :=
  { page with
    reqGet := some page.waits.length
    waits := page.waits ++ [.sent (some page.peerId)] }

/-- The options are built from the selected devices before it is asked whether there are any. -/
def getMediaStream (page : Page) : Page × List PageEvent :=
  let page := { page with
    peerConnection := some page.createdPeers
    openPeers := page.openPeers ++ [page.createdPeers]
    createdPeers := page.createdPeers + 1 }
  if page.micIndex < page.micDevice ∧ page.cameraIndex < page.cameraDevice then
    ({ page with userMedia := page.userMedia + 1 }, [])
  else (page, [.raised])

/-- The handler of a sign-in request. -/
def onSignIn (page : Page) : Page × List PageEvent :=
  match page.reqXhr with
  -- `req` is null
  | none => (page, [.raised])
  | some xhr =>
    if xhr.answered then
      let page := { page with peerId := xhr.pragma }
      match page.waitOn.getMediaStream with
      | (page, []) => ({ page with connected := true }, [])
      | (page, es) => (page, es)
    else (page, [])

/-- Whether a response is dealt with, or the handler throws. -/
def accepts (browser : Browser) (peerConnection : Option ℕ) (responseText : Bytes) : Bool :=
  match pieces (ascii "->") responseText with
  | [] => false
  | t :: ts =>
    if t = ascii "SDP" then
      match ts with
      | [] => false
      | t₁ :: _ => browser.description t₁ && peerConnection.isSome
    else if t = ascii "ICE" then
      if peerConnection.isSome then
        match ts with
        | [] => false
        | t₁ :: _ => (pieces (ascii "######") t₁).all browser.candidate
      else true
    -- the log of the last branch names a variable that does not exist
    else false

/-- The handler of a wait request. -/
def onWait (browser : Browser) (page : Page) : Page × List PageEvent :=
  match page.reqGet, page.reqGetXhr with
  | some i, some xhr =>
    if xhr.answered then
      if accepts browser page.peerConnection xhr.responseText then
        ({ page with
          waits := page.waits.modify i Xhr.abort
          reqGet := none
          scheduled := page.scheduled + 1 }, [])
      else (page, [.raised])
    else (page, [])
  -- `reqGet` is null
  | _, _ => (page, [.raised])

def startPlaying (page : Page) : Page :=
  match page.peerConnection with
  | none => page
  | some _ =>
    { page with
      statusTimer := some page.startedTimers
      timers := page.timers ++ [page.startedTimers]
      startedTimers := page.startedTimers + 1 }

/-- `mediaStream.getTracks()` comes first, and nothing else is done if it throws. -/
def stopRecording (page : Page) : Page × List PageEvent :=
  if page.mediaStream then
    ({ page with
      statusTimer := none
      timers := page.timers.filter fun t => some t != page.statusTimer
      peerConnection := none
      openPeers := page.openPeers.filter fun i => some i != page.peerConnection
      peerId := some 0
      req := none
      signIns := page.req.elim page.signIns fun i => page.signIns.modify i Xhr.abort
      reqGet := none
      waits := page.reqGet.elim page.waits fun i => page.waits.modify i Xhr.abort
      connected := false }, [.stopped])
  else (page, [.raised])

/-- `startRecording` signs in; the rest of it is for the eye. -/
def handleConnect (page : Page) : Page × List PageEvent :=
  if page.connected then page.stopRecording else (page.signIn, [])

/-! ## 4. The events -/

/-- A change of the state of request `i`, seen by nobody yet. -/
def changeSignIn (page : Page) (i : ℕ) (progress : Xhr.Progress) : Option Page :=
  (page.signIns[i]?.bind (·.progress progress)).map fun xhr =>
    { page with signIns := page.signIns.set i xhr }

def changeWait (page : Page) (i : ℕ) (progress : Xhr.Progress) : Option Page :=
  (page.waits[i]?.bind (·.progress progress)).map fun xhr =>
    { page with waits := page.waits.set i xhr }

/-- **The page**, event by event. -/
def step (browser : Browser) (page : Page) : PageLabel → Option (Page × List PageEvent)
  | .click => some page.handleConnect
  | .signIn i progress => (page.changeSignIn i progress).map onSignIn
  | .wait i progress => (page.changeWait i progress).map (onWait browser)
  | .timeout =>
    if page.scheduled = 0 then none
    else some ({ page with scheduled := page.scheduled - 1 }.waitOn, [])
  | .canPlay => some (page.startPlaying, [])
  | .userMedia granted =>
    if page.userMedia = 0 then none
    else some ({ page with
      userMedia := page.userMedia - 1
      mediaStream := page.mediaStream || granted }, [])
  | .devices mics cameras =>
    if page.enumerated then none
    else some ({ page with micDevice := mics, cameraDevice := cameras, enumerated := true }, [])
  | .selectMic i => if i < page.micDevice then some ({ page with micIndex := i }, []) else none
  | .selectCamera i =>
    if i < page.cameraDevice then some ({ page with cameraIndex := i }, []) else none

/-- The `/wait` polls that are outstanding or scheduled. -/
def polls (page : Page) : ℕ := page.waits.countP Xhr.inFlight + page.scheduled

end Page

end Reflector
