import Reflector.Base.Run
import Reflector.Base.Rank
import Reflector.Base.Text
import Reflector.Base.Printf
import Reflector.Base.Fill
import Reflector.Base.JsonText
import Reflector.Base.Runs
import Reflector.Cxx
import Reflector.Http.Request
import Reflector.Http.Lines
import Reflector.Http.Tokens
import Reflector.Http.RoundTrip
import Reflector.Http.Reply
import Reflector.Http.Complete
import Reflector.Http.Files
import Reflector.Http.Injection
import Reflector.Http.Receive
import Reflector.Http.Blank
import Reflector.Http.Shared
import Reflector.Http.Target
import Reflector.Http.Fields
import Reflector.Signaling.Json
import Reflector.Signaling.Observer
import Reflector.Signaling.Outgoing
import Reflector.Signaling.Candidates
import Reflector.Signaling.Dispatch
import Reflector.Signaling.Documents
import Reflector.Signaling.Framing
import Reflector.Signaling.Rounds
import Reflector.Jsoncpp.Reader
import Reflector.Base.Outcome
import Reflector.Base.Grammar
import Reflector.Jsoncpp.Safety
import Reflector.Jsoncpp.Complete
import Reflector.Jsoncpp.Faults
import Reflector.Jsoncpp.Uncommented
import Reflector.Jsoncpp.Writer
import Reflector.Jsoncpp.Returned
import Reflector.Signaling.Delivered
import Reflector.Signaling.Heard
import Reflector.Signaling.Fatal
import Reflector.Server.Connection
import Reflector.Server.Main
import Reflector.Server.Steps
import Reflector.Server.Requests
import Reflector.Server.Registry
import Reflector.Server.Sockets
import Reflector.Server.Orphans
import Reflector.Server.Lifetime
import Reflector.Server.Disposal
import Reflector.Server.Relay
import Reflector.Server.Peer
import Reflector.Server.Mirror
import Reflector.Server.Delivery
import Reflector.Server.Observed
import Reflector.Server.Progress
import Reflector.Server.Teardown
import Reflector.Server.Getopt
import Reflector.Server.Options
import Reflector.Page.Script
import Reflector.Page.Session
import Reflector.Page.Outgoing
