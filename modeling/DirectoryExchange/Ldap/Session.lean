import DirectoryExchange.Connection
import DirectoryExchange.Ldap.FilterSyntax
import DirectoryExchange.Ldap.ReceivedEntry
import DirectoryExchange.Ldap.Request
import DirectoryExchange.Log

/-!
# Sessions

A session sends requests to an LDAP server, one at a time, and takes its replies.  The server may go
away without a reply; then the session is over, and nothing more is sent.
-/

namespace DirectoryExchange.Ldap

/-- What a server replies. -/
structure Reply where
  /-- How the operation went. -/
  code : ResultCode
  /-- The server's own words. -/
  message : String
  /-- The entries that a search found. -/
  entries : List RawEntry
  deriving DecidableEq, Repr

/-- A server with states `σ`.  Where it gives no reply, it goes away. -/
structure Server (σ : Type) where
  /-- Answers a request. -/
  answer : σ → Request → Option Reply × σ

/-- A session with a server. -/
structure Session (σ : Type) where
  /-- The state of the server. -/
  state : σ
  /-- Whether the server is there. -/
  alive : Bool := true
  /-- The requests sent so far. -/
  sent : List Request := []

namespace Session

variable {σ : Type}

/-- The error of a session whose server has gone away. -/
def gone : ConnectionError := ⟨"the server has gone away"⟩

/-- The error of a filter that cannot be sent. -/
def badFilter : ConnectionError := ⟨"the filter is not well-formed"⟩

/-- Opens a session, and what is told of it. -/
def connect (state : σ) : Session σ × List LogEvent :=
  ({ state }, [.info "connected to LDAP server"])

/-- Sends a request and waits for the reply. -/
def exchange (server : Server σ) (s : Session σ) (request : Request) :
    Except ConnectionError Reply × Session σ :=
  if s.alive then
    let (reply, state) := server.answer s.state request
    let sent := s.sent ++ [request]
    match reply with
    | some reply => (.ok reply, { state, alive := true, sent })
    | none => (.error gone, { state, alive := false, sent })
  else (.error gone, s)

/-- A reply as the outcome of an operation: any code but that of success is a refusal. -/
def outcome : Except ConnectionError Reply → Except OperationError Unit
  | .error e => .error (.connection e)
  | .ok reply =>
    if reply.code.isSuccess then .ok ()
    else .error (.directory ⟨reply.code, reply.message⟩)

/-- Authenticates with a name and password, and what is told of it. -/
def bind (server : Server σ) (s : Session σ) (dn password : String) :
    Except OperationError Unit × Session σ × List LogEvent :=
  let (reply, s) := s.exchange server (.bind dn password)
  match outcome reply with
  | .ok _ => (.ok (), s, [.info "bound to LDAP server"])
  | .error e => (.error e, s, [])

/-- Has the server carry out a change. -/
def apply (server : Server σ) (s : Session σ) (record : ChangeRecord) :
    Except OperationError Unit × Session σ :=
  let (reply, s) := s.exchange server (.ofRecord record)
  (outcome reply, s)

/-- The result of a search from the server's reply. -/
def resultOf (reply : Reply) : Except OperationError SearchResult :=
  match reply.entries.mapM fun raw => (ReceivedEntry.ofRaw raw).toEntry with
  | .ok entries => .ok ⟨reply.code, reply.message, entries⟩
  | .error e => .error (.directory e)

/-- Has the server look for entries.  A filter is sent in its one text. -/
def search (server : Server σ) (s : Session σ) (request : SearchRequest) :
    Except OperationError SearchResult × Session σ :=
  match WireFilter.parse? request.filter with
  | none => (.error (.connection badFilter), s)
  | some filter =>
    match s.exchange server (.search { request with filter := filter.text } allAttributes) with
    | (.ok reply, s) => (resultOf reply, s)
    | (.error e, s) => (.error (.connection e), s)

/-- Ends the session.  No reply is waited for. -/
def unbind (s : Session σ) : Except ConnectionError Unit × Session σ :=
  if s.alive then (.ok (), { s with alive := false, sent := s.sent ++ [.unbind] })
  else (.error gone, s)

/-- A session as something that transfers can reach. -/
def connection (server : Server σ) : Connection (Session σ) where
  apply := apply server
  search := search server

end Session

end DirectoryExchange.Ldap
