import CxxFramework.Http.HTTPDispatcher
import CxxFramework.Http.HTTPResponseStream
import CxxFramework.Library.Transition
import CxxFramework.Thread.Task

/-!
# HTTP sessions

`HTTPSession::Run` as a transition system. A step is the start of a `Run`, one look at the
condition of its loop, or one section of its `switch`; a section that falls through leaves
`fState` at the next one. Between the steps, other threads may signal the session and
count themselves as its holders.

What the clock says and what the mapped functions do are inputs of a step; what the kernel
answers to sends and receives is in the socket. `none` stands for an access outside a
buffer or through the null pointer and for an `Assert` that fails, which end the run.

The mutexes of the session, which only one `Run` at a time takes, the requests for socket
events, the timeout and the log output are left out. So is `dumpRequestData`:
`fRequestBodyLen` is -1 throughout.
-/

namespace CxxFramework.Net

open CxxFramework.Core Thread Transition ResizeableStringFormatter

/-- `EBADF`, the answer of the kernel once a socket is closed. -/
def Errno.ebadf : Errno := ⟨9, by decide⟩

def kKillEvent : EventFlags := 0x1#32
def kTimeoutEvent : EventFlags := 0x8#32

inductive SessionState where
  | kReadingRequest
  | kFilteringRequest
  | kPreprocessingRequest
  | kProcessingRequest
  | kSendingResponse
  | kCleaningUp
  | kReadingFirstRequest
  | kHaveCompleteMessage
deriving DecidableEq, Repr

/-! ## What happens to a request -/

/-- A response as `SetupResponse` builds it. -/
structure Response where
  status : HTTPStatusCode
  header : Bytes
  body : Bytes
deriving DecidableEq, Repr

def Response.bytes (r : Response) : Bytes := r.header ++ r.body

/-- The record of one request, which the code does not keep. -/
structure Exchange where
  /-- The result of `Parse` and the version after it. -/
  parsed : Option (CF_Error × HTTPVersion) := none
  /-- The mapped functions called. -/
  called : List Nat := []
  /-- The response, as it is first built. -/
  response : Option Response := none
  /-- The bytes that the socket took while the response was being sent. -/
  sent : Bytes := []
  /-- The response counts as sent in full. -/
  answered : Bool := false
  /-- The connection is to be closed behind this request. -/
  closed : Bool := false
deriving DecidableEq, Repr

/-! ## The session -/

structure HTTPSession where
  task : Task := {}
  fState : SessionState := .kReadingFirstRequest
  fRequest : Option HTTPPacket := none
  fResponse : Option HTTPPacket := none
  fInputStream : HTTPRequestStream
  fOutputStream : HTTPResponseStream := {}
  fSocket : Socket
  fLiveSession : Bool := true
  fObjectHolders : Int32 := 0
  /-- The requests so far, the last one first. -/
  history : List Exchange := []
  /-- The requests given to `Dispatch` so far, the last one first. The code keeps neither. -/
  dispatched : List HTTPPacket := []

/-- Where `Run` stands, with its local variable `err`. -/
inductive Point where
  | waiting
  | loop (err : CF_Error)
  | switch (err : CF_Error)
  | deleted
deriving DecidableEq, Repr

/-- The inputs of a section. -/
structure Env where
  date : DateBuffer
  cgi : Nat → CF_CGIFunction

namespace HTTPSession

/-- Record something about the current request. -/
def note (s : HTTPSession) (f : Exchange → Exchange) : HTTPSession :=
  { s with history := s.history.modifyHead f }

/-- `Task::Signal`, as far as the events go. -/
def signal (s : HTTPSession) (events : EventFlags) : HTTPSession :=
  { s with task := (s.task.fetchOr (events ||| kAlive)).2 }

/-- `IsLiveSession` -/
def isLiveSession (s : HTTPSession) : Bool := s.fSocket.connected && s.fLiveSession

/-- `CleanupRequestAndResponse` -/
def cleanupRequestAndResponse (s : HTTPSession) : HTTPSession :=
  let closes := s.fRequest.any fun fRequest => !fRequest.fRequestKeepAlive
  let s :=
    if closes then (s.signal kKillEvent).note fun x => { x with closed := true } else s
  { s with fRequest := none, fResponse := none }

/-! ### Reading a request -/

/-- `kReadingFirstRequest` -/
def readingFirstRequest (s : HTTPSession) : Option (Point × HTTPSession) :=
  (s.fInputStream.readRequest s.fSocket).map fun (err, fInputStream, fSocket) =>
    let s := { s with fInputStream, fSocket }
    if err = CF_NoErr then (.waiting, s)
    else if err ≠ CF_RequestArrived ∧ err ≠ E2BIG then (.loop err, s)
    else (.loop err, { s with fState := .kHaveCompleteMessage })

/-- `Cleanup` of the socket closes it and leaves its state. -/
def cleanupSocket (fSocket : Socket) : Socket :=
  { fSocket with incoming := [.failed Errno.ebadf], outgoing := [.failed Errno.ebadf] }

/-- `kReadingRequest` -/
def readingRequest (s : HTTPSession) : Option (Point × HTTPSession) :=
  (s.fInputStream.readRequest s.fSocket).map fun (err, fInputStream, fSocket) =>
    let s := { s with fInputStream, fSocket }
    if err = CF_NoErr then (.waiting, s)
    else if err ≠ CF_RequestArrived ∧ err ≠ E2BIG ∧ err ≠ CF_BadArgument then
      if fSocket.connected then (.waiting, { s with fSocket := cleanupSocket fSocket })
      else (.loop err, s)
    else (.switch err, { s with fState := .kHaveCompleteMessage })

/-- `kHaveCompleteMessage` -/
def haveCompleteMessage (s : HTTPSession) (err : CF_Error) : Option (Point × HTTPSession) :=
  s.fInputStream.getRequestBuffer.map fun (packet, beyond) =>
    let fResponse : HTTPPacket := { fHTTPType := .httpResponseType }
    let s :=
      { s with
        fRequest := some (.ofHeader packet beyond)
        fResponse := some fResponse
        fOutputStream.formatter.fBytesWritten := 0
        history := {} :: s.history }
    if err = E2BIG ∨ err = CF_BadArgument then
      (.loop err,
        { s with
          fResponse := some { fResponse with fStatusCode := .httpInternalServerError }
          fState := .kSendingResponse })
    else (.switch err, { s with fState := .kFilteringRequest })

/-! ### Parsing it -/

/-- The second part of `SetupRequest`: reading the body. -/
def readBody (s : HTTPSession) (fRequest : HTTPPacket) : Option (CF_Error × HTTPSession) :=
  let lengthPtr := fRequest.fFieldValues .httpContentLengthHeader
  let content_length := (StringParser.ofString lengthPtr []).consumeWhitespace.consumeInteger.1
  if content_length = 0 then some (CF_NoErr, s)
  else
    let theRequestBody := fRequest.fHTTPBody.getD []
    let wanted := content_length - theRequestBody.length
    (s.fInputStream.read s.fSocket wanted).bind fun (theErr, data, fInputStream, fSocket) =>
      -- The array for the body has a length of 32 bits.
      if theRequestBody.length + data.length > (content_length + 1) % uint32Size then none
      else
        let s := { s with fInputStream, fSocket }
        if theErr = CF_RequestFailed then
          some (CF_RequestFailed,
            { s with fRequest := some { fRequest with fHTTPBody := some theRequestBody } })
        else
          let s :=
            { s with fRequest := some { fRequest with fHTTPBody := some (theRequestBody ++ data) } }
          if theErr = CF_WouldBlock ∨ data.length < wanted then some (CF_WouldBlock, s)
          else some (CF_NoErr, s)

/-- `SetupRequest` -/
def setupRequest (s : HTTPSession) : Option (CF_Error × HTTPSession) :=
  s.fRequest.bind fun fRequest =>
    if fRequest.fHTTPType = .httpIllegalType then
      fRequest.parse.bind fun (theErr, fRequest) =>
        let s := { s with fRequest := some fRequest }.note fun x =>
          { x with parsed := some (theErr, fRequest.fVersion) }
        if theErr ≠ CF_NoErr then some (CF_BadArgument, s) else s.readBody fRequest
    else s.readBody fRequest

/-- `kFilteringRequest`: of the errors of `SetupRequest`, only one is looked at. -/
def filteringRequest (s : HTTPSession) (err : CF_Error) : Option (Point × HTTPSession) :=
  s.setupRequest.map fun (theErr, s) =>
    if theErr = CF_WouldBlock then (.waiting, s)
    else (.loop err, { s with fState := .kPreprocessingRequest })

/-- `kPreprocessingRequest`: the state that the illegal version sets is overwritten. -/
def preprocessingRequest (s : HTTPSession) (err : CF_Error) : Option (Point × HTTPSession) := do
  let fRequest ← s.fRequest
  let fResponse ← s.fResponse
  let s :=
    if fRequest.fVersion = .httpIllegalVersion then
      { s with
        fResponse := some { fResponse with fStatusCode := .httpHTTPVersionNotSupported }
        fState := .kSendingResponse }
    else s
  return (.loop err, { s with fState := .kProcessingRequest })

/-! ### Answering it -/

variable {mapping : List HTTPMapping}

/-- The status that the result of `Dispatch` sets. -/
def setDispatchStatus (fResponse : HTTPPacket) (theErr : CF_Error) : HTTPPacket :=
  if theErr = CF_FileNotFound then { fResponse with fStatusCode := .httpNotFound }
  else if theErr ≠ CF_NoErr then { fResponse with fStatusCode := .httpInternalServerError }
  else fResponse

/-- `kProcessingRequest` -/
def processingRequest (sDispatcher : HTTPDispatcher mapping) (env : Env) (s : HTTPSession)
    (err : CF_Error) : Option (Point × HTTPSession) := do
  let (func, theErr, fRequest, fResponse) :=
    sDispatcher.dispatch env.cgi (← s.fRequest) (← s.fResponse)
  let s :=
    { s with
      fRequest := some fRequest
      fResponse := some (setDispatchStatus fResponse theErr)
      fState := .kSendingResponse
      dispatched := s.fRequest.toList ++ s.dispatched }
  return (.switch err, s.note fun x => { x with called := func.toList ++ x.called })

/-- The size of `respHeader`. -/
def kRespHeaderLen : Nat := 2048

/-- The version of the response: that of the request if it has none. -/
def chooseVersion (fRequest fResponse : HTTPPacket) : HTTPPacket :=
  if fResponse.fVersion = .httpIllegalVersion then
    { fResponse with
      fVersion :=
        if fRequest.fVersion ≠ .httpIllegalVersion then fRequest.fVersion else .http11Version }
  else fResponse

/-- The header that closes the connection, unless the request keeps it. -/
def appendConnection (fRequest fResponse : HTTPPacket) : Option HTTPPacket :=
  if fRequest.fRequestKeepAlive then some fResponse else fResponse.appendConnectionCloseHeader

/-- The header that `SetupResponse` builds. -/
def buildHeader (date : DateBuffer) (fRequest fResponse : HTTPPacket) :
    Option (Bytes × HTTPPacket) := do
  let fResponse ← (chooseVersion fRequest fResponse).createResponseHeader date
  let fResponse ← fResponse.appendContentLengthHeader (fResponse.fHTTPBody.getD []).length
  let fResponse ← appendConnection fRequest fResponse
  fResponse.getCompleteHTTPHeader

/-- `Put` of the header, copied to an array of 2048 bytes. -/
def putHeader (putStream : StringFormatter) (header : Bytes) : Option StringFormatter :=
  if kRespHeaderLen ≤ header.length then none else put putStream (cString header)

/-- `Put` of the body, if there is one. -/
def putBody (putStream : StringFormatter) (body : Bytes) : Option StringFormatter :=
  if body = [] then some putStream else put putStream body

/-- `SetupResponse` -/
def setupResponse (s : HTTPSession) (date : DateBuffer) : Option HTTPSession := do
  let (header, fResponse) ← buildHeader date (← s.fRequest) (← s.fResponse)
  let body := fResponse.fHTTPBody.getD []
  let formatter ← putBody (← putHeader s.fOutputStream.formatter header) body
  let s := { s with fResponse := some fResponse, fOutputStream.formatter := formatter }
  return s.note fun x =>
    { x with response := x.response <|> some ⟨fResponse.fStatusCode, header, body⟩ }

/-- `kSendingResponse` -/
def sendingResponse (env : Env) (s : HTTPSession) (err : CF_Error) :
    Option (Point × HTTPSession) :=
  (s.setupResponse env.date).map fun s =>
    if s.fOutputStream.formatter.fBytesWritten = 0 then
      (.loop err, { s with fState := .kCleaningUp })
    else
      let (err, fOutputStream, fSocket) := s.fOutputStream.flush s.fSocket
      let taken := fSocket.wire.drop s.fSocket.wire.length
      let s := { s with fOutputStream, fSocket }.note fun x => { x with sent := x.sent ++ taken }
      if err = EAGAIN then (.waiting, s)
      else if err ≠ CF_NoErr then (.loop err, s)
      else
        (.switch err,
          { s with fState := .kCleaningUp }.note fun x => { x with answered := true })

/-- `kCleaningUp` -/
def cleaningUp (s : HTTPSession) (err : CF_Error) : Point × HTTPSession :=
  (.loop err, { s.cleanupRequestAndResponse with fState := .kReadingRequest })

/-! ### Run -/

/-- The section of `fState` in the `switch` of `Run`. -/
def runSection (sDispatcher : HTTPDispatcher mapping) (env : Env) (s : HTTPSession)
    (err : CF_Error) : Option (Point × HTTPSession) :=
  match s.fState with
  | .kReadingFirstRequest => s.readingFirstRequest
  | .kReadingRequest => s.readingRequest
  | .kHaveCompleteMessage => s.haveCompleteMessage err
  | .kFilteringRequest => s.filteringRequest err
  | .kPreprocessingRequest => s.preprocessingRequest err
  | .kProcessingRequest => processingRequest sDispatcher env s err
  | .kSendingResponse => sendingResponse env s err
  | .kCleaningUp => some (s.cleaningUp err)

/-- The start of `Run` -/
def beginRun (s : HTTPSession) : Point × HTTPSession :=
  let (events, task) := s.task.getEvents
  let fLiveSession := s.fLiveSession && events &&& kKillEvent == 0
  (if events &&& kTimeoutEvent != 0 then .deleted else .loop CF_NoErr,
    { s with task, fLiveSession })

/-- The end of `Run`; the task is deleted once nobody holds the session. -/
def endRun (s : HTTPSession) : Point × HTTPSession :=
  (if s.fObjectHolders = 0 then .deleted else .waiting, s.cleanupRequestAndResponse)

end HTTPSession

inductive SessionAction where
  | signal (events : EventFlags)
  | incrementObjectHolderCount
  | decrementObjectHolderCount
  | run
  | loop
  | switch (env : Env)

namespace HTTPSession

variable {mapping : List HTTPMapping}

/-- One step of a session. A deleted session takes none. -/
def next (sDispatcher : HTTPDispatcher mapping) (c : Point × HTTPSession) :
    SessionAction → Option (Point × HTTPSession)
  | .signal events => if c.1 = .deleted then none else some (c.1, c.2.signal events)
  | .incrementObjectHolderCount =>
    if c.1 = .deleted then none
    else some (c.1, { c.2 with fObjectHolders := c.2.fObjectHolders + 1 })
  | .decrementObjectHolderCount =>
    if c.1 = .deleted then none
    else some (c.1, { c.2.signal kReadEvent with fObjectHolders := c.2.fObjectHolders - 1 })
  | .run => if c.1 = .waiting then some c.2.beginRun else none
  | .loop =>
    match c.1 with
    | .loop err => some (if c.2.isLiveSession then (.switch err, c.2) else c.2.endRun)
    | _ => none
  | .switch env =>
    match c.1 with
    | .switch err => runSection sDispatcher env c.2 err
    | _ => none

/-- A new session on a connected socket, with anything in its buffers. -/
structure Fresh (c : Point × HTTPSession) : Prop where
  waiting : c.1 = .waiting
  reading : c.2.fState = .kReadingFirstRequest
  noRequest : c.2.fRequest = none ∧ c.2.fResponse = none
  noInput : ∃ fRequestBuffer, fRequestBuffer.length = kRequestBufferSizeInBytes ∧
    c.2.fInputStream = { fRequestBuffer }
  noOutput : c.2.fOutputStream = {}
  noHistory : c.2.history = []
  noneDispatched : c.2.dispatched = []

/-- A dispatcher with one mapping, the default one. -/
def defaultDispatcher : HTTPDispatcher [⟨ascii "/", 0⟩] where
  fMappers := [.default 0]
  perm := by decide
  sorted := HTTPDispatcher.sorted_root

/-- Functions that answer with the default status and no body. -/
def plainEnv : Env where
  date := ⟨ascii "Mon, 04 Nov 1996 21:42:17 GMT", by decide, by decide⟩
  cgi _ request response := ⟨CF_NoErr, request, response.fVersion, response.fStatusCode, none⟩

/-- A new session whose socket has the given bytes to receive, and the answers to its
sends. -/
def newSession (incoming : Bytes) (outgoing : List SendOutcome) : Point × HTTPSession :=
  (.waiting,
    { fInputStream := { fRequestBuffer := List.replicate kRequestBufferSizeInBytes 0 }
      fSocket := { incoming := Socket.putBack incoming [], outgoing } })

theorem newSession_fresh (incoming : Bytes) (outgoing : List SendOutcome) :
    Fresh (newSession incoming outgoing) where
  waiting := rfl
  reading := rfl
  noRequest := ⟨rfl, rfl⟩
  noInput := ⟨_, List.length_replicate, rfl⟩
  noOutput := rfl
  noHistory := rfl
  noneDispatched := rfl

/-- The steps of a new session up to the dispatch of its first request. -/
def firstDispatch : List SessionAction :=
  [.run, .loop, .switch plainEnv, .loop, .switch plainEnv, .switch plainEnv, .loop,
    .switch plainEnv, .loop, .switch plainEnv]

/-- The steps of a new session up to the first attempt to send its first response. -/
def firstResponse : List SessionAction := firstDispatch ++ [.switch plainEnv]

/-- The steps of a new session that sends its first response in full, up to the dispatch of its
second request. -/
def secondDispatch : List SessionAction :=
  firstResponse ++ [.switch plainEnv, .loop, .switch plainEnv, .switch plainEnv, .switch plainEnv,
    .loop, .switch plainEnv, .loop, .switch plainEnv]

abbrev system (sDispatcher : HTTPDispatcher mapping) :
    System (Point × HTTPSession) SessionAction :=
  .ofPartial Fresh (next sDispatcher)

end HTTPSession

end CxxFramework.Net
