import Nublado.Client.WebSocket
import Nublado.Foundations.Except

/-!
# JupyterLab sessions

A session runs code in the kernel of a lab: `run_python` sends a request with a new message ID and reads
the messages of the WebSocket until it has both a reply and the news that the kernel is idle, with that
ID in their parent headers. What the kernel prints in between is the result.

## The environment

An `Exchange` is what happens on the WebSocket during a call: whether the request is sent, the messages
that are received while the call reads, and what ends them if the call has not stopped reading by
then. The iterator over the messages ends without an exception when the socket is closed normally. Time
limits are the environment's choice, so are the message ID and the date.

Logging is left out, and with it the distinction between types of messages that are ignored silently and
with a warning.
-/

namespace Nublado.Client

/-- Output from a Jupyter lab kernel. -/
structure JupyterOutput where
  /-- Partial output from code execution, which is taken from the message as it is. -/
  content : Json
  /-- Whether this indicates execution completed. -/
  done : Bool := false
  /-- Whether this indicates the kernel is now idle. -/
  idle : Bool := false

/-- What the parsing of a message raises. -/
inductive ParseError
  /-- `NubladoExecutionError` -/
  | execution (status : Json) (error : Option String)
  /-- Any other exception. -/
  | unparsable

/-- Optional context for exception reporting during code execution. -/
structure CodeContext where
  node : Option String := none
  image : Option String := none
  notebook : Option String := none
  cell : Option String := none
  cellNumber : Option String := none
  deriving DecidableEq

/-- The exceptions of a call. -/
inductive ExecutionError
  /-- `NubladoExecutionError` -/
  | execution (user : String) (status : Json) (error : Option String) (code : String)
    (context : Option CodeContext)
  /-- `NubladoExecutionTimeoutError` -/
  | timeout (user : String) (code : String) (context : Option CodeContext)
  /-- `NubladoWebSocketError` -/
  | webSocket (user : String) (context : Option CodeContext)
  /-- Output that is not text. -/
  | typeError

/-- What ends the messages. -/
inductive StreamEnd
  /-- The socket is closed normally. -/
  | closed
  /-- A `WebSocketException`. -/
  | failed
  | timedOut
  /-- Nothing, so far: no message has followed. -/
  | pending
  deriving DecidableEq

/-- What becomes of a call. -/
inductive Outcome
  | returned (output : String)
  | raised (e : ExecutionError)
  /-- It waits for a message. -/
  | waiting

/-- What happens on the WebSocket during a call. -/
structure Exchange where
  /-- Whether the request is sent, without a `WebSocketException`. -/
  sent : Bool
  messages : List WebSocketMessage
  ending : StreamEnd

/-- A session of a user. -/
structure JupyterLabSession where
  username : String
  sessionId : String
  codec : JsonCodec

/-! ### Messages -/

/-- A value that is there, where an exception other than `NubladoExecutionError` is raised for none. -/
@[grind =] def orUnparsable {α : Type} : Option α → Except ParseError α
  | some a => .ok a
  | none => .error .unparsable

/-- The traceback of a failed execution; `None` if there is none to speak of. -/
@[grind =] def parseTraceback (traceback : Option Json) : Except ParseError (Option String) :=
  if traceback.any Json.truthy then (orUnparsable (traceback.bind Json.join)).map some else .ok none

/-- The output that a message of a type stands for, or `None`. -/
@[grind =] def parseContent (msgType content : Json) : Except ParseError (Option JupyterOutput) :=
  if msgType.text = some "execute_reply" then do
    let status ← orUnparsable (content.get "status")
    if status.text = some "ok" then .ok (some { content := .string "", done := true })
    else
      (parseTraceback (content.get "traceback")).bind fun error ↦ .error (.execution status error)
  else if msgType.text = some "status" then do
    let state ← orUnparsable (content.get "execution_state")
    .ok (if state.text = some "idle" then some { content := .string "", idle := true } else none)
  else if msgType.text = some "stream" then do
    let text ← orUnparsable (content.get "text")
    .ok (some { content := text })
  else .ok none

/-- Parse a WebSocket message from a Jupyter lab kernel. Headers not intended for us are ignored. -/
@[grind =] def parseMessage (codec : JsonCodec) (messageId : String) (message : WebSocketMessage) :
    Except ParseError (Option JupyterOutput) := do
  let data ← orUnparsable (decodeWebsocketMessage codec message)
  let parent ← orUnparsable data.parentHeader.items
  if (parent.lookup "msg_id").bind Json.text = some messageId then do
    let msgType ← orUnparsable (data.header.get "msg_type")
    parseContent msgType data.content
  else .ok none

/-! ### Calls -/

namespace JupyterLabSession

variable (session : JupyterLabSession) (code : String) (context : Option CodeContext)
  (messageId : String)

/-- The `execute_request` message of a call. -/
def executeRequest (date : String) : KernelMessage where
  channel := "shell"
  header := .object [("username", .string session.username), ("version", .string "5.4"),
    ("session", .string session.sessionId), ("date", .string date), ("msg_id", .string messageId),
    ("msg_type", .string "execute_request")]
  parentHeader := .object []
  metadata := .object []
  content := .object [("code", .string code), ("silent", .bool false), ("store_history", .bool false),
    ("user_expressions", .object []), ("allow_stdin", .bool false)]

/-- What becomes of a call when the messages end. -/
def atEnd (result : String) : StreamEnd → Outcome
  | .closed => .returned result
  | .failed => .raised (.webSocket session.username context)
  | .timedOut => .raised (.timeout session.username code context)
  | .pending => .waiting

/-- Wait for the result of code execution and return the output, with what has been read so far: the
output, and whether an execution complete message and a kernel idle message have been received. -/
@[grind =] def readResult (ending : StreamEnd) :
    List WebSocketMessage → String → Bool → Bool → Outcome
  | [], result, _, _ => session.atEnd code context result ending
  | message :: messages, result, complete, idle =>
    match parseMessage session.codec messageId message with
    | .error (.execution status error) =>
      .raised (.execution session.username status error code context)
    -- Unparsable messages are ignored.
    | .error .unparsable => readResult ending messages result complete idle
    | .ok none => readResult ending messages result complete idle
    | .ok (some output) =>
      match output.content.text with
      | none => .raised .typeError
      | some text =>
        if (complete || output.done) && (idle || output.idle) then .returned (result ++ text)
        else readResult ending messages (result ++ text) (complete || output.done)
          (idle || output.idle)

/-- Run a block of Python code in a Jupyter lab kernel. -/
@[grind =] def runPython (exchange : Exchange) : Outcome :=
  if exchange.sent then
    session.readResult code context messageId exchange.ending exchange.messages "" false false
  else .raised (.webSocket session.username context)

end JupyterLabSession

end Nublado.Client
