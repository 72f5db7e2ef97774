import RuleOff.Disk
import RuleOff.Protocol.Wire
import RuleOff.Server.Request

/-!
# The server over standard input and output

Messages arrive on standard input and leave on standard output, and the log goes to standard
error. A command that waits for an answer of the client is kept aside, so that other messages are
handled meanwhile.
-/

namespace RuleOff.Main

/-- A session over standard input and output: the state of the server, the number of the next
request, and what waits for the answers to earlier ones. -/
structure Connection where
  server : Server := {}
  next : Nat := 0
  waiting : List (Nat × MessageId × (Reply → Exchange (Option Response))) := []

/-- Writes a message to standard output. -/
def send (v : Json) : IO Unit := do
  let out ← IO.getStdout
  out.putStr (String.ofList (Wire.frame v))
  out.flush

def writeLog (r : LogRecord) : IO Unit := IO.eprintln (String.ofList r.text)

/-- The bytes of a file, or why it cannot be read. -/
def readBytes (p : Path) : IO (Except IO.Error ByteArray) := do
  try
    return .ok (← IO.FS.readBinFile (String.ofList p.text))
  catch e =>
    return .error e

/-- Whether there is a file at a path. A file that may not be read is there all the same. -/
def isFile (p : Path) : IO Bool := do
  match ← readBytes p with
  | .ok _ => return true
  | .error (.permissionDenied ..) => return true
  | .error _ => return false

/-- The text of the file at a path, or why it cannot be read. -/
def readText (p : Path) : IO (Except Text Text) := do
  match ← readBytes p with
  | .ok bytes =>
    match Text.ofUtf8? bytes.toList with
    | some t => return .ok t
    | none => return .error Disk.Failure.notUtf8.message
  | .error (.noFileOrDirectory ..) => return .error Disk.Failure.notFound.message
  | .error (.inappropriateType ..) => return .error Disk.Failure.isADirectory.message
  | .error e => return .error (toString e).toList

/-- Goes on with a conversation until it is over or waits for an answer. -/
def advance (id : MessageId) : Connection → Exchange (Option Response) → IO Connection
  | c, .done r => do
    match r with
    | some response => send (Wire.ofResponse id response)
    | none => pure ()
    return c
  | c, .log r next => do
    writeLog r
    advance id c next
  | c, .notify n next => do
    send (Wire.ofOutgoing none (.notification n))
    advance id c next
  | c, .ask q next => do
    send (Wire.ofOutgoing (some c.next) (.request q))
    return { c with next := c.next + 1, waiting := (c.next, id, next) :: c.waiting }
  | c, .document u next => advance id c (next (c.server.document? u))
  | c, .isFile p next => do advance id c (next (← isFile p))
  | c, .readFile p next => do advance id c (next (← readText p))

/-- Shows what is seen of a notification. -/
def showEvent : Event → IO Unit
  | .logged r => writeLog r
  | .sent m => send (Wire.ofOutgoing none m)

/-- Handles what arrived. -/
def handle (c : Connection) : Wire.Incoming → IO Connection
  | .message (.notification n) => do
    let (s, events) := c.server.hear n
    events.forM showEvent
    return { c with server := s }
  | .message (.request id r) => do
    let (s, conversation) := c.server.answer r
    advance id { c with server := s } conversation
  | .reply (.number n) r => do
    match c.waiting.find? fun w => (w.1 : Int) == n with
    | some (number, id, next) =>
      advance id { c with waiting := c.waiting.filter fun w => w.1 != number } (next r)
    | none => return c
  | .reply _ _ => return c

/-- Reads the lines of a header and answers the length that they give. At the end of the input
there is none. -/
partial def readHeader (input : IO.FS.Stream) (length : Option Nat) : IO (Option Nat) := do
  let line ← input.getLine
  if line.isEmpty then return none
  else if line.trimAscii.isEmpty then return some (length.getD 0)
  else readHeader input ((Wire.contentLength? line.toList).or length)

/-- Reads a number of bytes, or fewer at the end of the input. -/
partial def readBody (input : IO.FS.Stream) (length : Nat) (got : ByteArray) : IO ByteArray := do
  if length ≤ got.size then return got
  else
    let more ← input.read (USize.ofNat (length - got.size))
    if more.isEmpty then return got
    else readBody input length (got ++ more)

/-- Handles messages until the input ends, the server is stopped or something arrives that is no
message. -/
partial def serve (input : IO.FS.Stream) (c : Connection) : IO Unit := do
  match ← readHeader input none with
  | none => return
  | some length =>
    let body ← readBody input length ByteArray.empty
    match (Text.ofUtf8? body.toList).elim (.error .notJson) Wire.Incoming.read with
    | .error r => send (Wire.ofResponse .null (.refused r))
    | .ok incoming =>
      let c ← handle c incoming
      if c.server.phase = .exited then return
      else serve input c

end RuleOff.Main

/-- Runs the server until standard input ends. -/
def main : IO Unit := do
  RuleOff.Main.serve (← IO.getStdin) {}
