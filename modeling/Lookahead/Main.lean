import Lookahead.Session.CommandLine

/-!
The program: sessions on standard input and output, with files on disk.
-/

namespace Lookahead.CommandLine

def put (stream : IO.FS.Stream) (t : Text) : IO Unit := do
  stream.write ⟨t.toArray⟩
  stream.flush

def print (t : Text) : IO Unit := do put (← IO.getStdout) t

def report (line : TraceLine) : IO Unit := do put (← IO.getStderr) (line.message ++ text "\n")

def obstacleOf : IO.Error → Directory.Obstacle
  | .noFileOrDirectory .. => .noSuchDirectory
  | .inappropriateType .. => .isADirectory
  | .invalidArgument .. => .invalidName
  | _ => .notADirectory

def fileName? (path : Text) : Option String := String.fromUTF8? ⟨path.toArray⟩

def save (path content : Text) : IO (Option Text) := do
  let failure (o : Directory.Obstacle) : Text := text "open " ++ path ++ text ": " ++ o.message
  match fileName? path with
  | none => return some (failure .invalidName)
  | some name =>
    try
      IO.FS.writeBinFile name ⟨content.toArray⟩
      return none
    catch e => return some (failure (obstacleOf e))

-- Answers a line. The file it asks for is created before the answer is known, since the answer
-- depends on it.
def answer (s : Session) (line : Text) : IO (Option Reply) := do
  let failure ←
    match Session.requestedFile? line with
    | some path => save path []
    | none => pure none
  match s.respond (fun _ => failure) line with
  | none => return none
  | some reply =>
    reply.trace.forM report
    print reply.out
    if let some (path, content) := reply.file then discard (save path content)
    return some reply

def readFile? (path : Text) : IO (Option Text) := do
  match fileName? path with
  | none => return none
  | some name =>
    try return some (← IO.FS.readBinFile name).data.toList
    catch _ => return none

-- Answers the lines of a file, and tells whether the session is still intact. The file is read
-- anew for every line, since it may have changed.
partial def answerFile (s : Session) (name : Text) (number : Nat) (reader : FileReader) :
    IO Bool := do
  match reader.next ((← readFile? name).getD []) with
  | .done => return true
  | .lineTooLong =>
    report (InitFile.unreadable InitFile.tooLong)
    return true
  | .line line reader =>
    if line.trim.isEmpty then answerFile s name number reader
    else
      match ← answer s line.trim with
      | none => return false
      | some reply =>
        (InitFile.complaint s number reply).forM report
        answerFile s name (number + 1) reader

def loadFile (s : Session) (name : Text) : IO Bool := do
  if name.isEmpty then return true
  match ← readFile? name with
  | none =>
    report (InitFile.notFound name)
    return true
  | some _ => answerFile s name 1 .new

-- Answers the lines that are entered by pressing keys. The result is the editor, or tells whether
-- the session is still intact at its end.
def answerKeys (s : Session) : List Key → LineEditor → IO (Except Bool LineEditor)
  | [], e => return .ok e
  | key :: rest, e => do
    match e.press key with
    | .edited e shown =>
      print shown
      answerKeys s rest e
    | .entered line e =>
      if line.trim.isEmpty then answerKeys s rest e
      else
        match ← answer s line.trim with
        | none => return .error false
        | some reply => if reply.quit then return .error true else answerKeys s rest e
    | .ended => return .error true
    | .crashed => return .error false

-- Answers standard input. At its end, a line that has not been entered counts as entered.
partial def converse (s : Session) (escape : Key.Escape) (e : LineEditor) : IO Bool := do
  let input ← (← IO.getStdin).getLine
  let (escape, keys) := Key.readAll escape (Key.codesOf (text input))
  let keys := if input.isEmpty then Key.atEnd escape ++ [.endOfInput] else keys
  match ← answerKeys s keys e with
  | .error intact => return intact
  | .ok e => if input.isEmpty then return true else converse s escape e

def exitCodeOf (isIntact : Bool) : Nat := if isIntact then 0 else failureCode

def serve (s : Session) (o : Options) : IO Nat := do
  match opening s o with
  | none => return failureCode
  | some out => print out
  let line := inputOf o
  if !line.isEmpty then
    match ← answer s line with
    | none => return failureCode
    | some reply => if reply.error.isSome then return failureCode
  if !(← loadFile s o.initFile) then return failureCode
  return exitCodeOf (← converse s .outside .new)

end Lookahead.CommandLine

def main (arguments : List String) : IO UInt32 := do
  match Lookahead.Options.parse (arguments.map Lookahead.text), Lookahead.Session.start with
  | .error refusal, _ => return UInt32.ofNat refusal.exitCode
  | .ok o, .ok s => return UInt32.ofNat (← Lookahead.CommandLine.serve s o)
  | .ok _, .error _ => return UInt32.ofNat Lookahead.CommandLine.failureCode
