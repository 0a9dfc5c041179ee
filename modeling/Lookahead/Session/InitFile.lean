import Lookahead.Session.Basic
import Lookahead.Session.FileReader

/-!
Files of lines for a session to start with. Blank lines are passed over and do not count.
-/

namespace Lookahead

structure Progress where
  out : Text
  trace : List TraceLine
  directory : Directory
  isBroken : Bool
deriving DecidableEq, Repr

namespace Progress

def start (d : Directory) : Progress := ⟨[], [], d, false⟩

def add (p : Progress) (out : Text) (trace : List TraceLine) : Progress :=
  { p with out := p.out ++ out, trace := p.trace ++ trace }

def record (p : Progress) (r : Reply) : Progress :=
  let p := p.add r.out r.trace
  match r.file with
  | some (path, content) => { p with directory := p.directory.write path content }
  | none => p

def broken (p : Progress) : Progress := { p with isBroken := true }

end Progress

namespace InitFile

def errorLine (number : Nat) (message : Text) : TraceLine :=
  ⟨.error, text "Error line " ++ Text.ofNat number ++ text ": " ++ message⟩

def notFound (name : Text) : TraceLine := ⟨.error, text "Unable to open init file: " ++ name⟩

def unreadable (cause : Text) : TraceLine :=
  ⟨.error, text "Error while reading init file: " ++ cause⟩

def tooLong : Text := text "bufio.Scanner: token too long"

def complaint (s : Session) (number : Nat) (reply : Reply) : List TraceLine :=
  match reply.error with
  | some e => [errorLine number ((e.message? s.grammar).getD [])]
  | none => []

-- Answers the lines of a file one by one. `number` is the number of the next line. A line may
-- replace the file that is being read.
def run (s : Session) (name : Text) :
    (fuel number : Nat) → FileReader → Progress → Progress
  | 0, _, _, p => p
  | fuel + 1, number, reader, p =>
    match reader.next ((p.directory.content? name).getD []) with
    | .done => p
    | .lineTooLong => p.add [] [unreadable tooLong]
    | .line line reader =>
      if line.trim.isEmpty then run s name fuel number reader p
      else
        match s.respond p.directory.failure? line.trim with
        | none => p.broken
        | some reply =>
          run s name fuel (number + 1) reader ((p.record reply).add [] (complaint s number reply))

-- The number of bytes that may be read from a file. The only other content it can get is the page
-- of the table.
def byteLimit (s : Session) (content : Text) : Nat :=
  content.length + (s.table.html.toOption.getD []).length

-- Loads a file. Without a name there is nothing to do. Every line takes a byte at least.
def load (s : Session) (name : Text) (p : Progress) : Progress :=
  if name.isEmpty then p
  else
    match p.directory.find name with
    | .missing => p.add [] [notFound name]
    | .directory _ => p.add [] [unreadable (text "read " ++ name ++ text ": is a directory")]
    | .sink isEndless => if isEndless then p.add [] [unreadable tooLong] else p
    | .file inner =>
      let content := (p.directory.content? inner).getD []
      run s inner (byteLimit s content + 2) 1 .new p

end InitFile

end Lookahead
