import Lookahead.Session.InitFile
import Lookahead.Session.LineEditor
import Lookahead.Session.Options

/-!
A whole run of the program: greeting, table, an expression given as arguments, a file to
start with, and then line after line of input.
-/

namespace Lookahead

structure RunResult where
  out : Text
  exitCode : Nat
  directory : Directory
deriving DecidableEq, Repr

namespace CommandLine

def greeting : Text := Session.info (text "Welcome to LL.REPL")

def resultOf (p : Progress) (exitCode : Nat) : RunResult := ⟨p.out, exitCode, p.directory⟩

-- Answers a line, without white space around it, and tells whether the session goes on.
def answerLine (s : Session) (line : Text) (p : Progress) : Progress × Bool :=
  if line.trim.isEmpty then (p, true)
  else
    match s.respond p.directory.failure? line.trim with
    | none => (p.broken, false)
    | some reply => (p.record reply, !reply.quit)

-- Answers the lines that are entered by pressing keys, until one of them ends the session or
-- breaks it. The last line need not be entered.
def interact (s : Session) : List Key → LineEditor → Progress → Progress
  | [], e, p => (answerLine s (e.line.flatMap Utf8.encode) p).1
  | key :: rest, e, p =>
    match e.press key with
    | .edited e shown => interact s rest e (if shown.isEmpty then p else p.add shown [])
    | .entered line e =>
      match answerLine s line p with
      | (p, true) => interact s rest e p
      | (p, false) => p
    | .ended => p
    | .crashed => p.broken

def opening (s : Session) (o : Options) : Option Text :=
  if o.showTable then s.tableText.map (greeting ++ ·) else some greeting

def inputOf (o : Options) : Text := (Text.join (text " ") o.arguments).trim

-- The exit code of a program that crashes, or is given an expression without value.
def failureCode : Nat := 2

def finish (s : Session) (o : Options) (input : Text) (p : Progress) : RunResult :=
  let p := InitFile.load s o.initFile p
  let p := if p.isBroken then p else interact s (Key.ofText input) .new p
  resultOf p (if p.isBroken then failureCode else 0)

def runSession (s : Session) (o : Options) (input : Text) (d : Directory) : RunResult :=
  match opening s o with
  | none => ⟨[], failureCode, d⟩
  | some out =>
    let p := (Progress.start d).add out []
    let line := inputOf o
    if line.isEmpty then finish s o input p
    else
      match s.respond d.failure? line with
      | none => resultOf p failureCode
      | some reply =>
        let p := p.record reply
        if reply.error.isSome then resultOf p failureCode else finish s o input p

def run (arguments : List Text) (input : Text) (d : Directory) : RunResult :=
  match Options.parse arguments, Session.start with
  | .error refusal, _ => ⟨[], refusal.exitCode, d⟩
  | .ok o, .ok s => runSession s o input d
  | .ok _, .error _ => ⟨[], failureCode, d⟩

end CommandLine

end Lookahead
