import Lookahead.Expression.Evaluation
import Lookahead.Expression.Grammar
import Lookahead.Parser.FromText
import Lookahead.Table.Render
import Lookahead.Text.Blank
import Lookahead.Text.Markup

/-!
An interactive session. A line is an expression, which is parsed and evaluated, or a
command behind a colon.
-/

namespace Lookahead

structure Session where
  table : Table

def Session.start : Except Table.Fault Session := Expression.table.map Session.mk

inductive SessionError where
  | parse (failure : ParseFailure)
  | evaluation (error : EvaluationError)
  | usage
  | unknownCommand (name : Text)
  | file (message : Text)
deriving DecidableEq, Repr

-- Only the evaluation of a tree of another shape has nothing to say.
def SessionError.message? (g : Grammar) : SessionError → Option Text
  | parse failure => some (failure.message g)
  | evaluation e => e.message?
  | usage => some (text "usage: :html <file>")
  | unknownCommand name => some (text "unknown command :" ++ name)
  | file message => some message

inductive TraceLevel where
  | error
  | info
deriving DecidableEq, Repr

structure TraceLine where
  level : TraceLevel
  message : Text
deriving DecidableEq, Repr

-- The answer to a line: output, trace, an error, whether the session ends, and a file to be
-- written.
structure Reply where
  out : Text
  trace : List TraceLine
  error : Option SessionError
  quit : Bool
  file : Option (Text × Text)
deriving DecidableEq, Repr

namespace Session

-- A message behind a label. Further lines are indented to the width of the label. Markup is taken
-- out of the message, of each of its lines, and five times of the whole.
def labelled (label message : Text) : Text :=
  let indent := List.replicate label.length 0x20
  let lines := (Text.splitOn 0x0A (Markup.withoutTags message)).map Markup.plain
  let whole := label ++ Text.join (text "\n" ++ indent) lines ++ text "\n"
  Nat.repeat Markup.withoutTags 5 whole

def info (message : Text) : Text := labelled (text "   >>  ") message

def alert (message : Text) : Text := labelled (text "   Error  ") message

def grammar (s : Session) : Grammar := s.table.grammar

def silent : Reply := ⟨[], [], none, false, none⟩

def printed (out : Text) : Reply := { silent with out := out }

def refused (s : Session) (out : Text) (trace : List TraceLine) (e : SessionError) : Reply :=
  ⟨out ++ alert ((e.message? s.grammar).getD []), trace, some e, false, none⟩

def parseMark : TraceLine :=
  ⟨.info, text "----------------------- Parse ------------------------------------"⟩

def outputMark : TraceLine :=
  ⟨.info, text "-------------------------- Output --------------------------------"⟩

-- Shows the tree of an expression and its value. There is no reply if the parser breaks down.
def evaluate (s : Session) (line : Text) : Option Reply :=
  match Parser.parseText s.table (text "input") line with
  | some ⟨.accepted tree, _⟩ => do
    let outline ← tree.outline? s.grammar
    match tree.evaluate s.grammar .float with
    | .ok x => some ⟨outline ++ info (floatText x), [parseMark, outputMark], none, false, none⟩
    | .error e => some (s.refused outline [parseMark, outputMark] (.evaluation e))
  | some ⟨.failed failure, _⟩ => some (s.refused [] [parseMark] (.parse failure))
  | _ => none

def tableText (s : Session) : Option Text := do
  let table ← s.table.render.toOption
  return s.grammar.rules.flatMap s.grammar.numberedRule ++ table ++ text "\n"

def writeTable (s : Session) (failure? : Text → Option Text) (path : Text) : Option Reply :=
  match failure? path with
  | some message => some (s.refused [] [] (.file message))
  | none => do
    let page ← s.table.html.toOption
    return { silent with
      out := info (text "table written to " ++ path), file := some (path, page) }

-- Executes a command. Words behind what it needs do not matter.
def execute (s : Session) (failure? : Text → Option Text) : List Text → Option Reply
  | [] => some silent
  | command :: arguments =>
    if command = text "quit" || command = text "q" then some { silent with quit := true }
    else if command = text "table" then s.tableText.map printed
    else if command = text "sets" then some (printed (s.table.analysis.render ++ text "\n"))
    else if command = text "html" then
      match arguments with
      | [] => some (s.refused [] [] .usage)
      | path :: _ => s.writeTable failure? path
    else some (s.refused [] [] (.unknownCommand command))

-- Answers a line. `failure?` tells why a file cannot be created. There is no reply if the session
-- breaks down.
def respond (s : Session) (failure? : Text → Option Text) (line : Text) : Option Reply :=
  match line with
  | b :: rest =>
    if b = 0x3A then s.execute failure? (Text.words rest) else s.evaluate line
  | [] => s.evaluate []

def requestedFile? (line : Text) : Option Text :=
  match line with
  | b :: rest =>
    if b = 0x3A then
      match Text.words rest with
      | command :: path :: _ => if command = text "html" then some path else none
      | _ => none
    else none
  | [] => none

end Session

end Lookahead
