import Lookahead.Text

/-!
Command-line options. They start with one or two hyphens and come before all other arguments;
`--` ends them. A value is given behind an equals sign or, unless the option is a switch, as the
next argument.
-/

namespace Lookahead

structure Options where
  showTable : Bool
  initFile : Text
  traceLevel : Text
  arguments : List Text
deriving DecidableEq, Repr

namespace Options

def initial : Options := ⟨false, [], text "Info", []⟩

-- Why options are not accepted: they are malformed, or ask for help instead.
inductive Refusal where
  | invalid
  | help
deriving DecidableEq, Repr

def Refusal.exitCode : Refusal → Nat
  | invalid => 2
  | help => 0

def readBool? (t : Text) : Option Bool :=
  if [text "1", text "t", text "T", text "TRUE", text "true", text "True"].contains t then some true
  else if [text "0", text "f", text "F", text "FALSE", text "false", text "False"].contains t then
    some false
  else none

-- Name and value of an option. The equals sign may not come first.
def splitValue : Text → Text × Option Text
  | [] => ([], none)
  | b :: rest =>
    match rest.dropWhile (· ≠ 0x3D) with
    | [] => (b :: rest, none)
    | _ :: value => (b :: rest.takeWhile (· ≠ 0x3D), some value)

inductive Argument where
  | plain
  | terminator
  | malformed
  | option (name : Text) (value : Option Text)
deriving DecidableEq, Repr

def classify (argument : Text) : Argument :=
  match argument with
  | b :: c :: rest =>
    if b ≠ 0x2D then .plain
    else
      let name := if c = 0x2D then rest else c :: rest
      if c = 0x2D && rest.isEmpty then .terminator
      else
        match name with
        | [] => .malformed
        | d :: _ =>
          if d = 0x2D || d = 0x3D then .malformed
          else
            let (name, value) := splitValue name
            .option name value
  | _ => .plain

-- Stores the value of an option that is no switch, if there is such an option.
def store? (o : Options) (name : Text) : Option (Text → Options) :=
  if name = text "init" then some fun value => { o with initFile := value }
  else if name = text "trace" then some fun value => { o with traceLevel := value }
  else none

def parseFrom (o : Options) : List Text → Except Refusal Options
  | [] => .ok o
  | argument :: rest =>
    match classify argument with
    | .plain => .ok { o with arguments := argument :: rest }
    | .terminator => .ok { o with arguments := rest }
    | .malformed => .error .invalid
    | .option name value =>
      if name = text "table" then
        match readBool? (value.getD (text "true")) with
        | some b => parseFrom { o with showTable := b } rest
        | none => .error .invalid
      else
        match o.store? name, value, rest with
        | some set, some value, rest => parseFrom (set value) rest
        | some set, none, value :: rest => parseFrom (set value) rest
        | some _, none, [] => .error .invalid
        | none, _, _ =>
          if name = text "help" || name = text "h" then .error .help else .error .invalid

def parse (arguments : List Text) : Except Refusal Options := parseFrom initial arguments

end Options

end Lookahead
