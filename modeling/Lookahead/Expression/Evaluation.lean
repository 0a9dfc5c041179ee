import Lookahead.Numeral.Shortest
import Lookahead.Tree.Render
import Lookahead.Tree.Walk

/-!
Evaluation of expressions from their parse trees. The tail of a sum or a product becomes a
function that waits for its left operand, which makes all operators associate to the left.

Nodes are told apart by the names of their symbols. Trees of other grammars can be given as
well; evaluation fails if they do not have the expected shape.
-/

namespace Lookahead

structure Arithmetic (α : Type) where
  ofInteger : Int64 → α
  add : α → α → α
  sub : α → α → α
  mul : α → α → α
  div : α → α → α

def Arithmetic.float : Arithmetic Float :=
  ⟨Int64.toFloat, (· + ·), (· - ·), (· * ·), (· / ·)⟩

namespace Evaluation

-- What evaluation may stumble over: a tree of another shape, a number that has no value, or
-- an operator it does not know.
inductive Fault where
  | shape
  | noValue (lexeme : Text)
  | unknownOperator (lexeme : Text)
deriving DecidableEq, Repr

def Fault.message? : Fault → Option Text
  | shape => none
  | noValue lexeme => some (text "number " ++ Quoted.quote lexeme ++ text " without value")
  | unknownOperator lexeme => some (text "unknown operator " ++ Quoted.quote lexeme)

-- The value of a node: a number, a tail that waits for its left operand, an operator, or a token.
inductive Operand (α : Type) where
  | number (x : α)
  | tail (f : α → Except Fault α)
  | operator (lexeme : Text)
  | token (t : Token)

def apply {α : Type} (arith : Arithmetic α) (op : Text) (left right : α) : Except Fault α :=
  if op = text "+" then .ok (arith.add left right)
  else if op = text "-" then .ok (arith.sub left right)
  else if op = text "*" then .ok (arith.mul left right)
  else if op = text "/" then .ok (arith.div left right)
  else .error (.unknownOperator op)

def numberOf {α : Type} (arith : Arithmetic α) : Tree → Except Fault (Operand α)
  | .leaf _ (some t) =>
    match t.value with
    | some (.integer n) => .ok (.number (arith.ofInteger n))
    | _ => .error (.noValue t.lexeme)
  | _ => .error .shape

-- The value of a node from the values of its children, if it has one.
def combine {α : Type} (g : Grammar) (arith : Arithmetic α) (t : Tree)
    (values : List (Option (Operand α))) : Except Fault (Option (Operand α)) :=
  match t.symbol? with
  | none => .error .shape
  | some s =>
    let name := g.nameOf s
    if name = text "Expr" || name = text "Term" then
      match values with
      | some (.number left) :: some (.tail f) :: _ => (f left).map fun x => some (.number x)
      | _ => .error .shape
    else if name = text "Expr'" || name = text "Term'" then
      match values with
      | [] => .ok (some (.tail .ok))
      | some (.operator op) :: some (.number right) :: some (.tail rest) :: _ =>
        .ok (some (.tail fun left => (apply arith op left right).bind rest))
      | _ => .error .shape
    else if name = text "SumOp" || name = text "ProdOp" then
      match values with
      | some (.token t) :: _ => .ok (some (.operator t.lexeme))
      | _ => .error .shape
    else if name = text "Factor" then
      match t.child? g (text "number"), values with
      | some n, _ => (numberOf arith n).map some
      | none, _ :: inner :: _ => .ok inner
      | none, _ => .error .shape
    else .ok none

def gather {α : Type} : List (Option (Except Fault (Operand α))) →
    Except Fault (List (Option (Operand α)))
  | [] => .ok []
  | none :: rest => (gather rest).map (none :: ·)
  | some (.error fault) :: _ => .error fault
  | some (.ok x) :: rest => (gather rest).map (some x :: ·)

def outcome {α : Type} : Except Fault (Option (Operand α)) → Option (Except Fault (Operand α))
  | .error fault => some (.error fault)
  | .ok (some x) => some (.ok x)
  | .ok none => none

def listener {α : Type} (g : Grammar) (arith : Arithmetic α) :
    Listener (Except Fault (Operand α)) where
  enter := fun _ _ => true
  terminal := fun token _ => token.map fun t => .ok (.token t)
  exit := fun t _ values => outcome ((gather values).bind (combine g arith t))

end Evaluation

inductive EvaluationError where
  | fault (fault : Evaluation.Fault) (tree : Text)
  | notANumber (tree : Text)
deriving DecidableEq, Repr

-- Trees of another shape are refused without further words.
def EvaluationError.message? : EvaluationError → Option Text
  | fault f tree =>
    f.message?.map fun m => text "cannot evaluate " ++ tree ++ text ": " ++ m
  | notANumber tree => some (text "cannot evaluate " ++ tree)

def Tree.evaluate {α : Type} (g : Grammar) (arith : Arithmetic α) (t : Tree) :
    Except EvaluationError α :=
  match (t.walk (Evaluation.listener g arith) .leftToRight).2 with
  | some (.ok (.number x)) => .ok x
  | some (.error fault) => .error (.fault fault ((t.render? g).getD []))
  | _ => .error (.notANumber ((t.render? g).getD []))

def floatText (x : Float) : Text := Shortest.render x.toBits

end Lookahead
