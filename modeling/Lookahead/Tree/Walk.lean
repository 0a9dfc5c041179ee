import Lookahead.Tree.Basic

/-!
Walking a tree. A listener is told about every node on the way down and on the way up, and
computes a value for it from the values of its children. The walk also yields what the listener
was told, in order.
-/

namespace Lookahead

inductive Direction where
  | leftToRight
  | rightToLeft
deriving DecidableEq, Repr

-- `enter` decides whether the children of a node are visited; `exit` gets their values in the
-- order of the right-hand side, and none of them if they were not visited. A missing value is
-- `none`.
structure Listener (β : Type) where
  enter : Tree → (level : Nat) → Bool
  terminal : Option Token → (level : Nat) → Option β
  exit : Tree → (level : Nat) → List (Option β) → Option β

inductive Event (β : Type) where
  | enter (node : Tree) (level : Nat)
  | terminal (token : Option Token) (level : Nat)
  | exit (node : Tree) (level : Nat) (values : List (Option β))

namespace Tree

-- What is told about a node whose children have been visited.
def around {β : Type} (l : Listener β) (t : Tree) (level : Nat)
    (below : List (Event β) × List (Option β)) : List (Event β) × Option β :=
  (.enter t level :: (below.1 ++ [.exit t level below.2]), l.exit t level below.2)

mutual

def walkFrom {β : Type} (l : Listener β) (dir : Direction) (level : Nat) :
    Tree → List (Event β) × Option β
  | missing => ([], none)
  | leaf s token =>
    if (leaf s token).isTerminal then ([.terminal token level], l.terminal token level)
    else around l (leaf s token) level ([], [])
  | branch r children =>
    around l (branch r children) level
      (if l.enter (branch r children) level then walkAll l dir (level + 1) children else ([], []))

def walkAll {β : Type} (l : Listener β) (dir : Direction) (level : Nat) :
    List Tree → List (Event β) × List (Option β)
  | [] => ([], [])
  | t :: rest =>
    let (here, value) := walkFrom l dir level t
    let (there, values) := walkAll l dir level rest
    match dir with
    | .leftToRight => (here ++ there, value :: values)
    | .rightToLeft => (there ++ here, value :: values)

end

-- The events of a walk and the value of the root.
def walk {β : Type} (l : Listener β) (dir : Direction) (t : Tree) : List (Event β) × Option β :=
  walkFrom l dir 0 t

end Tree

end Lookahead
