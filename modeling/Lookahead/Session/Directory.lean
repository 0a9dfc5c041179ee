import Lookahead.Text

/-!
A directory of files, as far as a session can tell: which paths can be created, and what the files
contain. Of everything around the directory, only the root with its usual directories is known.
-/

namespace Lookahead

structure Directory where
  files : List (Text × Text)
deriving DecidableEq, Repr

namespace Directory

def empty : Directory := ⟨[]⟩

inductive Obstacle where
  | invalidName
  | nameTooLong
  | noSuchDirectory
  | notADirectory
  | isADirectory
deriving DecidableEq, Repr

def Obstacle.message : Obstacle → Text
  | invalidName => text "invalid argument"
  | nameTooLong => text "file name too long"
  | noSuchDirectory => text "no such file or directory"
  | notADirectory => text "not a directory"
  | isADirectory => text "is a directory"

def content? (d : Directory) (name : Text) : Option Text :=
  (d.files.find? (·.1 = name)).map (·.2)

-- Directories a path may lead through: this one, those it lies in, the root, the devices, and
-- others below the root.
inductive Location where
  | here
  | above
  | root
  | devices
  | system
deriving DecidableEq, Repr

-- What is found under a name. A sink takes everything. It contains nothing, or zero bytes without
-- end.
inductive Entry where
  | missing
  | file (name : Text)
  | sink (isEndless : Bool)
  | directory (location : Location)
deriving DecidableEq, Repr

def systemNames : List Text :=
  [text "bin", text "boot", text "etc", text "home", text "lib", text "media", text "mnt",
   text "opt", text "proc", text "root", text "run", text "sbin", text "srv", text "sys",
   text "tmp", text "usr", text "var"]

def parent : Location → Location
  | .here | .above => .above
  | _ => .root

def lookup (d : Directory) (location : Location) (name : Text) : Entry :=
  if name = text "." then .directory location
  else if name = text ".." then .directory (parent location)
  else
    match location with
    | .here => if (d.content? name).isSome then .file name else .missing
    | .root =>
      if name = text "dev" then .directory .devices
      else if systemNames.contains name then .directory .system
      else .missing
    | .devices =>
      if name = text "null" then .sink false
      else if name = text "full" || name = text "zero" then .sink true
      else .missing
    | .above | .system => .missing

def nameLimit : Nat := 255

def pathLimit : Nat := 4095

-- What the names of a path lead to, up to the last but one, which has to be a directory.
def follow (d : Directory) (location : Location) :
    List Text → Except Obstacle (Location × Option Text)
  | [] => .ok (location, none)
  | [name] => .ok (location, some name)
  | name :: rest =>
    if nameLimit < name.length then .error .nameTooLong
    else
      match d.lookup location name with
      | .directory inner => d.follow inner rest
      | .missing => .error .noSuchDirectory
      | _ => .error .notADirectory

def namesOf (path : Text) : List Text := (Text.splitOn 0x2F path).filter (!·.isEmpty)

-- The directory a path leads to, and the last name, if there is one.
def walk (d : Directory) (path : Text) : Except Obstacle (Location × Option Text) :=
  if path.contains 0 then .error .invalidName
  else if pathLimit < path.length then .error .nameTooLong
  else if path.isEmpty then .error .noSuchDirectory
  else d.follow (if path.head? = some 0x2F then .root else .here) (namesOf path)

def endsInSlash (path : Text) : Bool := path.getLast? = some 0x2F

def isDots (name : Text) : Bool := name = text "." || name = text ".."

def target (d : Directory) (path : Text) : Except Obstacle (Location × Text) := do
  match ← d.walk path with
  | (_, none) => .error .isADirectory
  | (location, some name) =>
    if isDots name || endsInSlash path then .error .isADirectory
    else if nameLimit < name.length then .error .nameTooLong
    else
      match d.lookup location name with
      | .directory _ => .error .isADirectory
      | _ => .ok (location, name)

def obstacle? (d : Directory) (path : Text) : Option Obstacle :=
  match d.target path with
  | .ok _ => none
  | .error o => some o

-- What is found under a path. Only directories may be followed by a slash.
def find (d : Directory) (path : Text) : Entry :=
  match d.walk path with
  | .error _ => .missing
  | .ok (location, none) => .directory location
  | .ok (location, some name) =>
    if nameLimit < name.length then .missing
    else
      match d.lookup location name with
      | .directory inner => .directory inner
      | entry => if endsInSlash path then .missing else entry

def failure? (d : Directory) (path : Text) : Option Text :=
  (d.obstacle? path).map fun o => text "open " ++ path ++ text ": " ++ o.message

-- Creates a file, or replaces it, if that is possible. Files elsewhere are of no concern.
def write (d : Directory) (path content : Text) : Directory :=
  match d.target path with
  | .ok (.here, name) => ⟨d.files.filter (·.1 ≠ name) ++ [(name, content)]⟩
  | _ => d

end Directory

end Lookahead
