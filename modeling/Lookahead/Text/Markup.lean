import Lookahead.Text

/-!
Colour markup. Tags like `<red>` and `</>`, and escape sequences that switch colours, are taken
out of what is shown to a reader, since colours are never used. Tags count as markup only if one of
them is the closing tag.
-/

namespace Lookahead

namespace Markup

-- Bytes that may stand in a tag: letters and what is needed for attributes.
def isTagByte (b : UInt8) : Bool :=
  (0x41 ≤ b && b ≤ 0x5A) || (0x61 ≤ b && b ≤ 0x7A) || b = 0x3D || b = 0x3B || b = 0x5F || b = 0x2C

-- Bytes that may stand in the parameters of an escape sequence.
def isCodeByte (b : UInt8) : Bool := isDecimalByte b || b = 0x3B || b = 0x3F

-- The length of a run of bytes up to and including a last one, or 0 if it does not end this way.
def runLength (inRun : UInt8 → Bool) (last : UInt8) (taken : Nat) : Text → Nat
  | [] => 0
  | b :: rest =>
    if b = last then taken + 1
    else if inRun b then runLength inRun last (taken + 1) rest
    else 0

-- The length of the tag at the front of a text, or 0 if there is none.
def tagLength : Text → Nat
  | 0x3C :: 0x2F :: rest => runLength isTagByte 0x3E 2 rest
  | 0x3C :: rest => runLength isTagByte 0x3E 1 rest
  | _ => 0

-- The length of the escape sequence at the front of a text, or 0 if there is none. It has at
-- least one parameter.
def codeLength : Text → Nat
  | 0x1B :: 0x5B :: b :: rest => if isCodeByte b then runLength isCodeByte 0x6D 3 rest else 0
  | _ => 0

-- Deletes everything `lengthAt` finds, from left to right, and the first `skip` bytes.
def deleteFrom (lengthAt : Text → Nat) : (skip : Nat) → Text → Text
  | _, [] => []
  | skip + 1, _ :: rest => deleteFrom lengthAt skip rest
  | 0, b :: rest =>
    match lengthAt (b :: rest) with
    | 0 => b :: deleteFrom lengthAt 0 rest
    | n + 1 => deleteFrom lengthAt n rest

def hasClosingTag : Text → Bool
  | [] => false
  | b :: rest => (text "</>").isPrefixOf (b :: rest) || hasClosingTag rest

def withoutTags (t : Text) : Text := if hasClosingTag t then deleteFrom tagLength 0 t else t

def withoutCodes (t : Text) : Text := deleteFrom codeLength 0 t

-- A text without markup. Taking out a tag may leave another one behind.
def plain (t : Text) : Text := withoutCodes (withoutTags t)

end Markup

end Lookahead
