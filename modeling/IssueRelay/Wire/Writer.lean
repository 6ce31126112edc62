import IssueRelay.Wire.Basic

set_option autoImplicit false

namespace IssueRelay

/-- How a tree is written. `indent` is what stands once per level at the front of a line. -/
structure Layout where
  sortKeys : Bool
  asciiOnly : Bool
  indent : Option Text

namespace Wire

def escapeLetter? : CodePoint → Option Char
  | .scalar '"' => some '"'
  | .scalar '\\' => some '\\'
  | .scalar '\x08' => some 'b'
  | .scalar '\x0c' => some 'f'
  | .scalar '\n' => some 'n'
  | .scalar '\r' => some 'r'
  | .scalar '\t' => some 't'
  | _ => none

def escapeUnit (unit : Nat) : Text := .scalar '\\' :: .scalar 'u' :: Text.ofHex 4 unit

/-- A code point as one escaped unit, or past the first plane as the two halves that name it. -/
def escapeUnits (c : CodePoint) : Text :=
  if c.value < 0x10000 then escapeUnit c.value
  else
    escapeUnit (0xD800 + (c.value - 0x10000) / 0x400)
      ++ escapeUnit (0xDC00 + (c.value - 0x10000) % 0x400)

def spell (asciiOnly : Bool) (c : CodePoint) : Text :=
  match escapeLetter? c with
  | some letter => [.scalar '\\', .scalar letter]
  | none =>
    if c.value < 0x20 ∨ (asciiOnly = true ∧ 0x7E < c.value) then escapeUnits c else [c]

def quoted (asciiOnly : Bool) (s : Text) : Text :=
  .scalar '"' :: (s.flatMap (spell asciiOnly) ++ [.scalar '"'])

/-- What comes before an entry at a level, and before the brace that closes the level below it. -/
def lineBreak (layout : Layout) (level : Nat) : Text :=
  match layout.indent with
  | none => []
  | some unit => .scalar '\n' :: (List.replicate level unit).flatten

def colon (layout : Layout) : Text :=
  if layout.indent.isSome then [.scalar ':', .scalar ' '] else [.scalar ':']

mutual

def writeAt (layout : Layout) (level : Nat) : Wire → Text
  | .number n => Text.ofNat n.toNat
  | .text s => quoted layout.asciiOnly s
  | .object [] => [.scalar '{', .scalar '}']
  | .object (entry :: rest) =>
    .scalar '{' :: (lineBreak layout (level + 1) ++ writeEntries layout (level + 1) (entry :: rest)
      ++ lineBreak layout level ++ [.scalar '}'])

def writeEntries (layout : Layout) (level : Nat) : List (String × Wire) → Text
  | [] => []
  | [(key, w)] => quoted layout.asciiOnly key ++ colon layout ++ writeAt layout level w
  | (key, w) :: entry :: rest =>
    quoted layout.asciiOnly key ++ colon layout ++ writeAt layout level w
      ++ .scalar ',' :: (lineBreak layout level ++ writeEntries layout level (entry :: rest))

end

def write (layout : Layout) (w : Wire) : Text :=
  writeAt layout 0 (if layout.sortKeys then w.sorted else w)

end Wire

end IssueRelay
