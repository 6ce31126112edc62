import IssueRelay.Json.Basic

/-!
Why a text is not read as JSON. A reader that fails holds on to what was left of the text at the
place it means, and the place itself is worked out once, against the whole text.
-/

set_option autoImplicit false

namespace IssueRelay.Json

inductive Flaw
  | byteOrderMark
  | noValue
  | noName
  | noColon
  | noComma
  | extraData
  | openString
  | controlCharacter
  | unknownEscape
  | badUnitEscape
  deriving DecidableEq

def Flaw.message : Flaw → String
  | .byteOrderMark => "Unexpected UTF-8 BOM (decode using utf-8-sig)"
  | .noValue => "Expecting value"
  | .noName => "Expecting property name enclosed in double quotes"
  | .noColon => "Expecting ':' delimiter"
  | .noComma => "Expecting ',' delimiter"
  | .extraData => "Extra data"
  | .openString => "Unterminated string starting at"
  | .controlCharacter => "Invalid control character at"
  | .unknownEscape => "Invalid \\escape"
  | .badUnitEscape => "Invalid \\uXXXX escape"

inductive Container
  | array
  | object
  deriving DecidableEq

def Container.noun : Container → String
  | .array => "array"
  | .object => "object"

/-- A place in a text: code points before it, its line and its column, the last two from one. -/
structure Place where
  offset : Nat
  line : Nat
  column : Nat
  deriving DecidableEq

/-- The place that `before` leads up to. Only a line feed ends a line. -/
def Place.after (before : Text) : Place where
  offset := before.length
  line := before.count (.scalar '\n') + 1
  column := (before.reverse.takeWhile (· ≠ .scalar '\n')).length + 1

inductive Limit
  | integerDigits (count : Nat)
  | nesting (container : Container)
  deriving DecidableEq

def maxDigits : Nat := 4300

def Limit.message : Limit → Text
  | .integerDigits count =>
    "Exceeds the limit (" ++ Text.ofNat maxDigits
      ++ " digits) for integer string conversion: value has " ++ Text.ofNat count
      ++ " digits; use sys.set_int_max_str_digits() to increase the limit"
  | .nesting container =>
    "maximum recursion depth exceeded while decoding a JSON " ++ Text.ofString container.noun
      ++ " from a unicode string"

/-- How a reader stops: at a flaw, with what is left of the text from there on, or at a limit. -/
inductive Failure
  | flaw (flaw : Flaw) (rest : Text)
  | limit (limit : Limit)

structure Malformed where
  flaw : Flaw
  place : Place
  deriving DecidableEq

def Malformed.message (m : Malformed) : Text :=
  m.flaw.message ++ ": line " ++ Text.ofNat m.place.line ++ " column " ++ Text.ofNat m.place.column
    ++ " (char " ++ Text.ofNat m.place.offset ++ ")"

inductive Fault
  | malformed (m : Malformed)
  | limit (l : Limit)
  deriving DecidableEq

def Failure.locate (whole : Text) : Failure → Fault
  | .flaw f rest => .malformed ⟨f, Place.after (whole.take (whole.length - rest.length))⟩
  | .limit l => .limit l

end IssueRelay.Json
