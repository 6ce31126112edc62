import IssueRelay.Text.Basic

/-!
UTF-8. `decode` runs a machine over the octets that stops at the first octet no well-formed text can
continue with, and says which octets are at fault; `encode` refuses a text with surrogates.
-/

set_option autoImplicit false

namespace IssueRelay.Utf8

inductive Reason
  | invalidStart
  | invalidContinuation
  | unexpectedEnd
  deriving DecidableEq

def Reason.message : Reason → String
  | .invalidStart => "invalid start byte"
  | .invalidContinuation => "invalid continuation byte"
  | .unexpectedEnd => "unexpected end of data"

/-- Octets that spell no character: `head`, which stands at `start`, and the `more` octets after it
that were read as its continuation. -/
structure Fault where
  start : Nat
  head : UInt8
  more : Nat
  reason : Reason
  deriving DecidableEq

def Fault.message (f : Fault) : Text :=
  let octets : Text :=
    if f.more = 0 then
      "byte 0x" ++ Text.ofHex 2 f.head.toNat ++ " in position " ++ Text.ofNat f.start
    else "bytes in position " ++ Text.ofNat f.start ++ "-" ++ Text.ofNat (f.start + f.more)
  "'utf-8' codec can't decode " ++ octets ++ ": " ++ Text.ofString f.reason.message

/-- What the octets read of a character ask for: how many more, between which bounds the next one
must lie, and the bits gathered so far. -/
structure Debt where
  owed : Nat
  low : UInt8
  high : UInt8
  bits : Nat
  deriving DecidableEq

/-- What a first octet past ASCII asks for. The bounds of the second octet rule out overlong forms,
surrogates and values past the last code point. -/
def Debt.ofHead? (b : UInt8) : Option Debt :=
  if b < 0xC2 then none
  else if b < 0xE0 then some ⟨1, 0x80, 0xBF, b.toNat - 0xC0⟩
  else if b < 0xF0 then
    some ⟨2, if b = 0xE0 then 0xA0 else 0x80, if b = 0xED then 0x9F else 0xBF, b.toNat - 0xE0⟩
  else if b < 0xF5 then
    some ⟨3, if b = 0xF0 then 0x90 else 0x80, if b = 0xF4 then 0x8F else 0xBF, b.toNat - 0xF0⟩
  else none

/-- Where the machine stands: between characters, or `read` octets past the head of one. -/
inductive State
  | between
  | within (head : UInt8) (read : Nat) (debt : Debt)

def decodeFrom (start : Nat) : State → List UInt8 → Except Fault (List Char)
  | .between, [] => .ok []
  | .between, b :: rest =>
    if b < 0x80 then (Char.ofNat b.toNat :: ·) <$> decodeFrom (start + 1) .between rest
    else match Debt.ofHead? b with
      | none => .error ⟨start, b, 0, .invalidStart⟩
      | some debt => decodeFrom start (.within b 0 debt) rest
  | .within head read _, [] => .error ⟨start, head, read, .unexpectedEnd⟩
  | .within head read debt, b :: rest =>
    if debt.low ≤ b ∧ b ≤ debt.high then
      let bits := debt.bits * 64 + (b.toNat - 0x80)
      if debt.owed ≤ 1 then
        (Char.ofNat bits :: ·) <$> decodeFrom (start + read + 2) .between rest
      else decodeFrom start (.within head (read + 1) ⟨debt.owed - 1, 0x80, 0xBF, bits⟩) rest
    else .error ⟨start, head, read, .invalidContinuation⟩

def decode (octets : List UInt8) : Except Fault (List Char) := decodeFrom 0 .between octets

/-- Surrogates in a text that is to be encoded: `head`, which stands at `start`, and the `more` next
to it. -/
structure SurrogateRun where
  start : Nat
  head : Fin 2048
  more : Nat
  deriving DecidableEq

def SurrogateRun.message (r : SurrogateRun) : Text :=
  let points : Text :=
    if r.more = 0 then
      "character '\\u" ++ Text.ofHex 4 (0xD800 + r.head.val) ++ "' in position "
        ++ Text.ofNat r.start
    else "characters in position " ++ Text.ofNat r.start ++ "-" ++ Text.ofNat (r.start + r.more)
  "'utf-8' codec can't encode " ++ points ++ ": surrogates not allowed"

def charsFrom (start : Nat) : Text → Except SurrogateRun (List Char)
  | [] => .ok []
  | .scalar c :: rest => (c :: ·) <$> charsFrom (start + 1) rest
  | .surrogate i :: rest => .error ⟨start, i, (rest.takeWhile CodePoint.isSurrogate).length⟩

def encodeChars (cs : List Char) : List UInt8 := cs.flatMap String.utf8EncodeChar

def encode (t : Text) : Except SurrogateRun (List UInt8) := encodeChars <$> charsFrom 0 t

end IssueRelay.Utf8
