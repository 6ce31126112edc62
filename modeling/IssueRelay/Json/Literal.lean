import IssueRelay.Json.Fault

/-!
String literals, in two steps: `scan` reads the symbols between the quotes, and `join` puts the
halves of surrogate pairs together. Only a half written as an escape is joined, and only to the one
right after it.
-/

set_option autoImplicit false

namespace IssueRelay.Json.Literal

/-- A symbol of a string literal: a code point, or a sixteen-bit unit written as an escape. -/
inductive Symbol
  | point (c : CodePoint)
  | unit (u : Fin 0x10000)
  deriving DecidableEq

def isHigh (u : Fin 0x10000) : Bool := 0xD800 ≤ u.val && u.val < 0xDC00

def isLow (u : Fin 0x10000) : Bool := 0xDC00 ≤ u.val && u.val < 0xE000

def ofHalves (high low : Fin 0x10000) : CodePoint :=
  .ofNat (0x10000 + (high.val - 0xD800) * 0x400 + (low.val - 0xDC00))

def join : List Symbol → Text
  | [] => []
  | .point c :: rest => c :: join rest
  | [.unit u] => [.ofNat u.val]
  | .unit u :: .point c :: rest => .ofNat u.val :: c :: join rest
  | .unit u :: .unit v :: rest =>
    if isHigh u && isLow v then ofHalves u v :: join rest
    else .ofNat u.val :: join (.unit v :: rest)

def hexDigit? (c : CodePoint) : Option (Fin 16) :=
  ((c.indexFrom? '0' 10).map (Fin.castAdd 6)).or
    (((c.indexFrom? 'a' 6).or (c.indexFrom? 'A' 6)).map (Fin.natAdd 10))

def unit? (a b c d : CodePoint) : Option (Fin 0x10000) := do
  let a ← hexDigit? a
  let b ← hexDigit? b
  let c ← hexDigit? c
  let d ← hexDigit? d
  some ⟨((a.val * 16 + b.val) * 16 + c.val) * 16 + d.val, by omega⟩

def shortEscape? : CodePoint → Option Char
  | .scalar '"' => some '"'
  | .scalar '\\' => some '\\'
  | .scalar '/' => some '/'
  | .scalar 'b' => some '\x08'
  | .scalar 'f' => some '\x0c'
  | .scalar 'n' => some '\n'
  | .scalar 'r' => some '\r'
  | .scalar 't' => some '\t'
  | _ => none

/-- The symbols up to the closing quote, and what follows it. A literal that never ends is reported
where it opens, and an escaped unit needs four digits and something after them. -/
def scan (opening : Text) : Text → Except Failure (List Symbol × Text)
  | [] => .error (.flaw .openString opening)
  | c :: rest =>
    if c = .scalar '"' then .ok ([], rest)
    else if c = .scalar '\\' then
      match rest with
      | [] => .error (.flaw .openString opening)
      | e :: more =>
        if e = .scalar 'u' then
          match more with
          | d₁ :: d₂ :: d₃ :: d₄ :: next :: after =>
            match unit? d₁ d₂ d₃ d₄ with
            | none => .error (.flaw .badUnitEscape rest)
            | some u =>
              (fun (symbols, r) => (.unit u :: symbols, r)) <$> scan opening (next :: after)
          | _ => .error (.flaw .badUnitEscape rest)
        else match shortEscape? e with
          | none => .error (.flaw .unknownEscape (c :: rest))
          | some x => (fun (symbols, r) => (.point (.scalar x) :: symbols, r)) <$> scan opening more
    else if c.value < 0x20 then .error (.flaw .controlCharacter (c :: rest))
    else (fun (symbols, r) => (.point c :: symbols, r)) <$> scan opening rest

end IssueRelay.Json.Literal
