/-!
Texts as sequences of code points. A JSON escape can name half of a surrogate pair, so a text that
has been read may hold code points that stand for no character.
-/

set_option autoImplicit false

namespace IssueRelay

/-- A code point: a character, or one of the 2048 surrogates, which stand for no character. -/
inductive CodePoint
  | scalar (c : Char)
  | surrogate (index : Fin 2048)
  deriving DecidableEq

abbrev Text := List CodePoint

namespace CodePoint

def value : CodePoint → Nat
  | .scalar c => c.toNat
  | .surrogate i => 0xD800 + i.val

def ofNat (n : Nat) : CodePoint :=
  if h : 0xD800 ≤ n ∧ n < 0xE000 then .surrogate ⟨n - 0xD800, by omega⟩
  else .scalar (Char.ofNat n)

def isSurrogate : CodePoint → Bool
  | .scalar _ => false
  | .surrogate _ => true

def indexFrom? (first : Char) (size : Nat) (c : CodePoint) : Option (Fin size) :=
  if h : first.toNat ≤ c.value ∧ c.value - first.toNat < size then
    some ⟨c.value - first.toNat, h.2⟩
  else none

end CodePoint

namespace Text

def ofChars (cs : List Char) : Text := cs.map .scalar

def ofString (s : String) : Text := ofChars s.toList

instance : Coe String Text := ⟨ofString⟩

def hasSurrogate (t : Text) : Bool := t.any CodePoint.isSurrogate

def ofNat (n : Nat) : Text := ofChars (Nat.toDigits 10 n)

def ofInt : Int → Text
  | .ofNat n => ofNat n
  | .negSucc n => .scalar '-' :: ofNat (n + 1)

def ofHex : (width n : Nat) → Text
  | 0, _ => []
  | width + 1, n => ofHex width (n / 16) ++ [.scalar (Nat.digitChar (n % 16))]

end Text

end IssueRelay
