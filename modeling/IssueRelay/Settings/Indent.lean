import IssueRelay.Settings.Basic
import IssueRelay.Wire.Writer

set_option autoImplicit false

namespace IssueRelay

inductive IndentError
  | notRepeatable (found : Shape)
  | countTooLarge
  deriving DecidableEq

def IndentError.message : IndentError → Text
  | .notRepeatable found =>
    "can't multiply sequence by non-int of type '" ++ Text.ofString found.typeName ++ "'"
  | .countTooLarge => "cannot fit 'int' into an index-sized integer"

/-- That many spaces; none for a negative count. A count has to fit a signed machine word. -/
def spaces (n : Int) : Except IndentError Text :=
  if -0x8000000000000000 ≤ n ∧ n < 0x8000000000000000 then
    .ok (List.replicate n.toNat (.scalar ' '))
  else .error .countTooLarge

namespace OutputSettings

def indentUnit (s : OutputSettings) : Except IndentError (Option Text) :=
  match s.indent with
  | .null => .ok none
  | .str unit => .ok (some unit)
  | .int n => some <$> spaces n
  | .bool b => some <$> spaces b.toInt
  | v => .error (.notRepeatable v.shape)

def layout (s : OutputSettings) : Except IndentError Layout := do
  let indent ← s.indentUnit
  .ok ⟨s.sortKeys.isSet, s.asciiOnly.isSet, indent⟩

end OutputSettings

end IssueRelay
