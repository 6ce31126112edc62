import IssueRelay.Text.Printable

set_option autoImplicit false

namespace IssueRelay.Text

def quoteMark (t : Text) : Char :=
  if .scalar '\'' ∈ t ∧ .scalar '"' ∉ t then '"' else '\''

def byNumber (c : CodePoint) : Text :=
  if c.value < 0x100 then "\\x" ++ ofHex 2 c.value
  else if c.value < 0x10000 then "\\u" ++ ofHex 4 c.value
  else "\\U" ++ ofHex 8 c.value

def spellQuoted (mark : Char) (c : CodePoint) : Text :=
  if c = .scalar mark ∨ c = .scalar '\\' then [.scalar '\\', c]
  else if c = .scalar '\n' then "\\n"
  else if c = .scalar '\r' then "\\r"
  else if c = .scalar '\t' then "\\t"
  else if c.isPrintable then [c]
  else byNumber c

def quoted (t : Text) : Text :=
  .scalar (quoteMark t) :: (t.flatMap (spellQuoted (quoteMark t)) ++ [.scalar (quoteMark t)])

end IssueRelay.Text
