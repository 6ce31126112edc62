import IssueRelay.Record.Catalog

set_option autoImplicit false

namespace IssueRelay

class Recorded (α : Type) where
  type : RecordType
  toRow : α → type.Row
  ofRow : type.Row → α
  ofRow_toRow : ∀ a, ofRow (toRow a) = a
  toRow_ofRow : ∀ r, toRow (ofRow r) = r

variable {α : Type} [Recorded α]

def Record.of (a : α) : Record := ⟨Recorded.type α, Recorded.toRow a⟩

def Record.as? (α : Type) [Recorded α] (r : Record) : Option α :=
  if h : r.type = Recorded.type α then some (Recorded.ofRow (h ▸ r.row)) else none

end IssueRelay
