import IssueRelay.Record.Catalog
import IssueRelay.Wire.Basic

/-!
Records as trees. A field without a value has no entry, nor has a field that is left out by its
internal name; names left out are left out at every level.
-/

set_option autoImplicit false

namespace IssueRelay

mutual

def Kind.toWire? (excluded : List String) : (kind : Kind) → kind.Value → Option Wire
  | .uint64, n => some (.number n)
  | .text, s => some (.text s)
  | .optionalText, s => s.map .text
  | .record _ fields, r => some (.object (Row.entries excluded fields r))

def Row.entries (excluded : List String) :
    (fields : List (FieldName × Kind)) → Row fields → List (String × Wire)
  | [], _ => []
  | (name, kind) :: rest, (v, r) =>
    if name.internal ∈ excluded then Row.entries excluded rest r
    else match Kind.toWire? excluded kind v with
      | none => Row.entries excluded rest r
      | some w => (name.wire, w) :: Row.entries excluded rest r

end

def RecordType.toWire (type : RecordType) (excluded : List String) (r : type.Row) : Wire :=
  .object (Row.entries excluded type.fields r)

def Record.toWire (r : Record) (excluded : List String) : Wire := r.type.toWire excluded r.row

end IssueRelay
