import IssueRelay.Record.Error

/-!
Records from JSON values, and from values given one by one. Reading goes through the fields in order
and stops at the first error; keys that name no field are not looked at.
-/

set_option autoImplicit false

namespace IssueRelay

def unsigned : Json → Except Mismatch UInt64
  | .int n =>
    if 0 ≤ n ∧ n < UInt64.size then .ok (UInt64.ofNat n.toNat) else .error (.outOfRange n)
  | v => .error (.notUnsigned v.shape)

def plainText : Json → Except Mismatch Text
  | .str s => if s.hasSurrogate then .error .surrogate else .ok s
  | v => .error (.notString v.shape)

mutual

/-- The value of a field, from what stands under its key in the object at `container`. -/
def Kind.read (container : Text) (key : String) :
    (kind : Kind) → Option Json → Except RecordError kind.Value
  | .optionalText, none => .ok none
  | .optionalText, some .null => .ok none
  | .optionalText, some v =>
    match plainText v with
    | .ok s => .ok (some s)
    | .error m => .error (.mismatch (childPath container key) m)
  | _, none => .error (.missing container key)
  | .uint64, some v => (unsigned v).mapError (.mismatch (childPath container key))
  | .text, some v => (plainText v).mapError (.mismatch (childPath container key))
  | .record _ fields, some (.obj members) => Row.read (childPath container key) fields members
  | .record _ _, some v => .error (.mismatch (childPath container key) (.notObject v.shape))

def Row.read (path : Text) : (fields : List (FieldName × Kind)) → List (Text × Json) →
    Except RecordError (Row fields)
  | [], _ => .ok ()
  | (name, kind) :: rest, members => do
    let v ← Kind.read path name.wire kind (Json.get? members name.wire)
    let r ← Row.read path rest members
    .ok (v, r)

end

def RecordType.ofJson (type : RecordType) (path : Text) : Json → Except RecordError type.Row
  | .obj members => Row.read path type.fields members
  | v => .error (.mismatch path (.notObject v.shape))

/-- A field's value before a record is built: a number can still be any JSON value. -/
@[reducible] def Kind.Draft : Kind → Type
  | .uint64 => Json
  | .text => Text
  | .optionalText => Option Text
  | .record _ fields => Row fields

@[reducible] def Draft : List (FieldName × Kind) → Type
  | [] => Unit
  | (_, kind) :: rest => kind.Draft × Draft rest

def Kind.build : (kind : Kind) → kind.Draft → Except Mismatch kind.Value
  | .uint64, v => unsigned v
  | .text, s => .ok s
  | .optionalText, s => .ok s
  | .record _ _, r => .ok r

def Draft.build (type : RecordType) : (fields : List (FieldName × Kind)) → Draft fields →
    Except BuildError (Row fields)
  | [], _ => .ok ()
  | (name, kind) :: rest, (v, draft) => do
    let v ← (kind.build v).mapError (⟨type, name.internal, ·⟩)
    let r ← Draft.build type rest draft
    .ok (v, r)

/-- A record from values given for its fields. Only numbers are checked. -/
def RecordType.build (type : RecordType) (draft : Draft type.fields) :
    Except BuildError type.Row :=
  Draft.build type type.fields draft

end IssueRelay
