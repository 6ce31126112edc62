import IssueRelay.Text.Basic

/-!
Schemas. A record is a row of values, one per field; a schema says what each field holds and under
which key it travels, and everything that is done to records is done by recursion on their schema.
-/

set_option autoImplicit false

namespace IssueRelay

/-- A field's name in its record, and its key on the wire. -/
structure FieldName where
  internal : String
  wire : String
  deriving DecidableEq

inductive Kind
  | uint64
  | text
  | optionalText
  | record (type : String) (fields : List (FieldName × Kind))

abbrev Field := FieldName × Kind

mutual

def Kind.decEqKind : DecidableEq Kind
  | .uint64, k => decidable_of_iff (k matches .uint64) (by cases k <;> simp)
  | .text, k => decidable_of_iff (k matches .text) (by cases k <;> simp)
  | .optionalText, k => decidable_of_iff (k matches .optionalText) (by cases k <;> simp)
  | .record _ _, .uint64 | .record _ _, .text | .record _ _, .optionalText => isFalse nofun
  | .record type fields, .record type' fields' =>
    have := Field.decEqList fields fields'
    decidable_of_iff (type = type' ∧ fields = fields') (by simp)

def Field.decEqList : DecidableEq (List (FieldName × Kind))
  | [], [] => isTrue rfl
  | [], _ :: _ | _ :: _, [] => isFalse nofun
  | (name, kind) :: rest, (name', kind') :: rest' =>
    have := kind.decEqKind kind'
    have := Field.decEqList rest rest'
    decidable_of_iff ((name = name' ∧ kind = kind') ∧ rest = rest') (by simp)

end

instance : DecidableEq Kind := Kind.decEqKind

namespace Field

def as (internal wire : String) (kind : Kind) : Field := (⟨internal, wire⟩, kind)

def plain (name : String) (kind : Kind) : Field := as name name kind

end Field

mutual

@[reducible] def Kind.Value : Kind → Type
  | .uint64 => UInt64
  | .text => Text
  | .optionalText => Option Text
  | .record _ fields => Row fields

@[reducible] def Row : List (FieldName × Kind) → Type
  | [] => Unit
  | (_, kind) :: rest => kind.Value × Row rest

end

mutual

def Kind.decEq : (kind : Kind) → DecidableEq kind.Value
  | .uint64 => inferInstanceAs (DecidableEq UInt64)
  | .text => inferInstanceAs (DecidableEq Text)
  | .optionalText => inferInstanceAs (DecidableEq (Option Text))
  | .record _ fields => Row.decEq fields

def Row.decEq : (fields : List (FieldName × Kind)) → DecidableEq (Row fields)
  | [] => inferInstanceAs (DecidableEq Unit)
  | (_, kind) :: rest =>
    have := kind.decEq
    have := Row.decEq rest
    inferInstanceAs (DecidableEq (kind.Value × Row rest))

end

instance (fields : List (FieldName × Kind)) : DecidableEq (Row fields) := Row.decEq fields

end IssueRelay
