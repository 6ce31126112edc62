import Mathlib.Data.List.Nodup
import IssueRelay.Proofs.Record.Schema
import IssueRelay.Proofs.Wire.Listing

set_option autoImplicit false

namespace IssueRelay

/-- A field that leads to a value, and the name of the record type that it is a field of. -/
structure FieldOf where
  type : String
  name : FieldName

/-- A value in a record, with the fields that lead to it from the outside in. What is in a record
that is itself a value is listed after it. -/
structure Held where
  trail : List FieldOf
  content : Wire.Content

namespace Held

def under (field : FieldOf) (h : Held) : Held := { h with trail := field :: h.trail }

def listed (h : Held) : Wire.Listed := (h.trail.map (·.name.wire), h.content)

end Held

mutual

def Kind.listing : (kind : Kind) → kind.Value → List Held
  | .uint64, n => [⟨[], .number n⟩]
  | .text, s => [⟨[], .text s⟩]
  | .optionalText, none => []
  | .optionalText, some s => [⟨[], .text s⟩]
  | .record type fields, r => ⟨[], .object⟩ :: Row.listing type fields r

def Row.listing (type : String) : (fields : List (FieldName × Kind)) → Row fields → List Held
  | [], _ => []
  | (name, kind) :: rest, (v, r) =>
    (kind.listing v).map (Held.under ⟨type, name⟩) ++ Row.listing type rest r

end

def Record.listing (r : Record) : List Held := r.type.kind.listing r.row

theorem Row.exists_of_mem_listing {type : String} {fields : List (FieldName × Kind)}
    {r : Row fields} {h : Held} (hh : h ∈ Row.listing type fields r) :
    ∃ f ∈ fields, ∃ keys, h.listed.1 = f.1.wire :: keys := by
  induction fields with
  | nil => contradiction
  | cons f rest ih =>
    obtain ⟨name, kind⟩ := f
    obtain ⟨v, r⟩ := r
    obtain hh | hh := List.mem_append.mp hh
    · obtain ⟨d, -, rfl⟩ := List.mem_map.mp hh
      exact ⟨(name, kind), List.mem_cons_self, d.listed.1, rfl⟩
    · obtain ⟨f, hf, hkeys⟩ := ih hh
      exact ⟨f, List.mem_cons_of_mem _ hf, hkeys⟩

mutual

theorem Kind.nodup_listing : (kind : Kind) → (v : kind.Value) → (depth : Nat) →
    kind.wellKeyed depth = true → ((kind.listing v).map (·.listed.1)).Nodup
  | .uint64, _, _, _ => List.nodup_singleton _
  | .text, _, _, _ => List.nodup_singleton _
  | .optionalText, none, _, _ => List.nodup_nil
  | .optionalText, some _, _, _ => List.nodup_singleton _
  | .record type fields, r, depth, hk => by
    obtain ⟨-, hkeys, heach⟩ := Kind.wellKeyed_record.mp hk
    refine List.nodup_cons.mpr ⟨?_, Row.nodup_listing type fields r (depth - 1) hkeys heach⟩
    intro hroot
    obtain ⟨h, hh, hnil⟩ := List.mem_map.mp hroot
    obtain ⟨f, -, keys, hcons⟩ := Row.exists_of_mem_listing hh
    rw [hcons] at hnil
    contradiction

theorem Row.nodup_listing (type : String) : (fields : List (FieldName × Kind)) →
    (r : Row fields) → (depth : Nat) → (fields.map (·.1.wire)).Nodup →
    Row.wellKeyed depth fields = true →
    ((Row.listing type fields r).map (·.listed.1)).Nodup
  | [], _, _, _, _ => List.nodup_nil
  | (name, kind) :: rest, (v, r), depth, hkeys, hk => by
    obtain ⟨hname, hkeys⟩ := List.nodup_cons.mp hkeys
    obtain ⟨hkind, hk⟩ := Bool.and_eq_true_iff.mp hk
    have hfirst := Kind.nodup_listing kind v depth hkind
    have hlater := Row.nodup_listing type rest r depth hkeys hk
    have hunder : ((kind.listing v).map (Held.under ⟨type, name⟩)).map (·.listed.1) =
        ((kind.listing v).map (·.listed.1)).map (List.cons name.wire) := by
      rw [List.map_map, List.map_map]
      rfl
    rw [Row.listing, List.map_append, hunder]
    refine List.nodup_append.mpr ⟨hfirst.map List.cons_injective, hlater, ?_⟩
    -- what is behind stands under the key of another field
    rintro _ hone _ hother rfl
    obtain ⟨keys, -, rfl⟩ := List.mem_map.mp hone
    obtain ⟨h, hh, hsame⟩ := List.mem_map.mp hother
    obtain ⟨f, hf, keys', hcons⟩ := Row.exists_of_mem_listing hh
    rw [hsame] at hcons
    exact hname (List.mem_map.mpr ⟨f, hf, (List.cons_eq_cons.mp hcons).1.symm⟩)

end

theorem RecordType.nodup_names (type : RecordType) :
    (type.fields.map (·.1.internal)).Nodup := by
  cases type <;> decide

theorem RecordType.wireName_of_mem {type : RecordType} {name : FieldName}
    (h : name ∈ type.fields.map (·.1)) : type.wireName name.internal = name.wire := by
  obtain ⟨f, hf, rfl⟩ := List.mem_map.mp h
  rw [wireName]
  cases hfind : type.fields.find? fun g => Text.ofString g.1.internal = f.1.internal with
  | none =>
    have hnot := List.find?_eq_none.mp hfind f hf
    simp at hnot
  | some g =>
    have hg := List.mem_of_find?_eq_some hfind
    have hname : g.1.internal = f.1.internal := by
      simpa [Text.ofString_inj] using List.find?_some hfind
    rw [List.inj_on_of_nodup_map type.nodup_names hg hf hname]

mutual

/-- Whether the fields of every record inside are fields of the record type that it is named
after. -/
def Kind.declared : Kind → Bool
  | .uint64 | .text | .optionalText => true
  | .record type fields =>
    (RecordType.all.any fun t =>
      t.name = type && fields.all fun f => f.1 ∈ t.fields.map (·.1)) && Row.declared fields

def Row.declared : List (FieldName × Kind) → Bool
  | [] => true
  | (_, kind) :: rest => kind.declared && Row.declared rest

end

theorem RecordType.declared_kind (type : RecordType) : type.kind.declared = true := by
  cases type <;> decide

theorem Kind.declared_record {name : String} {fields : List (FieldName × Kind)}
    (h : (Kind.record name fields).declared = true) :
    (∃ type : RecordType, type.name = name ∧ ∀ f ∈ fields, f.1 ∈ type.fields.map (·.1)) ∧
      Row.declared fields = true := by
  obtain ⟨htype, heach⟩ := Bool.and_eq_true_iff.mp h
  obtain ⟨type, -, htype⟩ := List.any_eq_true.mp htype
  simp only [Bool.and_eq_true, List.all_eq_true, decide_eq_true_eq] at htype
  exact ⟨⟨type, htype⟩, heach⟩

def FieldOf.Declared (field : FieldOf) : Prop :=
  ∃ type : RecordType, type.name = field.type ∧ field.name ∈ type.fields.map (·.1) ∧
    type.wireName field.name.internal = field.name.wire

mutual

theorem Kind.declared_trail : (kind : Kind) → (v : kind.Value) → kind.declared = true →
    ∀ h ∈ kind.listing v, ∀ field ∈ h.trail, field.Declared
  | .uint64, _, _ => by simp [Kind.listing]
  | .text, _, _ => by simp [Kind.listing]
  | .optionalText, none, _ => by simp [Kind.listing]
  | .optionalText, some _, _ => by simp [Kind.listing]
  | .record name fields, r, hd => by
    obtain ⟨⟨type, htype, hfields⟩, heach⟩ := Kind.declared_record hd
    exact List.forall_mem_cons.mpr ⟨nofun, Row.declared_trail htype fields r hfields heach⟩

theorem Row.declared_trail {type : RecordType} {name : String} (htype : type.name = name) :
    (fields : List (FieldName × Kind)) → (r : Row fields) →
    (∀ f ∈ fields, f.1 ∈ type.fields.map (·.1)) → Row.declared fields = true →
    ∀ h ∈ Row.listing name fields r, ∀ field ∈ h.trail, field.Declared
  | [], _, _, _ => nofun
  | (fieldName, kind) :: rest, (v, r), hfields, hd => by
    obtain ⟨hfirst, hothers⟩ := List.forall_mem_cons.mp hfields
    obtain ⟨hkind, hrest⟩ := Bool.and_eq_true_iff.mp hd
    have hinside := Kind.declared_trail kind v hkind
    have hbehind := Row.declared_trail htype rest r hothers hrest
    have hown : (FieldOf.mk name fieldName).Declared :=
      ⟨type, htype, hfirst, RecordType.wireName_of_mem hfirst⟩
    refine List.forall_mem_append.mpr ⟨?_, hbehind⟩
    intro h hh
    obtain ⟨d, hd, rfl⟩ := List.mem_map.mp hh
    exact List.forall_mem_cons.mpr ⟨hown, hinside d hd⟩

end

end IssueRelay
