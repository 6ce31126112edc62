import IssueRelay.Proofs.Record.Denotation

set_option autoImplicit false

namespace IssueRelay

def Kind.shape : Kind → Shape
  | .uint64 => .integer
  | .text | .optionalText => .string
  | .record _ _ => .object

/-- What stands under a field's key in two objects is the same to a reader of that field. Members
that no field asks for do not matter, nor does what is in a value of a shape that is not wanted. -/
inductive Kind.Agrees : Kind → Option Json → Option Json → Prop
  | same (kind : Kind) (v : Option Json) : Agrees kind v v
  | absent : Agrees .optionalText none (some .null)
  | null : Agrees .optionalText (some .null) none
  | unfit {kind : Kind} {v v' : Json} (hkind : v.shape ≠ kind.shape) (h : v.shape = v'.shape) :
      Agrees kind (some v) (some v')
  | record {type : String} {fields : List (FieldName × Kind)}
      {members members' : List (Text × Json)}
      (each : ∀ f ∈ fields,
        Agrees f.2 (Json.get? members f.1.wire) (Json.get? members' f.1.wire)) :
      Agrees (.record type fields) (some (.obj members)) (some (.obj members'))

theorem Row.read_eq_of_each (path : Text) {fields : List (FieldName × Kind)}
    {members members' : List (Text × Json)}
    (h : ∀ f ∈ fields, Kind.read path f.1.wire f.2 (Json.get? members f.1.wire) =
      Kind.read path f.1.wire f.2 (Json.get? members' f.1.wire)) :
    Row.read path fields members = Row.read path fields members' := by
  induction fields with
  | nil => rfl
  | cons f rest ih =>
    have hfirst := h f List.mem_cons_self
    have hrest := ih fun g hg => h g (List.mem_cons_of_mem f hg)
    rw [Row.read, Row.read, hfirst, hrest]

theorem Kind.read_of_shape (kind : Kind) (container : Text) (key : String) :
    ∃ f : Shape → Except RecordError kind.Value,
      ∀ v : Json, v.shape ≠ kind.shape → kind.read container key (some v) = f v.shape := by
  cases kind with
  | uint64 =>
    refine ⟨fun s => .error (.mismatch (childPath container key) (.notUnsigned s)), fun v hv => ?_⟩
    cases v with
    | int => contradiction
    | null | bool | real | str | arr | obj => rfl
  | text =>
    refine ⟨fun s => .error (.mismatch (childPath container key) (.notString s)), fun v hv => ?_⟩
    cases v with
    | str => contradiction
    | null | bool | int | real | arr | obj => rfl
  | optionalText =>
    refine ⟨fun s => if s = .null then .ok none
      else .error (.mismatch (childPath container key) (.notString s)), fun v hv => ?_⟩
    cases v with
    | str => contradiction
    | null | bool | int | real | arr | obj => rfl
  | record type fields =>
    refine ⟨fun s => .error (.mismatch (childPath container key) (.notObject s)), fun v hv => ?_⟩
    cases v with
    | obj => contradiction
    | null | bool | int | real | str | arr => rfl

theorem Kind.read_eq_of_agrees {kind : Kind} {v v' : Option Json} (h : kind.Agrees v v')
    (container : Text) (key : String) :
    kind.read container key v = kind.read container key v' := by
  induction h generalizing container key with
  | same kind v => rfl
  | absent => rfl
  | null => rfl
  | @unfit kind v v' hkind h =>
    obtain ⟨f, hf⟩ := kind.read_of_shape container key
    rw [hf v hkind, hf v' (h ▸ hkind), h]
  | record each ih =>
    rw [Kind.read, Kind.read]
    exact Row.read_eq_of_each _ fun f hf => ih f hf _ _

theorem RecordType.ofJson_of_shape {type : RecordType} {v : Json} (h : v.shape ≠ .object)
    (path : Text) : type.ofJson path v = .error (.mismatch path (.notObject v.shape)) := by
  cases v with
  | obj => contradiction
  | null | bool | int | real | str | arr => rfl

theorem RecordType.ofJson_eq_of_agrees {type : RecordType} {v v' : Json}
    (h : type.kind.Agrees (some v) (some v')) (path : Text) :
    type.ofJson path v = type.ofJson path v' := by
  cases h with
  | same => rfl
  | unfit hkind h => rw [ofJson_of_shape hkind, ofJson_of_shape (h ▸ hkind), h]
  | record each =>
    exact Row.read_eq_of_each path fun f hf => Kind.read_eq_of_agrees (each f hf) path f.1.wire

/-- A tree says the same to every reader with its keys in order. -/
theorem Wire.WellFormed.agrees_sorted {depth : Nat} {w : Wire} (h : w.WellFormed depth)
    (kind : Kind) : kind.Agrees (some w.toJson) (some w.sorted.toJson) := by
  induction h generalizing kind with
  | number n => exact .same _ _
  | text hs => exact .same _ _
  | @object depth entries keys each ih =>
    rw [Wire.sorted_object, Wire.toJson, Wire.toJson]
    cases kind with
    | uint64 => exact .unfit nofun rfl
    | text => exact .unfit nofun rfl
    | optionalText => exact .unfit nofun rfl
    | record type fields =>
      refine .record fun f _ => ?_
      have hperm := Wire.keys_sortedEntries entries
      by_cases hkey : f.1.wire ∈ entries.map (·.1)
      · obtain ⟨⟨_, v⟩, hmem, rfl⟩ := List.mem_map.mp hkey
        have hsorted : (f.1.wire, v.sorted) ∈ Wire.sortedEntries entries :=
          Wire.mem_sortedEntries.mpr ⟨v, hmem, rfl⟩
        rw [Wire.get?_membersOf_of_mem keys hmem,
          Wire.get?_membersOf_of_mem (hperm.symm.nodup keys) hsorted]
        exact ih (f.1.wire, v) hmem f.2
      · have hsorted : f.1.wire ∉ (Wire.sortedEntries entries).map (·.1) :=
          fun h => hkey (hperm.mem_iff.mp h)
        rw [Wire.get?_membersOf_eq_none.mpr hkey, Wire.get?_membersOf_eq_none.mpr hsorted]
        exact .same _ _

theorem RecordType.ofJson_toWire {type : RecordType} {r : type.Row}
    (h : Row.hasSurrogate type.fields r = false) (path : Text) :
    type.ofJson path (type.toWire [] r).toJson = .ok r :=
  ofJson_eq_ok.mpr ⟨type.denotes_toWire r, h⟩

theorem RecordType.hasSurrogate_of_ofJson {type : RecordType} {path : Text} {v : Json}
    {r : type.Row} (h : type.ofJson path v = .ok r) : Row.hasSurrogate type.fields r = false :=
  (ofJson_eq_ok.mp h).2

end IssueRelay
