import IssueRelay.Proofs.Json.Surroundings
import IssueRelay.Proofs.Record.Offence
import IssueRelay.Proofs.Record.Reading

/-!
Places of values in records. A place leads through the fields of a record to a value, and its keys
lead through the objects of a JSON value to what the value is read from. Where only that differs
from what gives a record, only it is read anew: the error is its own, or the record has the new
value at the place and is otherwise the same.
-/

set_option autoImplicit false

namespace IssueRelay

/-- A field of a row, with its name and its kind. -/
inductive Slot : List Field → FieldName → Kind → Type
  | first {name : FieldName} {kind : Kind} {rest : List Field} :
      Slot ((name, kind) :: rest) name kind
  | later {f : Field} {rest : List Field} {name : FieldName} {kind : Kind}
      (slot : Slot rest name kind) : Slot (f :: rest) name kind

namespace Slot

variable {fields : List Field} {name : FieldName} {kind : Kind}

def get : {fields : List Field} → Slot fields name kind → Row fields → kind.Value
  | _, first, (v, _) => v
  | _, later slot, (_, r) => slot.get r

def set : {fields : List Field} → Slot fields name kind → Row fields → kind.Value → Row fields
  | _, first, (_, r), v => (v, r)
  | _, later slot, (u, r), v => (u, slot.set r v)

theorem get_set : {fields : List Field} → (slot : Slot fields name kind) → (r : Row fields) →
    (v : kind.Value) → slot.get (slot.set r v) = v
  | _, first, (_, _), _ => rfl
  | _, later slot, (_, r), v => slot.get_set r v

theorem set_get : {fields : List Field} → (slot : Slot fields name kind) → (r : Row fields) →
    slot.set r (slot.get r) = r
  | _, first, (_, _) => rfl
  | _, later slot, (u, r) => congrArg (Prod.mk u) (slot.set_get r)

theorem mem : {fields : List Field} → Slot fields name kind → (name, kind) ∈ fields
  | _, first => List.mem_cons_self
  | _, later slot => List.mem_cons_of_mem _ slot.mem

end Slot

/-- A value in a record, however deep inside. -/
inductive Kind.Place : Kind → Kind → Type
  | here {leaf : Kind} : Place leaf leaf
  | inside {type : String} {fields : List Field} {name : FieldName} {kind leaf : Kind}
      (slot : Slot fields name kind) (place : Place kind leaf) : Place (.record type fields) leaf

namespace Kind.Place

def keys : {kind leaf : Kind} → kind.Place leaf → List String
  | _, _, here => []
  | _, _, @inside _ _ name _ _ _ place => name.wire :: place.keys

def names : {kind leaf : Kind} → kind.Place leaf → List String
  | _, _, here => []
  | _, _, @inside _ _ name _ _ _ place => name.internal :: place.names

def get : {kind leaf : Kind} → kind.Place leaf → kind.Value → leaf.Value
  | _, _, here, v => v
  | _, _, inside slot place, r => place.get (slot.get r)

def set : {kind leaf : Kind} → kind.Place leaf → kind.Value → leaf.Value → kind.Value
  | _, _, here, _, v => v
  | _, _, inside slot place, r, v => slot.set r (place.set (slot.get r) v)

theorem get_set {kind leaf : Kind} (place : kind.Place leaf) (r : kind.Value) (v : leaf.Value) :
    place.get (place.set r v) = v := by
  induction place with
  | here => rfl
  | inside slot place ih => rw [set, get, slot.get_set, ih]

theorem set_get {kind leaf : Kind} (place : kind.Place leaf) (r : kind.Value) :
    place.set r (place.get r) = r := by
  induction place with
  | here => rfl
  | inside slot place ih => rw [set, get, ih, slot.set_get]

end Kind.Place

def Kind.readAt (path : Text) : (kind : Kind) → Json → Except RecordError kind.Value
  | .uint64, v => (unsigned v).mapError (.mismatch path)
  | .text, v => (plainText v).mapError (.mismatch path)
  | .optionalText, .null => .ok none
  | .optionalText, v => ((plainText v).map some).mapError (.mismatch path)
  | .record _ fields, .obj members => Row.read path fields members
  | .record _ _, v => .error (.mismatch path (.notObject v.shape))

theorem Kind.read_some (container : Text) (key : String) (kind : Kind) (v : Json) :
    kind.read container key (some v) = kind.readAt (childPath container key) v := by
  cases kind with
  | uint64 | text => rfl
  | optionalText =>
    cases v with
    | str s => cases hs : s.hasSurrogate <;> simp [Kind.read, readAt, plainText, hs] <;> rfl
    | null | bool | int | real | arr | obj => rfl
  | record type fields => cases v <;> rfl

theorem RecordType.ofJson_eq_readAt (type : RecordType) (path : Text) (v : Json) :
    type.ofJson path v = type.kind.readAt path v := by cases v <;> rfl

theorem Slot.read_of_alters {fields : List Field} {name : FieldName} {kind : Kind}
    (slot : Slot fields name kind) (hkeys : (fields.map (·.1.wire)).Nodup) {path : Text}
    {members₀ members : List (Text × Json)}
    (others : ∀ k, k ≠ Text.ofString name.wire → Json.get? members₀ k = Json.get? members k)
    {r₀ : Row fields} (h₀ : Row.read path fields members₀ = .ok r₀) :
    kind.read path name.wire (Json.get? members₀ name.wire) = .ok (slot.get r₀) ∧
      Row.read path fields members =
        (kind.read path name.wire (Json.get? members name.wire)).map (slot.set r₀) := by
  induction slot with
  | @first name kind rest =>
    obtain ⟨v₀, r₀⟩ := r₀
    obtain ⟨hname, -⟩ := List.nodup_cons.mp hkeys
    obtain ⟨_, hv₀, h₀⟩ := Except.bind_eq_ok.mp h₀
    obtain ⟨_, hr₀, hpair⟩ := Except.bind_eq_ok.mp h₀
    cases hpair
    have hrest : Row.read path rest members₀ = Row.read path rest members := by
      refine Row.read_eq_of_each path fun f hf => ?_
      have hne : f.1.wire ≠ name.wire := fun h => hname (List.mem_map.mpr ⟨f, hf, h⟩)
      rw [others _ fun h => hne (Text.ofString_injective h)]
    refine ⟨hv₀, ?_⟩
    rw [Row.read, ← hrest, hr₀]
    cases kind.read path name.wire (Json.get? members name.wire) <;> rfl
  | @later f rest name kind slot ih =>
    obtain ⟨u₀, r₀⟩ := r₀
    obtain ⟨hname, hkeys⟩ := List.nodup_cons.mp hkeys
    obtain ⟨_, hu₀, h₀⟩ := Except.bind_eq_ok.mp h₀
    obtain ⟨_, hr₀, hpair⟩ := Except.bind_eq_ok.mp h₀
    cases hpair
    have hne : f.1.wire ≠ name.wire := fun h => hname (List.mem_map.mpr ⟨_, slot.mem, h.symm⟩)
    rw [others _ fun h => hne (Text.ofString_injective h)] at hu₀
    obtain ⟨hv₀, hrest⟩ := ih hkeys others hr₀
    refine ⟨hv₀, ?_⟩
    rw [Row.read, hu₀, hrest]
    cases kind.read path name.wire (Json.get? members name.wire) <;> rfl

/-- Where every field has a key of its own and no key is empty, however deep inside. -/
structure Kind.Keyed (kind : Kind) : Prop where
  named : kind.named = true
  wellKeyed : ∃ depth, kind.wellKeyed depth = true

theorem RecordType.keyed (type : RecordType) : type.kind.Keyed where
  named := type.named_fields
  wellKeyed := ⟨_, type.wellKeyed_kind⟩

theorem Row.named_of_mem {fields : List Field} (h : Row.named fields = true) {f : Field}
    (hf : f ∈ fields) : f.1.wire ≠ "" ∧ f.2.named = true := by
  induction fields with
  | nil => contradiction
  | cons g rest ih =>
    simp only [Row.named, Bool.and_eq_true, decide_eq_true_eq] at h
    obtain rfl | hf := List.mem_cons.mp hf
    · exact h.1
    · exact ih h.2 hf

theorem Row.wellKeyed_of_mem {fields : List Field} {depth : Nat}
    (h : Row.wellKeyed depth fields = true) {f : Field} (hf : f ∈ fields) :
    f.2.wellKeyed depth = true := by
  induction fields with
  | nil => contradiction
  | cons g rest ih =>
    obtain ⟨hg, h⟩ := Bool.and_eq_true_iff.mp h
    obtain rfl | hf := List.mem_cons.mp hf
    · exact hg
    · exact ih h hf

namespace Kind.Keyed

variable {type : String} {fields : List Field}

theorem nodup (h : (Kind.record type fields).Keyed) : (fields.map (·.1.wire)).Nodup := by
  obtain ⟨depth, hk⟩ := h.wellKeyed
  exact (Kind.wellKeyed_record.mp hk).2.1

theorem key_ne (h : (Kind.record type fields).Keyed) {f : Field} (hf : f ∈ fields) :
    f.1.wire ≠ "" := (Row.named_of_mem h.named hf).1

theorem field (h : (Kind.record type fields).Keyed) {f : Field} (hf : f ∈ fields) :
    f.2.Keyed := by
  obtain ⟨depth, hk⟩ := h.wellKeyed
  obtain ⟨-, -, heach⟩ := Kind.wellKeyed_record.mp hk
  exact ⟨(Row.named_of_mem h.named hf).2, _, Row.wellKeyed_of_mem heach hf⟩

end Kind.Keyed

/-- What is read at a place decides what is read of a value that differs there only. -/
theorem Kind.Place.readAt_of_alters {kind leaf : Kind} (place : kind.Place leaf) (hk : kind.Keyed)
    {w₀ w v₀ v : Json} (h : Json.Alters w₀ w place.keys v₀ v) {path : Text} {r₀ : kind.Value}
    (h₀ : kind.readAt path v₀ = .ok r₀) :
    leaf.readAt (dotted path place.keys) w₀ = .ok (place.get r₀) ∧
      kind.readAt path v = (leaf.readAt (dotted path place.keys) w).map (place.set r₀) := by
  induction place generalizing path v₀ v with
  | @here leaf =>
    cases h
    rw [keys, dotted_nil]
    refine ⟨h₀, ?_⟩
    cases leaf.readAt path w <;> rfl
  | @inside type fields name kind leaf slot place ih =>
    cases h with
    | @under key keys members₀ members u₀ u h hu₀ hu others =>
      obtain ⟨hget, hread⟩ := slot.read_of_alters hk.nodup others h₀
      rw [hu₀, Kind.read_some] at hget
      obtain ⟨hleaf, hplace⟩ := ih (hk.field slot.mem) h hget
      have hpath : dotted (childPath path name.wire) place.keys =
          dotted path (name.wire :: place.keys) :=
        dotted_childPath (hk.key_ne slot.mem) path place.keys
      rw [hpath] at hleaf hplace
      rw [keys]
      refine ⟨hleaf, ?_⟩
      change Row.read path fields members = _
      rw [hread, hu, Kind.read_some, hplace]
      cases leaf.readAt (dotted path (name.wire :: place.keys)) w <;> rfl

theorem Kind.Place.dotted_keys_ne {type : String} {fields : List Field} {leaf : Kind}
    (place : (Kind.record type fields).Place leaf) (hk : (Kind.record type fields).Keyed)
    (hleaf : leaf.shape ≠ .object) : dotted [] place.keys ≠ [] := by
  cases place with
  | here => exact absurd rfl hleaf
  | @inside _ _ name kind _ slot place =>
    have hkey : Text.ofString name.wire ≠ [] :=
      fun h => hk.key_ne slot.mem (Text.ofString_inj (t := "") |>.mp h)
    intro h
    cases hkeys : place.keys <;> simp [keys, dotted, hkey, hkeys, List.intercalate] at h

end IssueRelay
