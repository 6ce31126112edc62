import IssueRelay.Proofs.Record.Denotation

set_option autoImplicit false

namespace IssueRelay

def Kind.given? : (kind : Kind) → kind.Draft → Option Json
  | .uint64, v => some v
  | .text, s => some (.str s)
  | .optionalText, s => s.map .str
  | .record _ fields, r => some (.obj (Wire.membersOf (Row.entries [] fields r)))

def Draft.members : (fields : List (FieldName × Kind)) → Draft fields → List (Text × Json)
  | [], _ => []
  | (name, kind) :: rest, (v, draft) =>
    match kind.given? v with
    | none => Draft.members rest draft
    | some w => (Text.ofString name.wire, w) :: Draft.members rest draft

theorem Kind.denotes_given? {kind : Kind} {depth : Nat} (hk : kind.wellKeyed depth = true)
    {v : kind.Draft} {w : kind.Value} : kind.Denotes (kind.given? v) w ↔ kind.build v = .ok w := by
  cases kind with
  | uint64 => simp [Denotes, given?, build, unsigned_eq_ok]
  | text => simp [Denotes, given?, build]
  | optionalText => cases v <;> cases w <;> simp [Denotes, given?, build]
  | record type fields =>
    have hv : (Kind.record type fields).Denotes (given? (.record type fields) v) v :=
      Kind.denotes_toWire? (.record type fields) v depth hk
    constructor
    · intro h
      exact congrArg Except.ok (hv.unique h)
    · intro h
      exact Except.ok.inj h ▸ hv

theorem Draft.keys_members : (fields : List (FieldName × Kind)) → (draft : Draft fields) →
    ((Draft.members fields draft).map (·.1)).Sublist (fields.map (Text.ofString ·.1.wire))
  | [], _ => .slnil
  | (name, kind) :: rest, (v, draft) => by
    have hrest := keys_members rest draft
    rw [Draft.members]
    split
    · exact hrest.cons _
    · exact hrest.cons_cons _

theorem Draft.get?_members {name : FieldName} {kind : Kind} {rest : List (FieldName × Kind)}
    (hname : name.wire ∉ rest.map (·.1.wire)) (v : kind.Draft) (draft : Draft rest)
    (key : String) :
    Json.get? (Draft.members ((name, kind) :: rest) (v, draft)) key =
      if name.wire = key then kind.given? v else Json.get? (Draft.members rest draft) key := by
  have hrest : Text.ofString name.wire ∉ (Draft.members rest draft).map (·.1) := by
    intro h
    obtain ⟨f, hf, hwire⟩ := List.mem_map.mp ((keys_members rest draft).mem h)
    exact hname (List.mem_map.mpr ⟨f, hf, Text.ofString_inj.mp hwire⟩)
  rw [Draft.members]
  cases kind.given? v with
  | none =>
    by_cases hkey : name.wire = key
    · rw [if_pos hkey]
      exact hkey ▸ Json.get?_eq_none.mpr hrest
    · rw [if_neg hkey]
  | some w => simp only [Json.get?, Text.ofString_inj]

theorem Draft.build_cons_eq_ok {type : RecordType} {name : FieldName} {kind : Kind}
    {rest : List (FieldName × Kind)} {v : kind.Draft} {draft : Draft rest} {w : kind.Value}
    {r : Row rest} :
    Draft.build type ((name, kind) :: rest) (v, draft) = .ok (w, r) ↔
      kind.build v = .ok w ∧ Draft.build type rest draft = .ok r := by
  rw [Draft.build]
  simp [Except.bind_eq_ok, Except.mapError_eq_ok]

def Kind.draft : (kind : Kind) → kind.Value → kind.Draft
  | .uint64, n => .int n.toNat
  | .text, s => s
  | .optionalText, s => s
  | .record _ _, r => r

def Draft.ofRow : (fields : List (FieldName × Kind)) → Row fields → Draft fields
  | [], _ => ()
  | (_, kind) :: rest, (v, r) => (kind.draft v, Draft.ofRow rest r)

theorem Kind.build_draft {kind : Kind} (v : kind.Value) : kind.build (kind.draft v) = .ok v := by
  cases kind with
  | uint64 => exact unsigned_toNat v
  | text | optionalText | record => rfl

theorem Draft.build_ofRow (type : RecordType) : (fields : List (FieldName × Kind)) →
    (r : Row fields) → Draft.build type fields (Draft.ofRow fields r) = .ok r
  | [], _ => rfl
  | (_, _) :: rest, (v, r) =>
    build_cons_eq_ok.mpr ⟨Kind.build_draft v, build_ofRow type rest r⟩

/-- An object that holds values denotes the record built from them, if one is built. -/
theorem Draft.denotes_members (type : RecordType) : (fields : List (FieldName × Kind)) →
    (draft : Draft fields) → (r : Row fields) → (depth : Nat) →
    (fields.map (·.1.wire)).Nodup → Row.wellKeyed depth fields = true →
    (Row.Denotes fields (Draft.members fields draft) r ↔ Draft.build type fields draft = .ok r)
  | [], _, _, _, _, _ => by simp [Row.Denotes, Draft.build]
  | (name, kind) :: rest, (v, draft), (w, r), depth, hkeys, hk => by
    obtain ⟨hname, hkeys⟩ := List.nodup_cons.mp hkeys
    obtain ⟨hkind, hk⟩ := Bool.and_eq_true_iff.mp hk
    have hget := get?_members hname v draft
    have hsame : ∀ f ∈ rest, Json.get? (Draft.members ((name, kind) :: rest) (v, draft)) f.1.wire =
        Json.get? (Draft.members rest draft) f.1.wire := by
      intro f hf
      have hne : name.wire ≠ f.1.wire := fun h => hname (List.mem_map.mpr ⟨f, hf, h.symm⟩)
      rw [hget, if_neg hne]
    have hfirst := Kind.denotes_given? hkind (v := v) (w := w)
    have hrest := denotes_members type rest draft r depth hkeys hk
    rw [Row.Denotes, hget, if_pos rfl, Row.denotes_congr hsame, hfirst, hrest, build_cons_eq_ok]

/-- A record is read from an object just if it is built from the values there and has no
surrogates. -/
theorem RecordType.ofJson_eq_build (type : RecordType) (draft : Draft type.fields) (path : Text)
    (r : type.Row) :
    type.ofJson path (.obj (Draft.members type.fields draft)) = .ok r ↔
      type.build draft = .ok r ∧ Row.hasSurrogate type.fields r = false := by
  obtain ⟨-, hkeys, heach⟩ := Kind.wellKeyed_record.mp type.wellKeyed_kind
  have hbuild := Draft.denotes_members type type.fields draft r _ hkeys heach
  have hobject : type.kind.Denotes (some (.obj (Draft.members type.fields draft))) r ↔
      Row.Denotes type.fields (Draft.members type.fields draft) r := by
    simp [RecordType.kind, Kind.Denotes]
  rw [ofJson_eq_ok, hobject, hbuild, build]

/-- A text with a surrogate is built into a record, and is not read. -/
theorem RecordType.not_ofJson_eq_build :
    ¬∀ (type : RecordType) (draft : Draft type.fields) (path : Text) (r : type.Row),
      type.ofJson path (.obj (Draft.members type.fields draft)) = .ok r ↔
        type.build draft = .ok r := by
  intro h
  have hread := (h .jiraIssueLight ([.surrogate 0], [], ()) [] ([.surrogate 0], [], ())).mpr rfl
  contradiction

end IssueRelay
