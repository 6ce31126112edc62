import IssueRelay.Proofs.Outcome
import IssueRelay.Proofs.Record.Schema
import IssueRelay.Record.Reading

/-!
What JSON values say about records. An object denotes a record if what it has under the keys of the
record's fields are their values. A reader accepts just what denotes a record without surrogates,
and the tree of a record denotes that record and no other.
-/

set_option autoImplicit false

namespace IssueRelay

mutual

/-- Whether what is found under a field's key, if anything is, denotes a value of the field. -/
def Kind.Denotes : (kind : Kind) → Option Json → kind.Value → Prop
  | .uint64, found, n => found = some (.int n.toNat)
  | .text, found, s => found = some (.str s)
  | .optionalText, found, none => found = none ∨ found = some .null
  | .optionalText, found, some s => found = some (.str s)
  | .record _ fields, found, r =>
    ∃ members, found = some (.obj members) ∧ Row.Denotes fields members r

def Row.Denotes : (fields : List (FieldName × Kind)) → List (Text × Json) → Row fields → Prop
  | [], _, _ => True
  | (name, kind) :: rest, members, (v, r) =>
    kind.Denotes (Json.get? members name.wire) v ∧ Row.Denotes rest members r

end

theorem Json.int_toNat_inj {m n : UInt64} : Json.int m.toNat = .int n.toNat ↔ m = n := by
  rw [Json.int.injEq, Int.ofNat_inj, UInt64.toNat_inj]

theorem unsigned_toNat (n : UInt64) : unsigned (.int n.toNat) = .ok n := by
  have hrange : (0 : Int) ≤ n.toNat ∧ (n.toNat : Int) < UInt64.size := by
    have := n.toNat_lt
    simp only [UInt64.size]
    omega
  rw [unsigned, if_pos hrange, Int.toNat_natCast, UInt64.ofNat_toNat]

theorem unsigned_eq_ok {v : Json} {n : UInt64} : unsigned v = .ok n ↔ v = .int n.toNat := by
  refine ⟨fun h => ?_, fun h => h ▸ unsigned_toNat n⟩
  unfold unsigned at h
  split at h
  · rename_i i
    split at h
    · rename_i hrange
      cases h
      have hlt : i.toNat < UInt64.size := by omega
      rw [UInt64.toNat_ofNat_of_lt' hlt, Int.toNat_of_nonneg hrange.1]
    · contradiction
  · contradiction

theorem plainText_eq_ok {v : Json} {s : Text} :
    plainText v = .ok s ↔ v = .str s ∧ s.hasSurrogate = false := by
  cases v with
  | str t =>
    by_cases ht : t.hasSurrogate = true
    · simp only [plainText, ht, ↓reduceIte, Json.str.injEq, reduceCtorEq, false_iff]
      rintro ⟨rfl, hs⟩
      simp [ht] at hs
    · simp only [plainText, ht, Bool.false_eq_true, ↓reduceIte, Except.ok.injEq, Json.str.injEq]
      exact ⟨fun h => ⟨h, h ▸ Bool.eq_false_iff.mpr ht⟩, And.left⟩
  | _ => simp [plainText]

mutual

/-- A reader accepts just what denotes a value without surrogates. -/
theorem Kind.read_eq_ok {container : Text} {key : String} : (kind : Kind) →
    {found : Option Json} → {v : kind.Value} →
    (kind.read container key found = .ok v ↔
      kind.Denotes found v ∧ kind.hasSurrogate v = false)
  | .uint64, none, n => by simp [Kind.read, Kind.Denotes]
  | .uint64, some v, n => by
    simp [Kind.read, Kind.Denotes, Kind.hasSurrogate, Except.mapError_eq_ok, unsigned_eq_ok]
  | .text, none, s => by simp [Kind.read, Kind.Denotes]
  | .text, some v, s => by
    simp [Kind.read, Kind.Denotes, Kind.hasSurrogate, Except.mapError_eq_ok, plainText_eq_ok]
  | .optionalText, none, s => by
    cases s <;> simp [Kind.read, Kind.Denotes, Kind.hasSurrogate]
  | .optionalText, some v, s => by
    cases v with
    | str t =>
      cases s with
      | none =>
        cases ht : t.hasSurrogate <;> simp [Kind.read, Kind.Denotes, plainText, ht]
      | some s =>
        have hplain := plainText_eq_ok (v := .str t) (s := s)
        simp only [Kind.Denotes, Kind.hasSurrogate, Option.some.injEq, Option.any_some, ← hplain]
        cases ht : t.hasSurrogate <;> simp [Kind.read, plainText, ht]
    | _ => cases s <;> simp [Kind.read, Kind.Denotes, plainText, Kind.hasSurrogate]
  | .record _ fields, none, r => by simp [Kind.read, Kind.Denotes]
  | .record _ fields, some v, r => by
    cases v with
    | obj members => simp [Kind.read, Kind.Denotes, Kind.hasSurrogate, Row.read_eq_ok fields]
    | _ => simp [Kind.read, Kind.Denotes]

theorem Row.read_eq_ok {path : Text} : (fields : List (FieldName × Kind)) →
    {members : List (Text × Json)} → {r : Row fields} →
    (Row.read path fields members = .ok r ↔
      Row.Denotes fields members r ∧ Row.hasSurrogate fields r = false)
  | [], _, _ => by simp [Row.read, Row.Denotes, Row.hasSurrogate]
  | (name, kind) :: rest, members, (v, r) => by
    have hfirst : kind.read path name.wire (Json.get? members name.wire) = .ok v ↔
        kind.Denotes (Json.get? members name.wire) v ∧ kind.hasSurrogate v = false :=
      Kind.read_eq_ok kind
    have hrest : Row.read path rest members = .ok r ↔
        Row.Denotes rest members r ∧ Row.hasSurrogate rest r = false := Row.read_eq_ok rest
    rw [Row.read, Row.Denotes, Row.hasSurrogate, Bool.or_eq_false_iff, and_and_and_comm,
      ← hfirst, ← hrest]
    cases kind.read path name.wire (Json.get? members name.wire) with
    | error e => simp [bind, Except.bind]
    | ok v' =>
      cases Row.read path rest members <;> simp [bind, Except.bind]

end

theorem RecordType.ofJson_eq_ok {type : RecordType} {path : Text} {v : Json} {r : type.Row} :
    type.ofJson path v = .ok r ↔
      type.kind.Denotes (some v) r ∧ Row.hasSurrogate type.fields r = false := by
  cases v with
  | obj members => simp [RecordType.ofJson, RecordType.kind, Kind.Denotes, Row.read_eq_ok]
  | _ => simp [RecordType.ofJson, RecordType.kind, Kind.Denotes]

mutual

theorem Kind.Denotes.unique : {kind : Kind} → {found : Option Json} → {v w : kind.Value} →
    kind.Denotes found v → kind.Denotes found w → v = w
  | .uint64, _, _, _, hv, hw => Json.int_toNat_inj.mp (Option.some.inj (hv.symm.trans hw))
  | .text, _, _, _, hv, hw => Json.str.inj (Option.some.inj (hv.symm.trans hw))
  | .optionalText, found, v, w, hv, hw => by
    cases v <;> cases w <;> grind [Kind.Denotes]
  | .record _ fields, found, v, w, ⟨members, hfound, hv⟩, ⟨members', hfound', hw⟩ => by
    obtain rfl : members = members' := by simpa [hfound] using hfound'
    exact Row.Denotes.unique hv hw

theorem Row.Denotes.unique : {fields : List (FieldName × Kind)} → {members : List (Text × Json)} →
    {r r' : Row fields} → Row.Denotes fields members r → Row.Denotes fields members r' → r = r'
  | [], _, _, _, _, _ => rfl
  | (_, _) :: _, _, (_, _), (_, _), ⟨hv, hr⟩, ⟨hv', hr'⟩ =>
    Prod.ext (hv.unique hv') (hr.unique hr')

end

theorem get?_entries {excluded : List String} {name : FieldName} {kind : Kind}
    {rest : List (FieldName × Kind)} (hx : name.internal ∉ excluded)
    (hname : name.wire ∉ rest.map (·.1.wire)) (v : kind.Value) (r : Row rest) (key : String) :
    Json.get? (Wire.membersOf (Row.entries excluded ((name, kind) :: rest) (v, r))) key =
      if name.wire = key then (kind.toWire? excluded v).map Wire.toJson
      else Json.get? (Wire.membersOf (Row.entries excluded rest r)) key := by
  have hrest : name.wire ∉ (Row.entries excluded rest r).map (·.1) :=
    fun h => hname ((keys_entries excluded rest r).mem h)
  simp only [Row.entries, if_neg hx]
  cases hv : kind.toWire? excluded v with
  | none =>
    by_cases hkey : name.wire = key
    · rw [if_pos hkey]
      exact hkey ▸ Wire.get?_membersOf_eq_none.mpr hrest
    · rw [if_neg hkey]
  | some w => simp only [Wire.membersOf, Json.get?, Text.ofString_inj, Option.map_some]

theorem Row.denotes_congr {fields : List (FieldName × Kind)} {members members' : List (Text × Json)}
    {r : Row fields}
    (hsame : ∀ f ∈ fields, Json.get? members f.1.wire = Json.get? members' f.1.wire) :
    Row.Denotes fields members r ↔ Row.Denotes fields members' r := by
  induction fields with
  | nil => rfl
  | cons f rest ih =>
    have hrest := ih (r := r.2) fun g hg => hsame g (List.mem_cons_of_mem f hg)
    rw [Row.Denotes, Row.Denotes, hsame f List.mem_cons_self, hrest]

mutual

theorem Kind.denotes_toWire? : (kind : Kind) → (v : kind.Value) → (depth : Nat) →
    kind.wellKeyed depth = true → kind.Denotes ((kind.toWire? [] v).map Wire.toJson) v
  | .uint64, _, _, _ => rfl
  | .text, _, _, _ => rfl
  | .optionalText, none, _, _ => .inl rfl
  | .optionalText, some _, _, _ => rfl
  | .record _ fields, r, depth, hk => by
    obtain ⟨-, hkeys, heach⟩ := Kind.wellKeyed_record.mp hk
    exact ⟨_, rfl, Row.denotes_entries fields r (depth - 1) hkeys heach⟩

theorem Row.denotes_entries : (fields : List (FieldName × Kind)) → (r : Row fields) →
    (depth : Nat) → (fields.map (·.1.wire)).Nodup → Row.wellKeyed depth fields = true →
    Row.Denotes fields (Wire.membersOf (Row.entries [] fields r)) r
  | [], _, _, _, _ => trivial
  | (name, kind) :: rest, (v, r), depth, hkeys, hk => by
    obtain ⟨hname, hkeys⟩ := List.nodup_cons.mp hkeys
    obtain ⟨hkind, hk⟩ := Bool.and_eq_true_iff.mp hk
    have hget := get?_entries List.not_mem_nil hname v r
    have hrest := Row.denotes_entries rest r depth hkeys hk
    refine ⟨?_, (Row.denotes_congr fun f hf => ?_).mpr hrest⟩
    · rw [hget, if_pos rfl]
      exact Kind.denotes_toWire? kind v depth hkind
    -- the other fields find what they would find without the first one's entry
    · have hne : name.wire ≠ f.1.wire := fun h => hname (List.mem_map.mpr ⟨f, hf, h.symm⟩)
      rw [hget, if_neg hne]

end

theorem RecordType.denotes_toWire (type : RecordType) (r : type.Row) :
    type.kind.Denotes (some (type.toWire [] r).toJson) r :=
  Kind.denotes_toWire? type.kind r Record.maxDepth type.wellKeyed_kind

end IssueRelay
