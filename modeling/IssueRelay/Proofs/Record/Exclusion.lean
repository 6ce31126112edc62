import IssueRelay.Proofs.Record.Offence
import IssueRelay.Proofs.Record.RoundTrip

/-!
Records with fields left out. Fields are left out by their internal names and missed by their keys:
a walk over the fields, into each object that is not left out, meets what a reader will miss first.
Where it meets no required field that is left out, the record comes back without the optional texts
that are; and a name that it does not meet changes nothing.
-/

set_option autoImplicit false

namespace IssueRelay

/-- A field that a walk comes to, and the keys that lead to the object it is in. -/
structure Visit where
  trail : List String
  name : FieldName
  required : Bool

namespace Visit

def under (key : String) (v : Visit) : Visit := { v with trail := key :: v.trail }

def lacks (excluded : List String) (v : Visit) : Bool :=
  v.required && decide (v.name.internal ∈ excluded)

def offence (v : Visit) : Offence := .missing v.trail v.name.wire

end Visit

mutual

/-- A field, and then what is in its object if the field is not left out. -/
def Kind.walk (excluded : List String) (name : FieldName) : Kind → List Visit
  | .uint64 | .text => [⟨[], name, true⟩]
  | .optionalText => [⟨[], name, false⟩]
  | .record _ fields =>
    ⟨[], name, true⟩ ::
      if name.internal ∈ excluded then []
      else (Row.walk excluded fields).map (Visit.under name.wire)

def Row.walk (excluded : List String) : List (FieldName × Kind) → List Visit
  | [] => []
  | (name, kind) :: rest => kind.walk excluded name ++ Row.walk excluded rest

end

mutual

/-- A value as it comes back: without the optional texts that are left out. -/
def Kind.pruned (excluded : List String) (name : FieldName) :
    (kind : Kind) → kind.Value → kind.Value
  | .uint64, n => n
  | .text, s => s
  | .optionalText, s => if name.internal ∈ excluded then none else s
  | .record _ fields, r => Row.pruned excluded fields r

def Row.pruned (excluded : List String) : (fields : List (FieldName × Kind)) → Row fields →
    Row fields
  | [], _ => ()
  | (name, kind) :: rest, (v, r) => (kind.pruned excluded name v, Row.pruned excluded rest r)

end

theorem Kind.exists_mem_walk (excluded : List String) (name : FieldName) (kind : Kind) :
    ∃ required, ⟨[], name, required⟩ ∈ kind.walk excluded name := by
  cases kind with
  | uint64 | text | record => exact ⟨true, by simp [walk]⟩
  | optionalText => exact ⟨false, by simp [walk]⟩

def Kind.left? (excluded : List String) (name : FieldName) (kind : Kind) (v : kind.Value) :
    Option Json :=
  if name.internal ∈ excluded then none else (kind.toWire? excluded v).map Wire.toJson

def unlessMissed {α : Type} (path : Text) (a : α) : Option Visit → Except RecordError α
  | none => .ok a
  | some visit => .error (visit.offence.error path)

theorem get?_entries_left? {excluded : List String} {name : FieldName} {kind : Kind}
    {rest : List (FieldName × Kind)} (hname : name.wire ∉ rest.map (·.1.wire)) (v : kind.Value)
    (r : Row rest) (key : String) :
    Json.get? (Wire.membersOf (Row.entries excluded ((name, kind) :: rest) (v, r))) key =
      if name.wire = key then kind.left? excluded name v
      else Json.get? (Wire.membersOf (Row.entries excluded rest r)) key := by
  by_cases hx : name.internal ∈ excluded
  · have hrest : name.wire ∉ (Row.entries excluded rest r).map (·.1) :=
      fun h => hname ((keys_entries excluded rest r).mem h)
    rw [Row.entries, if_pos hx, Kind.left?, if_pos hx]
    split
    · rename_i hkey
      exact hkey ▸ Wire.get?_membersOf_eq_none.mpr hrest
    · rfl
  · rw [get?_entries hx hname, Kind.left?, if_neg hx]

theorem unlessMissed_under {α : Type} {key : String} (hkey : key ≠ "") (path : Text) (a : α)
    (found : Option Visit) :
    unlessMissed path a (found.map (Visit.under key)) =
      unlessMissed (childPath path key) a found := by
  cases found with
  | none => rfl
  | some visit =>
    exact congrArg Except.error (Offence.error_childPath hkey path visit.offence).symm

theorem Kind.read_left?_of_mem {kind : Kind} (hkind : kind ≠ .optionalText)
    {excluded : List String} {name : FieldName} (hx : name.internal ∈ excluded) (path : Text)
    (v : kind.Value) :
    kind.read path name.wire (kind.left? excluded name v) =
      unlessMissed path (kind.pruned excluded name v)
        ((kind.walk excluded name).find? (·.lacks excluded)) := by
  have hfirst : (kind.walk excluded name).find? (·.lacks excluded) = some ⟨[], name, true⟩ := by
    cases kind with
    | optionalText => contradiction
    | uint64 | text | record => simp [Kind.walk, Visit.lacks, hx]
  rw [hfirst, Kind.left?, if_pos hx, Kind.read_none hkind, unlessMissed, Visit.offence,
    Offence.error, dotted_nil]

theorem Kind.read_left?_of_denotes {kind : Kind} {excluded : List String} {name : FieldName}
    (hwalk : (kind.walk excluded name).find? (·.lacks excluded) = none) {v : kind.Value}
    (hv : kind.Denotes (kind.left? excluded name v) (kind.pruned excluded name v))
    (hs : kind.hasSurrogate (kind.pruned excluded name v) = false) (path : Text) :
    kind.read path name.wire (kind.left? excluded name v) =
      unlessMissed path (kind.pruned excluded name v)
        ((kind.walk excluded name).find? (·.lacks excluded)) := by
  rw [hwalk]
  exact (Kind.read_eq_ok kind).mpr ⟨hv, hs⟩

theorem Kind.optionalText_left? (excluded : List String) (name : FieldName) {s : Option Text}
    (hs : s.any Text.hasSurrogate = false) :
    Kind.optionalText.Denotes (Kind.optionalText.left? excluded name s)
        (Kind.optionalText.pruned excluded name s) ∧
      Kind.optionalText.hasSurrogate (Kind.optionalText.pruned excluded name s) = false := by
  rw [Kind.left?, Kind.pruned]
  split
  · exact ⟨.inl rfl, rfl⟩
  · cases s with
    | none => exact ⟨.inl rfl, rfl⟩
    | some s => exact ⟨rfl, hs⟩

theorem Kind.left?_of_not_mem {excluded : List String} {name : FieldName}
    (hx : name.internal ∉ excluded) {kind : Kind} (v : kind.Value) :
    kind.left? excluded name v = (kind.toWire? excluded v).map Wire.toJson := if_neg hx

theorem Kind.read_left?_leaf (kind : Kind) (hkind : kind ≠ .optionalText) {excluded : List String}
    {name : FieldName} (hwalk : kind.walk excluded name = [⟨[], name, true⟩]) (v : kind.Value)
    (hv : kind.Denotes ((kind.toWire? excluded v).map Wire.toJson) (kind.pruned excluded name v))
    (hs : kind.hasSurrogate (kind.pruned excluded name v) = false) (path : Text) :
    kind.read path name.wire (kind.left? excluded name v) =
      unlessMissed path (kind.pruned excluded name v)
        ((kind.walk excluded name).find? (·.lacks excluded)) := by
  by_cases hx : name.internal ∈ excluded
  · exact Kind.read_left?_of_mem hkind hx path v
  · rw [← Kind.left?_of_not_mem hx] at hv
    exact Kind.read_left?_of_denotes (by simp [hwalk, Visit.lacks, hx]) hv hs path

theorem Kind.find?_walk_record {excluded : List String} {name : FieldName}
    (hx : name.internal ∉ excluded) (type : String) (fields : List (FieldName × Kind)) :
    ((Kind.record type fields).walk excluded name).find? (·.lacks excluded) =
      ((Row.walk excluded fields).find? (·.lacks excluded)).map (Visit.under name.wire) := by
  have hfirst : Visit.lacks excluded ⟨[], name, true⟩ = false := by simp [Visit.lacks, hx]
  rw [Kind.walk, if_neg hx, List.find?_cons_of_neg (by simp [hfirst]), List.find?_map]
  rfl

mutual

/-- A reader misses the required field that the walk meets first, or reads the value as it comes
back. -/
theorem Kind.read_left? (excluded : List String) {name : FieldName} (hname : name.wire ≠ "") :
    (kind : Kind) → (v : kind.Value) → (depth : Nat) → kind.wellKeyed depth = true →
    kind.named = true → kind.hasSurrogate v = false → (path : Text) →
    kind.read path name.wire (kind.left? excluded name v) =
      unlessMissed path (kind.pruned excluded name v)
        ((kind.walk excluded name).find? (·.lacks excluded))
  | .uint64, n, _, _, _, _, path => Kind.read_left?_leaf .uint64 (by simp) rfl n rfl rfl path
  | .text, s, _, _, _, hs, path => Kind.read_left?_leaf .text (by simp) rfl s rfl hs path
  | .optionalText, s, _, _, _, hs, path => by
    obtain ⟨hdenotes, hpruned⟩ := Kind.optionalText_left? excluded name hs
    exact Kind.read_left?_of_denotes (by simp [Kind.walk, Visit.lacks]) hdenotes hpruned path
  | .record type fields, r, depth, hk, hn, hr, path => by
    by_cases hx : name.internal ∈ excluded
    · exact Kind.read_left?_of_mem (by simp) hx path r
    · obtain ⟨-, hkeys, heach⟩ := Kind.wellKeyed_record.mp hk
      have hinside := Row.read_entries excluded fields r (depth - 1) hkeys heach hn hr
        (childPath path name.wire)
      rw [Kind.find?_walk_record hx, unlessMissed_under hname, Kind.left?_of_not_mem hx]
      exact hinside

theorem Row.read_entries (excluded : List String) : (fields : List (FieldName × Kind)) →
    (r : Row fields) → (depth : Nat) → (fields.map (·.1.wire)).Nodup →
    Row.wellKeyed depth fields = true → Row.named fields = true →
    Row.hasSurrogate fields r = false → (path : Text) →
    Row.read path fields (Wire.membersOf (Row.entries excluded fields r)) =
      unlessMissed path (Row.pruned excluded fields r)
        ((Row.walk excluded fields).find? (·.lacks excluded))
  | [], _, _, _, _, _, _, _ => rfl
  | (name, kind) :: rest, (v, r), depth, hkeys, hk, hn, hr, path => by
    obtain ⟨hname, hkeys⟩ := List.nodup_cons.mp hkeys
    obtain ⟨hkind, hk⟩ := Bool.and_eq_true_iff.mp hk
    obtain ⟨hv, hr⟩ := Bool.or_eq_false_iff.mp hr
    simp only [Row.named, Bool.and_eq_true, decide_eq_true_eq] at hn
    have hget := @get?_entries_left? excluded _ _ _ hname v r
    have hfirst := Kind.read_left? excluded hn.1.1 kind v depth hkind hn.1.2 hv path
    have hlater := Row.read_entries excluded rest r depth hkeys hk hn.2 hr path
    -- the other fields find what they would find without the first one's entry
    have hsame : Row.read path rest
          (Wire.membersOf (Row.entries excluded ((name, kind) :: rest) (v, r))) =
        Row.read path rest (Wire.membersOf (Row.entries excluded rest r)) := by
      refine Row.read_eq_of_each path fun f hf => ?_
      have hne : name.wire ≠ f.1.wire := fun h => hname (List.mem_map.mpr ⟨f, hf, h.symm⟩)
      rw [hget, if_neg hne]
    rw [Row.read, hsame, hlater, hget, if_pos rfl, hfirst, Row.walk, List.find?_append]
    cases (kind.walk excluded name).find? (·.lacks excluded) with
    | some visit => rfl
    | none => cases (Row.walk excluded rest).find? (·.lacks excluded) <;> rfl

end

mutual

theorem Kind.toWire?_congr {excluded excluded' : List String} (name : FieldName) :
    (kind : Kind) → (v : kind.Value) → name.internal ∉ excluded →
    (∀ visit ∈ kind.walk excluded name,
      (visit.name.internal ∈ excluded' ↔ visit.name.internal ∈ excluded)) →
    kind.toWire? excluded' v = kind.toWire? excluded v
  | .uint64, _, _, _ => rfl
  | .text, _, _, _ => rfl
  | .optionalText, _, _, _ => rfl
  | .record type fields, r, hx, h => by
    have hinside : ∀ visit ∈ Row.walk excluded fields,
        (visit.name.internal ∈ excluded' ↔ visit.name.internal ∈ excluded) := by
      intro visit hvisit
      refine h (visit.under name.wire) ?_
      rw [Kind.walk, if_neg hx]
      exact List.mem_cons_of_mem _ (List.mem_map_of_mem hvisit)
    rw [Kind.toWire?, Kind.toWire?, Row.entries_congr fields r hinside]

theorem Row.entries_congr {excluded excluded' : List String} : (fields : List (FieldName × Kind)) →
    (r : Row fields) →
    (∀ visit ∈ Row.walk excluded fields,
      (visit.name.internal ∈ excluded' ↔ visit.name.internal ∈ excluded)) →
    Row.entries excluded' fields r = Row.entries excluded fields r
  | [], _, _ => rfl
  | (name, kind) :: rest, (v, r), h => by
    have hself : name.internal ∈ excluded' ↔ name.internal ∈ excluded := by
      obtain ⟨required, hvisit⟩ := kind.exists_mem_walk excluded name
      exact h _ (List.mem_append_left _ hvisit)
    have hrest := Row.entries_congr rest r fun visit hvisit =>
      h visit (List.mem_append_right _ hvisit)
    by_cases hx : name.internal ∈ excluded
    · rw [Row.entries, Row.entries, if_pos hx, if_pos (hself.mpr hx), hrest]
    · have hfirst := Kind.toWire?_congr name kind v hx fun visit hvisit =>
        h visit (List.mem_append_left _ hvisit)
      rw [Row.entries, Row.entries, if_neg hx, if_neg (hself.not.mpr hx), hfirst, hrest]

end

def Record.withoutDescription : Record → Record
  | ⟨.gitHubRepo, (id, name, url, _, ())⟩ => ⟨.gitHubRepo, (id, name, url, none, ())⟩
  | r => r

theorem Record.pruned_eq (excluded : List String) (r : Record) :
    (⟨r.type, Row.pruned excluded r.type.fields r.row⟩ : Record) =
      if "description" ∈ excluded then r.withoutDescription else r := by
  obtain ⟨type, row⟩ := r
  cases type with
  | gitHubRepo =>
    obtain ⟨id, name, url, description, ⟨⟩⟩ := row
    by_cases hx : "description" ∈ excluded
    · rw [if_pos hx]
      exact congrArg (fun d => Record.mk .gitHubRepo (id, name, url, d, ())) (if_pos hx)
    · rw [if_neg hx]
      exact congrArg (fun d => Record.mk .gitHubRepo (id, name, url, d, ())) (if_neg hx)
  | _ => exact (ite_self _).symm

/-- What comes back of a record that was written without some fields. It is the record, without its
description if that is left out, unless the walk meets a required field that is left out; then the
first one is reported by its key, at the dotted path of the object that lacks it. -/
theorem Record.decode_excluded {r : Record} (hr : r.hasSurrogate = false) {s : OutputSettings}
    (hs : s.indentsBlank = true) (excluded : List String) :
    ∃ octets, r.encode excluded s = .ok octets ∧
      (decode r.type (.octets octets)).outcome =
        (match (Row.walk excluded r.type.fields).find? (·.lacks excluded) with
        | none => .ok (if "description" ∈ excluded then r.withoutDescription else r)
        | some visit =>
          .error (.refused (.record (.missing (dotted [] visit.trail) visit.name.wire)))) ∧
      ∀ excluded' : List String,
        (∀ visit ∈ Row.walk excluded r.type.fields,
          (visit.name.internal ∈ excluded' ↔ visit.name.internal ∈ excluded)) →
        r.encode excluded' s = .ok octets := by
  obtain ⟨text, octets, hencode, htext, hread⟩ := exists_encode hr hs excluded
  obtain ⟨-, hkeys, heach⟩ := Kind.wellKeyed_record.mp r.type.wellKeyed_kind
  have hload := (Payload.load_octets htext r.type.name).trans (Payload.load_text hread _)
  have hentries : r.type.ofJson [] (r.toWire excluded).toJson = _ :=
    Row.read_entries excluded r.type.fields r.row _ hkeys heach r.type.named_fields hr []
  refine ⟨octets, hencode, ?_, fun excluded' hsame => ?_⟩
  · rw [outcome_decode hload, RecordType.ofJson_arranged (wellFormed_toWire hr excluded), hentries]
    cases (Row.walk excluded r.type.fields).find? (·.lacks excluded) with
    | none => exact congrArg Except.ok (r.pruned_eq excluded)
    | some visit => rfl
  · have htree : r.toWire excluded' = r.toWire excluded :=
      congrArg Wire.object (Row.entries_congr r.type.fields r.row hsame)
    rw [← hencode, encode, encode, Record.text, Record.text, htree]

/-- The issue's link is missed before the project's, and `self` is the name of no field. -/
theorem Record.decode_excluded_items :
    let r : Record := ⟨.jiraIssueEnvelope, (("1", "K-1", "a", ()), ("2", "K", "b", ()), "u", ())⟩
    ∃ octets, r.encode ["self", "api_url"] ⟨.bool true, .null, .int 2⟩ = .ok octets ∧
      (decode r.type (.octets octets)).outcome =
        .error (.refused (.record (.missing "gk.bridgeas.jira.issue" "api_url"))) ∧
      r.encode ["api_url"] ⟨.bool true, .null, .int 2⟩ = .ok octets := by
  intro r
  obtain ⟨octets, hencode, hdecode, hsame⟩ :=
    @decode_excluded r rfl ⟨.bool true, .null, .int 2⟩ rfl ["self", "api_url"]
  exact ⟨octets, hencode, hdecode, hsame ["api_url"] (by decide)⟩

/-- Nothing is written for a count past the machine word; and what is indented with a line
tabulation is not read. -/
theorem Record.not_decode_excluded_of_any_indent :
    (¬∀ (r : Record) (excluded : List String) (n : Int), r.hasSurrogate = false →
      (Row.walk excluded r.type.fields).find? (·.lacks excluded) = none →
      ∃ octets, r.encode excluded ⟨.bool false, .bool false, .int n⟩ = .ok octets ∧
        (decode r.type (.octets octets)).outcome =
          .ok (if "description" ∈ excluded then r.withoutDescription else r)) ∧
    ∃ octets,
      encode ⟨.jiraIssueLight, ([], [], ())⟩ ["self"] ⟨.bool false, .bool false, .str "\x0b"⟩ =
        .ok octets ∧
      ∀ r, (decode .jiraIssueLight (.octets octets)).outcome ≠ .ok r := by
  constructor
  · intro h
    obtain ⟨octets, hencode, -⟩ := h ⟨.gitHubRepo, (1, "a/b", "u", some ("d" : Text), ())⟩
      ["description"] (-0x8000000000000001) rfl rfl
    contradiction
  · refine ⟨_, rfl, fun r h => ?_⟩
    contradiction

end IssueRelay
