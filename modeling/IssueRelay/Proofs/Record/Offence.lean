import Mathlib.Algebra.Group.Int.Defs
import IssueRelay.Proofs.Record.Building

/-!
What keeps a JSON value from being a record. A value offends where it is of the wrong sort, or lacks
the key of a field that is required; a walk over the fields in order, into each object as it comes,
meets one offence first. A reader accepts just what denotes a record without surrogates, and of
anything else it reports the offence that the walk meets first, at its dotted path.
-/

set_option autoImplicit false

namespace IssueRelay

inductive Kind.Misfit : Kind → Json → Mismatch → Prop
  | notUnsigned {v : Json} (h : ∀ n, v ≠ .int n) : Misfit .uint64 v (.notUnsigned v.shape)
  | outOfRange {n : Int} (h : n < 0 ∨ 2 ^ 64 ≤ n) : Misfit .uint64 (.int n) (.outOfRange n)
  | notString {v : Json} (h : ∀ s, v ≠ .str s) : Misfit .text v (.notString v.shape)
  | surrogate {s : Text} (h : s.hasSurrogate = true) : Misfit .text (.str s) .surrogate
  | optional {v : Json} {m : Mismatch} (hv : v ≠ .null) (h : Misfit .text v m) :
      Misfit .optionalText v m
  | notObject {type : String} {fields : List Field} {v : Json} (h : ∀ members, v ≠ .obj members) :
      Misfit (.record type fields) v (.notObject v.shape)

/-- Something wrong with a value or inside it: the keys that lead to where it is, and what it is. -/
inductive Offence
  | mismatch (trail : List String) (m : Mismatch)
  | missing (trail : List String) (key : String)

def Offence.under (key : String) : Offence → Offence
  | .mismatch trail m => .mismatch (key :: trail) m
  | .missing trail k => .missing (key :: trail) k

def dotted (path : Text) (trail : List String) : Text :=
  [.scalar '.'].intercalate ((if path = [] then [] else [path]) ++ trail.map Text.ofString)

def Offence.error (path : Text) : Offence → RecordError
  | .mismatch trail m => .mismatch (dotted path trail) m
  | .missing trail key => .missing (dotted path trail) key

def Kind.Accepts (kind : Kind) (found : Option Json) : Prop :=
  ∃ v, kind.Denotes found v ∧ kind.hasSurrogate v = false

mutual

inductive Kind.FirstOffence : Kind → Json → Offence → Prop
  | misfit {kind : Kind} {v : Json} {m : Mismatch} (h : kind.Misfit v m) :
      Kind.FirstOffence kind v (.mismatch [] m)
  | inside {type : String} {fields : List Field} {members : List (Text × Json)} {o : Offence}
      (h : Row.FirstOffence fields members o) :
      Kind.FirstOffence (.record type fields) (.obj members) o

/-- The offence of an object's members that is met first, going through the fields in order. -/
inductive Row.FirstOffence : List Field → List (Text × Json) → Offence → Prop
  | missing {name : FieldName} {kind : Kind} {rest : List Field} {members : List (Text × Json)}
      (hkind : kind ≠ .optionalText) (h : Json.get? members name.wire = none) :
      Row.FirstOffence ((name, kind) :: rest) members (.missing [] name.wire)
  | here {name : FieldName} {kind : Kind} {rest : List Field} {members : List (Text × Json)}
      {v : Json} {o : Offence} (hv : Json.get? members name.wire = some v)
      (h : Kind.FirstOffence kind v o) :
      Row.FirstOffence ((name, kind) :: rest) members (o.under name.wire)
  | later {name : FieldName} {kind : Kind} {rest : List Field} {members : List (Text × Json)}
      {o : Offence} (hfirst : kind.Accepts (Json.get? members name.wire))
      (h : Row.FirstOffence rest members o) : Row.FirstOffence ((name, kind) :: rest) members o

end

theorem dotted_nil (path : Text) : dotted path [] = path := by
  by_cases h : path = [] <;> simp [dotted, h, List.intercalate]

theorem dotted_childPath {key : String} (hkey : key ≠ "") (path : Text) (trail : List String) :
    dotted (childPath path key) trail = dotted path (key :: trail) := by
  have hne : Text.ofString key ≠ [] := fun h => hkey (Text.ofString_inj (t := "") |>.mp h)
  by_cases h : path = []
  · simp [dotted, childPath, h, hne]
  · cases trail <;> simp [dotted, childPath, h, List.intercalate]

theorem Offence.error_childPath {key : String} (hkey : key ≠ "") (path : Text) (o : Offence) :
    o.error (childPath path key) = (o.under key).error path := by
  cases o <;> simp only [error, under, dotted_childPath hkey]

theorem unsigned_eq_error {v : Json} {m : Mismatch} :
    unsigned v = .error m ↔ Kind.uint64.Misfit v m := by
  constructor
  · intro h
    unfold unsigned at h
    split at h
    · split at h
      · contradiction
      · rename_i n hrange
        cases h
        exact .outOfRange (by simp only [UInt64.size] at hrange; omega)
    · rename_i hint
      cases h
      exact .notUnsigned hint
  · intro h
    cases h with
    | notUnsigned h =>
      cases v with
      | int n => exact absurd rfl (h n)
      | null | bool | real | str | arr | obj => rfl
    | outOfRange h =>
      rw [unsigned, if_neg]
      simp only [UInt64.size]
      omega

theorem plainText_eq_error {v : Json} {m : Mismatch} :
    plainText v = .error m ↔ Kind.text.Misfit v m := by
  constructor
  · intro h
    unfold plainText at h
    split at h
    · split at h
      · rename_i hs
        cases h
        exact .surrogate hs
      · contradiction
    · rename_i hstr
      cases h
      exact .notString hstr
  · intro h
    cases h with
    | notString h =>
      cases v with
      | str s => exact absurd rfl (h s)
      | null | bool | int | real | arr | obj => rfl
    | surrogate h => rw [plainText, if_pos h]

mutual

/-- Whether no key is empty, however deep inside; a path could not tell such a key. -/
def Kind.named : Kind → Bool
  | .uint64 | .text | .optionalText => true
  | .record _ fields => Row.named fields

def Row.named : List (FieldName × Kind) → Bool
  | [] => true
  | (name, kind) :: rest => name.wire ≠ "" && kind.named && Row.named rest

end

theorem RecordType.named_fields (type : RecordType) : Row.named type.fields = true := by
  cases type <;> decide

theorem Kind.read_none {kind : Kind} (h : kind ≠ .optionalText) (container : Text) (key : String) :
    kind.read container key none = .error (.missing container key) := by
  cases kind with
  | optionalText => contradiction
  | uint64 | text | record => rfl

theorem Kind.firstOffence_leaf {kind : Kind} (h : ∀ type fields, kind ≠ .record type fields)
    {v : Json} {path : Text} {e : RecordError} :
    (∃ o, kind.FirstOffence v o ∧ e = o.error path) ↔
      ∃ m, kind.Misfit v m ∧ .mismatch path m = e := by
  constructor
  · rintro ⟨o, ho, rfl⟩
    cases ho with
    | misfit hm => exact ⟨_, hm, by rw [Offence.error, dotted_nil]⟩
    | inside => exact absurd rfl (h _ _)
  · rintro ⟨m, hm, rfl⟩
    exact ⟨_, .misfit hm, by rw [Offence.error, dotted_nil]⟩

theorem Kind.firstOffence_obj {type : String} {fields : List Field} {members : List (Text × Json)}
    {o : Offence} :
    (Kind.record type fields).FirstOffence (.obj members) o ↔
      Row.FirstOffence fields members o := by
  refine ⟨fun h => ?_, .inside⟩
  cases h with
  | inside h => exact h
  | misfit h =>
    cases h with
    | notObject h => exact absurd rfl (h members)

theorem Kind.firstOffence_not_obj {type : String} {fields : List Field} {v : Json}
    (hv : ∀ members, v ≠ .obj members) {path : Text} {e : RecordError} :
    (∃ o, (Kind.record type fields).FirstOffence v o ∧ e = o.error path) ↔
      e = .mismatch path (.notObject v.shape) := by
  constructor
  · rintro ⟨o, ho, rfl⟩
    cases ho with
    | inside => exact absurd rfl (hv _)
    | misfit h =>
      cases h
      rw [Offence.error, dotted_nil]
  · rintro rfl
    exact ⟨_, .misfit (.notObject hv), by rw [Offence.error, dotted_nil]⟩

theorem Kind.misfit_optionalText {v : Json} (hnull : v ≠ .null) {m : Mismatch} :
    Kind.optionalText.Misfit v m ↔ plainText v = .error m := by
  refine ⟨fun h => ?_, fun h => .optional hnull (plainText_eq_error.mp h)⟩
  cases h with
  | optional _ h => exact plainText_eq_error.mpr h

theorem Kind.read_optionalText_eq_error {container : Text} {key : String} {v : Json}
    {e : RecordError} :
    Kind.optionalText.read container key (some v) = .error e ↔
      ∃ m, Kind.optionalText.Misfit v m ∧ .mismatch (childPath container key) m = e := by
  by_cases hnull : v = .null
  · subst hnull
    refine ⟨nofun, ?_⟩
    rintro ⟨m, hm, -⟩
    cases hm with
    | optional hv => exact absurd rfl hv
  · simp only [misfit_optionalText hnull]
    rw [Kind.read]
    · cases plainText v <;> simp
    · exact hnull

theorem Kind.read_found_eq_error {kind : Kind} {container : Text} {key : String} (hkey : key ≠ "")
    (hsome : ∀ v e, kind.read container key (some v) = .error e ↔
      ∃ o, kind.FirstOffence v o ∧ e = o.error (childPath container key))
    {found : Option Json} {e : RecordError} :
    kind.read container key found = .error e ↔
      (found = none ∧ kind ≠ .optionalText ∧ e = (Offence.missing [] key).error container) ∨
      ∃ v o, found = some v ∧ kind.FirstOffence v o ∧ e = (o.under key).error container := by
  cases found with
  | none =>
    rw [Offence.error, dotted_nil]
    by_cases hkind : kind = .optionalText
    · subst hkind
      simp [Kind.read]
    · simp [Kind.read_none hkind, hkind, eq_comm]
  | some v => simp [hsome, Offence.error_childPath hkey]

mutual

theorem Kind.read_eq_error {container : Text} {key : String} : (kind : Kind) →
    kind.named = true → {v : Json} → {e : RecordError} →
    (kind.read container key (some v) = .error e ↔
      ∃ o, kind.FirstOffence v o ∧ e = o.error (childPath container key))
  | .uint64, _, v, e => by
    rw [Kind.firstOffence_leaf (by simp), Kind.read, Except.mapError_eq_error]
    simp only [unsigned_eq_error]
  | .text, _, v, e => by
    rw [Kind.firstOffence_leaf (by simp), Kind.read, Except.mapError_eq_error]
    simp only [plainText_eq_error]
  | .optionalText, _, v, e => by
    rw [Kind.firstOffence_leaf (by simp), Kind.read_optionalText_eq_error]
  | .record type fields, hk, v, e => by
    by_cases hobj : ∃ members, v = .obj members
    · obtain ⟨members, rfl⟩ := hobj
      simp only [Kind.firstOffence_obj]
      exact Row.read_eq_error fields hk
    · have hobj := not_exists.mp hobj
      rw [Kind.firstOffence_not_obj hobj, Kind.read]
      · rw [Except.error.injEq, eq_comm]
      · exact hobj

theorem Row.read_eq_error {path : Text} : (fields : List (FieldName × Kind)) →
    Row.named fields = true → {members : List (Text × Json)} → {e : RecordError} →
    (Row.read path fields members = .error e ↔
      ∃ o, Row.FirstOffence fields members o ∧ e = o.error path)
  | [], _, members, e => by
    refine ⟨nofun, ?_⟩
    rintro ⟨o, ho, -⟩
    cases ho
  | (name, kind) :: rest, hk, members, e => by
    simp only [Row.named, Bool.and_eq_true, decide_eq_true_eq] at hk
    obtain ⟨⟨hname, hkind⟩, hrest⟩ := hk
    have hlater : Row.read path rest members = .error e ↔ _ := Row.read_eq_error rest hrest
    rw [Row.read, Except.bind_eq_error,
      Kind.read_found_eq_error hname fun v e => Kind.read_eq_error kind hkind]
    -- the walk stops at this field, or accepts what is there and goes on
    constructor
    · rintro ((⟨hget, hrequired, rfl⟩ | ⟨v, o, hget, ho, rfl⟩) | ⟨v, hv, h⟩)
      · exact ⟨_, .missing hrequired hget, rfl⟩
      · exact ⟨_, .here hget ho, rfl⟩
      · obtain h | ⟨r, -, h⟩ := Except.bind_eq_error.mp h
        · obtain ⟨o, ho, rfl⟩ := hlater.mp h
          exact ⟨o, .later ⟨v, Kind.read_eq_ok kind |>.mp hv⟩ ho, rfl⟩
        · contradiction
    · rintro ⟨o, ho, rfl⟩
      cases ho with
      | missing hrequired hget => exact .inl (.inl ⟨hget, hrequired, rfl⟩)
      | here hget ho => exact .inl (.inr ⟨_, _, hget, ho, rfl⟩)
      | later hfirst ho =>
        obtain ⟨v, hv⟩ := hfirst
        refine .inr ⟨v, Kind.read_eq_ok kind |>.mpr hv, ?_⟩
        rw [hlater.mpr ⟨o, ho, rfl⟩]
        rfl

end

theorem RecordType.ofJson_eq_error {type : RecordType} {path : Text} {v : Json} {e : RecordError} :
    type.ofJson path v = .error e ↔ ∃ o, type.kind.FirstOffence v o ∧ e = o.error path := by
  by_cases hobj : ∃ members, v = .obj members
  · obtain ⟨members, rfl⟩ := hobj
    simp only [RecordType.kind, Kind.firstOffence_obj]
    exact Row.read_eq_error type.fields type.named_fields
  · have hobj := not_exists.mp hobj
    rw [RecordType.kind, Kind.firstOffence_not_obj hobj, ofJson]
    · rw [Except.error.injEq, eq_comm]
    · exact hobj

/-- A reader is exact. What it accepts denotes the record that it gives, without surrogates, and the
record can be built from what it holds; what it does not accept has an offence, and the one that is
met first is reported, with its path before it in the message unless that is empty. -/
theorem RecordType.ofJson_exact (type : RecordType) (path : Text) (v : Json) :
    (∀ r, type.ofJson path v = .ok r ↔
      type.kind.Denotes (some v) r ∧ Row.hasSurrogate type.fields r = false) ∧
    (∀ r, type.ofJson path v = .ok r → type.build (Draft.ofRow type.fields r) = .ok r) ∧
    (∀ e, type.ofJson path v = .error e ↔
      ∃ o, type.kind.FirstOffence v o ∧ e = o.error path) ∧
    ∀ e, type.ofJson path v = .error e →
      (e.path = [] → e.message = e.problem) ∧
      (e.path ≠ [] → e.message = e.path ++ ": " ++ e.problem) :=
  ⟨fun _ => ofJson_eq_ok, fun r _ => Draft.build_ofRow type type.fields r, fun _ => ofJson_eq_error,
    fun _ _ => ⟨fun h => if_pos h, fun h => if_neg h⟩⟩

/-- An issue read at a path, whose project has a number for its id, and after that no key. -/
theorem RecordType.ofJson_exact_project :
    jiraIssue.ofJson "issue" (.obj [("self", .str "s"), ("id", .str "1"), ("key", .str "K"),
      ("fields", .obj [("project", .obj [("id", .int 2), ("self", .str "p")])])]) =
      .error (.mismatch "issue.fields.project.id" (.notString .integer)) ∧
    (RecordError.mismatch "issue.fields.project.id" (.notString .integer)).message =
      "issue.fields.project.id: expected string, got number" := by
  obtain ⟨-, -, herror, hmessage⟩ := ofJson_exact jiraIssue "issue" (.obj [("self", .str "s"),
    ("id", .str "1"), ("key", .str "K"),
    ("fields", .obj [("project", .obj [("id", .int 2), ("self", .str "p")])])])
  have hself {s : Text} (hs : s.hasSurrogate = false) :
      Kind.text.Accepts (some (.str s)) := ⟨s, rfl, hs⟩
  have hid : Kind.text.FirstOffence (.int 2) (.mismatch [] (.notString .integer)) :=
    .misfit (.notString (by simp))
  have hproject : jiraProject.kind.FirstOffence (.obj [("id", .int 2), ("self", .str "p")])
      (.mismatch ["id"] (.notString .integer)) := .inside (.later (hself rfl) (.here rfl hid))
  have hfields : jiraIssueFields.kind.FirstOffence
      (.obj [("project", .obj [("id", .int 2), ("self", .str "p")])])
      (.mismatch ["project", "id"] (.notString .integer)) := .inside (.here rfl hproject)
  have hread := (herror _).mpr ⟨_, .inside (.later (hself rfl) (.later (hself rfl)
    (.later (hself rfl) (.here rfl hfields)))), rfl⟩
  exact ⟨hread, (hmessage _ hread).2 nofun⟩

end IssueRelay
