import IssueRelay.Proofs.Record.Listing
import IssueRelay.Proofs.Text.Utf8

set_option autoImplicit false

namespace IssueRelay

/-- The strings among texts. A text with surrogates in it is the name of no field. -/
def Text.strings (ts : List Text) : List String :=
  ts.filterMap fun t => (Utf8.charsFrom 0 t).toOption.map String.ofList

theorem Text.mem_strings {ts : List Text} {s : String} : s ∈ strings ts ↔ ofString s ∈ ts := by
  rw [strings, List.mem_filterMap]
  constructor
  · rintro ⟨t, ht, hs⟩
    obtain ⟨cs, hcs, rfl⟩ := Option.map_eq_some_iff.mp hs
    cases hchars : Utf8.charsFrom 0 t with
    | error run =>
      rw [hchars] at hcs
      contradiction
    | ok ds =>
      rw [hchars] at hcs
      cases hcs
      rw [ofString, String.toList_ofList, ← Utf8.eq_ofChars_of_charsFrom hchars]
      exact ht
  · intro hs
    refine ⟨ofString s, hs, ?_⟩
    rw [ofString, Utf8.charsFrom_ofChars]
    exact congrArg some String.ofList_toList

mutual

/-- What is left of the tree of a value without the fields of those names, at every level. -/
def Kind.without (names : List Text) : Kind → Wire → Wire
  | .record _ fields, .object entries =>
    .object (entries.filterMap (Row.entryWithout names fields))
  | _, w => w

/-- What is left of an entry; it is the entry of the field that has its key. -/
def Row.entryWithout (names : List Text) :
    List (FieldName × Kind) → String × Wire → Option (String × Wire)
  | [], e => some e
  | (name, kind) :: rest, e =>
    if name.wire = e.1 then
      if Text.ofString name.internal ∈ names then none else some (e.1, kind.without names e.2)
    else Row.entryWithout names rest e

end

def Kind.written? (excluded : List String) (name : FieldName) (kind : Kind) (v : kind.Value) :
    Option (String × Wire) :=
  if name.internal ∈ excluded then none else (kind.toWire? excluded v).map (Prod.mk name.wire)

theorem Row.entries_cons (excluded : List String) (name : FieldName) (kind : Kind)
    (rest : List (FieldName × Kind)) (v : kind.Value) (r : Row rest) :
    Row.entries excluded ((name, kind) :: rest) (v, r) =
      (kind.written? excluded name v).toList ++ Row.entries excluded rest r := by
  rw [Row.entries, Kind.written?]
  split
  · rfl
  · cases kind.toWire? excluded v <;> rfl

theorem Row.filterMap_entryWithout {entries : List (String × Wire)} {name : FieldName}
    (h : name.wire ∉ entries.map (·.1)) (names : List Text) (kind : Kind)
    (rest : List (FieldName × Kind)) :
    entries.filterMap (Row.entryWithout names ((name, kind) :: rest)) =
      entries.filterMap (Row.entryWithout names rest) := by
  refine List.filterMap_congr fun e he => ?_
  have hne : name.wire ≠ e.1 := fun hkey => h (List.mem_map.mpr ⟨e, he, hkey.symm⟩)
  rw [Row.entryWithout, if_neg hne]

theorem Kind.bind_entryWithout {x y names : List Text}
    (hnames : ∀ name, name ∈ names ↔ name ∈ x ∨ name ∈ y) {kind : Kind} {v : kind.Value}
    (hv : (kind.toWire? (Text.strings x) v).map (kind.without y) =
      kind.toWire? (Text.strings names) v)
    (name : FieldName) (rest : List (FieldName × Kind)) :
    (kind.written? (Text.strings x) name v).bind (Row.entryWithout y ((name, kind) :: rest)) =
      kind.written? (Text.strings names) name v := by
  rw [written?, written?, ← hv]
  -- a field that `x` names has no entry left for `y` to take out
  by_cases hx : Text.ofString name.internal ∈ x
  · have hboth := (hnames _).mpr (.inl hx)
    rw [if_pos (Text.mem_strings.mpr hx), if_pos (Text.mem_strings.mpr hboth), Option.bind_none]
  · rw [if_neg (Text.mem_strings.not.mpr hx)]
    by_cases hy : Text.ofString name.internal ∈ y
    · have hboth := (hnames _).mpr (.inr hy)
      rw [if_pos (Text.mem_strings.mpr hboth)]
      cases kind.toWire? (Text.strings x) v with
      | none => rfl
      | some w => rw [Option.map_some, Option.bind_some, Row.entryWithout, if_pos rfl, if_pos hy]
    · have hneither : Text.ofString name.internal ∉ names := fun h =>
        ((hnames _).mp h).elim hx hy
      rw [if_neg (Text.mem_strings.not.mpr hneither)]
      cases kind.toWire? (Text.strings x) v with
      | none => rfl
      | some w =>
        rw [Option.map_some, Option.bind_some, Row.entryWithout, if_pos rfl, if_neg hy]
        rfl

mutual

theorem Kind.map_without {x y names : List Text}
    (hnames : ∀ name, name ∈ names ↔ name ∈ x ∨ name ∈ y) : (kind : Kind) →
    (v : kind.Value) → (depth : Nat) → kind.wellKeyed depth = true →
    (kind.toWire? (Text.strings x) v).map (kind.without y) =
      kind.toWire? (Text.strings names) v
  | .uint64, _, _, _ => rfl
  | .text, _, _, _ => rfl
  | .optionalText, none, _, _ => rfl
  | .optionalText, some _, _, _ => rfl
  | .record _ fields, r, depth, hk => by
    obtain ⟨-, hkeys, heach⟩ := Kind.wellKeyed_record.mp hk
    have hentries := Row.filterMap_entries hnames fields r (depth - 1) hkeys heach
    rw [Kind.toWire?, Kind.toWire?, Option.map_some, Kind.without, hentries]

theorem Row.filterMap_entries {x y names : List Text}
    (hnames : ∀ name, name ∈ names ↔ name ∈ x ∨ name ∈ y) :
    (fields : List (FieldName × Kind)) → (r : Row fields) → (depth : Nat) →
    (fields.map (·.1.wire)).Nodup → Row.wellKeyed depth fields = true →
    (Row.entries (Text.strings x) fields r).filterMap (Row.entryWithout y fields) =
      Row.entries (Text.strings names) fields r
  | [], _, _, _, _ => rfl
  | (name, kind) :: rest, (v, r), depth, hkeys, hk => by
    obtain ⟨hname, hkeys⟩ := List.nodup_cons.mp hkeys
    obtain ⟨hkind, hk⟩ := Bool.and_eq_true_iff.mp hk
    -- the later entries are looked up among all fields, but none has the key of the first one
    have hothers : name.wire ∉ (Row.entries (Text.strings x) rest r).map (·.1) :=
      fun h => hname ((keys_entries (Text.strings x) rest r).mem h)
    have hvalue := Kind.map_without hnames kind v depth hkind
    have hfirst := Kind.bind_entryWithout hnames hvalue name rest
    have hlater := Row.filterMap_entries hnames rest r depth hkeys hk
    rw [Row.entries_cons, Row.entries_cons, List.filterMap_append,
      Row.filterMap_entryWithout hothers, hlater, ← hfirst, List.filterMap_eq_flatMap_toList]
    exact congrArg (· ++ _) Option.toList_bind.symm

end

namespace Held

def spared (names : List Text) (h : Held) : Bool :=
  h.trail.all fun field => decide (Text.ofString field.name.internal ∉ names)

def left (names : List Text) (hs : List Held) : List Wire.Listed :=
  (hs.filter (spared names)).map listed

theorem left_append (names : List Text) (front back : List Held) :
    left names (front ++ back) = left names front ++ left names back := by
  rw [left, List.filter_append, List.map_append]
  rfl

theorem left_map_under (names : List Text) (field : FieldOf) (hs : List Held) :
    left names (hs.map (under field)) =
      if Text.ofString field.name.internal ∈ names then []
      else (left names hs).map (Wire.Listed.under field.name.wire) := by
  rw [left, List.filter_map]
  split
  · rename_i hx
    have hnone : hs.filter (spared names ∘ under field) = [] := by
      refine List.filter_eq_nil_iff.mpr fun h _ => ?_
      simp [spared, under, hx]
    rw [hnone]
    rfl
  · rename_i hx
    have hsame : spared names ∘ under field = spared names := by
      funext h
      simp [spared, under, hx]
    rw [hsame, List.map_map, left, List.map_map]
    rfl

end Held

mutual

theorem Kind.listing_toWire? (names : List Text) : (kind : Kind) → (v : kind.Value) →
    (kind.toWire? (Text.strings names) v).elim [] Wire.listing = Held.left names (kind.listing v)
  | .uint64, _ => rfl
  | .text, _ => rfl
  | .optionalText, none => rfl
  | .optionalText, some _ => rfl
  | .record type fields, r => by
    have hentries := Row.listing_entries names type fields r
    rw [Kind.toWire?, Option.elim_some, Wire.listing, hentries]
    rfl

theorem Row.listing_entries (names : List Text) (type : String) :
    (fields : List (FieldName × Kind)) → (r : Row fields) →
    Wire.entryListing (Row.entries (Text.strings names) fields r) =
      Held.left names (Row.listing type fields r)
  | [], _ => rfl
  | (name, kind) :: rest, (v, r) => by
    have hfirst := Kind.listing_toWire? names kind v
    have hlater := Row.listing_entries names type rest r
    rw [Row.entries_cons, Wire.entryListing_append, hlater, Row.listing, Held.left_append,
      Held.left_map_under, ← hfirst, Kind.written?]
    simp only [Text.mem_strings]
    -- left out, the field takes all that it leads to along
    split
    · rfl
    · cases kind.toWire? (Text.strings names) v with
      | none => rfl
      | some w =>
        rw [Option.map_some, Option.toList_some, Wire.entryListing, Wire.entryListing,
          List.append_nil]
        rfl

end

theorem Held.left_eq {x y names : List Text}
    (hnames : ∀ name, name ∈ names ↔ name ∈ x ∨ name ∈ y) (hs : List Held) :
    left names hs = (hs.filter fun h => h.spared x && h.spared y).map listed := by
  refine congrArg (List.map listed) (List.filter_congr fun h _ => ?_)
  rw [Bool.eq_iff_iff]
  simp only [spared, Bool.and_eq_true, List.all_eq_true, decide_eq_true_eq, hnames, not_or,
    forall_and]

/-- To leave out the names of two lists, in any order and however often they are given, is to leave
out those of one list and then, at every level, the entries of the fields that the other one names.
What is left is the one tree that lists, in field order and no two under the same keys, just the
values of the record to which no field of those names leads, each under the keys that the fields'
own types give them. -/
theorem Record.toWire_union (r : Record) {x y names : List Text}
    (hnames : ∀ name, name ∈ names ↔ name ∈ x ∨ name ∈ y) :
    r.toWire (Text.strings names) = r.type.kind.without y (r.toWire (Text.strings x)) ∧
      (∀ w : Wire, w = r.toWire (Text.strings names) ↔
        w.listing = (r.listing.filter fun h => h.spared x && h.spared y).map Held.listed) ∧
      ((r.toWire (Text.strings names)).listing.map (·.1)).Nodup ∧
      (∀ h ∈ r.listing, ∀ field ∈ h.trail, field.Declared) ∧
      ∀ names' : List Text, (∀ name, name ∈ names' ↔ name ∈ names) →
        r.toWire (Text.strings names') = r.toWire (Text.strings names) := by
  have hkeyed := r.type.wellKeyed_kind
  have hunion {zs : List Text} (hzs : ∀ name, name ∈ zs ↔ name ∈ x ∨ name ∈ y) :
      r.type.kind.without y (r.toWire (Text.strings x)) = r.toWire (Text.strings zs) :=
    Option.some.inj (Kind.map_without hzs r.type.kind r.row maxDepth hkeyed)
  have hlisting : (r.toWire (Text.strings names)).listing = Held.left names r.listing :=
    Kind.listing_toWire? names r.type.kind r.row
  refine ⟨(hunion hnames).symm, fun w => ?_, ?_, ?_, fun names' hsame => ?_⟩
  · rw [← Held.left_eq hnames, ← hlisting]
    exact ⟨congrArg Wire.listing, Wire.listing_injective w _⟩
  · have hkeys := Kind.nodup_listing r.type.kind r.row maxDepth hkeyed
    rw [hlisting, Held.left, List.map_map]
    exact hkeys.sublist (List.filter_sublist.map _)
  · exact Kind.declared_trail r.type.kind r.row r.type.declared_kind
  · have hboth := hunion fun name => (hsame name).trans (hnames name)
    exact hboth.symm.trans (hunion hnames)

/-- The links go at both levels that have one, and the keys too; a key on the wire and a text with a
surrogate name nothing. -/
theorem Record.toWire_union_issue :
    let r : Record := ⟨.jiraIssue, ("a", "1", "K-1", (("b", "2", "K", ()), ()), ())⟩
    let x : List Text := ["_self", "projectId"]
    let y : List Text := ["key", "self", [.surrogate 0]]
    let names : List Text := ["key", [.surrogate 0], "_self", "self", "key", "projectId"]
    let ids : Wire :=
      .object [("id", .text "1"), ("fields", .object [("project", .object [("id", .text "2")])])]
    (∀ name, name ∈ names ↔ name ∈ x ∨ name ∈ y) ∧ r.toWire (Text.strings names) = ids ∧
      r.type.kind.without y (r.toWire (Text.strings x)) = ids := by
  intro r x y names ids
  have hnames : ∀ name, name ∈ names ↔ name ∈ x ∨ name ∈ y := by
    intro name
    simp only [names, x, y, List.mem_cons, List.not_mem_nil, or_false]
    tauto
  obtain ⟨hunion, hlisting, -⟩ := r.toWire_union hnames
  have hids := (hlisting ids).mpr (by decide)
  exact ⟨hnames, hids.symm, (hids.trans hunion).symm⟩

end IssueRelay
