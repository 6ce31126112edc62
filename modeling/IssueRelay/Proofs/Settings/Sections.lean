import IssueRelay.Proofs.Json.Members
import IssueRelay.Proofs.Outcome
import IssueRelay.Settings.Basic

set_option autoImplicit false

namespace IssueRelay

theorem OutputSettings.ofMembers_nil : ofMembers [] = plain := rfl

theorem LinkSettings.ofMembers_nil : ofMembers [] = plain := rfl

namespace Settings

def isReadable : Option Json → Bool
  | none => true
  | some v => !v.isSet || v.shape = .object

theorem isReadable_eq_false {v : Json} :
    isReadable (some v) = false ↔ v.isSet = true ∧ v.shape ≠ .object := by simp [isReadable]

theorem isSet_of_readable {v : Json} (h : isReadable (some v) = true) (hshape : v.shape ≠ .object) :
    v.isSet = false := by simpa [isReadable, hshape] using h

theorem exists_of_unreadable {section? : Option Json} (h : isReadable section? = false) :
    ∃ v, section? = some v := by
  cases section? with
  | none => contradiction
  | some v => exact ⟨v, rfl⟩

def membersOf : Option Json → List (Text × Json)
  | some (.obj members) => members
  | _ => []

section

variable {α : Type} {plain : α} {ofMembers : List (Text × Json) → α}

theorem readSection_of_readable (hplain : ofMembers [] = plain) {v : Option Json}
    (h : isReadable v = true) : readSection plain ofMembers v = .ok (ofMembers (membersOf v)) := by
  have hempty : Except.ok plain = (.ok (ofMembers []) : Except SettingsError α) :=
    congrArg Except.ok hplain.symm
  cases v with
  | none => exact hempty
  | some v =>
    cases v with
    | obj members =>
      cases members with
      | nil => exact hempty
      | cons m members => rfl
    | null | bool | int | real | str | arr =>
      have hset := isSet_of_readable h nofun
      simp only [readSection, hset, Bool.false_eq_true, ↓reduceIte]
      exact hempty

theorem readSection_of_unreadable {v : Json} (h : isReadable (some v) = false) :
    readSection plain ofMembers (some v) = .error ⟨v.shape⟩ := by
  obtain ⟨hset, hshape⟩ := isReadable_eq_false.mp h
  cases v with
  | obj => contradiction
  | null | bool | int | real | str | arr => exact if_pos hset

end

def places : List (List String × Json) :=
  [(["version"], .str "0.1"), (["codec", "sort_keys"], .bool false),
    (["codec", "ensure_ascii"], .bool false), (["codec", "indent"], .null), (["jira", "url"], .null)]

def atPlaces (d : Json) : Settings where
  version := (d.at? ["version"]).getD (.str "0.1")
  output :=
    ⟨(d.at? ["codec", "sort_keys"]).getD (.bool false),
      (d.at? ["codec", "ensure_ascii"]).getD (.bool false), (d.at? ["codec", "indent"]).getD .null⟩
  link := ⟨(d.at? ["jira", "url"]).getD .null⟩

theorem eq_atPlaces {c : Settings} {d : Json} : c = atPlaces d ↔
    ∀ p ∈ places, c.toJson.at? p.1 = some ((d.at? p.1).getD p.2) := by
  obtain ⟨version, ⟨sortKeys, asciiOnly, indent⟩, ⟨url⟩⟩ := c
  rw [atPlaces, Settings.mk.injEq, OutputSettings.mk.injEq, LinkSettings.mk.injEq]
  simp only [places, List.forall_mem_cons, List.not_mem_nil, IsEmpty.forall_iff, implies_true,
    and_true, and_assoc]
  change _ ↔ some version = _ ∧ some sortKeys = _ ∧ some asciiOnly = _ ∧ some indent = _ ∧
    some url = _
  simp only [Option.some.injEq]

variable {members : List (Text × Json)}

theorem at?_version : (Json.obj members).at? ["version"] = Json.get? members "version" := by
  rw [Json.at?]
  cases Json.get? members "version" <;> rfl

theorem at?_section (name key : String) : (Json.obj members).at? [name, key] =
    Json.get? (membersOf (Json.get? members name)) key := by
  rw [Json.at?]
  cases Json.get? members name with
  | none => rfl
  | some v =>
    cases v with
    | obj inside =>
      exact Option.bind_fun_some (Json.get? inside key)
    | null | bool | int | real | str | arr => rfl

theorem ofJson_of_readable (hcodec : isReadable (Json.get? members "codec") = true)
    (hjira : isReadable (Json.get? members "jira") = true) :
    ofJson (.obj members) = .ok (atPlaces (.obj members)) := by
  rw [ofJson, readSection_of_readable OutputSettings.ofMembers_nil hcodec,
    readSection_of_readable LinkSettings.ofMembers_nil hjira, atPlaces, at?_version, at?_section,
    at?_section, at?_section, at?_section]
  rfl

theorem ofJson_of_codec {v : Json} (hv : Json.get? members "codec" = some v)
    (h : isReadable (some v) = false) : ofJson (.obj members) = .error ⟨v.shape⟩ := by
  rw [ofJson, hv, readSection_of_unreadable h]
  rfl

theorem ofJson_of_jira (hcodec : isReadable (Json.get? members "codec") = true) {v : Json}
    (hv : Json.get? members "jira" = some v) (h : isReadable (some v) = false) :
    ofJson (.obj members) = .error ⟨v.shape⟩ := by
  rw [ofJson, readSection_of_readable OutputSettings.ofMembers_nil hcodec, hv,
    readSection_of_unreadable h]
  rfl

theorem ofJson_cases (members : List (Text × Json)) :
    (isReadable (Json.get? members "codec") = true ∧ isReadable (Json.get? members "jira") = true) ∨
    ∃ v, isReadable (some v) = false ∧ ofJson (.obj members) = .error ⟨v.shape⟩ ∧
      (Json.get? members "codec" = some v ∨
        isReadable (Json.get? members "codec") = true ∧ Json.get? members "jira" = some v) := by
  cases hcodec : isReadable (Json.get? members "codec") with
  | false =>
    obtain ⟨v, hv⟩ := exists_of_unreadable hcodec
    have hbad := hv ▸ hcodec
    exact .inr ⟨v, hbad, ofJson_of_codec hv hbad, .inl hv⟩
  | true =>
    cases hjira : isReadable (Json.get? members "jira") with
    | false =>
      obtain ⟨v, hv⟩ := exists_of_unreadable hjira
      have hbad := hv ▸ hjira
      exact .inr ⟨v, hbad, ofJson_of_jira hcodec hv hbad, .inr ⟨rfl, hv⟩⟩
    | true => exact .inl ⟨rfl, rfl⟩

theorem ofJson_eq_ok {d : Json} {c : Settings} : ofJson d = .ok c ↔
    (∃ members, d = .obj members ∧ isReadable (Json.get? members "codec") = true ∧
      isReadable (Json.get? members "jira") = true) ∧ c = atPlaces d := by
  constructor
  · intro h
    cases d with
    | obj members =>
      obtain ⟨hcodec, hjira⟩ | ⟨v, -, herror, -⟩ := ofJson_cases members
      · have hread := ofJson_of_readable hcodec hjira
        exact ⟨⟨members, rfl, hcodec, hjira⟩, Except.ok.inj (h.symm.trans hread)⟩
      · cases h.symm.trans herror
    | null | bool | int | real | str | arr => cases h
  · rintro ⟨⟨members, rfl, hcodec, hjira⟩, rfl⟩
    exact ofJson_of_readable hcodec hjira

/-- Settings that are written as JSON are read as they were, whatever values they hold. -/
theorem ofJson_toJson (c : Settings) : ofJson c.toJson = .ok c :=
  ofJson_eq_ok.mpr ⟨⟨_, rfl, rfl, rfl⟩, rfl⟩

theorem atPlaces_congr {d d' : Json} (h : ∀ p ∈ places, d'.at? p.1 = d.at? p.1) :
    atPlaces d' = atPlaces d := by
  refine eq_atPlaces.mpr fun p hp => ?_
  rw [← h p hp]
  exact eq_atPlaces.mp rfl p hp

def sections : List (String × List String) :=
  [("codec", ["sort_keys", "ensure_ascii", "indent"]), ("jira", ["url"])]

/-- A change of an object that leaves what stands under some keys: another key gets a value, or the
members are put in another order. -/
inductive Beside (keys : List String) : List (Text × Json) → List (Text × Json) → Prop
  | put {members : List (Text × Json)} {key : Text} (v : Json)
      (h : ∀ k ∈ keys, Text.ofString k ≠ key) : Beside keys members (Json.put members key v)
  | reorder {members members' : List (Text × Json)} (hd : Json.DistinctKeys members)
      (h : members.Perm members') : Beside keys members members'

theorem Beside.get?_eq {keys : List String} {members members' : List (Text × Json)}
    (h : Beside keys members members') {key : String} (hkey : key ∈ keys) :
    Json.get? members' key = Json.get? members key := by
  cases h with
  | put v h => rw [Json.get?_put, if_neg (h key hkey).symm]
  | reorder hd h => exact Json.get?_perm hd h key

/-- A change of an object that settings do not depend on: one beside the sections and the version or
beside the values in a section, and a section that is not set taken away. -/
inductive Edit : List (Text × Json) → List (Text × Json) → Prop
  | beside {members members' : List (Text × Json)}
      (h : Beside ["version", "codec", "jira"] members members') : Edit members members'
  | inside {members inner inner' : List (Text × Json)} {s : String × List String}
      (hs : s ∈ sections) (hinner : Json.get? members s.1 = some (.obj inner))
      (h : Beside s.2 inner inner') : Edit members (Json.put members s.1 (.obj inner'))
  | unset {members : List (Text × Json)} {s : String × List String} {v : Json} (hs : s ∈ sections)
      (h : Json.get? members s.1 = some v) (hv : v.isSet = false) :
      Edit members (members.filter (·.1 ≠ Text.ofString s.1))

theorem readSection_unset {α : Type} {plain : α} {ofMembers : List (Text × Json) → α} {v : Json}
    (h : v.isSet = false) : readSection plain ofMembers (some v) = .ok plain := by
  simp only [readSection, h, Bool.false_eq_true, ↓reduceIte]

theorem ofJson_congr {members members' : List (Text × Json)}
    (hversion : Json.get? members' "version" = Json.get? members "version")
    (hcodec : readSection .plain OutputSettings.ofMembers (Json.get? members' "codec") =
      readSection .plain OutputSettings.ofMembers (Json.get? members "codec"))
    (hjira : readSection .plain LinkSettings.ofMembers (Json.get? members' "jira") =
      readSection .plain LinkSettings.ofMembers (Json.get? members "jira")) :
    ofJson (.obj members') = ofJson (.obj members) := by
  rw [ofJson, ofJson, hversion, hcodec, hjira]

theorem readSection_inside {α : Type} {plain : α} {ofMembers : List (Text × Json) → α}
    (hplain : ofMembers [] = plain) {inner inner' : List (Text × Json)}
    (h : ofMembers inner' = ofMembers inner) :
    readSection plain ofMembers (some (.obj inner')) =
      readSection plain ofMembers (some (.obj inner)) := by
  have hreadable (inner : List (Text × Json)) : isReadable (some (.obj inner)) = true := by
    simp [isReadable, Json.shape]
  rw [readSection_of_readable hplain (hreadable inner'),
    readSection_of_readable hplain (hreadable inner)]
  exact congrArg Except.ok h

theorem Edit.ofJson_eq {members members' : List (Text × Json)} (h : Edit members members') :
    ofJson (.obj members') = ofJson (.obj members) := by
  have hversionCodec : Text.ofString "codec" ≠ "version" := by decide
  have hversionJira : Text.ofString "jira" ≠ "version" := by decide
  have hsections : Text.ofString "codec" ≠ "jira" := by decide
  cases h with
  | beside h =>
    exact ofJson_congr (h.get?_eq (by simp)) (congrArg _ (h.get?_eq (by simp)))
      (congrArg _ (h.get?_eq (by simp)))
  | @inside inner inner' s hs hinner h =>
    simp only [sections, List.mem_cons, List.not_mem_nil, or_false] at hs
    obtain rfl | rfl := hs
    · have houtput : OutputSettings.ofMembers inner' = OutputSettings.ofMembers inner := by
        rw [OutputSettings.ofMembers, OutputSettings.ofMembers, h.get?_eq (by simp),
          h.get?_eq (by simp), h.get?_eq (by simp)]
      refine ofJson_congr (Json.get?_put_of_ne _ _ hversionCodec) ?_
        (congrArg _ (Json.get?_put_of_ne _ _ hsections))
      rw [Json.get?_put, if_pos rfl, hinner]
      exact readSection_inside OutputSettings.ofMembers_nil houtput
    · have hlink : LinkSettings.ofMembers inner' = LinkSettings.ofMembers inner := by
        rw [LinkSettings.ofMembers, LinkSettings.ofMembers, h.get?_eq (by simp)]
      refine ofJson_congr (Json.get?_put_of_ne _ _ hversionJira)
        (congrArg _ (Json.get?_put_of_ne _ _ hsections.symm)) ?_
      rw [Json.get?_put, if_pos rfl, hinner]
      exact readSection_inside LinkSettings.ofMembers_nil hlink
  | @unset s v hs h hv =>
    simp only [sections, List.mem_cons, List.not_mem_nil, or_false] at hs
    obtain rfl | rfl := hs
    · refine ofJson_congr (Json.get?_filter_of_ne _ hversionCodec) ?_
        (congrArg _ (Json.get?_filter_of_ne _ hsections))
      rw [Json.get?_filter, if_pos rfl, h, readSection_unset hv]
      rfl
    · refine ofJson_congr (Json.get?_filter_of_ne _ hversionJira)
        (congrArg _ (Json.get?_filter_of_ne _ hsections.symm)) ?_
      rw [Json.get?_filter, if_pos rfl, h, readSection_unset hv]
      rfl

/-- What settings are read from and what they are. They are read from an object whose sections are
absent, not set or objects, are the values at the places in it with plain ones in the gaps, and come
back from the object that they are written as; another value at no place makes a difference, and of
two sections that cannot be read the first is reported. -/
theorem ofJson_idempotent (d : Json) :
    ((∃ c, ofJson d = .ok c) ↔ ∃ members, d = .obj members ∧
      isReadable (Json.get? members "codec") = true ∧
      isReadable (Json.get? members "jira") = true) ∧
    (∀ c, ofJson d = .ok c →
      ofJson c.toJson = .ok c ∧ toJson <$> ofJson c.toJson = .ok c.toJson ∧
      (∀ p ∈ places, c.toJson.at? p.1 = some ((d.at? p.1).getD p.2)) ∧
      ∀ d' c', ofJson d' = .ok c' → (∀ p ∈ places, d'.at? p.1 = d.at? p.1) → c' = c) ∧
    ∀ members, d = .obj members →
      (∀ members', Edit members members' → ofJson (.obj members') = ofJson d) ∧
      ∀ v, Json.get? members "codec" = some v → isReadable (some v) = false →
        ofJson d = .error ⟨v.shape⟩ := by
  refine ⟨⟨fun ⟨c, h⟩ => (ofJson_eq_ok.mp h).1, fun h => ⟨_, ofJson_eq_ok.mpr ⟨h, rfl⟩⟩⟩, ?_, ?_⟩
  · intro c h
    have hback := ofJson_toJson c
    obtain ⟨-, hc⟩ := ofJson_eq_ok.mp h
    refine ⟨hback, by rw [hback]; rfl, eq_atPlaces.mp hc, fun d' c' h' hplaces => ?_⟩
    obtain ⟨-, hc'⟩ := ofJson_eq_ok.mp h'
    rw [hc', atPlaces_congr hplaces, hc]
  · rintro members rfl
    exact ⟨fun members' h => h.ofJson_eq, fun v hv hbad => ofJson_of_codec hv hbad⟩

/-- A null stays and a list is a truth value; a section that is an empty list can go, and two that
cannot be read fail by the first. -/
theorem ofJson_idempotent_nulls :
    let members : List (Text × Json) := [("jira", .arr []), ("x", .int 1), ("version", .null),
      ("codec", .obj [("indent", .null), ("sort_keys", .arr [.null])])]
    let c : Settings := ⟨.null, ⟨.arr [.null], .bool false, .null⟩, ⟨.null⟩⟩
    ofJson (.obj members) = .ok c ∧ ofJson c.toJson = .ok c ∧
      c.toJson.at? ["version"] = some .null ∧
      ofJson (.obj (members.filter (·.1 ≠ Text.ofString "jira"))) = .ok c ∧
      ofJson (.obj [("jira", .str "x"), ("codec", .int 1)]) = .error ⟨.integer⟩ := by
  intro members c
  have hc : ofJson (.obj members) = .ok c := rfl
  obtain ⟨-, hread, hobj⟩ := ofJson_idempotent (.obj members)
  obtain ⟨hback, -, hplaces, -⟩ := hread c hc
  have hversion := hplaces (["version"], .str "0.1") (by simp [places])
  have hedit : Edit members (members.filter (·.1 ≠ Text.ofString "jira")) :=
    @Edit.unset members ("jira", ["url"]) (.arr []) (by simp [sections]) rfl rfl
  obtain ⟨-, -, hbad⟩ := ofJson_idempotent (.obj [("jira", .str "x"), ("codec", .int 1)])
  exact ⟨hc, hback, hversion, ((hobj members rfl).1 _ hedit).trans hc,
    (hbad _ rfl).2 (.int 1) rfl rfl⟩

end Settings

end IssueRelay
