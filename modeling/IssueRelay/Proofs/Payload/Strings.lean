import IssueRelay.Proofs.Payload.Places

set_option autoImplicit false

namespace IssueRelay

open Json

inductive Kind.Holds : (kind : Kind) → (Text → kind.Value) → Prop
  | text : Holds .text id
  | optionalText : Holds .optionalText some

theorem Kind.Holds.readAt_str {leaf : Kind} {hold : Text → leaf.Value} (h : leaf.Holds hold)
    (path s : Text) :
    leaf.readAt path (.str s) =
      if s.hasSurrogate then .error (.mismatch path .surrogate) else .ok (hold s) := by
  cases h with
  | text => cases hs : s.hasSurrogate <;> simp [Kind.readAt, plainText, hs] <;> rfl
  | optionalText => cases hs : s.hasSurrogate <;> simp [Kind.readAt, plainText, hs] <;> rfl

theorem Kind.Holds.shape_ne {leaf : Kind} {hold : Text → leaf.Value} (h : leaf.Holds hold) :
    leaf.shape ≠ .object := by cases h <;> decide

/-- Whether a member says nothing about a record with those fields: no field has its key, or else a
later member has it too. -/
def Json.Member.Ignored (m : Member) (fields : List Field) (later : List Member) : Prop :=
  (∀ f ∈ fields, m.key ≠ Text.ofString f.1.wire) ∨ ∃ n ∈ later, n.key = m.key

namespace Marked

variable {type : RecordType} {leaf : Kind} {hold : Text → leaf.Value}

theorem outcome_decode_string (x : Marked type leaf) (hleaf : leaf.Holds hold) (s : Spelling)
    {p : Payload} (hp : p.toText = .ok (x.around.text (.string s))) :
    (Record.decode type p).outcome =
      if s.denoted.hasSurrogate then .error (.refused (.record (.mismatch x.path .surrogate)))
      else .ok (x.recordWith (hold s.denoted)) := by
  rw [x.exists_value.2 (.string s) p (.str s.denoted) hp rfl, hleaf.readAt_str]
  cases s.denoted.hasSurrogate <;> rfl

theorem readAt_insert (name : String) {fields : List Field} (path : Text) {gap : Gap}
    {front back : List Member} {m : Member} (hm : m.Ignored fields back) {depth : Nat}
    (hfits : m.2.2.1.fits (depth - 1) = true) {w₀ : Json}
    (h₀ : (Source.object (front ++ back) gap).value? depth = .ok w₀) :
    ∃ w, (Source.object (front ++ m :: back) gap).value? depth = .ok w ∧
      (Kind.record name fields).readAt path w = (Kind.record name fields).readAt path w₀ := by
  cases depth with
  | zero => contradiction
  | succ depth =>
    simp only [Source.value?, Source.pairs?_eq_mapM, List.mapM_append, List.mapM_cons] at h₀ ⊢
    obtain ⟨pairs, hpairs, rfl⟩ := Except.map_eq_ok.mp h₀
    obtain ⟨fronts, hfronts, hpairs⟩ := Except.bind_eq_ok.mp hpairs
    obtain ⟨backs, hbacks, hpairs⟩ := Except.bind_eq_ok.mp hpairs
    cases hpairs
    obtain ⟨v, hv⟩ := Except.exists_of_isOk ((m.2.2.1.isOk_value? depth).trans hfits)
    refine ⟨.obj (ofPairs (fronts ++ (m.key, v) :: backs)), ?_, ?_⟩
    · rw [hfronts, hbacks, Member.pair?, hv]
      rfl
    · refine Row.read_eq_of_each path fun f hf => ?_
      have hget : get? (ofPairs (fronts ++ (m.key, v) :: backs)) f.1.wire =
          get? (ofPairs (fronts ++ backs)) f.1.wire := by
        simp only [get?_ofPairs, List.reverse_append, List.reverse_cons, List.append_assoc,
          get?_append]
        by_cases hkey : m.key = Text.ofString f.1.wire
        · -- a field asks for the key, and finds what stands under it later
          obtain hother | ⟨n, hn, hsame⟩ := hm
          · exact absurd hkey (hother f hf)
          · have hlater : (get? backs.reverse f.1.wire).isSome = true := by
              rw [isSome_get?, List.map_reverse, List.mem_reverse, keys_of_mapM_pair? hbacks]
              exact List.mem_map.mpr ⟨n, hn, hsame.trans hkey⟩
            obtain ⟨u, hu⟩ := Option.isSome_iff_exists.mp hlater
            rw [hu, Option.some_or, Option.some_or]
        · simp [get?, hkey]
      rw [hget]

end Marked

/-- Strings are read as what they denote, however they are spelled. A field holds the code points
that the literal at its place denotes; where one of them is a surrogate, the payload is refused with
an error at the field. No spelling of a key or of a string in a member that is ignored matters. -/
theorem Payload.spelled_strings :
    (∀ (type : RecordType) (leaf : Kind) (hold : Text → leaf.Value) (x : Marked type leaf)
      (s : Spelling) (p : Payload), leaf.Holds hold →
      p.toText = .ok (x.around.text (.string s)) →
      (s.denoted.hasSurrogate = false →
        (Record.decode type p).outcome = .ok (x.recordWith (hold s.denoted)) ∧
          x.place.get (x.recordWith (hold s.denoted)).row = hold s.denoted) ∧
      (s.denoted.hasSurrogate = true → ∃ e, (Record.decode type p).outcome = .error (.refused e) ∧
        e.path = x.path ∧
        e.message = x.path ++ ": invalid unicode string: surrogates not allowed")) ∧
    ∀ (type : RecordType) (name : String) (fields : List Field)
      (x : Marked type (.record name fields)) (front back : List Member) (m : Member) (gap : Gap)
      (p : Payload), x.source = .object (front ++ back) gap → m.Ignored fields back →
      m.2.2.1.fits (x.around.depth - 1) = true →
      p.toText = .ok (x.around.text (.object (front ++ m :: back) gap)) →
      (Record.decode type p).outcome = .ok ⟨type, x.row⟩ := by
  constructor
  · intro type leaf hold x s p hleaf hp
    rw [x.outcome_decode_string hleaf s hp]
    refine ⟨fun hs => ?_, fun hs => ⟨_, by rw [if_pos hs], rfl, ?_⟩⟩
    · rw [if_neg (by simp [hs])]
      exact ⟨rfl, x.place.get_set x.row _⟩
    · exact x.message_mismatch hleaf.shape_ne .surrogate
  · intro type name fields x front back m gap p hsource hm hfits hp
    obtain ⟨⟨w₀, hw₀, hread⟩, hdecode⟩ := x.exists_value
    rw [hsource] at hw₀
    obtain ⟨w, hw, hsame⟩ := Marked.readAt_insert name x.path hm hfits hw₀
    rw [hdecode _ p w hp hw, hsame, hread]
    exact congrArg (fun r => Except.ok (Record.mk type r)) (x.place.set_get x.row)

def Marked.projectKey : Marked .jiraIssueFields .text where
  place := .inside .first (.inside (.later (.later .first)) .here)
  around := ⟨[.lineFeed], [⟨[], ([.tab], .plain "project", []), [], [.space], [], []⟩,
    ⟨[.plain "self" "s", .plain "id" "1"], ([], .plain "key", [.space]), [], [], [], []⟩], []⟩
  under := .cons ⟨by decide +kernel, nofun⟩ (.cons ⟨by decide +kernel, nofun⟩ .nil)
  source := .string (.plain "K")
  payload := .text "\n\x7b\t\"project\":\x7b\"self\": \"s\",\"id\": \"1\",\"key\" :\"K\"\x7d \x7d"
  spelled := by decide +kernel
  row := (("s", "1", "K", ()), ())
  decoded := by decide +kernel

def Marked.project :
    Marked .jiraIssueFields (.record "JiraProject" RecordType.jiraProjectFields) where
  place := .inside .first .here
  around := ⟨[], [⟨[], ([], .plain "project", []), [], [], [], []⟩], []⟩
  under := .cons ⟨by decide +kernel, nofun⟩ .nil
  source :=
    .object ([Member.plain "self" "s", Member.plain "id" "1"] ++ [Member.plain "key" "K"]) []
  payload := .text "\x7b\"project\":\x7b\"self\": \"s\",\"id\": \"1\",\"key\": \"K\"\x7d\x7d"
  spelled := by decide +kernel
  row := (("s", "1", "K", ()), ())
  decoded := by decide +kernel

def Json.Spelling.halves : Spelling :=
  [.unit ⟨13, true⟩ ⟨8, true⟩ ⟨3, true⟩ ⟨13, false⟩,
    .unit ⟨13, true⟩ ⟨14, false⟩ ⟨0, true⟩ ⟨0, true⟩]

/-- A pair is read as one character; the same halves the other way around keep the payload out, but
not where they are a key that no field has. -/
theorem Payload.spelled_strings_halves :
    ((Record.decode .jiraIssueFields
        (.text (Marked.projectKey.around.text (.string .halves)))).outcome =
        .ok (Marked.projectKey.recordWith "😀") ∧
      Marked.projectKey.place.get (Marked.projectKey.recordWith "😀").row = "😀") ∧
    (∃ e, (Record.decode .jiraIssueFields
        (.text (Marked.projectKey.around.text (.string Spelling.halves.reverse)))).outcome =
          .error (.refused e) ∧ e.path = Marked.projectKey.path ∧
        e.message = Marked.projectKey.path ++
          ": invalid unicode string: surrogates not allowed") ∧
    (Record.decode .jiraIssueFields (.text (Marked.project.around.text (.object
        ([Member.plain "self" "s", Member.plain "id" "1"] ++
          (([], Spelling.halves.reverse, []), ([], .null, [])) ::
            [Member.plain "key" "K"]) [])))).outcome =
      .ok ⟨.jiraIssueFields, Marked.project.row⟩ := by
  obtain ⟨hstring, hmember⟩ := Payload.spelled_strings
  have hpair : Spelling.denoted .halves = "😀" := by decide +kernel
  have hlone : (Spelling.denoted Spelling.halves.reverse).hasSurrogate = true := by decide +kernel
  have hread := (hstring .jiraIssueFields _ id Marked.projectKey .halves
    (.text (Marked.projectKey.around.text (.string .halves))) .text rfl).1
  rw [hpair] at hread
  refine ⟨hread rfl, (hstring _ _ id Marked.projectKey _ _ .text rfl).2 hlone, ?_⟩
  exact hmember _ _ _ Marked.project _ _ _ [] _ rfl (.inl (by decide +kernel)) (by decide +kernel)
    rfl

end IssueRelay
