import IssueRelay.Proofs.Envelope.Classification
import IssueRelay.Proofs.Json.Limits

set_option autoImplicit false

namespace IssueRelay

variable {α β : Type}

def Answered (x : Except DecodeFailure α) : Prop :=
  (∃ a, x = .ok a) ∨ ∃ e, x = .error (.refused e)

theorem answered_refused (e : DecodeError) :
    Answered (.error (.refused e) : Except DecodeFailure α) := .inr ⟨e, rfl⟩

theorem not_answered_limit (l : Json.Limit) :
    ¬Answered (.error (.limit l) : Except DecodeFailure α) := by
  rintro (⟨a, h⟩ | ⟨e, h⟩) <;> cases h

theorem answered_mapError (x : Except RecordError α) (f : α → β) :
    Answered ((x.mapError fun e => DecodeFailure.refused (.record e)).map f) := by
  cases x with
  | error e => exact answered_refused _
  | ok a => exact .inl ⟨f a, rfl⟩

variable {p : Payload} {what : Text} {v : Json}

theorem Record.answered_decode (h : (p.load what).outcome = .ok v) (type : RecordType) :
    Answered (decode type p).outcome := by
  rw [outcome_decode (Payload.load_eq_pure h type.name)]
  exact answered_mapError _ _

theorem Envelope.answered_parse (h : (p.load what).outcome = .ok v) :
    Answered (parse p).outcome := by
  cases hkind : EnvelopeKind.ofJson v with
  | error u =>
    rw [outcome_parse_of_unknown h hkind]
    exact answered_refused _
  | ok kind =>
    rw [outcome_parse_of_tags h hkind]
    exact answered_mapError _ _

theorem Payload.load_eq_limit {l : Json.Limit} :
    (p.load what).outcome = .error (.limit l) ↔
      ∃ s, p.toText = .ok s ∧ Json.read s = .error (.limit l) := by
  rw [load]
  cases p.toText with
  | error f => simp [Logged.fail]
  | ok s =>
    cases hread : Json.read s with
    | error f => cases f <;> simp [hread, Logged.fail]
    | ok v => simp [hread, pure]

theorem Payload.load_text_limit {s : Text} {l : Json.Limit} (h : Json.read s = .error (.limit l))
    (what : Text) : ((Payload.text s).load what).outcome = .error (.limit l) :=
  load_eq_limit.mpr ⟨s, rfl, h⟩

/-- A payload is answered by everything that takes one, or else its text goes past a limit of the
JSON reader and all of them stop there. -/
theorem answered_or_past_limit (p : Payload) (what : Text) (type : RecordType) :
    (Answered (p.load what).outcome ∧ Answered (Record.decode type p).outcome ∧
      Answered (Envelope.parse p).outcome) ∨
    ∃ s l, p.toText = .ok s ∧ l.Exceeded 0 s ∧
      (p.load what).outcome = .error (.limit l) ∧
      (Record.decode type p).outcome = .error (.limit l) ∧
      (Envelope.parse p).outcome = .error (.limit l) := by
  cases hload : (p.load what).outcome with
  | ok v =>
    exact .inl ⟨.inl ⟨v, rfl⟩, Record.answered_decode hload type, Envelope.answered_parse hload⟩
  | error e =>
    have hdecode := Record.outcome_decode_of_load hload type
    have hparse := Envelope.outcome_parse_of_load hload
    cases e with
    | refused e =>
      rw [hdecode, hparse]
      exact .inl ⟨answered_refused e, answered_refused e, answered_refused e⟩
    | limit l =>
      obtain ⟨s, htext, hread⟩ := Payload.load_eq_limit.mp hload
      exact .inr ⟨s, l, htext, Json.exceeded_of_read hread, rfl, hdecode, hparse⟩

/-- What lies past a limit: an integer of 4301 digits, and 3000 brackets. -/
theorem not_answered_past_limit :
    (¬∀ (p : Payload) (what : Text), Answered (p.load what).outcome) ∧
    (¬∀ (p : Payload) (type : RecordType), Answered (Record.decode type p).outcome) ∧
    ¬∀ p : Payload, Answered (Envelope.parse p).outcome := by
  have hone : (1 : Json.Digit) ≠ 0 := by decide
  have hlong : Json.maxDigits < (1 :: List.replicate 4300 (1 : Json.Digit)).length := by
    rw [List.length_cons, List.length_replicate]
    decide
  have hdigits := Payload.load_text_limit (Json.read_digitText_of_long (absurd · hone) hlong) []
  have hdeep : Json.Reader.maxDepth < 3000 := by decide
  have hbrackets := Payload.load_text_limit (Json.read_brackets_of_deep hdeep) []
  refine ⟨fun h => ?_, fun h => ?_, fun h => ?_⟩
  · exact not_answered_limit _ (hdigits ▸ h _ [])
  · have hdecode := Record.outcome_decode_of_load hdigits .jiraVersion
    exact not_answered_limit _ (hdecode ▸ h _ .jiraVersion)
  · have hparse := Envelope.outcome_parse_of_load hbrackets
    exact not_answered_limit _ (hparse ▸ h _)

end IssueRelay
