import IssueRelay.Proofs.Envelope.Classification

/-!
What a refused payload leaves in the log. One that is refused as text, as JSON or as a record leaves
one entry, which tells of the error, and one that is taken leaves none. Unknown tags alone refuse a
payload without an entry: they are looked at between the place that logs what is wrong with the JSON
and the one that logs what is wrong with the record.
-/

set_option autoImplicit false

namespace IssueRelay

/-- Whether an entry tells of an error. No entry tells of unknown tags. -/
inductive LogEntry.Reports : LogEntry → DecodeError → Prop
  | invalidUtf8 (what : Text) (f : Utf8.Fault) : Reports (.invalidUtf8 what f) (.invalidUtf8 f)
  | malformed (what : Text) (m : Json.Malformed) : Reports (.malformed what m) (.malformed m)
  | notRecord (component : Component) (type : RecordType) (e : RecordError) :
      Reports (.notRecord component type e) (.record e)

namespace Logged

variable {α β : Type} {x : Logged DecodeFailure α}

/-- The log of a call that is only about its outcome: one entry for a refusal, telling of its error,
and no entry for a value or for a limit of the reader. -/
def Accounts (x : Logged DecodeFailure α) : Prop :=
  match x.outcome with
  | .error (.refused e) => ∃ entry, x.log = [entry] ∧ entry.Reports e
  | .error (.limit _) => x.log = []
  | .ok _ => x.log = []

theorem accounts_pure (a : α) : (pure a : Logged DecodeFailure α).Accounts := rfl

/-- A chain of calls that each account for their outcomes accounts for its own: a call that others
come after has left nothing in the log. -/
theorem Accounts.bind {f : α → Logged DecodeFailure β} (hx : x.Accounts)
    (hf : ∀ a, x.outcome = .ok a → (f a).Accounts) : (x >>= f).Accounts := by
  obtain ⟨outcome, log⟩ := x
  cases outcome with
  | error e => cases e <;> exact hx
  | ok a =>
    obtain rfl : log = [] := hx
    exact hf a rfl

theorem Accounts.map (hx : x.Accounts) (f : α → β) : (f <$> x).Accounts :=
  hx.bind fun a _ => accounts_pure (f a)

end Logged

open Logged

theorem Payload.accounts_load (p : Payload) (what : Text) : (p.load what).Accounts := by
  rw [load]
  cases p.toText with
  | error f => exact ⟨_, rfl, .invalidUtf8 what f⟩
  | ok s =>
    dsimp only
    cases Json.read s with
    | ok v => exact accounts_pure v
    | error e =>
      cases e with
      | malformed m => exact ⟨_, rfl, .malformed what m⟩
      | limit l => exact rfl

theorem RecordType.accounts_ofLoaded (type : RecordType) (component : Component) (v : Json) :
    (type.ofLoaded component v).Accounts := by
  rw [ofLoaded]
  cases type.ofJson [] v with
  | error e => exact ⟨_, rfl, .notRecord component type e⟩
  | ok r => exact accounts_pure r

theorem Record.accounts_decode (type : RecordType) (p : Payload) : (decode type p).Accounts :=
  ((p.accounts_load type.name).bind fun v _ => type.accounts_ofLoaded .records v).map _

theorem Envelope.accounts_parse {p : Payload} (h : ∀ v, (p.load "envelope").outcome = .ok v →
    ∃ kind : EnvelopeKind, kind.ShownBy v) : (parse p).Accounts := by
  refine (p.accounts_load "envelope").bind fun v hv => ?_
  obtain ⟨kind, hkind⟩ := h v hv
  simp only [EnvelopeKind.ofJson_eq_ok.mpr hkind]
  exact (kind.recordType.accounts_ofLoaded .envelopes v).map (ofRow kind)

theorem Envelope.parse_of_not_shown {p : Payload} {v : Json}
    (h : (p.load "envelope").outcome = .ok v) (hkind : ∀ kind : EnvelopeKind, ¬kind.ShownBy v) :
    ∃ u, parse p = .fail (.refused (.unknownEnvelope u)) [] := by
  cases hv : EnvelopeKind.ofJson v with
  | ok kind => exact absurd (EnvelopeKind.ofJson_eq_ok.mp hv) (hkind kind)
  | error u =>
    refine ⟨u, ?_⟩
    rw [parse, Payload.load_eq_pure h, pure_bind]
    simp only [hv]

/-- Decoding logs a refusal once and nothing else, and so does parsing, but for a payload that is
JSON without the tags of any envelope: that is refused with nothing in the log. -/
theorem Payload.logged_or_unknown (p : Payload) (type : RecordType) :
    (Record.decode type p).Accounts ∧
    ((Envelope.parse p).Accounts ∨
      ∃ v u, (p.load "envelope").outcome = .ok v ∧ (∀ kind : EnvelopeKind, ¬kind.ShownBy v) ∧
        Envelope.parse p = .fail (.refused (.unknownEnvelope u)) []) := by
  refine ⟨Record.accounts_decode type p, ?_⟩
  by_cases h : ∀ v, (p.load "envelope").outcome = .ok v → ∃ kind : EnvelopeKind, kind.ShownBy v
  · exact .inl (Envelope.accounts_parse h)
  · obtain ⟨v, hv⟩ := not_forall.mp h
    obtain ⟨hload, hkind⟩ := Classical.not_imp.mp hv
    obtain ⟨u, hu⟩ := Envelope.parse_of_not_shown hload (not_exists.mp hkind)
    exact .inr ⟨v, u, hload, not_exists.mp hkind, hu⟩

/-- An empty array is refused as an envelope, and nothing is logged. -/
theorem Payload.not_logged_unknown :
    ¬∀ (p : Payload) (e : DecodeError), (Envelope.parse p).outcome = .error (.refused e) →
      ∃ entry, (Envelope.parse p).log = [entry] := by
  intro h
  obtain ⟨entry, hentry⟩ := h (.text "[]") (.unknownEnvelope .notObject) rfl
  contradiction

end IssueRelay
