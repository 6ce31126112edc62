import IssueRelay.Json.Reader
import IssueRelay.Proofs.Text.Surrogates

set_option autoImplicit false

namespace IssueRelay.Json

def digitText (ds : List Digit) : Text := ds.map fun d => .scalar d.val.digitChar

theorem digit?_digitChar (d : Digit) : digit? (.scalar d.val.digitChar) = some d := by
  revert d; decide

theorem ofDigits_append_singleton (ds : List Digit) (d : Digit) :
    ofDigits (ds ++ [d]) = 10 * ofDigits ds + d.val := by simp [ofDigits]

theorem exists_digits (n : Nat) :
    ∃ d ds, Text.ofNat n = digitText (d :: ds) ∧ ofDigits (d :: ds) = n ∧ (d = 0 → ds = []) := by
  induction n using Nat.strongRecOn with
  | ind n ih =>
    by_cases hn : n < 10
    · refine ⟨⟨n, hn⟩, [], ?_, by simp [ofDigits], fun _ => rfl⟩
      simp [Text.ofNat, Text.ofChars, digitText, Nat.toDigits_of_lt_base hn]
    · obtain ⟨d, ds, htext, hvalue, hzero⟩ := ih (n / 10) (by omega)
      refine ⟨d, ds ++ [⟨n % 10, by omega⟩], ?_, ?_, ?_⟩
      · simp only [Text.ofNat, Text.ofChars, digitText] at htext ⊢
        rw [Nat.toDigits_of_base_le (by omega) (by omega), List.map_append, htext]
        simp
      · rw [← List.cons_append, ofDigits_append_singleton, hvalue]
        show 10 * (n / 10) + n % 10 = n
        omega
      · intro hd
        rw [hzero hd, hd] at hvalue
        have hz : ofDigits [0] = 0 := rfl
        omega

theorem length_digitText (ds : List Digit) : (digitText ds).length = ds.length :=
  List.length_map _

def EndsDigits (rest : Text) : Prop := ∀ c, rest.head? = some c → digit? c = none

def EndsNumeral (rest : Text) : Prop :=
  ∀ c, rest.head? = some c →
    digit? c = none ∧ c ≠ .scalar '.' ∧ c ≠ .scalar 'e' ∧ c ≠ .scalar 'E'

theorem endsNumeral_cons {c : CodePoint} (hd : digit? c = none)
    (hc : c ≠ .scalar '.' ∧ c ≠ .scalar 'e' ∧ c ≠ .scalar 'E') (rest : Text) :
    EndsNumeral (c :: rest) := by
  intro c' h
  cases h
  exact ⟨hd, hc⟩

theorem EndsNumeral.endsDigits {rest : Text} (h : EndsNumeral rest) : EndsDigits rest :=
  fun c hc => (h c hc).1

theorem digits_digitText (ds : List Digit) {rest : Text} (h : EndsDigits rest) :
    digits (digitText ds ++ rest) = (ds, rest) := by
  induction ds with
  | nil =>
    cases rest with
    | nil => rfl
    | cons c rest => simp [digitText, digits, h c rfl]
  | cons d ds ih =>
    have he : digitText (d :: ds) ++ rest =
        .scalar d.val.digitChar :: (digitText ds ++ rest) := rfl
    simp [he, digits, digit?_digitChar, ih]

namespace Numeral

theorem takeFraction_of_ends {rest : Text} (h : EndsNumeral rest) :
    takeFraction rest = ([], rest) := by
  unfold takeFraction
  split
  · exact absurd rfl (h _ rfl).2.1
  · rfl

theorem takeExponent_of_ends {rest : Text} (h : EndsNumeral rest) :
    takeExponent rest = (none, rest) := by
  unfold takeExponent
  split
  · obtain ⟨_, _, he, hE⟩ := h _ rfl
    have hc : ∀ {x y : Char}, CodePoint.scalar x ≠ .scalar y → x ≠ y := fun h e => h (e ▸ rfl)
    rw [if_neg (not_or.mpr ⟨hc he, hc hE⟩)]
  · rfl

theorem whole?_digitText {d : Digit} {ds : List Digit} (hd : d = 0 → ds = []) {rest : Text}
    (h : EndsDigits rest) : whole? (digitText (d :: ds) ++ rest) = some (d :: ds, rest) := by
  have he : digitText (d :: ds) ++ rest =
      .scalar d.val.digitChar :: (digitText ds ++ rest) := rfl
  rw [he, whole?, digit?_digitChar]
  by_cases hz : d = 0
  · simp [hd hz, hz, digitText]
  · simp [hz, digits_digitText ds h]

theorem sign_digitText (d : Digit) (ds : List Digit) (rest : Text) :
    sign (digitText (d :: ds) ++ rest) = (false, digitText (d :: ds) ++ rest) := by
  have hd : d.val.digitChar ≠ '-' := by revert d; decide
  have he : digitText (d :: ds) ++ rest =
      .scalar d.val.digitChar :: (digitText ds ++ rest) := rfl
  rw [he]
  unfold sign
  split
  · rename_i heq
    exact absurd (CodePoint.scalar.inj (List.cons.inj heq).1) hd
  · rfl

theorem scan?_digitText {d : Digit} {ds : List Digit} (hd : d = 0 → ds = []) {rest : Text}
    (h : EndsNumeral rest) :
    scan? (digitText (d :: ds) ++ rest) = some (⟨false, d :: ds, [], none⟩, rest) := by
  simp [scan?, sign_digitText, whole?_digitText hd h.endsDigits, takeFraction_of_ends h,
    takeExponent_of_ends h]

end Numeral

namespace Reader

theorem skip_blanks {s : Text} (h : ∀ c ∈ s, isBlank c = true) (rest : Text) :
    skip (s ++ rest) = skip rest := List.dropWhile_append_of_pos h

theorem skip_of_not_blank {c : CodePoint} (h : isBlank c = false) (rest : Text) :
    skip (c :: rest) = c :: rest := by simp [skip, h]

theorem digit_front (d : Digit) :
    isBlank (.scalar d.val.digitChar) = false ∧ d.val.digitChar ≠ '\uFEFF' ∧
      d.val.digitChar ≠ '"' ∧ d.val.digitChar ≠ '[' ∧ d.val.digitChar ≠ '{' := by
  revert d; decide

theorem head?_words : ∀ p ∈ words, p.1.head?.map digit? = some none := by decide

theorem after?_word_digitText {p : Text × Json} (hp : p ∈ words) (d : Digit) (ds : List Digit)
    (rest : Text) : Text.after? p.1 (digitText (d :: ds) ++ rest) = none := by
  obtain ⟨w, v⟩ := p
  have hhead := head?_words _ hp
  have he : digitText (d :: ds) ++ rest =
      .scalar d.val.digitChar :: (digitText ds ++ rest) := rfl
  cases w with
  | nil => simp at hhead
  | cons c w =>
    have hc : c ≠ .scalar d.val.digitChar := by
      rintro rfl
      simp [digit?_digitChar] at hhead
    simp [he, Text.after?, hc]

theorem wordOrNumber_digitText (d : Digit) (ds : List Digit) (rest : Text) :
    wordOrNumber (digitText (d :: ds) ++ rest) = number (digitText (d :: ds) ++ rest) := by
  rw [wordOrNumber]
  split
  · rename_i taken htaken
    obtain ⟨p, hp, hword⟩ := List.exists_of_findSome?_eq_some htaken
    simp [after?_word_digitText hp d ds rest] at hword
  · rfl

theorem valueWith_digitText (inside : Container → ValueReader) (d : Digit) (ds : List Digit)
    (rest : Text) :
    valueWith inside (digitText (d :: ds) ++ rest) =
      wordOrNumber (digitText (d :: ds) ++ rest) := by
  obtain ⟨-, -, hquote, hbracket, hbrace⟩ := digit_front d
  unfold valueWith
  split <;> simp_all [digitText]

theorem value_eq_valueWith (depth : Nat) : ∃ inside, value depth = valueWith inside := by
  cases depth with
  | zero => exact ⟨_, rfl⟩
  | succ depth => exact ⟨_, rfl⟩

end Reader

end IssueRelay.Json
