import Mathlib.Data.List.Induction
import Mathlib.Data.Nat.Digits.Defs
import IssueRelay.Proofs.Json.Decimal
import IssueRelay.Proofs.Outcome
import IssueRelay.Proofs.Text.Cut

set_option autoImplicit false

namespace IssueRelay.Json

structure Run where
  first : Digit
  more : List Digit

namespace Run

def digits (r : Run) : List Digit := r.first :: r.more

def text (r : Run) : Text := digitText r.digits

/-- The value of digits of which the first one weighs most. -/
def value (r : Run) : Nat := Nat.ofDigits 10 (r.digits.reverse.map Fin.val)

end Run

structure Scale where
  capital : Bool
  sign : Option Bool
  run : Run

namespace Scale

def signText : Option Bool → Text
  | none => []
  | some true => [.scalar '-']
  | some false => [.scalar '+']

def text (e : Scale) : Text :=
  .scalar (if e.capital then 'E' else 'e') :: (signText e.sign ++ e.run.text)

def exponent (e : Scale) : Exponent := ⟨e.sign.getD false, e.run.digits⟩

end Scale

/-- A literal of digits. Its whole part has no leading zero, except for zero itself. -/
structure Decimal where
  negative : Bool
  whole : Run
  noLeadingZero : whole.first.val = 0 → whole.more = []
  fraction : Option Run
  scale : Option Scale

namespace Decimal

def signText (negative : Bool) : Text := if negative then [.scalar '-'] else []

def fractionText : Option Run → Text
  | none => []
  | some r => .scalar '.' :: r.text

def scaleText : Option Scale → Text
  | none => []
  | some e => e.text

def text (d : Decimal) : Text :=
  signText d.negative ++ (d.whole.text ++ (fractionText d.fraction ++ scaleText d.scale))

def numeral (d : Decimal) : Numeral :=
  ⟨d.negative, d.whole.digits, (d.fraction.map Run.digits).getD [], d.scale.map Scale.exponent⟩

def integer? (d : Decimal) : Option Int :=
  if d.fraction.isNone && d.scale.isNone then
    some (if d.negative then -(d.whole.value : Int) else d.whole.value)
  else none

end Decimal

inductive Number
  | decimal (d : Decimal)
  | notANumber
  | infinity (negative : Bool)

namespace Number

def text : Number → Text
  | decimal d => d.text
  | notANumber => "NaN"
  | infinity false => "Infinity"
  | infinity true => "-Infinity"

def integer? : Number → Option Int
  | decimal d => d.integer?
  | notANumber | infinity _ => none

def wholeDigits : Number → Nat
  | decimal d => d.whole.digits.length
  | notANumber | infinity _ => 0

def value? : Number → Except Limit Json
  | decimal d => d.numeral.value
  | notANumber => .ok (.real .notANumber)
  | infinity negative => .ok (.real (.infinity negative))

def ofRun (r : Run) (h : r.first.val = 0 → r.more = []) : Number :=
  .decimal ⟨false, r, h, none, none⟩

theorem integer?_ofRun (r : Run) (h : r.first.val = 0 → r.more = []) :
    (ofRun r h).integer? = some (r.value : Int) := rfl

end Number

theorem ofDigits_eq_foldl (ds : List Digit) :
    ofDigits ds = Nat.ofDigits 10 (ds.reverse.map Fin.val) := by
  induction ds using List.reverseRecOn with
  | nil => rfl
  | append_singleton ds d ih =>
    rw [ofDigits_append_singleton, ih, List.reverse_append, List.reverse_singleton,
      List.singleton_append, List.map_cons, Nat.ofDigits_cons]
    omega

theorem Run.ofDigits_digits (r : Run) : ofDigits r.digits = r.value := ofDigits_eq_foldl r.digits

theorem endsDigits_cons {c : CodePoint} (h : digit? c = none) (rest : Text) :
    EndsDigits (c :: rest) := by
  intro c' hc
  cases hc
  exact h

namespace Decimal

theorem endsDigits_scaleText (e : Option Scale) {rest : Text} (h : EndsNumeral rest) :
    EndsDigits (scaleText e ++ rest) := by
  cases e with
  | none => exact h.endsDigits
  | some e =>
    obtain ⟨capital, sign, run⟩ := e
    cases capital <;> exact endsDigits_cons rfl _

theorem endsDigits_fractionText (f : Option Run) (e : Option Scale) {rest : Text}
    (h : EndsNumeral rest) : EndsDigits (fractionText f ++ (scaleText e ++ rest)) := by
  cases f with
  | none => exact endsDigits_scaleText e h
  | some r => exact endsDigits_cons (by decide) _

end Decimal

namespace Numeral

open Decimal

theorem sign_signText (negative : Bool) (r : Run) (rest : Text) :
    sign (signText negative ++ (r.text ++ rest)) = (negative, r.text ++ rest) := by
  cases negative with
  | true => rfl
  | false => exact sign_digitText r.first r.more rest

theorem takeFraction_scaleText (e : Option Scale) {rest : Text} (h : EndsNumeral rest) :
    takeFraction (scaleText e ++ rest) = ([], scaleText e ++ rest) := by
  cases e with
  | none => exact takeFraction_of_ends h
  | some e =>
    obtain ⟨capital, sign, run⟩ := e
    cases capital <;> rfl

theorem takeFraction_fractionText (f : Option Run) (e : Option Scale) {rest : Text}
    (h : EndsNumeral rest) :
    takeFraction (fractionText f ++ (scaleText e ++ rest)) =
      ((f.map Run.digits).getD [], scaleText e ++ rest) := by
  cases f with
  | none => exact takeFraction_scaleText e h
  | some r =>
    have hdigits := digits_digitText r.digits (endsDigits_scaleText e h)
    simp only [fractionText, List.cons_append, takeFraction, Run.text, hdigits]
    rfl

theorem exponentSign_signText (s : Option Bool) (r : Run) (rest : Text) :
    exponentSign (Scale.signText s ++ (r.text ++ rest)) = (s.getD false, r.text ++ rest) := by
  cases s with
  | none =>
    have hplus : r.first.val.digitChar ≠ '+' := by
      generalize r.first = d
      revert d
      decide
    have hsign := sign_digitText r.first r.more rest
    rw [Scale.signText, List.nil_append]
    unfold exponentSign
    split
    · rename_i heq
      exact absurd (CodePoint.scalar.inj (List.cons.inj heq).1) hplus
    · exact hsign
  | some negative => cases negative <;> rfl

theorem takeExponent_scaleText (e : Option Scale) {rest : Text} (h : EndsNumeral rest) :
    takeExponent (scaleText e ++ rest) = (e.map Scale.exponent, rest) := by
  cases e with
  | none => exact takeExponent_of_ends h
  | some e =>
    obtain ⟨capital, sign, run⟩ := e
    have hmark : (if capital then 'E' else 'e') = 'e' ∨ (if capital then 'E' else 'e') = 'E' := by
      cases capital <;> decide
    have hdigits : digits (run.text ++ rest) = (run.digits, rest) :=
      digits_digitText run.digits h.endsDigits
    simp only [scaleText, Scale.text, List.cons_append, List.append_assoc, takeExponent,
      if_pos hmark, exponentSign_signText, hdigits]
    rfl

theorem scan?_text (d : Decimal) {rest : Text} (h : EndsNumeral rest) :
    scan? (d.text ++ rest) = some (d.numeral, rest) := by
  have htext : d.text ++ rest = signText d.negative ++ (d.whole.text ++
      (fractionText d.fraction ++ (scaleText d.scale ++ rest))) := by simp [Decimal.text]
  have hwhole : whole? (d.whole.text ++ (fractionText d.fraction ++ (scaleText d.scale ++ rest))) =
      some (d.whole.digits, fractionText d.fraction ++ (scaleText d.scale ++ rest)) :=
    whole?_digitText (fun hd => d.noLeadingZero (congrArg Fin.val hd))
      (endsDigits_fractionText d.fraction d.scale h)
  simp only [scan?, htext, sign_signText, hwhole, takeFraction_fractionText d.fraction d.scale h,
    takeExponent_scaleText d.scale h, Option.bind_eq_bind, Option.bind_some]
  rfl

end Numeral

namespace Decimal

theorem isInteger_numeral (d : Decimal) : d.numeral.isInteger = d.integer?.isSome := by
  obtain ⟨negative, whole, hzero, fraction, scale⟩ := d
  cases fraction <;> cases scale <;> rfl

theorem integer_numeral {d : Decimal} {n : Int} (h : d.integer? = some n) :
    d.numeral.integer = n := by
  unfold integer? at h
  split at h
  · cases h
    rw [Numeral.integer, numeral, Run.ofDigits_digits]
  · contradiction

end Decimal

namespace Number

theorem value?_of_integer {n : Number} {v : Int} (h : n.integer? = some v) :
    n.value? = if n.wholeDigits ≤ maxDigits then .ok (.int v)
      else .error (.integerDigits n.wholeDigits) := by
  cases n with
  | decimal d =>
    have hint : d.numeral.isInteger = true := by
      rw [d.isInteger_numeral]
      exact Option.isSome_of_eq_some h
    rw [value?, Numeral.value, if_pos hint, Decimal.integer_numeral h]
    rfl
  | notANumber => contradiction
  | infinity negative => contradiction

theorem value?_of_not_integer {n : Number} (h : n.integer? = none) :
    ∃ r, n.value? = .ok (.real r) := by
  cases n with
  | decimal d =>
    have hint : d.numeral.isInteger = false := by
      rw [d.isInteger_numeral]
      exact Option.isSome_eq_false_iff.mpr (Option.isNone_iff_eq_none.mpr h)
    refine ⟨d.numeral.real, ?_⟩
    simp [value?, Numeral.value, hint]
  | notANumber => exact ⟨_, rfl⟩
  | infinity negative => exact ⟨_, rfl⟩

end Number

namespace Reader

theorem wordOrNumber_word {w : Text} {v : Json} (h : (w, v) ∈ words) (rest : Text) :
    wordOrNumber (w ++ rest) = .ok (v, rest) := by
  simp only [words, List.mem_cons, List.not_mem_nil, or_false, Prod.mk.injEq] at h
  rcases h with ⟨rfl, rfl⟩ | ⟨rfl, rfl⟩ | ⟨rfl, rfl⟩ | ⟨rfl, rfl⟩ | ⟨rfl, rfl⟩ | ⟨rfl, rfl⟩ <;> rfl

theorem wordOrNumber_decimal (d : Decimal) (rest : Text) :
    wordOrNumber (d.text ++ rest) = number (d.text ++ rest) := by
  have htext : d.text ++ rest = Decimal.signText d.negative ++
      (digitText (d.whole.first :: d.whole.more) ++
        (Decimal.fractionText d.fraction ++ (Decimal.scaleText d.scale ++ rest))) := by
    simp [Decimal.text, Run.text, Run.digits]
  rw [htext]
  generalize Decimal.fractionText d.fraction ++ (Decimal.scaleText d.scale ++ rest) = tail
  cases d.negative with
  | false => exact wordOrNumber_digitText d.whole.first d.whole.more tail
  | true =>
    simp [wordOrNumber, words, Decimal.signText, digitText, Text.ofString, Text.ofChars,
      Text.after?]

theorem wordOrNumber_text (n : Number) {rest : Text} (h : EndsNumeral rest) :
    wordOrNumber (n.text ++ rest) = (n.value?.mapError .limit).map (·, rest) := by
  cases n with
  | decimal d =>
    rw [Number.text, wordOrNumber_decimal, number, Numeral.scan?_text d h]
    cases hv : d.numeral.value <;> simp [Number.value?, hv, Except.map, Except.mapError]
  | notANumber => exact wordOrNumber_word (w := "NaN") (by simp [words]) rest
  | infinity negative =>
    cases negative with
    | false => exact wordOrNumber_word (w := "Infinity") (by simp [words]) rest
    | true => exact wordOrNumber_word (w := "-Infinity") (by simp [words]) rest

end Reader

end IssueRelay.Json
