import IssueRelay.Json.Literal
import IssueRelay.Proofs.Text.Surrogates
import IssueRelay.Wire.Writer

set_option autoImplicit false

namespace IssueRelay

namespace CodePoint

theorem value_lt (c : CodePoint) : c.value < 0x110000 := by
  cases c with
  | scalar x =>
    have hx : x.toNat < 0xD800 ∨ 0xDFFF < x.toNat ∧ x.toNat < 0x110000 := x.valid
    simp only [value]
    omega
  | surrogate i => simp only [value]; omega

theorem value_of_not_surrogate {c : CodePoint} (h : c.isSurrogate = false) :
    c.value < 0xD800 ∨ 0xDFFF < c.value := by
  cases c with
  | scalar x => exact (x.valid : x.toNat < 0xD800 ∨ _).imp id And.left
  | surrogate i => contradiction

theorem ofNat_value {c : CodePoint} (h : c.isSurrogate = false) : ofNat c.value = c := by
  have hv := value_of_not_surrogate h
  cases c with
  | scalar x => rw [ofNat, dif_neg (by omega), value, Char.ofNat_toNat]
  | surrogate i => contradiction

end CodePoint

namespace Wire
open Json Json.Literal

def units (c : CodePoint) : List Symbol :=
  if c.value < 0x10000 then [.unit (Fin.ofNat _ c.value)]
  else [.unit (Fin.ofNat _ (0xD800 + (c.value - 0x10000) / 0x400)),
    .unit (Fin.ofNat _ (0xDC00 + (c.value - 0x10000) % 0x400))]

def symbols (asciiOnly : Bool) (c : CodePoint) : List Symbol :=
  match escapeLetter? c with
  | some _ => [.point c]
  | none => if c.value < 0x20 ∨ (asciiOnly = true ∧ 0x7E < c.value) then units c else [.point c]

theorem join_unit {u : Fin 0x10000} (hu : isHigh u = false) (rest : List Symbol) :
    join (.unit u :: rest) = .ofNat u.val :: join rest := by
  cases rest with
  | nil => rfl
  | cons s rest => cases s with
    | point c => rfl
    | unit v => simp [join, hu]

theorem join_halves {high low : Nat} (hh : 0xD800 ≤ high ∧ high < 0xDC00)
    (hl : 0xDC00 ≤ low ∧ low < 0xE000) (rest : List Symbol) :
    join (.unit (Fin.ofNat _ high) :: .unit (Fin.ofNat _ low) :: rest) =
      .ofNat (0x10000 + (high - 0xD800) * 0x400 + (low - 0xDC00)) :: join rest := by
  have hhmod : high % 0x10000 = high := Nat.mod_eq_of_lt (by omega)
  have hlmod : low % 0x10000 = low := Nat.mod_eq_of_lt (by omega)
  have hhigh : isHigh (Fin.ofNat 0x10000 high) = true := by simp [isHigh, hhmod, hh]
  have hlow : isLow (Fin.ofNat 0x10000 low) = true := by simp [isLow, hlmod, hl]
  simp only [join, hhigh, hlow, Bool.and_self, ↓reduceIte, ofHalves, Fin.val_ofNat, hhmod, hlmod]

/-- A code point past the first plane is escaped as two halves, which are joined to it; no other is
escaped as a half. -/
theorem join_units {c : CodePoint} (hc : c.isSurrogate = false) (rest : List Symbol) :
    join (units c ++ rest) = c :: join rest := by
  have hv := c.value_lt
  have hs := CodePoint.value_of_not_surrogate hc
  unfold units
  split
  · rename_i h
    have hu : isHigh (Fin.ofNat 0x10000 c.value) = false := by
      simp [isHigh, Nat.mod_eq_of_lt h]
      omega
    rw [List.cons_append, List.nil_append, join_unit hu, Fin.val_ofNat, Nat.mod_eq_of_lt h,
      CodePoint.ofNat_value hc]
  · have hjoin : 0x10000 + (0xD800 + (c.value - 0x10000) / 0x400 - 0xD800) * 0x400
        + (0xDC00 + (c.value - 0x10000) % 0x400 - 0xDC00) = c.value := by omega
    rw [List.cons_append, List.cons_append, List.nil_append, join_halves (by omega) (by omega),
      hjoin, CodePoint.ofNat_value hc]

theorem join_symbols (asciiOnly : Bool) {c : CodePoint} (hc : c.isSurrogate = false)
    (rest : List Symbol) : join (symbols asciiOnly c ++ rest) = c :: join rest := by
  unfold symbols
  split
  · rfl
  · split
    · exact join_units hc rest
    · rfl

theorem join_flatMap_symbols (asciiOnly : Bool) {s : Text} (hs : s.hasSurrogate = false) :
    join (s.flatMap (symbols asciiOnly)) = s := by
  induction s with
  | nil => rfl
  | cons c s ih =>
    simp only [Text.hasSurrogate_cons, Bool.or_eq_false_iff] at hs
    rw [List.flatMap_cons, join_symbols asciiOnly hs.1, ih hs.2]

end Wire

end IssueRelay
