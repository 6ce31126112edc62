import IssueRelay.Text.Basic

set_option autoImplicit false

namespace IssueRelay.Text

@[simp] theorem hasSurrogate_nil : hasSurrogate [] = false := rfl

@[simp] theorem hasSurrogate_cons (c : CodePoint) (t : Text) :
    hasSurrogate (c :: t) = (c.isSurrogate || t.hasSurrogate) := by simp [hasSurrogate]

@[simp] theorem hasSurrogate_append (s t : Text) :
    hasSurrogate (s ++ t) = (s.hasSurrogate || t.hasSurrogate) := by simp [hasSurrogate]

@[simp] theorem isSurrogate_scalar (c : Char) : (CodePoint.scalar c).isSurrogate = false := rfl

@[simp] theorem isSurrogate_surrogate (i : Fin 2048) :
    (CodePoint.surrogate i).isSurrogate = true := rfl

theorem hasSurrogate_eq_false {t : Text} :
    t.hasSurrogate = false ↔ ∀ c ∈ t, c.isSurrogate = false := by simp [hasSurrogate]

@[simp] theorem hasSurrogate_ofChars (cs : List Char) : (ofChars cs).hasSurrogate = false := by
  induction cs with
  | nil => rfl
  | cons c cs ih => simpa [ofChars] using ih

@[simp] theorem hasSurrogate_ofString (s : String) : (ofString s).hasSurrogate = false :=
  hasSurrogate_ofChars s.toList

@[simp] theorem hasSurrogate_ofNat (n : Nat) : (ofNat n).hasSurrogate = false :=
  hasSurrogate_ofChars _

@[simp] theorem hasSurrogate_ofHex (width n : Nat) : (ofHex width n).hasSurrogate = false := by
  induction width generalizing n with
  | zero => rfl
  | succ width ih => simp [ofHex, ih]

theorem exists_chars {t : Text} (h : t.hasSurrogate = false) : ∃ cs, t = ofChars cs := by
  induction t with
  | nil => exact ⟨[], rfl⟩
  | cons c t ih =>
    simp only [hasSurrogate_cons, Bool.or_eq_false_iff] at h
    obtain ⟨cs, hcs⟩ := ih h.2
    cases c with
    | scalar x => exact ⟨x :: cs, by rw [hcs]; rfl⟩
    | surrogate i => simp at h

theorem hasSurrogate_of_sublist {s t : Text} (hs : s.Sublist t) (h : t.hasSurrogate = false) :
    s.hasSurrogate = false := by
  rw [hasSurrogate_eq_false] at *
  intro c hc
  exact h c (hs.mem hc)

theorem ofChars_injective {cs ds : List Char} (h : ofChars cs = ofChars ds) : cs = ds :=
  (List.map_inj_right fun _ _ => CodePoint.scalar.inj).mp h

theorem ofString_injective {s t : String} (h : ofString s = ofString t) : s = t :=
  String.toList_inj.mp (ofChars_injective h)

theorem ofString_inj {s t : String} : ofString s = ofString t ↔ s = t :=
  ⟨ofString_injective, congrArg ofString⟩

end IssueRelay.Text
