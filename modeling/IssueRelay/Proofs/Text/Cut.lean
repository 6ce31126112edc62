import IssueRelay.Text.Cut

set_option autoImplicit false

namespace IssueRelay.Text

theorem after?_eq_some {word t rest : Text} : after? word t = some rest ↔ t = word ++ rest := by
  induction word generalizing t with
  | nil => simp [after?]
  | cons w word ih =>
    cases t with
    | nil => simp [after?]
    | cons c t =>
      rw [after?, List.cons_append, List.cons.injEq, @eq_comm _ c w]
      split
      · rename_i hc
        simp [hc, ih]
      · rename_i hc
        simp [hc]

theorem isSome_after? {word t : Text} : (after? word t).isSome = true ↔ word <+: t := by
  rw [Option.isSome_iff_exists]
  simp only [after?_eq_some]
  exact exists_congr fun _ => eq_comm

theorem before?_nil (word : Text) : before? word [] = if word = [] then some [] else none := rfl

theorem before?_cons (word : Text) (c : CodePoint) (t : Text) :
    before? word (c :: t) = if word <+: c :: t then some [] else (before? word t).map (c :: ·) := by
  simp only [before?, isSome_after?]

theorem before?_eq_none {word t : Text} : before? word t = none ↔ ¬word <:+: t := by
  induction t with
  | nil => simp [before?_nil]
  | cons c t ih =>
    rw [before?_cons, List.infix_cons_iff, not_or]
    split
    · rename_i hword
      simp [hword]
    · rename_i hword
      simp [hword, ih]

/-- What is found before a word is the shortest front that the word follows. -/
theorem shortest_of_before? {word t s : Text} (h : before? word t = some s) :
    s ++ word <+: t ∧ ∀ s', s' ++ word <+: t → s.length ≤ s'.length := by
  induction t generalizing s with
  | nil =>
    rw [before?_nil] at h
    split at h
    · rename_i hword
      cases h
      simp [hword]
    · contradiction
  | cons c t ih =>
    rw [before?_cons] at h
    split at h
    · rename_i hword
      cases h
      exact ⟨hword, fun _ _ => Nat.zero_le _⟩
    · rename_i hword
      obtain ⟨s, hs, rfl⟩ := Option.map_eq_some_iff.mp h
      obtain ⟨hfront, hleast⟩ := ih hs
      refine ⟨List.cons_prefix_cons.mpr ⟨rfl, hfront⟩, fun s' hs' => ?_⟩
      cases s' with
      | nil => exact absurd hs' hword
      | cons c' s' =>
        have hle := hleast s' (List.cons_prefix_cons.mp hs').2
        simpa using hle

theorem before?_sublist {word t s : Text} (h : before? word t = some s) : s.Sublist t :=
  ((List.prefix_append s word).trans (shortest_of_before? h).1).sublist

theorem before?_append {w : CodePoint} {t : Text} (ht : w ∉ t) (word rest : Text) :
    before? (w :: word) (t ++ rest) = (before? (w :: word) rest).map (t ++ ·) := by
  induction t with
  | nil => simp
  | cons c t ih =>
    rw [List.mem_cons, not_or] at ht
    have hword : ¬w :: word <+: c :: (t ++ rest) := fun h => ht.1 (List.cons_prefix_cons.mp h).1
    rw [List.cons_append, before?_cons, if_neg hword, ih ht.2, Option.map_map]
    rfl

/-- A word that has its last code point nowhere else ends no later than that code point first comes
after the text that it begins in. -/
theorem prefix_append_cons {c : CodePoint} {word : Text} (hword : c ∉ word) (t rest : Text) :
    word ++ [c] <+: t ++ c :: rest ↔ word ++ [c] <+: t ++ [c] := by
  induction t generalizing word with
  | nil =>
    cases word with
    | nil => simp
    | cons w word =>
      have hw : w ≠ c := fun h => hword (h ▸ List.mem_cons_self)
      simp [hw]
  | cons d t ih =>
    cases word with
    | nil => simp
    | cons w word =>
      have hrest := ih fun h => hword (List.mem_cons_of_mem w h)
      simp only [List.cons_append, List.cons_prefix_cons, hrest]

theorem cutAt_append {c : CodePoint} {t : Text} (ht : c ∉ t) (rest : Text) :
    cutAt c (t ++ c :: rest) = (t, some rest) := by
  induction t with
  | nil => simp [cutAt]
  | cons d t ih =>
    rw [List.mem_cons, not_or] at ht
    rw [List.cons_append, cutAt, if_neg (Ne.symm ht.1), ih ht.2]

theorem fst_cutAt_sublist (c : CodePoint) (t : Text) : (cutAt c t).1.Sublist t := by
  induction t with
  | nil => exact .slnil
  | cons d t ih =>
    rw [cutAt]
    split
    · exact List.nil_sublist _
    · exact ih.cons_cons d

theorem snd_cutAt_sublist {c : CodePoint} {t rest : Text} (h : (cutAt c t).2 = some rest) :
    rest.Sublist t := by
  induction t with
  | nil => contradiction
  | cons d t ih =>
    rw [cutAt] at h
    split at h
    · cases h
      exact List.sublist_cons_self d _
    · exact (ih h).cons d

end IssueRelay.Text
