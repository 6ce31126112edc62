import IssueRelay.Proofs.Json.Decimal
import IssueRelay.Proofs.Text.WellFormed
import IssueRelay.Proofs.Wire.Tokens
import Mathlib.Data.List.Count

set_option autoImplicit false

namespace IssueRelay.Wire

open Json

/-- Code points that can stand within a line: no controls, and ASCII alone if that is asked for. -/
def Inline (layout : Layout) (c : CodePoint) : Prop :=
  0x20 ≤ c.value ∧ (layout.asciiOnly = true → c.value ≤ 0x7E)

variable {layout : Layout}

theorem inline_scalar {c : Char} (h : 0x20 ≤ c.toNat ∧ c.toNat ≤ 0x7E) :
    Inline layout (.scalar c) := ⟨h.1, fun _ => h.2⟩

theorem inline_digitChar (d : Fin 16) : Inline layout (.scalar d.val.digitChar) :=
  inline_scalar (by revert d; decide)

theorem inline_ofHex (width n : Nat) : ∀ c ∈ Text.ofHex width n, Inline layout c := by
  induction width generalizing n with
  | zero => nofun
  | succ width ih =>
    rw [Text.ofHex, List.forall_mem_append, List.forall_mem_singleton]
    exact ⟨ih (n / 16), inline_digitChar ⟨n % 16, by omega⟩⟩

theorem inline_ofNat (n : Nat) : ∀ c ∈ Text.ofNat n, Inline layout c := by
  obtain ⟨d, ds, htext, -, -⟩ := exists_digits n
  intro c hc
  rw [htext] at hc
  obtain ⟨d', -, rfl⟩ := List.mem_map.mp hc
  exact inline_digitChar ⟨d'.val, by omega⟩

theorem inline_escapeUnit (unit : Nat) : ∀ c ∈ escapeUnit unit, Inline layout c := by
  rw [escapeUnit, List.forall_mem_cons, List.forall_mem_cons]
  exact ⟨inline_scalar (by decide), inline_scalar (by decide), inline_ofHex 4 unit⟩

theorem inline_escapeUnits (c : CodePoint) : ∀ d ∈ escapeUnits c, Inline layout d := by
  unfold escapeUnits
  split
  · exact inline_escapeUnit c.value
  · exact List.forall_mem_append.mpr ⟨inline_escapeUnit _, inline_escapeUnit _⟩

theorem inline_escapeLetter {c : CodePoint} {letter : Char} (h : escapeLetter? c = some letter) :
    Inline layout (.scalar letter) := by
  unfold escapeLetter? at h
  split at h <;> cases h <;> exact inline_scalar (by decide)

theorem inline_spell (c : CodePoint) : ∀ d ∈ spell layout.asciiOnly c, Inline layout d := by
  unfold spell
  split
  · rename_i letter hletter
    rw [List.forall_mem_cons, List.forall_mem_singleton]
    exact ⟨inline_scalar (by decide), inline_escapeLetter hletter⟩
  · split
    · exact inline_escapeUnits c
    · rename_i hraw
      rw [List.forall_mem_singleton]
      exact ⟨by omega, fun hascii => by
        have := not_and.mp (not_or.mp hraw).2 hascii
        omega⟩

theorem inline_quoted (s : Text) : ∀ c ∈ quoted layout.asciiOnly s, Inline layout c := by
  rw [quoted, List.forall_mem_cons, List.forall_mem_append, List.forall_mem_singleton]
  refine ⟨inline_scalar (by decide), fun c hc => ?_, inline_scalar (by decide)⟩
  obtain ⟨d, -, hd⟩ := List.mem_flatMap.mp hc
  exact inline_spell d c hd

theorem inline_colon : ∀ c ∈ colon layout, Inline layout c := by
  have hspace : Inline layout (.scalar ' ') := inline_scalar (by decide)
  have hcolon : Inline layout (.scalar ':') := inline_scalar (by decide)
  unfold colon
  split <;> simp [hspace, hcolon]

theorem Token.inline_text {t : Token} (h : t.isLineBreak = false) :
    ∀ c ∈ t.text layout, Inline layout c := by
  cases t with
  | openBrace | closeBrace | comma =>
    exact List.forall_mem_singleton.mpr (inline_scalar (by decide))
  | colon => exact inline_colon
  | number n => exact inline_ofNat n.toNat
  | quoted s => exact inline_quoted s
  | lineBreak level => contradiction

theorem inline_or_lineFeed (hl : IndentsSpaces layout) {level : Nat} {w : Wire} :
    ∀ c ∈ writeAt layout level w,
      Inline layout c ∨ c = .scalar '\n' ∧ layout.indent ≠ none := by
  refine forall_mem_writeAt fun t _ c hc => ?_
  cases ht : t.isLineBreak with
  | false => exact .inl (t.inline_text ht c hc)
  | true =>
    cases t with
    | lineBreak level' =>
      obtain ⟨unit, hunit, rfl | hc⟩ := mem_lineBreak hc
      · exact .inr ⟨rfl, by simp [hunit]⟩
      · rw [hl unit hunit c hc]
        exact .inl (inline_scalar (by decide))
    | _ => contradiction

theorem count_lineBreak (hl : IndentsSpaces layout) (level : Nat) :
    (lineBreak layout level).count (.scalar '\n') = if layout.indent.isSome then 1 else 0 := by
  unfold lineBreak
  split
  · rename_i hnone
    rw [hnone]
    rfl
  · rename_i unit hunit
    have hfeed : .scalar '\n' ∉ (List.replicate level unit).flatten := by
      intro hmem
      obtain ⟨s, hs, hc⟩ := List.mem_flatten.mp hmem
      rw [List.eq_of_mem_replicate hs] at hc
      exact absurd (hl unit hunit _ hc) (by decide)
    rw [List.count_cons_self, List.count_eq_zero_of_not_mem hfeed, hunit]
    rfl

theorem Token.count_text (hl : IndentsSpaces layout) (t : Token) :
    (t.text layout).count (.scalar '\n') =
      if layout.indent.isSome && t.isLineBreak then 1 else 0 := by
  cases ht : t.isLineBreak with
  | false =>
    have hfeed : .scalar '\n' ∉ t.text layout :=
      fun hmem => absurd (t.inline_text ht _ hmem).1 (by decide)
    rw [List.count_eq_zero_of_not_mem hfeed, Bool.and_false]
    rfl
  | true =>
    cases t with
    | lineBreak level => rw [Bool.and_true, text, count_lineBreak hl]
    | _ => contradiction

theorem count_writeAt (hl : IndentsSpaces layout) (level : Nat) (w : Wire) :
    (writeAt layout level w).count (.scalar '\n') =
      if layout.indent.isSome then w.lineBreaks else 0 := by
  have htokens (ts : List Token) : (ts.flatMap (Token.text layout)).count (.scalar '\n') =
      if layout.indent.isSome then ts.countP Token.isLineBreak else 0 := by
    induction ts with
    | nil => simp
    | cons t ts ih =>
      rw [List.flatMap_cons, List.count_append, ih, t.count_text hl, List.countP_cons]
      cases layout.indent.isSome <;> cases t.isLineBreak <;> simp [Nat.add_comm]
  rw [writeAt_eq_flatMap, htokens, countP_tokens]

theorem entryLineBreaks_perm {entries entries' : List (String × Wire)}
    (h : entries.Perm entries') : entryLineBreaks entries = entryLineBreaks entries' := by
  induction h with
  | nil => rfl
  | cons e _ ih => rw [entryLineBreaks, entryLineBreaks, ih]
  | swap e e' _ =>
    simp only [entryLineBreaks]
    omega
  | trans _ _ ih ih' => exact ih.trans ih'

theorem lineBreaks_congr {entries entries' : List (String × Wire)}
    (h : entryLineBreaks entries = entryLineBreaks entries') :
    lineBreaks (.object entries) = lineBreaks (.object entries') := by
  cases entries <;> cases entries' <;> simp only [entryLineBreaks, lineBreaks] at h ⊢ <;> omega

mutual

theorem lineBreaks_sorted : (w : Wire) → w.sorted.lineBreaks = w.lineBreaks
  | .number _ => rfl
  | .text _ => rfl
  | .object entries =>
    lineBreaks_congr
      ((entryLineBreaks_perm (List.mergeSort_perm _ _)).trans (entryLineBreaks_sortedEach entries))

theorem entryLineBreaks_sortedEach : (entries : List (String × Wire)) →
    entryLineBreaks (sortedEach entries) = entryLineBreaks entries
  | [] => rfl
  | (key, w) :: rest => by
    rw [sortedEach, entryLineBreaks, entryLineBreaks, lineBreaks_sorted w,
      entryLineBreaks_sortedEach rest]

end

theorem count_write (hl : IndentsSpaces layout) (w : Wire) :
    (w.write layout).count (.scalar '\n') =
      if layout.indent.isSome then w.lineBreaks else 0 := by
  have hsorted : (if layout.sortKeys then w.sorted else w).lineBreaks = w.lineBreaks := by
    split
    · exact lineBreaks_sorted w
    · rfl
  rw [write, count_writeAt hl, hsorted]

/-- The octets of a tree's text: a line feed is the only control among them, and stands only where
there is an indent. -/
theorem octet_write (hl : IndentsSpaces layout) {w : Wire} {octets : List UInt8}
    (h : Utf8.encode (w.write layout) = .ok octets) {b : UInt8} (hb : b ∈ octets) :
    (b < 0x20 → b = 0x0A ∧ layout.indent ≠ none) ∧
      (layout.asciiOnly = true → b = 0x0A ∨ 0x20 ≤ b ∧ b ≤ 0x7E) := by
  obtain ⟨cs, htext, rfl⟩ := Utf8.encode_eq_ok.mp h
  obtain ⟨c, hc, hoctet⟩ := Utf8.exists_char_of_mem hb
  have hmem : .scalar c ∈ w.write layout := htext ▸ List.mem_map_of_mem hc
  simp only [UInt8.lt_iff_toNat_lt, UInt8.le_iff_toNat_le, ← UInt8.toNat_inj, UInt8.reduceToNat]
  obtain ⟨hlow, hhigh⟩ | ⟨hfeed, hindent⟩ := inline_or_lineFeed hl _ hmem
  · simp only [CodePoint.value] at hlow hhigh
    refine ⟨fun hcontrol => by omega, fun hascii => .inr ?_⟩
    have := hhigh hascii
    omega
  · obtain rfl := CodePoint.scalar.inj hfeed
    have hten : b.toNat = 10 := hoctet.resolve_right fun hpast => absurd hpast.2 (by decide)
    exact ⟨fun _ => ⟨hten, hindent⟩, fun _ => .inl hten⟩

theorem count_octets_write (hl : IndentsSpaces layout) {w : Wire} {octets : List UInt8}
    (h : Utf8.encode (w.write layout) = .ok octets) :
    octets.count 0x0A = if layout.indent.isSome then w.lineBreaks else 0 := by
  obtain ⟨cs, htext, rfl⟩ := Utf8.encode_eq_ok.mp h
  have hchars : (w.write layout).count (.scalar '\n') = cs.count '\n' :=
    htext ▸ List.count_map_of_injective cs CodePoint.scalar (fun _ _ => CodePoint.scalar.inj) '\n'
  rw [← count_write hl, hchars]
  exact Utf8.count_encodeChars '\n' (by decide) cs

end IssueRelay.Wire
