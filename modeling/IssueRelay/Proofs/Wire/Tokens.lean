import IssueRelay.Json.Reader
import IssueRelay.Proofs.Wire.Tree
import IssueRelay.Wire.Writer

/-!
Written trees by their tokens. A tree has the same tokens under every layout, which says how each of
them is written; so what is true of every token's text is true of a tree's. There is nothing in it
but characters if the tree is well formed, and as many line breaks as the entries ask for.
-/

set_option autoImplicit false

namespace IssueRelay.Wire

/-- A part of the text of a tree. A line break is something only where the layout has an indent. -/
inductive Token
  | openBrace
  | closeBrace
  | comma
  | colon
  | number (n : UInt64)
  | quoted (s : Text)
  | lineBreak (level : Nat)

namespace Token

def text (layout : Layout) : Token → Text
  | openBrace => [.scalar '{']
  | closeBrace => [.scalar '}']
  | comma => [.scalar ',']
  | colon => Wire.colon layout
  | number n => Text.ofNat n.toNat
  | quoted s => Wire.quoted layout.asciiOnly s
  | lineBreak level => Wire.lineBreak layout level

def isLineBreak : Token → Bool
  | lineBreak _ => true
  | _ => false

def hasSurrogate : Token → Bool
  | quoted s => s.hasSurrogate
  | _ => false

end Token

mutual

def tokens (level : Nat) : Wire → List Token
  | .number n => [.number n]
  | .text s => [.quoted s]
  | .object [] => [.openBrace, .closeBrace]
  | .object (entry :: rest) =>
    .openBrace :: .lineBreak (level + 1) ::
      (entryTokens (level + 1) (entry :: rest) ++ [.lineBreak level, .closeBrace])

def entryTokens (level : Nat) : List (String × Wire) → List Token
  | [] => []
  | [(key, w)] => .quoted key :: .colon :: tokens level w
  | (key, w) :: entry :: rest =>
    .quoted key :: .colon ::
      (tokens level w ++ .comma :: .lineBreak level :: entryTokens level (entry :: rest))

end

mutual

theorem writeAt_eq_flatMap (layout : Layout) : (w : Wire) → (level : Nat) →
    writeAt layout level w = (tokens level w).flatMap (Token.text layout)
  | .number n, level => by simp [writeAt, tokens, Token.text]
  | .text s, level => by simp [writeAt, tokens, Token.text]
  | .object [], level => by simp [writeAt, tokens, Token.text]
  | .object (entry :: rest), level => by
    have hentries := writeEntries_eq_flatMap layout (entry :: rest) (level + 1)
    simp [writeAt, tokens, Token.text, hentries]

theorem writeEntries_eq_flatMap (layout : Layout) : (entries : List (String × Wire)) →
    (level : Nat) →
    writeEntries layout level entries = (entryTokens level entries).flatMap (Token.text layout)
  | [], level => rfl
  | [(key, w)], level => by
    simp [writeEntries, entryTokens, Token.text, writeAt_eq_flatMap layout w level]
  | (key, w) :: entry :: rest, level => by
    have hrest := writeEntries_eq_flatMap layout (entry :: rest) level
    simp [writeEntries, entryTokens, Token.text, writeAt_eq_flatMap layout w level, hrest]

end

theorem forall_mem_writeAt {layout : Layout} {level : Nat} {w : Wire} {P : CodePoint → Prop}
    (h : ∀ t ∈ tokens level w, ∀ c ∈ t.text layout, P c) : ∀ c ∈ writeAt layout level w, P c := by
  intro c hc
  rw [writeAt_eq_flatMap] at hc
  obtain ⟨t, ht, hct⟩ := List.mem_flatMap.mp hc
  exact h t ht c hct

theorem quoted_mem_entryTokens {level : Nat} {s : Text} {entries : List (String × Wire)}
    (h : .quoted s ∈ entryTokens level entries) :
    ∃ e ∈ entries, s = Text.ofString e.1 ∨ .quoted s ∈ tokens level e.2 := by
  induction entries with
  | nil => contradiction
  | cons e entries ih =>
    cases entries with
    | nil =>
      simp only [entryTokens, List.mem_cons, Token.quoted.injEq, reduceCtorEq, false_or] at h
      exact ⟨e, List.mem_cons_self, h⟩
    | cons e' entries =>
      simp only [entryTokens, List.mem_cons, List.mem_append, Token.quoted.injEq, reduceCtorEq,
        false_or] at h
      rcases h with hkey | htree | hrest
      · exact ⟨e, List.mem_cons_self, .inl hkey⟩
      · exact ⟨e, List.mem_cons_self, .inr htree⟩
      · obtain ⟨e'', he, h⟩ := ih hrest
        exact ⟨e'', List.mem_cons_of_mem e he, h⟩

theorem WellFormed.hasSurrogate_of_quoted {depth : Nat} {w : Wire} (hw : WellFormed depth w)
    {level : Nat} {s : Text} (h : .quoted s ∈ tokens level w) : s.hasSurrogate = false := by
  induction hw generalizing level with
  | number n => simp [tokens] at h
  | text hs =>
    obtain rfl : s = _ := by simpa [tokens] using h
    exact hs
  | @object depth entries keys each ih =>
    cases entries with
    | nil => simp [tokens] at h
    | cons e entries =>
      have hentries : .quoted s ∈ entryTokens (level + 1) (e :: entries) := by
        simpa [tokens] using h
      obtain ⟨e', he, rfl | htree⟩ := quoted_mem_entryTokens hentries
      · exact Text.hasSurrogate_ofString e'.1
      · exact ih e' he htree

theorem WellFormed.hasSurrogate_tokens {depth : Nat} {w : Wire} (hw : WellFormed depth w)
    (level : Nat) : (tokens level w).any Token.hasSurrogate = false := by
  refine List.any_eq_false.mpr fun t ht => ?_
  cases t with
  | quoted s => exact Bool.eq_false_iff.mp (hw.hasSurrogate_of_quoted ht)
  | _ => exact Bool.false_ne_true

theorem mem_entryTokens {level : Nat} {t : Token} {entries : List (String × Wire)} {key : String}
    {w : Wire} (he : (key, w) ∈ entries) (ht : t ∈ tokens level w) :
    t ∈ entryTokens level entries := by
  induction entries with
  | nil => contradiction
  | cons e entries ih =>
    cases entries with
    | nil =>
      obtain rfl := List.mem_singleton.mp he
      simp [entryTokens, ht]
    | cons e' entries =>
      obtain rfl | he := List.mem_cons.mp he
      · simp [entryTokens, ht]
      · simp [entryTokens, ih he]

theorem At.quoted_mem_tokens {keys : List String} {w : Wire} {s : Text} (h : At keys w (.text s))
    (level : Nat) : .quoted s ∈ tokens level w := by
  generalize hx : Wire.text s = x at h
  induction h generalizing level with
  | here w =>
    subst hx
    exact List.mem_singleton_self _
  | @under key keys entries v x mem h ih =>
    have hentries := mem_entryTokens mem (ih (level + 1) hx)
    cases entries with
    | nil => contradiction
    | cons e entries => simp [tokens, hentries]

def IndentsBlank (layout : Layout) : Prop :=
  ∀ unit, layout.indent = some unit → ∀ c ∈ unit, Json.Reader.isBlank c = true

def IndentsSpaces (layout : Layout) : Prop :=
  ∀ unit, layout.indent = some unit → ∀ c ∈ unit, c = .scalar ' '

theorem mem_lineBreak {layout : Layout} {level : Nat} {c : CodePoint}
    (h : c ∈ lineBreak layout level) :
    ∃ unit, layout.indent = some unit ∧ (c = .scalar '\n' ∨ c ∈ unit) := by
  unfold lineBreak at h
  split at h
  · contradiction
  · rename_i unit hunit
    refine ⟨unit, hunit, (List.mem_cons.mp h).imp_right fun hc => ?_⟩
    obtain ⟨s, hs, hc⟩ := List.mem_flatten.mp hc
    rwa [List.eq_of_mem_replicate hs] at hc

theorem isBlank_lineBreak {layout : Layout} (hl : IndentsBlank layout) (level : Nat) :
    ∀ c ∈ lineBreak layout level, Json.Reader.isBlank c = true := by
  intro c hc
  obtain ⟨unit, hunit, rfl | hc⟩ := mem_lineBreak hc
  · rfl
  · exact hl unit hunit c hc

theorem isSurrogate_of_isBlank {c : CodePoint} (h : Json.Reader.isBlank c = true) :
    c.isSurrogate = false := by
  cases c with
  | scalar c => rfl
  | surrogate i => contradiction

theorem hasSurrogate_escapeUnits (c : CodePoint) : (escapeUnits c).hasSurrogate = false := by
  unfold escapeUnits
  split <;> simp [escapeUnit]

theorem hasSurrogate_spell (asciiOnly : Bool) (c : CodePoint) :
    (spell asciiOnly c).hasSurrogate = (!asciiOnly && c.isSurrogate) := by
  cases c with
  | scalar x =>
    unfold spell
    split
    · simp
    · split
      · simp [hasSurrogate_escapeUnits]
      · simp
  | surrogate i =>
    have hletter : escapeLetter? (.surrogate i) = none := rfl
    have hvalue : 0x20 < (CodePoint.surrogate i).value ∧ 0x7E < (CodePoint.surrogate i).value := by
      simp only [CodePoint.value]
      omega
    cases asciiOnly with
    | false => simp [spell, hletter, Nat.not_lt.mpr (Nat.le_of_lt hvalue.1)]
    | true => simp [spell, hletter, hvalue.2, hasSurrogate_escapeUnits]

theorem hasSurrogate_quoted (asciiOnly : Bool) (s : Text) :
    (quoted asciiOnly s).hasSurrogate = (!asciiOnly && s.hasSurrogate) := by
  have hspell : Text.hasSurrogate (s.flatMap (spell asciiOnly)) = (!asciiOnly && s.hasSurrogate) := by
    induction s with
    | nil => simp
    | cons c s ih => simp [hasSurrogate_spell, ih, Bool.and_or_distrib_left]
  simp [quoted, hspell]

theorem hasSurrogate_colon (layout : Layout) : (colon layout).hasSurrogate = false := by
  unfold colon
  split <;> rfl

theorem Token.hasSurrogate_text {layout : Layout} (hl : IndentsBlank layout) (t : Token) :
    (t.text layout).hasSurrogate = (!layout.asciiOnly && t.hasSurrogate) := by
  cases t with
  | openBrace | closeBrace | comma => simp [text, Token.hasSurrogate]
  | colon => simp [text, Token.hasSurrogate, hasSurrogate_colon]
  | number n => simp [text, Token.hasSurrogate]
  | quoted s => exact hasSurrogate_quoted layout.asciiOnly s
  | lineBreak level =>
    have hbreak : (Wire.lineBreak layout level).hasSurrogate = false :=
      Text.hasSurrogate_eq_false.mpr fun c hc =>
        isSurrogate_of_isBlank (isBlank_lineBreak hl level c hc)
    simp [text, Token.hasSurrogate, hbreak]

/-- There are surrogates in the text of a tree if there are some in its texts and they are not
escaped. -/
theorem hasSurrogate_writeAt {layout : Layout} (hl : IndentsBlank layout) (level : Nat) (w : Wire) :
    (writeAt layout level w).hasSurrogate =
      (!layout.asciiOnly && (tokens level w).any Token.hasSurrogate) := by
  rw [writeAt_eq_flatMap]
  induction tokens level w with
  | nil => simp
  | cons t ts ih => simp [Token.hasSurrogate_text hl, ih, Bool.and_or_distrib_left]

mutual

def lineBreaks : Wire → Nat
  | .number _ => 0
  | .text _ => 0
  | .object [] => 0
  | .object (entry :: rest) => entryLineBreaks (entry :: rest) + 1

def entryLineBreaks : List (String × Wire) → Nat
  | [] => 0
  | (_, w) :: rest => w.lineBreaks + 1 + entryLineBreaks rest

end

mutual

theorem countP_tokens : (w : Wire) → (level : Nat) →
    (tokens level w).countP Token.isLineBreak = w.lineBreaks
  | .number n, level => rfl
  | .text s, level => rfl
  | .object [], level => rfl
  | .object (entry :: rest), level => by
    have hentries := countP_entryTokens (entry :: rest) (level + 1)
    simp only [tokens, lineBreaks, entryLineBreaks, List.countP_cons, List.countP_append,
      List.countP_nil, Token.isLineBreak, Bool.false_eq_true, ↓reduceIte] at hentries ⊢
    omega

/-- Every entry but the first has a line break before it. -/
theorem countP_entryTokens : (entries : List (String × Wire)) → (level : Nat) →
    (entryTokens level entries).countP Token.isLineBreak = entryLineBreaks entries - 1
  | [], level => rfl
  | [(key, w)], level => by
    simp only [entryTokens, entryLineBreaks, List.countP_cons, Token.isLineBreak,
      countP_tokens w level, Bool.false_eq_true, ↓reduceIte]
    omega
  | (key, w) :: entry :: rest, level => by
    have hrest := countP_entryTokens (entry :: rest) level
    simp only [entryTokens, entryLineBreaks, List.countP_cons, List.countP_append,
      Token.isLineBreak, countP_tokens w level, Bool.false_eq_true, ↓reduceIte] at hrest ⊢
    omega

end

end IssueRelay.Wire
