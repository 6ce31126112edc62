import IssueRelay.Proofs.Json.Neighbours
import IssueRelay.Proofs.Wire.Tree
import IssueRelay.Wire.Writer

/-!
Indents that are no blanks. What is indented with one is not read where an object ends inside of
another one: the indent stands behind the first brace, and so it has to begin with a quote; and it
stands behind the quote with which the line before the inner closing brace ends, where no quote may
follow.
-/

set_option autoImplicit false

namespace IssueRelay.Wire

def AllTexts (entries : List (String × Wire)) : Prop :=
  entries ≠ [] ∧ ∀ e ∈ entries, ∃ s, e.2 = .text s

theorem AllTexts.sortedEntries {entries : List (String × Wire)} (h : AllTexts entries) :
    AllTexts (sortedEntries entries) := by
  obtain ⟨hne, htexts⟩ := h
  constructor
  · intro hnil
    have hkeys := keys_sortedEntries entries
    rw [hnil, List.map_nil, List.nil_perm, List.map_eq_nil_iff] at hkeys
    exact hne hkeys
  · rintro ⟨key, w⟩ he
    obtain ⟨v, hv, rfl⟩ := mem_sortedEntries.mp he
    obtain ⟨s, rfl⟩ := htexts _ hv
    exact ⟨s, rfl⟩

theorem AllTexts.exists_front {entries : List (String × Wire)} (h : AllTexts entries)
    (layout : Layout) (level : Nat) :
    ∃ front, writeEntries layout level entries = front ++ [.scalar '"'] := by
  obtain ⟨hne, htexts⟩ := h
  induction entries with
  | nil => contradiction
  | cons e entries ih =>
    obtain ⟨key, w⟩ := e
    obtain ⟨⟨s, hs⟩, hrest⟩ := List.forall_mem_cons.mp htexts
    obtain rfl : w = .text s := hs
    cases entries with
    | nil =>
      have hquoted : quoted layout.asciiOnly s =
        (.scalar '"' :: s.flatMap (spell layout.asciiOnly)) ++ [.scalar '"'] := rfl
      rw [writeEntries, writeAt, hquoted, ← List.append_assoc]
      exact ⟨_, rfl⟩
    | cons e' entries =>
      obtain ⟨front, hfront⟩ := ih nofun hrest
      rw [writeEntries, hfront, ← List.append_assoc, ← List.cons_append, ← List.append_assoc]
      exact ⟨_, rfl⟩

variable {layout : Layout} {unit : Text}

/-- What is written of an object with one entry, which is an object of texts: the indent follows the
first brace, and the quote at the end of a line. -/
theorem write_nested (hunit : layout.indent = some unit) (key : String)
    {entries : List (String × Wire)} (h : AllTexts entries) :
    (∃ name, writeAt layout 0 (.object [(key, .object entries)]) =
      .scalar '{' :: .scalar '\n' :: (unit ++ .scalar '"' :: name)) ∧
    ∃ front back, writeAt layout 0 (.object [(key, .object entries)]) =
      front ++ .scalar '"' :: .scalar '\n' :: (unit ++ back) := by
  have hbreak : lineBreak layout 1 = .scalar '\n' :: unit := by
    rw [lineBreak, hunit]
    simp
  obtain ⟨front, hfront⟩ := h.exists_front layout 2
  cases entries with
  | nil => exact absurd rfl h.1
  | cons e entries =>
    have hinner : writeAt layout 1 (.object (e :: entries)) =
        .scalar '{' :: (lineBreak layout 2 ++ (front ++ [.scalar '"']) ++ .scalar '\n' :: unit ++
          [.scalar '}']) := by rw [writeAt, hfront, hbreak]
    have hwrite : writeAt layout 0 (.object [(key, .object (e :: entries))]) =
        .scalar '{' :: (.scalar '\n' :: unit ++ (quoted layout.asciiOnly key ++ colon layout ++
          writeAt layout 1 (.object (e :: entries))) ++ lineBreak layout 0 ++ [.scalar '}']) := by
      rw [writeAt, writeEntries, hbreak]
    rw [hwrite, hinner]
    constructor
    · simp only [quoted, List.cons_append, List.append_assoc]
      exact ⟨_, rfl⟩
    · refine ⟨.scalar '{' :: (.scalar '\n' :: unit ++ (quoted layout.asciiOnly key ++ colon layout ++
        .scalar '{' :: (lineBreak layout 2 ++ front))),
        .scalar '}' :: (lineBreak layout 0 ++ [.scalar '}']), ?_⟩
      simp

theorem exists_not_blank {s : Text} (h : s.all Json.Reader.isBlank = false) :
    ∃ blanks c rest, s = blanks ++ c :: rest ∧ (∀ b ∈ blanks, Json.Reader.isBlank b = true) ∧
      Json.Reader.isBlank c = false := by
  have hfound : (s.find? (!Json.Reader.isBlank ·)).isSome = true := by
    simpa [List.find?_isSome] using h
  obtain ⟨c, hc⟩ := Option.isSome_iff_exists.mp hfound
  obtain ⟨hnot, blanks, rest, rfl, hblanks⟩ := List.find?_eq_some_iff_append.mp hc
  exact ⟨blanks, c, rest, rfl, by simpa using hblanks, by simpa using hnot⟩

theorem read_nested_ne (hunit : layout.indent = some unit)
    (hblank : unit.all Json.Reader.isBlank = false) (key : String)
    {entries : List (String × Wire)} (h : AllTexts entries) (v : Json) :
    Json.read (writeAt layout 0 (.object [(key, .object entries)])) ≠ .ok v := by
  obtain ⟨⟨name, hname⟩, front, back, hfront⟩ := write_nested hunit key h
  obtain ⟨blanks, c, rest, rfl, hblanks, hc⟩ := exists_not_blank hblank
  intro hread
  have hskip : Json.Reader.skip (.scalar '\n' :: (blanks ++ c :: rest ++ .scalar '"' :: name)) =
      c :: (rest ++ .scalar '"' :: name) := by
    have hline : ∀ b ∈ .scalar '\n' :: blanks, Json.Reader.isBlank b = true :=
      List.forall_mem_cons.mpr ⟨rfl, hblanks⟩
    rw [List.append_assoc, ← List.cons_append, Json.Reader.skip_blanks hline,
      List.cons_append, Json.Reader.skip_of_not_blank hc]
  have hbrace := Json.skip_of_read_brace (hname ▸ hread)
  rw [hskip] at hbrace
  obtain ⟨_, hquote⟩ | ⟨_, hclose, hend⟩ := hbrace
  -- the indent begins with a quote, and there is one at the end of a line before it
  · obtain ⟨rfl, -⟩ := List.cons.inj hquote
    rw [hfront, List.append_assoc] at hread
    exact Json.read_ne_of_adjacent_quotes front (rest ++ back) hblanks v hread
  -- the indent closes the object, and a key is left over
  · obtain ⟨-, rfl⟩ := List.cons.inj hclose
    have hquote := hend (.scalar '"') (by simp)
    contradiction

/-- An object with one entry, which is an object of texts, is not read if it is written with an indent
that is no blank, be the keys in order or not. -/
theorem read_write_nested_ne (hunit : layout.indent = some unit)
    (hblank : unit.all Json.Reader.isBlank = false) (key : String)
    {entries : List (String × Wire)} (h : AllTexts entries) (v : Json) :
    Json.read (write layout (.object [(key, .object entries)])) ≠ .ok v := by
  have hsorted : sorted (.object [(key, .object entries)]) =
      .object [(key, .object (Wire.sortedEntries entries))] := by
    simp [sorted_object, Wire.sortedEntries, sortedEach]
  rw [write]
  split
  · rw [hsorted]
    exact read_nested_ne hunit hblank key h.sortedEntries v
  · exact read_nested_ne hunit hblank key h v

end IssueRelay.Wire
