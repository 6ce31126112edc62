import IssueRelay.Proofs.Json.Blanks
import IssueRelay.Proofs.Record.RoundTrip

set_option autoImplicit false

namespace IssueRelay

open Json

def Layout.bare (layout : Layout) : Layout := { layout with indent := none }

namespace Wire

variable {layout : Layout}

theorem leaves_ofNat (x n : Nat) :
    Leaves (.containers n) (.containers n) (Text.ofNat x) (Text.ofNat x) := by
  obtain ⟨d, ds, htext, -, -⟩ := exists_digits x
  rw [htext]
  exact .digits (d :: ds) n

theorem leaves_quoted (asciiOnly : Bool) (s : Text) (n : Nat) :
    Leaves (.containers n) (.containers n) (quoted asciiOnly s) (quoted asciiOnly s) := by
  obtain ⟨sp, htext, -⟩ := exists_quoted asciiOnly s
  rw [← htext]
  exact sp.leaves n

theorem leaves_colon (n : Nat) :
    Leaves (.containers n) (.containers n) (colon layout) (colon layout.bare) := by
  obtain ⟨g, hcolon⟩ := exists_colon layout
  have hmark : Leaves (.containers n) (.containers n) [.scalar ':'] [.scalar ':'] := .kept rfl rfl
  rw [hcolon]
  exact hmark.append (.blanks (isBlank_gap g) n)

theorem Token.leaves_text (hl : IndentsBlank layout) (t : Token) (n : Nat) :
    ∃ m, Leaves (.containers n) (.containers m) (t.text layout) (t.text layout.bare) := by
  cases t with
  | openBrace => exact ⟨n + 1, .kept rfl rfl⟩
  | closeBrace => exact ⟨n - 1, .kept rfl rfl⟩
  | comma => exact ⟨n, .kept rfl rfl⟩
  | colon => exact ⟨n, leaves_colon n⟩
  | number x => exact ⟨n, leaves_ofNat x.toNat n⟩
  | quoted s => exact ⟨n, leaves_quoted layout.asciiOnly s n⟩
  | lineBreak level => exact ⟨n, .blanks (isBlank_lineBreak hl level) n⟩

theorem exists_leaves_flatMap (hl : IndentsBlank layout) (ts : List Token) (n : Nat) :
    ∃ m, Leaves (.containers n) (.containers m) (ts.flatMap (Token.text layout))
      (ts.flatMap (Token.text layout.bare)) := by
  induction ts generalizing n with
  | nil => exact ⟨n, .refl _⟩
  | cons t ts ih =>
    obtain ⟨m, ht⟩ := t.leaves_text hl n
    obtain ⟨m', hts⟩ := ih m
    exact ⟨m', ht.append hts⟩

theorem unblanked_write (hl : IndentsBlank layout) (w : Wire) :
    unblanked (w.write layout) = w.write layout.bare := by
  have hsort : layout.bare.sortKeys = layout.sortKeys := rfl
  rw [write, write, hsort, writeAt_eq_flatMap, writeAt_eq_flatMap]
  obtain ⟨m, hleaves⟩ := exists_leaves_flatMap hl (tokens 0 _) 0
  exact hleaves.unblanked

end Wire

theorem OutputSettings.layout_bare {s : OutputSettings} {layout : Layout}
    (h : s.layout = .ok layout) : { s with indent := .null }.layout = .ok layout.bare := by
  obtain ⟨-, hsort, hascii⟩ := layout_eq_ok.mp h
  exact layout_eq_ok.mpr ⟨rfl, hsort, hascii⟩

/-- An indent of blanks adds nothing but blanks outside of strings: without these the text is what
is written with the same settings and no indent. -/
theorem Record.encode_unblanked {r : Record} (hr : r.hasSurrogate = false) {s : OutputSettings}
    (hs : s.indentsBlank = true) (excluded : List String) :
    ∃ text octets octets', r.encode excluded s = .ok octets ∧ Utf8.encode text = .ok octets ∧
      r.encode excluded { s with indent := .null } = .ok octets' ∧
      Utf8.encode (unblanked text) = .ok octets' := by
  obtain ⟨layout, octets, hlayout, -, hblank, hencode, hoctets⟩ := exists_octets hr hs excluded
  obtain ⟨layout', octets', hlayout', -, -, hencode', hoctets'⟩ :=
    @exists_octets r hr { s with indent := .null } rfl excluded
  obtain rfl : layout' = layout.bare :=
    Except.ok.inj (hlayout'.symm.trans (OutputSettings.layout_bare hlayout))
  refine ⟨_, octets, octets', hencode, hoctets, hencode', ?_⟩
  rw [Wire.unblanked_write hblank]
  exact hoctets'

/-- The part of the envelope is emptied by what is left out; blanks and quotes in a text stay. -/
theorem Record.encode_unblanked_envelope :
    let r : Record := ⟨.gitHubRepoEnvelope, ((1, "n", "v", ()), " \"\\ \n", ())⟩
    ∃ text octets octets',
      r.encode ["id", "name", "url"] ⟨.int 1, .null, .str "\r\t "⟩ = .ok octets ∧
      Utf8.encode text = .ok octets ∧
      r.encode ["id", "name", "url"] ⟨.int 1, .null, .null⟩ = .ok octets' ∧
      Utf8.encode (unblanked text) = .ok octets' := by
  intro r
  exact @encode_unblanked r (by decide) ⟨.int 1, .null, .str "\r\t "⟩ (by decide)
    ["id", "name", "url"]

/-- Without its count of spaces a record is written that is not written with one past the machine
word. -/
theorem Record.not_encode_unblanked_of_any_count :
    ¬∀ (r : Record) (excluded : List String) (sortKeys asciiOnly : Json) (n : Int),
      r.hasSurrogate = false →
      ∃ text octets octets', r.encode excluded ⟨sortKeys, asciiOnly, .int n⟩ = .ok octets ∧
        Utf8.encode text = .ok octets ∧
        r.encode excluded ⟨sortKeys, asciiOnly, .null⟩ = .ok octets' ∧
        Utf8.encode (unblanked text) = .ok octets' := by
  intro h
  obtain ⟨text, octets, octets', hencode, -⟩ := h ⟨.jiraIssueLight, ([], [], ())⟩ [] (.bool false)
    (.bool false) (-0x8000000000000001) rfl
  contradiction

end IssueRelay
