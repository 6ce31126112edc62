import IssueRelay.Proofs.Wire.Source

set_option autoImplicit false

namespace IssueRelay.Wire

open Json Json.Reader

def arranged (sortKeys : Bool) (w : Wire) : Wire := if sortKeys then w.sorted else w

theorem WellFormed.arranged {depth : Nat} {w : Wire} (h : WellFormed depth w) (sortKeys : Bool) :
    WellFormed depth (w.arranged sortKeys) := by
  unfold Wire.arranged
  split
  · exact h.sorted
  · exact h

theorem At.arranged {keys : List String} {w x : Wire} (h : At keys w x) (hx : x.sorted = x)
    (sortKeys : Bool) : At keys (w.arranged sortKeys) x := by
  unfold Wire.arranged
  split
  · exact hx ▸ h.sorted
  · exact h

/-- The text of a well-formed tree is read as the value of the tree. -/
theorem read_write {layout : Layout} (hl : IndentsBlank layout) {depth : Nat}
    (hd : depth ≤ maxDepth) {w : Wire} (hw : WellFormed depth w) :
    Json.read (w.write layout) = .ok (w.arranged layout.sortKeys).toJson := by
  obtain ⟨s, hs⟩ := exists_source hl ((hw.mono hd).arranged layout.sortKeys) 0
  have hwrite : w.write layout = spacedText [] s.text [] := by
    rw [spacedText, Gap.text_nil, List.nil_append, List.append_nil, hs.text]
    rfl
  rw [hwrite, read_source, hs.value]
  rfl

theorem hasSurrogate_write {layout : Layout} (hl : IndentsBlank layout) {depth : Nat} {w : Wire}
    (hw : WellFormed depth w) : (w.write layout).hasSurrogate = false := by
  have hwrite := hasSurrogate_writeAt hl 0 (w.arranged layout.sortKeys)
  rwa [(hw.arranged layout.sortKeys).hasSurrogate_tokens, Bool.and_false] at hwrite

theorem hasSurrogate_write_of_asciiOnly {layout : Layout} (hl : IndentsBlank layout)
    (hascii : layout.asciiOnly = true) (w : Wire) : (w.write layout).hasSurrogate = false := by
  have hwrite := hasSurrogate_writeAt hl 0 (w.arranged layout.sortKeys)
  rwa [hascii, Bool.not_true, Bool.false_and] at hwrite

theorem hasSurrogate_write_of_at {layout : Layout} (hl : IndentsBlank layout)
    (hascii : layout.asciiOnly = false) {keys : List String} {w : Wire} {s : Text}
    (h : At keys w (.text s)) (hs : s.hasSurrogate = true) : (w.write layout).hasSurrogate = true := by
  have hwrite := hasSurrogate_writeAt hl 0 (w.arranged layout.sortKeys)
  have hat := h.arranged rfl layout.sortKeys
  have hany : (tokens 0 (w.arranged layout.sortKeys)).any Token.hasSurrogate = true :=
    List.any_eq_true.mpr ⟨_, hat.quoted_mem_tokens 0, hs⟩
  rwa [hascii, hany, Bool.not_false, Bool.true_and] at hwrite

end IssueRelay.Wire
