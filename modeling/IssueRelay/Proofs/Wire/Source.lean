import IssueRelay.Proofs.Json.Quotation
import IssueRelay.Proofs.Json.Surroundings
import IssueRelay.Proofs.Wire.Tokens

/-!
Written trees as sources. What is written for a tree, under a layout that indents with blanks, is
the text of a source; and what is written for a part of it stands in it under the keys that lead
there.
-/

set_option autoImplicit false

namespace IssueRelay.Wire

open Json Json.Literal

theorem exists_gap {t : Text} (h : ∀ c ∈ t, Reader.isBlank c = true) : ∃ g : Gap, g.text = t := by
  induction t with
  | nil => exact ⟨[], rfl⟩
  | cons c t ih =>
    obtain ⟨hc, ht⟩ := List.forall_mem_cons.mp h
    obtain ⟨g, rfl⟩ := ih ht
    have hb : ∃ b : Blank, .scalar b.char = c := by
      cases c with
      | scalar c =>
        simp only [Reader.isBlank, Bool.or_eq_true, decide_eq_true_eq] at hc
        rcases hc with ((rfl | rfl) | rfl) | rfl
        · exact ⟨.space, rfl⟩
        · exact ⟨.tab, rfl⟩
        · exact ⟨.lineFeed, rfl⟩
        · exact ⟨.carriageReturn, rfl⟩
      | surrogate i => contradiction
    obtain ⟨b, rfl⟩ := hb
    exact ⟨b :: g, rfl⟩

def unitPiece (n : Nat) : Piece :=
  .unit ⟨⟨n / 16 / 16 / 16 % 16, by omega⟩, false⟩ ⟨⟨n / 16 / 16 % 16, by omega⟩, false⟩
    ⟨⟨n / 16 % 16, by omega⟩, false⟩ ⟨⟨n % 16, by omega⟩, false⟩

theorem text_unitPiece (n : Nat) : (unitPiece n).text = escapeUnit n := rfl

theorem symbol_unitPiece {n : Nat} (h : n < 0x10000) :
    (unitPiece n).symbol = .unit (Fin.ofNat _ n) := by
  simp only [unitPiece, Piece.symbol, Symbol.unit.injEq, Fin.ext_iff, Fin.val_ofNat,
    Nat.mod_eq_of_lt h]
  omega

theorem mem_shortEscapes {c : CodePoint} {letter : Char} (h : escapeLetter? c = some letter) :
    ∃ meaning, c = .scalar meaning ∧ (letter, meaning) ∈ shortEscapes := by
  unfold escapeLetter? at h
  split at h <;> cases h <;> exact ⟨_, rfl, by decide⟩

theorem exists_pieces (asciiOnly : Bool) (c : CodePoint) : ∃ ps : Spelling,
    ps.flatMap Piece.text = spell asciiOnly c ∧ ps.map Piece.symbol = symbols asciiOnly c := by
  have hv := c.value_lt
  unfold spell symbols
  cases hletter : escapeLetter? c with
  | some letter =>
    obtain ⟨meaning, rfl, hmem⟩ := mem_shortEscapes hletter
    exact ⟨[.short letter meaning hmem], rfl, rfl⟩
  | none =>
    dsimp only
    by_cases hescape : c.value < 0x20 ∨ (asciiOnly = true ∧ 0x7E < c.value)
    · rw [if_pos hescape, if_pos hescape, escapeUnits, units]
      by_cases hplane : c.value < 0x10000
      · refine ⟨[unitPiece c.value], ?_, ?_⟩
        · rw [if_pos hplane, List.flatMap_singleton, text_unitPiece]
        · rw [if_pos hplane, List.map_singleton, symbol_unitPiece hplane]
      · refine ⟨[unitPiece (0xD800 + (c.value - 0x10000) / 0x400),
          unitPiece (0xDC00 + (c.value - 0x10000) % 0x400)], ?_, ?_⟩
        · rw [if_neg hplane, List.flatMap_cons, List.flatMap_singleton, text_unitPiece,
            text_unitPiece]
        · rw [if_neg hplane, List.map_cons, List.map_singleton, symbol_unitPiece (by omega),
            symbol_unitPiece (by omega)]
    · have hquote : c ≠ .scalar '"' := by rintro rfl; contradiction
      have hslash : c ≠ .scalar '\\' := by rintro rfl; contradiction
      rw [if_neg hescape, if_neg hescape]
      exact ⟨[.raw c ⟨by omega, hquote, hslash⟩], rfl, rfl⟩

theorem exists_quoted (asciiOnly : Bool) (s : Text) : ∃ sp : Spelling,
    sp.text = quoted asciiOnly s ∧ sp.map Piece.symbol = s.flatMap (symbols asciiOnly) := by
  induction s with
  | nil => exact ⟨[], rfl, rfl⟩
  | cons c s ih =>
    obtain ⟨ps, htext, hsymbols⟩ := exists_pieces asciiOnly c
    obtain ⟨sp, htext', hsymbols'⟩ := ih
    refine ⟨ps ++ sp, ?_, ?_⟩
    · simp only [Spelling.text, quoted, List.cons.injEq, List.append_cancel_right_eq, true_and]
        at htext' ⊢
      rw [List.flatMap_append, htext, htext', List.flatMap_cons]
    · rw [List.map_append, hsymbols, hsymbols', List.flatMap_cons]

/-- A text without surrogates is written as a literal that denotes it. -/
theorem exists_spelling (asciiOnly : Bool) {s : Text} (hs : s.hasSurrogate = false) :
    ∃ sp : Spelling, sp.text = quoted asciiOnly s ∧ sp.denoted = s := by
  obtain ⟨sp, htext, hsymbols⟩ := exists_quoted asciiOnly s
  refine ⟨sp, htext, ?_⟩
  rw [Spelling.denoted_eq_join, hsymbols, join_flatMap_symbols asciiOnly hs]

end IssueRelay.Wire

namespace IssueRelay.Json

theorem exists_run (n : Nat) : ∃ (r : Run) (h : r.first.val = 0 → r.more = []),
    (Number.ofRun r h).text = Text.ofNat n ∧ r.value = n ∧
      r.digits.length = (Nat.toDigits 10 n).length := by
  obtain ⟨d, ds, htext, hvalue, hzero⟩ := exists_digits n
  refine ⟨⟨d, ds⟩, fun hd => hzero (Fin.ext hd), ?_, ?_, ?_⟩
  · rw [htext]
    simp [Number.ofRun, Number.text, Decimal.text, Decimal.signText, Decimal.fractionText,
      Decimal.scaleText, Run.text, Run.digits]
  · rw [← hvalue]
    exact (Run.ofDigits_digits ⟨d, ds⟩).symm
  · have hlength := congrArg List.length htext
    rw [length_digitText, Text.ofNat, Text.ofChars, List.length_map] at hlength
    exact hlength.symm

end IssueRelay.Json

namespace IssueRelay.Wire

open Json

def entryText (layout : Layout) (level : Nat) (e : String × Wire) : Text :=
  lineBreak layout level ++
    (quoted layout.asciiOnly e.1 ++ (colon layout ++ writeAt layout level e.2))

theorem commas_entryText (layout : Layout) (level : Nat) (e : String × Wire)
    (entries : List (String × Wire)) :
    commas ((e :: entries).map (entryText layout level)) =
      lineBreak layout level ++ writeEntries layout level (e :: entries) := by
  induction entries generalizing e with
  | nil => simp [commas, List.intercalate, entryText, writeEntries]
  | cons e' entries ih =>
    rw [List.map_cons, List.map_cons, commas_cons_cons, ← List.map_cons, ih e']
    simp [entryText, writeEntries]

theorem exists_colon (layout : Layout) : ∃ g : Gap, colon layout = .scalar ':' :: g.text := by
  unfold colon
  split
  · exact ⟨[.space], rfl⟩
  · exact ⟨[], rfl⟩

theorem exists_member {layout : Layout} (hl : IndentsBlank layout) (level : Nat) (key : String) :
    ∃ (label : Spaced Spelling) (before : Gap), label.2.1.denoted = Text.ofString key ∧
      ∀ (s : Source) (w : Wire), s.text = writeAt layout level w →
        Member.text (label, (before, s, [])) = entryText layout level (key, w) := by
  obtain ⟨lead, hlead⟩ := exists_gap (isBlank_lineBreak hl level)
  obtain ⟨sp, hsp, hdenoted⟩ := exists_spelling layout.asciiOnly (Text.hasSurrogate_ofString key)
  obtain ⟨before, hcolon⟩ := exists_colon layout
  refine ⟨(lead, sp, []), before, hdenoted, fun s w hs => ?_⟩
  simp [Member.text, spacedText, entryText, hlead, hsp, hs, hcolon]

/-- A source that is what is written for a tree, and is read as the tree's value. -/
structure Spells (layout : Layout) (level depth : Nat) (w : Wire) (s : Source) : Prop where
  text : s.text = writeAt layout level w
  value : s.value? depth = .ok w.toJson

theorem exists_members {layout : Layout} (hl : IndentsBlank layout) {level depth : Nat}
    {entries : List (String × Wire)} (each : ∀ e ∈ entries, ∃ s, Spells layout level depth e.2 s) :
    ∃ members : List Member, members.map Member.text = entries.map (entryText layout level) ∧
      members.map Member.key = entries.map (fun e => Text.ofString e.1) ∧
      members.mapM (fun m => m.pair? depth) = .ok (membersOf entries) := by
  induction entries with
  | nil => exact ⟨[], rfl, rfl, rfl⟩
  | cons e entries ih =>
    obtain ⟨s, hs⟩ := each e List.mem_cons_self
    obtain ⟨label, before, hkey, htext⟩ := exists_member hl level e.1
    obtain ⟨members, htexts, hkeys, hpairs⟩ := ih fun e he => each e (List.mem_cons_of_mem _ he)
    refine ⟨(label, (before, s, [])) :: members, ?_, ?_, ?_⟩
    · rw [List.map_cons, List.map_cons, htexts, htext s e.2 hs.text]
    · rw [List.map_cons, List.map_cons, hkeys, Member.key, hkey]
    · rw [List.mapM_cons, hpairs, Member.pair?, Member.key, hkey, hs.value, membersOf]
      rfl

theorem text_object {layout : Layout} {level : Nat} {members : List Member} {gap : Gap}
    {e : String × Wire} {entries : List (String × Wire)}
    (htexts : members.map Member.text = (e :: entries).map (entryText layout (level + 1)))
    (hgap : gap.text = lineBreak layout level) :
    (Source.object members gap).text = writeAt layout level (.object (e :: entries)) := by
  rw [Source.text, Source.memberTexts_eq_map, htexts, commas_entryText, hgap, writeAt]
  simp

/-- What is written for a well-formed tree is the text of a source. -/
theorem exists_source {layout : Layout} (hl : IndentsBlank layout) {depth : Nat} {w : Wire}
    (hw : WellFormed depth w) (level : Nat) : ∃ s, Spells layout level depth w s := by
  induction hw generalizing level with
  | @number depth n =>
    obtain ⟨r, hr, htext, hvalue, hlength⟩ := exists_run n.toNat
    have hword : n.toNat < 10 ^ 20 := Nat.lt_trans n.toNat_lt (by decide)
    have hdigits : (Number.ofRun r hr).wholeDigits ≤ maxDigits := by
      have hshort := (Nat.length_toDigits_le_iff (by decide) (by decide)).mpr hword
      exact hlength.trans_le (hshort.trans (by decide : 20 ≤ maxDigits))
    refine ⟨.number (.ofRun r hr), ⟨by rw [Source.text, htext, writeAt], ?_⟩⟩
    rw [Source.value?, Number.value?_of_integer (Number.integer?_ofRun r hr), if_pos hdigits,
      hvalue, toJson]
  | @text depth s hs =>
    obtain ⟨sp, hsp, hdenoted⟩ := exists_spelling layout.asciiOnly hs
    refine ⟨.string sp, ⟨hsp, ?_⟩⟩
    rw [Source.value?, hdenoted, toJson]
  | @object depth entries keys each ih =>
    obtain ⟨members, htexts, -, hpairs⟩ := exists_members hl fun e he => ih e he (level + 1)
    cases entries with
    | nil =>
      cases members with
      | nil => exact ⟨.object [] [], rfl, rfl⟩
      | cons m members => contradiction
    | cons e entries =>
      obtain ⟨gap, hgap⟩ := exists_gap (isBlank_lineBreak hl level)
      refine ⟨.object members gap, text_object htexts hgap, ?_⟩
      rw [Source.value?, Source.pairs?_eq_mapM, hpairs, toJson]
      exact congrArg (fun ms => Except.ok (Json.obj ms))
        (ofPairs_eq_self (distinctKeys_membersOf keys))

/-- What is written for a part of a tree stands under its keys in what is written for the tree. -/
theorem exists_frames {layout : Layout} (hl : IndentsBlank layout) {depth : Nat}
    {keys : List String} {w x : Wire} (hx : At keys w x) (hw : WellFormed depth w) (level : Nat) :
    ∃ frames : List Frame,
      List.Forall₂ (fun f key => Frame.HasKey f (Text.ofString key)) frames keys ∧
      ∀ s : Source, s.text = writeAt layout (level + keys.length) x →
        (frames.foldr Frame.fill s).text = writeAt layout level w := by
  induction hx generalizing depth level with
  | here w => exact ⟨[], .nil, fun s hs => hs⟩
  | @under key keys entries v x mem h ih =>
    cases hw with
    | @object depth _ hkeys each =>
      obtain ⟨front, back, rfl⟩ := List.append_of_mem mem
      obtain ⟨frames, hframes, htext⟩ := ih (each (key, v) mem) (level + 1)
      have hsources (e : String × Wire) (he : e ∈ front ++ (key, v) :: back) :
          ∃ s, Spells layout (level + 1) depth e.2 s := exists_source hl (each e he) (level + 1)
      obtain ⟨fronts, hfronts, -⟩ := exists_members hl fun e he =>
        hsources e (List.mem_append_left _ he)
      obtain ⟨backs, hbacks, hbackKeys, -⟩ := exists_members hl fun e he =>
        hsources e (List.mem_append_right _ (List.mem_cons_of_mem _ he))
      obtain ⟨label, before, hlabel, hmember⟩ := exists_member hl (level + 1) key
      obtain ⟨gap, hgap⟩ := exists_gap (isBlank_lineBreak hl level)
      -- keys are distinct, so that none of the entries behind has the key of the frame
      have hlast : ∀ m ∈ backs, m.key ≠ Text.ofString key := by
        intro m hm hsame
        have hkey : m.key ∈ back.map fun e => Text.ofString e.1 :=
          hbackKeys ▸ List.mem_map_of_mem hm
        obtain ⟨e, he, hekey⟩ := List.mem_map.mp hkey
        rw [List.map_append, List.map_cons, List.nodup_append] at hkeys
        have hfresh := (List.nodup_cons.mp hkeys.2.1).1
        exact hfresh (List.mem_map.mpr ⟨e, he, Text.ofString_injective (hekey.trans hsame)⟩)
      refine ⟨⟨fronts, label, before, [], backs, gap⟩ :: frames, .cons ⟨hlabel, hlast⟩ hframes, ?_⟩
      intro s hs
      have hinner := htext s (by rw [hs]; congr 1; simp; omega)
      have htexts : (fronts ++ (label, (before, frames.foldr Frame.fill s, [])) :: backs).map
          Member.text = (front ++ (key, v) :: back).map (entryText layout (level + 1)) := by
        rw [List.map_append, List.map_append, List.map_cons, List.map_cons, hfronts, hbacks,
          hmember _ v hinner]
      obtain ⟨e, entries, he⟩ := List.exists_cons_of_ne_nil
        (List.append_ne_nil_of_right_ne_nil front (List.cons_ne_nil (key, v) back))
      rw [he] at htexts ⊢
      exact text_object htexts hgap

end IssueRelay.Wire
