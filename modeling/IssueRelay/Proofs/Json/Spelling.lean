import IssueRelay.Json.Reader

/-!
String literals by their parts. A part is a code point as it stands, a short escape, or an escaped
unit in digits of either case; any text of such parts between quotes is read as what it denotes,
where two escapes next to each other that name the halves of a pair denote one code point.
-/

set_option autoImplicit false

namespace IssueRelay.Json

open Literal

/-- A hexadecimal digit; the case of a digit below ten makes no difference. -/
structure HexDigit where
  value : Fin 16
  upper : Bool

def HexDigit.char (d : HexDigit) : Char :=
  if d.upper then d.value.val.digitChar.toUpper else d.value.val.digitChar

def shortEscapes : List (Char × Char) :=
  [('"', '"'), ('\\', '\\'), ('/', '/'), ('b', '\x08'), ('f', '\x0c'), ('n', '\n'), ('r', '\r'),
    ('t', '\t')]

inductive Piece
  | raw (c : CodePoint) (h : 0x20 ≤ c.value ∧ c ≠ .scalar '"' ∧ c ≠ .scalar '\\')
  | short (letter meaning : Char) (h : (letter, meaning) ∈ shortEscapes)
  | unit (a b c d : HexDigit)

namespace Piece

def text : Piece → Text
  | raw c _ => [c]
  | short letter _ _ => [.scalar '\\', .scalar letter]
  | unit a b c d =>
    [.scalar '\\', .scalar 'u', .scalar a.char, .scalar b.char, .scalar c.char, .scalar d.char]

def symbol : Piece → Symbol
  | raw c _ => .point c
  | short _ meaning _ => .point (.scalar meaning)
  | unit a b c d =>
    .unit ⟨((a.value.val * 16 + b.value.val) * 16 + c.value.val) * 16 + d.value.val, by omega⟩

end Piece

/-- Whether the second of two symbols stands right after the first one as the low half of a pair of
which that is the high half. -/
def paired : Option Symbol → Option Symbol → Bool
  | some (.unit u), some (.unit v) => isHigh u && isLow v
  | _, _ => false

/-- What a symbol denotes between its neighbours. The first half of a pair denotes the whole. -/
def denotedBetween (before : Option Symbol) (s : Symbol) (after : Option Symbol) : Text :=
  if paired before (some s) then []
  else match s, after with
    | .unit u, some (.unit v) => if isHigh u && isLow v then [ofHalves u v] else [.ofNat u.val]
    | .unit u, _ => [.ofNat u.val]
    | .point c, _ => [c]

def denotedAfter (before : Option Symbol) : List Symbol → Text
  | [] => []
  | s :: rest => denotedBetween before s rest.head? ++ denotedAfter (some s) rest

abbrev Spelling := List Piece

namespace Spelling

def text (s : Spelling) : Text := .scalar '"' :: (s.flatMap Piece.text ++ [.scalar '"'])

def denoted (s : Spelling) : Text := denotedAfter none (s.map Piece.symbol)

end Spelling

theorem not_isHigh_of_isLow {u : Fin 0x10000} (h : isLow u = true) : isHigh u = false := by
  simp only [isLow, isHigh, Bool.and_eq_true, decide_eq_true_eq, Bool.and_eq_false_iff,
    decide_eq_false_iff_not] at *
  omega

theorem paired_of_isLow {u : Fin 0x10000} (h : isLow u = true) (after : Option Symbol) :
    paired (some (.unit u)) after = false := by
  unfold paired
  split
  · rename_i heq
    cases heq
    rw [not_isHigh_of_isLow h, Bool.false_and]
  · rfl

/-- Joining from the left, pair by pair, gives what each symbol denotes between its neighbours: no
unit is a half of two pairs. -/
theorem denotedAfter_eq_join : (before : Option Symbol) → (symbols : List Symbol) →
    paired before symbols.head? = false → denotedAfter before symbols = join symbols
  | _, [], _ => rfl
  | before, .point c :: rest, h => by
    have hrest := denotedAfter_eq_join (some (.point c)) rest rfl
    rw [denotedAfter, denotedBetween, hrest, join]
    cases before with
    | none => rfl
    | some s => cases s <;> rfl
  | before, [.unit u], h => by
    have hfirst : paired before (some (.unit u)) = false := h
    simp [denotedAfter, denotedBetween, join, hfirst]
  | before, .unit u :: .point c :: rest, h => by
    have hfirst : paired before (some (.unit u)) = false := h
    have hrest := denotedAfter_eq_join (some (.unit u)) (.point c :: rest) rfl
    rw [denotedAfter, hrest]
    simp [denotedBetween, join, hfirst]
  | before, .unit u :: .unit v :: rest, h => by
    have hfirst : paired before (some (.unit u)) = false := h
    by_cases hpair : (isHigh u && isLow v) = true
    · -- the low half is denoted with the high one, and begins no pair itself
      have hlow := paired_of_isLow (Bool.and_eq_true_iff.mp hpair).2 rest.head?
      have hsecond : paired (some (.unit u)) (some (.unit v)) = true := hpair
      have hrest := denotedAfter_eq_join (some (.unit v)) rest hlow
      rw [denotedAfter, denotedAfter, hrest]
      simp [denotedBetween, join, hpair, hfirst, hsecond]
    · have hsecond : paired (some (.unit u)) (some (.unit v)) = false := Bool.eq_false_iff.mpr hpair
      have hrest := denotedAfter_eq_join (some (.unit u)) (.unit v :: rest) hsecond
      rw [denotedAfter, hrest]
      simp [denotedBetween, join, hpair, hfirst]

namespace Spelling

theorem denoted_eq_join (s : Spelling) : s.denoted = join (s.map Piece.symbol) :=
  denotedAfter_eq_join none _ rfl

end Spelling

theorem HexDigit.hexDigit?_char (d : HexDigit) : hexDigit? (.scalar d.char) = some d.value := by
  obtain ⟨value, upper⟩ := d
  revert value upper
  decide

theorem shortEscape?_of_mem {letter meaning : Char} (h : (letter, meaning) ∈ shortEscapes) :
    letter ≠ 'u' ∧ shortEscape? (.scalar letter) = some meaning := by
  revert h
  simp only [shortEscapes, List.mem_cons, Prod.mk.injEq, List.not_mem_nil, or_false]
  rintro (⟨rfl, rfl⟩ | ⟨rfl, rfl⟩ | ⟨rfl, rfl⟩ | ⟨rfl, rfl⟩ | ⟨rfl, rfl⟩ | ⟨rfl, rfl⟩ |
    ⟨rfl, rfl⟩ | ⟨rfl, rfl⟩) <;> decide

def prepend (symbol : Symbol) (scanned : List Symbol × Text) : List Symbol × Text :=
  (symbol :: scanned.1, scanned.2)

theorem Piece.scan_text (p : Piece) (opening : Text) {rest : Text} (hr : rest ≠ []) :
    scan opening (p.text ++ rest) = prepend p.symbol <$> scan opening rest := by
  cases p with
  | raw c h =>
    obtain ⟨hc, hquote, hslash⟩ := h
    rw [text, List.cons_append, List.nil_append, scan.eq_def]
    simp only [if_neg hquote, if_neg hslash, if_neg (Nat.not_lt_of_le hc)]
    rfl
  | short letter meaning h =>
    obtain ⟨hu, hletter⟩ := shortEscape?_of_mem h
    simp only [text, List.cons_append, List.nil_append]
    rw [scan.eq_def]
    simp [hu, hletter]
    rfl
  | unit a b c d =>
    obtain ⟨next, after, rfl⟩ := List.exists_cons_of_ne_nil hr
    simp only [text, List.cons_append, List.nil_append]
    rw [scan]
    simp [unit?, HexDigit.hexDigit?_char]
    rfl

theorem Spelling.scan_text (s : Spelling) (opening rest : Text) :
    scan opening (s.flatMap Piece.text ++ .scalar '"' :: rest) =
      .ok (s.map Piece.symbol, rest) := by
  induction s with
  | nil =>
    rw [List.flatMap_nil, List.nil_append, scan.eq_def]
    rfl
  | cons p s ih =>
    rw [List.flatMap_cons, List.append_assoc, p.scan_text opening (by simp), ih]
    rfl

/-- A string literal is read as what it denotes. -/
theorem Spelling.string_text (s : Spelling) (opening rest : Text) :
    Reader.string opening (s.flatMap Piece.text ++ .scalar '"' :: rest) =
      .ok (s.denoted, rest) := by
  rw [Reader.string, s.scan_text, s.denoted_eq_join]
  rfl

end IssueRelay.Json
