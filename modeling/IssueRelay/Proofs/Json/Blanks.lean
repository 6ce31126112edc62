import IssueRelay.Proofs.Json.Opened
import IssueRelay.Proofs.Json.Spelling

set_option autoImplicit false

namespace IssueRelay.Json

namespace Opened

def isContainers : Opened → Bool
  | containers _ => true
  | string _ | escape _ => false

/-- What is left of a text, before which that is open, without the blanks outside of strings. -/
def unblanked (o : Opened) : Text → Text
  | [] => []
  | c :: s =>
    if o.isContainers && Reader.isBlank c then (o.next c).unblanked s
    else c :: (o.next c).unblanked s

theorem unblanked_append (o : Opened) (s t : Text) :
    o.unblanked (s ++ t) = o.unblanked s ++ (o.after s).unblanked t := by
  induction s generalizing o with
  | nil => rfl
  | cons c s ih =>
    rw [List.cons_append, unblanked, unblanked, after_cons, ih]
    split <;> rfl

end Opened

def unblanked (s : Text) : Text := (Opened.containers 0).unblanked s

open Opened

/-- A text leads from one thing open to another, and leaves a text without its blanks. -/
structure Leaves (start stop : Opened) (s bare : Text) : Prop where
  after : start.after s = stop
  unblanked : start.unblanked s = bare

namespace Leaves

variable {start mid stop : Opened} {s t bare bare' : Text}

theorem refl (o : Opened) : Leaves o o [] [] := ⟨rfl, rfl⟩

theorem append (h : Leaves start mid s bare) (h' : Leaves mid stop t bare') :
    Leaves start stop (s ++ t) (bare ++ bare') :=
  ⟨by rw [after_append, h.after, h'.after],
    by rw [unblanked_append, h.after, h.unblanked, h'.unblanked]⟩

theorem kept {c : CodePoint} (h : (start.isContainers && Reader.isBlank c) = false)
    (hnext : start.next c = stop) : Leaves start stop [c] [c] :=
  ⟨hnext, by simp [Opened.unblanked, h]⟩

theorem blanks (h : ∀ c ∈ s, Reader.isBlank c = true) (n : Nat) :
    Leaves (containers n) (containers n) s [] := by
  induction s with
  | nil => exact refl _
  | cons c s ih =>
    obtain ⟨hc, hs⟩ := List.forall_mem_cons.mp h
    have hnext := next_of_isPlain (isPlain_of_isBlank hc) n
    refine ⟨by rw [after_cons, hnext, (ih hs).after], ?_⟩
    rw [Opened.unblanked, if_pos (by simp [isContainers, hc]), hnext, (ih hs).unblanked]

theorem digits (ds : List Digit) (n : Nat) :
    Leaves (containers n) (containers n) (digitText ds) (digitText ds) := by
  induction ds with
  | nil => exact refl _
  | cons d ds ih =>
    have hd : ((containers n).isContainers && Reader.isBlank (.scalar d.val.digitChar)) = false :=
      (Reader.digit_front d).1
    exact append (kept hd (next_of_isPlain (isPlain_digitChar d) n)) ih

end Leaves

open Leaves

theorem Piece.leaves (p : Piece) (n : Nat) : Leaves (string n) (string n) p.text p.text := by
  have hescape (c : CodePoint) : Leaves (string n) (string n) [.scalar '\\', c] [.scalar '\\', c] :=
    append (kept rfl (next_backslash n)) (kept rfl (next_escape n c))
  cases p with
  | raw c h => exact kept rfl (by simp [next, h])
  | short letter meaning h => exact hescape _
  | unit a b c d =>
    have hdigit (x : HexDigit) : Leaves (string n) (string n) [.scalar x.char] [.scalar x.char] :=
      kept rfl (Literal.next_of_hexDigit? x.hexDigit?_char n)
    exact (hescape _).append ((hdigit a).append ((hdigit b).append ((hdigit c).append (hdigit d))))

theorem Spelling.leaves (s : Spelling) (n : Nat) :
    Leaves (containers n) (containers n) s.text s.text := by
  have hpieces : Leaves (string n) (string n) (s.flatMap Piece.text) (s.flatMap Piece.text) := by
    induction s with
    | nil => exact .refl _
    | cons p s ih => exact (p.leaves n).append ih
  exact append (kept rfl (next_quote n)) (hpieces.append (kept rfl rfl))

end IssueRelay.Json
