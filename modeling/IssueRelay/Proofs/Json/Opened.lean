import IssueRelay.Proofs.Json.Decimal
import IssueRelay.Proofs.Outcome
import IssueRelay.Proofs.Text.Cut

/-!
What is open at a place in a JSON text: containers, counted by their brackets and braces outside of
strings, and perhaps a string. The scanners for blanks, numbers, words and strings take a part off
the front of a text after which as many containers are open as before.
-/

set_option autoImplicit false

namespace IssueRelay.Json

/-- What is open: so many containers, and inside of them perhaps a string, in which the last code
point may have been a backslash that stands for itself with the next. -/
inductive Opened
  | containers (level : Nat)
  | string (level : Nat)
  | escape (level : Nat)
  deriving DecidableEq

namespace Opened

def next : Opened → CodePoint → Opened
  | .containers n, c =>
    if c = .scalar '"' then .string n
    else if c = .scalar '[' ∨ c = .scalar '{' then .containers (n + 1)
    else if c = .scalar ']' ∨ c = .scalar '}' then .containers (n - 1)
    else .containers n
  | .string n, c =>
    if c = .scalar '"' then .containers n
    else if c = .scalar '\\' then .escape n
    else .string n
  | .escape n, _ => .string n

theorem next_quote (n : Nat) : (containers n).next (.scalar '"') = string n := rfl

theorem next_backslash (n : Nat) : (string n).next (.scalar '\\') = escape n := rfl

theorem next_escape (n : Nat) (c : CodePoint) : (escape n).next c = string n := rfl

def after (o : Opened) (s : Text) : Opened := s.foldl next o

@[simp] theorem after_nil (o : Opened) : o.after [] = o := rfl

@[simp] theorem after_cons (o : Opened) (c : CodePoint) (s : Text) :
    o.after (c :: s) = (o.next c).after s := rfl

@[simp] theorem after_append (o : Opened) (s t : Text) : o.after (s ++ t) = (o.after s).after t := by
  simp [after]

end Opened

open Opened

/-- A part can be taken off the front of a text that leads from one thing open to another, however
many containers there are around it. -/
def Leads (start stop : Nat → Opened) (s rest : Text) : Prop :=
  ∃ used, s = used ++ rest ∧ ∀ n, (start n).after used = stop n

/-- A part can be taken off the front of a text that opens and closes as many containers. -/
abbrev Level (s rest : Text) : Prop := Leads containers containers s rest

namespace Leads

variable {start mid stop : Nat → Opened} {s t rest : Text}

theorem refl (start : Nat → Opened) (s : Text) : Leads start start s s :=
  ⟨[], rfl, fun _ => rfl⟩

theorem trans (h : Leads start mid s t) (h' : Leads mid stop t rest) :
    Leads start stop s rest := by
  obtain ⟨used, rfl, hused⟩ := h
  obtain ⟨used', rfl, hused'⟩ := h'
  exact ⟨used ++ used', by simp, fun n => by rw [after_append, hused, hused']⟩

theorem cons {c : CodePoint} (hc : ∀ n, (start n).next c = mid n) (h : Leads mid stop s rest) :
    Leads start stop (c :: s) rest :=
  trans ⟨[c], rfl, hc⟩ h

theorem inside (h : Leads start stop s rest) :
    Leads (fun n => start (n + 1)) (fun n => stop (n + 1)) s rest := by
  obtain ⟨used, rfl, hused⟩ := h
  exact ⟨used, rfl, fun n => hused (n + 1)⟩

end Leads

def isPlain : CodePoint → Bool
  | .scalar c => c ≠ '"' && c ≠ '[' && c ≠ '{' && c ≠ ']' && c ≠ '}'
  | .surrogate _ => true

theorem next_of_isPlain {c : CodePoint} (h : isPlain c = true) (n : Nat) :
    (containers n).next c = containers n := by
  cases c with
  | scalar c =>
    simp only [isPlain, ne_eq, decide_not, Bool.and_eq_true, Bool.not_eq_eq_eq_not, Bool.not_true,
      decide_eq_false_iff_not] at h
    simp [next, h]
  | surrogate i => rfl

def Plain (s rest : Text) : Prop := ∃ used, s = used ++ rest ∧ ∀ c ∈ used, isPlain c = true

namespace Plain

variable {s t rest : Text}

theorem refl (s : Text) : Plain s s := ⟨[], rfl, by simp⟩

theorem trans (h : Plain s t) (h' : Plain t rest) : Plain s rest := by
  obtain ⟨used, rfl, hused⟩ := h
  obtain ⟨used', rfl, hused'⟩ := h'
  exact ⟨used ++ used', by simp, List.forall_mem_append.mpr ⟨hused, hused'⟩⟩

theorem cons {c : CodePoint} (hc : isPlain c = true) (h : Plain s rest) : Plain (c :: s) rest :=
  trans ⟨[c], rfl, List.forall_mem_singleton.mpr hc⟩ h

theorem level (h : Plain s rest) : Level s rest := by
  obtain ⟨used, rfl, hused⟩ := h
  induction used with
  | nil => exact .refl _ _
  | cons c used ih =>
    obtain ⟨hc, hused⟩ := List.forall_mem_cons.mp hused
    exact .cons (next_of_isPlain hc) (ih hused)

end Plain

theorem isPlain_of_isBlank {c : CodePoint} (h : Reader.isBlank c = true) : isPlain c = true := by
  cases c with
  | scalar c =>
    simp only [Reader.isBlank, Bool.or_eq_true, decide_eq_true_eq] at h
    rcases h with ((rfl | rfl) | rfl) | rfl <;> rfl
  | surrogate i => rfl

theorem takeWhile_append_skip (s : Text) :
    s.takeWhile Reader.isBlank ++ Reader.skip s = s ∧
      ∀ c ∈ s.takeWhile Reader.isBlank, Reader.isBlank c = true :=
  ⟨List.takeWhile_append_dropWhile, List.all_eq_true.mp List.all_takeWhile⟩

theorem plain_skip (s : Text) : Plain s (Reader.skip s) := by
  obtain ⟨hs, hblank⟩ := takeWhile_append_skip s
  exact ⟨_, hs.symm, fun c hc => isPlain_of_isBlank (hblank c hc)⟩

theorem level_skip (s : Text) : Level s (Reader.skip s) := (plain_skip s).level

theorem toNat_digitChar (d : Digit) : d.val.digitChar.toNat = 48 + d.val := by revert d; decide

theorem digit?_eq_some {c : CodePoint} {d : Digit} :
    digit? c = some d ↔ c = .scalar d.val.digitChar := by
  refine ⟨fun h => ?_, fun h => h ▸ digit?_digitChar d⟩
  have hzero : '0'.toNat = 48 := rfl
  unfold digit? CodePoint.indexFrom? at h
  split at h
  · rename_i hrange
    have hval : c.value - 48 = d.val := congrArg Fin.val (Option.some.inj h)
    cases c with
    | scalar x =>
      simp only [CodePoint.value] at hrange hval
      rw [CodePoint.scalar.injEq, ← Char.toNat_inj, toNat_digitChar]
      omega
    | surrogate i =>
      simp only [CodePoint.value] at hrange
      omega
  · contradiction

theorem isPlain_digitChar (d : Digit) : isPlain (.scalar d.val.digitChar) = true := by
  revert d; decide

theorem plain_digitText (ds : List Digit) (rest : Text) : Plain (digitText ds ++ rest) rest := by
  refine ⟨_, rfl, fun c hc => ?_⟩
  obtain ⟨d, -, rfl⟩ := List.mem_map.mp hc
  exact isPlain_digitChar d

theorem digitText_cons (d : Digit) (ds : List Digit) :
    digitText (d :: ds) = .scalar d.val.digitChar :: digitText ds := rfl

theorem digitText_digits (s : Text) : digitText (digits s).1 ++ (digits s).2 = s := by
  induction s with
  | nil => rfl
  | cons c s ih =>
    cases hc : digit? c with
    | none => simp [digits, hc, digitText]
    | some d =>
      rw [digit?_eq_some] at hc
      simp [hc, digits, digit?_digitChar, digitText_cons, ih]

theorem plain_digits (s : Text) : Plain s (digits s).2 := by
  have h := plain_digitText (digits s).1 (digits s).2
  rwa [digitText_digits] at h

namespace Numeral

theorem plain_sign (s : Text) : Plain s (sign s).2 := by
  unfold sign
  split
  · exact .cons rfl (.refl _)
  · exact .refl _

theorem digitText_of_whole? {s rest : Text} {ds : List Digit} (h : whole? s = some (ds, rest)) :
    digitText ds ++ rest = s := by
  unfold whole? at h
  split at h
  · contradiction
  · rename_i c s
    split at h
    · contradiction
    · rename_i d hd
      rw [digit?_eq_some] at hd
      split at h
      · cases h
        simp [hd, digitText]
      · cases h
        rw [digitText_cons, List.cons_append, digitText_digits, hd]

theorem plain_takeFraction (s : Text) : Plain s (takeFraction s).2 := by
  unfold takeFraction
  split
  · rename_i rest
    have hdigits := plain_digits rest
    split
    · exact .refl _
    · rename_i hread
      rw [hread] at hdigits
      exact .cons rfl hdigits
  · exact .refl _

theorem plain_exponentSign (s : Text) : Plain s (exponentSign s).2 := by
  unfold exponentSign
  split
  · exact .cons rfl (.refl _)
  · exact plain_sign s

theorem plain_takeExponent (s : Text) : Plain s (takeExponent s).2 := by
  unfold takeExponent
  split
  · rename_i c rest
    split
    · rename_i hc
      have hplain : isPlain (.scalar c) = true := by rcases hc with rfl | rfl <;> rfl
      have hsign := plain_exponentSign rest
      have hdigits := plain_digits (exponentSign rest).2
      dsimp only
      split
      · exact .refl _
      · rename_i hread
        rw [hread] at hdigits
        exact .cons hplain (hsign.trans hdigits)
    · exact .refl _
  · exact .refl _

theorem plain_scan? {s rest : Text} {n : Numeral} (h : scan? s = some (n, rest)) :
    ∃ more, Plain s (digitText n.whole ++ more) ∧ Plain more rest := by
  have hsign := plain_sign s
  simp only [scan?, Option.bind_eq_bind] at h
  obtain ⟨⟨whole, more⟩, hwhole, h⟩ := Option.bind_eq_some_iff.mp h
  rw [← digitText_of_whole? hwhole] at hsign
  cases h
  exact ⟨more, hsign, (plain_takeFraction more).trans (plain_takeExponent _)⟩

end Numeral

namespace Reader

theorem plain_number {s rest : Text} {v : Json} (h : number s = .ok (v, rest)) : Plain s rest := by
  unfold number at h
  split at h
  · contradiction
  · rename_i n rest' hscan
    obtain ⟨more, hfront, hrest⟩ := Numeral.plain_scan? hscan
    split at h
    · cases h
      exact hfront.trans ((plain_digitText _ _).trans hrest)
    · contradiction

theorem isPlain_words : ∀ p ∈ words, ∀ c ∈ p.1, isPlain c = true := by decide

theorem plain_wordOrNumber {s rest : Text} {v : Json} (h : wordOrNumber s = .ok (v, rest)) :
    Plain s rest := by
  unfold wordOrNumber at h
  split at h
  · rename_i taken htaken
    cases h
    obtain ⟨p, hp, hword⟩ := List.exists_of_findSome?_eq_some htaken
    obtain ⟨rest', hrest, hpair⟩ := Option.map_eq_some_iff.mp hword
    cases hpair
    rw [Text.after?_eq_some.mp hrest]
    exact ⟨_, rfl, isPlain_words p hp⟩
  · exact plain_number h

end Reader

namespace Literal

theorem next_of_hexDigit? {c : CodePoint} {d : Fin 16} (h : hexDigit? c = some d) (n : Nat) :
    (string n).next c = string n := by
  have hquote : c ≠ .scalar '"' := by rintro rfl; contradiction
  have hslash : c ≠ .scalar '\\' := by rintro rfl; contradiction
  simp [next, hquote, hslash]

theorem leads_unit? {a b c d : CodePoint} {u : Fin 0x10000} (h : unit? a b c d = some u)
    (rest : Text) : Leads string string (a :: b :: c :: d :: rest) rest := by
  simp only [unit?, Option.bind_eq_bind, Option.bind_eq_some_iff] at h
  obtain ⟨_, ha, _, hb, _, hc, _, hd, -⟩ := h
  exact .cons (next_of_hexDigit? ha) <| .cons (next_of_hexDigit? hb) <|
    .cons (next_of_hexDigit? hc) <| .cons (next_of_hexDigit? hd) (.refl _ _)

theorem leads_scan {opening s rest : Text} {symbols : List Symbol}
    (h : scan opening s = .ok (symbols, rest)) : Leads string containers s rest := by
  fun_induction scan opening s generalizing symbols with
  | case1 | case3 | case4 | case6 | case7 | case9 => contradiction
  | case2 _ =>
    cases h
    exact .cons (fun _ => rfl) (.refl _ _)
  | case5 _ _ _ _ _ _ _ hunit _ ih =>
    obtain ⟨⟨symbols', rest'⟩, hscan, hpair⟩ := Except.map_eq_ok.mp h
    cases hpair
    exact .cons next_backslash <| .cons (next_escape · _) <|
      (leads_unit? hunit _).trans (ih hscan)
  | case8 _ _ _ _ _ _ ih =>
    obtain ⟨⟨symbols', rest'⟩, hscan, hpair⟩ := Except.map_eq_ok.mp h
    cases hpair
    exact .cons next_backslash <| .cons (next_escape · _) (ih hscan)
  | case10 c _ hquote hslash _ ih =>
    obtain ⟨⟨symbols', rest'⟩, hscan, hpair⟩ := Except.map_eq_ok.mp h
    cases hpair
    exact .cons (fun n => by simp [next, hquote, hslash]) (ih hscan)

theorem scan_ne_limit (opening s : Text) (l : Limit) : scan opening s ≠ .error (.limit l) := by
  fun_induction scan opening s <;> simp_all [Except.map_eq_error]

end Literal

end IssueRelay.Json
