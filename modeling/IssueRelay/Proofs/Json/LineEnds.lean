import IssueRelay.Proofs.Json.Limits
import IssueRelay.Settings.File

/-!
Line ends in JSON texts. A line feed and a carriage return are blanks between tokens and part of no
token, so that a text is read alike with its line ends made alike: every scanner takes the same off
its front, or stops for the same reason, and leaves the same with its line ends made alike.
-/

set_option autoImplicit false

namespace IssueRelay

namespace Text

/-- A text with its line ends made alike, as `unifyLines` makes those of characters. -/
def unified : Text → Text
  | [] => []
  | .scalar '\r' :: .scalar '\n' :: rest => .scalar '\n' :: unified rest
  | c :: rest => (if c = .scalar '\r' then .scalar '\n' else c) :: unified rest

theorem unified_cons {c : CodePoint} (h : c ≠ .scalar '\r') (s : Text) :
    unified (c :: s) = c :: unified s := by
  rw [unified, if_neg h]
  exact fun rest hc => absurd hc h

theorem unified_return (s : Text) :
    ∃ rest, unified (.scalar '\r' :: s) = .scalar '\n' :: unified rest := by
  by_cases h : ∃ rest, s = .scalar '\n' :: rest
  · obtain ⟨rest, rfl⟩ := h
    exact ⟨rest, rfl⟩
  · refine ⟨s, ?_⟩
    rw [unified, if_pos rfl]
    exact fun rest _ hs => h ⟨rest, hs⟩

theorem unified_cases (s : Text) :
    s = [] ∨ (∃ c rest, c ≠ .scalar '\r' ∧ s = c :: rest ∧ unified s = c :: unified rest) ∨
      ∃ rest rest', s = .scalar '\r' :: rest ∧ unified s = .scalar '\n' :: unified rest' := by
  cases s with
  | nil => exact .inl rfl
  | cons c rest =>
    by_cases hc : c = .scalar '\r'
    · obtain ⟨rest', hrest⟩ := unified_return rest
      exact .inr (.inr ⟨rest, rest', by rw [hc], by rw [hc, hrest]⟩)
    · exact .inr (.inl ⟨c, rest, hc, rfl, unified_cons hc rest⟩)

theorem unified_ofChars (cs : List Char) : unified (ofChars cs) = ofChars (unifyLines cs) := by
  fun_induction unifyLines cs with
  | case1 => rfl
  | case2 rest ih => exact congrArg (_ :: ·) ih
  | case3 c rest hpair ih =>
    have hofChars : ofChars (c :: rest) = .scalar c :: ofChars rest := rfl
    rw [hofChars, unified, ih]
    · by_cases hc : c = '\r' <;> simp [hc, ofChars]
    · intro more hc hrest
      cases rest with
      | nil => contradiction
      | cons d rest =>
        obtain ⟨hd, -⟩ := List.cons.inj hrest
        exact hpair rest (CodePoint.scalar.inj hc) (by rw [CodePoint.scalar.inj hd])

theorem length_unified (s : Text) : (unified s).length ≤ s.length := by
  fun_induction unified s with
  | case1 => exact Nat.le_refl 0
  | case2 rest ih => exact Nat.succ_le_succ (Nat.le_succ_of_le ih)
  | case3 c rest _ ih => exact Nat.succ_le_succ ih

/-- A character that is part of no line end is in front of a text just if it is in front once the
line ends are made alike. -/
theorem unified_front (x : Char) (hreturn : x ≠ '\r') (hfeed : x ≠ '\n') (s : Text) :
    (∃ rest, s = .scalar x :: rest ∧ unified s = .scalar x :: unified rest) ∨
      (∀ rest, s ≠ .scalar x :: rest) ∧ ∀ rest, unified s ≠ .scalar x :: rest := by
  obtain rfl | ⟨c, rest, -, rfl, hs⟩ | ⟨rest, rest', rfl, hs⟩ := unified_cases s
  · exact .inr ⟨nofun, nofun⟩
  · by_cases hc : c = .scalar x
    · subst hc
      exact .inl ⟨rest, rfl, hs⟩
    · refine .inr ⟨fun _ h => hc (List.cons.inj h).1, fun _ h => ?_⟩
      rw [hs] at h
      exact hc (List.cons.inj h).1
  · refine .inr ⟨fun _ h => ?_, fun _ h => ?_⟩
    · exact hreturn (CodePoint.scalar.inj (List.cons.inj h).1).symm
    · rw [hs] at h
      exact hfeed (CodePoint.scalar.inj (List.cons.inj h).1).symm

end Text

namespace Json

open Text

def leaving {α : Type} (taken : α × Text) : α × Text := (taken.1, unified taken.2)

theorem digits_unified (s : Text) : digits (unified s) = leaving (digits s) := by
  induction s with
  | nil => rfl
  | cons c s ih =>
    by_cases hc : c = .scalar '\r'
    · obtain ⟨rest, hrest⟩ := unified_return s
      subst hc
      have hreturn : digits (.scalar '\r' :: s) = ([], .scalar '\r' :: s) := rfl
      rw [hreturn, leaving, hrest]
      rfl
    · rw [unified_cons hc, digits, digits]
      cases digit? c with
      | none => simp [leaving, unified_cons hc]
      | some d => simp [leaving, ih]

namespace Numeral

theorem sign_unified (s : Text) : sign (unified s) = leaving (sign s) := by
  obtain ⟨rest, rfl, hs⟩ | ⟨h, h'⟩ := unified_front '-' (by decide) (by decide) s
  · rw [hs]
    rfl
  · rw [sign, sign, leaving]
    · exact h
    · exact h'

theorem exponentSign_unified (s : Text) :
    exponentSign (unified s) = leaving (exponentSign s) := by
  obtain ⟨rest, rfl, hs⟩ | ⟨h, h'⟩ := unified_front '+' (by decide) (by decide) s
  · rw [hs]
    rfl
  · rw [exponentSign, exponentSign, sign_unified]
    · exact h
    · exact h'

theorem takeFraction_unified (s : Text) :
    takeFraction (unified s) = leaving (takeFraction s) := by
  obtain ⟨rest, rfl, hs⟩ | ⟨h, h'⟩ := unified_front '.' (by decide) (by decide) s
  · rw [hs, takeFraction, takeFraction, digits_unified]
    obtain ⟨ds, more⟩ := digits rest
    cases ds with
    | nil => simp [leaving, hs]
    | cons d ds => rfl
  · rw [takeFraction, takeFraction, leaving]
    · exact h
    · exact h'

theorem takeExponent_unified (s : Text) :
    takeExponent (unified s) = leaving (takeExponent s) := by
  obtain rfl | ⟨c, rest, hc, rfl, hs⟩ | ⟨rest, rest', rfl, hs⟩ := unified_cases s
  · rfl
  · rw [hs]
    cases c with
    | surrogate i => rw [takeExponent, takeExponent, leaving, hs] <;> simp
    | scalar x =>
      by_cases hx : x = 'e' ∨ x = 'E'
      · have hdigits := digits_unified (exponentSign rest).2
        simp only [takeExponent, if_pos hx, exponentSign_unified, leaving] at hdigits ⊢
        rw [hdigits]
        obtain ⟨ds, more⟩ := digits (exponentSign rest).2
        cases ds with
        | nil => simp only [hs]
        | cons d ds => rfl
      · simp only [takeExponent, if_neg hx, leaving, hs]
  · rw [hs]
    simp [takeExponent, leaving, hs]

theorem whole?_unified (s : Text) : whole? (unified s) = (whole? s).map leaving := by
  obtain rfl | ⟨c, rest, hc, rfl, hs⟩ | ⟨rest, rest', rfl, hs⟩ := unified_cases s
  · rfl
  · rw [hs, whole?, whole?, digits_unified]
    cases digit? c with
    | none => rfl
    | some d => by_cases hd : d = 0 <;> simp [hd, leaving]
  · rw [hs]
    rfl

theorem scan?_unified (s : Text) : scan? (unified s) = (scan? s).map leaving := by
  have hwhole := whole?_unified (sign s).2
  simp only [scan?, sign_unified, Option.bind_eq_bind, leaving] at hwhole ⊢
  rw [hwhole]
  cases whole? (sign s).2 with
  | none => rfl
  | some taken =>
    have hfraction := takeFraction_unified taken.2
    have hexponent := takeExponent_unified (takeFraction taken.2).2
    simp [leaving, hfraction, hexponent] at hfraction hexponent ⊢

end Numeral

def Failure.unified : Failure → Failure
  | .flaw f rest => .flaw f (Text.unified rest)
  | .limit l => .limit l

variable {α β : Type}

def carried (x : Except Failure (α × Text)) : Except Failure (α × Text) :=
  leaving <$> x.mapError Failure.unified

theorem carried_ok (v : α) (rest : Text) : carried (.ok (v, rest)) = .ok (v, unified rest) := rfl

theorem carried_flaw (f : Flaw) (rest : Text) :
    carried (.error (.flaw f rest) : Except Failure (α × Text)) =
      .error (.flaw f (unified rest)) := rfl

theorem carried_map (f : α → β) (x : Except Failure (α × Text)) :
    carried ((fun taken => (f taken.1, taken.2)) <$> x) =
      (fun taken => (f taken.1, taken.2)) <$> carried x := by
  cases x <;> rfl

theorem carried_bind {x : Except Failure (α × Text)} {f g : α × Text → Except Failure (β × Text)}
    (h : ∀ v rest, g (v, unified rest) = carried (f (v, rest))) :
    carried x >>= g = carried (x >>= f) := by
  cases x with
  | error e => cases e <;> rfl
  | ok taken => exact h taken.1 taken.2

namespace Reader

theorem skip_unified (s : Text) : skip (unified s) = unified (skip s) := by
  fun_induction unified s with
  | case1 => rfl
  | case2 rest ih => exact ih
  | case3 c rest hpair ih =>
    by_cases hc : c = .scalar '\r'
    · subst hc
      exact ih
    · rw [if_neg hc]
      cases hblank : isBlank c with
      | true => simp only [skip, List.dropWhile_cons, hblank, if_true] at ih ⊢; exact ih
      | false =>
        rw [skip_of_not_blank hblank, skip_of_not_blank hblank, unified_cons hc]

theorem number_unified (s : Text) : number (unified s) = carried (number s) := by
  rw [number, number, Numeral.scan?_unified]
  cases Numeral.scan? s with
  | none => rfl
  | some taken =>
    simp only [Option.map_some, leaving]
    cases taken.1.value <;> rfl

theorem after?_unified {word : Text} (h : ∀ c ∈ word, c ≠ .scalar '\r' ∧ c ≠ .scalar '\n')
    (s : Text) : Text.after? word (unified s) = (Text.after? word s).map unified := by
  induction word generalizing s with
  | nil => rfl
  | cons w word ih =>
    obtain ⟨⟨hreturn, hfeed⟩, hword⟩ := List.forall_mem_cons.mp h
    obtain rfl | ⟨c, rest, hc, rfl, hs⟩ | ⟨rest, rest', rfl, hs⟩ := unified_cases s
    · rfl
    · rw [hs, Text.after?, Text.after?, ih hword]
      split <;> rfl
    · rw [hs, Text.after?, Text.after?, if_neg hreturn, if_neg hfeed]
      rfl

theorem words_without_line_ends :
    ∀ p ∈ words, ∀ c ∈ p.1, c ≠ .scalar '\r' ∧ c ≠ .scalar '\n' := by decide

theorem findSome?_unified {ws : List (Text × Json)}
    (h : ∀ p ∈ ws, ∀ c ∈ p.1, c ≠ .scalar '\r' ∧ c ≠ .scalar '\n') (s : Text) :
    (ws.findSome? fun (w, v) => (Text.after? w (unified s)).map (v, ·)) =
      (ws.findSome? fun (w, v) => (Text.after? w s).map (v, ·)).map leaving := by
  induction ws with
  | nil => rfl
  | cons p ws ih =>
    obtain ⟨hp, hws⟩ := List.forall_mem_cons.mp h
    obtain ⟨w, v⟩ := p
    simp only [List.findSome?_cons, after?_unified hp, ih hws]
    cases Text.after? w s <;> rfl

theorem wordOrNumber_unified (s : Text) : wordOrNumber (unified s) = carried (wordOrNumber s) := by
  rw [wordOrNumber, wordOrNumber, findSome?_unified words_without_line_ends, number_unified]
  cases words.findSome? fun (w, v) => (Text.after? w s).map (v, ·) <;> rfl

end Reader

namespace Literal

def takeHexDigit? : Text → Option (Fin 16 × Text)
  | [] => none
  | c :: rest => (hexDigit? c).map (·, rest)

@[simp] theorem takeHexDigit?_nil : takeHexDigit? [] = none := rfl

@[simp] theorem takeHexDigit?_cons (c : CodePoint) (rest : Text) :
    takeHexDigit? (c :: rest) = (hexDigit? c).map (·, rest) := rfl

theorem takeHexDigit?_unified (s : Text) :
    takeHexDigit? (unified s) = (takeHexDigit? s).map leaving := by
  obtain rfl | ⟨c, rest, hc, rfl, hs⟩ | ⟨rest, rest', rfl, hs⟩ := unified_cases s
  · rfl
  · rw [hs, takeHexDigit?, takeHexDigit?]
    cases hexDigit? c <;> rfl
  · rw [hs]
    rfl

theorem unit_lt (a b c d : Fin 16) :
    ((a.val * 16 + b.val) * 16 + c.val) * 16 + d.val < 0x10000 := by omega

def takeUnit? (s : Text) : Option (Fin 0x10000 × Text) := do
  let (a, s) ← takeHexDigit? s
  let (b, s) ← takeHexDigit? s
  let (c, s) ← takeHexDigit? s
  let (d, s) ← takeHexDigit? s
  if s = [] then none
  else some (⟨((a.val * 16 + b.val) * 16 + c.val) * 16 + d.val, unit_lt a b c d⟩, s)

theorem map_leaving_bind {α β : Type} {x : Option (α × Text)} {f g : α × Text → Option (β × Text)}
    (h : ∀ v rest, g (v, unified rest) = (f (v, rest)).map leaving) :
    (x.map leaving).bind g = (x.bind f).map leaving := by
  cases x with
  | none => rfl
  | some taken => exact h taken.1 taken.2

theorem unified_eq_nil {s : Text} : unified s = [] ↔ s = [] := by
  obtain rfl | ⟨c, rest, hc, rfl, hs⟩ | ⟨rest, rest', rfl, hs⟩ := unified_cases s <;> simp [*]
  rfl

theorem takeUnit?_unified (s : Text) : takeUnit? (unified s) = (takeUnit? s).map leaving := by
  simp only [takeUnit?, Option.bind_eq_bind, takeHexDigit?_unified]
  refine map_leaving_bind fun a s => ?_
  simp only [takeHexDigit?_unified]
  refine map_leaving_bind fun b s => ?_
  simp only [takeHexDigit?_unified]
  refine map_leaving_bind fun c s => ?_
  simp only [takeHexDigit?_unified]
  refine map_leaving_bind fun d s => ?_
  simp only [unified_eq_nil]
  split <;> rfl

theorem takeUnit?_cons (a b c d next : CodePoint) (after : Text) :
    takeUnit? (a :: b :: c :: d :: next :: after) =
      (unit? a b c d).map (·, next :: after) := by
  cases ha : hexDigit? a <;> cases hb : hexDigit? b <;> cases hc : hexDigit? c <;>
    cases hd : hexDigit? d <;> simp [takeUnit?, unit?, ha, hb, hc, hd]

theorem takeUnit?_eq_none {s : Text}
    (h : ∀ a b c d next after, s ≠ a :: b :: c :: d :: next :: after) : takeUnit? s = none := by
  rcases s with _ | ⟨a, _ | ⟨b, _ | ⟨c, _ | ⟨d, _ | ⟨next, after⟩⟩⟩⟩⟩
  · rfl
  · cases ha : hexDigit? a <;> simp [takeUnit?, ha]
  · cases ha : hexDigit? a <;> cases hb : hexDigit? b <;> simp [takeUnit?, ha, hb]
  · cases ha : hexDigit? a <;> cases hb : hexDigit? b <;> cases hc : hexDigit? c <;>
      simp [takeUnit?, ha, hb, hc]
  · cases ha : hexDigit? a <;> cases hb : hexDigit? b <;> cases hc : hexDigit? c <;>
      cases hd : hexDigit? d <;> simp [takeUnit?, ha, hb, hc, hd]
  · exact absurd rfl (h a b c d next after)

/-- Scanning an escaped unit, with the digits and what must follow them looked at together. -/
theorem scan_unit (opening more : Text) :
    scan opening (.scalar '\\' :: .scalar 'u' :: more) =
      match takeUnit? more with
      | none => .error (.flaw .badUnitEscape (.scalar 'u' :: more))
      | some (u, rest) =>
        (fun (symbols, r) => (.unit u :: symbols, r)) <$> scan opening rest := by
  by_cases h : ∃ a b c d next after, more = a :: b :: c :: d :: next :: after
  · obtain ⟨a, b, c, d, next, after, rfl⟩ := h
    rw [scan.eq_def, takeUnit?_cons]
    cases hunit : unit? a b c d <;> simp [hunit]
  · simp only [not_exists] at h
    rw [scan.eq_def, takeUnit?_eq_none h]
    dsimp only
    rw [if_neg (by decide), if_pos rfl, if_pos rfl]
    split
    · exact absurd rfl (h _ _ _ _ _ _)
    · rfl

theorem scan_escape {e : CodePoint} (he : e ≠ .scalar 'u') (opening more : Text) :
    scan opening (.scalar '\\' :: e :: more) =
      match shortEscape? e with
      | none => .error (.flaw .unknownEscape (.scalar '\\' :: e :: more))
      | some x => (fun (symbols, r) => (.point (.scalar x) :: symbols, r)) <$> scan opening more := by
  rw [scan.eq_def]
  cases hescape : shortEscape? e <;> simp [he, hescape]

theorem unified_backslash (s : Text) :
    unified (.scalar '\\' :: s) = .scalar '\\' :: unified s := unified_cons (by decide) s

theorem unified_u (s : Text) : unified (.scalar 'u' :: s) = .scalar 'u' :: unified s :=
  unified_cons (by decide) s

theorem scan_unified (opening s : Text) :
    scan (unified opening) (unified s) = carried (scan opening s) := by
  fun_induction scan opening s with
  | case1 => rfl
  | case2 rest =>
    rw [unified_cons (by decide), scan.eq_def]
    rfl
  | case3 => rfl
  | case4 d₁ d₂ d₃ d₄ next after hunit _ =>
    have hnone : takeUnit? (d₁ :: d₂ :: d₃ :: d₄ :: next :: after) = none := by
      rw [takeUnit?_cons, hunit, Option.map_none]
    rw [unified_backslash, unified_u, scan_unit, takeUnit?_unified, hnone, carried_flaw, unified_u]
    rfl
  | case5 d₁ d₂ d₃ d₄ next after u hunit _ ih =>
    have hsome : takeUnit? (d₁ :: d₂ :: d₃ :: d₄ :: next :: after) = some (u, next :: after) := by
      rw [takeUnit?_cons, hunit, Option.map_some]
    rw [unified_backslash, unified_u, scan_unit, takeUnit?_unified, hsome, carried_map, ← ih]
    rfl
  | case6 more hfew _ =>
    rw [unified_backslash, unified_u, scan_unit, takeUnit?_unified, takeUnit?_eq_none hfew,
      carried_flaw, unified_u]
    rfl
  | case7 e more he hescape _ =>
    -- what is escaped can be a carriage return, which is no escape as a line feed either
    obtain h | ⟨d, rest, hd, h, hs⟩ | ⟨rest, rest', h, hs⟩ := unified_cases (e :: more)
    · contradiction
    · obtain ⟨rfl, rfl⟩ := List.cons.inj h
      rw [unified_backslash, hs, scan_escape he, hescape, carried_flaw, unified_backslash, hs]
    · have hfeed : CodePoint.scalar '\n' ≠ .scalar 'u' := by decide
      rw [unified_backslash, hs, scan_escape hfeed, carried_flaw, unified_backslash, hs]
      rfl
  | case8 e more he x hescape _ ih =>
    have hreturn : e ≠ .scalar '\r' := by
      rintro rfl
      contradiction
    rw [unified_backslash, unified_cons hreturn, scan_escape he, hescape, carried_map, ← ih]
  | case9 c rest hquote hslash hcontrol =>
    obtain h | ⟨d, rest, hd, h, hs⟩ | ⟨rest, rest', h, hs⟩ := unified_cases (c :: rest)
    · contradiction
    · obtain ⟨rfl, rfl⟩ := List.cons.inj h
      rw [carried_flaw, hs, scan.eq_def]
      simp only [if_neg hquote, if_neg hslash, if_pos hcontrol]
    · rw [carried_flaw, hs, scan.eq_def]
      rfl
  | case10 c rest hquote hslash hcontrol ih =>
    have hreturn : c ≠ .scalar '\r' := by
      rintro rfl
      exact hcontrol (by decide)
    rw [unified_cons hreturn, scan.eq_def, carried_map, ← ih]
    simp only [if_neg hquote, if_neg hslash, if_neg hcontrol]

end Literal

namespace Reader

theorem string_unified (opening s : Text) :
    string (unified opening) (unified s) = carried (string opening s) := by
  rw [string, string, Literal.scan_unified, ← carried_map]

/-- A reader that takes the same off the front of a text with its line ends made alike, and leaves
the same with its line ends made alike. -/
def Unifies (read : Text → Except Failure (α × Text)) : Prop :=
  ∀ s, read (unified s) = carried (read s)

theorem sequence_unified {close : Char} (hreturn : close ≠ '\r') (hfeed : close ≠ '\n')
    {missing : Flaw} {one : Text → Except Failure (α × Text)} (hone : Unifies one) (fuel : Nat) :
    Unifies (sequence close missing one fuel) := by
  induction fuel with
  | zero => exact fun s => rfl
  | succ fuel ih =>
    intro s
    rw [sequence, sequence, hone]
    refine carried_bind fun v rest => ?_
    dsimp only
    rw [skip_unified]
    generalize skip rest = more
    obtain rfl | ⟨c, more, -, rfl, hs⟩ | ⟨more, more', rfl, hs⟩ := unified_cases more
    · rfl
    · simp only [hs]
      split
      · rfl
      · split
        · rw [skip_unified, ih]
          exact carried_bind fun vs rest => rfl
        · rw [carried_flaw, hs]
    -- a carriage return does not close the container, nor does a line feed in its place
    · simp [hs, carried_flaw, hreturn.symm, hfeed.symm]

theorem length_skip (s : Text) : (skip s).length ≤ s.length :=
  (List.dropWhile_suffix isBlank).length_le

variable {level : Nat} {read : ValueReader}

theorem Keeps.length_le {one : Text → Except Failure (α × Text)} (h : Keeps level one)
    {s rest : Text} {v : α} (hread : one s = .ok (v, rest)) : rest.length ≤ s.length := by
  obtain ⟨used, rfl, -⟩ := h.leads hread
  simp

theorem sequence_of_length_le {close : Char} {missing : Flaw}
    {one : Text → Except Failure (α × Text)} (hkeeps : Keeps level one)
    (hnil : one [] = .error (.flaw missing [])) {fuel fuel' : Nat} {s : Text}
    (h : s.length ≤ fuel) (h' : s.length ≤ fuel') :
    sequence close missing one fuel s = sequence close missing one fuel' s := by
  have hempty (n : Nat) : sequence close missing one n [] = .error (.flaw missing []) := by
    cases n with
    | zero => rfl
    | succ n => rw [sequence, hnil]; rfl
  induction fuel generalizing s fuel' with
  | zero =>
    obtain rfl := List.eq_nil_of_length_eq_zero (Nat.le_zero.mp h)
    rw [hempty, hempty]
  | succ fuel ih =>
    cases fuel' with
    | zero =>
      obtain rfl := List.eq_nil_of_length_eq_zero (Nat.le_zero.mp h')
      rw [hempty, hempty]
    | succ fuel' =>
      rw [sequence, sequence]
      cases hread : one s with
      | error e => rfl
      | ok taken =>
        obtain ⟨v, rest⟩ := taken
        have hrest := hkeeps.length_le hread
        have hskip := length_skip rest
        simp only [bind, Except.bind]
        cases hmore : skip rest with
        | nil => rfl
        | cons c more =>
          -- the comma before the next one is what makes the text shorter
          have hmore' := length_skip more
          rw [hmore, List.length_cons] at hskip
          have hsame : sequence close missing one fuel (skip more) =
              sequence close missing one fuel' (skip more) := ih (by omega) (by omega)
          simp only [hsame]

theorem sequence_length_unified {close : Char} (hreturn : close ≠ '\r') (hfeed : close ≠ '\n')
    {missing : Flaw} {one : Text → Except Failure (α × Text)} (hone : Unifies one)
    (hkeeps : Keeps level one) (hnil : one [] = .error (.flaw missing [])) (s : Text) :
    sequence close missing one (unified s).length (unified s) =
      carried (sequence close missing one s.length s) := by
  rw [sequence_of_length_le hkeeps hnil (Nat.le_refl _) (length_unified s),
    sequence_unified hreturn hfeed hone]

theorem array_unified (hread : Unifies read) (hkeeps : Keeps level read)
    (hnil : read [] = .error (.flaw .noValue [])) : Unifies (array read) := by
  intro s
  rw [array, array, skip_unified]
  generalize skip s = inside
  obtain ⟨rest, rfl, hs⟩ | ⟨h, h'⟩ := unified_front ']' (by decide) (by decide) inside
  · rw [hs]
    rfl
  · split
    · rename_i hunified
      exact absurd hunified (h' _)
    · rw [items_eq_sequence, items_eq_sequence,
        sequence_length_unified (by decide) (by decide) hread hkeeps hnil]
      exact (carried_map _ _).symm

theorem member_unified (hread : Unifies read) : Unifies (member read) := by
  intro s
  obtain ⟨inside, rfl, hs⟩ | ⟨h, h'⟩ := unified_front '"' (by decide) (by decide) s
  · have hstring := string_unified (.scalar '"' :: inside) inside
    rw [hs] at hstring ⊢
    rw [member, member, hstring]
    refine carried_bind fun key rest => ?_
    dsimp only
    rw [skip_unified]
    generalize skip rest = more
    obtain ⟨more', rfl, hmore⟩ | ⟨hcolon, hcolon'⟩ := unified_front ':' (by decide) (by decide) more
    · rw [hmore]
      change read (skip (unified more')) >>= _ = carried (read (skip more') >>= _)
      rw [skip_unified, hread]
      exact carried_bind fun v rest => rfl
    · split
      · rename_i hunified
        exact absurd hunified (hcolon' _)
      · rw [carried_flaw]
  · rw [member, member, carried_flaw]
    · exact h
    · exact h'

theorem object_unified (hread : Unifies read) (hkeeps : Keeps level read) :
    Unifies (object read) := by
  intro s
  rw [object, object, skip_unified]
  generalize skip s = inside
  obtain ⟨rest, rfl, hs⟩ | ⟨h, h'⟩ := unified_front '}' (by decide) (by decide) inside
  · rw [hs]
    rfl
  · split
    · rename_i hunified
      exact absurd hunified (h' _)
    · rw [members_eq_sequence, members_eq_sequence, sequence_length_unified (by decide)
        (by decide) (member_unified hread) (keeps_member hkeeps) rfl]
      exact (carried_map (fun ms => Json.obj (ofPairs ms)) _).symm

theorem valueWith_unified {inside : Container → ValueReader}
    (hinside : ∀ container, Unifies (inside container)) : Unifies (valueWith inside) := by
  intro s
  obtain ⟨rest, rfl, hs⟩ | ⟨hquote, hquote'⟩ := unified_front '"' (by decide) (by decide) s
  · have hstring := string_unified (.scalar '"' :: rest) rest
    rw [hs] at hstring ⊢
    rw [valueWith, valueWith, hstring]
    exact (carried_map _ _).symm
  obtain ⟨rest, rfl, hs⟩ | ⟨hbracket, hbracket'⟩ := unified_front '[' (by decide) (by decide) s
  · rw [hs]
    exact hinside .array rest
  obtain ⟨rest, rfl, hs⟩ | ⟨hbrace, hbrace'⟩ := unified_front '{' (by decide) (by decide) s
  · rw [hs]
    exact hinside .object rest
  rw [valueWith, valueWith, wordOrNumber_unified]
  · exact hquote
  · exact hbracket
  · exact hbrace
  · exact hquote'
  · exact hbracket'
  · exact hbrace'

theorem value_nil (depth : Nat) : value depth [] = .error (.flaw .noValue []) := by
  cases depth <;> rfl

theorem value_unified {depth : Nat} (hdepth : depth ≤ maxDepth) : Unifies (value depth) := by
  induction depth with
  | zero => exact valueWith_unified fun container s => rfl
  | succ depth ih =>
    have hle := Nat.le_of_succ_le hdepth
    have hkeeps := keeps_value (Nat.sub_add_cancel hle)
    refine valueWith_unified fun container => ?_
    cases container with
    | array => exact array_unified (ih hle) hkeeps (value_nil depth)
    | object => exact object_unified (ih hle) hkeeps

theorem document_unified (s : Text) :
    document (unified s) = (document s).mapError Failure.unified := by
  obtain ⟨rest, rfl, hs⟩ | ⟨h, h'⟩ := unified_front '\uFEFF' (by decide) (by decide) s
  · rw [hs]
    change Except.error _ = Except.error (Failure.flaw _ _)
    rw [hs]
  · rw [document, document, skip_unified, value_unified (Nat.le_refl _)]
    · cases value maxDepth (skip s) with
      | error e => cases e <;> rfl
      | ok taken =>
        obtain ⟨v, rest⟩ := taken
        rw [carried_ok]
        simp only [bind, Except.bind, skip_unified]
        generalize skip rest = more
        obtain rfl | ⟨c, more, -, rfl, hs⟩ | ⟨more, more', rfl, hs⟩ := unified_cases more
        · rfl
        · rw [hs]
          change Except.error _ = Except.error (Failure.flaw _ _)
          rw [hs]
        · rw [hs]
          change Except.error _ = Except.error (Failure.flaw _ _)
          rw [hs]
    · exact h
    · exact h'

end Reader

/-- A text with its line ends made alike is read as the same value, or stops the reader at the same
limit or by the same flaw. -/
theorem read_unified (s : Text) :
    (∀ v, Json.read (unified s) = .ok v ↔ Json.read s = .ok v) ∧
    (∀ l, Json.read (unified s) = .error (.limit l) ↔ Json.read s = .error (.limit l)) ∧
    ∀ flaw, (∃ place, Json.read (unified s) = .error (.malformed ⟨flaw, place⟩)) ↔
      ∃ place, Json.read s = .error (.malformed ⟨flaw, place⟩) := by
  rw [Json.read, Json.read, Reader.document_unified]
  cases Reader.document s with
  | ok v => simp [Except.mapError_eq_ok, Except.mapError_eq_error]
  | error e =>
    cases e <;>
      simp [Except.mapError_eq_ok, Except.mapError_eq_error, Failure.unified, Failure.locate]

end Json
end IssueRelay
