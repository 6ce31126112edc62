import IssueRelay.Proofs.Json.Limits

/-!
What stands next to a string. In a text that is read, a string ends on the line on which it begins,
and where one has ended none begins before a comma, a colon or a closing bracket or brace. So no line
that ends in a quote is followed by one that begins with a quote.
-/

set_option autoImplicit false

namespace IssueRelay.Json

/-- How a place in a text stands to the strings in it: outside of them, past the end of one with
nothing but blanks since, inside of one, right after a backslash in one, or past a clash of two. A
control character in a string is a clash as well. -/
inductive Standing
  | outside
  | ended
  | inside
  | escape
  | clash
  deriving DecidableEq

namespace Standing

def next : Standing → CodePoint → Standing
  | outside, c => if c = .scalar '"' then inside else outside
  | ended, c =>
    if c = .scalar '"' then clash
    else if Reader.isBlank c then ended
    else outside
  | inside, c =>
    if c = .scalar '"' then ended
    else if c = .scalar '\\' then escape
    else if c.value < 0x20 then clash
    else inside
  | escape, _ => inside
  | clash, _ => clash

def after (p : Standing) (s : Text) : Standing := s.foldl next p

@[simp] theorem after_nil (p : Standing) : p.after [] = p := rfl

@[simp] theorem after_cons (p : Standing) (c : CodePoint) (s : Text) :
    p.after (c :: s) = (p.next c).after s := rfl

@[simp] theorem after_append (p : Standing) (s t : Text) :
    p.after (s ++ t) = (p.after s).after t := by simp [after]

def Outside (p : Standing) : Prop := p = outside

def Inside (p : Standing) : Prop := p = inside

def Between (p : Standing) : Prop := p = outside ∨ p = ended

theorem Outside.between {p : Standing} (h : Outside p) : Between p := .inl h

theorem Outside.next_quote {p : Standing} (h : Outside p) : Inside (p.next (.scalar '"')) := by
  cases h
  rfl

theorem Outside.next_of_isPlain {p : Standing} (h : Outside p) {c : CodePoint}
    (hc : isPlain c = true) : Outside (p.next c) := by
  cases h
  have hquote : c ≠ .scalar '"' := by rintro rfl; contradiction
  exact if_neg hquote

theorem Between.next_of_isBlank {p : Standing} (h : Between p) {c : CodePoint}
    (hc : Reader.isBlank c = true) : p.next c = p := by
  have hquote : c ≠ .scalar '"' := by rintro rfl; contradiction
  obtain rfl | rfl := h <;> simp [next, hquote, hc]

theorem Between.next_mark {p : Standing} (h : Between p) {c : Char} (hquote : c ≠ '"')
    (hblank : Reader.isBlank (.scalar c) = false) : Outside (p.next (.scalar c)) := by
  obtain rfl | rfl := h <;> simp [Outside, next, hquote, hblank]

theorem after_clash (s : Text) : clash.after s = clash := by
  induction s with
  | nil => rfl
  | cons c s ih => exact ih

theorem Between.after_blanks {p : Standing} (h : Between p) {s : Text}
    (hs : ∀ c ∈ s, Reader.isBlank c = true) : p.after s = p := by
  induction s with
  | nil => rfl
  | cons c s ih =>
    obtain ⟨hc, hs⟩ := List.forall_mem_cons.mp hs
    rw [after_cons, h.next_of_isBlank hc, ih hs]

/-- A line that ends in a quote and one that begins with a quote clash, whether the first quote opens
a string, which then goes over the end of the line, or ends one. -/
theorem after_quote_lineFeed_quote (p : Standing) {blanks : Text}
    (h : ∀ c ∈ blanks, Reader.isBlank c = true) (s : Text) :
    p.after (.scalar '"' :: .scalar '\n' :: (blanks ++ .scalar '"' :: s)) = clash := by
  have hended : ended.after (blanks ++ .scalar '"' :: s) = clash := by
    rw [after_append, Between.after_blanks (.inr rfl) h]
    exact after_clash s
  cases p with
  | inside => exact hended
  | outside | ended | escape | clash => exact after_clash _

end Standing

open Standing

/-- A part can be taken off the front of a text that leads from places of one sort to places of
another. -/
def Runs (P Q : Standing → Prop) (s rest : Text) : Prop :=
  ∃ used, s = used ++ rest ∧ ∀ p, P p → Q (p.after used)

namespace Runs

variable {P Q R : Standing → Prop} {s t rest : Text}

theorem refl (h : ∀ p, P p → Q p) (s : Text) : Runs P Q s s := ⟨[], rfl, h⟩

theorem trans (h : Runs P Q s t) (h' : Runs Q R t rest) : Runs P R s rest := by
  obtain ⟨used, rfl, hused⟩ := h
  obtain ⟨used', rfl, hused'⟩ := h'
  exact ⟨used ++ used', by simp, fun p hp => after_append p used used' ▸ hused' _ (hused p hp)⟩

theorem cons {c : CodePoint} (hc : ∀ p, P p → Q (p.next c)) (h : Runs Q R s rest) :
    Runs P R (c :: s) rest := trans ⟨[c], rfl, hc⟩ h

end Runs

theorem Plain.runs {s rest : Text} (h : Plain s rest) : Runs Outside Outside s rest := by
  obtain ⟨used, rfl, hused⟩ := h
  induction used with
  | nil => exact .refl (fun _ h => h) _
  | cons c used ih =>
    obtain ⟨hc, hused⟩ := List.forall_mem_cons.mp hused
    exact .cons (fun p hp => hp.next_of_isPlain hc) (ih hused)

theorem runs_skip (s : Text) : Runs Between Between s (Reader.skip s) := by
  obtain ⟨hs, hblank⟩ := takeWhile_append_skip s
  exact ⟨_, hs.symm, fun p hp => (hp.after_blanks hblank).symm ▸ hp⟩

theorem runs_mark {c : Char} (hquote : c ≠ '"') (hblank : Reader.isBlank (.scalar c) = false)
    (s : Text) : Runs Between Outside (.scalar c :: s) s :=
  .cons (fun _ hp => hp.next_mark hquote hblank) (.refl (fun _ h => h) s)

namespace Literal

theorem hexDigit?_of_control {c : CodePoint} (h : c.value < 0x20) : hexDigit? c = none := by
  have hnone {first : Char} {size : Nat} (hfirst : 0x20 ≤ first.toNat) :
      c.indexFrom? first size = none := dif_neg (by omega)
  have hdigit : c.indexFrom? '0' 10 = none := hnone (by decide)
  have hlower : c.indexFrom? 'a' 6 = none := hnone (by decide)
  have hupper : c.indexFrom? 'A' 6 = none := hnone (by decide)
  rw [hexDigit?, hdigit, hlower, hupper]
  rfl

theorem inside_of_hexDigit? {c : CodePoint} {d : Fin 16} (h : hexDigit? c = some d)
    (p : Standing) (hp : Inside p) : Inside (p.next c) := by
  cases hp
  have hquote : c ≠ .scalar '"' := by rintro rfl; contradiction
  have hslash : c ≠ .scalar '\\' := by rintro rfl; contradiction
  have hcontrol : ¬c.value < 0x20 := fun hc => nomatch (hexDigit?_of_control hc).symm.trans h
  simp [Inside, next, hquote, hslash, hcontrol]

theorem runs_unit? {a b c d : CodePoint} {u : Fin 0x10000} (h : unit? a b c d = some u)
    (rest : Text) : Runs Inside Inside (a :: b :: c :: d :: rest) rest := by
  simp only [unit?, Option.bind_eq_bind, Option.bind_eq_some_iff] at h
  obtain ⟨_, ha, _, hb, _, hc, _, hd, -⟩ := h
  exact .cons (inside_of_hexDigit? ha) <| .cons (inside_of_hexDigit? hb) <|
    .cons (inside_of_hexDigit? hc) <| .cons (inside_of_hexDigit? hd) (.refl (fun _ h => h) _)

theorem runs_escape {c : CodePoint} {s rest : Text} {Q : Standing → Prop}
    (h : Runs Inside Q s rest) : Runs Inside Q (.scalar '\\' :: c :: s) rest := by
  have hslash (p : Standing) (hp : Inside p) : p.next (.scalar '\\') = escape := by
    cases hp
    rfl
  have hnext (p : Standing) (hp : p = escape) : Inside (p.next c) := by
    cases hp
    rfl
  exact .cons hslash (.cons hnext h)

theorem runs_scan {opening s rest : Text} {symbols : List Symbol}
    (h : scan opening s = .ok (symbols, rest)) : Runs Inside Between s rest := by
  fun_induction scan opening s generalizing symbols with
  | case1 | case3 | case4 | case6 | case7 | case9 => contradiction
  | case2 _ =>
    cases h
    refine .cons (fun p hp => ?_) (.refl (fun _ h => h) _)
    cases hp
    exact .inr rfl
  | case5 _ _ _ _ _ _ _ hunit _ ih =>
    obtain ⟨⟨symbols', rest'⟩, hscan, hpair⟩ := Except.map_eq_ok.mp h
    cases hpair
    exact runs_escape ((runs_unit? hunit _).trans (ih hscan))
  | case8 _ _ _ _ _ _ ih =>
    obtain ⟨⟨symbols', rest'⟩, hscan, hpair⟩ := Except.map_eq_ok.mp h
    cases hpair
    exact runs_escape (ih hscan)
  | case10 c _ hquote hslash hcontrol ih =>
    obtain ⟨⟨symbols', rest'⟩, hscan, hpair⟩ := Except.map_eq_ok.mp h
    cases hpair
    refine .cons (fun p hp => ?_) (ih hscan)
    cases hp
    simp [Inside, next, hquote, hslash, hcontrol]

end Literal

namespace Reader

theorem runs_string {opening s rest : Text} {t : Text} (h : string opening s = .ok (t, rest)) :
    Runs Inside Between s rest := by
  obtain ⟨⟨symbols, rest'⟩, hscan, hpair⟩ := Except.map_eq_ok.mp h
  cases hpair
  exact Literal.runs_scan hscan

variable {α : Type}

def RunsOver (read : Text → Except Failure (α × Text)) : Prop :=
  ∀ {s rest v}, read s = .ok (v, rest) → Runs Outside Between s rest

theorem runs_close {close : Char} (hquote : close ≠ '"')
    (hblank : isBlank (.scalar close) = false) {s rest : Text}
    (h : skip s = .scalar close :: rest) : Runs Outside Outside s rest := by
  have hfront := (plain_skip s).runs
  rw [h] at hfront
  exact (hfront.trans (.refl (fun _ hp => hp.between) _)).trans (runs_mark hquote hblank rest)

theorem runs_sequence {close : Char} (hquote : close ≠ '"')
    (hblank : isBlank (.scalar close) = false) {missing : Flaw}
    {one : Text → Except Failure (α × Text)} (hone : RunsOver one) {fuel : Nat} {s rest : Text}
    {vs : List α} (h : sequence close missing one fuel s = .ok (vs, rest)) :
    Runs Outside Outside s rest := by
  induction fuel generalizing s vs with
  | zero => cases h
  | succ fuel ih =>
    obtain ⟨⟨v, more⟩, hv, h⟩ := Except.bind_eq_ok.mp h
    have hfront := (hone hv).trans (runs_skip more)
    cases hmore : skip more with
    | nil => simp [hmore] at h
    | cons c more' =>
      simp only [hmore] at h hfront
      split at h
      · rename_i hc
        cases h
        subst hc
        exact hfront.trans (runs_mark hquote hblank _)
      · split at h
        · rename_i hc
          obtain ⟨⟨vs', rest'⟩, hvs, hpair⟩ := Except.bind_eq_ok.mp h
          cases hpair
          subst hc
          have hcomma := runs_mark (by decide : ',' ≠ '"') rfl
          exact hfront.trans ((hcomma _).trans ((plain_skip _).runs.trans (ih hvs)))
        · cases h

variable {read : ValueReader}

theorem runs_member (hread : RunsOver read) : RunsOver (member read) := by
  intro s rest m h
  unfold member at h
  split at h
  · obtain ⟨⟨key, more⟩, hkey, h⟩ := Except.bind_eq_ok.mp h
    have hfront := (runs_string hkey).trans (runs_skip more)
    dsimp only at h
    split at h
    · rename_i more' hcolon
      obtain ⟨⟨v, rest'⟩, hv, hpair⟩ := Except.bind_eq_ok.mp h
      cases hpair
      rw [hcolon] at hfront
      have hvalue := (plain_skip more').runs.trans (hread hv)
      exact .cons (fun _ hp => hp.next_quote) <|
        hfront.trans ((runs_mark (by decide) rfl more').trans hvalue)
    · cases h
  · cases h

theorem runs_array (hread : RunsOver read) {s rest : Text} {v : Json}
    (h : array read s = .ok (v, rest)) : Runs Outside Outside s rest := by
  unfold array at h
  split at h
  · rename_i hend
    cases h
    exact runs_close (by decide) rfl hend
  · obtain ⟨⟨vs, rest'⟩, hvs, hpair⟩ := Except.map_eq_ok.mp h
    cases hpair
    rw [items_eq_sequence] at hvs
    exact (plain_skip s).runs.trans (runs_sequence (by decide) rfl hread hvs)

theorem runs_object (hread : RunsOver read) {s rest : Text} {v : Json}
    (h : object read s = .ok (v, rest)) : Runs Outside Outside s rest := by
  unfold object at h
  split at h
  · rename_i hend
    cases h
    exact runs_close (by decide) rfl hend
  · obtain ⟨⟨ms, rest'⟩, hms, hpair⟩ := Except.map_eq_ok.mp h
    cases hpair
    rw [members_eq_sequence] at hms
    exact (plain_skip s).runs.trans (runs_sequence (by decide) rfl (runs_member hread) hms)

theorem runs_valueWith {inside : Container → ValueReader}
    (hinside : ∀ container {s rest v}, inside container s = .ok (v, rest) →
      Runs Outside Outside s rest) : RunsOver (valueWith inside) := by
  intro s rest v h
  have hweaken {s : Text} (h : Runs Outside Outside s rest) : Runs Outside Between s rest :=
    h.trans (.refl (fun _ hp => hp.between) _)
  unfold valueWith at h
  split at h
  · obtain ⟨⟨t, rest'⟩, ht, hpair⟩ := Except.map_eq_ok.mp h
    cases hpair
    exact .cons (fun _ hp => hp.next_quote) (runs_string ht)
  · exact hweaken (.cons (fun _ hp => hp.between.next_mark (by decide) rfl) (hinside .array h))
  · exact hweaken (.cons (fun _ hp => hp.between.next_mark (by decide) rfl) (hinside .object h))
  · exact hweaken (plain_wordOrNumber h).runs

theorem runs_value (depth : Nat) : RunsOver (value depth) := by
  induction depth with
  | zero => exact runs_valueWith fun _ _ _ _ h => by cases h
  | succ depth ih =>
    refine runs_valueWith fun container s rest v h => ?_
    cases container with
    | array => exact runs_array ih h
    | object => exact runs_object ih h

theorem exists_name_of_members {fuel : Nat} {s rest : Text} {ms : List (Text × Json)}
    (h : members read fuel s = .ok (ms, rest)) : ∃ inside, s = .scalar '"' :: inside := by
  cases fuel with
  | zero => cases h
  | succ fuel =>
    obtain ⟨m, hm, -⟩ := Except.bind_eq_ok.mp h
    unfold member at hm
    split at hm
    · exact ⟨_, rfl⟩
    · cases hm

theorem document_eq_ok {s : Text} {v : Json} (h : document s = .ok v) :
    ∃ rest, value maxDepth (skip s) = .ok (v, rest) ∧ skip rest = [] := by
  unfold document at h
  split at h
  · cases h
  · obtain ⟨⟨v', rest⟩, hv, hend⟩ := Except.bind_eq_ok.mp h
    dsimp only at hend
    split at hend
    · rename_i hrest
      cases hend
      exact ⟨rest, hv, hrest⟩
    · cases hend

end Reader

open Reader

variable {s : Text} {v : Json}

theorem document_of_read (h : Json.read s = .ok v) : document s = .ok v :=
  Except.mapError_eq_ok.mp h

/-- A text that is read ends where a value may end, with no clash on the way. -/
theorem between_of_read (h : Json.read s = .ok v) : Between (outside.after s) := by
  obtain ⟨rest, hv, hrest⟩ := document_eq_ok (document_of_read h)
  have hrun := (plain_skip s).runs.trans ((runs_value maxDepth hv).trans (runs_skip rest))
  rw [hrest] at hrun
  obtain ⟨used, hused, hbetween⟩ := hrun
  rw [hused, List.append_nil]
  exact hbetween outside rfl

/-- No text is read in which a line that ends in a quote is followed by one that begins with a
quote. -/
theorem read_ne_of_adjacent_quotes (before after : Text) {blanks : Text}
    (h : ∀ c ∈ blanks, isBlank c = true) (v : Json) :
    Json.read (before ++ .scalar '"' :: .scalar '\n' :: (blanks ++ .scalar '"' :: after)) ≠
      .ok v := by
  intro hread
  have hbetween := between_of_read hread
  rw [after_append, after_quote_lineFeed_quote _ h] at hbetween
  cases hbetween <;> contradiction

theorem isBlank_of_skip {s : Text} (h : skip s = []) : ∀ c ∈ s, isBlank c = true := by
  obtain ⟨hs, hblank⟩ := takeWhile_append_skip s
  rw [h, List.append_nil] at hs
  rwa [hs] at hblank

theorem skip_of_read_brace (h : Json.read (.scalar '{' :: s) = .ok v) :
    (∃ rest, skip s = .scalar '"' :: rest) ∨ ∃ rest, skip s = .scalar '}' :: rest ∧
      ∀ c ∈ rest, isBlank c = true := by
  obtain ⟨rest, hv, hrest⟩ := document_eq_ok (document_of_read h)
  obtain ⟨depth, hdepth⟩ := Nat.exists_eq_add_one.mpr (by decide : 0 < maxDepth)
  rw [hdepth] at hv
  change object (value depth) s = .ok (v, rest) at hv
  unfold object at hv
  split at hv
  · rename_i hend
    cases hv
    exact .inr ⟨_, hend, isBlank_of_skip hrest⟩
  · obtain ⟨⟨ms, rest'⟩, hms, -⟩ := Except.map_eq_ok.mp hv
    exact .inl (exists_name_of_members hms)

end IssueRelay.Json
