import IssueRelay.Proofs.Json.Opened

/-!
The limits of the reader. A reader that stops at a limit has come to a place in the text that goes
past it: outside of strings, a run of more digits than an integer may have, or a bracket or a brace
where as many containers are open as may be. A reader that does not stop leaves as many containers
open as there were.
-/

set_option autoImplicit false

namespace IssueRelay.Json

open Opened

def Container.opening : Container → Char
  | .array => '['
  | .object => '{'

theorem next_opening (container : Container) (n : Nat) :
    (containers n).next (.scalar container.opening) = containers (n + 1) := by
  cases container <;> rfl

namespace Limit

/-- Whether a text goes past a limit at a place where no string is open, when `level` containers are
open around the text. -/
def Exceeded (level : Nat) (s : Text) : Limit → Prop
  | .integerDigits count => maxDigits < count ∧
    ∃ before ds rest n, s = before ++ (digitText ds ++ rest) ∧ ds.length = count ∧
      (containers level).after before = containers n
  | .nesting container =>
    ∃ before rest, s = before ++ .scalar container.opening :: rest ∧
      (containers level).after before = containers Reader.maxDepth

theorem Exceeded.of_append {level level' : Nat} {used s : Text} {l : Limit}
    (h : (containers level).after used = containers level') (hl : l.Exceeded level' s) :
    l.Exceeded level (used ++ s) := by
  cases l with
  | integerDigits count =>
    obtain ⟨hcount, before, ds, rest, n, rfl, hlength, hn⟩ := hl
    exact ⟨hcount, used ++ before, ds, rest, n, by simp, hlength, by rw [after_append, h, hn]⟩
  | nesting container =>
    obtain ⟨before, rest, rfl, hn⟩ := hl
    exact ⟨used ++ before, rest, by simp, by rw [after_append, h, hn]⟩

theorem Exceeded.of_level {level : Nat} {s t : Text} {l : Limit} (h : Level s t)
    (hl : l.Exceeded level t) : l.Exceeded level s := by
  obtain ⟨used, rfl, hused⟩ := h
  exact hl.of_append (hused level)

theorem Exceeded.of_opening {level : Nat} {s : Text} {l : Limit} (container : Container)
    (hl : l.Exceeded (level + 1) s) : l.Exceeded level (.scalar container.opening :: s) :=
  have hopen : (containers level).after [.scalar container.opening] = containers (level + 1) :=
    next_opening container level
  hl.of_append hopen

end Limit

namespace Reader

theorem exceeded_number {s : Text} {l : Limit} (h : number s = .error (.limit l)) (level : Nat) :
    l.Exceeded level s := by
  unfold number at h
  split at h
  · cases h
  · rename_i n rest hscan
    obtain ⟨more, hfront, -⟩ := Numeral.plain_scan? hscan
    split at h
    · contradiction
    · rename_i l' hvalue
      cases h
      unfold Numeral.value at hvalue
      split at hvalue
      · split at hvalue
        · contradiction
        · rename_i hlong
          cases hvalue
          have hdigits : (Limit.integerDigits n.whole.length).Exceeded level
              (digitText n.whole ++ more) :=
            ⟨by omega, [], n.whole, more, level, rfl, rfl, rfl⟩
          exact hdigits.of_level hfront.level
      · contradiction

theorem exceeded_wordOrNumber {s : Text} {l : Limit} (h : wordOrNumber s = .error (.limit l))
    (level : Nat) : l.Exceeded level s := by
  unfold wordOrNumber at h
  split at h
  · contradiction
  · exact exceeded_number h level

theorem leads_string {opening s rest : Text} {t : Text} (h : string opening s = .ok (t, rest)) :
    Leads Opened.string containers s rest := by
  obtain ⟨⟨symbols, rest'⟩, hscan, hpair⟩ := Except.map_eq_ok.mp h
  cases hpair
  exact Literal.leads_scan hscan

theorem string_ne_limit (opening s : Text) (l : Limit) : string opening s ≠ .error (.limit l) :=
  fun h => Literal.scan_ne_limit opening s l (Except.map_eq_error.mp h)

variable {α : Type} {level : Nat}

/-- A reader inside of so many containers that leaves no more of them open than there are, and goes
past the limit that stops it. -/
structure Keeps (level : Nat) (read : Text → Except Failure (α × Text)) : Prop where
  leads {s rest : Text} {v : α} : read s = .ok (v, rest) → Level s rest
  exceeded {s : Text} {l : Limit} : read s = .error (.limit l) → l.Exceeded level s

/-- What the items of an array and the members of an object have in common: one by one they are read
up to what closes the container. -/
def sequence (close : Char) (missing : Flaw) (one : Text → Except Failure (α × Text)) :
    Nat → Text → Except Failure (List α × Text)
  | 0, s => .error (.flaw missing s)
  | fuel + 1, s => do
    let (v, rest) ← one s
    match skip rest with
    | [] => .error (.flaw .noComma [])
    | c :: rest =>
      if c = .scalar close then .ok ([v], rest)
      else if c = .scalar ',' then do
        let (vs, rest) ← sequence close missing one fuel (skip rest)
        .ok (v :: vs, rest)
      else .error (.flaw .noComma (c :: rest))

theorem items_eq_sequence (read : ValueReader) (fuel : Nat) (s : Text) :
    items read fuel s = sequence ']' .noValue read fuel s := by
  induction fuel generalizing s with
  | zero => rfl
  | succ fuel ih =>
    rw [items, sequence]
    congr 1
    funext ⟨v, rest⟩
    dsimp only
    split
    · simp_all
    · simp_all
    · cases h : skip rest <;> simp_all

theorem members_eq_sequence (read : ValueReader) (fuel : Nat) (s : Text) :
    members read fuel s = sequence '}' .noName (member read) fuel s := by
  induction fuel generalizing s with
  | zero => rfl
  | succ fuel ih =>
    rw [members, sequence]
    congr 1
    funext ⟨m, rest⟩
    dsimp only
    split
    · simp_all
    · simp_all
    · cases h : skip rest <;> simp_all

abbrev Closes (s rest : Text) : Prop := Leads (fun n => containers (n + 1)) containers s rest

theorem level_comma (rest : Text) : Level (.scalar ',' :: rest) (skip rest) :=
  .cons (next_of_isPlain rfl) (level_skip rest)

theorem closes_sequence {close : Char} {missing : Flaw} {one : Text → Except Failure (α × Text)}
    (hclose : ∀ n, (containers (n + 1)).next (.scalar close) = containers n)
    (hone : Keeps level one) {fuel : Nat} {s rest : Text} {vs : List α}
    (h : sequence close missing one fuel s = .ok (vs, rest)) : Closes s rest := by
  induction fuel generalizing s vs with
  | zero => cases h
  | succ fuel ih =>
    -- what follows an item closes the container, or is a comma before the rest of them
    obtain ⟨⟨v, more⟩, hv, h⟩ := Except.bind_eq_ok.mp h
    have hfront := (hone.leads hv).trans (level_skip more)
    cases hmore : skip more with
    | nil => simp [hmore] at h
    | cons c more' =>
      simp only [hmore] at h hfront
      split at h
      · rename_i hc
        cases h
        exact hfront.inside.trans (hc ▸ .cons hclose (.refl _ _))
      · split at h
        · rename_i hc
          obtain ⟨⟨vs', rest'⟩, hvs, hpair⟩ := Except.bind_eq_ok.mp h
          cases hpair
          subst hc
          exact (hfront.trans (level_comma more')).inside.trans (ih hvs)
        · cases h

theorem exceeded_sequence {close : Char} {missing : Flaw}
    {one : Text → Except Failure (α × Text)} (hone : Keeps level one) {fuel : Nat} {s : Text}
    {l : Limit} (h : sequence close missing one fuel s = .error (.limit l)) :
    l.Exceeded level s := by
  induction fuel generalizing s with
  | zero => cases h
  | succ fuel ih =>
    obtain h | ⟨⟨v, more⟩, hv, h⟩ := Except.bind_eq_error.mp h
    · exact hone.exceeded h
    · have hfront := (hone.leads hv).trans (level_skip more)
      cases hmore : skip more with
      | nil => simp [hmore] at h
      | cons c more' =>
        simp only [hmore] at h hfront
        split at h
        · cases h
        · split at h
          · rename_i hc
            subst hc
            obtain hvs | ⟨_, -, h⟩ := Except.bind_eq_error.mp h
            · exact (ih hvs).of_level (hfront.trans (level_comma more'))
            · cases h
          · cases h

theorem level_key {inside rest : Text} {key : Text}
    (h : string (.scalar '"' :: inside) inside = .ok (key, rest)) :
    Level (.scalar '"' :: inside) (skip rest) :=
  .cons next_quote ((leads_string h).trans (level_skip rest))

theorem level_colon (rest : Text) : Level (.scalar ':' :: rest) (skip rest) :=
  .cons (next_of_isPlain rfl) (level_skip rest)

theorem keeps_member {read : ValueReader} (hread : Keeps level read) :
    Keeps level (member read) where
  leads := by
    intro s rest m h
    unfold member at h
    split at h
    · obtain ⟨⟨key, more⟩, hkey, h⟩ := Except.bind_eq_ok.mp h
      have hfront := level_key hkey
      dsimp only at h
      split at h
      · rename_i hcolon
        obtain ⟨⟨v, rest'⟩, hv, hpair⟩ := Except.bind_eq_ok.mp h
        cases hpair
        rw [hcolon] at hfront
        exact (hfront.trans (level_colon _)).trans (hread.leads hv)
      · cases h
    · cases h
  exceeded := by
    intro s l h
    unfold member at h
    split at h
    · obtain h | ⟨⟨key, more⟩, hkey, h⟩ := Except.bind_eq_error.mp h
      · exact absurd h (string_ne_limit _ _ l)
      · have hfront := level_key hkey
        dsimp only at h
        split at h
        · rename_i hcolon
          obtain hv | ⟨_, -, h⟩ := Except.bind_eq_error.mp h
          · rw [hcolon] at hfront
            exact (hread.exceeded hv).of_level (hfront.trans (level_colon _))
          · cases h
        · cases h
    · cases h

structure Finishes (level : Nat) (read : ValueReader) : Prop where
  closes {s rest : Text} {v : Json} : read s = .ok (v, rest) → Closes s rest
  exceeded {s : Text} {l : Limit} : read s = .error (.limit l) → l.Exceeded (level + 1) s

theorem finishes_array {read : ValueReader} (hread : Keeps (level + 1) read) :
    Finishes level (array read) where
  closes := by
    intro s rest v h
    have hfront := (level_skip s).inside
    unfold array at h
    split at h
    · rename_i hend
      cases h
      rw [hend] at hfront
      exact hfront.trans (.cons (fun _ => rfl) (.refl _ _))
    · obtain ⟨⟨vs, rest'⟩, hvs, hpair⟩ := Except.map_eq_ok.mp h
      cases hpair
      rw [items_eq_sequence] at hvs
      exact hfront.trans (closes_sequence (fun _ => rfl) hread hvs)
  exceeded := by
    intro s l h
    unfold array at h
    split at h
    · cases h
    · have hvs := Except.map_eq_error.mp h
      rw [items_eq_sequence] at hvs
      exact (exceeded_sequence hread hvs).of_level (level_skip s)

theorem finishes_object {read : ValueReader} (hread : Keeps (level + 1) read) :
    Finishes level (object read) where
  closes := by
    intro s rest v h
    have hfront := (level_skip s).inside
    unfold object at h
    split at h
    · rename_i hend
      cases h
      rw [hend] at hfront
      exact hfront.trans (.cons (fun _ => rfl) (.refl _ _))
    · obtain ⟨⟨ms, rest'⟩, hms, hpair⟩ := Except.map_eq_ok.mp h
      cases hpair
      rw [members_eq_sequence] at hms
      exact hfront.trans (closes_sequence (fun _ => rfl) (keeps_member hread) hms)
  exceeded := by
    intro s l h
    unfold object at h
    split at h
    · cases h
    · have hms := Except.map_eq_error.mp h
      rw [members_eq_sequence] at hms
      exact (exceeded_sequence (keeps_member hread) hms).of_level (level_skip s)

theorem keeps_valueWith {inside : Container → ValueReader}
    (hleads : ∀ container {s rest v}, inside container s = .ok (v, rest) → Closes s rest)
    (hexceeded : ∀ container {s l}, inside container s = .error (.limit l) →
      l.Exceeded level (.scalar container.opening :: s)) :
    Keeps level (valueWith inside) where
  leads := by
    intro s rest v h
    unfold valueWith at h
    split at h
    · obtain ⟨⟨t, rest'⟩, ht, hpair⟩ := Except.map_eq_ok.mp h
      cases hpair
      exact .cons next_quote (leads_string ht)
    · exact .cons (fun _ => rfl) (hleads .array h)
    · exact .cons (fun _ => rfl) (hleads .object h)
    · exact (plain_wordOrNumber h).level
  exceeded := by
    intro s l h
    unfold valueWith at h
    split at h
    · exact absurd (Except.map_eq_error.mp h) (string_ne_limit _ _ l)
    · exact hexceeded .array h
    · exact hexceeded .object h
    · exact exceeded_wordOrNumber h level

theorem keeps_value {depth : Nat} (h : level + depth = maxDepth) : Keeps level (value depth) := by
  induction depth generalizing level with
  | zero =>
    refine keeps_valueWith (fun _ _ _ _ h => by cases h) fun container s l hl => ?_
    -- no depth is left, so that the bracket or brace itself is past the limit
    cases hl
    exact ⟨[], s, rfl, congrArg containers h⟩
  | succ depth ih =>
    have hread := @ih (level + 1) (by omega)
    refine keeps_valueWith (fun container => ?_) fun container s l hl => ?_
    · cases container with
      | array => exact (finishes_array hread).closes
      | object => exact (finishes_object hread).closes
    -- inside of one more container, one less is still allowed
    · refine .of_opening container ?_
      cases container with
      | array => exact (finishes_array hread).exceeded hl
      | object => exact (finishes_object hread).exceeded hl

end Reader

/-- A text that is not read because of a limit goes past that limit. -/
theorem exceeded_of_read {s : Text} {l : Limit} (h : Json.read s = .error (.limit l)) :
    l.Exceeded 0 s := by
  obtain ⟨failure, hfailure, hlocate⟩ := Except.mapError_eq_error.mp h
  cases failure with
  | flaw f rest => cases hlocate
  | limit l' =>
    cases hlocate
    unfold Reader.document at hfailure
    split at hfailure
    · cases hfailure
    · obtain hvalue | ⟨⟨v, rest⟩, -, hend⟩ := Except.bind_eq_error.mp hfailure
      · exact ((Reader.keeps_value (Nat.zero_add _)).exceeded hvalue).of_level (level_skip s)
      · dsimp only at hend
        split at hend <;> cases hend

theorem read_of_value_limit {c : Char} {rest : Text} {l : Limit}
    (hblank : Reader.isBlank (.scalar c) = false) (hmark : c ≠ '\uFEFF')
    (h : Reader.value Reader.maxDepth (.scalar c :: rest) = .error (.limit l)) :
    Json.read (.scalar c :: rest) = .error (.limit l) := by
  have hdocument : Reader.document (.scalar c :: rest) = .error (.limit l) := by
    rw [Reader.document]
    · simp only [Reader.skip_of_not_blank hblank, h, bind, Except.bind]
    · intro rest' heq
      exact hmark (CodePoint.scalar.inj (List.cons.inj heq).1)
  rw [Json.read, hdocument]
  rfl

theorem read_digitText_of_long {d : Digit} {ds : List Digit} (hd : d = 0 → ds = [])
    (hlong : maxDigits < (d :: ds).length) :
    Json.read (digitText (d :: ds)) = .error (.limit (.integerDigits (d :: ds).length)) := by
  obtain ⟨hblank, hmark, -⟩ := Reader.digit_front d
  obtain ⟨inside, hvalue⟩ := Reader.value_eq_valueWith Reader.maxDepth
  have hend : EndsNumeral [] := nofun
  have hscan := Numeral.scan?_digitText hd hend
  have hword := Reader.wordOrNumber_digitText d ds []
  have hopen := Reader.valueWith_digitText inside d ds []
  rw [List.append_nil] at hscan hword hopen
  have hlimit : Numeral.value ⟨false, d :: ds, [], none⟩ =
      .error (.integerDigits (d :: ds).length) := by
    simp only [Numeral.value, Numeral.isInteger, List.isEmpty_nil, Option.isNone_none,
      Bool.and_self, ↓reduceIte, if_neg (Nat.not_le.mpr hlong)]
  refine read_of_value_limit hblank hmark ?_
  change Reader.value Reader.maxDepth (digitText (d :: ds)) = _
  simp only [hvalue, hopen, hword, Reader.number, hscan, hlimit]

theorem Reader.value_brackets {depth n : Nat} (h : depth < n) :
    value depth (List.replicate n (.scalar '[')) = .error (.limit (.nesting .array)) := by
  induction depth generalizing n with
  | zero =>
    obtain ⟨n, rfl⟩ := Nat.exists_eq_add_one.mpr h
    rfl
  | succ depth ih =>
    obtain ⟨n, rfl⟩ : ∃ m, n = m + 2 := ⟨n - 2, by omega⟩
    have hinside := @ih (n + 1) (by omega)
    have hskip : skip (List.replicate (n + 1) (.scalar '[')) =
        .scalar '[' :: List.replicate n (.scalar '[') := skip_of_not_blank rfl _
    change array (value depth) (List.replicate (n + 1) (.scalar '[')) = _
    rw [List.replicate_succ] at hinside
    have hitems (fuel : Nat) :
        items (value depth) (fuel + 1) (.scalar '[' :: List.replicate n (.scalar '[')) =
          .error (.limit (.nesting .array)) := by
      simp only [items, hinside, bind, Except.bind]
    rw [array, hskip]
    change _ <$> items (value depth) (_ + 1) _ = _
    exact Except.map_eq_error.mpr (hitems _)

theorem read_brackets_of_deep {n : Nat} (h : Reader.maxDepth < n) :
    Json.read (List.replicate n (.scalar '[')) = .error (.limit (.nesting .array)) := by
  obtain ⟨m, rfl⟩ := Nat.exists_eq_add_one.mpr (Nat.zero_lt_of_lt h)
  exact read_of_value_limit rfl (by decide) (Reader.value_brackets h)

end IssueRelay.Json
