import IssueRelay.Proofs.Json.Limits
import IssueRelay.Proofs.Json.Numbers
import IssueRelay.Proofs.Json.Spelling

/-!
Values as they are written: words, numbers, strings and containers, with blanks wherever they may
stand. The reader takes the text of each off the front of a text, and gives its value unless it goes
past a limit of the reader.
-/

set_option autoImplicit false

namespace IssueRelay.Json

open Reader

inductive Blank
  | space
  | tab
  | lineFeed
  | carriageReturn

def Blank.char : Blank → Char
  | space => ' '
  | tab => '\t'
  | lineFeed => '\n'
  | carriageReturn => '\r'

abbrev Gap := List Blank

def Gap.text (g : Gap) : Text := g.map fun b => .scalar b.char

@[simp] theorem Gap.text_nil : Gap.text [] = [] := rfl

abbrev Spaced (α : Type) := Gap × α × Gap

/-- A value as it is written. The parts of a container are separated by commas, and the two of a
member by a colon; a gap comes before the closing bracket or brace. -/
inductive Source
  | null
  | bool (b : Bool)
  | number (n : Number)
  | string (s : Spelling)
  | array (items : List (Gap × Source × Gap)) (gap : Gap)
  | object (members : List ((Gap × Spelling × Gap) × (Gap × Source × Gap))) (gap : Gap)

abbrev Member := Spaced Spelling × Spaced Source

def spacedText (before : Gap) (text : Text) (after : Gap) : Text :=
  before.text ++ (text ++ after.text)

def commas (parts : List Text) : Text := [.scalar ','].intercalate parts

namespace Source

mutual

def text : Source → Text
  | null => "null"
  | bool true => "true"
  | bool false => "false"
  | number n => n.text
  | string s => s.text
  | array items gap => .scalar '[' :: (commas (itemTexts items) ++ (gap.text ++ [.scalar ']']))
  | object members gap =>
    .scalar '{' :: (commas (memberTexts members) ++ (gap.text ++ [.scalar '}']))

def itemTexts : List (Gap × Source × Gap) → List Text
  | [] => []
  | (before, s, after) :: rest => spacedText before s.text after :: itemTexts rest

def memberTexts : List ((Gap × Spelling × Gap) × (Gap × Source × Gap)) → List Text
  | [] => []
  | ((keyBefore, key, keyAfter), (before, s, after)) :: rest =>
    (spacedText keyBefore key.text keyAfter ++ .scalar ':' :: spacedText before s.text after) ::
      memberTexts rest

end

mutual

/-- The value that is read where so many containers may still open, or the limit that is met. -/
def value? : Source → Nat → Except Limit Json
  | null, _ => .ok .null
  | bool b, _ => .ok (.bool b)
  | number n, _ => n.value?
  | string s, _ => .ok (.str s.denoted)
  | array _ _, 0 => .error (.nesting .array)
  | array items _, depth + 1 => .arr <$> itemValues? items depth
  | object _ _, 0 => .error (.nesting .object)
  | object members _, depth + 1 => (fun pairs => .obj (ofPairs pairs)) <$> pairs? members depth

def itemValues? : List (Gap × Source × Gap) → Nat → Except Limit (List Json)
  | [], _ => .ok []
  | (_, s, _) :: rest, depth => do
    let v ← s.value? depth
    let vs ← itemValues? rest depth
    .ok (v :: vs)

def pairs? : List ((Gap × Spelling × Gap) × (Gap × Source × Gap)) → Nat →
    Except Limit (List (Text × Json))
  | [], _ => .ok []
  | ((_, key, _), (_, s, _)) :: rest, depth => do
    let v ← s.value? depth
    let pairs ← pairs? rest depth
    .ok ((key.denoted, v) :: pairs)

end

mutual

/-- Whether a source stays within the limits of the reader, where so many containers may still open:
no integer in it is too long, and it is not too deep. What its strings are is not looked at. -/
def fits : Source → Nat → Bool
  | null, _ | bool _, _ | string _, _ => true
  | number n, _ => n.integer?.isNone || n.wholeDigits ≤ maxDigits
  | array _ _, 0 | object _ _, 0 => false
  | array items _, depth + 1 => itemsFit items depth
  | object members _, depth + 1 => membersFit members depth

def itemsFit : List (Gap × Source × Gap) → Nat → Bool
  | [], _ => true
  | (_, s, _) :: rest, depth => s.fits depth && itemsFit rest depth

def membersFit : List ((Gap × Spelling × Gap) × (Gap × Source × Gap)) → Nat → Bool
  | [], _ => true
  | (_, (_, s, _)) :: rest, depth => s.fits depth && membersFit rest depth

end

/-- Induction over sources: a container comes after what is in it. -/
@[induction_eliminator]
theorem induction {P : Source → Prop} (null : P null) (bool : ∀ b, P (bool b))
    (number : ∀ n, P (number n)) (string : ∀ s, P (string s))
    (array : ∀ items gap, (∀ i ∈ items, P i.2.1) → P (array items gap))
    (object : ∀ members gap, (∀ m ∈ members, P m.2.2.1) → P (object members gap))
    (s : Source) : P s :=
  @Source.rec P (fun items => ∀ i ∈ items, P i.2.1) (fun members => ∀ m ∈ members, P m.2.2.1)
    (fun i => P i.2.1) (fun m => P m.2.2.1) (fun i => P i.1) null bool number string
    (fun items gap h => array items gap h) (fun members gap h => object members gap h)
    nofun (fun _ _ hfirst hrest => List.forall_mem_cons.mpr ⟨hfirst, hrest⟩)
    nofun (fun _ _ hfirst hrest => List.forall_mem_cons.mpr ⟨hfirst, hrest⟩)
    (fun _ _ h => h) (fun _ _ h => h) (fun _ _ h => h) s

theorem itemTexts_eq_map (items : List (Spaced Source)) :
    itemTexts items = items.map fun i => spacedText i.1 i.2.1.text i.2.2 := by
  induction items with
  | nil => rfl
  | cons i items ih => rw [itemTexts, ih, List.map_cons]

theorem itemValues?_eq_mapM (items : List (Spaced Source)) (depth : Nat) :
    itemValues? items depth = items.mapM fun i => i.2.1.value? depth := by
  induction items with
  | nil => rfl
  | cons i items ih =>
    rw [itemValues?, ih, List.mapM_cons]
    rfl

end Source

namespace Member

def text (m : Member) : Text :=
  spacedText m.1.1 m.1.2.1.text m.1.2.2 ++ .scalar ':' :: spacedText m.2.1 m.2.2.1.text m.2.2.2

def key (m : Member) : Text := m.1.2.1.denoted

def pair? (m : Member) (depth : Nat) : Except Limit (Text × Json) :=
  (m.key, ·) <$> m.2.2.1.value? depth

end Member

namespace Source

theorem memberTexts_eq_map (members : List Member) :
    memberTexts members = members.map Member.text := by
  induction members with
  | nil => rfl
  | cons m members ih =>
    rw [memberTexts, ih, List.map_cons]
    rfl

theorem pairs?_eq_mapM (members : List Member) (depth : Nat) :
    pairs? members depth = members.mapM fun m => m.pair? depth := by
  induction members with
  | nil => rfl
  | cons m members ih =>
    rw [pairs?, ih, List.mapM_cons, Member.pair?]
    cases m.2.2.1.value? depth <;> rfl

theorem itemsFit_eq_all (items : List (Spaced Source)) (depth : Nat) :
    itemsFit items depth = items.all fun i => i.2.1.fits depth := by
  induction items with
  | nil => rfl
  | cons i items ih => rw [itemsFit, ih, List.all_cons]

theorem membersFit_eq_all (members : List Member) (depth : Nat) :
    membersFit members depth = members.all fun m => m.2.2.1.fits depth := by
  induction members with
  | nil => rfl
  | cons m members ih => rw [membersFit, ih, List.all_cons]

theorem isOk_value? (s : Source) (depth : Nat) : (s.value? depth).isOk = s.fits depth := by
  induction s generalizing depth with
  | null | bool | string => rfl
  | number n =>
    rw [value?, fits]
    cases hn : n.integer? with
    | none =>
      obtain ⟨r, hr⟩ := Number.value?_of_not_integer hn
      rw [hr]
      rfl
    | some v =>
      rw [Number.value?_of_integer hn]
      by_cases hlength : n.wholeDigits ≤ maxDigits
      · rw [if_pos hlength, decide_eq_true hlength]
        rfl
      · rw [if_neg hlength, decide_eq_false hlength]
        rfl
  | array items gap ih =>
    cases depth with
    | zero => rfl
    | succ depth =>
      rw [value?, fits, Except.isOk_map, itemValues?_eq_mapM, itemsFit_eq_all, Except.isOk_mapM,
        Bool.eq_iff_iff, List.all_eq_true, List.all_eq_true]
      exact forall₂_congr fun i hi => by rw [ih i hi depth]
  | object members gap ih =>
    cases depth with
    | zero => rfl
    | succ depth =>
      rw [value?, fits, Except.isOk_map, pairs?_eq_mapM, membersFit_eq_all, Except.isOk_mapM,
        Bool.eq_iff_iff, List.all_eq_true, List.all_eq_true]
      exact forall₂_congr fun m hm => by rw [Member.pair?, Except.isOk_map, ih m hm depth]

end Source

theorem isBlank_gap (g : Gap) : ∀ c ∈ g.text, isBlank c = true := by
  intro c hc
  obtain ⟨b, -, rfl⟩ := List.mem_map.mp hc
  cases b <;> rfl

theorem skip_gap (g : Gap) (rest : Text) : skip (g.text ++ rest) = skip rest :=
  skip_blanks (isBlank_gap g) rest

theorem endsNumeral_gap (g : Gap) {rest : Text} (h : EndsNumeral rest) :
    EndsNumeral (g.text ++ rest) := by
  cases g with
  | nil => exact h
  | cons b g => cases b <;> exact endsNumeral_cons rfl (by decide) _

variable {α : Type}

/-- A reader that takes a text off the front of others in which it ends, but for the blanks around
it, and gives what the text stands for. -/
def Reads (one : Text → Except Failure (α × Text)) (text : Text) (meaning : Except Limit α) :
    Prop :=
  ∀ rest, EndsNumeral rest → ∃ left, skip left = skip rest ∧
    one (skip (text ++ rest)) = (meaning.mapError .limit).map (·, left)

theorem endsNumeral_mark {c : Char} (h : c = ',' ∨ c = ':' ∨ c = ']' ∨ c = '}') (rest : Text) :
    EndsNumeral (.scalar c :: rest) := by
  rcases h with rfl | rfl | rfl | rfl <;> exact endsNumeral_cons rfl (by decide) rest

theorem commas_cons_cons (t u : Text) (parts : List Text) :
    commas (t :: u :: parts) = t ++ .scalar ',' :: commas (u :: parts) := by
  simp [commas, List.intercalate]

variable {β : Type} {t : β → Text} {a : β → Except Limit α}

/-- Parts between commas are read one after the other, up to the first that goes past a limit. -/
theorem sequence_commas {close : Char} (hclose : close = ']' ∨ close = '}') {missing : Flaw}
    {one : Text → Except Failure (α × Text)} {parts : List β} (hne : parts ≠ [])
    (hparts : ∀ p ∈ parts, Reads one (t p) (a p)) {fuel : Nat} (hf : parts.length ≤ fuel)
    (gap : Gap) (rest : Text) :
    Reader.sequence close missing one fuel
        (skip (commas (parts.map t) ++ (gap.text ++ .scalar close :: rest))) =
      ((parts.mapM a).mapError .limit).map (·, rest) := by
  induction parts generalizing fuel with
  | nil => contradiction
  | cons p parts ih =>
    obtain ⟨fuel, rfl⟩ : ∃ n, fuel = n + 1 := ⟨fuel - 1, by simp at hf; omega⟩
    have hread := hparts p List.mem_cons_self
    -- the bracket follows the last part, and a comma every other
    cases parts with
    | nil =>
      have hblank : isBlank (.scalar close) = false := by rcases hclose with rfl | rfl <;> rfl
      obtain ⟨left, hleft, htext⟩ := hread (gap.text ++ .scalar close :: rest)
        (endsNumeral_gap gap (endsNumeral_mark (.inr (.inr hclose)) rest))
      rw [skip_gap, skip_of_not_blank hblank] at hleft
      have hcommas : commas ([p].map t) = t p := by simp [commas, List.intercalate]
      rw [hcommas, Reader.sequence, htext, List.mapM_cons]
      cases a p with
      | error l => rfl
      | ok v =>
        simp only [Except.mapError, Except.map, bind, Except.bind, hleft, ↓reduceIte]
        rfl
    | cons q parts =>
      have hcomma : CodePoint.scalar ',' ≠ .scalar close := by
        rcases hclose with rfl | rfl <;> decide
      have hfuel : (q :: parts).length ≤ fuel := by simp at hf ⊢; omega
      have hmore := ih (List.cons_ne_nil q parts)
        (fun p hp => hparts p (List.mem_cons_of_mem _ hp)) hfuel
      obtain ⟨left, hleft, htext⟩ := hread
        (.scalar ',' :: (commas ((q :: parts).map t) ++ (gap.text ++ .scalar close :: rest)))
        (endsNumeral_mark (.inl rfl) _)
      rw [skip_of_not_blank rfl] at hleft
      rw [List.map_cons, List.map_cons, commas_cons_cons, List.append_assoc, List.cons_append,
        ← List.map_cons, Reader.sequence, htext, List.mapM_cons]
      generalize (q :: parts).mapM a = meanings at hmore
      cases a p with
      | error l => rfl
      | ok v =>
        simp only [Except.mapError, Except.map, bind, Except.bind, hleft, if_neg hcomma, ↓reduceIte,
          hmore]
        cases meanings <;> rfl

theorem countP_skip (s : Text) : (skip s).countP (!isBlank ·) = s.countP (!isBlank ·) := by
  have hblank : (s.takeWhile isBlank).countP (!isBlank ·) = 0 := by
    have hall := List.all_eq_true.mp (List.all_takeWhile (p := isBlank) (l := s))
    rw [List.countP_eq_zero]
    intro c hc
    simp [hall c hc]
  conv_rhs => rw [← List.takeWhile_append_dropWhile (p := isBlank) (l := s)]
  rw [List.countP_append, hblank, Nat.zero_add, skip]

/-- Fuel enough for parts between commas: there is a comma or a bracket after each. -/
theorem length_le_skip_commas {close : CodePoint} (hclose : isBlank close = false)
    (parts : List Text) (gap : Gap) (rest : Text) :
    parts.length ≤ (skip (commas parts ++ (gap.text ++ close :: rest))).length := by
  have hmarks :
      parts.length ≤ (commas parts ++ (gap.text ++ close :: rest)).countP (!isBlank ·) := by
    induction parts with
    | nil => exact Nat.zero_le _
    | cons t parts ih =>
      cases parts with
      | nil => simp [hclose]; omega
      | cons u parts =>
        have hcomma : isBlank (.scalar ',') = false := rfl
        rw [commas_cons_cons, List.append_assoc, List.cons_append, List.countP_append,
          List.countP_cons, hcomma]
        simp at ih ⊢
        omega
  rw [← countP_skip] at hmarks
  exact hmarks.trans List.countP_le_length

theorem sequence_all {close : Char} (hclose : close = ']' ∨ close = '}') {missing : Flaw}
    {one : Text → Except Failure (α × Text)} {parts : List β} (hne : parts ≠ [])
    (hparts : ∀ p ∈ parts, Reads one (t p) (a p)) {gap : Gap} {rest s : Text}
    (hs : skip (commas (parts.map t) ++ (gap.text ++ .scalar close :: rest)) = s) :
    Reader.sequence close missing one s.length s =
      ((parts.mapM a).mapError .limit).map (·, rest) := by
  have hblank : isBlank (.scalar close) = false := by rcases hclose with rfl | rfl <;> rfl
  have hfuel := length_le_skip_commas hblank (parts.map t) gap rest
  rw [List.length_map, hs] at hfuel
  rw [← sequence_commas hclose hne hparts hfuel gap rest, hs]

theorem Number.exists_front (n : Number) : ∃ c rest, n.text = .scalar c :: rest ∧
    isBlank (.scalar c) = false ∧ c ∉ ['"', '[', '{', ']', '}', '\uFEFF'] := by
  cases n with
  | decimal d =>
    obtain ⟨negative, ⟨first, more⟩, hzero, fraction, scale⟩ := d
    cases negative with
    | false =>
      have hfirst : ∀ d : Digit, isBlank (.scalar d.val.digitChar) = false ∧
          d.val.digitChar ∉ ['"', '[', '{', ']', '}', '\uFEFF'] := by decide
      exact ⟨first.val.digitChar, _, rfl, hfirst first⟩
    | true => exact ⟨'-', _, rfl, by decide⟩
  | notANumber => exact ⟨'N', _, rfl, by decide⟩
  | infinity negative =>
    cases negative with
    | false => exact ⟨'I', _, rfl, by decide⟩
    | true => exact ⟨'-', _, rfl, by decide⟩

theorem Source.exists_front (s : Source) : ∃ c rest, s.text = .scalar c :: rest ∧
    isBlank (.scalar c) = false ∧ c ∉ [']', '}', '\uFEFF'] := by
  cases s with
  | null => exact ⟨'n', _, rfl, by decide⟩
  | bool b =>
    cases b with
    | false => exact ⟨'f', _, rfl, by decide⟩
    | true => exact ⟨'t', _, rfl, by decide⟩
  | number n =>
    obtain ⟨c, rest, htext, hblank, hc⟩ := n.exists_front
    exact ⟨c, rest, htext, hblank, fun h => hc (List.mem_append_right ['"', '[', '{'] h)⟩
  | string s => exact ⟨'"', _, rfl, by decide⟩
  | array items gap => exact ⟨'[', _, rfl, by decide⟩
  | object members gap => exact ⟨'{', _, rfl, by decide⟩

theorem valueWith_number (inside : Container → ValueReader) (n : Number) (rest : Text) :
    valueWith inside (n.text ++ rest) = wordOrNumber (n.text ++ rest) := by
  obtain ⟨c, more, htext, -, hc⟩ := n.exists_front
  simp only [List.mem_cons, List.not_mem_nil, or_false, not_or] at hc
  rw [htext, List.cons_append]
  unfold valueWith
  split <;> simp_all

theorem skip_source (s : Source) (rest : Text) : skip (s.text ++ rest) = s.text ++ rest := by
  obtain ⟨c, more, htext, hblank, -⟩ := s.exists_front
  rw [htext]
  exact skip_of_not_blank hblank _

def ReadsSource (read : ValueReader) (s : Source) (meaning : Except Limit Json) : Prop :=
  ∀ rest, EndsNumeral rest →
    read (s.text ++ rest) = (meaning.mapError .limit).map (·, rest)

theorem ReadsSource.reads {read : ValueReader} {s : Source} {meaning : Except Limit Json}
    (h : ReadsSource read s meaning) (before after : Gap) :
    Reads read (spacedText before s.text after) meaning := by
  intro rest hrest
  refine ⟨after.text ++ rest, skip_gap after rest, ?_⟩
  rw [spacedText, List.append_assoc, List.append_assoc, skip_gap, skip_source]
  exact h _ (endsNumeral_gap after hrest)

theorem ReadsSource.reads_member {read : ValueReader} {m : Member} {meaning : Except Limit Json}
    (h : ReadsSource read m.2.2.1 meaning) :
    Reads (member read) m.text ((m.key, ·) <$> meaning) := by
  obtain ⟨⟨keyBefore, key, keyAfter⟩, ⟨before, s, after⟩⟩ := m
  intro rest hrest
  refine ⟨after.text ++ rest, skip_gap after rest, ?_⟩
  have htext : Member.text ((keyBefore, key, keyAfter), (before, s, after)) ++ rest =
      keyBefore.text ++ (.scalar '"' :: (key.flatMap Piece.text ++ .scalar '"' ::
        (keyAfter.text ++ .scalar ':' :: (before.text ++ (s.text ++ (after.text ++ rest)))))) := by
    simp [Member.text, spacedText, Spelling.text]
  have hquote (r : Text) := skip_of_not_blank (c := .scalar '"') rfl r
  have hcolon (r : Text) := skip_of_not_blank (c := .scalar ':') rfl r
  have hvalue := h (after.text ++ rest) (endsNumeral_gap after hrest)
  simp only [htext, skip_gap, hquote, member, key.string_text, hcolon, skip_source, bind,
    Except.bind]
  dsimp only at hvalue
  rw [hvalue]
  cases meaning <;> rfl

theorem skip_commas_nil {close : CodePoint} (hclose : isBlank close = false) (gap : Gap)
    (rest : Text) :
    skip (commas (([] : List β).map t) ++ (gap.text ++ close :: rest)) = close :: rest := by
  change skip (gap.text ++ close :: rest) = _
  rw [skip_gap, skip_of_not_blank hclose]

theorem skip_commas {c : CodePoint} {p : β} (hp : ∀ rest, ∃ more, skip (t p ++ rest) = c :: more)
    (parts : List β) (rest : Text) :
    ∃ more, skip (commas ((p :: parts).map t) ++ rest) = c :: more := by
  cases parts with
  | nil => simpa [commas, List.intercalate] using hp rest
  | cons q parts =>
    rw [List.map_cons, List.map_cons, commas_cons_cons, List.append_assoc]
    exact hp _

theorem array_text {read : ValueReader} {items : List (Spaced Source)} {gap : Gap} {depth : Nat}
    (h : ∀ i ∈ items, ReadsSource read i.2.1 (i.2.1.value? depth)) (rest : Text) :
    array read (commas (Source.itemTexts items) ++ (gap.text ++ .scalar ']' :: rest)) =
      (((Source.array items gap).value? (depth + 1)).mapError .limit).map (·, rest) := by
  rw [array, Source.value?, Source.itemValues?_eq_mapM, Source.itemTexts_eq_map]
  cases items with
  | nil =>
    rw [skip_commas_nil rfl]
    rfl
  | cons i items =>
    obtain ⟨c, front, htext, hblank, hc⟩ := i.2.1.exists_front
    have hfront (rest : Text) : ∃ more,
        skip (spacedText i.1 i.2.1.text i.2.2 ++ rest) = .scalar c :: more := by
      simp [spacedText, skip_gap, htext, skip_of_not_blank hblank]
    obtain ⟨more, hskip⟩ := skip_commas (t := fun i => spacedText i.1 i.2.1.text i.2.2) hfront
      items (gap.text ++ .scalar ']' :: rest)
    have hread : ∀ j ∈ i :: items, Reads read (spacedText j.1 j.2.1.text j.2.2)
        (j.2.1.value? depth) := fun j hj => (h j hj).reads j.1 j.2.2
    split
    · simp_all
    · rw [items_eq_sequence, sequence_all (.inl rfl) (List.cons_ne_nil i items) hread rfl]
      cases (i :: items).mapM fun i => i.2.1.value? depth <;> rfl

theorem object_text {read : ValueReader} {members : List Member} {gap : Gap} {depth : Nat}
    (h : ∀ m ∈ members, ReadsSource read m.2.2.1 (m.2.2.1.value? depth)) (rest : Text) :
    object read (commas (Source.memberTexts members) ++ (gap.text ++ .scalar '}' :: rest)) =
      (((Source.object members gap).value? (depth + 1)).mapError .limit).map (·, rest) := by
  rw [object, Source.value?, Source.pairs?_eq_mapM, Source.memberTexts_eq_map]
  cases members with
  | nil =>
    rw [skip_commas_nil rfl]
    rfl
  | cons m members =>
    have hquote (r : Text) := skip_of_not_blank (c := .scalar '"') rfl r
    have hfront (rest : Text) : ∃ more, skip (m.text ++ rest) = .scalar '"' :: more := by
      simp [Member.text, spacedText, skip_gap, Spelling.text, hquote]
    obtain ⟨more, hskip⟩ := skip_commas hfront members (gap.text ++ .scalar '}' :: rest)
    have hread : ∀ n ∈ m :: members, Reads (member read) n.text (n.pair? depth) :=
      fun n hn => (h n hn).reads_member
    split
    · simp_all
    · rw [members_eq_sequence, sequence_all (.inr rfl) (List.cons_ne_nil m members) hread rfl]
      cases (m :: members).mapM fun m => m.pair? depth <;> rfl

/-- The reader takes the text of a source off the front of a text, unless it stops at a limit. -/
theorem readsSource_value (s : Source) (depth : Nat) :
    ReadsSource (Reader.value depth) s (s.value? depth) := by
  obtain ⟨inside, hinside⟩ := value_eq_valueWith depth
  -- a container's parts are read one level further in
  induction s generalizing depth inside with
  | null =>
    intro rest _
    rw [hinside]
    exact wordOrNumber_word (w := "null") (by simp [words]) rest
  | bool b =>
    intro rest _
    rw [hinside]
    cases b with
    | false => exact wordOrNumber_word (w := "false") (by simp [words]) rest
    | true => exact wordOrNumber_word (w := "true") (by simp [words]) rest
  | number n =>
    intro rest hrest
    rw [hinside, Source.text, valueWith_number, wordOrNumber_text n hrest, Source.value?]
  | string s =>
    intro rest _
    have htext : s.text ++ rest = .scalar '"' :: (s.flatMap Piece.text ++ .scalar '"' :: rest) := by
      simp [Spelling.text]
    rw [hinside, Source.text, htext, valueWith, s.string_text]
    rfl
  | array items gap ih =>
    intro rest _
    have htext : (Source.array items gap).text ++ rest = .scalar '[' ::
        (commas (Source.itemTexts items) ++ (gap.text ++ .scalar ']' :: rest)) := by
      simp [Source.text]
    rw [htext]
    cases depth with
    | zero => rfl
    | succ depth =>
      refine array_text (fun i hi => ?_) rest
      obtain ⟨inside, hinside⟩ := value_eq_valueWith depth
      exact ih i hi depth inside hinside
  | object members gap ih =>
    intro rest _
    have htext : (Source.object members gap).text ++ rest = .scalar '{' ::
        (commas (Source.memberTexts members) ++ (gap.text ++ .scalar '}' :: rest)) := by
      simp [Source.text]
    rw [htext]
    cases depth with
    | zero => rfl
    | succ depth =>
      refine object_text (fun m hm => ?_) rest
      obtain ⟨inside, hinside⟩ := value_eq_valueWith depth
      exact ih m hm depth inside hinside

theorem spacedText_ne_byteOrderMark (before : Gap) (s : Source) (after : Gap) (rest : Text) :
    spacedText before s.text after ≠ .scalar '\uFEFF' :: rest := by
  intro h
  cases before with
  | nil =>
    obtain ⟨c, more, htext, -, hc⟩ := s.exists_front
    rw [spacedText, htext] at h
    have hmark : c = '\uFEFF' := CodePoint.scalar.inj (List.cons.inj h).1
    exact hc (by rw [hmark]; decide)
  | cons b before =>
    have hb := (List.cons.inj h).1
    cases b <;> contradiction

/-- A source between blanks is read as its value, unless it goes past a limit. -/
theorem read_source (before : Gap) (s : Source) (after : Gap) :
    Json.read (spacedText before s.text after) = (s.value? maxDepth).mapError Fault.limit := by
  have hend : EndsNumeral [] := nofun
  have hvalue := readsSource_value s maxDepth after.text
    (by simpa using endsNumeral_gap after hend)
  have hskip : skip (spacedText before s.text after) = s.text ++ after.text := by
    rw [spacedText, skip_gap, skip_source]
  have hafter : skip after.text = [] := by
    have hgap := skip_gap after []
    rwa [List.append_nil] at hgap
  have hdocument : document (spacedText before s.text after) =
      (s.value? maxDepth).mapError .limit := by
    rw [document]
    · simp only [hskip, hvalue, bind, Except.bind]
      cases s.value? maxDepth with
      | error l => rfl
      | ok v => simp only [Except.mapError, Except.map, hafter]
    · exact fun rest => spacedText_ne_byteOrderMark before s after rest
  rw [Json.read, hdocument]
  cases s.value? maxDepth <;> rfl

end IssueRelay.Json
