import Mathlib.Data.List.Forall2
import IssueRelay.Proofs.Json.Grammar
import IssueRelay.Proofs.Json.Members

/-!
What stands around a value in a JSON text, with the objects that the value is in as frames, the
outermost first. What fills the frames decides what is read under the keys that lead to it, and
nothing else.
-/

set_option autoImplicit false

namespace IssueRelay.Json

/-- An object but for the value of one member. -/
structure Frame where
  front : List Member
  label : Spaced Spelling
  before : Gap
  after : Gap
  back : List Member
  gap : Gap

namespace Frame

def fill (f : Frame) (s : Source) : Source :=
  .object (f.front ++ (f.label, (f.before, s, f.after)) :: f.back) f.gap

/-- Whether what fills a frame is what an object has under a key: no later member has that key. -/
def HasKey (f : Frame) (key : Text) : Prop :=
  f.label.2.1.denoted = key ∧ ∀ m ∈ f.back, m.key ≠ key

end Frame

/-- A text but for one value. -/
structure Surroundings where
  before : Gap
  frames : List Frame
  after : Gap

namespace Surroundings

def fill (a : Surroundings) (s : Source) : Source := a.frames.foldr Frame.fill s

def text (a : Surroundings) (s : Source) : Text := spacedText a.before (a.fill s).text a.after

def Under (a : Surroundings) (keys : List String) : Prop :=
  List.Forall₂ (fun f key => Frame.HasKey f (Text.ofString key)) a.frames keys

def depth (a : Surroundings) : Nat := Reader.maxDepth - a.frames.length

end Surroundings

/-- Two values of which one has `w` where the other has `w₀`: what a reader looks up differs under
those keys only. -/
inductive Alters (w₀ w : Json) : List String → Json → Json → Prop
  | here : Alters w₀ w [] w₀ w
  | under {key : String} {keys : List String} {members₀ members : List (Text × Json)} {v₀ v : Json}
      (h : Alters w₀ w keys v₀ v) (h₀ : get? members₀ key = some v₀)
      (hv : get? members key = some v)
      (others : ∀ k, k ≠ Text.ofString key → get? members₀ k = get? members k) :
      Alters w₀ w (key :: keys) (.obj members₀) (.obj members)

theorem get?_append (xs ys : List (Text × Json)) (key : Text) :
    get? (xs ++ ys) key = (get? xs key).or (get? ys key) := by
  induction xs with
  | nil => rfl
  | cons x xs ih =>
    obtain ⟨k, v⟩ := x
    rw [List.cons_append, get?, get?, ih]
    split <;> rfl

theorem keys_of_mapM_pair? {members : List Member} {depth : Nat} {pairs : List (Text × Json)}
    (h : members.mapM (fun m => m.pair? depth) = .ok pairs) :
    pairs.map (·.1) = members.map Member.key := by
  induction members generalizing pairs with
  | nil =>
    cases h
    rfl
  | cons m members ih =>
    rw [List.mapM_cons] at h
    obtain ⟨pair, hpair, h⟩ := Except.bind_eq_ok.mp h
    obtain ⟨more, hmore, h⟩ := Except.bind_eq_ok.mp h
    obtain ⟨v, -, rfl⟩ := Except.map_eq_ok.mp hpair
    cases h
    rw [List.map_cons, List.map_cons, ih hmore]

theorem get?_ofPairs_between {front back : List (Text × Json)} {key : Text}
    (hback : key ∉ back.map (·.1)) (w : Json) (k : Text) :
    get? (ofPairs (front ++ (key, w) :: back)) k =
      if k = key then some w else (get? back.reverse k).or (get? front.reverse k) := by
  rw [get?_ofPairs, List.reverse_append, List.reverse_cons, List.append_assoc, get?_append]
  by_cases hk : k = key
  · have hnone : get? back.reverse key = none := by
      rw [get?_eq_none, List.map_reverse, List.mem_reverse]
      exact hback
    rw [hk, hnone, if_pos rfl, List.singleton_append, get?, if_pos rfl, Option.none_or]
  · have hne : key ≠ k := fun h => hk h.symm
    rw [if_neg hk, List.singleton_append, get?, if_neg hne]

namespace Frame

/-- A frame in which one value is read can be read around any: it gives an object in which the value
stands under the key of the frame, and the rest is the same. -/
theorem exists_object {f : Frame} {key : Text} (hkey : f.HasKey key) {s₀ : Source} {depth : Nat}
    {v₀ : Json} (h : (f.fill s₀).value? (depth + 1) = .ok v₀) :
    ∃ (w₀ : Json) (object : Json → List (Text × Json)), s₀.value? depth = .ok w₀ ∧
      v₀ = .obj (object w₀) ∧
      (∀ s, (f.fill s).value? (depth + 1) = (fun w => .obj (object w)) <$> s.value? depth) ∧
      ∀ w, get? (object w) key = some w ∧
        ∀ k, k ≠ key → get? (object w₀) k = get? (object w) k := by
  obtain ⟨front, label, before, after, back, gap⟩ := f
  obtain ⟨rfl, hback⟩ := hkey
  simp only [fill, Source.value?, Source.pairs?_eq_mapM, List.mapM_append, List.mapM_cons,
    Member.pair?] at h ⊢
  obtain ⟨pairs, hpairs, rfl⟩ := Except.map_eq_ok.mp h
  obtain ⟨fronts, hfronts, hpairs⟩ := Except.bind_eq_ok.mp hpairs
  obtain ⟨rest, hrest, hpairs⟩ := Except.bind_eq_ok.mp hpairs
  obtain ⟨pair, hpair, hrest⟩ := Except.bind_eq_ok.mp hrest
  obtain ⟨backs, hbacks, hrest⟩ := Except.bind_eq_ok.mp hrest
  obtain ⟨w₀, hw₀, rfl⟩ := Except.map_eq_ok.mp hpair
  cases hrest
  cases hpairs
  have hlast : label.2.1.denoted ∉ backs.map (·.1) := by
    rw [keys_of_mapM_pair? hbacks]
    intro hmem
    obtain ⟨m, hm, hmkey⟩ := List.mem_map.mp hmem
    exact hback m hm hmkey
  -- the members around the value are read alike, whatever the value is
  refine ⟨w₀, fun w => ofPairs (fronts ++ (label.2.1.denoted, w) :: backs), hw₀, rfl, ?_, ?_⟩
  · intro s
    rw [hfronts, hbacks]
    cases s.value? depth <;> rfl
  · intro w
    refine ⟨?_, fun k hk => ?_⟩
    · rw [get?_ofPairs_between hlast, if_pos rfl]
    · rw [get?_ofPairs_between hlast, get?_ofPairs_between hlast, if_neg hk, if_neg hk]

end Frame

theorem exists_around {frames : List Frame} {keys : List String}
    (h : List.Forall₂ (fun f key => Frame.HasKey f (Text.ofString key)) frames keys) {s₀ : Source}
    {depth : Nat} {v₀ : Json} (h₀ : (frames.foldr Frame.fill s₀).value? depth = .ok v₀) :
    ∃ (w₀ : Json) (around : Json → Json), s₀.value? (depth - frames.length) = .ok w₀ ∧
      (∀ s, (frames.foldr Frame.fill s).value? depth =
        around <$> s.value? (depth - frames.length)) ∧
      ∀ w, Alters w₀ w keys v₀ (around w) := by
  induction h generalizing depth v₀ with
  | nil =>
    refine ⟨v₀, id, h₀, fun s => ?_, fun w => .here⟩
    cases hs : s.value? depth <;> simp [hs, Functor.map, Except.map]
  | @cons f key frames keys hkey _ ih =>
    cases depth with
    | zero => cases h₀
    | succ depth =>
      rw [List.foldr_cons] at h₀
      obtain ⟨u₀, object, hu₀, rfl, hobject, hmembers⟩ := Frame.exists_object hkey h₀
      obtain ⟨w₀, around, hw₀, haround, halters⟩ := ih hu₀
      rw [List.length_cons, Nat.add_sub_add_right]
      refine ⟨w₀, fun w => .obj (object (around w)), hw₀, fun s => ?_, fun w => ?_⟩
      · rw [List.foldr_cons, hobject, haround]
        cases s.value? (depth - frames.length) <;> rfl
      · obtain ⟨hget, hothers⟩ := hmembers (around w)
        exact .under (halters w) (hmembers u₀).1 hget hothers

namespace Surroundings

theorem exists_read {a : Surroundings} {keys : List String} (h : a.Under keys) {s₀ : Source}
    {v₀ : Json} (h₀ : Json.read (a.text s₀) = .ok v₀) :
    ∃ (w₀ : Json) (around : Json → Json), s₀.value? a.depth = .ok w₀ ∧
      (∀ s, Json.read (a.text s) = (around <$> s.value? a.depth).mapError Fault.limit) ∧
      ∀ w, Alters w₀ w keys v₀ (around w) := by
  rw [text, read_source, Except.mapError_eq_ok] at h₀
  obtain ⟨w₀, around, hw₀, haround, halters⟩ := exists_around h h₀
  refine ⟨w₀, around, hw₀, fun s => ?_, halters⟩
  rw [text, read_source, fill, haround, depth]

end Surroundings

end IssueRelay.Json
