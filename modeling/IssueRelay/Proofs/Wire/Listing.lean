import IssueRelay.Wire.Basic

set_option autoImplicit false

namespace IssueRelay.Wire

/-- What is found in a tree. What is in an object is listed after it. -/
inductive Content
  | number (n : UInt64)
  | text (s : Text)
  | object
  deriving DecidableEq

abbrev Listed := List String × Content

def Listed.under (key : String) (e : Listed) : Listed := (key :: e.1, e.2)

mutual

def listing : Wire → List Listed
  | .number n => [([], .number n)]
  | .text s => [([], .text s)]
  | .object entries => ([], .object) :: entryListing entries

def entryListing : List (String × Wire) → List Listed
  | [] => []
  | (key, w) :: rest => w.listing.map (Listed.under key) ++ entryListing rest

end

theorem entryListing_append (front back : List (String × Wire)) :
    entryListing (front ++ back) = entryListing front ++ entryListing back := by
  induction front with
  | nil => rfl
  | cons e front ih => rw [List.cons_append, entryListing, entryListing, ih, List.append_assoc]

theorem Listed.under_injective {key : String} {d e : Listed} (h : d.under key = e.under key) :
    d = e := by
  cases d
  cases e
  cases h
  rfl

theorem keys_ne_of_mem_entryListing {entries : List (String × Wire)} {e : Listed}
    (h : e ∈ entryListing entries) : e.1 ≠ [] := by
  induction entries with
  | nil => contradiction
  | cons entry rest ih =>
    obtain ⟨key, w⟩ := entry
    rw [entryListing] at h
    obtain h | h := List.mem_append.mp h
    · obtain ⟨d, -, rfl⟩ := List.mem_map.mp h
      exact List.cons_ne_nil key d.1
    · exact ih h

theorem exists_listing (w : Wire) :
    ∃ content inside, w.listing = ([], content) :: inside ∧ ∀ e ∈ inside, e.1 ≠ [] := by
  cases w with
  | number n => exact ⟨.number n, [], rfl, nofun⟩
  | text s => exact ⟨.text s, [], rfl, nofun⟩
  | object entries =>
    exact ⟨.object, entryListing entries, rfl, fun e => keys_ne_of_mem_entryListing⟩

def Listed.isInner (e : Listed) : Bool := 1 < e.1.length

/-- What is inside the value of an entry ends where the next entry begins. -/
theorem takeWhile_isInner {inside : List Listed} (h : ∀ e ∈ inside, e.1 ≠ []) (key : String)
    (rest : List (String × Wire)) :
    (inside.map (Listed.under key) ++ entryListing rest).takeWhile Listed.isInner =
      inside.map (Listed.under key) := by
  have hinner : ∀ e ∈ inside.map (Listed.under key), e.isInner = true := by
    intro e he
    obtain ⟨d, hd, rfl⟩ := List.mem_map.mp he
    exact decide_eq_true (Nat.succ_lt_succ (List.length_pos_iff.mpr (h d hd)))
  have hnext : (entryListing rest).takeWhile Listed.isInner = [] := by
    cases rest with
    | nil => rfl
    | cons entry rest =>
      obtain ⟨key, w⟩ := entry
      obtain ⟨content, inside, hw, -⟩ := w.exists_listing
      rw [entryListing, hw]
      rfl
  rw [List.takeWhile_append_of_pos hinner, hnext, List.append_nil]

theorem entryListing_cons_inj {key key' : String} {w w' : Wire} {rest rest' : List (String × Wire)}
    (h : entryListing ((key, w) :: rest) = entryListing ((key', w') :: rest')) :
    key = key' ∧ w.listing = w'.listing ∧ entryListing rest = entryListing rest' := by
  obtain ⟨content, inside, hw, hinside⟩ := w.exists_listing
  obtain ⟨content', inside', hw', hinside'⟩ := w'.exists_listing
  rw [entryListing, entryListing, hw, hw', List.map_cons, List.map_cons, List.cons_append,
    List.cons_append] at h
  obtain ⟨hfirst, hlater⟩ := List.cons_eq_cons.mp h
  obtain ⟨rfl, rfl⟩ : key = key' ∧ content = content' := by
    cases hfirst
    exact ⟨rfl, rfl⟩
  have hfront := congrArg (List.takeWhile Listed.isInner) hlater
  rw [takeWhile_isInner hinside, takeWhile_isInner hinside'] at hfront
  have hsame : inside = inside' :=
    (List.map_inj_right fun _ _ => Listed.under_injective).mp hfront
  rw [hfront] at hlater
  rw [hw, hw', hsame]
  exact ⟨rfl, rfl, List.append_cancel_left hlater⟩

mutual

/-- Trees with one listing are one tree. -/
theorem listing_injective : (w w' : Wire) → w.listing = w'.listing → w = w'
  | .number n, w', h => by
    cases w' with
    | number m =>
      cases h
      rfl
    | text | object => cases h
  | .text s, w', h => by
    cases w' with
    | text t =>
      cases h
      rfl
    | number | object => cases h
  | .object entries, w', h => by
    cases w' with
    | object entries' =>
      obtain ⟨-, hentries⟩ := List.cons_eq_cons.mp h
      rw [entryListing_injective entries entries' hentries]
    | number | text => cases h

theorem entryListing_injective : (entries entries' : List (String × Wire)) →
    entryListing entries = entryListing entries' → entries = entries'
  | [], [], _ => rfl
  | [], (key, w) :: rest, h => by
    obtain ⟨content, inside, hw, -⟩ := w.exists_listing
    rw [entryListing, entryListing, hw] at h
    contradiction
  | (key, w) :: rest, [], h => by
    obtain ⟨content, inside, hw, -⟩ := w.exists_listing
    rw [entryListing, entryListing, hw] at h
    contradiction
  | (key, w) :: rest, (key', w') :: rest', h => by
    obtain ⟨rfl, hw, hrest⟩ := entryListing_cons_inj h
    rw [listing_injective w w' hw, entryListing_injective rest rest' hrest]

end

end IssueRelay.Wire
