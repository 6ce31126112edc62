import Mathlib.Data.List.Induction
import IssueRelay.Json.Basic

set_option autoImplicit false

namespace IssueRelay.Json

def DistinctKeys (members : List (Text × Json)) : Prop := (members.map (·.1)).Nodup

theorem distinctKeys_cons {k : Text} {v : Json} {members : List (Text × Json)} :
    DistinctKeys ((k, v) :: members) ↔ k ∉ members.map (·.1) ∧ DistinctKeys members :=
  List.nodup_cons

theorem get?_eq_none {members : List (Text × Json)} {key : Text} :
    get? members key = none ↔ key ∉ members.map (·.1) := by
  induction members with
  | nil => simp [get?]
  | cons m members ih =>
    obtain ⟨k, v⟩ := m
    by_cases h : k = key
    · simp [get?, h]
    · have h' : key ≠ k := fun e => h e.symm
      simp only [get?, if_neg h, ih, List.map_cons, List.mem_cons, not_or]
      exact ⟨fun hm => ⟨h', hm⟩, And.right⟩

theorem isSome_get? {members : List (Text × Json)} {key : Text} :
    (get? members key).isSome ↔ key ∈ members.map (·.1) := by
  rw [Option.isSome_iff_ne_none, ne_eq, get?_eq_none, Decidable.not_not]

theorem get?_of_mem {members : List (Text × Json)} (hd : DistinctKeys members) {key : Text}
    {v : Json} (h : (key, v) ∈ members) : get? members key = some v := by
  induction members with
  | nil => contradiction
  | cons m members ih =>
    obtain ⟨k, w⟩ := m
    obtain ⟨hk, hd⟩ := distinctKeys_cons.mp hd
    obtain heq | htail := List.mem_cons.mp h
    · cases heq
      simp [get?]
    · have hne : k ≠ key := fun e => hk (List.mem_map.mpr ⟨(key, v), htail, e.symm⟩)
      rw [get?, if_neg hne, ih hd htail]

theorem put_of_not_mem {members : List (Text × Json)} {key : Text} (v : Json)
    (h : key ∉ members.map (·.1)) : put members key v = members ++ [(key, v)] := by
  induction members with
  | nil => rfl
  | cons m members ih =>
    obtain ⟨k, w⟩ := m
    simp only [List.map_cons, List.mem_cons, not_or] at h
    have hne : k ≠ key := fun e => h.1 e.symm
    rw [put, if_neg hne, ih h.2]
    rfl

theorem foldl_put {done pairs : List (Text × Json)} (h : DistinctKeys (done ++ pairs)) :
    pairs.foldl (fun members (k, v) => put members k v) done = done ++ pairs := by
  induction pairs generalizing done with
  | nil => simp
  | cons m pairs ih =>
    obtain ⟨k, v⟩ := m
    have hk : k ∉ done.map (·.1) := by
      intro hmem
      simp only [DistinctKeys, List.map_append, List.map_cons, List.nodup_append] at h
      exact h.2.2 k hmem k (by simp) rfl
    simp only [List.foldl_cons, put_of_not_mem v hk]
    rw [ih (by simpa using h)]
    simp

theorem ofPairs_eq_self {pairs : List (Text × Json)} (h : DistinctKeys pairs) :
    ofPairs pairs = pairs := @foldl_put [] pairs h

theorem get?_put (members : List (Text × Json)) (k key : Text) (v : Json) :
    get? (put members k v) key = if k = key then some v else get? members key := by
  induction members with
  | nil => rfl
  | cons m members ih =>
    obtain ⟨k', w⟩ := m
    by_cases hput : k' = k
    · subst hput
      by_cases hkey : k' = key <;> simp [put, get?, hkey]
    · rw [put, if_neg hput, get?, ih, get?]
      by_cases hkey : k' = key
      · have hne : k ≠ key := fun e => hput (hkey.trans e.symm)
        rw [if_pos hkey, if_neg hne, if_pos hkey]
      · rw [if_neg hkey, if_neg hkey]

theorem get?_put_of_ne (members : List (Text × Json)) {k key : Text} (v : Json) (h : k ≠ key) :
    get? (put members k v) key = get? members key := by rw [get?_put, if_neg h]

theorem get?_ofPairs (pairs : List (Text × Json)) (key : Text) :
    get? (ofPairs pairs) key = get? pairs.reverse key := by
  induction pairs using List.reverseRecOn with
  | nil => rfl
  | append_singleton pairs m ih =>
    obtain ⟨k, v⟩ := m
    rw [ofPairs, List.foldl_append, ← ofPairs, List.foldl_cons, List.foldl_nil, get?_put, ih,
      List.reverse_append]
    rfl

theorem mem_of_get? {members : List (Text × Json)} {key : Text} {v : Json}
    (h : get? members key = some v) : (key, v) ∈ members := by
  induction members with
  | nil => contradiction
  | cons m members ih =>
    obtain ⟨k, w⟩ := m
    rw [get?] at h
    split at h
    · rename_i hkey
      cases h
      exact hkey ▸ List.mem_cons_self
    · exact List.mem_cons_of_mem _ (ih h)

theorem get?_perm {members members' : List (Text × Json)} (hd : DistinctKeys members)
    (h : members.Perm members') (key : Text) : get? members' key = get? members key := by
  have hkeys := h.map Prod.fst
  cases hfound : get? members key with
  | none =>
    rw [get?_eq_none] at hfound ⊢
    exact fun hkey => hfound (hkeys.mem_iff.mpr hkey)
  | some v => exact get?_of_mem (hkeys.nodup hd) (h.mem_iff.mp (mem_of_get? hfound))

theorem get?_filter (members : List (Text × Json)) (k key : Text) :
    get? (members.filter (·.1 ≠ k)) key = if k = key then none else get? members key := by
  induction members with
  | nil => simp [get?]
  | cons m members ih =>
    obtain ⟨k', w⟩ := m
    by_cases hk : k' = k
    · rw [List.filter_cons_of_neg (by simp [hk]), ih, get?]
      by_cases hkey : k = key
      · rw [if_pos hkey, if_pos hkey]
      · rw [if_neg hkey, if_neg hkey, hk, if_neg hkey]
    · rw [List.filter_cons_of_pos (by simp [hk]), get?, ih, get?]
      by_cases hkey : k' = key
      · have hne : k ≠ key := fun e => hk (hkey.trans e.symm)
        rw [if_pos hkey, if_neg hne, if_pos hkey]
      · rw [if_neg hkey, if_neg hkey]

theorem get?_filter_of_ne (members : List (Text × Json)) {k key : Text} (h : k ≠ key) :
    get? (members.filter (·.1 ≠ k)) key = get? members key := by rw [get?_filter, if_neg h]

def at? : List String → Json → Option Json
  | [], v => some v
  | key :: keys, .obj members => (get? members key).bind (at? keys)
  | _ :: _, _ => none

theorem at?_cons {members : List (Text × Json)} {key : String} {v : Json}
    (h : get? members key = some v) (keys : List String) :
    at? (key :: keys) (.obj members) = at? keys v := by rw [at?, h, Option.bind_some]

end IssueRelay.Json
