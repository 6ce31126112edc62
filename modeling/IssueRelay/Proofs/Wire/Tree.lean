import IssueRelay.Proofs.Json.Members
import IssueRelay.Proofs.Text.Surrogates
import IssueRelay.Wire.Basic

set_option autoImplicit false

namespace IssueRelay.Wire

/-- Trees at most so many objects deep, in which no text has surrogates and no object has two
entries under one key. -/
inductive WellFormed : Nat → Wire → Prop
  | number {depth : Nat} (n : UInt64) : WellFormed depth (.number n)
  | text {depth : Nat} {s : Text} (h : s.hasSurrogate = false) : WellFormed depth (.text s)
  | object {depth : Nat} {entries : List (String × Wire)} (keys : (entries.map (·.1)).Nodup)
      (each : ∀ e ∈ entries, WellFormed depth e.2) : WellFormed (depth + 1) (.object entries)

theorem membersOf_eq_map (entries : List (String × Wire)) :
    membersOf entries = entries.map fun e => (Text.ofString e.1, e.2.toJson) := by
  induction entries with
  | nil => rfl
  | cons e entries ih => rw [membersOf, ih, List.map_cons]

theorem sortedEach_eq_map (entries : List (String × Wire)) :
    sortedEach entries = entries.map fun e => (e.1, e.2.sorted) := by
  induction entries with
  | nil => rfl
  | cons e entries ih => rw [sortedEach, ih, List.map_cons]

theorem map_fst_sortedEach (entries : List (String × Wire)) :
    (sortedEach entries).map (·.1) = entries.map (·.1) := by
  rw [sortedEach_eq_map, List.map_map]
  rfl

theorem map_fst_membersOf (entries : List (String × Wire)) :
    (membersOf entries).map (·.1) = (entries.map (·.1)).map Text.ofString := by
  rw [membersOf_eq_map, List.map_map, List.map_map]
  rfl

theorem distinctKeys_membersOf {entries : List (String × Wire)}
    (h : (entries.map (·.1)).Nodup) : Json.DistinctKeys (membersOf entries) := by
  rw [Json.DistinctKeys, map_fst_membersOf]
  exact List.Pairwise.map _ (fun _ _ hne he => hne (Text.ofString_injective he)) h

theorem get?_membersOf_of_mem {entries : List (String × Wire)}
    (hk : (entries.map (·.1)).Nodup) {key : String} {w : Wire} (h : (key, w) ∈ entries) :
    Json.get? (membersOf entries) key = some w.toJson := by
  refine Json.get?_of_mem (distinctKeys_membersOf hk) ?_
  rw [membersOf_eq_map]
  exact List.mem_map.mpr ⟨(key, w), h, rfl⟩

theorem get?_membersOf_eq_none {entries : List (String × Wire)} {key : String} :
    Json.get? (membersOf entries) key = none ↔ key ∉ entries.map (·.1) := by
  rw [Json.get?_eq_none, map_fst_membersOf]
  constructor
  · exact fun h hkey => h (List.mem_map_of_mem hkey)
  · intro h hkey
    obtain ⟨k, hk, he⟩ := List.mem_map.mp hkey
    exact h (Text.ofString_injective he ▸ hk)

def sortedEntries (entries : List (String × Wire)) : List (String × Wire) :=
  (sortedEach entries).mergeSort fun a b => a.1 ≤ b.1

theorem sorted_object (entries : List (String × Wire)) :
    sorted (.object entries) = .object (sortedEntries entries) := rfl

theorem mem_sortedEntries {entries : List (String × Wire)} {key : String} {w : Wire} :
    (key, w) ∈ sortedEntries entries ↔ ∃ v, (key, v) ∈ entries ∧ v.sorted = w := by
  rw [sortedEntries, List.mem_mergeSort, sortedEach_eq_map]
  simp only [List.mem_map, Prod.exists, Prod.mk.injEq]
  constructor
  · rintro ⟨_, v, hv, rfl, rfl⟩
    exact ⟨v, hv, rfl⟩
  · rintro ⟨v, hv, rfl⟩
    exact ⟨key, v, hv, rfl, rfl⟩

theorem keys_sortedEntries (entries : List (String × Wire)) :
    ((sortedEntries entries).map (·.1)).Perm (entries.map (·.1)) := by
  rw [← map_fst_sortedEach entries]
  exact (List.mergeSort_perm _ _).map _

namespace WellFormed

theorem mono {depth depth' : Nat} {w : Wire} (h : WellFormed depth w) (hd : depth ≤ depth') :
    WellFormed depth' w := by
  induction h generalizing depth' with
  | number n => exact .number n
  | text hs => exact .text hs
  | object keys each ih =>
    obtain ⟨d, rfl⟩ : ∃ d, depth' = d + 1 := ⟨depth' - 1, by omega⟩
    exact .object keys fun e he => ih e he (by omega)

theorem sorted {depth : Nat} {w : Wire} (h : WellFormed depth w) : WellFormed depth w.sorted := by
  induction h with
  | number n => exact .number n
  | text hs => exact .text hs
  | object keys each ih =>
    rw [sorted_object]
    refine .object ((keys_sortedEntries _).symm.nodup keys) ?_
    rintro ⟨key, w⟩ he
    obtain ⟨v, hv, rfl⟩ := mem_sortedEntries.mp he
    exact ih (key, v) hv

end WellFormed

inductive Ordered : Wire → Prop
  | number (n : UInt64) : Ordered (.number n)
  | text (s : Text) : Ordered (.text s)
  | object {entries : List (String × Wire)} (keys : (entries.map (·.1)).Pairwise (· ≤ ·))
      (each : ∀ e ∈ entries, Ordered e.2) : Ordered (.object entries)

/-- The same tree, but for the order in which the entries of an object stand. -/
inductive Rearranges : Wire → Wire → Prop
  | number (n : UInt64) : Rearranges (.number n) (.number n)
  | text (s : Text) : Rearranges (.text s) (.text s)
  | object {entries entries' : List (String × Wire)}
      (keys : (entries.map (·.1)).Perm (entries'.map (·.1)))
      (each : ∀ key w w', (key, w) ∈ entries → (key, w') ∈ entries' → Rearranges w w') :
      Rearranges (.object entries) (.object entries')

theorem pairwise_keys_sortedEntries (entries : List (String × Wire)) :
    ((sortedEntries entries).map (·.1)).Pairwise (· ≤ ·) := by
  have h := @List.pairwise_mergeSort _ (fun a b : String × Wire => decide (a.1 ≤ b.1))
    (fun a b c hab hbc => by
      simp only [decide_eq_true_eq] at *
      exact String.le_trans hab hbc)
    (fun a b => by simpa using String.le_total a.1 b.1) (sortedEach entries)
  exact List.pairwise_map.mpr (h.imp fun hab => of_decide_eq_true hab)

theorem WellFormed.ordered_sorted {depth : Nat} {w : Wire} (h : WellFormed depth w) :
    w.sorted.Ordered := by
  induction h with
  | number n => exact .number n
  | text hs => exact .text _
  | object keys each ih =>
    rw [sorted_object]
    refine .object (pairwise_keys_sortedEntries _) ?_
    rintro ⟨key, w⟩ he
    obtain ⟨v, hv, rfl⟩ := mem_sortedEntries.mp he
    exact ih (key, v) hv

theorem eq_of_mem_of_nodup {entries : List (String × Wire)} (h : (entries.map (·.1)).Nodup)
    {key : String} {v w : Wire} (hv : (key, v) ∈ entries) (hw : (key, w) ∈ entries) : v = w := by
  induction entries with
  | nil => contradiction
  | cons e entries ih =>
    obtain ⟨hkey, hrest⟩ := List.nodup_cons.mp h
    have hnot (u : Wire) (hu : (key, u) ∈ entries) : e.1 ≠ key :=
      fun he => hkey (List.mem_map.mpr ⟨(key, u), hu, he.symm⟩)
    obtain rfl | hv := List.mem_cons.mp hv <;> obtain heq | hw := List.mem_cons.mp hw
    · exact (Prod.mk.inj heq).2.symm
    · exact absurd rfl (hnot w hw)
    · exact absurd (congrArg Prod.fst heq).symm (hnot v hv)
    · exact ih hrest hv hw

theorem WellFormed.sorted_rearranges {depth : Nat} {w : Wire} (h : WellFormed depth w) :
    w.sorted.Rearranges w := by
  induction h with
  | number n => exact .number n
  | text hs => exact .text _
  | object keys each ih =>
    rw [sorted_object]
    refine .object (keys_sortedEntries _) ?_
    intro key w w' hw hw'
    obtain ⟨v, hv, rfl⟩ := mem_sortedEntries.mp hw
    rw [eq_of_mem_of_nodup keys hw' hv]
    exact ih (key, v) hv

/-- Whether a tree is what stands in another one under those keys. -/
inductive At : List String → Wire → Wire → Prop
  | here (w : Wire) : At [] w w
  | under {key : String} {keys : List String} {entries : List (String × Wire)} {v x : Wire}
      (mem : (key, v) ∈ entries) (h : At keys v x) : At (key :: keys) (.object entries) x

theorem At.sorted {keys : List String} {w x : Wire} (h : At keys w x) :
    At keys w.sorted x.sorted := by
  induction h with
  | here w => exact .here w.sorted
  | under mem h ih =>
    rw [sorted_object]
    exact .under (mem_sortedEntries.mpr ⟨_, mem, rfl⟩) ih

end IssueRelay.Wire
