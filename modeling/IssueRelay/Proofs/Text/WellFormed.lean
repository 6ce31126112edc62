import IssueRelay.Proofs.Outcome
import IssueRelay.Proofs.Text.Utf8
import Mathlib.Order.Bounds.Defs

/-!
Which octets are decoded. What is decoded is what the characters encode, so that no octets but these
spell them; and a fault begins right after the longest front of the octets that spells characters.
An octet of ASCII is a character, and is part of no other.
-/

set_option autoImplicit false

namespace IssueRelay.Utf8

def WellFormed (octets : List UInt8) : Prop := ∃ cs, encodeChars cs = octets

theorem encodeChars_cons (c : Char) (cs : List Char) :
    encodeChars (c :: cs) = String.utf8EncodeChar c ++ encodeChars cs := rfl

theorem toNat_charOfNat {n : Nat} (h : n < 0xD800 ∨ 0xDFFF < n ∧ n < 0x110000) :
    (Char.ofNat n).val.toNat = n := by
  have hv : n.isValidChar := h
  rw [Char.ofNat, dif_pos hv]
  exact UInt32.toNat_ofNatLT ..

/-! What the numbers of characters encode, by the number of octets. -/

theorem encodeChar_two {n : Nat} (hl : 0x7F < n) (hh : n ≤ 0x7FF) :
    String.utf8EncodeChar (Char.ofNat n) =
      [UInt8.ofNat (n / 64 % 0x20 + 0xc0), UInt8.ofNat (n % 0x40 + 0x80)] := by
  have hn := toNat_charOfNat (n := n) (by omega)
  simp only [String.utf8EncodeChar, hn, if_neg (Nat.not_le.mpr hl), if_pos hh]

theorem encodeChar_three {n : Nat} (hl : 0x7FF < n) (hh : n ≤ 0xFFFF)
    (hs : n < 0xD800 ∨ 0xDFFF < n) :
    String.utf8EncodeChar (Char.ofNat n) =
      [UInt8.ofNat (n / 4096 % 0x10 + 0xe0), UInt8.ofNat (n / 64 % 0x40 + 0x80),
        UInt8.ofNat (n % 0x40 + 0x80)] := by
  have hn := toNat_charOfNat (n := n) (by omega)
  have hl' : ¬n ≤ 0x7F := by omega
  simp only [String.utf8EncodeChar, hn, if_neg hl', if_neg (Nat.not_le.mpr hl), if_pos hh]

theorem encodeChar_four {n : Nat} (hl : 0xFFFF < n) (hh : n < 0x110000) :
    String.utf8EncodeChar (Char.ofNat n) =
      [UInt8.ofNat (n / 262144 % 0x08 + 0xf0), UInt8.ofNat (n / 4096 % 0x40 + 0x80),
        UInt8.ofNat (n / 64 % 0x40 + 0x80), UInt8.ofNat (n % 0x40 + 0x80)] := by
  have hn := toNat_charOfNat (n := n) (by omega)
  have hl' : ¬n ≤ 0x7F := by omega
  have hl'' : ¬n ≤ 0x7FF := by omega
  simp only [String.utf8EncodeChar, hn, if_neg hl', if_neg hl'', if_neg (Nat.not_le.mpr hl)]

def IsTail (b : UInt8) : Prop := 0x80 ≤ b ∧ b ≤ 0xBF

theorem isTail_iff {b : UInt8} : IsTail b ↔ 0x80 ≤ b.toNat ∧ b.toNat ≤ 0xBF := by
  simp [IsTail, UInt8.le_iff_toNat_le]

theorem exists_char_two {head b : UInt8} (hl : 0xC2 ≤ head.toNat) (hh : head.toNat < 0xE0)
    (hb : IsTail b) : ∃ c, String.utf8EncodeChar c = [head, b] := by
  rw [isTail_iff] at hb
  obtain ⟨n, hn⟩ : ∃ n, n = (head.toNat - 0xC0) * 64 + (b.toNat - 0x80) := ⟨_, rfl⟩
  have hhead : n / 64 % 0x20 + 0xc0 = head.toNat := by omega
  have htail : n % 0x40 + 0x80 = b.toNat := by omega
  refine ⟨Char.ofNat n, ?_⟩
  rw [encodeChar_two (by omega) (by omega), hhead, htail, UInt8.ofNat_toNat, UInt8.ofNat_toNat]

theorem exists_char_three {head b b' : UInt8} (hl : 0xE0 ≤ head.toNat) (hh : head.toNat < 0xF0)
    (hb : IsTail b) (hbl : head.toNat = 0xE0 → 0xA0 ≤ b.toNat)
    (hbh : head.toNat = 0xED → b.toNat ≤ 0x9F) (hb' : IsTail b') :
    ∃ c, String.utf8EncodeChar c = [head, b, b'] := by
  rw [isTail_iff] at hb hb'
  obtain ⟨n, hn⟩ : ∃ n, n = ((head.toNat - 0xE0) * 64 + (b.toNat - 0x80)) * 64
      + (b'.toNat - 0x80) := ⟨_, rfl⟩
  have hhead : n / 4096 % 0x10 + 0xe0 = head.toNat := by omega
  have hnext : n / 64 % 0x40 + 0x80 = b.toNat := by omega
  have htail : n % 0x40 + 0x80 = b'.toNat := by omega
  refine ⟨Char.ofNat n, ?_⟩
  rw [encodeChar_three (by omega) (by omega) (by omega), hhead, hnext, htail, UInt8.ofNat_toNat,
    UInt8.ofNat_toNat, UInt8.ofNat_toNat]

theorem exists_char_four {head b b' b'' : UInt8} (hl : 0xF0 ≤ head.toNat) (hh : head.toNat < 0xF5)
    (hb : IsTail b) (hbl : head.toNat = 0xF0 → 0x90 ≤ b.toNat)
    (hbh : head.toNat = 0xF4 → b.toNat ≤ 0x8F) (hb' : IsTail b') (hb'' : IsTail b'') :
    ∃ c, String.utf8EncodeChar c = [head, b, b', b''] := by
  rw [isTail_iff] at hb hb' hb''
  obtain ⟨n, hn⟩ : ∃ n, n = (((head.toNat - 0xF0) * 64 + (b.toNat - 0x80)) * 64
      + (b'.toNat - 0x80)) * 64 + (b''.toNat - 0x80) := ⟨_, rfl⟩
  have hhead : n / 262144 % 0x08 + 0xf0 = head.toNat := by omega
  have hnext : n / 4096 % 0x40 + 0x80 = b.toNat := by omega
  have hnext' : n / 64 % 0x40 + 0x80 = b'.toNat := by omega
  have htail : n % 0x40 + 0x80 = b''.toNat := by omega
  refine ⟨Char.ofNat n, ?_⟩
  rw [encodeChar_four (by omega) (by omega), hhead, hnext, hnext', htail, UInt8.ofNat_toNat,
    UInt8.ofNat_toNat, UInt8.ofNat_toNat, UInt8.ofNat_toNat]

theorem exists_char_one {head : UInt8} (h : head < 0x80) :
    ∃ c, String.utf8EncodeChar c = [head] := by
  have hh : head.toNat < 0x80 := UInt8.lt_iff_toNat_lt.mp h
  have hn := toNat_charOfNat (n := head.toNat) (by omega)
  have hle : head.toNat ≤ 0x7F := by omega
  refine ⟨Char.ofNat head.toNat, ?_⟩
  simp only [String.utf8EncodeChar, hn, if_pos hle, UInt8.ofNat_toNat]

theorem isTail_of_bounds {p q : Prop} [Decidable p] [Decidable q] {low high b : UInt8}
    (hlow : 0x80 ≤ low) (hhigh : high ≤ 0xBF)
    (h : (if p then low else 0x80) ≤ b ∧ b ≤ if q then high else 0xBF) :
    IsTail b ∧ (p → low.toNat ≤ b.toNat) ∧ (q → b.toNat ≤ high.toNat) := by
  simp only [isTail_iff, UInt8.le_iff_toNat_le, UInt8.reduceToNat] at *
  by_cases hp : p <;> by_cases hq : q <;> simp [hp, hq] at h ⊢ <;> omega

/-- The octets that a head asks for make up a character with it. -/
theorem exists_char {head b : UInt8} {more : List UInt8} {debt : Debt}
    (hd : Debt.ofHead? head = some debt) (hb : debt.low ≤ b ∧ b ≤ debt.high)
    (hlength : more.length + 1 = debt.owed) (hmore : ∀ x ∈ more, IsTail x) :
    ∃ c, String.utf8EncodeChar c = head :: b :: more := by
  have hhead := ofHead?_octet head.toNat_lt
  rw [UInt8.ofNat_toNat, hd] at hhead
  split at hhead
  · contradiction
  split at hhead
  · cases hhead
    obtain rfl := List.eq_nil_of_length_eq_zero (Nat.succ.inj hlength)
    exact exists_char_two (by omega) (by omega) hb
  split at hhead
  · cases hhead
    obtain ⟨b', rfl⟩ := List.length_eq_one_iff.mp (Nat.succ.inj hlength)
    obtain ⟨htail, hl, hh⟩ := isTail_of_bounds (by decide) (by decide) hb
    exact exists_char_three (by omega) (by omega) htail hl hh (hmore b' (by simp))
  split at hhead
  · cases hhead
    obtain ⟨b', more, rfl⟩ := List.exists_cons_of_length_eq_add_one (Nat.succ.inj hlength)
    obtain ⟨b'', rfl⟩ := List.length_eq_one_iff.mp (Nat.succ.inj (Nat.succ.inj hlength))
    obtain ⟨htail, hl, hh⟩ := isTail_of_bounds (by decide) (by decide) hb
    exact exists_char_four (by omega) (by omega) htail hl hh (hmore b' (by simp))
      (hmore b'' (by simp))
  · contradiction

theorem decodeFrom_within (start read : Nat) (head : UInt8) (debt : Debt) (ho : 0 < debt.owed)
    (s : List UInt8) :
    (∃ f, decodeFrom start (.within head read debt) s = .error f ∧ f.start = start) ∨
      ∃ b more rest, s = b :: (more ++ rest) ∧ (debt.low ≤ b ∧ b ≤ debt.high) ∧
        more.length + 1 = debt.owed ∧ ∀ x ∈ more, IsTail x := by
  induction s generalizing read debt with
  | nil => exact .inl ⟨_, rfl, rfl⟩
  | cons b s ih =>
    rw [decodeFrom]
    by_cases hb : debt.low ≤ b ∧ b ≤ debt.high
    · by_cases hone : debt.owed ≤ 1
      · exact .inr ⟨b, [], s, rfl, hb, by simp; omega, by simp⟩
      · simp only [if_pos hb, if_neg hone]
        have howed : 0 < debt.owed - 1 := by omega
        refine (ih _ ⟨_, 0x80, 0xBF, _⟩ howed).imp_right ?_
        rintro ⟨b', more, rest, rfl, hb', hlength, hmore⟩
        refine ⟨b, b' :: more, rest, rfl, hb, ?_, List.forall_mem_cons.mpr ⟨hb', hmore⟩⟩
        simp only [List.length_cons] at hlength ⊢
        omega
    · rw [if_neg hb]
      exact .inl ⟨_, rfl, rfl⟩

theorem owed_pos {head : UInt8} {debt : Debt} (h : Debt.ofHead? head = some debt) :
    0 < debt.owed := by
  unfold Debt.ofHead? at h
  repeat' split at h
  all_goals cases h
  all_goals exact Nat.succ_pos _

theorem decodeFrom_between (start : Nat) (s : List UInt8) :
    s = [] ∨ (∃ c rest, s = String.utf8EncodeChar c ++ rest) ∨
      ∃ f, decodeFrom start .between s = .error f ∧ f.start = start := by
  cases s with
  | nil => exact .inl rfl
  | cons head s =>
    refine .inr ?_
    by_cases hascii : head < 0x80
    · obtain ⟨c, hc⟩ := exists_char_one hascii
      exact .inl ⟨c, s, by rw [hc]; rfl⟩
    · rw [decodeFrom, if_neg hascii]
      cases hd : Debt.ofHead? head with
      | none => exact .inr ⟨_, rfl, rfl⟩
      | some debt =>
        obtain hstop | ⟨b, more, rest, rfl, hb, hlength, hmore⟩ :=
          decodeFrom_within start 0 head debt (owed_pos hd) s
        · exact .inr hstop
        · obtain ⟨c, hc⟩ := exists_char hd hb hlength hmore
          exact .inl ⟨c, rest, by rw [hc]; rfl⟩

theorem decodeFrom_append (cs : List Char) (start : Nat) (rest : List UInt8) :
    decodeFrom start .between (encodeChars cs ++ rest) =
      (cs ++ ·) <$> decodeFrom (start + (encodeChars cs).length) .between rest := by
  induction cs generalizing start with
  | nil => simp [encodeChars]
  | cons c cs ih =>
    rw [encodeChars_cons, List.append_assoc, decodeFrom_encodeChar, ih, List.length_append,
      Nat.add_assoc]
    cases decodeFrom _ .between rest <;> rfl

/-- Octets begin with those of characters, after which there are none or the machine stops. -/
theorem exists_front (s : List UInt8) (start : Nat) :
    ∃ cs rest, s = encodeChars cs ++ rest ∧ (rest = [] ∨
      ∃ f, decodeFrom start .between s = .error f ∧ f.start = start + (encodeChars cs).length) := by
  induction hn : s.length using Nat.strongRecOn generalizing s start with
  | ind n ih =>
    obtain rfl | ⟨c, rest, rfl⟩ | hstop := decodeFrom_between start s
    · exact ⟨[], [], rfl, .inl rfl⟩
    · have hpos : 0 < (String.utf8EncodeChar c).length := by
        rw [String.length_utf8EncodeChar]
        exact c.utf8Size_pos
      have hlt : rest.length < n := by
        rw [← hn, List.length_append]
        omega
      obtain ⟨cs, more, rfl, hmore⟩ :=
        ih rest.length hlt rest (start + (String.utf8EncodeChar c).length) rfl
      refine ⟨c :: cs, more, by rw [encodeChars_cons, List.append_assoc], hmore.imp_right ?_⟩
      rintro ⟨f, hf, hstart⟩
      refine ⟨f, ?_, ?_⟩
      · rw [decodeFrom_encodeChar, hf]
        rfl
      · rw [hstart, encodeChars_cons, List.length_append, Nat.add_assoc]
    · exact ⟨[], s, rfl, .inr hstop⟩

theorem le_start {start : Nat} {state : State} {s : List UInt8} {f : Fault}
    (h : decodeFrom start state s = .error f) : start ≤ f.start := by
  fun_induction decodeFrom start state s with
  | case1 => contradiction
  | case2 start b rest hascii ih =>
    have := ih (Except.map_eq_error.mp h)
    omega
  | case3 | case5 | case8 =>
    cases h
    exact Nat.le_refl _
  | case4 start b rest hascii debt hd ih => exact ih h
  | case6 start head read debt b rest hb bits hone ih =>
    have := ih (Except.map_eq_error.mp h)
    omega
  | case7 start head read debt b rest hb bits hone ih => exact ih h

/-- What is decoded are the characters that the octets encode. -/
theorem decode_eq_ok {octets : List UInt8} {cs : List Char} :
    decode octets = .ok cs ↔ encodeChars cs = octets := by
  refine ⟨fun h => ?_, fun h => h ▸ decode_encodeChars cs⟩
  obtain ⟨ds, rest, rfl, hrest⟩ := exists_front octets 0
  obtain rfl | ⟨f, hf, -⟩ := hrest
  · rw [List.append_nil, decode_encodeChars] at h
    rw [List.append_nil, Except.ok.inj h]
  · rw [decode, hf] at h
    contradiction

/-- The fault in octets begins where the longest front of them that spells characters ends. -/
theorem isGreatest_start {octets : List UInt8} {f : Fault} (h : decode octets = .error f) :
    IsGreatest {n | n ≤ octets.length ∧ WellFormed (octets.take n)} f.start := by
  obtain ⟨cs, rest, rfl, hrest⟩ := exists_front octets 0
  constructor
  · obtain rfl | ⟨f', hf', hstart⟩ := hrest
    · rw [List.append_nil, decode_encodeChars] at h
      contradiction
    · obtain rfl : f' = f := Except.error.inj (hf'.symm.trans h)
      rw [Nat.zero_add] at hstart
      refine ⟨?_, cs, ?_⟩
      · rw [hstart, List.length_append]
        exact Nat.le_add_right _ _
      · rw [hstart, List.take_left]
  · rintro n ⟨hn, ds, hds⟩
    generalize encodeChars cs ++ rest = octets at *
    rw [decode, ← List.take_append_drop n octets, ← hds, decodeFrom_append,
      Except.map_eq_error] at h
    have hle := le_start h
    rwa [hds, List.length_take, Nat.zero_add, Nat.min_eq_left hn] at hle

theorem encodeChar_cases (c : Char) :
    c.toNat < 0x80 ∧ String.utf8EncodeChar c = [UInt8.ofNat c.toNat] ∨
      0x80 ≤ c.toNat ∧ ∀ b ∈ String.utf8EncodeChar c, 0x80 ≤ b.toNat := by
  have hc : c.val.toNat = c.toNat := rfl
  fun_cases String.utf8EncodeChar c with
  | case1 n h => exact .inl ⟨by omega, rfl⟩
  | case2 | case3 | case4 =>
    refine .inr ⟨by omega, ?_⟩
    simp
    omega

theorem exists_char_of_mem {cs : List Char} {b : UInt8} (h : b ∈ encodeChars cs) :
    ∃ c ∈ cs, b.toNat = c.toNat ∨ 0x80 ≤ b.toNat ∧ 0x80 ≤ c.toNat := by
  obtain ⟨c, hc, hb⟩ := List.mem_flatMap.mp h
  obtain ⟨hascii, hone⟩ | ⟨hpast, hmore⟩ := encodeChar_cases c
  · rw [hone, List.mem_singleton] at hb
    exact ⟨c, hc, .inl (hb ▸ toNat_octet (by omega))⟩
  · exact ⟨c, hc, .inr ⟨hmore b hb, hpast⟩⟩

theorem count_encodeChars (x : Char) (hx : x.toNat < 0x80) (cs : List Char) :
    (encodeChars cs).count (UInt8.ofNat x.toNat) = cs.count x := by
  have hoctet : (UInt8.ofNat x.toNat).toNat = x.toNat := toNat_octet (by omega)
  induction cs with
  | nil => rfl
  | cons c cs ih =>
    rw [encodeChars_cons, List.count_append, ih, List.count_cons, Nat.add_comm]
    congr 1
    obtain ⟨hascii, hone⟩ | ⟨hpast, hmore⟩ := encodeChar_cases c
    · have hsame : UInt8.ofNat c.toNat = UInt8.ofNat x.toNat ↔ c = x := by
        rw [← UInt8.toNat_inj, hoctet, toNat_octet (by omega), Char.toNat_inj]
      simp [hone, List.count_singleton, hsame]
    · have hne : c ≠ x := by rintro rfl; omega
      have hnot : UInt8.ofNat x.toNat ∉ String.utf8EncodeChar c := by
        intro hmem
        have := hmore _ hmem
        omega
      simp [List.count_eq_zero_of_not_mem hnot, hne]

end IssueRelay.Utf8
