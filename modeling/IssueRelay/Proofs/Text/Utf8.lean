import IssueRelay.Proofs.Text.Surrogates
import IssueRelay.Text.Utf8

set_option autoImplicit false

namespace IssueRelay.Utf8

theorem toNat_octet {n : Nat} (h : n < 256) : (UInt8.ofNat n).toNat = n :=
  UInt8.toNat_ofNat_of_lt' h

theorem ofHead?_octet {n : Nat} (h : n < 256) :
    Debt.ofHead? (UInt8.ofNat n) =
      if n < 0xC2 then none
      else if n < 0xE0 then some ⟨1, 0x80, 0xBF, n - 0xC0⟩
      else if n < 0xF0 then
        some ⟨2, if n = 0xE0 then 0xA0 else 0x80, if n = 0xED then 0x9F else 0xBF, n - 0xE0⟩
      else if n < 0xF5 then
        some ⟨3, if n = 0xF0 then 0x90 else 0x80, if n = 0xF4 then 0x8F else 0xBF, n - 0xF0⟩
      else none := by
  simp [Debt.ofHead?, UInt8.lt_iff_toNat_lt, ← UInt8.toNat_inj, Nat.mod_eq_of_lt h]

theorem decodeFrom_head {n : Nat} {debt : Debt} (h : n < 256)
    (hd : Debt.ofHead? (UInt8.ofNat n) = some debt) (start : Nat) (rest : List UInt8) :
    decodeFrom start .between (UInt8.ofNat n :: rest) =
      decodeFrom start (.within (UInt8.ofNat n) 0 debt) rest := by
  have hn : ¬ UInt8.ofNat n < 0x80 := by
    intro hlt
    have hlt' : n < 0x80 := by simpa [UInt8.lt_iff_toNat_lt, Nat.mod_eq_of_lt h] using hlt
    rw [ofHead?_octet h, if_pos (by omega)] at hd
    contradiction
  rw [decodeFrom, if_neg hn, hd]

theorem decodeFrom_more {debt : Debt} {n : Nat} (hn : n < 256) (hl : debt.low.toNat ≤ n)
    (hh : n ≤ debt.high.toNat) (ho : 1 < debt.owed) (start read : Nat) (head : UInt8)
    (rest : List UInt8) :
    decodeFrom start (.within head read debt) (UInt8.ofNat n :: rest) =
      decodeFrom start (.within head (read + 1)
        ⟨debt.owed - 1, 0x80, 0xBF, debt.bits * 64 + (n - 0x80)⟩) rest := by
  have hb : debt.low ≤ UInt8.ofNat n ∧ UInt8.ofNat n ≤ debt.high := by
    simp only [UInt8.le_iff_toNat_le, toNat_octet hn]
    exact ⟨hl, hh⟩
  rw [decodeFrom, if_pos hb, if_neg (by omega), toNat_octet hn]

theorem decodeFrom_last {debt : Debt} {n : Nat} (hn : n < 256) (hl : debt.low.toNat ≤ n)
    (hh : n ≤ debt.high.toNat) (ho : debt.owed = 1) (start read : Nat) (head : UInt8)
    (rest : List UInt8) :
    decodeFrom start (.within head read debt) (UInt8.ofNat n :: rest) =
      (Char.ofNat (debt.bits * 64 + (n - 0x80)) :: ·) <$>
        decodeFrom (start + read + 2) .between rest := by
  have hb : debt.low ≤ UInt8.ofNat n ∧ UInt8.ofNat n ≤ debt.high := by
    simp only [UInt8.le_iff_toNat_le, toNat_octet hn]
    exact ⟨hl, hh⟩
  rw [decodeFrom, if_pos hb, if_pos (by omega), toNat_octet hn]

/-! Characters by the number of their octets. -/

theorem decodeFrom_one {n : Nat} (h : n ≤ 0x7F) (start : Nat) (rest : List UInt8) :
    decodeFrom start .between (UInt8.ofNat n :: rest) =
      (Char.ofNat n :: ·) <$> decodeFrom (start + 1) .between rest := by
  have hn : UInt8.ofNat n < 0x80 := by
    simp only [UInt8.lt_iff_toNat_lt, toNat_octet (show n < 256 by omega), UInt8.reduceToNat]
    omega
  rw [decodeFrom, if_pos hn, toNat_octet (by omega)]

theorem decodeFrom_two {n : Nat} (hl : 0x7F < n) (hh : n ≤ 0x7FF) (start : Nat)
    (rest : List UInt8) :
    decodeFrom start .between
        (UInt8.ofNat (n / 64 % 0x20 + 0xc0) :: UInt8.ofNat (n % 0x40 + 0x80) :: rest) =
      (Char.ofNat n :: ·) <$> decodeFrom (start + 2) .between rest := by
  have hd := ofHead?_octet (show n / 64 % 0x20 + 0xc0 < 256 by omega)
  rw [if_neg (by omega), if_pos (by omega)] at hd
  have hbits : (n / 64 % 0x20 + 0xc0 - 0xC0) * 64 + (n % 0x40 + 0x80 - 0x80) = n := by omega
  rw [decodeFrom_head (by omega) hd, decodeFrom_last (by omega) (by simp) (by simp; omega) rfl]
  simp only [hbits, Nat.add_zero]

theorem decodeFrom_three {n : Nat} (hl : 0x7FF < n) (hh : n ≤ 0xFFFF)
    (hs : n < 0xD800 ∨ 0xDFFF < n) (start : Nat) (rest : List UInt8) :
    decodeFrom start .between
        (UInt8.ofNat (n / 4096 % 0x10 + 0xe0) :: UInt8.ofNat (n / 64 % 0x40 + 0x80) ::
          UInt8.ofNat (n % 0x40 + 0x80) :: rest) =
      (Char.ofNat n :: ·) <$> decodeFrom (start + 3) .between rest := by
  have hd := ofHead?_octet (show n / 4096 % 0x10 + 0xe0 < 256 by omega)
  rw [if_neg (by omega), if_neg (by omega), if_pos (by omega)] at hd
  have hbits : ((n / 4096 % 0x10 + 0xe0 - 0xE0) * 64 + (n / 64 % 0x40 + 0x80 - 0x80)) * 64
      + (n % 0x40 + 0x80 - 0x80) = n := by omega
  rw [decodeFrom_head (by omega) hd]
  -- the bounds of the second octet leave out what has fewer octets, and the surrogates
  rw [decodeFrom_more (by omega) (by dsimp only; split <;> (simp; try omega))
      (by dsimp only; split <;> (simp; omega)) Nat.one_lt_two,
    decodeFrom_last (by omega) (by simp) (by simp; omega) rfl]
  simp only [hbits, Nat.zero_add]

theorem decodeFrom_four {n : Nat} (hl : 0xFFFF < n) (hh : n < 0x110000) (start : Nat)
    (rest : List UInt8) :
    decodeFrom start .between
        (UInt8.ofNat (n / 262144 % 0x08 + 0xf0) :: UInt8.ofNat (n / 4096 % 0x40 + 0x80) ::
          UInt8.ofNat (n / 64 % 0x40 + 0x80) :: UInt8.ofNat (n % 0x40 + 0x80) :: rest) =
      (Char.ofNat n :: ·) <$> decodeFrom (start + 4) .between rest := by
  have hd := ofHead?_octet (show n / 262144 % 0x08 + 0xf0 < 256 by omega)
  rw [if_neg (by omega), if_neg (by omega), if_neg (by omega), if_pos (by omega)] at hd
  have hbits : (((n / 262144 % 0x08 + 0xf0 - 0xF0) * 64 + (n / 4096 % 0x40 + 0x80 - 0x80)) * 64
      + (n / 64 % 0x40 + 0x80 - 0x80)) * 64 + (n % 0x40 + 0x80 - 0x80) = n := by omega
  rw [decodeFrom_head (by omega) hd]
  -- the bounds of the second octet leave out what has fewer octets, and what is no code point
  rw [decodeFrom_more (by omega) (by dsimp only; split <;> (simp; try omega))
      (by dsimp only; split <;> (simp; omega)) (Nat.lt_add_left 1 Nat.one_lt_two),
    decodeFrom_more (by omega) (by simp) (by simp; omega) Nat.one_lt_two,
    decodeFrom_last (by omega) (by simp) (by simp; omega) rfl]
  simp only [hbits, Nat.zero_add]

/-- The machine reads the octets of a character as that character. -/
theorem decodeFrom_encodeChar (c : Char) (start : Nat) (rest : List UInt8) :
    decodeFrom start .between (String.utf8EncodeChar c ++ rest) =
      (c :: ·) <$> decodeFrom (start + (String.utf8EncodeChar c).length) .between rest := by
  have hv : c.toNat < 0xD800 ∨ 0xDFFF < c.toNat ∧ c.toNat < 0x110000 := c.valid
  have hc : Char.ofNat c.val.toNat = c := Char.ofNat_toNat c
  fun_cases String.utf8EncodeChar c with
  | case1 n h => simpa [n, hc] using decodeFrom_one h start rest
  | case2 n h h' => simpa [n, hc] using decodeFrom_two (Nat.lt_of_not_le h) h' start rest
  | case3 n h h' h'' =>
    have hs : c.val.toNat < 0xD800 ∨ 0xDFFF < c.val.toNat := hv.imp id And.left
    simpa [n, hc] using decodeFrom_three (Nat.lt_of_not_le h') h'' hs start rest
  | case4 n h h' h'' =>
    have hh : c.val.toNat < 0x110000 := by
      have he : c.val.toNat = c.toNat := rfl
      omega
    simpa [n, hc] using decodeFrom_four (Nat.lt_of_not_le h'') hh start rest

theorem decodeFrom_encodeChars (cs : List Char) (start : Nat) :
    decodeFrom start .between (encodeChars cs) = .ok cs := by
  induction cs generalizing start with
  | nil => rfl
  | cons c cs ih =>
    have he : encodeChars (c :: cs) = String.utf8EncodeChar c ++ encodeChars cs := rfl
    rw [he, decodeFrom_encodeChar, ih]
    rfl

theorem decode_encodeChars (cs : List Char) : decode (encodeChars cs) = .ok cs :=
  decodeFrom_encodeChars cs 0

theorem charsFrom_ofChars (cs : List Char) (start : Nat) :
    charsFrom start (Text.ofChars cs) = .ok cs := by
  induction cs generalizing start with
  | nil => rfl
  | cons c cs ih =>
    have hc := ih (start + 1)
    simp only [Text.ofChars, List.map_cons, charsFrom] at hc ⊢
    rw [hc]
    rfl

theorem encode_ofChars (cs : List Char) : encode (Text.ofChars cs) = .ok (encodeChars cs) := by
  rw [encode, charsFrom_ofChars]
  rfl

theorem eq_ofChars_of_charsFrom {t : Text} {start : Nat} {cs : List Char}
    (h : charsFrom start t = .ok cs) : t = Text.ofChars cs := by
  induction t generalizing start cs with
  | nil =>
    cases h
    rfl
  | cons c t ih =>
    cases c with
    | surrogate i => contradiction
    | scalar c =>
      rw [charsFrom] at h
      cases ht : charsFrom (start + 1) t with
      | error run =>
        rw [ht] at h
        contradiction
      | ok ds =>
        rw [ht] at h
        cases h
        rw [ih ht]
        rfl

theorem encode_eq_ok {t : Text} {octets : List UInt8} :
    encode t = .ok octets ↔ ∃ cs, t = Text.ofChars cs ∧ encodeChars cs = octets := by
  constructor
  · intro h
    rw [encode] at h
    cases hc : charsFrom 0 t with
    | error run =>
      rw [hc] at h
      contradiction
    | ok cs =>
      rw [hc] at h
      exact ⟨cs, eq_ofChars_of_charsFrom hc, Except.ok.inj h⟩
  · rintro ⟨cs, rfl, rfl⟩
    exact encode_ofChars cs

theorem decode_of_encode {t : Text} {octets : List UInt8} (h : encode t = .ok octets) :
    Text.ofChars <$> decode octets = .ok t := by
  obtain ⟨cs, rfl, rfl⟩ := encode_eq_ok.mp h
  rw [decode_encodeChars]
  rfl

theorem exists_octets {t : Text} (h : t.hasSurrogate = false) :
    ∃ octets, encode t = .ok octets := by
  obtain ⟨cs, rfl⟩ := Text.exists_chars h
  exact ⟨encodeChars cs, encode_ofChars cs⟩

end IssueRelay.Utf8
