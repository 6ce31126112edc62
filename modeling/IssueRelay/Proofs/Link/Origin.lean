import IssueRelay.Link.Browse
import IssueRelay.Proofs.Text.Cut

set_option autoImplicit false

namespace IssueRelay.Link

def isScheme : Text → Bool
  | [] => false
  | first :: rest => isChar Char.isAlpha first && rest.all (isChar isSchemeChar)

/-- ASCII characters that stand in a link for themselves, and neither end an authority nor enclose
an address. -/
def isAuthorityChar (c : CodePoint) : Bool :=
  c.value < 0x80 && !isIgnored c && !endsAuthority c && c ≠ .scalar '[' && c ≠ .scalar ']'

structure Origin where
  scheme : Text
  authority : Text
  isScheme_scheme : isScheme scheme = true
  isAuthorityChar_authority : ∀ c ∈ authority, isAuthorityChar c = true

def Origin.front (o : Origin) : Text := o.scheme ++ "://" ++ o.authority

theorem Origin.front_append (o : Origin) (t : Text) : o.front ++ t =
    o.scheme ++ .scalar ':' :: .scalar '/' :: .scalar '/' :: (o.authority ++ t) := by
  rw [front, List.append_assoc, List.append_assoc]
  rfl

def isTail (t : Text) : Bool := t.head?.all endsAuthority

theorem isSchemeChar_of_isAlpha {c : CodePoint} (h : isChar Char.isAlpha c = true) :
    isChar isSchemeChar c = true := by
  cases c with
  | scalar c => simp_all [isChar, isSchemeChar, Char.isAlphanum]
  | surrogate i => contradiction

theorem isSchemeChar_of_mem {scheme : Text} (h : isScheme scheme = true) {c : CodePoint}
    (hc : c ∈ scheme) : isChar isSchemeChar c = true := by
  cases scheme with
  | nil => contradiction
  | cons first rest =>
    obtain ⟨hfirst, hrest⟩ := Bool.and_eq_true_iff.mp h
    obtain rfl | hc := List.mem_cons.mp hc
    · exact isSchemeChar_of_isAlpha hfirst
    · exact List.all_eq_true.mp hrest c hc

theorem colon_not_mem_scheme {scheme : Text} (h : isScheme scheme = true) :
    .scalar ':' ∉ scheme := by
  intro hc
  have := isSchemeChar_of_mem h hc
  contradiction

theorem isIgnored_of_isSchemeChar {c : CodePoint} (h : isChar isSchemeChar c = true) :
    isIgnored c = false := by
  cases c with
  | scalar c =>
    simp only [isIgnored, CodePoint.scalar.injEq, Bool.or_eq_false_iff, decide_eq_false_iff_not]
    refine ⟨⟨?_, ?_⟩, ?_⟩ <;> rintro rfl <;> contradiction
  | surrogate i => contradiction

theorem isLeading_of_isAlpha {c : CodePoint} (h : isChar Char.isAlpha c = true) :
    isLeading c = false := by
  cases c with
  | scalar c =>
    change (decide ('A'.val ≤ c.val ∧ c.val ≤ 'Z'.val) ||
      decide ('a'.val ≤ c.val) && decide (c.val ≤ 'z'.val)) = true at h
    simp only [Bool.or_eq_true, Bool.and_eq_true, decide_eq_true_eq,
      UInt32.le_iff_toNat_le] at h
    change (65 ≤ c.toNat ∧ c.toNat ≤ 90) ∨ (97 ≤ c.toNat ∧ c.toNat ≤ 122) at h
    refine decide_eq_false ?_
    change ¬c.toNat ≤ 0x20
    omega
  | surrogate i => contradiction

theorem isLeading_of_isIgnored {c : CodePoint} (h : isIgnored c = true) : isLeading c = true := by
  simp only [isIgnored, Bool.or_eq_true, decide_eq_true_eq] at h
  obtain (rfl | rfl) | rfl := h <;> rfl

theorem cleaned_eq_dropWhile (url : Text) :
    cleaned url = (url.filter (!isIgnored ·)).dropWhile isLeading := by
  induction url with
  | nil => rfl
  | cons c url ih =>
    rw [cleaned] at *
    by_cases hleading : isLeading c = true
    · by_cases hignored : isIgnored c = true
      · simp [hleading, hignored, ih]
      · simp [hleading, hignored, ih]
    · have hignored : ¬isIgnored c = true := fun h => hleading (isLeading_of_isIgnored h)
      simp [hleading, hignored]

theorem filter_not_isIgnored {t : Text} (h : ∀ c ∈ t, isIgnored c = false) :
    t.filter (!isIgnored ·) = t :=
  List.filter_eq_self.mpr fun c hc => by rw [h c hc]; rfl

theorem Origin.filter_front (o : Origin) : o.front.filter (!isIgnored ·) = o.front := by
  refine filter_not_isIgnored fun c hc => ?_
  simp only [front, List.mem_append] at hc
  obtain (hc | hc) | hc := hc
  · exact isIgnored_of_isSchemeChar (isSchemeChar_of_mem o.isScheme_scheme hc)
  · revert c
    decide
  · have hauthority := o.isAuthorityChar_authority c hc
    simp only [isAuthorityChar, Bool.and_eq_true, Bool.not_eq_true'] at hauthority
    exact hauthority.1.1.1.2

theorem Origin.dropWhile_front (o : Origin) (rest : Text) :
    (o.front ++ rest).dropWhile isLeading = o.front ++ rest := by
  obtain ⟨scheme, authority, hscheme, -⟩ := o
  cases scheme with
  | nil => contradiction
  | cons first scheme =>
    have hfirst := isLeading_of_isAlpha (Bool.and_eq_true_iff.mp hscheme).1
    exact List.dropWhile_cons_of_neg (by simp [hfirst])

theorem Origin.cleaned_append (o : Origin) {blanks front : Text}
    (hblanks : ∀ c ∈ blanks, isLeading c = true)
    (hfront : front.filter (!isIgnored ·) = o.front) (rest : Text) :
    cleaned (blanks ++ front ++ rest) = o.front ++ rest.filter (!isIgnored ·) := by
  have hleading : ∀ c ∈ blanks.filter (!isIgnored ·), isLeading c = true :=
    fun c hc => hblanks c (List.mem_filter.mp hc).1
  rw [cleaned_eq_dropWhile, List.filter_append, List.filter_append, hfront, List.append_assoc,
    List.dropWhile_append_of_pos hleading, o.dropWhile_front]

theorem Origin.cleaned_front_append (o : Origin) (rest : Text) :
    cleaned (o.front ++ rest) = o.front ++ rest.filter (!isIgnored ·) := by
  have hblanks : ∀ c ∈ ([] : Text), isLeading c = true := nofun
  exact o.cleaned_append hblanks o.filter_front rest

theorem isTail_filter {t : Text} (h : isTail t = true) :
    isTail (t.filter (!isIgnored ·)) = true := by
  cases t with
  | nil => rfl
  | cons c t =>
    have hends : endsAuthority c = true := h
    have hignored : isIgnored c = false := by
      simp only [endsAuthority, Bool.or_eq_true, decide_eq_true_eq] at hends
      obtain (rfl | rfl) | rfl := hends <;> rfl
    simp [isTail, hignored, hends]

theorem splitScheme_append {scheme : Text} (h : isScheme scheme = true) (rest : Text) :
    splitScheme (scheme ++ .scalar ':' :: rest) = (scheme.map lower, rest) := by
  have hcut := Text.cutAt_append (colon_not_mem_scheme h) rest
  have hall : scheme.all (isChar isSchemeChar) = true :=
    List.all_eq_true.mpr fun c hc => isSchemeChar_of_mem h hc
  cases scheme with
  | nil => contradiction
  | cons first scheme =>
    have hfirst := (Bool.and_eq_true_iff.mp h).1
    rw [List.cons_append] at hcut ⊢
    simp only [splitScheme, hcut, hfirst, hall, Bool.and_self, ↓reduceIte]

theorem authority?_append {authority rest : Text}
    (h : ∀ c ∈ authority, endsAuthority c = false) (hrest : isTail rest = true) :
    authority? (.scalar '/' :: .scalar '/' :: (authority ++ rest)) = some authority := by
  have hstop : rest.takeWhile (!endsAuthority ·) = [] := by
    cases rest with
    | nil => rfl
    | cons c rest =>
      have hends : endsAuthority c = true := hrest
      simp [hends]
  have hall : ∀ c ∈ authority, (!endsAuthority c) = true := fun c hc => by rw [h c hc]; rfl
  rw [authority?, List.takeWhile_append_of_pos hall, hstop, List.append_nil]

theorem le_of_mem_delimiterForms : ∀ n ∈ delimiterForms, 0x80 ≤ n := by decide

theorem checkAuthority_of_isAuthorityChar {authority : Text}
    (h : ∀ c ∈ authority, isAuthorityChar c = true) : checkAuthority authority = .ok () := by
  have hopens : .scalar '[' ∉ authority := fun hc => absurd (h _ hc) (by decide)
  have hcloses : .scalar ']' ∉ authority := fun hc => absurd (h _ hc) (by decide)
  have hforms : authority.any (delimiterForms.contains ·.value) = false := by
    simp only [List.any_eq_false, List.contains_iff_mem]
    intro c hc hform
    have hle := le_of_mem_delimiterForms _ hform
    have hchar := h c hc
    simp only [isAuthorityChar, Bool.and_eq_true, decide_eq_true_eq] at hchar
    omega
  simp only [checkAuthority, hopens, hcloses, hforms]
  rfl

theorem Origin.endsAuthority_authority (o : Origin) {c : CodePoint} (hc : c ∈ o.authority) :
    endsAuthority c = false := by
  have hchar := o.isAuthorityChar_authority c hc
  simp only [isAuthorityChar, Bool.and_eq_true, Bool.not_eq_true'] at hchar
  exact hchar.1.1.2

theorem Origin.origin_eq (o : Origin) {url rest : Text} (hurl : cleaned url = o.front ++ rest)
    (hrest : isTail rest = true) : origin url = .ok (o.scheme.map lower, o.authority) := by
  have hsplit : splitScheme (cleaned url) =
      (o.scheme.map lower, .scalar '/' :: .scalar '/' :: (o.authority ++ rest)) := by
    rw [hurl, o.front_append, splitScheme_append o.isScheme_scheme]
  have hauthority := authority?_append (fun _ => o.endsAuthority_authority) hrest
  have hcheck := checkAuthority_of_isAuthorityChar o.isAuthorityChar_authority
  rw [origin, hsplit]
  simp only [hauthority, hcheck]
  rfl

theorem base_of_not_configured {settings : Option Settings}
    (h : settings.any (·.link.isConfigured) = false) (apiUrl : Text) :
    base apiUrl settings = derivedBase apiUrl := by
  cases settings with
  | none => rfl
  | some s =>
    have hs : s.link.isConfigured = false := h
    simp [base, hs]

theorem browse_of_before? {settings : Option Settings}
    (hsettings : settings.any (·.link.isConfigured) = false) {apiUrl site : Text}
    (h : Text.before? "/rest/" apiUrl = some site) (key : Text) :
    browse apiUrl key settings = .ok (site ++ "/browse/" ++ key) := by
  rw [browse, base_of_not_configured hsettings, derivedBase, h]
  rfl

theorem Origin.browse_of_cleaned (o : Origin) {settings : Option Settings}
    (hsettings : settings.any (·.link.isConfigured) = false) {apiUrl rest : Text}
    (hclean : cleaned apiUrl = o.front ++ rest) (hrest : isTail rest = true)
    (h : Text.before? "/rest/" apiUrl = none) (key : Text) :
    browse apiUrl key settings =
      .ok (o.scheme.map lower ++ "://" ++ o.authority ++ "/browse/" ++ key) := by
  rw [browse, base_of_not_configured hsettings, derivedBase, h, o.origin_eq hclean hrest]
  rfl

/-- A link without the API's path gives a link to its origin. What follows the origin does not
matter, nor do blanks before it, nor tabs and line ends inside of it. -/
theorem browse_origin (o : Origin) {settings : Option Settings}
    (hsettings : settings.any (·.link.isConfigured) = false) {rest : Text}
    (hrest : isTail rest = true) (key : Text) :
    (¬"/rest/" <:+: o.front ++ rest →
      browse (o.front ++ rest) key settings =
        .ok (o.scheme.map lower ++ "://" ++ o.authority ++ "/browse/" ++ key)) ∧
    ∀ blanks front : Text, (∀ c ∈ blanks, isLeading c = true) →
      front.filter (!isIgnored ·) = o.front → ¬"/rest/" <:+: blanks ++ front ++ rest →
      browse (blanks ++ front ++ rest) key settings =
        .ok (o.scheme.map lower ++ "://" ++ o.authority ++ "/browse/" ++ key) := by
  constructor
  · intro hpath
    exact o.browse_of_cleaned hsettings (o.cleaned_front_append rest) (isTail_filter hrest)
      (Text.before?_eq_none.mpr hpath) key
  · intro blanks front hblanks hfront hpath
    exact o.browse_of_cleaned hsettings (o.cleaned_append hblanks hfront rest)
      (isTail_filter hrest) (Text.before?_eq_none.mpr hpath) key

/-- Blanks before the scheme, a tab inside of it and a line end between the slashes. -/
theorem browse_origin_blanks :
    browse (("\x01 " : Text) ++ "Ht\ttp:/\n/h.x:80" ++ "/a\tb?/rest") "K-1" none =
      .ok "http://h.x:80/browse/K-1" :=
  (browse_origin ⟨"Http", "h.x:80", by decide, by decide⟩ rfl rfl "K-1").2 "\x01 "
    "Ht\ttp:/\n/h.x:80" (by decide) (by decide) (Text.before?_eq_none.mp rfl)

end IssueRelay.Link
