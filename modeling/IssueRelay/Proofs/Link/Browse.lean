import IssueRelay.Link.Browse
import IssueRelay.Proofs.Outcome
import IssueRelay.Proofs.Text.Cut
import IssueRelay.Proofs.Text.Surrogates

set_option autoImplicit false

namespace IssueRelay

def LinkSettings.hasSurrogate (s : LinkSettings) : Bool :=
  match s.url with
  | .str site => site.hasSurrogate
  | _ => false

theorem LinkSettings.hasSurrogate_of_not_configured {s : LinkSettings}
    (h : s.isConfigured = false) : s.hasSurrogate = false := by
  obtain ⟨url⟩ := s
  cases url with
  | str site =>
    have hsite : site = [] := by simpa [isConfigured, Json.isSet] using h
    rw [hsite]
    rfl
  | _ => rfl

namespace Link

theorem hasSurrogate_dropWhile_isSlash (t : Text) :
    Text.hasSurrogate (t.dropWhile isSlash) = t.hasSurrogate := by
  induction t with
  | nil => rfl
  | cons c t ih =>
    rw [List.dropWhile_cons]
    split
    · rename_i hslash
      rw [ih, of_decide_eq_true hslash]
      rfl
    · rfl

theorem hasSurrogate_withoutEndSlashes (t : Text) :
    (withoutEndSlashes t).hasSurrogate = t.hasSurrogate := by
  have hreverse (s : Text) : Text.hasSurrogate s.reverse = s.hasSurrogate := by
    simp [Text.hasSurrogate]
  rw [withoutEndSlashes, hreverse, hasSurrogate_dropWhile_isSlash, hreverse]

theorem cleaned_sublist (url : Text) : (cleaned url).Sublist url :=
  List.filter_sublist.trans (List.dropWhile_sublist _)

theorem hasSurrogate_map_lower (t : Text) :
    Text.hasSurrogate (t.map lower) = t.hasSurrogate := by
  induction t with
  | nil => rfl
  | cons c t ih => cases c with
    | scalar c => simp [lower, ih]
    | surrogate i => simp [lower]

theorem hasSurrogate_splitScheme {url : Text} (h : url.hasSurrogate = false) :
    (splitScheme url).1.hasSurrogate = false ∧ (splitScheme url).2.hasSurrogate = false := by
  cases url with
  | nil => exact ⟨rfl, rfl⟩
  | cons first url =>
    rw [splitScheme.eq_def]
    rcases hcut : Text.cutAt (.scalar ':') (first :: url) with ⟨scheme, _ | rest⟩
    · exact ⟨rfl, h⟩
    · have hscheme := Text.fst_cutAt_sublist (.scalar ':') (first :: url)
      have hrest := Text.snd_cutAt_sublist (congrArg Prod.snd hcut)
      rw [hcut] at hscheme
      dsimp only
      split
      · refine ⟨?_, Text.hasSurrogate_of_sublist hrest h⟩
        rw [hasSurrogate_map_lower]
        exact Text.hasSurrogate_of_sublist hscheme h
      · exact ⟨rfl, h⟩

theorem authority?_sublist {t authority : Text} (h : authority? t = some authority) :
    authority.Sublist t := by
  unfold authority? at h
  split at h
  · cases h
    exact ((List.takeWhile_sublist _).cons _).cons _
  · contradiction

theorem hasSurrogate_origin {url scheme authority : Text} (h : url.hasSurrogate = false)
    (ho : origin url = .ok (scheme, authority)) :
    scheme.hasSurrogate = false ∧ authority.hasSurrogate = false := by
  have hclean := Text.hasSurrogate_of_sublist (cleaned_sublist url) h
  obtain ⟨hscheme, hrest⟩ := hasSurrogate_splitScheme hclean
  rw [origin] at ho
  cases hfound : authority? (splitScheme (cleaned url)).2 with
  | none =>
    simp only [hfound] at ho
    cases ho
    exact ⟨hscheme, rfl⟩
  | some found =>
    simp only [hfound] at ho
    cases hcheck : checkAuthority found with
    | error e =>
      rw [hcheck] at ho
      contradiction
    | ok _ =>
      rw [hcheck] at ho
      cases ho
      exact ⟨hscheme, Text.hasSurrogate_of_sublist (authority?_sublist hfound) hrest⟩

theorem hasSurrogate_derivedBase {apiUrl site : Text} (h : apiUrl.hasSurrogate = false)
    (hs : derivedBase apiUrl = .ok site) : site.hasSurrogate = false := by
  unfold derivedBase at hs
  split at hs
  · rename_i before hbefore
    cases hs
    exact Text.hasSurrogate_of_sublist (Text.before?_sublist hbefore) h
  · cases ho : origin apiUrl with
    | error e =>
      rw [ho] at hs
      contradiction
    | ok parts =>
      obtain ⟨scheme, authority⟩ := parts
      rw [ho] at hs
      cases hs
      obtain ⟨hscheme, hauthority⟩ := hasSurrogate_origin h ho
      simp [hscheme, hauthority]

theorem hasSurrogate_configuredBase {settings : LinkSettings} {site : Text}
    (h : settings.hasSurrogate = false) (hs : configuredBase settings.url = .ok site) :
    site.hasSurrogate = false := by
  obtain ⟨url⟩ := settings
  cases url with
  | str given =>
    cases hs
    rw [hasSurrogate_withoutEndSlashes]
    exact h
  | _ => contradiction

theorem hasSurrogate_browse {apiUrl key link : Text} {settings : Option Settings}
    (hurl : apiUrl.hasSurrogate = false) (hkey : key.hasSurrogate = false)
    (hsettings : settings.any (·.link.hasSurrogate) = false)
    (h : browse apiUrl key settings = .ok link) : link.hasSurrogate = false := by
  unfold browse at h
  cases hbase : base apiUrl settings with
  | error e =>
    rw [hbase] at h
    contradiction
  | ok site =>
    rw [hbase] at h
    cases h
    have hsite : site.hasSurrogate = false := by
      unfold base at hbase
      split at hbase
      · split at hbase
        · exact hasSurrogate_configuredBase hsettings hbase
        · exact hasSurrogate_derivedBase hurl hbase
      · exact hasSurrogate_derivedBase hurl hbase
    simp [hsite, hkey]

/-- There is a browse link of an API link with the API's path in it, whatever its front is, if the
site in the settings is a text where there is one. -/
theorem exists_browse {apiUrl : Text} (hpath : "/rest/" <:+: apiUrl) (key : Text) {c : Settings}
    (h : c.link.isConfigured = true → c.link.url.shape = .string) :
    ∃ link, browse apiUrl key (some c) = .ok link := by
  rw [browse, base]
  cases hset : c.link.isConfigured with
  | true =>
    have hshape := h hset
    cases hurl : c.link.url with
    | str site => exact ⟨_, rfl⟩
    | _ =>
      rw [hurl] at hshape
      contradiction
  | false =>
    cases hfound : Text.before? "/rest/" apiUrl with
    | none => exact absurd hpath (Text.before?_eq_none.mp hfound)
    | some site =>
      rw [derivedBase, hfound]
      exact ⟨_, rfl⟩

theorem exists_site_of_browse {apiUrl key link : Text} {c : Settings}
    (h : browse apiUrl key (some c) = .ok link) (hset : c.link.isConfigured = true) :
    ∃ site, c.link.url = .str site ∧ link = withoutEndSlashes site ++ "/browse/" ++ key := by
  obtain ⟨found, hfound, rfl⟩ := Except.map_eq_ok.mp h
  simp only [base, hset, ↓reduceIte] at hfound
  cases hurl : c.link.url with
  | str site =>
    rw [hurl] at hfound
    cases hfound
    exact ⟨site, rfl, rfl⟩
  | _ =>
    rw [hurl] at hfound
    cases hfound

end Link

end IssueRelay
