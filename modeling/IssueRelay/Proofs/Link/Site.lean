import IssueRelay.Proofs.Link.Origin

set_option autoImplicit false

namespace IssueRelay.Link

/-- Whether a link has the scheme of an origin, in whatever case, and its authority, and after that
what ends an authority. -/
def Origin.Leads (o : Origin) (link : Text) : Prop :=
  ∃ scheme tail : Text, link = scheme ++ "://" ++ o.authority ++ tail ∧
    scheme.map lower = o.scheme.map lower ∧ tail.head?.any endsAuthority = true

theorem lower_lower (c : CodePoint) : lower (lower c) = lower c := by
  cases c with
  | surrogate i => rfl
  | scalar c =>
    have hkept {d : Char} (h : ¬(d.val ≥ 'A'.val ∧ d.val ≤ 'Z'.val)) : d.toLower = d := dif_neg h
    refine congrArg CodePoint.scalar (hkept ?_)
    by_cases hupper : c.val ≥ 'A'.val ∧ c.val ≤ 'Z'.val
    · have hlower : c.toLower.val = c.val + ('a'.val - 'A'.val) :=
        congrArg Char.val (dif_pos hupper)
      grind [UInt32.toNat_add]
    · rwa [hkept hupper]

theorem map_lower_map_lower (t : Text) : (t.map lower).map lower = t.map lower := by
  rw [List.map_map]
  exact List.map_congr_left fun c _ => lower_lower c

theorem slash_not_mem_authority (o : Origin) : .scalar '/' ∉ o.authority :=
  fun hc => absurd (o.endsAuthority_authority hc) (by decide)

theorem slash_not_mem_scheme (o : Origin) : .scalar '/' ∉ o.scheme ++ [.scalar ':'] := by
  intro hc
  obtain hc | hc := List.mem_append.mp hc
  · exact absurd (isSchemeChar_of_mem o.isScheme_scheme hc) (by decide)
  · revert hc
    decide

theorem word_prefix_iff {word authority tail : Text}
    (hword : ∀ c ∈ word, endsAuthority c = false)
    (hauthority : ∀ c ∈ authority, endsAuthority c = false) (htail : isTail tail = true) :
    word ++ [.scalar '/'] <+: authority ++ tail ↔
      authority = word ∧ tail.head? = some (.scalar '/') := by
  induction authority generalizing word with
  | nil =>
    cases tail with
    | nil => simp
    | cons c tail =>
      cases word with
      | nil => simp [eq_comm]
      | cons w word =>
        have hw : endsAuthority w = false := hword w List.mem_cons_self
        have hc : endsAuthority c = true := htail
        have hne : w ≠ c := by rintro rfl; simp [hw] at hc
        simp [hne]
  | cons a authority ih =>
    cases word with
    | nil =>
      have ha : a ≠ .scalar '/' := by
        rintro rfl
        exact absurd (hauthority _ List.mem_cons_self) (by decide)
      simp [ha.symm]
    | cons w word =>
      have hrest := ih (fun c hc => hword c (List.mem_cons_of_mem w hc))
        (fun c hc => hauthority c (List.mem_cons_of_mem a hc))
      simp only [List.cons_append, List.cons_prefix_cons, hrest, List.cons.injEq, and_assoc,
        @eq_comm _ a w]

theorem apiPath_eq : ("/rest/" : Text) = .scalar '/' :: (("rest" : Text) ++ [.scalar '/']) := rfl

theorem before?_apiPath_append {t : Text} (h : .scalar '/' ∉ t) (rest : Text) :
    Text.before? "/rest/" (t ++ rest) = (Text.before? "/rest/" rest).map (t ++ ·) :=
  Text.before?_append h _ rest

/-- Where the API's path is found in a link: behind the origin, unless `rest` is the authority. -/
theorem before?_front (o : Origin) {tail : Text} (htail : isTail tail = true) :
    Text.before? "/rest/" (o.front ++ tail) =
      if o.authority = "rest" ∧ tail.head? = some (.scalar '/') then some (o.scheme ++ ":/")
      else (Text.before? "/rest/" tail).map (o.front ++ ·) := by
  have hslashes : ¬("/rest/" : Text) <+: .scalar '/' :: .scalar '/' :: (o.authority ++ tail) := by
    rw [apiPath_eq, List.cons_prefix_cons]
    exact fun h => absurd (List.cons_prefix_cons.mp h.2).1 (by decide)
  have hword : ("/rest/" : Text) <+: .scalar '/' :: (o.authority ++ tail) ↔
      o.authority = "rest" ∧ tail.head? = some (.scalar '/') := by
    rw [apiPath_eq, List.cons_prefix_cons]
    simp only [true_and]
    exact word_prefix_iff (by decide) (fun _ => o.endsAuthority_authority) htail
  rw [o.front_append, List.append_cons, before?_apiPath_append (slash_not_mem_scheme o),
    Text.before?_cons, if_neg hslashes, Text.before?_cons,
    before?_apiPath_append (slash_not_mem_authority o)]
  simp only [hword]
  split
  · simp only [Option.map_some, List.append_assoc]
    rfl
  · rw [Option.map_map, Option.map_map, Option.map_map]
    refine congrArg (Option.map · _) (funext fun before => ?_)
    simp only [Function.comp_apply, o.front_append, List.append_assoc, List.singleton_append]

theorem Origin.leads_append {o : Origin} {scheme tail : Text}
    (hscheme : scheme.map lower = o.scheme.map lower)
    (htail : tail.head?.any endsAuthority = true) :
    o.Leads (scheme ++ "://" ++ o.authority ++ tail) :=
  ⟨scheme, tail, rfl, hscheme, htail⟩

/-- Schemes that differ in case only are of one length, so that the hosts can be compared. -/
theorem Origin.not_leads_browse {o : Origin} (h : o.authority = "rest") (key : Text) :
    ¬o.Leads (o.scheme ++ "://browse/" ++ key) := by
  rintro ⟨scheme, tail, hlink, hscheme, -⟩
  have hlength : o.scheme.length = scheme.length := by
    simpa using congrArg List.length hscheme.symm
  rw [h, List.append_assoc, List.append_assoc, List.append_assoc] at hlink
  have hhost := (List.append_inj hlink hlength).2
  have hfirst : some (CodePoint.scalar 'b') = some (.scalar 'r') := congrArg (·[3]?) hhost
  exact absurd hfirst (by decide)

theorem endsAuthority_browse {word tail site : Text} (htail : isTail tail = true)
    (h : site ++ word <+: tail) (key : Text) :
    (site ++ ("/browse/" ++ key)).head?.any endsAuthority = true := by
  obtain ⟨rest, rfl⟩ := h
  cases site with
  | nil => rfl
  | cons c site => exact htail

/-- A link leads to the site of the API link, its scheme in whatever case, unless that is taken for
the API's path: a host `rest` with anything below it. The link then goes to a host `browse`. -/
theorem browse_leads (o : Origin) {settings : Option Settings}
    (hsettings : settings.any (·.link.isConfigured) = false) {tail : Text}
    (htail : isTail tail = true) (key : Text) :
    ∃ link, browse (o.front ++ tail) key settings = .ok link ∧
      (o.Leads link ↔ ¬(o.authority = "rest" ∧ tail.head? = some (.scalar '/'))) ∧
      (o.authority = "rest" → tail.head? = some (.scalar '/') →
        link = o.scheme ++ "://browse/" ++ key) := by
  have hbefore := before?_front o htail
  by_cases hrest : o.authority = "rest" ∧ tail.head? = some (.scalar '/')
  · rw [if_pos hrest] at hbefore
    have hlink : o.scheme ++ ":/" ++ "/browse/" ++ key = o.scheme ++ "://browse/" ++ key := by
      rw [List.append_assoc o.scheme]
      rfl
    refine ⟨_, browse_of_before? hsettings hbefore key, ?_, fun _ _ => hlink⟩
    rw [hlink]
    exact iff_of_false (o.not_leads_browse hrest.1 key) (not_not_intro hrest)
  · rw [if_neg hrest] at hbefore
    have hleads {link : Text} (h : o.Leads link) :
        (o.Leads link ↔ ¬(o.authority = "rest" ∧ tail.head? = some (.scalar '/'))) ∧
        (o.authority = "rest" → tail.head? = some (.scalar '/') →
          link = o.scheme ++ "://browse/" ++ key) :=
      ⟨iff_of_true h hrest, fun hhost hslash => absurd ⟨hhost, hslash⟩ hrest⟩
    cases hsite : Text.before? "/rest/" tail with
    | none =>
      have hclean := o.cleaned_front_append tail
      rw [hsite] at hbefore
      refine ⟨_, o.browse_of_cleaned hsettings hclean (isTail_filter htail) hbefore key, hleads ?_⟩
      rw [List.append_assoc]
      exact o.leads_append (map_lower_map_lower o.scheme) rfl
    | some site =>
      have hfront := (Text.shortest_of_before? hsite).1
      rw [hsite] at hbefore
      refine ⟨_, browse_of_before? hsettings hbefore key, hleads ?_⟩
      rw [List.append_assoc, List.append_assoc]
      exact o.leads_append rfl (endsAuthority_browse htail hfront key)

theorem browse_leads_port :
    let o : Origin := ⟨"HTTPS", "rest:8080", by decide, by decide⟩
    ∃ link, browse (o.front ++ "/rest/api/2/issue/1") "K-1" none = .ok link ∧
      (o.Leads link ↔
        ¬(o.authority = "rest" ∧ ("/rest/api/2/issue/1" : Text).head? = some (.scalar '/'))) ∧
      (o.authority = "rest" → ("/rest/api/2/issue/1" : Text).head? = some (.scalar '/') →
        link = o.scheme ++ "://browse/" ++ "K-1") :=
  browse_leads _ rfl rfl "K-1"

/-- The API's path on a host `rest` is looked for too early, behind the first slash. -/
theorem not_browse_leads_rest :
    ¬∀ (o : Origin) (tail key : Text), o.authority ≠ [] → isTail tail = true →
      ∃ link, browse (o.front ++ tail) key none = .ok link ∧ o.Leads link := by
  intro h
  obtain ⟨link, hlink, hleads⟩ :=
    h ⟨"https", "rest", by decide, by decide⟩ "/rest/api/2/issue/1" "K-1" nofun rfl
  have hbrowse : browse "https://rest/rest/api/2/issue/1" "K-1" none =
      .ok "https://browse/K-1" := rfl
  obtain rfl : ("https://browse/K-1" : Text) = link := Except.ok.inj (hbrowse.symm.trans hlink)
  exact Origin.not_leads_browse rfl "K-1" hleads

theorem exists_before?_context (context tail : Text) :
    ∃ site, Text.before? "/rest/" (context ++ "/rest/" ++ tail) = some site ∧ site <+: context ∧
      (site = context ↔ ¬"/rest/" <:+: context ++ ("/" : Text)) := by
  cases hsite : Text.before? "/rest/" (context ++ "/rest/" ++ tail) with
  | none => exact absurd ⟨context, tail, rfl⟩ (Text.before?_eq_none.mp hsite)
  | some site =>
    obtain ⟨hfront, hleast⟩ := Text.shortest_of_before? hsite
    have hslash : context ++ ("/" : Text) <+: context ++ "/rest/" ++ tail := by
      rw [List.append_assoc, List.prefix_append_right_inj]
      exact ⟨_, rfl⟩
    have hprefix : site <+: context :=
      List.prefix_of_prefix_length_le ((List.prefix_append site _).trans hfront)
        ((List.prefix_append context _).trans hslash) (hleast context (List.prefix_append _ tail))
    refine ⟨site, rfl, hprefix, ?_, ?_⟩
    · rintro rfl ⟨before, after, hoccurs⟩
      have hbefore := hleast before (List.IsPrefix.trans ⟨after, hoccurs⟩ hslash)
      have hlength := congrArg List.length hoccurs
      have hpath : ("/rest/" : Text).length = 6 := rfl
      have hend : ("/" : Text).length = 1 := rfl
      simp only [List.length_append] at hlength
      omega
    · intro hnone
      obtain ⟨between, rfl⟩ := hprefix
      cases between with
      | nil => simp
      | cons c between =>
        rw [List.append_assoc, List.append_assoc, List.prefix_append_right_inj] at hfront
        -- only the last slash of the path can be the first of the next one
        have hpath : ("/rest/" : Text) <+: c :: between ++ ("/" : Text) := by
          rw [apiPath_eq, List.cons_append, List.cons_prefix_cons] at hfront ⊢
          exact ⟨hfront.1, (Text.prefix_append_cons (by decide) between _).mp hfront.2⟩
        have hsuffix : c :: between ++ ("/" : Text) <:+ site ++ (c :: between) ++ ("/" : Text) := by
          rw [List.append_assoc]
          exact List.suffix_append site _
        exact absurd (hpath.isInfix.trans hsuffix.isInfix) hnone

theorem withoutEndSlashes_append {site : Text} (h : site.getLast? ≠ some (.scalar '/')) (n : Nat) :
    withoutEndSlashes (site ++ List.replicate n (.scalar '/')) = site := by
  have hslashes : ∀ c ∈ List.replicate n (CodePoint.scalar '/'), isSlash c = true := by
    intro c hc
    rw [List.eq_of_mem_replicate hc]
    rfl
  have hlast : site.reverse.dropWhile isSlash = site.reverse := by
    cases hreverse : site.reverse with
    | nil => rfl
    | cons c before =>
      have hc : isSlash c = false := by
        have hc : site.getLast? = some c := by rw [List.getLast?_eq_head?_reverse, hreverse]; rfl
        rw [hc] at h
        simpa [isSlash] using h
      exact List.dropWhile_cons_of_neg (by simp [hc])
  rw [withoutEndSlashes, List.reverse_append, List.reverse_replicate,
    List.dropWhile_append_of_pos hslashes, hlast, List.reverse_reverse]

theorem browse_of_configured {s : Settings} {site : Text} (hne : site ≠ [])
    (hurl : s.link.url = .str site) (apiUrl key : Text) :
    browse apiUrl key (some s) = .ok (withoutEndSlashes site ++ "/browse/" ++ key) := by
  have hset : s.link.isConfigured = true := by
    simp [LinkSettings.isConfigured, hurl, Json.isSet, hne]
  simp only [browse, base, hset, hurl, configuredBase, ↓reduceIte]
  rfl

/-- Without a site in the settings, the context of the API link is kept just if the API's path does
not occur in it, of which the slash after it can be a part; else the site is the shortest front of
the context that the path follows. A site in the settings is taken whatever the API link is, without
the slashes at its end. -/
theorem browse_site (key : Text) :
    (∀ (settings : Option Settings) (context tail : Text),
      settings.any (·.link.isConfigured) = false →
      (browse (context ++ "/rest/" ++ tail) key settings = .ok (context ++ "/browse/" ++ key) ↔
        ¬"/rest/" <:+: context ++ ("/" : Text)) ∧
      ("/rest/" <:+: context ++ ("/" : Text) →
        ∃ site : Text,
          browse (context ++ "/rest/" ++ tail) key settings = .ok (site ++ "/browse/" ++ key) ∧
          site <+: context ∧ site ++ ("/rest/" : Text) <+: context ++ "/rest/" ++ tail ∧
          ∀ site' : Text, site' ++ ("/rest/" : Text) <+: context ++ "/rest/" ++ tail →
            site.length ≤ site'.length)) ∧
    ∀ (s : Settings) (site apiUrl : Text) (n : Nat), site.getLast? ≠ some (.scalar '/') →
      site ++ List.replicate n (.scalar '/') ≠ [] →
      s.link.url = .str (site ++ List.replicate n (.scalar '/')) →
      browse apiUrl key (some s) = .ok (site ++ "/browse/" ++ key) := by
  refine ⟨fun settings context tail hsettings => ?_, fun s site apiUrl n hlast hne hurl => ?_⟩
  · obtain ⟨site, hsite, hprefix, hcontext⟩ := exists_before?_context context tail
    have hbrowse := browse_of_before? hsettings hsite key
    refine ⟨?_, fun _ => ⟨site, hbrowse, hprefix, Text.shortest_of_before? hsite⟩⟩
    rw [hbrowse, ← hcontext, Except.ok.injEq, List.append_left_inj, List.append_left_inj]
  · rw [browse_of_configured hne hurl, withoutEndSlashes_append hlast]

/-- A context that ends in the API's path but for a slash, and a site for a link without a host. -/
theorem browse_site_overlap :
    browse (("https://h/rest" : Text) ++ "/rest/" ++ "api") "K-1" none ≠
      .ok (("https://h/rest" : Text) ++ "/browse/" ++ "K-1") ∧
    browse "http://[" "K-1" (some ⟨.null, .plain, ⟨.str "https://b/c//"⟩⟩) =
      .ok "https://b/c/browse/K-1" := by
  obtain ⟨hcontext, hsite⟩ := browse_site "K-1"
  constructor
  · intro hkept
    exact (hcontext none "https://h/rest" "api" rfl).1.mp hkept ⟨"https://h", [], rfl⟩
  · exact hsite ⟨.null, .plain, ⟨.str "https://b/c//"⟩⟩ "https://b/c" "http://[" 2 (by decide)
      (by decide) rfl

end IssueRelay.Link
