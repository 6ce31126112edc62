import IssueRelay.Proofs.Obtained
import IssueRelay.Session

/-!
Sessions make records as operations do. The records that a session holds are among those that some
run of operations obtains, with no surrogate in a link but those that its steps are given; so after
any run of steps without surrogates, the current record can be sent on and comes back.
-/

set_option autoImplicit false

namespace IssueRelay

def Step.hasSurrogate : Step → Bool
  | .repoEnvelope _ link | .gitHubIssueEnvelope _ _ link => link.hasSurrogate
  | .jiraEnvelope _ link settings =>
    link.any Text.hasSurrogate ||
      (Settings.ofOptional settings).toOption.join.any (·.link.hasSurrogate)
  | .decode .. | .save _ | .encodeParse _ | .reencodeAs .. | .sameAs _ => false

def StepResult.record? : StepResult → Option Record
  | .current r => some r
  | .same _ | .failed _ | .skipped => none

namespace Session

variable {s : Session} {step : Step} {obtained : List Record}

def records (s : Session) : List Record := s.current.toList ++ s.saved.map (·.2)

theorem next_of_none (h : s.outcome? step = none) :
    (s.next step).1 = s ∧ (s.next step).2.record? = none := by
  cases step with
  | sameAs name =>
    cases hcurrent : s.current <;> cases hsaved : s.saved? name <;>
      simp [next, hcurrent, hsaved, StepResult.record?]
  | _ => simp [next, h, StepResult.record?]

theorem next_of_some {x : Logged RelayError Record} (h : s.outcome? step = some x) :
    s.next step = s.advance step x := by
  cases step with
  | sameAs name => contradiction
  | _ => simp only [next, h]

/-- A step makes a record and may save it, fails, or changes nothing. -/
theorem next_cases (s : Session) (step : Step) :
    (∃ x r saved, s.outcome? step = some x ∧ x.outcome = .ok r ∧
      (saved = s.saved ∨ ∃ name, saved = (name, r) :: s.saved) ∧
      s.next step = (⟨some r, saved, s.log ++ x.log⟩, .current r)) ∨
    (∃ x e, s.outcome? step = some x ∧ x.outcome = .error e ∧
      s.next step =
        (⟨if clears step then none else s.current, s.saved, s.log ++ x.log⟩, .failed e)) ∨
    (s.next step).1 = s ∧ (s.next step).2.record? = none := by
  cases hx : s.outcome? step with
  | none => exact .inr (.inr (next_of_none hx))
  | some x =>
    rw [next_of_some hx, advance]
    cases hr : x.outcome with
    | error e => exact .inr (.inl ⟨x, e, rfl, hr, rfl⟩)
    | ok r =>
      refine .inl ⟨x, r, _, rfl, hr, ?_, rfl⟩
      cases step with
      | save name => exact .inr ⟨name, rfl⟩
      | _ => exact .inl rfl

/-- A step that answers no record leaves the saved ones as they are; and the current one too, unless
it is a decoding. -/
theorem next_of_no_record (h : (s.next step).2.record? = none) :
    (s.next step).1.saved = s.saved ∧
      ((s.next step).1.current = s.current ∨ clears step = true) := by
  obtain ⟨x, r, saved, -, -, -, hnext⟩ | ⟨x, e, -, -, hnext⟩ | ⟨hnext, -⟩ := s.next_cases step
  · rw [hnext] at h
    contradiction
  · rw [hnext]
    cases hclears : clears step with
    | false => exact ⟨rfl, .inl rfl⟩
    | true => exact ⟨rfl, .inr rfl⟩
  · rw [hnext]
    exact ⟨rfl, .inl rfl⟩

/-- What a session holds and answers after a step it held before, but for the record that the step
makes if it makes one. -/
theorem held_next (s : Session) (step : Step) :
    (∃ x r, s.outcome? step = some x ∧ x.outcome = .ok r ∧
      (s.next step).1.records ++ (s.next step).2.record?.toList ⊆ r :: s.records) ∨
    (s.next step).1.records ++ (s.next step).2.record?.toList ⊆ s.records := by
  obtain ⟨x, r, saved, hx, hr, hsaved, hnext⟩ | ⟨x, e, -, -, hnext⟩ | ⟨hnext, hanswer⟩ :=
    s.next_cases step
  · refine .inl ⟨x, r, hx, hr, ?_⟩
    rw [hnext]
    obtain rfl | ⟨name, rfl⟩ := hsaved <;> simp [records, StepResult.record?]
  · refine .inr ?_
    rw [hnext]
    cases clears step <;> simp [records, StepResult.record?]
  · rw [hnext, hanswer]
    simp

theorem exists_recordAt? {α : Type} [Recorded α] {name : Text} {a : α} (h : s.records ⊆ obtained)
    (ha : s.savedAs? α name = some a) :
    ∃ place, Operation.recordAt? α obtained place = some a := by
  obtain ⟨r, hr, ha⟩ := Option.bind_eq_some_iff.mp ha
  obtain ⟨e, he, rfl⟩ := Option.map_eq_some_iff.mp hr
  have hsaved : e.2 ∈ s.records :=
    List.mem_append_right _ (List.mem_map_of_mem (List.mem_of_find?_eq_some he))
  obtain ⟨place, hplace⟩ := List.mem_iff_getElem?.mp (h hsaved)
  exact ⟨place, Option.bind_eq_some_iff.mpr ⟨e.2, hplace, ha⟩⟩

/-- A record that a step makes is one of those there are, or an operation makes it. -/
theorem exists_operation (h : s.records ⊆ obtained) {x : Logged RelayError Record} {r : Record}
    (hx : s.outcome? step = some x) (hr : x.outcome = .ok r) :
    r ∈ obtained ∨ ∃ op : Operation, op.record? obtained = some r ∧
      (step.hasSurrogate = false → op.hasSurrogate = false) := by
  cases step with
  | decode type payload =>
    cases hx
    have hdecode := Except.mapError_eq_ok.mp hr
    exact .inr ⟨.decode type payload, by rw [Operation.record?, hdecode]; rfl, id⟩
  | save name =>
    obtain ⟨r', hr', rfl⟩ := Option.map_eq_some_iff.mp hx
    cases hr
    exact .inl (h (List.mem_append_left _ (Option.mem_toList.mpr hr')))
  | repoEnvelope repo link =>
    obtain ⟨repo, hrepo, hx⟩ := Option.bind_eq_some_iff.mp hx
    cases hx
    cases hr
    obtain ⟨place, hrepo⟩ := exists_recordAt? h hrepo
    exact .inr ⟨.repoEnvelope place link, by rw [Operation.record?, hrepo]; rfl, id⟩
  | gitHubIssueEnvelope issue repo link =>
    obtain ⟨issue, hissue, hx⟩ := Option.bind_eq_some_iff.mp hx
    obtain ⟨repo, hrepo, hx⟩ := Option.bind_eq_some_iff.mp hx
    cases hx
    cases hr
    obtain ⟨place, hissue⟩ := exists_recordAt? h hissue
    obtain ⟨place', hrepo⟩ := exists_recordAt? h hrepo
    exact .inr ⟨.gitHubIssueEnvelope place place' link,
      by rw [Operation.record?, hissue, hrepo]; rfl, id⟩
  | jiraEnvelope issue link settings =>
    obtain ⟨issue, hissue, hx⟩ := Option.bind_eq_some_iff.mp hx
    cases hx
    obtain ⟨settings', hsettings, hr⟩ := Logged.bind_eq_ok hr
    obtain ⟨e, he, rfl⟩ := Logged.map_eq_ok hr
    have hsettings := Except.mapError_eq_ok.mp hsettings
    have he := Except.mapError_eq_ok.mp he
    obtain ⟨place, hissue⟩ := exists_recordAt? h hissue
    refine .inr ⟨.jiraIssueEnvelope place link settings', ?_, ?_⟩
    · rw [Operation.record?, hissue]
      change (Envelope.ofJiraIssue issue link settings').outcome.toOption.map _ = _
      rw [he]
      rfl
    · rw [Step.hasSurrogate, hsettings]
      exact id
  | encodeParse settings =>
    obtain ⟨r', -, hx⟩ := Option.bind_eq_some_iff.mp hx
    cases hx
    obtain ⟨settings', -, hr⟩ := Logged.bind_eq_ok hr
    obtain ⟨octets, -, hr⟩ := Logged.bind_eq_ok hr
    obtain ⟨e, he, rfl⟩ := Logged.map_eq_ok hr
    have he := Except.mapError_eq_ok.mp he
    exact .inr ⟨.parse (.octets octets), by rw [Operation.record?, he]; rfl, id⟩
  | reencodeAs type excluded =>
    obtain ⟨r', -, hx⟩ := Option.bind_eq_some_iff.mp hx
    cases hx
    obtain ⟨octets, -, hr⟩ := Logged.bind_eq_ok hr
    have hdecode := Except.mapError_eq_ok.mp hr
    exact .inr ⟨.decode type (.octets octets), by rw [Operation.record?, hdecode]; rfl, id⟩
  | sameAs name => contradiction

theorem exists_operations_next (h : s.records ⊆ obtained) (step : Step) :
    ∃ ops : List Operation,
      (s.next step).1.records ++ (s.next step).2.record?.toList ⊆
        ops.foldl Operation.next obtained ∧
      (step.hasSurrogate = false → ∀ op ∈ ops, op.hasSurrogate = false) := by
  obtain ⟨x, r, hx, hr, hheld⟩ | hheld := s.held_next step
  · obtain hmem | ⟨op, hop, hclean⟩ := exists_operation h hx hr
    · have hsub : r :: s.records ⊆ obtained := List.cons_subset.mpr ⟨hmem, h⟩
      exact ⟨[], List.Subset.trans hheld hsub, by simp⟩
    · have hmem : r ∈ Operation.next obtained op := by simp [Operation.next, hop]
      have hgrow : obtained ⊆ Operation.next obtained op := Operation.subset_foldl [op] obtained
      have hsub := List.cons_subset.mpr ⟨hmem, List.Subset.trans h hgrow⟩
      refine ⟨[op], List.Subset.trans hheld hsub, fun hstep => ?_⟩
      exact List.forall_mem_singleton.mpr (hclean hstep)
  · exact ⟨[], List.Subset.trans hheld h, by simp⟩

/-- The records that a run of steps keeps and those that it answers are obtained by operations,
which have no surrogates in their links if the steps have none. -/
theorem exists_operations_run (steps : List Step) (h : s.records ⊆ obtained) :
    ∃ ops : List Operation,
      (s.run steps).1.records ++ (s.run steps).2.filterMap StepResult.record? ⊆
        ops.foldl Operation.next obtained ∧
      ((∀ step ∈ steps, step.hasSurrogate = false) → ∀ op ∈ ops, op.hasSurrogate = false) := by
  induction steps generalizing s obtained with
  | nil => exact ⟨[], List.append_subset.mpr ⟨h, List.nil_subset _⟩, by simp⟩
  | cons step rest ih =>
    obtain ⟨ops, hheld, hclean⟩ := exists_operations_next h step
    obtain ⟨hrecords, hanswer⟩ := List.append_subset.mp hheld
    obtain ⟨ops', hheld', hclean'⟩ := ih hrecords
    obtain ⟨hrecords', hanswers'⟩ := List.append_subset.mp hheld'
    have hanswers : (s.run (step :: rest)).2.filterMap StepResult.record? =
        (s.next step).2.record?.toList ++
          ((s.next step).1.run rest).2.filterMap StepResult.record? := by
      rw [run, List.filterMap_cons]
      cases (s.next step).2.record? <;> rfl
    refine ⟨ops ++ ops', ?_, ?_⟩
    · rw [hanswers, List.foldl_append]
      have hanswer' := List.Subset.trans hanswer (Operation.subset_foldl ops' _)
      exact List.append_subset.mpr ⟨hrecords', List.append_subset.mpr ⟨hanswer', hanswers'⟩⟩
    · intro hsteps
      obtain ⟨hstep, hrest⟩ := List.forall_mem_cons.mp hsteps
      exact List.forall_mem_append.mpr ⟨hclean hstep, hclean' hrest⟩

variable {steps : List Step}

theorem hasSurrogate_run (hsteps : ∀ step ∈ steps, step.hasSurrogate = false) :
    ∀ r ∈ (start.run steps).1.records ++ (start.run steps).2.filterMap StepResult.record?,
      r.hasSurrogate = false := by
  have hstart : start.records ⊆ [] := List.Subset.refl _
  obtain ⟨ops, hheld, hclean⟩ := exists_operations_run steps hstart
  intro r hr
  exact Operation.hasSurrogate_foldl (by simp) (hclean hsteps) r (hheld hr)

/-- A current record without surrogates is written plainly and read again as what it is; the session
stays the same. -/
theorem next_reencodeAs {r : Record} (hcurrent : s.current = some r)
    (hr : r.hasSurrogate = false) : s.next (.reencodeAs r.type []) = (s, .current r) := by
  have hplain : OutputSettings.plain.indentsBlank = true := rfl
  obtain ⟨text, octets, hencode, -, -⟩ := Record.exists_encode hr hplain []
  have hdecode := Record.decode_of_encode hr hplain hencode
  have hx : s.outcome? (.reencodeAs r.type []) = some (do
      let octets ← .ofExcept ((r.encode [] .plain).mapError .encode)
      (Record.decode r.type (.octets octets)).mapError .decode) := by
    rw [outcome?, hcurrent]
    rfl
  rw [hencode] at hx
  change _ = some ((Record.decode r.type (.octets octets)).mapError RelayError.decode) at hx
  rw [hdecode] at hx
  have hadvance : s.advance (.reencodeAs r.type []) (pure r) =
      (⟨some r, s.saved, s.log ++ []⟩, .current r) := rfl
  rw [next_of_some hx]
  exact hadvance.trans (by rw [List.append_nil, ← hcurrent])

/-- After any steps without surrogates in their links the current record can be sent on. -/
theorem next_reencodeAs_run (hsteps : ∀ step ∈ steps, step.hasSurrogate = false) {r : Record}
    (hcurrent : (start.run steps).1.current = some r) :
    (start.run steps).1.next (.reencodeAs r.type []) = ((start.run steps).1, .current r) := by
  have hmem : r ∈ (start.run steps).1.records :=
    List.mem_append_left _ (Option.mem_toList.mpr hcurrent)
  exact next_reencodeAs hcurrent (hasSurrogate_run hsteps r (List.mem_append_left _ hmem))

end Session

end IssueRelay
