import Crosswalk.Proofs.Exchange.Unite

/-!
# Reading on

The rows of a table are read one after the other, whatever the form of the table. A row that fails
does not stop the reading; what is kept always unites what was read. Nothing fails exactly when
every row can be read and no two documents under one merge key set an attribute differently.
-/

namespace Crosswalk.Merged

variable {read : List (Document Unit)} {m : Merged} {d : Document Unit}

theorem Unites.addAll (h : Unites read m.entries) (row : Nat) (ds : List (Document Unit)) :
    ∃ more, more <+: ds ∧ Unites (read ++ more) (m.addAll row ds).entries ∧
      (row ∈ (m.addAll row ds).failures.map (·.1) ∨ more = ds) := by
  induction ds generalizing m read with
  | nil => exact ⟨[], List.prefix_rfl, by simpa [Merged.addAll] using h, .inr rfl⟩
  | cons d ds ih =>
    rw [Merged.addAll]
    split
    · rename_i entries hadd
      obtain ⟨more, hprefix, hunites, hall⟩ := ih (m := { m with entries }) (h.addEntry hadd)
      refine ⟨d :: more, List.cons_prefix_cons.2 ⟨rfl, hprefix⟩, ?_, hall.imp_right (congrArg _)⟩
      rwa [List.append_assoc] at hunites
    · exact ⟨[], List.nil_prefix, by simpa using h, .inl (by simp)⟩

theorem Unites.addAll_of_mergeable (h : Unites read m.entries) (row : Nat)
    {ds : List (Document Unit)} (hds : Mergeable (read ++ ds)) :
    Unites (read ++ ds) (m.addAll row ds).entries ∧ (m.addAll row ds).failures = m.failures := by
  induction ds generalizing m read with
  | nil => exact ⟨by simpa [Merged.addAll] using h, rfl⟩
  | cons d ds ih =>
    rw [List.append_cons] at hds ⊢
    obtain ⟨entries, hadd⟩ := h.exists_addEntry (hds.subset (List.subset_append_left _ _))
    rw [Merged.addAll, hadd]
    exact ih (m := { m with entries }) (h.addEntry hadd) hds

/-- Adds what was read from some rows; `number` is the number of the first of them. -/
def addResults (m : Merged) (number : Nat) :
    List (Except Failure (List (Document Unit))) → Merged
  | [] => m
  | result :: results => addResults (m.addRow number result) (number + 1) results

theorem addResults_append (m : Merged) (number : Nat)
    (results results' : List (Except Failure (List (Document Unit)))) :
    m.addResults number (results ++ results') =
      (m.addResults number results).addResults (number + results.length) results' := by
  induction results generalizing m number with
  | nil => rfl
  | cons result results ih =>
    have hnumber : number + 1 + results.length = number + (results.length + 1) := by omega
    simp [addResults, ih, hnumber]

variable {results : List (Except Failure (List (Document Unit)))}

/-- The documents in some rows, as far as they can be read. -/
def contents (results : List (Except Failure (List (Document Unit)))) : List (Document Unit) :=
  results.flatMap fun result => result.toOption.getD []

theorem mem_contents : d ∈ contents results ↔ ∃ ds, .ok ds ∈ results ∧ d ∈ ds := by
  unfold contents
  rw [List.mem_flatMap]
  constructor
  · rintro ⟨result, hresult, hd⟩
    cases result with
    | ok ds => exact ⟨ds, hresult, hd⟩
    | error failure => cases hd
  · rintro ⟨ds, hds, hd⟩
    exact ⟨_, hds, hd⟩

theorem contents_cons {result : Except Failure (List (Document Unit))} :
    contents (result :: results) = contents [result] ++ contents results := by
  simp [contents]

theorem failures_addRow (m : Merged) (number : Nat)
    (result : Except Failure (List (Document Unit))) :
    m.failures <+: (m.addRow number result).failures := by
  cases result with
  | error failure => exact List.prefix_append _ _
  | ok ds =>
    show m.failures <+: (m.addAll number ds).failures
    induction ds generalizing m with
    | nil => exact List.prefix_rfl
    | cons d ds ih =>
      rw [Merged.addAll]
      split
      · rename_i entries hadd
        exact ih { m with entries }
      · exact List.prefix_append _ _

theorem failures_addResults (m : Merged) (number : Nat)
    (results : List (Except Failure (List (Document Unit)))) :
    m.failures <+: (m.addResults number results).failures := by
  induction results generalizing m number with
  | nil => exact List.prefix_rfl
  | cons result results ih => exact (failures_addRow m number result).trans (ih _ _)

theorem Unites.addRow (h : Unites read m.entries) (number : Nat)
    (result : Except Failure (List (Document Unit))) :
    ∃ more, more ⊆ contents [result] ∧ Unites (read ++ more) (m.addRow number result).entries ∧
      (number ∈ (m.addRow number result).failures.map (·.1) ∨ ∃ ds, result = .ok ds ∧ ds ⊆ more) := by
  cases result with
  | error failure =>
    refine ⟨[], List.nil_subset _, ?_, .inl ?_⟩
    · simpa [Merged.addRow] using h
    · simp [Merged.addRow]
  | ok ds =>
    obtain ⟨more, hprefix, hunites, hall⟩ := h.addAll number ds
    refine ⟨more, fun d hd => mem_contents.2 ⟨ds, List.mem_singleton_self _, hprefix.subset hd⟩,
      hunites, hall.imp_right ?_⟩
    rintro rfl
    exact ⟨_, rfl, List.Subset.refl _⟩

/-- Reading goes on after a row that fails, and what is kept unites what was read. A row that is not
listed was read as a whole. -/
theorem Unites.addResults (h : Unites read m.entries) (number : Nat)
    (results : List (Except Failure (List (Document Unit)))) :
    ∃ more, more ⊆ contents results ∧ Unites (read ++ more) (m.addResults number results).entries ∧
      ∀ (n : Nat) (result : Except Failure (List (Document Unit))), results[n]? = some result →
        number + n ∈ (m.addResults number results).failures.map (·.1) ∨
          ∃ ds, result = .ok ds ∧ ds ⊆ more := by
  induction results generalizing m read number with
  | nil => exact ⟨[], List.nil_subset _, by simpa [Merged.addResults] using h, by simp⟩
  | cons result results ih =>
    obtain ⟨first, hfirst, hunites, hrow⟩ := h.addRow number result
    obtain ⟨more, hmore, hunites', hrows⟩ := ih hunites (number + 1)
    rw [List.append_assoc] at hunites'
    refine ⟨first ++ more, ?_, hunites', fun n result' hresult' => ?_⟩
    · rw [contents_cons]
      exact List.append_subset.2 ⟨List.subset_append_of_subset_left _ hfirst,
        List.subset_append_of_subset_right _ hmore⟩
    · cases n with
      | zero =>
        obtain rfl : result = result' := by simpa using hresult'
        refine hrow.imp (fun hfailed => ?_) ?_
        · exact ((failures_addResults _ (number + 1) results).map _).subset hfailed
        · rintro ⟨ds, hds, hsub⟩
          exact ⟨ds, hds, List.subset_append_of_subset_left _ hsub⟩
      | succ n =>
        have hnumber : number + (n + 1) = number + 1 + n := by omega
        rw [hnumber]
        refine (hrows n result' (by simpa using hresult')).imp_right ?_
        rintro ⟨ds, hds, hsub⟩
        exact ⟨ds, hds, List.subset_append_of_subset_right _ hsub⟩

theorem Unites.addResults_of_mergeable (h : Unites read m.entries) (number : Nat)
    (hread : ∀ result ∈ results, ∃ ds, result = .ok ds)
    (hmerge : Mergeable (read ++ contents results)) :
    Unites (read ++ contents results) (m.addResults number results).entries ∧
      (m.addResults number results).failures = m.failures := by
  induction results generalizing m read number with
  | nil => exact ⟨by simpa [contents, Merged.addResults] using h, rfl⟩
  | cons result results ih =>
    obtain ⟨ds, rfl⟩ := hread _ List.mem_cons_self
    have hcons : contents (.ok ds :: results) = ds ++ contents results := rfl
    rw [hcons, ← List.append_assoc] at hmerge ⊢
    obtain ⟨hunites, hfailures⟩ := h.addAll_of_mergeable number
      (hmerge.subset (List.subset_append_left _ _))
    obtain ⟨hunites', hfailures'⟩ := ih hunites (number + 1)
      (fun result hresult => hread result (List.mem_cons_of_mem _ hresult)) hmerge
    exact ⟨hunites', hfailures'.trans hfailures⟩

/-- Rows are read without a failure exactly when each of them can be read and what they set under
one merge key agrees. -/
theorem addResults_empty_failures :
    (empty.addResults 1 results).failures = [] ↔
      (∀ result ∈ results, ∃ ds, result = .ok ds) ∧ Mergeable (contents results) := by
  constructor
  · intro hnone
    obtain ⟨more, -, hunites, hrows⟩ := unites_nil.addResults (m := empty) 1 results
    have hread : ∀ result ∈ results, ∃ ds, result = .ok ds ∧ ds ⊆ more := by
      intro result hresult
      obtain ⟨n, hn⟩ := List.mem_iff_getElem?.1 hresult
      refine (hrows n result hn).resolve_left ?_
      rw [hnone]
      exact List.not_mem_nil
    refine ⟨fun result hresult => (hread result hresult).imp fun _ => And.left, ?_⟩
    refine hunites.mergeable.subset fun d hd => ?_
    obtain ⟨ds, hresult, hmem⟩ := mem_contents.1 hd
    obtain ⟨_, hds, hsub⟩ := hread _ hresult
    cases hds
    exact hsub hmem
  · rintro ⟨hread, hmerge⟩
    exact (unites_nil.addResults_of_mergeable (m := empty) 1 hread hmerge).2

end Crosswalk.Merged
