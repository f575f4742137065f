import Crosswalk.Exchange.Sheet
import Crosswalk.Proofs.Entity.Bare
import Crosswalk.Proofs.Keyed

/-!
# Merging documents that agree

Documents are read one after the other. As long as each of them shows some entity and entities have
merge keys of their own, nothing conflicts, and what is kept under a key sums up what was read under
it: the entity, complete if it was complete once, and the links of all these documents. Links count
by their relation and the key of the other end.
-/

namespace Crosswalk

variable {ι : Type}

/-- Whether a document holds a link with a relation to an entity with a merge key. -/
def Document.Tells (d : Document ι) (x : Relation × String) : Prop :=
  ∃ l ∈ d.links, (l.relation, mergeKey l.peer.entity) = x

/-! ### Adding links -/

theorem mergeKey_of_sameEntity {a b : Entity Unit} (h : sameEntity a b = true) :
    mergeKey a = mergeKey b := by
  cases a with
  | requirement r =>
    cases b with
    | requirement q =>
      simp only [sameEntity, Identity.agree, Bool.false_or, Bool.and_eq_true, beq_iff_eq] at h
      obtain ⟨hname, hid⟩ := h
      have hexternal := ExternalId.textOf_injective hid
      simp only [mergeKey, hexternal, hname]
    | node n => cases h
  | node n =>
    cases b with
    | requirement q => cases h
    | node m =>
      simp only [sameEntity, Identity.agree, Bool.false_or, beq_iff_eq, Node.key,
        NodeKey.mk.injEq] at h
      obtain ⟨hname, hsection, hsubsection, hkind, hdescription, hversion⟩ := h
      unfold mergeKey
      simp only [hname, hsection, hsubsection, hkind, hdescription, hversion]

namespace Document

variable {d : Document Unit} {l : Link Unit} {x : Relation × String}

theorem tells_addLink :
    (d.addLink l).Tells x ↔ d.Tells x ∨ (l.relation, mergeKey l.peer.entity) = x := by
  unfold addLink
  split
  · rename_i hlink
    -- a link that counts as the new one says what the new one says
    obtain ⟨m, hm, hsame⟩ := List.any_eq_true.1 hlink
    rw [Bool.and_eq_true, decide_eq_true_eq] at hsame
    have hkey := mergeKey_of_sameEntity hsame.2
    refine (or_iff_left_of_imp ?_).symm
    rintro rfl
    exact ⟨m, hm, by rw [hsame.1, hkey]⟩
  · unfold Tells links
    simp only [List.mem_append, List.mem_singleton]
    constructor
    · rintro ⟨m, hm | rfl, hx⟩
      · exact .inl ⟨m, hm, hx⟩
      · exact .inr hx
    · rintro (⟨m, hm, hx⟩ | hx)
      · exact ⟨m, .inl hm, hx⟩
      · exact ⟨l, .inr rfl, hx⟩

theorem entity_addLink : (d.addLink l).entity = d.entity := by
  unfold addLink
  split <;> rfl

theorem mem_links_addLink {m : Link Unit} (h : m ∈ (d.addLink l).links) : m ∈ d.links ∨ m = l := by
  unfold addLink at h
  split at h
  · exact .inl h
  · rcases List.mem_append.1 h with h | h
    · exact .inl h
    · exact .inr (List.mem_singleton.1 h)

theorem tells_foldl_addLink {links : List (Link Unit)} :
    (links.foldl addLink d).Tells x ↔
      d.Tells x ∨ ∃ l ∈ links, (l.relation, mergeKey l.peer.entity) = x := by
  induction links generalizing d with
  | nil => simp
  | cons l links ih =>
    rw [List.foldl_cons, ih, tells_addLink, or_assoc]
    simp

theorem entity_foldl_addLink (links : List (Link Unit)) :
    (links.foldl addLink d).entity = d.entity := by
  induction links generalizing d with
  | nil => rfl
  | cons l links ih => rw [List.foldl_cons, ih, entity_addLink]

theorem mem_links_foldl_addLink {links : List (Link Unit)} {m : Link Unit}
    (h : m ∈ (links.foldl addLink d).links) : m ∈ d.links ∨ m ∈ links := by
  induction links generalizing d with
  | nil => exact .inl h
  | cons l links ih =>
    rcases ih h with h | h
    · rcases mem_links_addLink h with h | rfl
      · exact .inl h
      · exact .inr List.mem_cons_self
    · exact .inr (List.mem_cons_of_mem _ h)

end Document

namespace Merged

variable {entries before later : List (String × Document Unit)} {key : String}
  {d stored filled : Document Unit}

/-! ### Adding a document -/

theorem addEntry_new (h : key ∉ entries.map (·.1)) :
    addEntry key d entries = .ok (entries ++ [(key, d)]) := by
  induction entries with
  | nil => rfl
  | cons p entries ih =>
    obtain ⟨k, stored⟩ := p
    rw [List.map_cons, List.mem_cons, not_or] at h
    rw [addEntry, if_neg (Ne.symm h.1), ih h.2]
    rfl

theorem addEntry_middle (h : key ∉ before.map (·.1)) :
    addEntry key d (before ++ (key, stored) :: later) =
      (fillDocument stored d).map fun filled => before ++ (key, filled) :: later := by
  induction before with
  | nil => rw [List.nil_append, addEntry, if_pos rfl]; rfl
  | cons p before ih =>
    obtain ⟨k, stored'⟩ := p
    rw [List.map_cons, List.mem_cons, not_or] at h
    rw [List.cons_append, addEntry, if_neg (Ne.symm h.1), ih h.2]
    cases fillDocument stored d <;> rfl

theorem addEntry_known (h : key ∉ before.map (·.1)) (hfill : fillDocument stored d = .ok filled) :
    addEntry key d (before ++ (key, stored) :: later) = .ok (before ++ (key, filled) :: later) := by
  rw [addEntry_middle h, hfill]
  rfl

/-! ### What is kept -/

/-- Whether a document sums up what was read under a key. -/
structure SumsUp (E : Entity ι → Prop) (read : List (Document Unit)) (key : String)
    (d : Document Unit) : Prop where
  entity : ∃ e, E e ∧ mergeKey e = key ∧ e.Shows d.entity ∧
    (d.entity = e.bare ↔ ∃ d' ∈ read, d'.entity = e.bare)
  tells : ∀ x, d.Tells x ↔ ∃ d' ∈ read, mergeKey d'.entity = key ∧ d'.Tells x
  links : ∀ l ∈ d.links, ∃ d' ∈ read, l ∈ d'.links

/-- Whether the entries sum up what was read, each key once. -/
structure Merges (E : Entity ι → Prop) (read : List (Document Unit))
    (entries : List (String × Document Unit)) : Prop where
  keys_nodup : (entries.map (·.1)).Nodup
  covered : ∀ key, key ∈ entries.map (·.1) ↔ ∃ d ∈ read, mergeKey d.entity = key
  sums : ∀ p ∈ entries, SumsUp E read p.1 p.2

variable {E : Entity ι → Prop} {read : List (Document Unit)}

theorem merges_nil (E : Entity ι → Prop) : Merges E [] [] where
  keys_nodup := .nil
  covered := fun _ => iff_of_false List.not_mem_nil (by simp)
  sums := fun _ hp => absurd hp List.not_mem_nil

namespace SumsUp

theorem other (h : SumsUp E read key stored) (hd : mergeKey d.entity ≠ key) :
    SumsUp E (read ++ [d]) key stored where
  entity := by
    obtain ⟨e, he, hkey, hshows, hbare⟩ := h.entity
    refine ⟨e, he, hkey, hshows, hbare.trans ?_⟩
    simp only [List.mem_append, List.mem_singleton]
    refine ⟨fun ⟨d', hd', hbare'⟩ => ⟨d', .inl hd', hbare'⟩, ?_⟩
    rintro ⟨d', hd' | rfl, hbare'⟩
    · exact ⟨d', hd', hbare'⟩
    · have hshows' : e.Shows d'.entity := .inl hbare'
      exact absurd (hshows'.mergeKey.trans hkey) hd
  tells := by
    intro x
    rw [h.tells x]
    simp only [List.mem_append, List.mem_singleton]
    refine ⟨fun ⟨d', hd', hx⟩ => ⟨d', .inl hd', hx⟩, ?_⟩
    rintro ⟨d', hd' | rfl, hkey, hx⟩
    · exact ⟨d', hd', hkey, hx⟩
    · exact absurd hkey hd
  links := by
    intro l hl
    obtain ⟨d', hd', hmem⟩ := h.links l hl
    exact ⟨d', List.mem_append_left _ hd', hmem⟩

theorem first (hnew : ∀ d' ∈ read, mergeKey d'.entity ≠ mergeKey d.entity)
    (hd : ∃ e, E e ∧ e.Shows d.entity) : SumsUp E (read ++ [d]) (mergeKey d.entity) d where
  entity := by
    obtain ⟨e, he, hshows⟩ := hd
    refine ⟨e, he, hshows.mergeKey.symm, hshows, ?_⟩
    simp only [List.mem_append, List.mem_singleton]
    refine ⟨fun hbare => ⟨d, .inr rfl, hbare⟩, ?_⟩
    rintro ⟨d', hd' | rfl, hbare⟩
    · have hshows' : e.Shows d'.entity := .inl hbare
      exact absurd (hshows'.mergeKey.trans hshows.mergeKey.symm) (hnew d' hd')
    · exact hbare
  tells := by
    intro x
    simp only [List.mem_append, List.mem_singleton]
    refine ⟨fun hx => ⟨d, .inr rfl, rfl, hx⟩, ?_⟩
    rintro ⟨d', hd' | rfl, hkey, hx⟩
    · exact absurd hkey (hnew d' hd')
    · exact hx
  links := fun l hl => ⟨d, List.mem_append_right _ (List.mem_singleton_self d), hl⟩

/-- Another document under a key is added to what was summed up. -/
theorem fill (hkeys : ∀ e e', E e → E e' → mergeKey e = mergeKey e' → e = e')
    (h : SumsUp E read (mergeKey d.entity) stored) (hd : ∃ e, E e ∧ e.Shows d.entity) :
    ∃ filled, fillDocument stored d = .ok filled ∧
      SumsUp E (read ++ [d]) (mergeKey d.entity) filled := by
  obtain ⟨e, he, hkey, hshows, hbare⟩ := h.entity
  obtain ⟨e', he', hshows'⟩ := hd
  obtain rfl := hkeys e' e he' he (hshows'.mergeKey.symm.trans hkey.symm)
  obtain ⟨entity, hfill, hentity, hcomplete⟩ := Entity.fillEntity_of_shows hshows hshows'
  have hread : ∀ P : Document Unit → Prop,
      (∃ d' ∈ read ++ [d], P d') ↔ (∃ d' ∈ read, P d') ∨ P d := by
    intro P
    simp only [List.mem_append, List.mem_singleton]
    constructor
    · rintro ⟨d', hd' | rfl, hP⟩
      · exact .inl ⟨d', hd', hP⟩
      · exact .inr hP
    · rintro (⟨d', hd', hP⟩ | hP)
      · exact ⟨d', .inl hd', hP⟩
      · exact ⟨d, .inr rfl, hP⟩
  refine ⟨d.links.foldl Document.addLink (.mk entity stored.links), ?_, ?_, fun x => ?_,
    fun l hl => ?_⟩
  · unfold fillDocument
    rw [hfill]
    rfl
  · refine ⟨e', he, hkey, ?_, ?_⟩
    · rw [Document.entity_foldl_addLink]
      exact hentity
    · rw [Document.entity_foldl_addLink, hread]
      exact hcomplete.trans (or_congr_left hbare)
  · rw [Document.tells_foldl_addLink, hread]
    refine or_congr ((h.tells x).trans Iff.rfl) ?_
    exact (and_iff_right rfl).symm
  · rw [hread]
    exact (Document.mem_links_foldl_addLink hl).imp_left (h.links l)

end SumsUp

theorem covered_append (h : Merges E read entries) (key : String) :
    (∃ d' ∈ read ++ [d], mergeKey d'.entity = key) ↔
      key ∈ entries.map (·.1) ∨ key = mergeKey d.entity := by
  rw [h.covered key]
  simp only [List.mem_append, List.mem_singleton]
  constructor
  · rintro ⟨d', hd' | rfl, hkey⟩
    · exact .inl ⟨d', hd', hkey⟩
    · exact .inr hkey.symm
  · rintro (⟨d', hd', hkey⟩ | rfl)
    · exact ⟨d', .inl hd', hkey⟩
    · exact ⟨d, .inr rfl, rfl⟩

/-- The first document under a key is put behind the others. -/
theorem Merges.append (h : Merges E read entries) (hd : ∃ e, E e ∧ e.Shows d.entity)
    (hnew : mergeKey d.entity ∉ entries.map (·.1)) :
    Merges E (read ++ [d]) (entries ++ [(mergeKey d.entity, d)]) where
  keys_nodup := by
    rw [List.map_append, List.nodup_append]
    refine ⟨h.keys_nodup, List.nodup_singleton _, fun a ha b hb => ?_⟩
    rw [List.mem_singleton.1 hb]
    rintro rfl
    exact hnew ha
  covered := by
    intro key
    rw [covered_append h, List.map_append, List.mem_append]
    simp only [List.map_cons, List.map_nil, List.mem_singleton]
  sums := by
    intro p hp
    rcases List.mem_append.1 hp with hp | hp
    · refine (h.sums p hp).other fun heq => hnew ?_
      rw [heq]
      exact List.mem_map_of_mem hp
    · rw [List.mem_singleton.1 hp]
      exact .first (fun d' hd' heq => hnew ((h.covered _).2 ⟨d', hd', heq⟩)) hd

/-- What a document fills in takes the place of what was kept under its key. -/
theorem Merges.replace (h : Merges E read (before ++ (mergeKey d.entity, stored) :: later))
    (hsums : SumsUp E (read ++ [d]) (mergeKey d.entity) filled) :
    Merges E (read ++ [d]) (before ++ (mergeKey d.entity, filled) :: later) where
  keys_nodup := by
    have hkeys := h.keys_nodup
    rw [List.map_append, List.map_cons] at hkeys ⊢
    exact hkeys
  covered := by
    intro key
    rw [covered_append h]
    simp only [List.map_append, List.map_cons, List.mem_append, List.mem_cons]
    tauto
  sums := by
    obtain ⟨hbefore, hlater⟩ :
        mergeKey d.entity ∉ before.map (·.1) ∧ mergeKey d.entity ∉ later.map (·.1) :=
      Keyed.not_mem_of_middle h.keys_nodup
    intro p hp
    rcases List.mem_append.1 hp with hp | hp
    · refine (h.sums p (List.mem_append_left _ hp)).other fun heq => hbefore ?_
      rw [heq]
      exact List.mem_map_of_mem hp
    · rcases List.mem_cons.1 hp with rfl | hp
      · exact hsums
      · refine (h.sums p (List.mem_append_right _ (List.mem_cons_of_mem _ hp))).other
          fun heq => hlater ?_
        rw [heq]
        exact List.mem_map_of_mem hp

section Reading

variable (hkeys : ∀ e e', E e → E e' → mergeKey e = mergeKey e' → e = e')

include hkeys

theorem Merges.addEntry (h : Merges E read entries) (hd : ∃ e, E e ∧ e.Shows d.entity) :
    ∃ entries', Merged.addEntry (mergeKey d.entity) d entries = .ok entries' ∧
      Merges E (read ++ [d]) entries' := by
  by_cases hold : mergeKey d.entity ∈ entries.map (·.1)
  · obtain ⟨⟨key, stored⟩, hmem, hkey⟩ := List.mem_map.1 hold
    obtain ⟨before, later, rfl⟩ := List.append_of_mem hmem
    have hkey' : key = mergeKey d.entity := hkey
    subst hkey'
    obtain ⟨hbefore, -⟩ := Keyed.not_mem_of_middle h.keys_nodup
    obtain ⟨filled, hfill, hsums⟩ := (h.sums _ hmem).fill hkeys hd
    exact ⟨_, addEntry_known hbefore hfill, h.replace hsums⟩
  · exact ⟨_, addEntry_new hold, h.append hd hold⟩

theorem Merges.addAll {m : Merged} (h : Merges E read m.entries) (row : Nat)
    {ds : List (Document Unit)} (hds : ∀ d ∈ ds, ∃ e, E e ∧ e.Shows d.entity) :
    Merges E (read ++ ds) (m.addAll row ds).entries ∧
      (m.addAll row ds).failures = m.failures := by
  induction ds generalizing m read with
  | nil =>
    rw [List.append_nil]
    exact ⟨h, rfl⟩
  | cons d ds ih =>
    obtain ⟨entries, hadd, hmerges⟩ := h.addEntry hkeys (hds d List.mem_cons_self)
    obtain ⟨hall, hfailures⟩ := ih (m := { m with entries }) hmerges
      fun d' hd' => hds d' (List.mem_cons_of_mem _ hd')
    rw [List.append_assoc] at hall
    rw [Merged.addAll, hadd]
    exact ⟨hall, hfailures⟩

/-- The rows of a sheet whose documents all show entities are read without a failure. -/
theorem Merges.addRows {layout : Sheet.Layout} {m : Merged} (h : Merges E read m.entries)
    (number : Nat) {rows : List (List String)}
    (hrows : ∀ row ∈ rows, ∃ ds, Sheet.rowDocuments layout row = .ok ds ∧
      ∀ d ∈ ds, ∃ e, E e ∧ e.Shows d.entity) :
    ∃ more, Merges E (read ++ more) (Sheet.addRows layout m number rows).entries ∧
      (Sheet.addRows layout m number rows).failures = m.failures ∧
      ∀ d, d ∈ more ↔ ∃ row ∈ rows, ∃ ds, Sheet.rowDocuments layout row = .ok ds ∧ d ∈ ds := by
  induction rows generalizing m read number with
  | nil =>
    refine ⟨[], ?_, rfl, fun d => iff_of_false List.not_mem_nil (by simp)⟩
    rw [List.append_nil]
    exact h
  | cons row rows ih =>
    obtain ⟨ds, hds, hshown⟩ := hrows row List.mem_cons_self
    obtain ⟨hmerges, hfailures⟩ := h.addAll hkeys number hshown
    obtain ⟨more, hall, hfailures', hmore⟩ := ih hmerges (number + 1)
      fun row' hrow' => hrows row' (List.mem_cons_of_mem _ hrow')
    refine ⟨ds ++ more, ?_, ?_, fun d => ?_⟩
    · rw [Sheet.addRows, hds, ← List.append_assoc]
      exact hall
    · rw [Sheet.addRows, hds]
      exact hfailures'.trans hfailures
    · rw [List.mem_append, hmore]
      constructor
      · rintro (hd | ⟨row', hrow', ds', hds', hd⟩)
        · exact ⟨row, List.mem_cons_self, ds, hds, hd⟩
        · exact ⟨row', List.mem_cons_of_mem _ hrow', ds', hds', hd⟩
      · rintro ⟨row', hrow', ds', hds', hd⟩
        rcases List.mem_cons.1 hrow' with rfl | hrow'
        · rw [hds] at hds'
          cases hds'
          exact .inl hd
        · exact .inr ⟨row', hrow', ds', hds', hd⟩

end Reading

end Merged

end Crosswalk
