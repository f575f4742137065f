import Crosswalk.Catalog.Import
import Crosswalk.Proofs.Entity.Enrich

/-!
# What an import keeps

An import puts entities and links them, and leaves out what fails, unless it fails because of a cycle
in what is stored. So a property that putting and linking keep, and under which linking never fails
that way, holds to the end, and the import comes to an end.
-/

namespace Crosswalk

variable {ι : Type}

/-! ### Putting never fails because of a cycle -/

namespace Store

variable (s : Store)

theorem updateRequirement_cases (r : Requirement StoredId) :
    (∃ fault, s.updateRequirement r = .error (.storage fault)) ∨
      s.updateRequirement r = .ok (s.replaceRequirement r) := by
  unfold updateRequirement
  split
  · exact .inl ⟨_, rfl⟩
  · exact .inr rfl

theorem insertRequirement_cases (r : Requirement StoredId) :
    (∃ fault, s.insertRequirement r = .error (.storage fault)) ∨
      s.insertRequirement r = .ok { s with requirements := s.requirements ++ [r] } := by
  unfold insertRequirement
  split
  · exact .inl ⟨_, rfl⟩
  split
  · exact .inl ⟨_, rfl⟩
  · exact .inr rfl

theorem insertNode_cases (n : Node StoredId) :
    (∃ fault, s.insertNode n = .error (.storage fault)) ∨
      s.insertNode n = .ok { s with nodes := s.nodes ++ [n] } := by
  unfold insertNode
  split
  · exact .inl ⟨_, rfl⟩
  split
  · exact .inl ⟨_, rfl⟩
  · exact .inr rfl

/-- What comes of putting an entity into any store: it fails, but not because of a cycle, or the
entity is stored, perhaps with an identity that is drawn, and the links stay as they are. -/
inductive Putting {α : Type} (result : Except Failure (α × Store)) : Prop
  | failed {failure : Failure} (h : result = .error failure)
      (hcycle : ∀ cycle, failure ≠ .fatalState cycle)
  | stored {a : α} {s' : Store} (h : result = .ok (a, s')) (hlinks : s'.links = s.links)
      (hdrawn : s.drawn ≤ s'.drawn)

theorem putting_requirement (r : Requirement ι) : s.Putting (s.putRequirement r) := by
  unfold putRequirement
  split
  · exact .failed rfl nofun
  split
  · split
    · exact .failed rfl nofun
    split
    · rename_i filled changed hfill hchanged
      obtain ⟨fault, hupdate⟩ | hupdate := s.updateRequirement_cases filled
      · rw [hupdate]
        exact .failed rfl nofun
      · rw [hupdate]
        exact .stored rfl rfl (Nat.le_refl _)
    · exact .stored rfl rfl (Nat.le_refl _)
  · dsimp only [draw]
    obtain ⟨fault, hinsert⟩ | hinsert := insertRequirement_cases { s with drawn := s.drawn + 1 }
      { r.withId (.ofSerial s.drawn) with name := Text.trim r.name }
    · rw [hinsert]
      exact .failed rfl nofun
    · rw [hinsert]
      exact .stored rfl rfl (Nat.le_succ _)

theorem putting_node (n : Node ι) : s.Putting (s.putNode n) := by
  unfold putNode
  split
  · exact .failed rfl nofun
  split
  · split
    · exact .failed rfl nofun
    · rename_i filled changed hfill
      cases changed with
      | true => exact .stored rfl rfl (Nat.le_refl _)
      | false => exact .stored rfl rfl (Nat.le_refl _)
  · dsimp only [draw]
    obtain ⟨fault, hinsert⟩ | hinsert := insertNode_cases { s with drawn := s.drawn + 1 }
      { n.withId (.ofSerial s.drawn) with name := Text.trim n.name }
    · rw [hinsert]
      exact .failed rfl nofun
    · rw [hinsert]
      exact .stored rfl rfl (Nat.le_succ _)

variable {s}

theorem Putting.ne_fatalState {α : Type} {result : Except Failure (α × Store)}
    (h : s.Putting result) (cycle : List Vertex) : result ≠ .error (.fatalState cycle) := by
  cases h with
  | failed h hcycle =>
    rw [h]
    exact fun heq => hcycle cycle (Except.error.inj heq)
  | stored h hlinks hdrawn =>
    rw [h]
    exact nofun

theorem Putting.ok {α : Type} {result : Except Failure (α × Store)} (h : s.Putting result)
    {a : α} {s' : Store} (hresult : result = .ok (a, s')) :
    s'.links = s.links ∧ s.drawn ≤ s'.drawn := by
  cases h with
  | failed h hcycle => cases h.symm.trans hresult
  | stored h hlinks hdrawn =>
    cases h.symm.trans hresult
    exact ⟨hlinks, hdrawn⟩

end Store

namespace Catalog

variable {c : Catalog}

theorem storeEntity_ne_fatalState (e : Entity ι) (cycle : List Vertex) :
    c.storeEntity e ≠ .error (.fatalState cycle) := by
  intro h
  cases e with
  | requirement r =>
    exact (Store.putting_requirement _ r).ne_fatalState cycle (map_eq_error.1 (map_eq_error.1 h))
  | node n =>
    exact (Store.putting_node _ n).ne_fatalState cycle (map_eq_error.1 (map_eq_error.1 h))

/-- The guard lets an import pass. -/
theorem importAll_eq_ok (h : c.guardWrite = .ok ()) {documents : List (Document ι)}
    {result : Catalog × ImportReport} :
    c.importAll documents = .ok result ↔ documents.foldlM importDocument (c, {}) = .ok result := by
  have hguard : c.importDocuments documents = documents.foldlM importDocument (c, {}) := by
    unfold importDocuments
    rw [h]
    rfl
  unfold importAll
  rw [hguard]
  cases documents.foldlM importDocument (c, {}) <;> simp [Except.mapError]

/-! ### What is kept from link to link -/

/-- A property that is kept by putting entities and by linking them with a stored one, and under which
such a link never fails because of a cycle. -/
structure ImportStable (ι : Type) (stored : Entity StoredId) (kept : Catalog → Prop) : Prop where
  entity : ∀ {c c' : Catalog} {e : Entity ι} {put : Entity StoredId}, kept c →
    c.storeEntity e = .ok (put, c') → kept c'
  join : ∀ {c : Catalog}, kept c → ∀ (peer : Entity StoredId) (relation : Relation),
    (∃ failure, c.joinEntities stored peer relation = .error failure ∧
      ∀ cycle, failure ≠ .fatalState cycle) ∨
    ∃ outcome c', c.joinEntities stored peer relation = .ok (outcome, c') ∧ kept c'

namespace ImportStable

variable {stored : Entity StoredId} {kept : Catalog → Prop}

theorem importLink (h : ImportStable ι stored kept) (hc : kept c) (link : Link ι) :
    kept (c.importLink stored link).2 ∧
      ∀ cycle, (c.importLink stored link).1 ≠ .error (.fatalState cycle) := by
  unfold Catalog.importLink
  cases hput : c.storeEntity link.peer.entity with
  | error failure =>
    exact ⟨hc, fun cycle hf => storeEntity_ne_fatalState _ cycle (Except.error.inj hf ▸ hput)⟩
  | ok result =>
    obtain ⟨peer, c'⟩ := result
    have hc' : kept c' := h.entity hc hput
    rcases h.join hc' peer link.relation with ⟨failure, hjoin, hfatal⟩ | ⟨outcome, c'', hjoin, hc''⟩
    · simp only [hjoin]
      exact ⟨hc', fun cycle hf => hfatal cycle (Except.error.inj hf)⟩
    · simp only [hjoin]
      exact ⟨hc'', fun cycle hf => by cases hf⟩

theorem importLinks (h : ImportStable ι stored kept) (e : Entity ι)
    {state : Catalog × ImportReport} (hc : kept state.1) (links : List (Link ι)) :
    ∃ state', Catalog.importLinks e stored state links = .ok state' ∧ kept state'.1 := by
  induction links generalizing state with
  | nil => exact ⟨state, rfl, hc⟩
  | cons link links ih =>
    obtain ⟨hc', hfatal⟩ := h.importLink hc link
    rw [Catalog.importLinks]
    split
    · rename_i outcome c' himport
      rw [himport] at hc'
      exact ih hc'
    · rename_i cycle c' himport
      exact absurd (congrArg Prod.fst himport) (hfatal cycle)
    · rename_i failure c' hother himport
      rw [himport] at hc'
      exact ih hc'

end ImportStable

/-! ### What is kept from document to document -/

variable {kept : Catalog → Prop}

theorem importDocument_of_stable (h : ∀ stored, ImportStable ι stored kept)
    {state : Catalog × ImportReport} (hc : kept state.1) (d : Document ι) :
    ∃ state', importDocument state d = .ok state' ∧ kept state'.1 := by
  unfold importDocument
  split
  · rename_i cycle hput
    exact absurd hput (storeEntity_ne_fatalState _ cycle)
  · exact ⟨_, rfl, hc⟩
  · rename_i stored c' hput
    have hstored : kept ((c', state.2) : Catalog × ImportReport).1 := (h stored).entity hc hput
    obtain ⟨state', hlinks, hc'⟩ := (h stored).importLinks d.entity hstored d.links
    rw [hlinks]
    exact ⟨_, rfl, hc'⟩

theorem importDocuments_of_stable (h : ∀ stored, ImportStable ι stored kept)
    {state : Catalog × ImportReport} (hc : kept state.1) (documents : List (Document ι)) :
    ∃ state', documents.foldlM importDocument state = .ok state' ∧ kept state'.1 := by
  induction documents generalizing state with
  | nil => exact ⟨state, rfl, hc⟩
  | cons d documents ih =>
    obtain ⟨state', hd, hc'⟩ := importDocument_of_stable h hc d
    rw [List.foldlM_cons, hd]
    exact ih hc'

end Catalog

end Crosswalk
