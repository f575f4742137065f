import Crosswalk.Proofs.Catalog.Run
import Crosswalk.Proofs.Store.Growth

/-!
# What a run keeps

Every operation is made of single changes: an entity is put, two entities are linked, the graph is
built again. None of them takes an entity away, and only putting touches an entity, by filling it in.
So whatever is stored under an identity stays stored under it for the rest of a run, with all that is
set.
-/

namespace Crosswalk.Catalog

variable {ι : Type} {c c' : Catalog}

/-! ### Single changes -/

/-- The changes of which operations are made. -/
inductive Change (ι : Type) (c : Catalog) : Catalog → Prop
  | entity {e : Entity ι} {stored : Entity StoredId} {c' : Catalog}
      (h : c.storeEntity e = .ok (stored, c')) : Change ι c c'
  | requirements {a b : StoredId} {relation : Relation} {outcome : LinkOutcome} {c' : Catalog}
      (h : c.joinRequirements a b relation = .ok (outcome, c')) : Change ι c c'
  | node {a b : StoredId} {relation : Relation} {outcome : LinkOutcome} {c' : Catalog}
      (h : c.joinNode a b relation = .ok (outcome, c')) : Change ι c c'
  | reopen : Change ι c c.reopen

/-- Some changes, one after the other. -/
abbrev Changes (ι : Type) : Catalog → Catalog → Prop :=
  Relation.ReflTransGen (Change ι)

theorem changes_joinEntities {stored peer : Entity StoredId} {relation : Relation}
    {outcome : LinkOutcome} (h : c.joinEntities stored peer relation = .ok (outcome, c')) :
    Change ι c c' := by
  unfold joinEntities at h
  split at h
  · exact .requirements h
  · exact .node h
  · exact .node h
  · cases h

theorem changes_importLink (c : Catalog) (stored : Entity StoredId) (link : Link ι) :
    Changes ι c (c.importLink stored link).2 := by
  unfold importLink
  split
  · exact .refl
  · rename_i peer c₁ hput
    have hfirst : Changes ι c c₁ := .single (.entity hput)
    split
    · exact hfirst
    · rename_i outcome c₂ hjoin
      exact hfirst.tail (changes_joinEntities hjoin)

theorem changes_importLinks (e : Entity ι) (stored : Entity StoredId)
    (state : Catalog × ImportReport) (links : List (Link ι)) :
    Changes ι state.1 (reached (importLinks e stored state links)) := by
  induction links generalizing state with
  | nil => exact .refl
  | cons link links ih =>
    have hlink := changes_importLink state.1 stored link
    rw [importLinks]
    split
    · rename_i outcome c₁ himport
      rw [himport] at hlink
      exact hlink.trans (ih (c₁, _))
    · rename_i cycle c₁ himport
      rw [himport] at hlink
      exact hlink
    · rename_i failure c₁ hfatal himport
      rw [himport] at hlink
      exact hlink.trans (ih (c₁, _))

theorem changes_importDocument (state : Catalog × ImportReport) (d : Document ι) :
    Changes ι state.1 (reached (importDocument state d)) := by
  unfold importDocument
  split
  · exact .refl
  · exact .refl
  · rename_i stored c₁ hput
    have hlinks := changes_importLinks d.entity stored (c₁, state.2) d.links
    have hfirst : Changes ι state.1 c₁ := .single (.entity hput)
    cases himport : importLinks d.entity stored (c₁, state.2) d.links <;> rw [himport] at hlinks <;>
      exact hfirst.trans hlinks

theorem changes_importDocuments (state : Catalog × ImportReport) (documents : List (Document ι)) :
    Changes ι state.1 (reached (documents.foldlM importDocument state)) := by
  induction documents generalizing state with
  | nil => exact .refl
  | cons d documents ih =>
    have hd := changes_importDocument state d
    rw [List.foldlM_cons]
    cases himport : importDocument state d with
    | error failure =>
      rw [himport] at hd
      exact hd
    | ok state₁ =>
      rw [himport] at hd
      exact hd.trans (ih state₁)

theorem changes_afterImport (c : Catalog) (documents : List (Document ι)) :
    Changes ι c (c.afterImport documents) := by
  unfold afterImport importDocuments
  cases c.guardWrite with
  | error failure => exact .refl
  | ok => exact changes_importDocuments (c, {}) documents

theorem afterImport_of_ok {documents : List (Document ι)} {report : ImportReport}
    (h : c.importAll documents = .ok (c', report)) : c.afterImport documents = c' := by
  unfold importAll at h
  unfold afterImport
  cases himport : c.importDocuments documents <;> rw [himport] at h <;> cases h
  rfl

theorem ok_of_guarded {α : Type} {result : Except Failure α} {a : α}
    (h : (do c.guardWrite; result) = .ok a) : result = .ok a := by
  obtain ⟨_, -, hresult⟩ := bind_eq_ok.1 h
  exact hresult

/-- An operation that succeeds is made of single changes. -/
theorem changes_perform {op : Operation ι} (h : c.perform op = .ok c') : Changes ι c c' := by
  cases op with
  | putRequirement r =>
    obtain ⟨⟨stored, c₁⟩, hput, rfl⟩ := map_eq_ok.1 h
    have hentity : c.storeEntity (.requirement r) = .ok (.requirement stored, c₁) :=
      map_eq_ok.2 ⟨_, ok_of_guarded hput, rfl⟩
    exact .single (.entity hentity)
  | putNode n =>
    obtain ⟨⟨stored, c₁⟩, hput, rfl⟩ := map_eq_ok.1 h
    have hentity : c.storeEntity (.node n) = .ok (.node stored, c₁) :=
      map_eq_ok.2 ⟨_, ok_of_guarded hput, rfl⟩
    exact .single (.entity hentity)
  | linkRequirements a b relation =>
    obtain ⟨⟨outcome, c₁⟩, hlink, rfl⟩ := map_eq_ok.1 h
    exact .single (.requirements (ok_of_guarded hlink))
  | linkNode requirement node relation =>
    obtain ⟨⟨outcome, c₁⟩, hlink, rfl⟩ := map_eq_ok.1 h
    exact .single (.node (ok_of_guarded hlink))
  | importAll documents =>
    obtain ⟨⟨c₁, report⟩, himport, rfl⟩ := map_eq_ok.1 h
    rw [← afterImport_of_ok himport]
    exact changes_afterImport c documents
  | reopen =>
    cases h
    exact .single .reopen

theorem changes_after (c : Catalog) (op : Operation ι) : Changes ι c (c.after op) := by
  unfold after
  split
  · rename_i c' hop
    exact changes_perform hop
  · cases op with
    | importAll documents => exact changes_afterImport c documents
    | _ => exact .refl

theorem changes_run (c : Catalog) (ops : List (Operation ι)) : Changes ι c (c.run ops) := by
  induction ops generalizing c with
  | nil => exact .refl
  | cons op ops ih => exact (changes_after c op).trans (ih (c.after op))

/-! ### What a change keeps -/

theorem settle_requirements (c : Catalog) (kind : LinkKind) (a b : StoredId) (relation : Relation)
    (same : Bool) : (c.settle kind a b relation same).2.store.requirements =
      c.store.requirements := by
  unfold settle
  split
  · rfl
  · split
    · rfl
    · exact Store.withLink_requirements

theorem settle_nodes (c : Catalog) (kind : LinkKind) (a b : StoredId) (relation : Relation)
    (same : Bool) : (c.settle kind a b relation same).2.store.nodes = c.store.nodes := by
  unfold settle
  split
  · rfl
  · split
    · rfl
    · exact Store.withLink_nodes

theorem grows_settle (c : Catalog) (kind : LinkKind) (a b : StoredId) (relation : Relation)
    (same : Bool) : c.store.Grows (c.settle kind a b relation same).2.store :=
  .of_entities (c.settle_requirements kind a b relation same) (c.settle_nodes kind a b relation same)

namespace Consistent

theorem grows_joinRequirements (h : c.Consistent) {a b : StoredId} {relation : Relation}
    {outcome : LinkOutcome} (hjoin : c.joinRequirements a b relation = .ok (outcome, c')) :
    c.store.Grows c'.store := by
  by_cases hends : .requirement a ∈ c.store.vertices ∧ .requirement b ∈ c.store.vertices
  · obtain ⟨⟨source, target, oriented⟩, horient⟩ : ∃ o, orient a b relation = o := ⟨_, rfl⟩
    have hsettle := (h.joinRequirements_eq hends.1 hends.2 horient).symm.trans hjoin
    obtain rfl : _ = c' := congrArg Prod.snd (Except.ok.inj hsettle)
    exact grows_settle ..
  · have hmissing : ∃ v, c.joinRequirements a b relation = .error (.notFound v) :=
      joinRequirements_missing (not_and_or.1 hends)
    obtain ⟨v, hv⟩ := hmissing
    cases hv.symm.trans hjoin

theorem grows_joinNode (h : c.Consistent) {a b : StoredId} {relation : Relation}
    {outcome : LinkOutcome} (hjoin : c.joinNode a b relation = .ok (outcome, c')) :
    c.store.Grows c'.store := by
  by_cases hends : .requirement a ∈ c.store.vertices ∧ .node b ∈ c.store.vertices
  · have hsettle := (h.joinNode_eq hends.1 hends.2).symm.trans hjoin
    obtain rfl : _ = c' := congrArg Prod.snd (Except.ok.inj hsettle)
    exact grows_settle ..
  · have hmissing : ∃ v, c.joinNode a b relation = .error (.notFound v) :=
      joinNode_missing (not_and_or.1 hends)
    obtain ⟨v, hv⟩ := hmissing
    cases hv.symm.trans hjoin

theorem grows_storeEntity (h : c.Consistent) {e : Entity ι} {stored : Entity StoredId}
    (hput : c.storeEntity e = .ok (stored, c')) : c.store.Grows c'.store := by
  cases e with
  | requirement r =>
    obtain ⟨⟨r', c₁⟩, hstore, hc₁⟩ := map_eq_ok.1 hput
    obtain ⟨⟨r'', s'⟩, hrequirement, hs'⟩ := map_eq_ok.1 hstore
    cases hc₁
    cases hs'
    exact h.sound.grows_putRequirement hrequirement
  | node n =>
    obtain ⟨⟨n', c₁⟩, hstore, hc₁⟩ := map_eq_ok.1 hput
    obtain ⟨⟨n'', s'⟩, hnode, hs'⟩ := map_eq_ok.1 hstore
    cases hc₁
    cases hs'
    exact h.sound.grows_putNode hnode

/-- A change keeps a catalogue consistent and takes nothing away. -/
theorem change (h : c.Consistent) (hchange : Change ι c c') :
    c'.Consistent ∧ c.store.Grows c'.store := by
  cases hchange with
  | entity hput => exact ⟨h.storeEntity hput, h.grows_storeEntity hput⟩
  | requirements hjoin =>
    refine ⟨?_, h.grows_joinRequirements hjoin⟩
    rcases h.joinRequirements _ _ _ with ⟨v, hv⟩ | ⟨outcome, c₁, hok, h₁⟩
    · cases hv.symm.trans hjoin
    · cases hok.symm.trans hjoin
      exact h₁
  | node hjoin =>
    refine ⟨?_, h.grows_joinNode hjoin⟩
    rcases h.joinNode _ _ _ with ⟨v, hv⟩ | ⟨outcome, c₁, hok, h₁⟩
    · cases hv.symm.trans hjoin
    · cases hok.symm.trans hjoin
      exact h₁
  | reopen => exact ⟨h.reopen, .refl _⟩

theorem changes (h : c.Consistent) (hchanges : Changes ι c c') :
    c'.Consistent ∧ c.store.Grows c'.store := by
  induction hchanges with
  | refl => exact ⟨h, .refl _⟩
  | tail _ hlast ih =>
    obtain ⟨hmid, hgrows⟩ := ih
    obtain ⟨hend, hgrows'⟩ := hmid.change hlast
    exact ⟨hend, hgrows.trans hgrows'⟩

end Consistent

/-! ### Runs -/

theorem run_append (c : Catalog) (before later : List (Operation ι)) :
    c.run (before ++ later) = (c.run before).run later :=
  List.foldl_append

/-- What is stored at some point of a run is stored under the same identity at every later point.
Requirements keep their names and nodes their keys, public identifiers, descriptions, section numbers
and tool types do not change once they are set, tags are only added, and a hyperlink is never
emptied. -/
theorem run_grows (serial itemsPerPage : Nat) (before later : List (Operation ι)) :
    ((fresh serial itemsPerPage).run before).store.Grows
      ((fresh serial itemsPerPage).run (before ++ later)).store := by
  have h := (consistent_fresh serial itemsPerPage).run before
  rw [run_append]
  exact (h.changes (changes_run _ later)).2

/-- A hyperlink may be replaced by another one. -/
example :
    let before : List (Operation Unit) := [.putNode ⟨(), "CWE", "https://old", .empty, .code "Fixation"⟩]
    let later : List (Operation Unit) := [.putNode ⟨(), "CWE", "https://new", .empty, .code "Fixation"⟩]
    ((fresh 0 20).run before).store.nodes.map (·.hyperlink) = ["https://old"] ∧
      ((fresh 0 20).run (before ++ later)).store.nodes.map (·.hyperlink) = ["https://new"] := by
  decide +kernel

end Crosswalk.Catalog
