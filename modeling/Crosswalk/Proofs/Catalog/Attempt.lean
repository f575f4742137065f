import Crosswalk.Proofs.Catalog.Growth
import Crosswalk.Proofs.Index.Cycle
import Crosswalk.Proofs.Store.Rows

/-!
# Linking where the flag has not fallen

As long as the graph knows of no cycle, the guard lets every change pass, and the check for a link
answers. Putting an entity then fails for reasons of its own only, and linking does, or writes a link
that closes no path; so no such change is refused because of a cycle, whatever has been stored.
-/

namespace Crosswalk.Catalog

variable {ι : Type} {c c' : Catalog} {kind : LinkKind} {a b : StoredId} {relation : Relation}

/-! ### Putting entities -/

theorem storeEntity_ok {e : Entity ι} {stored : Entity StoredId}
    (h : c.storeEntity e = .ok (stored, c')) :
    c'.store.links = c.store.links ∧ c.store.drawn ≤ c'.store.drawn ∧
      ∃ v, c'.index = c.index.addVertex v := by
  cases e with
  | requirement r =>
    obtain ⟨⟨r', c₁⟩, hstore, hc₁⟩ := map_eq_ok.1 h
    obtain ⟨⟨r'', s'⟩, hput, hs'⟩ := map_eq_ok.1 hstore
    cases hc₁
    cases hs'
    obtain ⟨hlinks, hdrawn⟩ := (Store.putting_requirement _ r).ok hput
    exact ⟨hlinks, hdrawn, _, rfl⟩
  | node n =>
    obtain ⟨⟨n', c₁⟩, hstore, hc₁⟩ := map_eq_ok.1 h
    obtain ⟨⟨n'', s'⟩, hput, hs'⟩ := map_eq_ok.1 hstore
    cases hc₁
    cases hs'
    obtain ⟨hlinks, hdrawn⟩ := (Store.putting_node _ n).ok hput
    exact ⟨hlinks, hdrawn, _, rfl⟩

/-! ### Linking -/

/-- What comes of linking two entities where the flag has not fallen: it fails, but not because of a
cycle, it leaves everything as it is, or it writes a link that closes no path. -/
inductive Attempt (c : Catalog) (result : Except Failure (LinkOutcome × Catalog)) : Prop
  | refused {failure : Failure} (h : result = .error failure)
      (hcycle : ∀ cycle, failure ≠ .fatalState cycle)
  | kept {outcome : LinkOutcome} (h : result = .ok (outcome, c))
  | written {kind : LinkKind} {a b : StoredId} {relation : Relation}
      (h : result = c.writeBetween (c.store.findLink? kind a b) kind a b relation)
      (hpath : c.index.closingPath? a b relation = none)

theorem guardWrite_of_acyclic (hflag : c.index.acyclic = true) : c.guardWrite = .ok () := by
  unfold guardWrite
  rw [Index.findCycle_eq_none hflag]

theorem guarded_of_acyclic (hflag : c.index.acyclic = true) {α : Type} (result : Except Failure α) :
    (do c.guardWrite; result) = result := by
  rw [guardWrite_of_acyclic hflag]
  rfl

theorem introducesCycle_of_acyclic (hflag : c.index.acyclic = true) :
    c.index.introducesCycle a b relation = .ok (c.index.closingPath? a b relation) := by
  rw [Index.introducesCycle, if_pos hflag]

theorem attempt_unlessClosing (hflag : c.index.acyclic = true) :
    c.Attempt (match c.index.introducesCycle a b relation with
      | .error failure => .error failure
      | .ok (some cycle) => .ok (.cycleDropped cycle, c)
      | .ok none => c.writeBetween (c.store.findLink? kind a b) kind a b relation) := by
  rw [introducesCycle_of_acyclic hflag]
  cases hpath : c.index.closingPath? a b relation with
  | some cycle => exact .kept rfl
  | none => exact .written rfl hpath

theorem attempt_joinRequirements (hflag : c.index.acyclic = true) :
    c.Attempt (c.joinRequirements a b relation) := by
  unfold joinRequirements
  split
  · exact .refused rfl fun cycle h => by cases h
  split
  · exact .refused rfl fun cycle h => by cases h
  dsimp only
  split
  · exact .kept rfl
  exact attempt_unlessClosing hflag

theorem attempt_joinNode (hflag : c.index.acyclic = true) :
    c.Attempt (c.joinNode a b relation) := by
  unfold joinNode
  split
  · exact .refused rfl fun cycle h => by cases h
  split
  · exact .refused rfl fun cycle h => by cases h
  dsimp only
  split
  · exact .kept rfl
  exact attempt_unlessClosing hflag

theorem attempt_joinEntities (hflag : c.index.acyclic = true) (stored peer : Entity StoredId) :
    c.Attempt (c.joinEntities stored peer relation) := by
  unfold joinEntities
  split
  · exact attempt_joinRequirements hflag
  · exact attempt_joinNode hflag
  · exact attempt_joinNode hflag
  · exact .refused rfl fun cycle h => by cases h

theorem writeBetween_none (c : Catalog) (kind : LinkKind) (a b : StoredId) (relation : Relation) :
    c.writeBetween none kind a b relation =
      (Store.writeLink { c.store with drawn := c.store.drawn + 1 } none
        ⟨.ofSerial c.store.drawn, kind, a, b, relation, .plain⟩).map fun store =>
          (.created, { c with
            store
            index := c.index.addEdge ⟨.ofSerial c.store.drawn, kind, a, b, relation, .plain⟩ }) :=
  writeLink_eq _ none _

theorem writeBetween_ne_fatalState (existing : Option StoredLink) (cycle : List Vertex) :
    c.writeBetween existing kind a b relation ≠ .error (.fatalState cycle) := by
  intro h
  cases existing with
  | some old =>
    rw [writeBetween, writeLink_eq] at h
    exact Store.writeLink_ne_fatalState _ _ cycle (map_eq_error.1 h)
  | none =>
    rw [writeBetween_none] at h
    exact Store.writeLink_ne_fatalState _ _ cycle (map_eq_error.1 h)

/-- A link that is written between two entities takes the place of the one that is found between
them, or else comes in with an identity that is drawn. -/
theorem writeBetween_ok {outcome : LinkOutcome}
    (h : c.writeBetween (c.store.findLink? kind a b) kind a b relation = .ok (outcome, c')) :
    c'.itemsPerPage = c.itemsPerPage ∧
      c'.index =
        c.index.replaceEdge (c.store.findLink? kind a b) (c.store.linkFor kind a b relation) ∧
      ((∃ old, c.store.findLink? kind a b = some old ∧
          c.store.updateLink (c.store.linkFor kind a b relation) = .ok c'.store) ∨
        c.store.findLink? kind a b = none ∧
          Store.insertLink { c.store with drawn := c.store.drawn + 1 }
            (c.store.linkFor kind a b relation) = .ok c'.store) := by
  cases hfind : c.store.findLink? kind a b with
  | some old =>
    rw [hfind, writeBetween, ← Store.linkFor_of_some hfind, writeLink_eq] at h
    obtain ⟨store, hupdate, hc'⟩ := map_eq_ok.1 h
    cases hc'
    exact ⟨rfl, rfl, .inl ⟨old, rfl, hupdate⟩⟩
  | none =>
    rw [hfind, writeBetween_none, ← Store.linkFor_of_none hfind] at h
    obtain ⟨store, hinsert, hc'⟩ := map_eq_ok.1 h
    cases hc'
    exact ⟨rfl, rfl, .inr ⟨rfl, hinsert⟩⟩

namespace Attempt

variable {result : Except Failure (LinkOutcome × Catalog)}

theorem ne_fatalState (h : c.Attempt result) (cycle : List Vertex) :
    result ≠ .error (.fatalState cycle) := by
  cases h with
  | refused h hcycle =>
    rw [h]
    exact fun heq => hcycle cycle (Except.error.inj heq)
  | kept h =>
    rw [h]
    exact fun heq => by cases heq
  | written h hpath =>
    rw [h]
    exact writeBetween_ne_fatalState _ cycle

/-- What is kept by writing a link that closes no path is kept by linking. -/
theorem kept_of_ok (h : c.Attempt result) {kept : Catalog → Prop} (hc : kept c)
    (hwrite : ∀ {kind : LinkKind} {a b : StoredId} {relation : Relation} {outcome : LinkOutcome}
      {c' : Catalog}, c.index.closingPath? a b relation = none →
        c.writeBetween (c.store.findLink? kind a b) kind a b relation = .ok (outcome, c') → kept c')
    {outcome : LinkOutcome} (hok : result = .ok (outcome, c')) : kept c' := by
  cases h with
  | refused hrefused => cases hrefused.symm.trans hok
  | kept hkept =>
    cases hkept.symm.trans hok
    exact hc
  | written hwritten hpath => exact hwrite hpath (hwritten.symm.trans hok)

theorem keeps (h : c.Attempt result) {kept : Catalog → Prop}
    (hkept : ∀ {outcome : LinkOutcome} {c' : Catalog}, result = .ok (outcome, c') → kept c') :
    (∃ failure, result = .error failure ∧ ∀ cycle, failure ≠ .fatalState cycle) ∨
      ∃ outcome c', result = .ok (outcome, c') ∧ kept c' := by
  cases hresult : result with
  | error failure =>
    exact .inl ⟨failure, rfl, fun cycle heq => h.ne_fatalState cycle (by rw [hresult, heq])⟩
  | ok pair => exact .inr ⟨pair.1, pair.2, rfl, hkept hresult⟩

end Attempt

/-- Where the flag has not fallen, only an import can meet a cycle, one that it has brought in itself. -/
theorem perform_ne_fatalState_of_acyclic (hflag : c.index.acyclic = true) {op : Operation ι}
    (hop : ∀ documents, op ≠ .importAll documents) (cycle : List Vertex) :
    c.perform op ≠ .error (.fatalState cycle) := by
  intro hfatal
  cases op with
  | putRequirement r =>
    simp only [perform, putRequirement, guarded_of_acyclic hflag] at hfatal
    exact (Store.putting_requirement _ r).ne_fatalState cycle
      (map_eq_error.1 (map_eq_error.1 hfatal))
  | putNode n =>
    simp only [perform, putNode, guarded_of_acyclic hflag] at hfatal
    exact (Store.putting_node _ n).ne_fatalState cycle (map_eq_error.1 (map_eq_error.1 hfatal))
  | linkRequirements a b relation =>
    simp only [perform, linkRequirements, guarded_of_acyclic hflag] at hfatal
    exact (attempt_joinRequirements hflag).ne_fatalState cycle (map_eq_error.1 hfatal)
  | linkNode requirement node relation =>
    simp only [perform, linkNode, guarded_of_acyclic hflag] at hfatal
    exact (attempt_joinNode hflag).ne_fatalState cycle (map_eq_error.1 hfatal)
  | importAll documents => exact hop documents rfl
  | reopen => cases hfatal

/-- Where something holds that is kept by whatever an import does, an import meets none either. -/
theorem perform_ne_fatalState_of_stable (hflag : c.index.acyclic = true) {kept : Catalog → Prop}
    (hc : kept c) (hstable : ∀ stored, ImportStable ι stored kept) (op : Operation ι)
    (cycle : List Vertex) : c.perform op ≠ .error (.fatalState cycle) := by
  cases op with
  | importAll documents =>
    have hstart : kept ((c, {}) : Catalog × ImportReport).1 := hc
    obtain ⟨state', himport, -⟩ := importDocuments_of_stable (fun stored => hstable stored) hstart documents
    rw [perform, (importAll_eq_ok (guardWrite_of_acyclic hflag)).2 himport]
    exact fun hfatal => by cases hfatal
  | _ => exact perform_ne_fatalState_of_acyclic hflag (fun _ hop => by cases hop) cycle

end Crosswalk.Catalog
