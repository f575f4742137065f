import Crosswalk.Proofs.Catalog.Traced

/-!
# Opening what has been stored

A catalogue may be opened on links that were not stored by one. If the stored containments, and the
stored parts the other way round, lead in a circle, every change is refused with the requirements on
a cycle, and nothing changes. Otherwise no entity that is put and no link is refused because of a
cycle. Nor is an import, as long as a link is found in the table between every parent and child. Where
all rows are in plain spelling this stays so, since the graph keeps up with the links; elsewhere a
link may be in the graph and not be found when a new one should take its place, so that an import may
close a circle with it.
-/

namespace Crosswalk

variable {ι : Type}

theorem Graph.Knot.mono {as bs : List (StoredId × StoredId)} {ids : List StoredId}
    (h : Graph.Knot as ids) (hsub : as ⊆ bs) : Graph.Knot bs ids where
  ne_nil := h.ne_nil
  nodup := h.nodup
  reaches := fun a ha b hb => Relation.TransGen.mono (Graph.arrow_le hsub) a b (h.reaches a ha b hb)
  loop := fun a ha => hsub (h.loop a ha)

namespace Catalog

variable {c c' : Catalog} {kind : LinkKind} {a b : StoredId} {relation : Relation}

/-! ### Orderly catalogues -/

/-- What holds of a catalogue whose stored hierarchy has no cycle, however its links were stored. -/
structure Orderly (c : Catalog) : Prop where
  once : c.store.LinksOnce
  tracks : c.index.Tracks c.store.links
  acyclic : c.index.acyclic = true

/-- Whatever links there are, each of them once, a link that is written takes the place of the one
that joins the same entities. -/
theorem written_of_writeBetween (h : c.store.LinksOnce) {outcome : LinkOutcome}
    (hwrite : c.writeBetween (c.store.findLink? kind a b) kind a b relation = .ok (outcome, c')) :
    c' = c.written kind a b relation ∧ c'.store.LinksOnce := by
  obtain ⟨hitems, hindex, hstore⟩ := writeBetween_ok hwrite
  have hlink : c'.store = c.store.withLink kind a b relation ∧ (c.store.findLink? kind a b = none →
      ∀ m ∈ c.store.links, m.id ≠ (c.store.linkFor kind a b relation).id) := by
    rcases hstore with ⟨old, hfind, hupdate⟩ | ⟨hfind, hinsert⟩
    · exact ⟨h.updateLink_ok hfind hupdate, fun hnone => by rw [hfind] at hnone; cases hnone⟩
    · obtain ⟨hfault, hstore⟩ := Store.insertLink_ok hinsert
      refine ⟨by rw [hstore, Store.withLink, hfind], fun _ m hm hid => ?_⟩
      exact (LinkKey.fault?_eq_none_iff.1 hfault).1 _ (List.mem_map_of_mem hm)
        ((h.key_id_eq_iff hm rfl).2 hid)
  obtain ⟨store, index, items⟩ := c'
  obtain rfl : store = _ := hlink.1
  obtain rfl : index = _ := hindex
  obtain rfl : items = _ := hitems
  exact ⟨rfl, h.withLink hlink.2⟩

theorem orderly_ofStore {s : Store} (h : s.LinksOnce) (hacyclic : Graph.Acyclic s.hierarchy)
    (itemsPerPage : Nat) : (ofStore s itemsPerPage).Orderly := by
  have htracks := Index.tracks_build s.vertices s.links
  refine ⟨h, htracks, htracks.coherent.flag.2 (hacyclic.anti fun arrow harrow => ?_)⟩
  exact Store.mem_hierarchy.2 ((htracks.arrows _ _).1 harrow)

namespace Orderly

theorem acyclic_hierarchy (h : c.Orderly) : Graph.Acyclic c.store.hierarchy :=
  (h.tracks.coherent.flag.1 h.acyclic).anti fun _ harrow =>
    (h.tracks.arrows _ _).2 (Store.mem_hierarchy.1 harrow)

theorem reopen (h : c.Orderly) : c.reopen.Orderly :=
  orderly_ofStore h.once h.acyclic_hierarchy c.itemsPerPage

theorem storeEntity (h : c.Orderly) {e : Entity ι} {stored : Entity StoredId}
    (hput : c.storeEntity e = .ok (stored, c')) : c'.Orderly := by
  obtain ⟨hlinks, -, v, hindex⟩ := storeEntity_ok hput
  refine ⟨h.once.congr hlinks, ?_, ?_⟩
  · rw [hlinks, hindex]
    exact h.tracks.addVertex v
  · rw [hindex, Index.addVertex_acyclic]
    exact h.acyclic

/-- The graph keeps up with a link that takes the place of another one. -/
theorem written_tracks (h : c.Orderly) : (c.written kind a b relation).index.Tracks
    (c.store.linkFor kind a b relation :: c.store.otherLinks kind a b) := by
  have hlinks : c.store.links.Perm
      ((c.store.findLink? kind a b).toList ++ c.store.otherLinks kind a b) :=
    Store.links_perm h.once
  have htracks := h.tracks.congr hlinks
  unfold Catalog.written
  cases hfind : c.store.findLink? kind a b with
  | none =>
    rw [hfind] at htracks
    exact htracks.addEdge _
  | some old =>
    rw [hfind] at htracks
    refine (htracks.removeEdge fun m hm => ?_).addEdge _
    have hnot : ¬ old.Apart (c.store.linkFor kind a b relation) := fun hapart =>
      Store.not_apart_of_findLink? hfind hapart.symm
    exact .of_not_apart hnot ((Store.mem_otherLinks _).1 hm).2

/-- A link that closes no path leaves the flag as it is. -/
theorem written_acyclic (h : c.Orderly) (hpath : c.index.closingPath? a b relation = none) :
    (c.written kind a b relation).index.acyclic = true := by
  have htracks : (c.written kind a b relation).index.Tracks
      (c.store.linkFor kind a b relation :: c.store.otherLinks kind a b) := h.written_tracks
  have harrows : ∀ p d, (p, d) ∈ (c.written kind a b relation).index.hierarchy ↔
      (c.store.linkFor kind a b relation).arrow? = some (p, d) ∨
        ∃ m ∈ c.store.otherLinks kind a b, m.arrow? = some (p, d) := by
    intro p d
    rw [htracks.arrows, List.exists_mem_cons_iff]
  cases kind with
  | internal =>
    refine (h.tracks.coherent.acyclic_iff_closingPath? h.acyclic htracks.coherent.flag
      fun p d => ?_).2 hpath
    rw [harrows, or_comm, Store.mem_dropArrows h.tracks.arrows, StoredLink.arrow?_internal rfl]
    rfl
  | external =>
    -- only the arrows of other links are left
    refine htracks.coherent.flag.2 ((h.tracks.coherent.flag.1 h.acyclic).anti fun arrow harrow => ?_)
    rcases (harrows _ _).1 harrow with harrow | ⟨m, hm, harrow⟩
    · cases harrow
    · exact (h.tracks.arrows _ _).2 ⟨m, Store.otherLinks_sublist.subset hm, harrow⟩

theorem write (h : c.Orderly) {outcome : LinkOutcome}
    (hpath : c.index.closingPath? a b relation = none)
    (hwrite : c.writeBetween (c.store.findLink? kind a b) kind a b relation = .ok (outcome, c')) :
    c'.Orderly := by
  obtain ⟨rfl, honce⟩ := written_of_writeBetween h.once hwrite
  have hperm : (c.store.withLink kind a b relation).links.Perm _ :=
    Store.withLink_links_perm h.once
  exact ⟨honce, h.written_tracks.congr hperm.symm, h.written_acyclic hpath⟩

theorem attempt (h : c.Orderly) {outcome : LinkOutcome}
    {result : Except Failure (LinkOutcome × Catalog)} (hattempt : c.Attempt result)
    (hok : result = .ok (outcome, c')) : c'.Orderly :=
  hattempt.kept_of_ok h (fun hpath hwrite => h.write hpath hwrite) hok

theorem change (h : c.Orderly) (hchange : Change ι c c') : c'.Orderly := by
  cases hchange with
  | entity hput => exact h.storeEntity hput
  | requirements hjoin => exact h.attempt (attempt_joinRequirements h.acyclic) hjoin
  | node hjoin => exact h.attempt (attempt_joinNode h.acyclic) hjoin
  | reopen => exact h.reopen

theorem changes (h : c.Orderly) (hchanges : Changes ι c c') : c'.Orderly := by
  induction hchanges with
  | refl => exact h
  | tail _ hlast ih => exact ih.change hlast

/-! ### No change is refused because of a cycle -/

theorem importStable (stored : Entity StoredId) : ImportStable ι stored Orderly where
  entity := fun h hput => h.storeEntity hput
  join := by
    intro c h peer relation
    have hattempt : c.Attempt (c.joinEntities stored peer relation) :=
      attempt_joinEntities h.acyclic stored peer
    exact hattempt.keeps (h.attempt hattempt)

theorem perform_ne_fatalState (h : c.Orderly) (op : Operation ι) (cycle : List Vertex) :
    c.perform op ≠ .error (.fatalState cycle) :=
  perform_ne_fatalState_of_stable h.acyclic h importStable op cycle

end Orderly

/-! ### Opening -/

theorem perform_of_guardWrite {failure : Failure} (h : c.guardWrite = .error failure)
    (op : Operation ι) (hop : op ≠ .reopen) : c.perform op = .error failure := by
  cases op with
  | putRequirement r =>
    rw [perform, putRequirement, h]
    rfl
  | putNode n =>
    rw [perform, putNode, h]
    rfl
  | linkRequirements a b relation =>
    rw [perform, linkRequirements, h]
    rfl
  | linkNode requirement node relation =>
    rw [perform, linkNode, h]
    rfl
  | importAll documents =>
    rw [perform, importAll, importDocuments, h]
    rfl
  | reopen => exact absurd rfl hop

theorem after_of_guardWrite {failure : Failure} (h : c.guardWrite = .error failure)
    (op : Operation ι) (hreopen : c.reopen = c) : c.after op = c := by
  by_cases hop : op = .reopen
  · subst hop
    exact hreopen
  · unfold after
    rw [perform_of_guardWrite h op hop]
    cases op with
    | importAll documents =>
      show c.afterImport documents = c
      unfold afterImport importDocuments
      rw [h]
      rfl
    | _ => rfl

/-- A catalogue that is opened on a link table of any origin, whatever its entities are. If the
hierarchy that is stored has a cycle, every change fails with the requirements of one, and the
catalogue stays as it is. If it has none, no entity that is put and no link is refused because of a
cycle. Neither is an import, if a link is found in the table between every parent and child; and if
every row is in plain spelling, nothing is, at once or later in a run. -/
theorem perform_opened {s s' : Store} {table : List LinkRow} (h : s.Accepts table)
    (hread : s.withTable table = .ok s') (itemsPerPage : Nat) :
    let c := ofStore s' itemsPerPage
    (¬ Graph.Acyclic s'.hierarchy → ∃ ids, Graph.Knot s'.hierarchy ids ∧ ∀ op : Operation ι,
      c.after op = c ∧
        (op ≠ .reopen → c.perform op = .error (.fatalState (ids.map .requirement)))) ∧
    (Graph.Acyclic s'.hierarchy →
      (∀ (op : Operation ι) (cycle : List Vertex), (∀ documents, op ≠ .importAll documents) →
        c.perform op ≠ .error (.fatalState cycle)) ∧
      (s'.Traceable → ∀ (op : Operation ι) (cycle : List Vertex),
        c.perform op ≠ .error (.fatalState cycle)) ∧
      ((∀ r ∈ table, r.Plain) → ∀ (ops : List (Operation ι)) (op : Operation ι)
        (cycle : List Vertex), (c.run ops).perform op ≠ .error (.fatalState cycle))) := by
  intro c
  have htracks : c.index.Tracks s'.links := Index.tracks_build s'.vertices s'.links
  have hmem : ∀ {p d}, (p, d) ∈ c.index.hierarchy ↔ (p, d) ∈ s'.hierarchy :=
    (htracks.arrows _ _).trans Store.mem_hierarchy.symm
  constructor
  · intro hcyclic
    have hflag : c.index.acyclic = false := by
      rw [← Bool.not_eq_true]
      intro hflag
      exact hcyclic ((htracks.coherent.flag.1 hflag).anti fun _ harrow => hmem.2 harrow)
    obtain ⟨ids, hfind, hknot⟩ := htracks.coherent.exists_findCycle hflag
    have hguard : c.guardWrite = .error (.fatalState (ids.map .requirement)) := by
      unfold guardWrite
      rw [hfind]
    exact ⟨ids, hknot.mono fun _ harrow => hmem.1 harrow, fun op =>
      ⟨after_of_guardWrite hguard op rfl, fun hop => perform_of_guardWrite hguard op hop⟩⟩
  · intro hacyclic
    have hflag : c.index.acyclic = true :=
      htracks.coherent.flag.2 (hacyclic.anti fun _ harrow => hmem.1 harrow)
    refine ⟨fun op cycle hop => perform_ne_fatalState_of_acyclic hflag hop cycle,
      fun htraceable op cycle => ?_, fun hplain ops op cycle => ?_⟩
    · exact (traced_ofStore htraceable hacyclic itemsPerPage).perform_ne_fatalState op cycle
    · have hstart : c.Orderly :=
        orderly_ofStore (Store.linksOnce_withTable h hread hplain) hacyclic itemsPerPage
      exact (hstart.changes (changes_run _ ops)).perform_ne_fatalState op cycle

/-- Three requirements. -/
def threeLevels : Store where
  requirements := [⟨⟨10⟩, none, "Access", "", .empty⟩, ⟨⟨11⟩, none, "Login", "", .empty⟩,
    ⟨⟨12⟩, none, "Session", "", .empty⟩]
  nodes := []
  links := []
  drawn := 0

/-- A row in plain spelling between two requirements. -/
def plainRow (id source target : Nat) (relation : Relation) : LinkRow :=
  ⟨(StoredId.mk id).text, .internal, (StoredId.mk source).text, (StoredId.mk target).text,
    relation.text⟩

/-- The first requirement contains the second one, and the third one is a part of that. -/
def chained : List LinkRow :=
  [plainRow 20 10 11 .contains, plainRow 21 12 11 .partOf]

/-- One more row makes the third requirement the parent of the first one. -/
def ring : List LinkRow :=
  chained ++ [plainRow 22 10 12 .partOf]

/-- One more row relates the first requirement to the second one, which is in upper case in the row. -/
def annotated : List LinkRow :=
  chained ++ [{ plainRow 23 10 11 .related with target := "00000000-0000-0000-0000-00000000000B" }]

theorem plain_plainRow (id source target : Nat) (relation : Relation) :
    (plainRow id source target relation).Plain :=
  ⟨⟨_, rfl⟩, ⟨_, rfl⟩⟩

/-- Small numbers are left out by the layout of fresh identities. -/
theorem ne_ofSerial {id : StoredId} (h : id.number < 1 <<< 62) (n : Nat) : id ≠ .ofSerial n := by
  rintro rfl
  simp only [StoredId.ofSerial, StoredId.pack] at h
  omega

def annotatedStore : Store :=
  { threeLevels with
    links := [⟨⟨20⟩, .internal, ⟨10⟩, ⟨11⟩, .contains, .plain⟩,
      ⟨⟨21⟩, .internal, ⟨12⟩, ⟨11⟩, .partOf, .plain⟩,
      ⟨⟨23⟩, .internal, ⟨10⟩, ⟨11⟩, .related,
        { LinkSpelling.plain with target := .other "00000000-0000-0000-0000-00000000000B" }⟩] }

/-- Between parent and child a link is found, whatever else joins them. -/
theorem traceable_annotatedStore : annotatedStore.Traceable := by
  have hsmall : ∀ id ∈ annotatedStore.links.map (·.id), id.number < 1 <<< 62 := by decide +kernel
  have hfound : ∀ arrow ∈ annotatedStore.hierarchy,
      (annotatedStore.findLink? .internal arrow.1 arrow.2).isSome = true := by decide +kernel
  exact ⟨⟨by decide +kernel, fun id hid n _ => ne_ofSerial (hsmall id hid) n⟩,
    fun p d harrow => hfound (p, d) harrow⟩

theorem perform_opened_chained_ring :
    threeLevels.Accepts chained ∧ (∀ r ∈ chained, r.Plain) ∧
    (∃ s, threeLevels.withTable chained = .ok s ∧ Graph.Acyclic s.hierarchy ∧
      ∀ (ops : List (Operation Unit)) (op : Operation Unit) (cycle : List Vertex),
        ((ofStore s 20).run ops).perform op ≠ .error (.fatalState cycle)) ∧
    threeLevels.Accepts annotated ∧
    threeLevels.withTable annotated = .ok annotatedStore ∧
    Graph.Acyclic annotatedStore.hierarchy ∧ annotatedStore.Traceable ∧
    (∀ (op : Operation Unit) (cycle : List Vertex),
      (ofStore annotatedStore 20).perform op ≠ .error (.fatalState cycle)) ∧
    threeLevels.Accepts ring ∧
    ∃ s, threeLevels.withTable ring = .ok s ∧ ¬ Graph.Acyclic s.hierarchy ∧
      ∃ ids, Graph.Knot s.hierarchy ids ∧ ∀ op : Operation Unit,
        (ofStore s 20).after op = ofStore s 20 ∧
          (op ≠ .reopen →
            (ofStore s 20).perform op = .error (.fatalState (ids.map .requirement))) := by
  have haccepts : threeLevels.Accepts chained := by decide +kernel
  have hring : threeLevels.Accepts ring := by
    show LinkKey.Accepted _ (chained.map LinkRow.key ++ (plainRow 22 10 12 .partOf).key :: [])
    rw [LinkKey.accepted_middle, List.append_nil]
    exact ⟨haccepts, by decide +kernel⟩
  have hannotated : threeLevels.Accepts annotated := by decide +kernel
  have hplain : ∀ r ∈ chained, r.Plain :=
    List.forall_mem_cons.2 ⟨plain_plainRow .., List.forall_mem_singleton.2 (plain_plainRow ..)⟩
  obtain ⟨s, hs⟩ : ∃ s, threeLevels.withTable chained = .ok s := ⟨_, rfl⟩
  have hread : threeLevels.withTable annotated = .ok annotatedStore := rfl
  obtain ⟨t, ht⟩ : ∃ t, threeLevels.withTable ring = .ok t := ⟨_, rfl⟩
  have hacyclic : Graph.Acyclic s.hierarchy := by
    cases hs
    decide +kernel
  have hacyclic' : Graph.Acyclic annotatedStore.hierarchy := by decide +kernel
  have hcyclic : ¬ Graph.Acyclic t.hierarchy := by
    cases ht
    decide +kernel
  exact ⟨haccepts, hplain,
    ⟨s, hs, hacyclic, ((perform_opened haccepts hs 20).2 hacyclic).2.2 hplain⟩, hannotated, hread,
    hacyclic', traceable_annotatedStore,
    ((perform_opened hannotated hread 20).2 hacyclic').2.1 traceable_annotatedStore, hring, t, ht,
    hcyclic, (perform_opened hring ht 20).1 hcyclic⟩

/-- The first requirement contains the second one, whose identity is in upper case in the row. -/
def misspelt : List LinkRow :=
  [{ plainRow 20 10 11 .contains with target := "00000000-0000-0000-0000-00000000000B" }]

/-- The second requirement with the first and the third one below it. -/
def regrouped : List (Document Unit) :=
  let named (name : String) : Document Unit := .ofRequirement ⟨(), none, name, "", .empty⟩
  [.mk (named "Login").entity [.mk .contains (named "Access"), .mk .contains (named "Session")]]

/-- What is read from the misspelt row. -/
def misspeltLink : StoredLink :=
  ⟨⟨20⟩, .internal, ⟨10⟩, ⟨11⟩, .contains,
    { LinkSpelling.plain with target := .other "00000000-0000-0000-0000-00000000000B" }⟩

def misspeltStore : Store :=
  { threeLevels with links := [misspeltLink] }

def misspeltCatalog : Catalog :=
  ⟨misspeltStore, .build [.requirement ⟨10⟩, .requirement ⟨11⟩, .requirement ⟨12⟩] [misspeltLink], 20⟩

/-- The requirements stand in the order in which they are listed. -/
theorem ofStore_misspeltStore : ofStore misspeltStore 20 = misspeltCatalog := by
  rw [ofStore, Store.vertices_of_sorted (by decide +kernel) rfl]
  rfl

/-- The cycle because of which something has been refused. -/
def cycleOf {α : Type} : Except Failure α → List Vertex
  | .error (.fatalState cycle) => cycle
  | _ => []

theorem eq_of_cycleOf {α : Type} {result : Except Failure α} {v : Vertex} {cycle : List Vertex}
    (h : cycleOf result = v :: cycle) : result = .error (.fatalState (v :: cycle)) := by
  unfold cycleOf at h
  split at h
  · rw [h]
  · cases h

/-- Without a cycle in what is stored, an import may bring one in and be refused in its middle: the
link that should give way to a new one is not found, because its target is spelt otherwise. -/
theorem exists_import_refused :
    threeLevels.Accepts misspelt ∧ threeLevels.withTable misspelt = .ok misspeltStore ∧
      Graph.Acyclic misspeltStore.hierarchy ∧
      (ofStore misspeltStore 20).perform (.importAll regrouped) =
        .error (.fatalState [.requirement ⟨11⟩, .requirement ⟨10⟩]) ∧
      (ofStore misspeltStore 20).after (.importAll regrouped) ≠ ofStore misspeltStore 20 := by
  rw [ofStore_misspeltStore]
  refine ⟨by decide +kernel, rfl, by decide +kernel, eq_of_cycleOf (by decide +kernel),
    fun hsame => ?_⟩
  have hlinks := congrArg (fun c => c.store.links.length) hsame
  revert hlinks
  decide +kernel

end Catalog

end Crosswalk
