import Crosswalk.Proofs.Catalog.Opened
import Mathlib.Algebra.Group.Defs

/-!
# What an import reports

Every document is tried once, in order, and so is every link of a document that was put. The report
is the sum of what the single trials add to it. So its tallies account for all documents and links,
and they do not depend on whether documents are imported together or one by one. A row comes in for
every link that is counted as created, and for no other reason.
-/

namespace Crosswalk

variable {ι κ : Type}

/-! ### Adding reports -/

def LinkOutcome.isCycleDropped : LinkOutcome → Bool
  | .cycleDropped _ => true
  | _ => false

namespace ImportReport

attribute [ext] ImportReport

/-- The report on a number of documents that were put, on what came of links, and on failures. -/
def of (documents : Nat) (outcomes : List LinkOutcome) (failures : List (String × Failure)) :
    ImportReport where
  documents := documents
  created := outcomes.count .created
  updated := outcomes.count .updated
  unchanged := outcomes.count .unchanged
  cyclesDropped := outcomes.countP LinkOutcome.isCycleDropped
  failures := failures

/-- Reports are added tally by tally, and the failures of the second one follow. -/
instance : Add ImportReport where
  add r r' := ⟨r.documents + r'.documents, r.created + r'.created, r.updated + r'.updated,
    r.unchanged + r'.unchanged, r.cyclesDropped + r'.cyclesDropped, r.failures ++ r'.failures⟩

instance : Zero ImportReport where
  zero := {}

instance : AddMonoid ImportReport where
  add_assoc _ _ _ := ImportReport.ext (Nat.add_assoc ..) (Nat.add_assoc ..) (Nat.add_assoc ..)
    (Nat.add_assoc ..) (Nat.add_assoc ..) (List.append_assoc ..)
  zero_add _ := ImportReport.ext (Nat.zero_add _) (Nat.zero_add _) (Nat.zero_add _) (Nat.zero_add _)
    (Nat.zero_add _) (List.nil_append _)
  add_zero _ := ImportReport.ext rfl rfl rfl rfl rfl (List.append_nil _)
  nsmul := nsmulRec

variable (r : ImportReport) (n n' : Nat) (os os' : List LinkOutcome)
  (fs fs' : List (String × Failure))

theorem of_add_of : of n os fs + of n' os' fs' = of (n + n') (os ++ os') (fs ++ fs') :=
  ImportReport.ext rfl List.count_append.symm List.count_append.symm List.count_append.symm
    List.countP_append.symm rfl

theorem record_eq (o : LinkOutcome) : r.record o = r + of 0 [o] [] := by
  cases o <;> exact ImportReport.ext rfl rfl rfl rfl rfl (List.append_nil _).symm

theorem fail_eq (label : String) (failure : Failure) :
    r.fail label failure = r + of 0 [] [(label, failure)] :=
  rfl

theorem countDocument_eq : r.countDocument = r + of 1 [] [] :=
  ImportReport.ext rfl rfl rfl rfl rfl (List.append_nil _).symm

theorem of_outcomes : (of n os fs).created + (of n os fs).updated + (of n os fs).unchanged +
    (of n os fs).cyclesDropped = os.length := by
  induction os with
  | nil => rfl
  | cons o os ih =>
    cases o <;> simp [of, List.countP_cons, LinkOutcome.isCycleDropped] at ih ⊢ <;> omega

end ImportReport

/-! ### Trials -/

/-- A link that has been tried, and what came of it. -/
structure LinkTrial (ι : Type) where
  link : Link ι
  result : Except Failure LinkOutcome

/-- A document that has been tried: it was not put, or its links have been tried. -/
structure DocumentTrial (ι : Type) where
  document : Document ι
  result : Except Failure (List (LinkTrial ι))

namespace LinkTrial

variable (e : Entity ι) (t : LinkTrial ι)

def outcome? : Option LinkOutcome :=
  t.result.toOption

def failed : Bool :=
  t.outcome?.isNone

/-- The failure of a link of an entity, as it is reported. -/
def failure? : Option (String × Failure) :=
  match t.result with
  | .ok _ => none
  | .error failure => some (Catalog.linkLabel e t.link, failure)

end LinkTrial

namespace DocumentTrial

variable (t : DocumentTrial ι)

def isPut : Bool :=
  t.result.toBool

def links : List (LinkTrial ι) :=
  match t.result with
  | .ok links => links
  | .error _ => []

def outcomes : List LinkOutcome :=
  t.links.filterMap LinkTrial.outcome?

/-- What is reported of failures: that of the document, or those of its links. -/
def failures : List (String × Failure) :=
  match t.result with
  | .ok links => links.filterMap (LinkTrial.failure? t.document.entity)
  | .error failure => [(t.document.label, failure)]

end DocumentTrial

namespace ImportReport

def on (trials : List (DocumentTrial ι)) : ImportReport :=
  .of (trials.countP DocumentTrial.isPut) (trials.flatMap DocumentTrial.outcomes)
    (trials.flatMap DocumentTrial.failures)

theorem on_cons (t : DocumentTrial ι) (ts : List (DocumentTrial ι)) :
    on (t :: ts) = on [t] + on ts := by
  unfold on
  rw [of_add_of, ← List.countP_append, ← List.flatMap_append, ← List.flatMap_append]
  rfl

/-- A report accounts for documents and for what came of them: the documents that were put and those
that were not are all of them, the links that were tried are those of the documents that were put,
each of them counted or failed, and the failures are listed in the order of the trials. -/
structure Accounts (report : ImportReport) (documents : List (Document ι))
    (trials : List (DocumentTrial ι)) : Prop where
  tried : trials.map (·.document) = documents
  triedLinks : (trials.flatMap DocumentTrial.links).map (·.link) =
    (trials.filter DocumentTrial.isPut).flatMap (·.document.links)
  documents : report.documents + trials.countP (fun t => !t.isPut) = documents.length
  links : report.created + report.updated + report.unchanged + report.cyclesDropped +
      (trials.flatMap DocumentTrial.links).countP LinkTrial.failed =
    ((trials.filter DocumentTrial.isPut).flatMap (·.document.links)).length
  failures : report.failures = trials.flatMap DocumentTrial.failures

end ImportReport

/-! ### Trying documents -/

namespace Catalog

variable {c c' : Catalog}

/-- Tries links of a stored entity one after the other. -/
def tryLinks (c : Catalog) (stored : Entity StoredId) : List (Link ι) → List (LinkTrial ι) × Catalog
  | [] => ([], c)
  | link :: links =>
    let (result, c) := c.importLink stored link
    let (trials, c) := c.tryLinks stored links
    (⟨link, result⟩ :: trials, c)

/-- Tries a document: its entity is put, and then its links are tried. -/
def tryDocument (c : Catalog) (d : Document ι) : DocumentTrial ι × Catalog :=
  match c.storeEntity d.entity with
  | .error failure => (⟨d, .error failure⟩, c)
  | .ok (stored, c) =>
    let (trials, c) := c.tryLinks stored d.links
    (⟨d, .ok trials⟩, c)

def tryDocuments (c : Catalog) : List (Document ι) → List (DocumentTrial ι) × Catalog
  | [] => ([], c)
  | d :: ds =>
    let (trial, c) := c.tryDocument d
    let (trials, c) := c.tryDocuments ds
    (trial :: trials, c)

namespace Orderly

theorem tryLinks (h : c.Orderly) (stored : Entity StoredId) (links : List (Link ι)) :
    (c.tryLinks stored links).2.Orderly := by
  induction links generalizing c with
  | nil => exact h
  | cons link links ih => exact ih ((importStable stored).importLink h link).1

theorem tryDocument (h : c.Orderly) (d : Document ι) : (c.tryDocument d).2.Orderly := by
  unfold Catalog.tryDocument
  split
  · exact h
  · rename_i stored c' hput
    exact (h.storeEntity hput).tryLinks stored d.links

theorem tryDocuments (h : c.Orderly) (documents : List (Document ι)) :
    (c.tryDocuments documents).2.Orderly := by
  induction documents generalizing c with
  | nil => exact h
  | cons d documents ih => exact ih (h.tryDocument d)

/-! ### The report is the one on the trials -/

theorem importLinks_eq (h : c.Orderly) (e : Entity ι) (stored : Entity StoredId)
    (report : ImportReport) (links : List (Link ι)) :
    importLinks e stored (c, report) links = .ok ((c.tryLinks stored links).2,
      report + .of 0 ((c.tryLinks stored links).1.filterMap LinkTrial.outcome?)
        ((c.tryLinks stored links).1.filterMap (LinkTrial.failure? e))) := by
  induction links generalizing c report with
  | nil => exact congrArg (fun r => Except.ok (c, r)) (add_zero report).symm
  | cons link links ih =>
    obtain ⟨hc', hfatal⟩ := (importStable stored).importLink h link
    rw [importLinks]
    split
    · rename_i outcome c' himport
      rw [himport] at hc'
      simp only [Catalog.tryLinks, himport]
      -- what the link adds goes to what the other links add
      rw [ih hc', ImportReport.record_eq, add_assoc, ImportReport.of_add_of]
      rfl
    · rename_i cycle c' himport
      exact absurd (congrArg Prod.fst himport) (hfatal cycle)
    · rename_i failure c' hother himport
      rw [himport] at hc'
      simp only [Catalog.tryLinks, himport]
      rw [ih hc', ImportReport.fail_eq, add_assoc, ImportReport.of_add_of]
      rfl

theorem importDocument_eq (h : c.Orderly) (report : ImportReport) (d : Document ι) :
    importDocument (c, report) d =
      .ok ((c.tryDocument d).2, report + .on [(c.tryDocument d).1]) := by
  unfold importDocument
  split
  · rename_i cycle hput
    exact absurd hput (storeEntity_ne_fatalState _ cycle)
  · rename_i failure hother hput
    simp only [Catalog.tryDocument, hput]
    rfl
  · rename_i stored c' hput
    rw [(h.storeEntity hput).importLinks_eq d.entity stored report d.links]
    simp only [Catalog.tryDocument, hput]
    dsimp only [Except.map]
    rw [ImportReport.countDocument_eq, add_assoc, ImportReport.of_add_of]
    rfl

theorem importDocuments_eq (h : c.Orderly) (report : ImportReport) (documents : List (Document ι)) :
    documents.foldlM importDocument (c, report) =
      .ok ((c.tryDocuments documents).2, report + .on (c.tryDocuments documents).1) := by
  induction documents generalizing c report with
  | nil => exact congrArg (fun r => Except.ok (c, r)) (add_zero report).symm
  | cons d documents ih =>
    rw [List.foldlM_cons, h.importDocument_eq report d]
    refine (ih (h.tryDocument d) _).trans ?_
    rw [add_assoc, ← ImportReport.on_cons]
    rfl

theorem importAll_eq (h : c.Orderly) (documents : List (Document ι)) :
    c.importAll documents =
      .ok ((c.tryDocuments documents).2, .on (c.tryDocuments documents).1) := by
  rw [importAll_eq_ok (guardWrite_of_acyclic h.acyclic)]
  refine (h.importDocuments_eq {} documents).trans ?_
  exact congrArg (fun r => Except.ok (_, r)) (zero_add _)

end Orderly

/-! ### Rows -/

theorem length_writeBetween {existing : Option StoredLink} {kind : LinkKind} {a b : StoredId}
    {relation : Relation} {outcome : LinkOutcome}
    (h : c.writeBetween existing kind a b relation = .ok (outcome, c')) :
    c'.store.links.length = c.store.links.length + [outcome].count .created := by
  cases existing with
  | some old =>
    rw [writeBetween, writeLink_eq] at h
    obtain ⟨store, hupdate, hc'⟩ := map_eq_ok.1 h
    cases hc'
    exact Store.length_updateLink hupdate
  | none =>
    rw [writeBetween_none] at h
    obtain ⟨store, hinsert, hc'⟩ := map_eq_ok.1 h
    cases hc'
    rw [(Store.insertLink_ok hinsert).2]
    exact List.length_append

/-- How linking goes on when both ends have been found. -/
theorem length_decided {same : Bool} {check : Except Failure (Option (List Vertex))}
    {existing : Option StoredLink} {kind : LinkKind} {a b : StoredId} {relation : Relation}
    {outcome : LinkOutcome}
    (h : (if same then Except.ok (.unchanged, c)
      else match check with
        | .error failure => .error failure
        | .ok (some cycle) => .ok (.cycleDropped cycle, c)
        | .ok none => c.writeBetween existing kind a b relation) = .ok (outcome, c')) :
    c'.store.links.length = c.store.links.length + [outcome].count .created := by
  split at h
  · cases h
    rfl
  split at h
  · cases h
  · cases h
    rfl
  · exact length_writeBetween h

theorem length_joinRequirements {a b : StoredId} {relation : Relation} {outcome : LinkOutcome}
    (h : c.joinRequirements a b relation = .ok (outcome, c')) :
    c'.store.links.length = c.store.links.length + [outcome].count .created := by
  unfold joinRequirements at h
  split at h
  · cases h
  split at h
  · cases h
  exact length_decided h

theorem length_joinNode {a b : StoredId} {relation : Relation} {outcome : LinkOutcome}
    (h : c.joinNode a b relation = .ok (outcome, c')) :
    c'.store.links.length = c.store.links.length + [outcome].count .created := by
  unfold joinNode at h
  split at h
  · cases h
  split at h
  · cases h
  exact length_decided h

theorem length_joinEntities {stored peer : Entity StoredId} {relation : Relation}
    {outcome : LinkOutcome} (h : c.joinEntities stored peer relation = .ok (outcome, c')) :
    c'.store.links.length = c.store.links.length + [outcome].count .created := by
  unfold joinEntities at h
  split at h
  · exact length_joinRequirements h
  · exact length_joinNode h
  · exact length_joinNode h
  · cases h

theorem length_importLink (c : Catalog) (stored : Entity StoredId) (link : Link ι) :
    (c.importLink stored link).2.store.links.length =
      c.store.links.length + (c.importLink stored link).1.toOption.toList.count .created := by
  unfold importLink
  split
  · rfl
  · rename_i peer c₁ hput
    have hlinks : c₁.store.links = c.store.links := (storeEntity_ok hput).1
    split
    · exact congrArg List.length hlinks
    · rename_i outcome c₂ hjoin
      rw [← hlinks]
      exact length_joinEntities hjoin

theorem length_tryLinks (c : Catalog) (stored : Entity StoredId) (links : List (Link ι)) :
    (c.tryLinks stored links).2.store.links.length = c.store.links.length +
      ((c.tryLinks stored links).1.filterMap LinkTrial.outcome?).count .created := by
  induction links generalizing c with
  | nil => rfl
  | cons link links ih =>
    have hlink := c.length_importLink stored link
    simp only [tryLinks]
    rw [ih, hlink, Nat.add_assoc, ← List.count_append]
    cases (c.importLink stored link).1 <;> rfl

theorem length_tryDocument (c : Catalog) (d : Document ι) :
    (c.tryDocument d).2.store.links.length =
      c.store.links.length + (c.tryDocument d).1.outcomes.count .created := by
  unfold tryDocument
  split
  · rfl
  · rename_i stored c₁ hput
    rw [← (storeEntity_ok hput).1]
    exact c₁.length_tryLinks stored d.links

/-- There are as many more rows as links are counted as created. -/
theorem length_tryDocuments (c : Catalog) (documents : List (Document ι)) :
    (c.tryDocuments documents).2.store.links.length =
      c.store.links.length + (ImportReport.on (c.tryDocuments documents).1).created := by
  induction documents generalizing c with
  | nil => rfl
  | cons d documents ih =>
    show ((c.tryDocument d).2.tryDocuments documents).2.store.links.length = _
    rw [ih, length_tryDocument, Nat.add_assoc]
    exact congrArg _ List.count_append.symm

/-! ### The accounts -/

theorem tryLinks_link (c : Catalog) (stored : Entity StoredId) (links : List (Link ι)) :
    (c.tryLinks stored links).1.map (·.link) = links := by
  induction links generalizing c with
  | nil => rfl
  | cons link links ih => exact congrArg (link :: ·) (ih _)

theorem tryDocument_document (c : Catalog) (d : Document ι) : (c.tryDocument d).1.document = d := by
  unfold tryDocument
  split <;> rfl

theorem tryDocument_links (c : Catalog) (d : Document ι) :
    (c.tryDocument d).1.links.map (·.link) =
      if (c.tryDocument d).1.isPut then d.links else [] := by
  unfold tryDocument
  split
  · rfl
  · exact tryLinks_link ..

theorem tryDocuments_document (c : Catalog) (documents : List (Document ι)) :
    (c.tryDocuments documents).1.map (·.document) = documents := by
  induction documents generalizing c with
  | nil => rfl
  | cons d documents ih => exact congrArg₂ _ (c.tryDocument_document d) (ih _)

theorem tryDocuments_links (c : Catalog) (documents : List (Document ι)) :
    ((c.tryDocuments documents).1.flatMap DocumentTrial.links).map (·.link) =
      ((c.tryDocuments documents).1.filter DocumentTrial.isPut).flatMap (·.document.links) := by
  induction documents generalizing c with
  | nil => rfl
  | cons d documents ih =>
    show (((c.tryDocument d).1 :: ((c.tryDocument d).2.tryDocuments documents).1).flatMap
      DocumentTrial.links).map _ = (((c.tryDocument d).1 ::
        ((c.tryDocument d).2.tryDocuments documents).1).filter _).flatMap _
    rw [List.flatMap_cons, List.map_append, ih, tryDocument_links, List.filter_cons]
    split
    · rw [List.flatMap_cons, tryDocument_document]
    · rfl

/-- Every link that was tried has an outcome or has failed. -/
theorem length_outcomes (trials : List (DocumentTrial ι)) :
    (trials.flatMap DocumentTrial.outcomes).length +
        (trials.flatMap DocumentTrial.links).countP LinkTrial.failed =
      (trials.flatMap DocumentTrial.links).length := by
  have houtcomes : trials.flatMap DocumentTrial.outcomes =
      (trials.flatMap DocumentTrial.links).filterMap LinkTrial.outcome? :=
    List.filterMap_flatMap.symm
  rw [houtcomes, List.length_filterMap_eq_countP]
  refine Eq.trans (congrArg _ (List.countP_congr fun t _ => ?_))
    (List.length_eq_countP_add_countP _).symm
  simp [LinkTrial.failed]

/-- The report on the trials accounts for them. -/
theorem accounts_tryDocuments (c : Catalog) (documents : List (Document ι)) :
    (ImportReport.on (c.tryDocuments documents).1).Accounts documents
      (c.tryDocuments documents).1 := by
  have htried := c.tryDocuments_document documents
  have hlinks := c.tryDocuments_links documents
  refine ⟨htried, hlinks, ?_, ?_, rfl⟩
  · -- a document was put or it was not
    rw [← congrArg List.length htried, List.length_map]
    refine Eq.trans (congrArg _ (List.countP_congr fun t _ => ?_))
      (List.length_eq_countP_add_countP DocumentTrial.isPut).symm
    simp
  · rw [← hlinks, List.length_map, ImportReport.on, ImportReport.of_outcomes]
    exact length_outcomes _

/-- A document that is not put changes nothing. -/
theorem Orderly.importAll_of_error (h : c.Orderly) {d : Document ι} {failure : Failure}
    (hput : c.storeEntity d.entity = .error failure) :
    c.importAll [d] = .ok (c, .of 0 [] [(d.label, failure)]) := by
  have htry : c.tryDocument d = (⟨d, .error failure⟩, c) := by
    unfold Catalog.tryDocument
    rw [hput]
  rw [h.importAll_eq [d]]
  simp only [Catalog.tryDocuments, htry]
  rfl

/-! ### One document after the other -/

/-- Imports a document by itself and adds what is reported. -/
def importNext (state : Catalog × ImportReport) (d : Document ι) :
    Except Failure (Catalog × ImportReport) :=
  (state.1.importAll [d]).map fun (c, report) => (c, state.2 + report)

theorem Orderly.importNext_eq (h : c.Orderly) (report : ImportReport) (d : Document ι) :
    importNext (c, report) d = .ok ((c.tryDocument d).2, report + .on [(c.tryDocument d).1]) := by
  rw [importNext, h.importAll_eq [d]]
  rfl

theorem Orderly.importEach_eq (h : c.Orderly) (report : ImportReport)
    (documents : List (Document ι)) :
    documents.foldlM importNext (c, report) =
      .ok ((c.tryDocuments documents).2, report + .on (c.tryDocuments documents).1) := by
  induction documents generalizing c report with
  | nil => exact congrArg (fun r => Except.ok (c, r)) (add_zero report).symm
  | cons d documents ih =>
    rw [List.foldlM_cons, h.importNext_eq report d]
    refine (ih (h.tryDocument d) _).trans ?_
    rw [add_assoc, ← ImportReport.on_cons]
    rfl

/-- What an import comes to in a catalogue that has been opened on links of any origin, each of them
once and in plain spelling, without a cycle among them, and used after that. It ends well, and its
report accounts for every document and every link; as many rows come in as links were created;
importing the documents one by one comes to the same; and a document that is not put, whenever it is
tried, changes nothing. -/
theorem importAll_accounts {s : Store} (h : s.LinksOnce) (hacyclic : Graph.Acyclic s.hierarchy)
    (itemsPerPage : Nat) (ops : List (Operation κ)) (documents : List (Document ι)) :
    let c := (ofStore s itemsPerPage).run ops
    let trials := (c.tryDocuments documents).1
    let c' := (c.tryDocuments documents).2
    let report := ImportReport.on trials
    c.importAll documents = .ok (c', report) ∧ report.Accounts documents trials ∧
      c'.store.links.length = c.store.links.length + report.created ∧
      documents.foldlM importNext (c, 0) = .ok (c', report) ∧
      ∀ (d : Document ι) (failure : Failure), c'.storeEntity d.entity = .error failure →
        c'.importAll [d] = .ok (c', .of 0 [] [(d.label, failure)]) := by
  intro c trials c' report
  have hc : c.Orderly := (orderly_ofStore h hacyclic itemsPerPage).changes (changes_run _ ops)
  refine ⟨hc.importAll_eq documents, c.accounts_tryDocuments documents,
    c.length_tryDocuments documents, ?_, fun _ _ => (hc.tryDocuments documents).importAll_of_error⟩
  rw [hc.importEach_eq, zero_add]

/-- Two containments in a row, the second one put as a part. -/
def chain : List (Operation Unit) :=
  [.putRequirement ⟨(), none, "Access", "", .empty⟩,
    .putRequirement ⟨(), none, "Login", "", .empty⟩,
    .putRequirement ⟨(), none, "Session", "", .empty⟩,
    .linkRequirements (.ofSerial 0) (.ofSerial 1) .contains,
    .linkRequirements (.ofSerial 2) (.ofSerial 1) .partOf]

/-- A document without a name, one with a link for every outcome and one whose peer has no name, and
a node that is linked with a node. -/
def mixed : List (Document Unit) :=
  let named (name : String) : Document Unit := .ofRequirement ⟨(), none, name, "", .empty⟩
  let standard : Document Unit := .ofNode ⟨(), "ASVS", "", .empty, .standard "V3" "" "" ""⟩
  [.mk (.requirement ⟨(), none, " ", "", .empty⟩) [.mk .related (named "Access")],
    .mk (.requirement ⟨(), none, "Access", "", .empty⟩)
      [.mk .contains (named "Login"), .mk .partOf (named "Session"), .mk .related (named ""),
        .mk .related (named "Token"), .mk .related (named "Login")],
    .mk standard.entity [.mk .related standard]]

theorem importAll_accounts_mixed :
    let s := Store.startingAt 0
    let c := (ofStore s 20).run chain
    let report : ImportReport := {
      documents := 2
      created := 1
      updated := 1
      unchanged := 1
      cyclesDropped := 1
      failures := [("CRE ( )", .emptyName), ("CRE (Access) Related CRE ()", .emptyName),
        ("Standard ASVS:V3 Related Standard ASVS:V3", .nodeToNode)] }
    s.LinksOnce ∧ Graph.Acyclic s.hierarchy ∧
      ∃ c', c.importAll mixed = .ok (c', report) ∧
        c'.store.links.length = c.store.links.length + 1 ∧
        mixed.foldlM importNext (c, 0) = .ok (c', report) := by
  intro s c report
  have honce : s.LinksOnce := (sound_startingAt 0).linksOnce
  have hacyclic : Graph.Acyclic s.hierarchy := by decide +kernel
  have hreport : ImportReport.on (c.tryDocuments mixed).1 = report :=
    ImportReport.ext (by decide +kernel) (by decide +kernel) (by decide +kernel)
      (by decide +kernel) (by decide +kernel) (by decide +kernel)
  obtain ⟨himport, -, hrows, heach, -⟩ := importAll_accounts honce hacyclic 20 chain mixed
  rw [hreport] at himport hrows heach
  exact ⟨honce, hacyclic, _, himport, hrows, heach⟩

end Catalog

end Crosswalk
