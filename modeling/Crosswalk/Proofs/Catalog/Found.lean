import Crosswalk.Catalog.Lookup
import Crosswalk.Proofs.Catalog.Run
import Crosswalk.Proofs.Store.TagText

/-!
# What is found

A search for a text goes through the fields of an entity and through what is written for its tags; a
search for tags goes through what is written for them before it goes through the tags themselves.
Fields are never missed. Tags are searched as faithfully as they are written, and so quotation
marks, the seams between tags and what has to be escaped are in the way.
-/

namespace Crosswalk

namespace Text

def PartOf (a b : String) : Prop :=
  a.toList <:+: b.toList

/-- The first text is a part of the second one when the case of ASCII letters is ignored. -/
def FoldedPartOf (a b : String) : Prop :=
  PartOf (lower a) (lower b)

instance (a b : String) : Decidable (PartOf a b) :=
  inferInstanceAs (Decidable (a.toList <:+: b.toList))

instance (a b : String) : Decidable (FoldedPartOf a b) :=
  inferInstanceAs (Decidable (PartOf (lower a) (lower b)))

theorem contains_iff {a b : String} : contains a b = true ↔ PartOf a b :=
  occursIn_iff

theorem toList_lower (s : String) : (lower s).toList = s.toList.map Char.toLower :=
  String.toList_ofList

end Text

/-- A requirement with two tags, one of them with quotation marks, and a node without tags. -/
def Catalog.labelled : List (Operation Unit) :=
  [.putRequirement ⟨(), none, "Access", "", .ofList ["say \"yes\"", "web"]⟩,
    .putNode ⟨(), "ASVS", "", .empty, .standard "1" "" "" ""⟩]

namespace Store

variable {s : Store} {q : String} {wanted fields : List String} {tags : TagSet}
  {r : Requirement StoredId} {n : Node StoredId}

theorem mem_selectedRequirements {p : Requirement StoredId → Bool} :
    r ∈ sortRequirements (s.requirements.filter p) ↔ r ∈ s.requirements ∧ p r = true := by
  rw [sortRequirements, Text.mem_sortOn, List.mem_filter]

theorem mem_selectedNodes {p : Node StoredId → Bool} :
    n ∈ sortNodes (s.nodes.filter p) ↔ n ∈ s.nodes ∧ p n = true := by
  rw [sortNodes, Text.mem_sortOn, List.mem_filter]

/-! ### In any field -/

/-- An entity mentions a text in one of its fields or tags, in any case of ASCII letters. -/
def Mentions (q : String) (fields : List String) (tags : TagSet) : Prop :=
  (∃ field ∈ fields, Text.FoldedPartOf q field) ∨ ∃ tag ∈ tags.toList, Text.FoldedPartOf q tag

instance (q : String) (fields : List String) (tags : TagSet) : Decidable (Mentions q fields tags) :=
  inferInstanceAs (Decidable ((∃ field ∈ fields, Text.FoldedPartOf q field) ∨
    ∃ tag ∈ tags.toList, Text.FoldedPartOf q tag))

/-- Whether searching for a text in what is written for some tags, in any case of ASCII letters,
comes to searching in the tags. -/
def SoughtIn (q : String) (tags : TagSet) : Prop :=
  Sought (q.toList.map Char.toLower) (tags.toList.map fun tag => tag.toList.map Char.toLower)

instance (q : String) (tags : TagSet) : Decidable (SoughtIn q tags) :=
  inferInstanceAs (Decidable (Sought _ _))

/-- The fields apart from the tags. -/
def requirementTexts (r : Requirement StoredId) : List String :=
  [r.externalText, r.name, r.description]

def nodeTexts (n : Node StoredId) : List String :=
  [n.kind.text, n.name, n.sectionTitle, n.subsection, n.sectionId, n.version, n.description,
    toolTypeText n, n.hyperlink]

theorem foldedPartOf_tagsText (h : SoughtIn q tags) :
    Text.FoldedPartOf q (tagsText tags) ↔ ∃ tag ∈ tags.toList, Text.FoldedPartOf q tag := by
  have hwritten := h.infix_writtenTags_iff
  simp only [List.mem_map, exists_exists_and_eq_and] at hwritten
  unfold Text.FoldedPartOf Text.PartOf
  simp only [Text.toList_lower, toList_tagsText, writtenTags_map_toLower, List.map_map]
  exact hwritten

/-- A tag with a text that is kept by escaping is found in what is written. -/
theorem foldedPartOf_tagsText_of_kept (hkept : Json.Kept (q.toList.map Char.toLower))
    (h : ∃ tag ∈ tags.toList, Text.FoldedPartOf q tag) :
    Text.FoldedPartOf q (tagsText tags) := by
  obtain ⟨tag, htag, hpart⟩ := h
  unfold Text.FoldedPartOf Text.PartOf at hpart ⊢
  rw [Text.toList_lower, Text.toList_lower] at hpart
  rw [Text.toList_lower, Text.toList_lower, toList_tagsText, writtenTags_map_toLower, List.map_map]
  exact (hkept.infix_escaped hpart).trans (infix_writtenTags_of_mem (List.mem_map_of_mem htag))

theorem any_containsFolded_iff :
    fields.any (Text.containsFolded q) = true ↔ ∃ field ∈ fields, Text.FoldedPartOf q field := by
  simp only [List.any_eq_true, Text.containsFolded, Text.contains_iff]
  rfl

/-- The tags as they are written are the last of the fields. -/
theorem exists_field_iff :
    (∃ field ∈ fields ++ [tagsText tags], Text.FoldedPartOf q field) ↔
      (∃ field ∈ fields, Text.FoldedPartOf q field) ∨ Text.FoldedPartOf q (tagsText tags) := by
  simp only [List.mem_append, List.mem_singleton, or_and_right, exists_or, exists_eq_left]

theorem mem_searchRequirements :
    r ∈ s.searchRequirements q ↔ r ∈ s.requirements ∧
      ((∃ field ∈ requirementTexts r, Text.FoldedPartOf q field) ∨
        Text.FoldedPartOf q (tagsText r.tags)) := by
  rw [searchRequirements, mem_selectedRequirements, any_containsFolded_iff, ← exists_field_iff]
  rfl

theorem mem_searchNodes :
    n ∈ s.searchNodes q ↔ n ∈ s.nodes ∧
      ((∃ field ∈ nodeTexts n, Text.FoldedPartOf q field) ∨
        Text.FoldedPartOf q (tagsText n.tags)) := by
  rw [searchNodes, mem_selectedNodes, any_containsFolded_iff, ← exists_field_iff]
  rfl

/-- A search in any field finds stored entities, each once. An entity with the text in a field other
than its tags is found whatever the text is, and one that mentions it in a tag is found if the text
is kept by escaping. Where searching in what is written for its tags comes to searching in the tags,
an entity is found exactly if it mentions the text. -/
theorem search_mentions (s : Store) (q : String) :
    (∃ p, (s.searchRequirements q).Perm (s.requirements.filter p)) ∧
    (∃ p, (s.searchNodes q).Perm (s.nodes.filter p)) ∧
    (∀ r ∈ s.requirements,
      ((∃ field ∈ requirementTexts r, Text.FoldedPartOf q field) → r ∈ s.searchRequirements q) ∧
        (Json.Kept (q.toList.map Char.toLower) → Mentions q (requirementTexts r) r.tags →
          r ∈ s.searchRequirements q) ∧
        (SoughtIn q r.tags →
          (r ∈ s.searchRequirements q ↔ Mentions q (requirementTexts r) r.tags))) ∧
    ∀ n ∈ s.nodes,
      ((∃ field ∈ nodeTexts n, Text.FoldedPartOf q field) → n ∈ s.searchNodes q) ∧
        (Json.Kept (q.toList.map Char.toLower) → Mentions q (nodeTexts n) n.tags →
          n ∈ s.searchNodes q) ∧
        (SoughtIn q n.tags → (n ∈ s.searchNodes q ↔ Mentions q (nodeTexts n) n.tags)) := by
  refine ⟨⟨_, Text.sortOn_perm _ _⟩, ⟨_, Text.sortOn_perm _ _⟩,
    fun r hr => ⟨fun hfield => ?_, fun hkept hmentions => ?_, fun hsought => ?_⟩,
    fun n hn => ⟨fun hfield => ?_, fun hkept hmentions => ?_, fun hsought => ?_⟩⟩
  · exact mem_searchRequirements.2 ⟨hr, .inl hfield⟩
  · exact mem_searchRequirements.2 ⟨hr, hmentions.imp_right (foldedPartOf_tagsText_of_kept hkept)⟩
  · rw [mem_searchRequirements, foldedPartOf_tagsText hsought]
    exact and_iff_right hr
  · exact mem_searchNodes.2 ⟨hn, .inl hfield⟩
  · exact mem_searchNodes.2 ⟨hn, hmentions.imp_right (foldedPartOf_tagsText_of_kept hkept)⟩
  · rw [mem_searchNodes, foldedPartOf_tagsText hsought]
    exact and_iff_right hn

/-- A tag in another case is found next to quotation marks, and so is a part of a name. -/
theorem search_mentions_labelled :
    let s := ((Catalog.fresh 0 20).run Catalog.labelled).store
    (∃ r ∈ s.requirements, SoughtIn "YES" r.tags ∧ r ∈ s.searchRequirements "YES") ∧
      ∃ n ∈ s.nodes, SoughtIn "sv" n.tags ∧ n ∈ s.searchNodes "sv" := by
  intro s
  obtain ⟨-, -, hrequirements, -⟩ := search_mentions s "YES"
  have hstored : ∃ r ∈ s.requirements, SoughtIn "YES" r.tags ∧
      Mentions "YES" (requirementTexts r) r.tags := by decide +kernel
  have hnode : ∃ n ∈ s.nodes, SoughtIn "sv" n.tags ∧ Mentions "sv" (nodeTexts n) n.tags := by
    decide +kernel
  obtain ⟨r, hr, hsought, hmentions⟩ := hstored
  obtain ⟨n, hn, hnsought, hnmentions⟩ := hnode
  refine ⟨⟨r, hr, hsought, ((hrequirements r hr).2.2 hsought).2 hmentions⟩, n, hn, hnsought, ?_⟩
  exact (((search_mentions s "sv").2.2.2 n hn).2.2 hnsought).2 hnmentions

/-- An entity without tags is found by the brackets around them, and a tag with quotation marks is
not found by these. -/
theorem exists_search_misled :
    let s := ((Catalog.fresh 0 20).run Catalog.labelled).store
    (∃ n ∈ s.nodes, n ∈ s.searchNodes "[]" ∧ ¬ Mentions "[]" (nodeTexts n) n.tags) ∧
      ∃ r ∈ s.requirements, r ∉ s.searchRequirements "y \"yes" ∧
        Mentions "y \"yes" (requirementTexts r) r.tags := by
  intro s
  simp only [mem_searchNodes, mem_searchRequirements]
  decide +kernel

/-! ### By tags -/

/-- Every wanted text is a part of one of the tags. -/
def HasEach (wanted : List String) (tags : TagSet) : Prop :=
  ∀ w ∈ wanted, ∃ tag ∈ tags.toList, Text.PartOf w tag

/-- Whether wanted texts are found in what is written for the tags that have them: each is kept by
escaping, or nothing in the tags is escaped. -/
def Findable (wanted : List String) (tags : TagSet) : Prop :=
  ∀ w ∈ wanted, Json.Kept w.toList ∨ ∀ tag ∈ tags.toList, Json.Unescaped tag.toList

instance (wanted : List String) (tags : TagSet) : Decidable (HasEach wanted tags) :=
  inferInstanceAs (Decidable (∀ w ∈ wanted, ∃ tag ∈ tags.toList, Text.PartOf w tag))

instance (wanted : List String) (tags : TagSet) : Decidable (Findable wanted tags) :=
  inferInstanceAs (Decidable (∀ w ∈ wanted, Json.Kept w.toList ∨
    ∀ tag ∈ tags.toList, Json.Unescaped tag.toList))

theorem hasTags_iff : hasTags wanted tags = true ↔
    (∀ w ∈ wanted, Text.PartOf w (tagsText tags)) ∧ HasEach wanted tags := by
  simp only [hasTags, Bool.and_eq_true, List.all_eq_true, List.any_eq_true, Text.contains_iff]
  rfl

/-- What the tags have is found in what is written for them. -/
theorem Findable.partOf_tagsText (h : Findable wanted tags) (heach : HasEach wanted tags)
    {w : String} (hw : w ∈ wanted) : Text.PartOf w (tagsText tags) := by
  obtain ⟨tag, htag, hpart⟩ := heach w hw
  have hwritten : Json.escaped tag.toList <:+: (tagsText tags).toList := by
    rw [toList_tagsText]
    exact infix_writtenTags_of_mem (List.mem_map_of_mem htag)
  refine List.IsInfix.trans ?_ hwritten
  rcases h w hw with hkept | hplain
  · exact hkept.infix_escaped hpart
  · rw [(hplain tag htag).escaped_eq]
    exact hpart

theorem Findable.hasTags_iff (h : Findable wanted tags) :
    hasTags wanted tags = true ↔ HasEach wanted tags := by
  rw [Store.hasTags_iff]
  exact and_iff_right_of_imp fun heach _ hw => h.partOf_tagsText heach hw

theorem tagged_eq (hsome : wanted ≠ []) (hfew : wanted.length ≤ maxWanted) :
    s.tagged wanted = .ok
      ((sortRequirements (s.requirements.filter fun r => hasTags wanted r.tags)).map .requirement ++
        (sortNodes (s.nodes.filter fun n => hasTags wanted n.tags)).map .node) := by
  rw [tagged, if_neg (by simpa using hsome), if_neg (Nat.not_lt.2 hfew)]

end Store

namespace Catalog

variable {wanted : List String}

/-- What is found by tags, unless too many are wanted: requirements before nodes, each stored entity
once, and none that does not have all the wanted tags. An entity that has them is found when they
are findable in what is written for its tags. -/
theorem findByTags_hasEach (c : Catalog) (hsome : wanted ≠ [])
    (hfew : wanted.length ≤ Store.maxWanted) :
    ∃ (rs : List (Requirement StoredId)) (ns : List (Node StoredId)),
      c.store.tagged wanted = .ok (rs.map .requirement ++ ns.map .node) ∧
      c.findByTags wanted =
        .ok ((rs.map Entity.requirement ++ ns.map Entity.node).map c.store.hydrate) ∧
      (∃ p, rs.Perm (c.store.requirements.filter p)) ∧ (∃ p, ns.Perm (c.store.nodes.filter p)) ∧
      (∀ r ∈ rs, Store.HasEach wanted r.tags) ∧ (∀ n ∈ ns, Store.HasEach wanted n.tags) ∧
      (∀ r ∈ c.store.requirements, Store.Findable wanted r.tags →
        Store.HasEach wanted r.tags → r ∈ rs) ∧
      ∀ n ∈ c.store.nodes, Store.Findable wanted n.tags → Store.HasEach wanted n.tags → n ∈ ns := by
  have htagged := Store.tagged_eq (s := c.store) hsome hfew
  refine ⟨_, _, htagged, by rw [findByTags, htagged]; rfl, ⟨_, Text.sortOn_perm _ _⟩,
    ⟨_, Text.sortOn_perm _ _⟩, fun r hr => ?_, fun n hn => ?_, fun r hr hfindable heach => ?_,
    fun n hn hfindable heach => ?_⟩
  · exact (Store.hasTags_iff.1 (Store.mem_selectedRequirements.1 hr).2).2
  · exact (Store.hasTags_iff.1 (Store.mem_selectedNodes.1 hn).2).2
  · exact Store.mem_selectedRequirements.2 ⟨hr, hfindable.hasTags_iff.2 heach⟩
  · exact Store.mem_selectedNodes.2 ⟨hn, hfindable.hasTags_iff.2 heach⟩

/-- What needs no escaping is found next to quotation marks. -/
theorem findByTags_hasEach_labelled :
    let c := (fresh 0 20).run labelled
    ∃ r ∈ c.store.requirements, ∃ (rs : List (Requirement StoredId)) (ns : List (Node StoredId)),
      c.store.tagged ["web", "yes"] = .ok (rs.map .requirement ++ ns.map .node) ∧
        r ∈ rs ∧ ns = [] := by
  intro c
  obtain ⟨rs, ns, htagged, -, -, ⟨p, hns⟩, -, hnodes, hfound, -⟩ :=
    findByTags_hasEach c (by decide : ["web", "yes"] ≠ []) (by decide)
  have hstored : ∃ r ∈ c.store.requirements, Store.Findable ["web", "yes"] r.tags ∧
      Store.HasEach ["web", "yes"] r.tags := by decide +kernel
  have hnone : ∀ n ∈ c.store.nodes, ¬ Store.HasEach ["web", "yes"] n.tags := by decide +kernel
  obtain ⟨r, hr, hfindable, heach⟩ := hstored
  refine ⟨r, hr, rs, ns, htagged, hfound r hr hfindable heach, ?_⟩
  refine List.eq_nil_iff_forall_not_mem.2 fun n hn => ?_
  exact hnone n (List.mem_of_mem_filter (hns.mem_iff.1 hn)) (hnodes n hn)

/-- A tag with quotation marks is missed by whoever asks for them. -/
theorem exists_tag_missed :
    let c := (fresh 0 20).run labelled
    c.store.tagged ["y \"yes"] = .ok [] ∧ c.findByTags ["y \"yes"] = .ok [] ∧
      ∃ r ∈ c.store.requirements, Store.HasEach ["y \"yes"] r.tags := by
  intro c
  have hempty : c.store.requirements.filter (fun r => Store.hasTags ["y \"yes"] r.tags) = [] ∧
      c.store.nodes.filter (fun n => Store.hasTags ["y \"yes"] n.tags) = [] := by decide +kernel
  have htagged : c.store.tagged ["y \"yes"] = .ok [] := by
    rw [Store.tagged_eq (by decide) (by decide), hempty.1, hempty.2, Store.sortRequirements,
      Store.sortNodes, (Text.sortOn_perm _ _).eq_nil, (Text.sortOn_perm _ _).eq_nil]
    rfl
  exact ⟨htagged, by rw [findByTags, htagged]; rfl, by decide +kernel⟩

end Catalog

end Crosswalk
