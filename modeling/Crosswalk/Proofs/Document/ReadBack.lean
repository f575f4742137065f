import Crosswalk.Proofs.Document.Texts
import Crosswalk.Proofs.Json

/-!
# Documents that are read back

A document that is written as JSON is read back as it is, with its identities and with all that is
nested in it. Fields that are left out come back as the blanks that they stand for. The order of the
fields does not count, neither in the document nor in those within it.
-/

namespace Crosswalk.Document

open Json (field? field?_cons field?_optional Rigid SameFound)

/-! ### What is found among written fields -/

section

variable {name other s : String}

@[simp]
theorem field?_textField : field? name (textField other s) =
    if name = other then (if s = "" then none else some (.text s)) else none :=
  field?_optional

@[simp]
theorem field?_tagsField {tags : TagSet} : field? name (tagsField tags) =
    if name = "tags" then (if tags.isEmpty then none else some (.ofTexts tags.toList)) else none :=
  field?_optional

@[simp]
theorem field?_linksField {links : List Json} : field? name (linksField links) =
    if name = "links" then (if links.isEmpty then none else some (.list links)) else none :=
  field?_optional

@[simp]
theorem field?_externalIdField {id : Option ExternalId} : field? name (externalIdField id) =
    if name = "external_id" then id.map fun id => .text id.text else none := by
  unfold externalIdField
  cases id with
  | none =>
    rw [Option.map_none, ite_self]
    rfl
  | some id => exact field?_cons _

end

/-! ### Reading single fields -/

section

variable {name s : String} {fs : List (String × Json)}

theorem readTextOr_of_field? (h : field? name fs = if s = "" then none else some (.text s)) :
    readTextOr name fs = some s := by
  unfold readTextOr
  rw [h]
  split
  · rename_i hs
    split at hs
    · rename_i hblank
      rw [hblank]
    · cases hs
  · rename_i j hj
    split at hj
    · cases hj
    · cases hj
      rfl

theorem readTags_of_field? {tags : TagSet}
    (h : field? "tags" fs = if tags.isEmpty then none else some (.ofTexts tags.toList)) :
    readTags fs = some tags := by
  unfold readTags
  rw [h]
  split
  · rename_i hnone
    split at hnone
    · rename_i hempty
      refine congrArg some (TagSet.ext_mem fun t => ?_)
      rw [List.isEmpty_iff.1 hempty]
      exact Iff.rfl
    · cases hnone
  · rename_i j hj
    split at hj
    · cases hj
    · cases hj
      rw [Json.texts?_ofTexts]
      exact congrArg some (TagSet.ofList_toList tags)

theorem readId_of_field? {id : Uuid} (h : field? name fs = some (.text id.text)) :
    readId name fs = some id := by
  unfold readId readText
  rw [h, Option.bind_some, Json.text?, Option.bind_some]
  exact id.ofText?_text

theorem readExternalId_of_field? {id : Option ExternalId}
    (h : field? "external_id" fs = id.map fun id => .text id.text) :
    readExternalId fs = some id := by
  unfold readExternalId
  rw [h]
  cases id with
  | none => rfl
  | some id =>
    simp only [Option.map_some, Json.text?, Option.bind_some, id.ofText?_text]

theorem readToolType_of_field? {type : ToolType} (h : field? "tool_type" fs = some (.text type.text)) :
    readToolType fs = some type := by
  unfold readToolType
  rw [h]
  cases type <;> rfl

end

/-! ### Reading entities -/

section

variable {fs gs : List (String × Json)} {type : Doctype}

/-- An entity is read without a look at the type of the document and at its links. -/
theorem readEntity_congr (h : ∀ name ∉ ["doctype", "links"], field? name gs = field? name fs) :
    readEntity type gs = readEntity type fs := by
  cases type with
  | requirement =>
    simp only [readEntity, readRequirement, readId, readText, readTextOr, readTags, readExternalId,
      h "internal_id" (by decide), h "external_id" (by decide), h "name" (by decide),
      h "description" (by decide), h "tags" (by decide)]
  | node =>
    simp only [readEntity, readNode, readDetail, readId, readText, readTextOr, readTags,
      readToolType, h "id" (by decide), h "name" (by decide), h "hyperlink" (by decide),
      h "tags" (by decide), h "kind" (by decide), h "section" (by decide),
      h "subsection" (by decide), h "section_id" (by decide), h "version" (by decide),
      h "rule_id" (by decide), h "tool_type" (by decide), h "description" (by decide)]

end

theorem readRequirement_entityFields (r : Requirement Uuid) :
    readRequirement (entityFields (.requirement r)) = some r := by
  have hid : readId "internal_id" (entityFields (.requirement r)) = some r.id :=
    readId_of_field? (by simp [entityFields])
  have hexternal : readExternalId (entityFields (.requirement r)) = some r.externalId :=
    readExternalId_of_field? (by simp [entityFields])
  have hname : readText "name" (entityFields (.requirement r)) = some r.name := by
    simp [readText, entityFields, Json.text?]
  have hdescription : readTextOr "description" (entityFields (.requirement r)) =
      some r.description :=
    readTextOr_of_field? (by simp [entityFields])
  have htags : readTags (entityFields (.requirement r)) = some r.tags :=
    readTags_of_field? (by simp [entityFields])
  simp [readRequirement, hid, hexternal, hname, hdescription, htags]

/-- The attributes of a node are read by its kind, whatever stands under the names of the fields that
all nodes have. -/
theorem readDetail_of_detailFields {fs : List (String × Json)} (detail : NodeDetail)
    (h : ∀ name ∉ ["id", "name", "hyperlink", "tags"],
      field? name fs = field? name (detailFields detail)) : readDetail fs = some detail := by
  have hkind : (field? "kind" fs).bind (Json.choice? NodeKind.all NodeKind.text true) =
      some detail.kind := by
    rw [h "kind" (by decide)]
    cases detail <;> simp [detailFields] <;> rfl
  have hread : ∀ name s, name ∉ ["id", "name", "hyperlink", "tags"] →
      field? name (detailFields detail) = (if s = "" then none else some (.text s)) →
      readTextOr name fs = some s :=
    fun name s hname hs => readTextOr_of_field? ((h name hname).trans hs)
  unfold readDetail
  rw [hkind]
  cases detail with
  | standard title subsection sectionId version =>
    have hsection := hread "section" title (by decide) (by simp [detailFields])
    have hsubsection := hread "subsection" subsection (by decide) (by simp [detailFields])
    have hid := hread "section_id" sectionId (by decide) (by simp [detailFields])
    have hversion := hread "version" version (by decide) (by simp [detailFields])
    simp [NodeDetail.kind, hsection, hsubsection, hid, hversion]
  | tool rule type description =>
    have hrule := hread "rule_id" rule (by decide) (by simp [detailFields])
    have htype : readToolType fs = some type :=
      readToolType_of_field? ((h _ (by decide)).trans (by simp [detailFields]))
    have hdescription := hread "description" description (by decide) (by simp [detailFields])
    simp [NodeDetail.kind, hrule, htype, hdescription]
  | code description =>
    have hdescription := hread "description" description (by decide) (by simp [detailFields])
    simp [NodeDetail.kind, hdescription]

theorem field?_detailFields {name : String} (h : name ∈ ["id", "name", "hyperlink", "tags"])
    (detail : NodeDetail) : field? name (detailFields detail) = none := by
  simp only [List.mem_cons, List.not_mem_nil, or_false] at h
  rcases h with rfl | rfl | rfl | rfl <;> cases detail <;> simp [detailFields]

theorem readNode_entityFields (n : Node Uuid) : readNode (entityFields (.node n)) = some n := by
  have hid : readId "id" (entityFields (.node n)) = some n.id :=
    readId_of_field? (by simp [entityFields])
  have hname : readText "name" (entityFields (.node n)) = some n.name := by
    simp [readText, entityFields, Json.text?]
  have hhyperlink : readTextOr "hyperlink" (entityFields (.node n)) = some n.hyperlink :=
    readTextOr_of_field? (by simp [entityFields, field?_detailFields])
  have htags : readTags (entityFields (.node n)) = some n.tags :=
    readTags_of_field? (by simp [entityFields, field?_detailFields])
  have hdetail : readDetail (entityFields (.node n)) = some n.detail := by
    refine readDetail_of_detailFields n.detail fun name hother => ?_
    simp only [List.mem_cons, List.not_mem_nil, or_false, not_or] at hother
    simp [entityFields, hother]
  simp [readNode, hid, hname, hhyperlink, htags, hdetail]

theorem readEntity_entityFields (e : Entity Uuid) :
    readEntity (doctype e) (entityFields e) = some e := by
  cases e with
  | requirement r => simp [readEntity, doctype, readRequirement_entityFields]
  | node n => simp [readEntity, doctype, readNode_entityFields]

/-! ### Written fields -/

theorem names_optional (c : Prop) [Decidable c] (name : String) (j : Json) :
    ((if c then [] else [(name, j)] : List (String × Json)).map Prod.fst).Sublist [name] := by
  split
  · exact List.nil_sublist _
  · exact .refl _

theorem names_externalIdField (id : Option ExternalId) :
    ((externalIdField id).map Prod.fst).Sublist ["external_id"] := by
  unfold externalIdField
  split
  · exact .refl _
  · exact List.nil_sublist _

/-- The names that the fields of a detail may have. -/
def detailNames : NodeDetail → List String
  | .standard .. => ["kind", "section", "subsection", "section_id", "version"]
  | .tool .. => ["kind", "rule_id", "tool_type", "description"]
  | .code .. => ["kind", "description"]

def entityNames : Entity Uuid → List String
  | .requirement _ => ["internal_id", "external_id", "name", "description", "tags"]
  | .node n => ["id", "name", "hyperlink", "tags"] ++ detailNames n.detail

theorem names_detailFields (detail : NodeDetail) :
    ((detailFields detail).map Prod.fst).Sublist (detailNames detail) := by
  cases detail with
  | standard title subsection sectionId version =>
    simp only [detailFields, List.map_append, List.map_cons]
    exact ((((names_optional ..).cons_cons _).append (names_optional ..)).append
      (names_optional ..)).append (names_optional ..)
  | tool rule type description =>
    simp only [detailFields, List.map_append, List.map_cons]
    exact (((names_optional ..).cons_cons _).append (.refl _)).append (names_optional ..)
  | code description => exact (names_optional ..).cons_cons _

theorem names_entityFields (e : Entity Uuid) :
    ((entityFields e).map Prod.fst).Sublist (entityNames e) := by
  cases e with
  | requirement r =>
    simp only [entityFields, List.map_append, List.map_cons]
    exact ((((names_externalIdField _).cons_cons _).append (.refl _)).append
      (names_optional ..)).append (names_optional ..)
  | node n =>
    simp only [entityFields, List.map_append, List.map_cons]
    exact ((((names_optional ..).cons_cons _).cons_cons _).append (names_optional ..)).append
      (names_detailFields _)

theorem entityNames_nodup (e : Entity Uuid) : ("doctype" :: (entityNames e ++ ["links"])).Nodup := by
  cases e with
  | requirement r => simp [entityNames]
  | node n =>
    obtain ⟨id, name, hyperlink, tags, detail⟩ := n
    cases detail <;> simp [entityNames, detailNames]

/-- No two fields of a document have one name. -/
theorem names_nodup (e : Entity Uuid) (links : List Json) (type : Json) :
    ((("doctype", type) :: (entityFields e ++ linksField links)).map Prod.fst).Nodup := by
  refine List.Nodup.sublist ?_ (entityNames_nodup e)
  rw [List.map_cons, List.map_append]
  exact ((names_entityFields e).append (names_optional ..)).cons_cons _

theorem rigid_optional {c : Prop} [Decidable c] {name : String} {j : Json} (hj : Rigid j) :
    ∀ f ∈ (if c then [] else [(name, j)] : List (String × Json)), Rigid f.2 := by
  split
  · exact fun f hf => absurd hf List.not_mem_nil
  · exact List.forall_mem_singleton.2 hj

theorem rigid_textField (name s : String) : ∀ f ∈ textField name s, Rigid f.2 :=
  rigid_optional (Json.rigid_text s)

theorem rigid_detailFields (detail : NodeDetail) : ∀ f ∈ detailFields detail, Rigid f.2 := by
  cases detail with
  | standard title subsection sectionId version =>
    simp only [detailFields, List.forall_mem_append, List.forall_mem_cons]
    exact ⟨⟨⟨⟨Json.rigid_text _, rigid_textField _ _⟩, rigid_textField _ _⟩,
      rigid_textField _ _⟩, rigid_textField _ _⟩
  | tool rule type description =>
    simp only [detailFields, List.forall_mem_append, List.forall_mem_cons]
    exact ⟨⟨⟨Json.rigid_text _, rigid_textField _ _⟩, Json.rigid_text _,
      List.forall_mem_nil _⟩, rigid_textField _ _⟩
  | code description =>
    exact List.forall_mem_cons.2 ⟨Json.rigid_text _, rigid_textField _ _⟩

/-- The fields of an entity hold nothing whose fields could be reordered. -/
theorem rigid_entityFields (e : Entity Uuid) : ∀ f ∈ entityFields e, Rigid f.2 := by
  cases e with
  | requirement r =>
    have hexternal : ∀ f ∈ externalIdField r.externalId, Rigid f.2 := by
      unfold externalIdField
      split
      · exact List.forall_mem_singleton.2 (Json.rigid_text _)
      · exact List.forall_mem_nil _
    simp only [entityFields, List.forall_mem_append, List.forall_mem_cons]
    exact ⟨⟨⟨⟨Json.rigid_text _, hexternal⟩, Json.rigid_text _, List.forall_mem_nil _⟩,
      rigid_textField _ _⟩, rigid_optional (Json.rigid_ofTexts _)⟩
  | node n =>
    simp only [entityFields, List.forall_mem_append, List.forall_mem_cons]
    exact ⟨⟨⟨Json.rigid_text _, Json.rigid_text _, rigid_textField _ _⟩,
      rigid_optional (Json.rigid_ofTexts _)⟩, rigid_detailFields _⟩

/-! ### Reading what was written -/

section

variable {e : Entity Uuid} {written : List Json} {links : List (Link Uuid)} {type : Json}
  {gs : List (String × Json)}

theorem readEntity_of_sameFound
    (h : SameFound (("doctype", type) :: (entityFields e ++ linksField written)) gs) :
    readEntity (doctype e) gs = some e := by
  rw [← readEntity_entityFields e]
  refine readEntity_congr fun name hname => ?_
  have hwritten : field? name (("doctype", type) :: (entityFields e ++ linksField written)) =
      field? name (entityFields e) := by
    simp only [List.mem_cons, List.not_mem_nil, or_false, not_or] at hname
    simp [hname]
  rw [← hwritten]
  refine h.eq_of_rigid fun j hj => ?_
  rw [hwritten] at hj
  exact rigid_entityFields e (name, j) (Json.mem_of_field? hj)

theorem readLinks_eq (byNumber : Bool) (fs : List (String × Json)) :
    readLinks byNumber fs = match field? "links" fs with
      | none => some []
      | some j => readLinkList byNumber j := by
  induction fs with
  | nil => rfl
  | cons f fs ih =>
    obtain ⟨name, j⟩ := f
    rw [readLinks, field?_cons]
    by_cases hname : name = "links"
    · rw [if_pos hname, if_pos hname.symm]
    · rw [if_neg hname, if_neg (Ne.symm hname), ih]

theorem readPeer_eq (byNumber : Bool) (fs : List (String × Json)) :
    readPeer byNumber fs = (field? "document" fs).bind (read byNumber) := by
  induction fs with
  | nil => rfl
  | cons f fs ih =>
    obtain ⟨name, j⟩ := f
    rw [readPeer, field?_cons]
    by_cases hname : name = "document"
    · rw [if_pos hname, if_pos hname.symm]
      rfl
    · rw [if_neg hname, if_neg (Ne.symm hname), ih]

theorem field?_links_entityFields (e : Entity Uuid) : field? "links" (entityFields e) = none := by
  cases e with
  | requirement r => simp [entityFields]
  | node n => cases hn : n.detail <;> simp [entityFields, detailFields, hn]

theorem readLinks_of_sameFound
    (h : SameFound (("doctype", type) :: (entityFields e ++ linksField written)) gs)
    {byNumber : Bool} (hread : ∀ items, Json.ReorderedItems written items →
      readLinkItems byNumber items = some links) : readLinks byNumber gs = some links := by
  have hfields : field? "links" (("doctype", type) :: (entityFields e ++ linksField written)) =
      if written.isEmpty then none else some (.list written) := by
    simp [field?_links_entityFields]
  rw [readLinks_eq]
  by_cases hempty : written = []
  · rw [h.eq_none (by rw [hfields, hempty]; rfl)]
    have hnone : readLinkItems byNumber [] = some links := hread [] (by rw [hempty]; rfl)
    exact hnone
  · rw [if_neg (by simpa using hempty)] at hfields
    obtain ⟨j, hj, items, rfl, hitems⟩ := h.exists_found hfields
    rw [hj]
    exact hread items hitems

end

theorem readDoctype_text (byNumber : Bool) (type : Doctype) :
    readDoctype byNumber (.text type.text) = some type := by
  cases type <;> rfl

theorem linkJson_eq (relation : Relation) (peer : Document Uuid) :
    linkJson (.mk relation peer) =
      .object [("ltype", .text relation.text), ("document", peer.toJson)] := by
  rw [linkJson]
  rfl

-- the recursion is that of the documents, a case for each way in which links nest
mutual

/-- A document is read from what it is written as, in whatever order its fields come. -/
theorem read_of_reordered : (d : Document Uuid) → ∀ (byNumber : Bool) (j : Json),
    d.toJson.Reordered j → read byNumber j = some d
  | .mk e links => by
    intro byNumber j hj
    have hwritten : toJson (.mk e links) = .object
        (("doctype", .text (doctype e).text) :: (entityFields e ++ linksField (linksJson links))) := by
      rw [toJson, fields]
      rfl
    rw [hwritten] at hj
    obtain ⟨gs, rfl, hfound⟩ := Json.sameFound_of_reordered hj (names_nodup ..)
    have hdoctype : field? "doctype" gs = some (.text (doctype e).text) :=
      hfound.text (by simp)
    have hlinks : readLinks true gs = some links :=
      readLinks_of_sameFound hfound (readLinkItems_of_reordered links true)
    rw [read, hdoctype]
    simp [readDoctype_text, readEntity_of_sameFound hfound, hlinks]
termination_by structural d => d

theorem readLinkItems_of_reordered : (links : List (Link Uuid)) →
    ∀ (byNumber : Bool) (items : List Json), Json.ReorderedItems (linksJson links) items →
      readLinkItems byNumber items = some links
  | [] => by
    intro byNumber items hitems
    rw [linksJson] at hitems
    cases hitems
    rfl
  | link :: links => by
    intro byNumber items hitems
    rw [linksJson] at hitems
    obtain ⟨item, items, rfl, hitem, hrest⟩ := hitems
    rw [readLinkItems, readLink_of_reordered link byNumber item hitem,
      readLinkItems_of_reordered links byNumber items hrest]
    rfl
termination_by structural links => links

theorem readLink_of_reordered : (link : Link Uuid) → ∀ (byNumber : Bool) (j : Json),
    (linkJson link).Reordered j → readLink byNumber j = some link
  | .mk relation peer => by
    intro byNumber j hj
    rw [linkJson_eq] at hj
    obtain ⟨gs, rfl, hfound⟩ := Json.sameFound_of_reordered hj (by simp)
    have hrelation : field? "ltype" gs = some (.text relation.text) := hfound.text (by simp)
    have hdocument : readPeer byNumber gs = some peer := by
      have hwritten : field? "document" [("ltype", .text relation.text),
          ("document", peer.toJson)] = some peer.toJson := by simp
      obtain ⟨k, hk, hpeer⟩ := hfound.exists_found hwritten
      rw [readPeer_eq, hk, Option.bind_some]
      exact read_of_reordered peer byNumber k hpeer
    rw [readLink, hrelation]
    simp [readRelation, Json.text?, relation.ofText?_text, hdocument]
termination_by structural link => link

end

/-- What becomes of a value that is read as a document and written again. -/
def rewritten? (j : Json) : Option Json :=
  (ofJson? j).map toJson

/-- Every document is read back from what it is written as, in any order of the fields and whatever it
holds and links to. So documents differ if and only if what they are written as differs, the order of
fields aside or not, and a value that has been read and written once does not change any more. -/
theorem ofJson?_toJson :
    (∀ d : Document Uuid, ofJson? d.toJson = some d) ∧
      (∀ (d : Document Uuid) (j : Json), d.toJson.Reordered j → ofJson? j = some d) ∧
      (∀ d d' : Document Uuid, d.toJson = d'.toJson ↔ d = d') ∧
      (∀ d d' : Document Uuid, d.toJson.Reordered d'.toJson ↔ d = d') ∧
      ∀ j k : Json, rewritten? j = some k → rewritten? k = some k := by
  have hread : ∀ (d : Document Uuid) (j : Json), d.toJson.Reordered j → ofJson? j = some d :=
    fun d j hj => read_of_reordered d false j hj
  have hback : ∀ d : Document Uuid, ofJson? d.toJson = some d :=
    fun d => hread d d.toJson (.refl _)
  refine ⟨hback, hread, fun d d' => ⟨fun h => ?_, congrArg toJson⟩, fun d d' => ⟨fun h => ?_, ?_⟩,
    fun j k hk => ?_⟩
  · have hsame : some d = some d' := by rw [← hback d, h, hback d']
    exact Option.some.inj hsame
  · have hsame : some d = some d' := by rw [← hread d _ h, hback d']
    exact Option.some.inj hsame
  · rintro rfl
    exact .refl _
  · obtain ⟨d, -, rfl⟩ := Option.map_eq_some_iff.1 hk
    rw [rewritten?, hback, Option.map_some]

/-- A requirement with a link to a rule of a tool, which links to a requirement in turn. -/
def nested : Document Uuid :=
  .mk (.requirement ⟨.ofNat 1, some ⟨"616-305", by decide⟩, "Logging", "", .ofList ["ops", "audit"]⟩)
    [.mk .linkedTo (.mk
      (.node ⟨.ofNat 2, "ZAP", "https://zap.example", .empty, .tool "40012" .unknown ""⟩)
      [.mk .partOf (.ofRequirement ⟨.ofNat 3, none, "Input\tvalidation", "", .empty⟩)])]

/-- The fields of a nested document may come in the reverse order. -/
theorem ofJson?_toJson_nested :
    let fields := ("doctype", Json.text "CRE") :: nested.fields
    let j := Json.object fields.reverse
    nested.toJson.Reordered j ∧ ofJson? j = some nested ∧
      rewritten? j = some nested.toJson ∧ rewritten? nested.toJson = some nested.toJson := by
  intro fields j
  obtain ⟨-, hread, -, -, hrewritten⟩ := ofJson?_toJson
  have hj : nested.toJson.Reordered j :=
    ⟨fields.reverse, fields, rfl, fields.reverse_perm, .refl fields⟩
  have hback : ofJson? j = some nested := hread nested j hj
  have hfirst : rewritten? j = some nested.toJson := by rw [rewritten?, hback, Option.map_some]
  exact ⟨hj, hback, hfirst, hrewritten j _ hfirst⟩

end Crosswalk.Document
