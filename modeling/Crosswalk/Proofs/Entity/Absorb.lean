import Crosswalk.Document.Json
import Crosswalk.Proofs.Entity.Cover
import Crosswalk.Proofs.Entity.Pool

/-!
# Documents that take in others

A document that is filled in from another one of its type either stays as it is, with a conflict
over an attribute that is set in both, or has each attribute that was blank from the other one and
the tags of both. It tells exactly whether it has changed, and taking in the same document once more
changes nothing. Two documents may be taken in in either order, hyperlinks aside.
-/

namespace Crosswalk

variable {ι κ ω : Type}

/-! ### Filling a value twice -/

section

variable {α : Type} [DecidableEq α] {blank v x y : α}

theorem fill_blank : fill blank v blank = v := by
  unfold fill
  split
  · rename_i h
    exact h.symm
  · rfl

theorem fill_of_set (h : Agree blank v x) (hx : x ≠ blank) : fill blank v x = x := by
  unfold fill
  split
  · rfl
  · rename_i hv
    exact (h.resolve_left hv).resolve_left hx

/-- What can be filled from two values in turn can be filled from them the other way round. -/
theorem agree_fill_swap (hx : Agree blank v x) (hy : Agree blank (fill blank v x) y) :
    Agree blank v y ∧ Agree blank (fill blank v y) x := by
  unfold fill at *
  by_cases hv : v = blank
  · rw [if_pos hv] at hy ⊢
    refine ⟨.inl hv, ?_⟩
    rcases hy with hx | hy | heq
    · exact .inr (.inl hx)
    · exact .inl hy
    · exact .inr (.inr heq.symm)
  · rw [if_neg hv] at hy ⊢
    exact ⟨hy, hx⟩

theorem fill_fill_comm (hy : Agree blank (fill blank v x) y) :
    fill blank (fill blank v x) y = fill blank (fill blank v y) x := by
  unfold fill at *
  by_cases hv : v = blank
  · rw [if_pos hv] at hy
    rw [if_pos hv, if_pos hv]
    split
    · split
      · rename_i hx hy
        exact hy.trans hx.symm
      · rfl
    · rename_i hx
      split
      · rfl
      · rename_i hset
        exact (hy.resolve_left hx).resolve_left hset
  · rw [if_neg hv, if_neg hv, if_neg hv]

theorem ExternalId.textOf_fill (a b : Option ExternalId) :
    textOf (fill none a b) = fill "" (textOf a) (textOf b) := by
  cases a with
  | none => rfl
  | some id => exact (if_neg id.text_ne_empty).symm

end

/-! ### Requirements -/

namespace Requirement

/-- What a requirement is after it has been filled in from another one. -/
structure FilledBy (s : Requirement ι) (i : Requirement κ) (filled : Requirement ι) : Prop where
  agrees : s.Agrees i
  id : filled.id = s.id
  name : filled.name = s.name
  externalId : filled.externalId = fill none s.externalId i.externalId
  description : filled.description = fill "" s.description i.description
  tags : ∀ t, t ∈ filled.tags.toList ↔ t ∈ s.tags.toList ∨ t ∈ i.tags.toList

variable {s a b a' b' filled : Requirement ι} {i : Requirement κ} {j : Requirement ω} {changed : Bool}

theorem exists_filledBy (h : s.Agrees i) :
    ∃ filled changed, s.enrich i = .ok (filled, changed) ∧ s.FilledBy i filled := by
  obtain ⟨externalId, changed, htext, henrich⟩ := enrich_of_agrees h
  refine ⟨_, changed, henrich, h, rfl, rfl, ?_, rfl, fun t => TagSet.mem_union⟩
  exact ExternalId.textOf_injective (htext.trans (ExternalId.textOf_fill _ _).symm)

theorem filledBy_of_enrich (h : s.enrich i = .ok (filled, changed)) : s.FilledBy i filled := by
  obtain ⟨filled', changed', henrich, hfilled⟩ := exists_filledBy (agrees_of_enrich h)
  rw [h] at henrich
  cases henrich
  exact hfilled

/-- The flag is up exactly if the requirement is not as it was. -/
theorem changed_iff (h : s.enrich i = .ok (filled, changed)) : changed = true ↔ filled ≠ s := by
  rw [← not_iff_not, not_not, Bool.not_eq_true]
  constructor
  · rintro rfl
    exact enrich_unchanged h
  · rintro rfl
    have hagain := (covers_of_enrich h).enrich
    rw [h] at hagain
    cases hagain
    rfl

theorem FilledBy.externalText (h : s.FilledBy i filled) :
    filled.externalText = fill "" s.externalText i.externalText := by
  rw [Requirement.externalText, h.externalId, ExternalId.textOf_fill]
  rfl

/-- What fills a requirement after another one has done so fills it before that one, too. -/
theorem FilledBy.agrees_swap (hi : s.FilledBy i a) (hj : a.Agrees j) :
    s.Agrees j ∧ ∀ a', s.FilledBy j a' → a'.Agrees i := by
  obtain ⟨hid, hdescription⟩ := hj
  rw [hi.externalText] at hid
  rw [hi.description] at hdescription
  refine ⟨⟨(agree_fill_swap hi.agrees.1 hid).1, (agree_fill_swap hi.agrees.2 hdescription).1⟩,
    fun a' ha' => ⟨?_, ?_⟩⟩
  · rw [ha'.externalText]
    exact (agree_fill_swap hi.agrees.1 hid).2
  · rw [ha'.description]
    exact (agree_fill_swap hi.agrees.2 hdescription).2

theorem FilledBy.comm (hi : s.FilledBy i a) (hj : a.FilledBy j b) (hj' : s.FilledBy j a')
    (hi' : a'.FilledBy i b') : b' = b := by
  have hid : b'.id = b.id := by rw [hi'.id, hj'.id, hj.id, hi.id]
  have hname : b'.name = b.name := by rw [hi'.name, hj'.name, hj.name, hi.name]
  have hexternal : b'.externalId = b.externalId := by
    have hagree := hj.agrees.1
    rw [hi.externalText] at hagree
    refine ExternalId.textOf_injective ?_
    show b'.externalText = b.externalText
    rw [hi'.externalText, hj'.externalText, hj.externalText, hi.externalText,
      fill_fill_comm hagree]
  have hdescription : b'.description = b.description := by
    have hagree := hj.agrees.2
    rw [hi.description] at hagree
    rw [hi'.description, hj'.description, hj.description, hi.description, fill_fill_comm hagree]
  have htags : b'.tags = b.tags := by
    refine TagSet.ext_mem fun t => ?_
    rw [hi'.tags, hj'.tags, hj.tags, hi.tags]
    exact or_right_comm
  obtain ⟨id, externalId, name, description, tags⟩ := b'
  dsimp only at hid hname hexternal hdescription htags
  rw [hid, hname, hexternal, hdescription, htags]

end Requirement

/-! ### Nodes -/

namespace Node

/-- The section number that a node offers to one of some kind: its own if it is of that kind. -/
def sectionIdFor (kind : NodeKind) (i : Node κ) : String :=
  if i.kind = kind then i.sectionId else ""

def toolTypeFor (kind : NodeKind) (i : Node κ) : ToolType :=
  if i.kind = kind then i.toolType else .unknown

/-- Nothing that a node offers is set differently in another one. -/
def Fits (s : Node ι) (i : Node κ) : Prop :=
  Agree "" s.sectionId (i.sectionIdFor s.kind) ∧ Agree .unknown s.toolType (i.toolTypeFor s.kind)

/-- What a node is after it has been filled in from another one. A node of another kind has no detail
to offer. -/
structure FilledBy (s : Node ι) (i : Node κ) (filled : Node ι) : Prop where
  fits : s.Fits i
  id : filled.id = s.id
  /-- The name, the section or rule, the subsection, the kind, the description and the version. -/
  key : filled.key = s.key
  sectionId : filled.sectionId = fill "" s.sectionId (i.sectionIdFor s.kind)
  toolType : filled.toolType = fill .unknown s.toolType (i.toolTypeFor s.kind)
  /-- The incoming hyperlink, or the stored one in the place of a blank. -/
  hyperlink : filled.hyperlink = fill "" i.hyperlink s.hyperlink
  tags : ∀ t, t ∈ filled.tags.toList ↔ t ∈ s.tags.toList ∨ t ∈ i.tags.toList

/-- What is reported when a node is not filled in: an attribute that is set in both nodes, which are
of one kind, with the two texts. -/
structure Contradicts (s : Node ι) (i : Node κ) (c : Conflict) : Prop where
  kind : i.kind = s.kind
  entity : c.entity = s.label
  field : (c.field = "section_id" ∧ c.existing = s.sectionId ∧ c.incoming = i.sectionId ∧
      ¬ Agree "" s.sectionId i.sectionId) ∨
    (c.field = "tool_type" ∧ c.existing = s.toolType.text ∧ c.incoming = i.toolType.text ∧
      ¬ Agree .unknown s.toolType i.toolType)

/-- A node has whatever another one offers to it. -/
structure Covers (s : Node ι) (i : Node κ) : Prop where
  sectionId : i.sectionIdFor s.kind ≠ "" → s.sectionId = i.sectionIdFor s.kind
  toolType : i.toolTypeFor s.kind ≠ .unknown → s.toolType = i.toolTypeFor s.kind
  hyperlink : i.hyperlink ≠ "" → s.hyperlink = i.hyperlink
  tags : i.tags.toList ⊆ s.tags.toList

variable {s a b a' b' filled : Node ι} {i : Node κ} {j : Node ω} {changed : Bool}

theorem kind_of_key (h : a.key = b.key) : a.kind = b.kind :=
  congrArg NodeKey.kind h

theorem fillDetail_of_kind_ne {label : String} (h : i.kind ≠ s.kind) :
    fillDetail label s.detail i.detail = .ok (s.detail, false) := by
  unfold kind at h
  cases hs : s.detail <;> cases hi : i.detail <;> rw [hs, hi] at h
  case standard.standard => exact absurd rfl h
  case tool.tool => exact absurd rfl h
  all_goals rfl

/-- A stored node is filled in from one that fits. -/
theorem exists_filledBy (h : s.Fits i) :
    ∃ filled changed, s.enrich i = .ok (filled, changed) ∧ s.FilledBy i filled := by
  have hdetail : ∃ detail changed, fillDetail s.label s.detail i.detail = .ok (detail, changed) ∧
      ({ s with detail } : Node ι).sectionId = fill "" s.sectionId (i.sectionIdFor s.kind) ∧
      ({ s with detail } : Node ι).toolType = fill .unknown s.toolType (i.toolTypeFor s.kind) := by
    unfold Fits at h
    unfold sectionIdFor toolTypeFor at *
    by_cases hkind : i.kind = s.kind
    · rw [if_pos hkind, if_pos hkind] at h
      rw [if_pos hkind, if_pos hkind]
      exact fillDetail_of_agree hkind.symm h.1 h.2
    · rw [if_neg hkind, if_neg hkind, fill_blank, fill_blank]
      exact ⟨s.detail, false, fillDetail_of_kind_ne hkind, rfl, rfl⟩
  obtain ⟨detail, changed, hfill, hid, htool⟩ := hdetail
  have hkey := (fillDetail_ok hfill).2 s rfl
  unfold enrich
  rw [hfill]
  refine ⟨_, _, rfl, h, rfl, hkey, hid, htool, ?_, fun t => TagSet.mem_union⟩
  dsimp only
  unfold fill
  by_cases hlink : i.hyperlink = ""
  · simp [hlink]
  · by_cases hsame : s.hyperlink = i.hyperlink <;> simp [hlink, hsame]

/-- Nodes of one kind that are not in agreement are in conflict. -/
theorem exists_conflict (hkind : i.kind = s.kind)
    (h : ¬ (Agree "" s.sectionId i.sectionId ∧ Agree .unknown s.toolType i.toolType)) :
    ∃ c, fillDetail s.label s.detail i.detail = .error c ∧ s.Contradicts i c := by
  have hsame : i.detail.kind = s.detail.kind := hkind
  cases hs : s.detail <;> cases hi : i.detail <;> rw [hs, hi] at hsame
  case standard.standard title subsection stored version title' subsection' incoming version' =>
    have hstored : s.sectionId = stored := by rw [Node.sectionId, hs]
    have hincoming : i.sectionId = incoming := by rw [Node.sectionId, hi]
    have hnot : ¬ Agree "" stored incoming := fun hagree =>
      h ⟨hstored ▸ hincoming ▸ hagree, .inl (by rw [Node.toolType, toolType?, hs]; rfl)⟩
    refine ⟨⟨s.label, "section_id", stored, incoming⟩, ?_, hkind, rfl,
      .inl ⟨rfl, hstored.symm, hincoming.symm, hstored ▸ hincoming ▸ hnot⟩⟩
    rw [fillDetail, fillField_of_not_agree hnot]
    rfl
  case tool.tool rule stored description rule' incoming description' =>
    have hstored : s.toolType = stored := by rw [Node.toolType, toolType?, hs]; rfl
    have hincoming : i.toolType = incoming := by rw [Node.toolType, toolType?, hi]; rfl
    have hnot : ¬ Agree .unknown stored incoming := fun hagree =>
      h ⟨.inl (by rw [Node.sectionId, hs]), hstored ▸ hincoming ▸ hagree⟩
    refine ⟨⟨s.label, "tool_type", stored.text, incoming.text⟩, ?_, hkind, rfl,
      .inr ⟨rfl, by rw [hstored], by rw [hincoming], hstored ▸ hincoming ▸ hnot⟩⟩
    obtain ⟨hset, hset', hne⟩ : stored ≠ .unknown ∧ incoming ≠ .unknown ∧ stored ≠ incoming := by
      simpa only [Agree, not_or] using hnot
    rw [fillDetail, if_neg (not_or.2 ⟨hset', hne⟩), if_neg hset]
  case code.code =>
    refine absurd ⟨.inl ?_, .inl ?_⟩ h
    · rw [Node.sectionId, hs]
    · rw [Node.toolType, toolType?, hs]
      rfl
  all_goals cases hsame

theorem enrich_of_not_fits (h : ¬ s.Fits i) : ∃ c, s.enrich i = .error c ∧ s.Contradicts i c := by
  have hkind : i.kind = s.kind := by
    by_contra hne
    refine h ⟨?_, ?_⟩
    · rw [sectionIdFor, if_neg hne]
      exact .inr (.inl rfl)
    · rw [toolTypeFor, if_neg hne]
      exact .inr (.inl rfl)
  rw [Fits, sectionIdFor, toolTypeFor, if_pos hkind, if_pos hkind] at h
  obtain ⟨c, hfill, hc⟩ := exists_conflict hkind h
  refine ⟨c, ?_, hc⟩
  unfold enrich
  rw [hfill]
  rfl

theorem filledBy_of_enrich (h : s.enrich i = .ok (filled, changed)) : s.FilledBy i filled := by
  by_cases hfits : s.Fits i
  · obtain ⟨filled', changed', henrich, hfilled⟩ := exists_filledBy hfits
    rw [h] at henrich
    cases henrich
    exact hfilled
  · obtain ⟨c, herror, -⟩ := enrich_of_not_fits hfits
    rw [h] at herror
    cases herror

theorem Covers.fillDetail (h : s.Covers i) (label : String) :
    Node.fillDetail label s.detail i.detail = .ok (s.detail, false) := by
  by_cases hkind : i.kind = s.kind
  · obtain ⟨hsection, htype, -, -⟩ := h
    rw [sectionIdFor, if_pos hkind, Node.sectionId, Node.sectionId] at hsection
    rw [toolTypeFor, if_pos hkind, Node.toolType, Node.toolType, toolType?, toolType?] at htype
    unfold kind at hkind
    cases hs : s.detail <;> cases hi : i.detail <;> rw [hs, hi] at hkind hsection htype
    case standard.standard =>
      rw [Node.fillDetail, fillField_of_covered (or_iff_not_imp_left.2 hsection)]
      rfl
    case tool.tool _ stored _ _ incoming _ =>
      have hkept : incoming ≠ .unknown → stored = incoming := htype
      rw [Node.fillDetail, if_pos (or_iff_not_imp_left.2 hkept)]
    case code.code => rfl
    all_goals cases hkind
  · exact fillDetail_of_kind_ne hkind

/-- A node that has all that another one offers is not changed by it. -/
theorem Covers.enrich (h : s.Covers i) : s.enrich i = .ok (s, false) := by
  have htags : s.tags.union i.tags = s.tags := TagSet.union_eq_left h.tags
  have hlink : (i.hyperlink != "" && s.hyperlink != i.hyperlink) = false := by
    rw [Bool.and_eq_false_iff, bne_eq_false_iff_eq, bne_eq_false_iff_eq]
    exact or_iff_not_imp_left.2 h.hyperlink
  unfold Node.enrich
  simp only [h.fillDetail, hlink, addTags, htags, bind, Except.bind, pure, Except.pure,
    bne_self_eq_false, Bool.or_false, Bool.false_eq_true, if_false]

theorem FilledBy.covers (h : s.FilledBy i filled) : filled.Covers i where
  sectionId := by
    rw [kind_of_key h.key, h.sectionId]
    exact fill_of_set h.fits.1
  toolType := by
    rw [kind_of_key h.key, h.toolType]
    exact fill_of_set h.fits.2
  hyperlink := by
    rw [h.hyperlink, fill]
    exact fun hset => if_neg hset
  tags := fun t ht => (h.tags t).2 (.inr ht)

/-- The flag is up exactly if the node is not as it was. -/
theorem changed_iff (h : s.enrich i = .ok (filled, changed)) : changed = true ↔ filled ≠ s := by
  rw [← not_iff_not, not_not, Bool.not_eq_true]
  constructor
  · rintro rfl
    exact enrich_unchanged h
  · rintro rfl
    have hagain := (filledBy_of_enrich h).covers.enrich
    rw [h] at hagain
    cases hagain
    rfl

/-- What fills a node after another one has done so fills it before that one, too. -/
theorem FilledBy.fits_swap (hi : s.FilledBy i a) (hj : a.Fits j) :
    s.Fits j ∧ ∀ a', s.FilledBy j a' → a'.Fits i := by
  obtain ⟨hsection, htype⟩ := hj
  rw [kind_of_key hi.key, hi.sectionId] at hsection
  rw [kind_of_key hi.key, hi.toolType] at htype
  refine ⟨⟨(agree_fill_swap hi.fits.1 hsection).1, (agree_fill_swap hi.fits.2 htype).1⟩,
    fun a' ha' => ⟨?_, ?_⟩⟩
  · rw [kind_of_key ha'.key, ha'.sectionId]
    exact (agree_fill_swap hi.fits.1 hsection).2
  · rw [kind_of_key ha'.key, ha'.toolType]
    exact (agree_fill_swap hi.fits.2 htype).2

theorem FilledBy.comm (hi : s.FilledBy i a) (hj : a.FilledBy j b) (hj' : s.FilledBy j a')
    (hi' : a'.FilledBy i b') : b'.unlinked = b.unlinked := by
  have hkind : a.kind = s.kind := kind_of_key hi.key
  have hkind' : a'.kind = s.kind := kind_of_key hj'.key
  have hid : b'.id = b.id := by rw [hi'.id, hj'.id, hj.id, hi.id]
  have hkey : b'.key = b.key := by rw [hi'.key, hj'.key, hj.key, hi.key]
  have hsection : b'.sectionId = b.sectionId := by
    have hagree := hj.fits.1
    rw [hkind, hi.sectionId] at hagree
    rw [hi'.sectionId, hj'.sectionId, hj.sectionId, hi.sectionId, hkind, hkind',
      fill_fill_comm hagree]
  have htype : b'.toolType = b.toolType := by
    have hagree := hj.fits.2
    rw [hkind, hi.toolType] at hagree
    rw [hi'.toolType, hj'.toolType, hj.toolType, hi.toolType, hkind, hkind',
      fill_fill_comm hagree]
  have htags : b'.tags = b.tags := by
    refine TagSet.ext_mem fun t => ?_
    rw [hi'.tags, hj'.tags, hj.tags, hi.tags]
    exact or_right_comm
  have hdetail : b'.detail = b.detail := detail_eq hkey hsection htype
  have hname : b'.name = b.name := congrArg NodeKey.name hkey
  simp only [unlinked, Node.mk.injEq, true_and]
  exact ⟨hid, hname, htags, hdetail⟩

end Node

/-! ### Entities -/

namespace Entity

/-- The stored entity filled in from an incoming one of its type, and whether anything changed. -/
def enrich : Entity ι → Entity κ → Except Conflict (Entity ι × Bool)
  | requirement s, requirement i => (s.enrich i).map fun (r, changed) => (requirement r, changed)
  | node s, node i => (s.enrich i).map fun (n, changed) => (node n, changed)
  | s, _ => .ok (s, false)

def FilledBy : Entity ι → Entity κ → Entity ι → Prop
  | requirement s, requirement i, requirement filled => s.FilledBy i filled
  | node s, node i, node filled => s.FilledBy i filled
  | _, _, _ => False

def Contradicts : Entity ι → Entity κ → Conflict → Prop
  | requirement s, requirement i, c => s.Contradicts i c
  | node s, node i, c => s.Contradicts i c
  | _, _, _ => False

theorem fillEntity_eq (stored incoming : Entity Unit) :
    Merged.fillEntity stored incoming = (stored.enrich incoming).map (·.1) := by
  cases stored with
  | requirement s =>
    cases incoming with
    | requirement i =>
      simp only [Merged.fillEntity, enrich]
      cases s.enrich i <;> rfl
    | node i => rfl
  | node s =>
    cases incoming with
    | requirement i => rfl
    | node i =>
      simp only [Merged.fillEntity, enrich]
      cases s.enrich i <;> rfl

variable {s a b filled : Entity ι} {i : Entity κ} {j : Entity ω} {changed changed' : Bool}

/-- An entity that is filled in tells whether it has changed, and is not changed by the same one
again. -/
theorem enrich_ok (htype : Document.doctype i = Document.doctype s)
    (h : s.enrich i = .ok (filled, changed)) :
    s.FilledBy i filled ∧ (changed = true ↔ filled ≠ s) ∧
      filled.enrich i = .ok (filled, false) := by
  cases s <;> cases i
  case requirement.requirement s i =>
    obtain ⟨⟨r, _⟩, hr, heq⟩ := map_eq_ok.1 h
    cases heq
    refine ⟨Requirement.filledBy_of_enrich hr, ?_, ?_⟩
    · rw [Requirement.changed_iff hr, ne_eq, ne_eq, Entity.requirement.injEq]
    · exact map_eq_ok.2 ⟨_, (Requirement.covers_of_enrich hr).enrich, rfl⟩
  case node.node s i =>
    obtain ⟨⟨n, _⟩, hn, heq⟩ := map_eq_ok.1 h
    cases heq
    have hfilled := Node.filledBy_of_enrich hn
    refine ⟨hfilled, ?_, ?_⟩
    · rw [Node.changed_iff hn, ne_eq, ne_eq, Entity.node.injEq]
    · exact map_eq_ok.2 ⟨_, hfilled.covers.enrich, rfl⟩
  all_goals cases htype

theorem enrich_error {c : Conflict} (h : s.enrich i = .error c) : s.Contradicts i c := by
  cases s <;> cases i
  case requirement.requirement s i =>
    have hr := map_eq_error.1 h
    by_cases hagree : s.Agrees i
    · obtain ⟨_, _, hok, -⟩ := Requirement.exists_filledBy hagree
      rw [hok] at hr
      cases hr
    · obtain ⟨c', herror, hc'⟩ := Requirement.enrich_of_not_agrees hagree
      rw [herror] at hr
      cases hr
      exact hc'
  case node.node s i =>
    have hn := map_eq_error.1 h
    by_cases hfits : s.Fits i
    · obtain ⟨_, _, hok, -⟩ := Node.exists_filledBy hfits
      rw [hok] at hn
      cases hn
    · obtain ⟨c', herror, hc'⟩ := Node.enrich_of_not_fits hfits
      rw [herror] at hn
      cases hn
      exact hc'
  all_goals cases h

/-- Two entities that fill one in after the other do so in the other order as well, with the same
outcome up to the hyperlink. -/
theorem enrich_comm (hi : Document.doctype i = Document.doctype s)
    (hj : Document.doctype j = Document.doctype s) (ha : s.enrich i = .ok (a, changed))
    (hb : a.enrich j = .ok (b, changed')) :
    ∃ a' x b' y, s.enrich j = .ok (a', x) ∧ a'.enrich i = .ok (b', y) ∧
      b'.unlinked = b.unlinked := by
  cases s <;> cases i <;> cases j
  case requirement.requirement.requirement s i j =>
    obtain ⟨⟨a, _⟩, ha, heq⟩ := map_eq_ok.1 ha
    cases heq
    obtain ⟨⟨b, _⟩, hb, heq⟩ := map_eq_ok.1 hb
    cases heq
    have hfilled := Requirement.filledBy_of_enrich ha
    have hfilled' := Requirement.filledBy_of_enrich hb
    obtain ⟨hsj, hswap⟩ := hfilled.agrees_swap hfilled'.agrees
    obtain ⟨a', x, ha', hsa'⟩ := Requirement.exists_filledBy hsj
    obtain ⟨b', y, hb', hab'⟩ := Requirement.exists_filledBy (hswap a' hsa')
    refine ⟨_, x, _, y, map_eq_ok.2 ⟨_, ha', rfl⟩, map_eq_ok.2 ⟨_, hb', rfl⟩, ?_⟩
    exact congrArg requirement (hfilled.comm hfilled' hsa' hab')
  case node.node.node s i j =>
    obtain ⟨⟨a, _⟩, ha, heq⟩ := map_eq_ok.1 ha
    cases heq
    obtain ⟨⟨b, _⟩, hb, heq⟩ := map_eq_ok.1 hb
    cases heq
    have hfilled := Node.filledBy_of_enrich ha
    have hfilled' := Node.filledBy_of_enrich hb
    obtain ⟨hsj, hswap⟩ := hfilled.fits_swap hfilled'.fits
    obtain ⟨a', x, ha', hsa'⟩ := Node.exists_filledBy hsj
    obtain ⟨b', y, hb', hab'⟩ := Node.exists_filledBy (hswap a' hsa')
    refine ⟨_, x, _, y, map_eq_ok.2 ⟨_, ha', rfl⟩, map_eq_ok.2 ⟨_, hb', rfl⟩, ?_⟩
    exact congrArg node (hfilled.comm hfilled' hsa' hab')
  all_goals first | (cases hi; done) | cases hj

end Entity

/-! ### Documents -/

namespace Document

/-- Fills in a stored document in place from an incoming one: what it is afterwards, and whether it
has changed or why it has not been filled in. -/
def absorb (stored : Document ι) (incoming : Document κ) : Document ι × Except Conflict Bool :=
  match stored.entity.enrich incoming.entity with
  | .ok (filled, changed) => (mk filled stored.links, .ok changed)
  | .error c => (stored, .error c)

/-- To merge documents is to fill in the stored one in place and to add the links of the other one. -/
theorem fillDocument_eq (stored incoming : Document Unit) :
    Merged.fillDocument stored incoming = (stored.absorb incoming).2.map fun _ =>
      incoming.links.foldl addLink (stored.absorb incoming).1 := by
  unfold Merged.fillDocument absorb
  rw [Entity.fillEntity_eq]
  cases stored.entity.enrich incoming.entity <;> rfl

/-- A document that takes in another one of its type either stays as it is, over a conflict between
attributes that are set in both, or is filled, with its links as they were. Then it has changed
exactly if it says so, and it does not change again. Two documents that are taken in one after the
other can be taken in in the other order as well, and what the entity is then differs in its
hyperlink at most. -/
theorem absorb_outcome (d : Document ι) (e : Document κ)
    (htype : doctype e.entity = doctype d.entity) :
    (match d.absorb e with
      | (after, .error c) => after = d ∧ d.entity.Contradicts e.entity c
      | (after, .ok changed) =>
        after.links = d.links ∧ d.entity.FilledBy e.entity after.entity ∧
          (changed = true ↔ after ≠ d) ∧ after.absorb e = (after, .ok false)) ∧
    ∀ (f : Document ω) (changed changed' : Bool), doctype f.entity = doctype d.entity →
      (d.absorb e).2 = .ok changed → ((d.absorb e).1.absorb f).2 = .ok changed' →
      ∃ x y, (d.absorb f).2 = .ok x ∧ ((d.absorb f).1.absorb e).2 = .ok y ∧
        ((d.absorb f).1.absorb e).1.entity.unlinked =
          ((d.absorb e).1.absorb f).1.entity.unlinked := by
  obtain ⟨s, links⟩ := d
  obtain ⟨i, links'⟩ := e
  constructor
  · unfold absorb
    dsimp only [entity, Document.links] at htype ⊢
    cases h : s.enrich i with
    | error c => exact ⟨rfl, Entity.enrich_error h⟩
    | ok result =>
      obtain ⟨filled, changed⟩ := result
      obtain ⟨hfilled, hchanged, hagain⟩ := Entity.enrich_ok htype h
      refine ⟨rfl, hfilled, ?_, ?_⟩
      · rw [hchanged, ne_eq, ne_eq, Document.mk.injEq, and_iff_left rfl]
      · dsimp only
        rw [hagain]
  · rintro ⟨j, links''⟩ changed changed' htype' hfirst hsecond
    unfold absorb at *
    dsimp only [entity, Document.links] at *
    cases ha : s.enrich i with
    | error c =>
      rw [ha] at hfirst
      cases hfirst
    | ok result =>
      obtain ⟨a, _⟩ := result
      rw [ha] at hsecond
      dsimp only [entity, Document.links] at hsecond ⊢
      cases hb : a.enrich j with
      | error c =>
        rw [hb] at hsecond
        cases hsecond
      | ok result =>
        obtain ⟨b, _⟩ := result
        obtain ⟨a', x, b', y, ha', hb', hsame⟩ := Entity.enrich_comm htype htype' ha hb
        rw [ha']
        dsimp only [entity]
        rw [hb']
        exact ⟨x, y, rfl, rfl, hsame⟩

/-- A rule of a scanner whose type is not known takes in the same rule with its type, and a section
of a standard that has nothing for it but a hyperlink. -/
theorem absorb_outcome_scanner :
    let rule (type : ToolType) : Document Unit :=
      ofNode ⟨(), "ZAP", "", .ofList ["scanner"], .tool "40012" type ""⟩
    let standard : Document Unit :=
      ofNode ⟨(), "ASVS", "https://asvs.example", .ofList [], .standard "Encoding" "" "5.3" ""⟩
    doctype (rule .offensive).entity = doctype (rule .unknown).entity ∧
      ((rule .unknown).absorb (rule .offensive)).2 = .ok true ∧
      (rule .unknown).entity.FilledBy (rule .offensive).entity
        ((rule .unknown).absorb (rule .offensive)).1.entity ∧
      ∃ x y, ((rule .unknown).absorb standard).2 = .ok x ∧
        (((rule .unknown).absorb standard).1.absorb (rule .offensive)).2 = .ok y ∧
        (((rule .unknown).absorb standard).1.absorb (rule .offensive)).1.entity.unlinked =
          (((rule .unknown).absorb (rule .offensive)).1.absorb standard).1.entity.unlinked := by
  intro rule standard
  have htype : doctype (rule .offensive).entity = doctype (rule .unknown).entity := rfl
  have hfirst : ((rule .unknown).absorb (rule .offensive)).2 = .ok true := rfl
  have hsecond : (((rule .unknown).absorb (rule .offensive)).1.absorb standard).2 = .ok true :=
    rfl
  obtain ⟨houtcome, hswap⟩ := @absorb_outcome Unit Unit Unit _ _ htype
  refine ⟨htype, hfirst, ?_, hswap standard true true rfl hfirst hsecond⟩
  exact houtcome.2.1

end Document

end Crosswalk
