import Crosswalk.Proofs.Document.Texts
import Crosswalk.Proofs.Entity.Enrich
import Crosswalk.Proofs.Store.Link
import Crosswalk.Store.LinkTable

/-!
# Link tables that the schema accepts

The link table of a store may have been filled by hand, row by row, in any order, with any relation
and between any identities. The schema sees to it that each row passes its checks beside the other
rows, and no more: the containments and parts in the table may lead in a circle, a part may be stored
as such, a link may lead to an entity that is not stored, and one link may stand there twice if the
texts are different. Where every row is in plain spelling this last thing does not happen.
-/

namespace Crosswalk

/-! ### Reading the rows -/

theorem SpeltId.ofText?_text (id : Uuid) : ofText? id.text = some (plain (.ofUuid id)) := by
  unfold ofText? StoredId.ofText?
  rw [Uuid.ofText?_text, Option.map_some, Option.map_some, StoredId.text, StoredId.uuid_ofUuid,
    if_pos rfl]
  rfl

theorem SpeltId.spelling_of_text {id : Uuid} {s : SpeltId} (h : ofText? id.text = some s) :
    s.spelling = .plain := by
  rw [ofText?_text] at h
  cases h
  rfl

namespace LinkRow

variable {r : LinkRow} {l : StoredLink} {column : Nat} {text : String}

/-- Whether the identities of a row and of its target are spelt as they are written. -/
structure Plain (r : LinkRow) : Prop where
  id : ∃ id : Uuid, r.id = id.text
  target : ∃ id : Uuid, r.target = id.text

theorem readId_ok {s : SpeltId} (h : readId column text = .ok s) : SpeltId.ofText? text = some s := by
  unfold readId at h
  split at h
  · rename_i hread
    cases h
    exact hread
  · cases h

/-- The key of what is read from a row has the texts of the row. -/
theorem read_ok (h : r.read = .ok l) :
    SpeltId.ofText? r.id = some l.key.id ∧ l.kind = r.kind ∧
      SpeltId.ofText? r.source = some l.key.source ∧
      SpeltId.ofText? r.target = some l.key.target := by
  obtain ⟨id, hid, h⟩ := bind_eq_ok.1 h
  obtain ⟨source, hsource, h⟩ := bind_eq_ok.1 h
  obtain ⟨target, htarget, h⟩ := bind_eq_ok.1 h
  obtain ⟨relation, -, h⟩ := bind_eq_ok.1 h
  cases h
  exact ⟨readId_ok hid, rfl, readId_ok hsource, readId_ok htarget⟩

theorem key_of_read (h : r.read = .ok l) : l.key.map SpeltId.text = r.key := by
  obtain ⟨hid, hkind, hsource, htarget⟩ := read_ok h
  unfold LinkKey.map key
  rw [SpeltId.text_of_ofText? hid, SpeltId.text_of_ofText? hsource,
    SpeltId.text_of_ofText? htarget]
  exact congrArg (LinkKey.mk r.id · r.source r.target) hkind

theorem spelling_of_read (h : r.read = .ok l) (hplain : r.Plain) {source : Uuid}
    (hsource : r.source = source.text) : l.spelling = .plain := by
  obtain ⟨id, hid⟩ := hplain.id
  obtain ⟨target, htarget⟩ := hplain.target
  obtain ⟨hreadId, -, hreadSource, hreadTarget⟩ := read_ok h
  have hplainId : l.spelling.id = .plain := SpeltId.spelling_of_text (hid ▸ hreadId)
  have hplainSource : l.spelling.source = .plain := SpeltId.spelling_of_text (hsource ▸ hreadSource)
  have hplainTarget : l.spelling.target = .plain := SpeltId.spelling_of_text (htarget ▸ hreadTarget)
  obtain ⟨lid, kind, lsource, ltarget, relation, spelling⟩ := l
  obtain ⟨_, _, _⟩ := spelling
  simp only [LinkSpelling.plain] at *
  subst hplainId hplainSource hplainTarget
  rfl

end LinkRow

/-! ### Tables -/

namespace Store

variable {s s' : Store} {l : StoredLink} {table : List LinkRow}

/-- Every row of a table passes the checks of the schema beside the other rows. -/
def Accepts (s : Store) (table : List LinkRow) : Prop :=
  LinkKey.Accepted (fun text => s.requirements.any fun r => r.id.text = text)
    (table.map LinkRow.key)

instance : Decidable (s.Accepts table) :=
  inferInstanceAs (Decidable (LinkKey.Accepted _ _))

theorem Accepts.unique (h : s.Accepts table) : LinkKey.Unique (table.map LinkRow.key) :=
  (LinkKey.accepted_iff.1 h).1

theorem Accepts.source (h : s.Accepts table) {r : LinkRow} (hr : r ∈ table) :
    ∃ id : Uuid, r.source = id.text := by
  have hsource := (LinkKey.accepted_iff.1 h).2 r.key (List.mem_map_of_mem hr)
  obtain ⟨q, -, htext⟩ := List.any_eq_true.1 hsource
  exact ⟨q.id.uuid, (of_decide_eq_true htext).symm⟩

/-- What is read keeps to the unique indexes, as far as spellings are told apart. -/
theorem unique_withTable (hunique : LinkKey.Unique (table.map LinkRow.key))
    (h : s.withTable table = .ok s') : LinkKey.Unique (s'.links.map StoredLink.key) := by
  obtain ⟨links, hread, rfl⟩ := map_eq_ok.1 h
  have hkeys : (links.map StoredLink.key).map (LinkKey.map SpeltId.text) =
      table.map LinkRow.key := by
    rw [List.map_map]
    exact map_of_mapM LinkRow.key_of_read hread
  rw [← hkeys] at hunique
  exact hunique.of_map

theorem plain_withTable (haccepts : s.Accepts table) (h : s.withTable table = .ok s')
    (hplain : ∀ r ∈ table, r.Plain) (hl : l ∈ s'.links) : l.spelling = .plain := by
  obtain ⟨links, hread, rfl⟩ := map_eq_ok.1 h
  obtain ⟨r, hr, hread⟩ := (mem_mapM hread).1 hl
  obtain ⟨source, hsource⟩ := haccepts.source hr
  exact LinkRow.spelling_of_read hread (hplain r hr) hsource

/-- Where every row is in plain spelling, no link stands in the table twice. -/
theorem linksOnce_withTable (haccepts : s.Accepts table) (h : s.withTable table = .ok s')
    (hplain : ∀ r ∈ table, r.Plain) : s'.LinksOnce := by
  have hall : ∀ l ∈ s'.links, l.spelling = .plain := fun l hl => plain_withTable haccepts h hplain hl
  have hunique := List.pairwise_map.1 (unique_withTable haccepts.unique h)
  refine ⟨List.pairwise_map.2 ?_, ?_, hall⟩
  · refine hunique.imp_of_mem fun {l m} hl hm hlm hid => hlm.1 ?_
    rw [StoredLink.key, StoredLink.key, hall l hl, hall m hm, hid]
  · exact hunique.imp_of_mem fun {l m} hl hm hlm =>
      StoredLink.apart_of_key (hall l hl) (hall m hm) hlm.2

/-! ### Writing between two entities -/

variable {kind : LinkKind} {a b : StoredId} {relation : Relation}

theorem insertLink_cases (s : Store) (l : StoredLink) :
    (∃ fault, s.insertLink l = .error (.storage fault)) ∨
      s.linkFault? s.links l = none ∧ s.insertLink l = .ok { s with links := s.links ++ [l] } := by
  unfold insertLink
  cases hfault : s.linkFault? s.links l with
  | some fault => exact .inl ⟨fault, rfl⟩
  | none => exact .inr ⟨rfl, rfl⟩

theorem updateLink_cases (s : Store) (l : StoredLink) :
    (∃ fault, s.updateLink l = .error (.storage fault)) ∨ s.updateLink l = .ok s ∨
      ∃ old ∈ s.links, old.key.id = l.key.id ∧ s.updateLink l = .ok { s with
        links := s.links.map fun o =>
          if o.key.id = l.key.id then { l with kind := old.kind } else o } := by
  unfold updateLink
  cases hfind : s.links.find? fun o => o.key.id = l.key.id with
  | none => exact .inr (.inl rfl)
  | some old =>
    have hkey : decide (old.key.id = l.key.id) = true := by simpa using List.find?_some hfind
    dsimp only
    split
    · exact .inl ⟨_, rfl⟩
    · exact .inr (.inr ⟨old, List.mem_of_find?_eq_some hfind, of_decide_eq_true hkey, rfl⟩)

theorem insertLink_ok (h : s.insertLink l = .ok s') :
    s.linkFault? s.links l = none ∧ s' = { s with links := s.links ++ [l] } := by
  obtain ⟨fault, herror⟩ | ⟨hfault, hok⟩ := s.insertLink_cases l
  · cases herror.symm.trans h
  · exact ⟨hfault, Except.ok.inj (h.symm.trans hok)⟩

theorem length_updateLink (h : s.updateLink l = .ok s') : s'.links.length = s.links.length := by
  rcases s.updateLink_cases l with ⟨fault, herror⟩ | hsame | ⟨old, -, -, hok⟩
  · cases herror.symm.trans h
  · cases hsame.symm.trans h
    rfl
  · cases hok.symm.trans h
    exact List.length_map ..

theorem writeLink_ne_fatalState (existing : Option StoredLink) (l : StoredLink)
    (cycle : List Vertex) : s.writeLink existing l ≠ .error (.fatalState cycle) := by
  intro h
  cases existing with
  | some old =>
    rcases s.updateLink_cases l with ⟨fault, herror⟩ | hsame | ⟨old, -, -, hok⟩
    · cases herror.symm.trans h
    · cases hsame.symm.trans h
    · cases hok.symm.trans h
  | none =>
    obtain ⟨fault, herror⟩ | ⟨-, hok⟩ := s.insertLink_cases l
    · cases herror.symm.trans h
    · cases hok.symm.trans h

/-- A link that is updated takes the place of the one that joins the same entities. -/
theorem LinksOnce.updateLink_ok (h : s.LinksOnce) {old : StoredLink}
    (hfind : s.findLink? kind a b = some old)
    (hupdate : s.updateLink (s.linkFor kind a b relation) = .ok s') :
    s' = s.withLink kind a b relation := by
  obtain ⟨hold, hkind, -⟩ := findLink?_some hfind
  have hid : (s.linkFor kind a b relation).id = old.id := by rw [linkFor_of_some hfind]
  have hfound : (s.links.find? fun o => o.id = (s.linkFor kind a b relation).id) = some old :=
    (Keyed.find?_iff h.ids_nodup).2 ⟨hold, hid.symm⟩
  rw [h.updateLink_eq rfl, hfound] at hupdate
  dsimp only at hupdate
  split at hupdate
  · cases hupdate
  · cases hupdate
    rw [hkind]
    unfold Store.withLink
    rw [hfind]
    rfl

end Store

end Crosswalk
