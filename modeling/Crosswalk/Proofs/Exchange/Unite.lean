import Crosswalk.Proofs.Entity.Pool
import Crosswalk.Proofs.Exchange.Kept
import Crosswalk.Proofs.Exchange.Told
import Crosswalk.Proofs.Keyed

/-!
# What merging comes to

The documents that are read under one merge key are united in one document: its entity has all that
is set in theirs, hyperlinks aside, and its links tell what theirs tell. So what is kept depends on
the documents that were read and not on their order. Reading goes on without a failure exactly when
every row can be read and no two documents under one merge key set an attribute differently.
-/

namespace Crosswalk

theorem Merged.fillEntity_naturalKey {stored incoming filled : Entity Unit}
    (hkey : mergeKey stored = mergeKey incoming) (h : fillEntity stored incoming = .ok filled) :
    filled.naturalKey = stored.naturalKey := by
  cases stored <;> cases incoming
  case requirement.requirement r q =>
    obtain ⟨⟨r', changed⟩, henrich, rfl⟩ := map_eq_ok.1 h
    have hid := Requirement.externalId_enrich henrich (eq_of_mergeKey_requirement hkey).1
    have hname := Requirement.enrich_name henrich
    simp only [Entity.naturalKey, Requirement.externalText, hid, hname]
  case node.node n m =>
    obtain ⟨⟨n', changed⟩, henrich, rfl⟩ := map_eq_ok.1 h
    exact congrArg NaturalKey.node (Node.enrich_key henrich)
  all_goals
    cases h
    rfl

namespace Merged

variable {read more : List (Document Unit)} {entries entries' before later :
  List (String × Document Unit)} {key : String} {d stored filled : Document Unit}

/-! ### Documents under one key -/

def under (key : String) (read : List (Document Unit)) : List (Document Unit) :=
  read.filter fun d => mergeKey d.entity = key

theorem mem_under : d ∈ under key read ↔ d ∈ read ∧ mergeKey d.entity = key := by
  simp [under]

theorem under_append_same : under (mergeKey d.entity) (read ++ [d]) =
    under (mergeKey d.entity) read ++ [d] := by
  simp [under]

theorem under_append_other (h : mergeKey d.entity ≠ key) :
    under key (read ++ [d]) = under key read := by
  simp [under, h]

/-- The entities of some documents, hyperlinks aside. -/
def pool (read : List (Document Unit)) : Set (Entity Unit) :=
  {e | ∃ d ∈ read, d.entity.unlinked = e}

theorem pool_append : pool (read ++ [d]) = insert d.entity.unlinked (pool read) := by
  ext e
  simp [pool, or_and_right, exists_or, or_comm, eq_comm]

/-- A document unites some documents under one merge key. -/
structure United (read : List (Document Unit)) (d : Document Unit) : Prop where
  source : ∃ d' ∈ read, d'.entity.naturalKey = d.entity.naturalKey
  pools : d.entity.unlinked.Pools (pool read)
  told : ∀ x, x ∈ d.told ↔ ∃ d' ∈ read, x ∈ d'.told

theorem united_singleton (d : Document Unit) : United [d] d where
  source := ⟨d, List.mem_singleton_self d, rfl⟩
  pools := by
    have hpool : pool [d] = {d.entity.unlinked} := by
      ext e
      simp [pool, eq_comm]
    rw [hpool]
    exact Entity.pools_singleton _
  told := by simp

/-- No two documents under one merge key set an attribute differently. -/
def Mergeable (read : List (Document Unit)) : Prop :=
  ∀ d ∈ read, ∀ d' ∈ read, mergeKey d.entity = mergeKey d'.entity →
    d.entity.unlinked.Agrees d'.entity.unlinked

theorem Mergeable.subset (h : Mergeable more) (hsub : read ⊆ more) : Mergeable read :=
  fun d hd d' hd' => h d (hsub hd) d' (hsub hd')

namespace United

theorem fill (h : United read stored) (hkey : mergeKey stored.entity = mergeKey d.entity)
    (hfill : fillDocument stored d = .ok filled) : United (read ++ [d]) filled := by
  obtain ⟨entity, hentity, rfl⟩ := map_eq_ok.1 hfill
  have hunlinked : fillEntity stored.entity.unlinked d.entity.unlinked = .ok entity.unlinked := by
    rw [Entity.fillEntity_unlinked, hentity]
    rfl
  have hkey' : mergeKey stored.entity.unlinked = mergeKey d.entity := by
    rw [Entity.mergeKey_unlinked, hkey]
  have hagree := h.pools.agrees_of_fill hkey' hunlinked
  obtain ⟨entity', hentity', hpools⟩ := h.pools.exists_fill
    (hkey'.trans (Entity.mergeKey_unlinked _).symm) hagree
  obtain rfl : entity.unlinked = entity' := Except.ok.inj (hunlinked.symm.trans hentity')
  refine ⟨?_, ?_, fun x => ?_⟩
  · obtain ⟨d', hd', hsource⟩ := h.source
    refine ⟨d', List.mem_append_left _ hd', ?_⟩
    rw [hsource, Document.entity_foldl_addLink]
    exact (fillEntity_naturalKey hkey hentity).symm
  · rw [Document.entity_foldl_addLink, pool_append]
    exact hpools
  · rw [Document.mem_told_foldl_addLink]
    have hstored : x ∈ (Document.mk entity stored.links).told ↔ x ∈ stored.told := .rfl
    simp only [hstored, h.told x, List.mem_append, List.mem_singleton, or_and_right, exists_or,
      exists_eq_left]
    rfl

/-- A document that agrees with all that were read under its merge key is filled in. -/
theorem exists_fill (h : United read stored) (hkey : mergeKey stored.entity = mergeKey d.entity)
    (hagree : ∀ d' ∈ read, d'.entity.unlinked.Agrees d.entity.unlinked) :
    ∃ filled, fillDocument stored d = .ok filled := by
  have hkey' : mergeKey stored.entity.unlinked = mergeKey d.entity.unlinked := by
    rw [Entity.mergeKey_unlinked, Entity.mergeKey_unlinked, hkey]
  obtain ⟨entity, hentity, -⟩ := h.pools.exists_fill hkey' (by
    rintro _ ⟨d', hd', rfl⟩
    exact hagree d' hd')
  rw [Entity.fillEntity_unlinked] at hentity
  obtain ⟨filled, hfilled, -⟩ := map_eq_ok.1 hentity
  exact ⟨_, map_eq_ok.2 ⟨filled, hfilled, rfl⟩⟩

theorem agrees (h : United read stored)
    (hread : ∀ d' ∈ read, mergeKey d'.entity = mergeKey stored.entity)
    {a b : Document Unit} (ha : a ∈ read) (hb : b ∈ read) :
    a.entity.unlinked.Agrees b.entity.unlinked := by
  refine h.pools.agrees ?_ ⟨a, ha, rfl⟩ ⟨b, hb, rfl⟩
  rintro _ ⟨d', hd', rfl⟩
  rw [Entity.mergeKey_unlinked, Entity.mergeKey_unlinked, hread d' hd']

end United

/-! ### Documents under all keys -/

/-- The entries unite what was read, each under its merge key. -/
structure Unites (read : List (Document Unit)) (entries : List (String × Document Unit)) : Prop where
  filed : Filed entries
  nodup : (entries.map (·.1)).Nodup
  covered : ∀ d ∈ read, mergeKey d.entity ∈ entries.map (·.1)
  united : ∀ p ∈ entries, United (under p.1 read) p.2

theorem unites_nil : Unites [] [] where
  filed := filed_empty
  nodup := .nil
  covered := by simp
  united := by simp

theorem Unites.mergeable (h : Unites read entries) : Mergeable read := by
  intro a ha b hb hkey
  obtain ⟨p, hp, hpkey⟩ := List.mem_map.1 (h.covered a ha)
  refine (h.united p hp).agrees (fun d' hd' => ?_) (mem_under.2 ⟨ha, hpkey.symm⟩)
    (mem_under.2 ⟨hb, hkey.symm.trans hpkey.symm⟩)
  rw [(mem_under.1 hd').2, h.filed p hp]

theorem Unites.keys_eq (h : Unites read entries) :
    key ∈ entries.map (·.1) ↔ ∃ d ∈ read, mergeKey d.entity = key := by
  constructor
  · intro hkey
    obtain ⟨p, hp, rfl⟩ := List.mem_map.1 hkey
    obtain ⟨d, hd, -⟩ := (h.united p hp).source
    exact ⟨d, mem_under.1 hd⟩
  · rintro ⟨d, hd, rfl⟩
    exact h.covered d hd

theorem Unites.append (h : Unites read entries) (hnew : mergeKey d.entity ∉ entries.map (·.1)) :
    Unites (read ++ [d]) (entries ++ [(mergeKey d.entity, d)]) where
  filed := by
    intro p hp
    rcases List.mem_append.1 hp with hp | hp
    · exact h.filed p hp
    · rw [List.mem_singleton.1 hp]
  nodup := Keyed.nodup_concat h.nodup fun _ hp heq => hnew (List.mem_map.2 ⟨_, hp, heq⟩)
  covered := by
    intro d' hd'
    rw [List.map_append, List.mem_append]
    rcases List.mem_append.1 hd' with hd' | hd'
    · exact .inl (h.covered d' hd')
    · rw [List.mem_singleton.1 hd']
      exact .inr (List.mem_singleton_self _)
  united := by
    intro p hp
    rcases List.mem_append.1 hp with hp | hp
    · have hne : mergeKey d.entity ≠ p.1 := fun heq => hnew (heq ▸ List.mem_map_of_mem hp)
      rw [under_append_other hne]
      exact h.united p hp
    · have hnone : under (mergeKey d.entity) read = [] := by
        refine List.filter_eq_nil_iff.2 fun d' hd' heq => hnew ?_
        rw [← of_decide_eq_true heq]
        exact h.covered d' hd'
      rw [List.mem_singleton.1 hp, under_append_same, hnone]
      exact united_singleton d

theorem Unites.replace (h : Unites read (before ++ (mergeKey d.entity, stored) :: later))
    (hfill : fillDocument stored d = .ok filled) :
    Unites (read ++ [d]) (before ++ (mergeKey d.entity, filled) :: later) := by
  have hmem : (mergeKey d.entity, stored) ∈ before ++ (mergeKey d.entity, stored) :: later := by simp
  have hstored : mergeKey d.entity = mergeKey stored.entity := h.filed _ hmem
  obtain ⟨hbefore, hlater⟩ := Keyed.not_mem_of_middle h.nodup
  have hother : ∀ p ∈ before ++ later, mergeKey d.entity ≠ p.1 := by
    intro p hp heq
    rcases List.mem_append.1 hp with hp | hp
    · exact hbefore (List.mem_map.2 ⟨p, hp, heq.symm⟩)
    · exact hlater (List.mem_map.2 ⟨p, hp, heq.symm⟩)
  have hmiddle : ∀ {p : String × Document Unit} {x : Document Unit},
      p ∈ before ++ (mergeKey d.entity, x) :: later ↔
        p = (mergeKey d.entity, x) ∨ p ∈ before ++ later := by
    intro p x
    simp only [List.mem_append, List.mem_cons]
    tauto
  refine ⟨fun p hp => ?_, ?_, fun d' hd' => ?_, fun p hp => ?_⟩
  · rcases hmiddle.1 hp with rfl | hp
    · exact hstored.trans (congrArg Prod.fst (fillDocument_heading hstored.symm hfill)).symm
    · exact h.filed p (hmiddle.2 (.inr hp))
  · simpa only [List.map_append, List.map_cons] using h.nodup
  · have hkeys : mergeKey d'.entity ∈
        (before ++ (mergeKey d.entity, stored) :: later).map (·.1) := by
      rcases List.mem_append.1 hd' with hd' | hd'
      · exact h.covered d' hd'
      · rw [List.mem_singleton.1 hd']
        exact List.mem_map_of_mem hmem
    simpa only [List.map_append, List.map_cons] using hkeys
  · rcases hmiddle.1 hp with rfl | hp
    · rw [under_append_same]
      exact (h.united _ hmem).fill hstored.symm hfill
    · rw [under_append_other (hother p hp)]
      exact h.united p (hmiddle.2 (.inr hp))

/-- A known merge key has its place among the entries. -/
theorem Unites.exists_place (h : Unites read entries) (hkey : key ∈ entries.map (·.1)) :
    ∃ before stored later, entries = before ++ (key, stored) :: later ∧
      key ∉ before.map (·.1) := by
  obtain ⟨⟨_, stored⟩, hmem, rfl⟩ := List.mem_map.1 hkey
  obtain ⟨before, later, rfl⟩ := List.append_of_mem hmem
  exact ⟨before, stored, later, rfl, (Keyed.not_mem_of_middle h.nodup).1⟩

theorem Unites.addEntry (h : Unites read entries)
    (hadd : Merged.addEntry (mergeKey d.entity) d entries = .ok entries') :
    Unites (read ++ [d]) entries' := by
  by_cases hkey : mergeKey d.entity ∈ entries.map (·.1)
  · obtain ⟨before, stored, later, rfl, hbefore⟩ := h.exists_place hkey
    rw [addEntry_middle hbefore] at hadd
    obtain ⟨filled, hfill, rfl⟩ := map_eq_ok.1 hadd
    exact h.replace hfill
  · rw [addEntry_new hkey] at hadd
    cases hadd
    exact h.append hkey

theorem Unites.exists_addEntry (h : Unites read entries) (hds : Mergeable (read ++ [d])) :
    ∃ entries', Merged.addEntry (mergeKey d.entity) d entries = .ok entries' := by
  by_cases hkey : mergeKey d.entity ∈ entries.map (·.1)
  · obtain ⟨before, stored, later, rfl, hbefore⟩ := h.exists_place hkey
    have hmem : (mergeKey d.entity, stored) ∈ before ++ (mergeKey d.entity, stored) :: later := by
      simp
    have hstored : mergeKey d.entity = mergeKey stored.entity := h.filed _ hmem
    obtain ⟨filled, hfill⟩ := (h.united _ hmem).exists_fill hstored.symm fun d' hd' =>
      hds d' (List.mem_append_left _ (mem_under.1 hd').1) d (by simp) (mem_under.1 hd').2
    exact ⟨_, addEntry_known hbefore hfill⟩
  · exact ⟨_, addEntry_new hkey⟩

theorem Unites.exists_of_mem (h : Unites read entries) (hd : d ∈ read) :
    ∃ p ∈ entries, mergeKey p.2.entity = mergeKey d.entity ∧ d.told ⊆ p.2.told := by
  obtain ⟨p, hp, hkey⟩ := List.mem_map.1 (h.covered d hd)
  exact ⟨p, hp, (h.filed p hp).symm.trans hkey, fun x hx =>
    ((h.united p hp).told x).2 ⟨d, mem_under.2 ⟨hd, hkey.symm⟩, hx⟩⟩

/-- What the document of a requirement tells is told by the one that is kept for it. -/
theorem Unites.exists_told (h : Unites read entries) (hd : d ∈ read) {r : Requirement Unit}
    (hentity : d.entity = .requirement r) {relation : Relation} {externalText name : String}
    (htold : (relation, .requirement externalText name) ∈ d.told) :
    ∃ p ∈ entries,
      (∃ own, p.2.entity.title? = some (r.externalText, own) ∧ (r.externalId = none → own = r.name)) ∧
      ∃ l ∈ p.2.links, l.relation = relation ∧
        l.peer.entity.title? = some (externalText, name) := by
  obtain ⟨p, hp, hkey, hkept⟩ := h.exists_of_mem hd
  rw [hentity] at hkey
  obtain ⟨l, hl, hltold⟩ := hkept htold
  obtain ⟨hrelation, hpeer⟩ := Prod.mk.inj hltold
  obtain ⟨q, hq, rfl, rfl⟩ := Entity.eq_requirement_of_naturalKey hpeer
  exact ⟨p, hp, Entity.title?_of_mergeKey hkey, l, hl, hrelation, by rw [hq, Entity.title?]⟩

/-! ### What the order leaves as it is -/

/-- What a document says, the order of its links and its hyperlink aside. -/
def gist (d : Document Unit) : Entity Unit × Set (Relation × NaturalKey) :=
  (d.entity.unlinked, d.told)

theorem United.gist_eq {d' : Document Unit} (h : United read d) (h' : United more d')
    (hsame : ∀ x, x ∈ read ↔ x ∈ more) (hkey : d.entity.naturalKey = d'.entity.naturalKey) :
    gist d = gist d' := by
  have hpool : pool read = pool more := by
    ext e
    simp [pool, hsame]
  have htold : d.told = d'.told := by
    ext x
    rw [h.told x, h'.told x]
    simp [hsame]
  have hentity : d.entity.unlinked = d'.entity.unlinked := by
    have hpools := h.pools
    have hpools' := hpool ▸ h'.pools
    cases hd : d.entity <;> cases hd' : d'.entity <;> rw [hd] at hkey hpools <;>
      rw [hd'] at hkey hpools'
    case requirement.requirement r r' =>
      exact congrArg Entity.requirement
        (Requirement.Gathers.unique hpools' hpools (NaturalKey.requirement.inj hkey).2)
    case node.node n n' =>
      exact congrArg Entity.node
        (Node.Gathers.unique hpools' hpools (NaturalKey.node.inj hkey))
    all_goals cases hkey
  exact Prod.ext hentity htold

/-- What is kept depends on which documents were read and not on their order, as long as those under
one merge key have one natural key. -/
theorem Unites.perm (h : Unites read entries) (h' : Unites more entries')
    (hsame : ∀ x, x ∈ read ↔ x ∈ more)
    (hkeys : ∀ a ∈ read, ∀ b ∈ read, mergeKey a.entity = mergeKey b.entity →
      a.entity.naturalKey = b.entity.naturalKey) :
    (entries.map fun p => gist p.2).Perm (entries'.map fun p => gist p.2) := by
  have hunder : ∀ key x, x ∈ under key read ↔ x ∈ under key more := by
    simp [mem_under, hsame]
  have hgist : ∀ p ∈ entries, ∀ p' ∈ entries', p.1 = p'.1 → gist p.2 = gist p'.2 := by
    intro p hp p' hp' hkey
    have hp₁ := h.united p hp
    have hp₂ := h'.united p' hp'
    rw [← hkey] at hp₂
    obtain ⟨a, ha, hakey⟩ := hp₁.source
    obtain ⟨b, hb, hbkey⟩ := hp₂.source
    rw [← hunder, mem_under] at hb
    rw [mem_under] at ha
    refine hp₁.gist_eq hp₂ (hunder _) ?_
    rw [← hakey, ← hbkey]
    exact hkeys a ha.1 b hb.1 (ha.2.trans hb.2.symm)
  exact Keyed.map_perm h.nodup h'.nodup (by simp [h.keys_eq, h'.keys_eq, hsame]) hgist

end Merged

end Crosswalk
