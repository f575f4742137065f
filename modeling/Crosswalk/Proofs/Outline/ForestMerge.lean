import Crosswalk.Proofs.Outline.ForestRows

/-!
# Merging the rows of a forest

When a row is read, its name is new and its parent is known. So the name comes in behind all that was
read before, without children, and is added to the children of its parent. What the rows of a whole
forest come to is shown by induction on the forest, for any families read before: the parent above
gets the roots as further children, and the families of the forest follow.
-/

namespace Crosswalk.Forest

open Merged Outline

variable {families : List (String × List String)} {parent : Option String} {name child : String}
  {children more : List String}

/-! ### Families -/

@[simp]
theorem mergeKey_family (name : String) (children : List String) :
    mergeKey (family name children).entity = "CRE:name:" ++ name := rfl

/-- Some families under their merge keys. -/
def filed (families : List (String × List String)) : List (String × Document Unit) :=
  families.map fun p => ("CRE:name:" ++ p.1, family p.1 p.2)

@[simp]
theorem filed_append (families more : List (String × List String)) :
    filed (families ++ more) = filed families ++ filed more :=
  List.map_append

theorem key_mem_filed :
    "CRE:name:" ++ name ∈ (filed families).map (·.1) ↔ name ∈ families.map (·.1) := by
  simp only [filed, List.map_map, List.mem_map, Function.comp_def]
  constructor
  · rintro ⟨p, hp, heq⟩
    exact ⟨p, hp, append_left_cancel heq⟩
  · rintro ⟨p, hp, rfl⟩
    exact ⟨p, hp, rfl⟩

/-- The family with further children if it is that of a parent. -/
def adopt (parent : Option String) (more : List String) (p : String × List String) :
    String × List String :=
  if parent = some p.1 then (p.1, p.2 ++ more) else p

@[simp]
theorem adopt_fst (parent : Option String) (more : List String) (p : String × List String) :
    (adopt parent more p).1 = p.1 := by
  unfold adopt
  split <;> rfl

theorem mem_adopt_snd {p : String × List String} (h : child ∈ (adopt parent more p).2) :
    child ∈ p.2 ∨ child ∈ more := by
  unfold adopt at h
  split at h
  · exact List.mem_append.1 h
  · exact .inl h

@[simp]
theorem map_adopt_fst (parent : Option String) (more : List String)
    (families : List (String × List String)) :
    (families.map (adopt parent more)).map (·.1) = families.map (·.1) := by
  simp [Function.comp_def]

theorem adopt_adopt (p : String × List String) :
    adopt parent more (adopt parent children p) = adopt parent (children ++ more) p := by
  unfold adopt
  by_cases h : parent = some p.1 <;> simp [h]

theorem map_adopt_nil (parent : Option String) (families : List (String × List String)) :
    families.map (adopt parent []) = families := by
  conv_rhs => rw [← List.map_id families]
  refine List.map_congr_left fun p _ => ?_
  by_cases h : parent = some p.1 <;> simp [adopt, h]

theorem map_adopt_of_ne (h : ∀ p ∈ families, parent ≠ some p.1) :
    families.map (adopt parent more) = families := by
  conv_rhs => rw [← List.map_id families]
  exact List.map_congr_left fun p hp => if_neg (h p hp)

/-! ### Adding a child -/

theorem fillDocument_family (h : child ∉ children) :
    fillDocument (family name children) (family name [child]) =
      .ok (family name (children ++ [child])) := by
  have hnone : (family name children).hasLink (.mk .contains (.ofRequirement (named child))) =
      false := by
    rw [Bool.eq_false_iff, Ne, Document.hasLink_iff]
    rintro ⟨l, hl, htold⟩
    obtain ⟨other, hother, rfl⟩ := List.mem_map.1 hl
    have hname : other = child := (NaturalKey.requirement.inj (Prod.mk.inj htold).2).2
    exact h (hname ▸ hother)
  have hfill : fillEntity (family name children).entity (family name [child]).entity =
      .ok (.requirement (named name)) := by
    have henrich : (named name).enrich (named name) = .ok (named name, false) :=
      Requirement.enrich_self rfl rfl rfl
    simp only [family, Document.entity, fillEntity, henrich]
    rfl
  have hadd : (family name children).addLink (.mk .contains (.ofRequirement (named child))) =
      family name (children ++ [child]) := by
    rw [Document.addLink, hnone]
    simp [family, Document.entity, Document.links]
  unfold fillDocument
  rw [hfill]
  exact congrArg Except.ok hadd

theorem addEntry_child (hkeys : (families.map (·.1)).Nodup) (hname : name ∈ families.map (·.1))
    (hchild : ∀ p ∈ families, child ∉ p.2) :
    addEntry ("CRE:name:" ++ name) (family name [child]) (filed families) =
      .ok (filed (families.map (adopt (some name) [child]))) := by
  induction families with
  | nil => cases hname
  | cons p families ih =>
    rw [List.map_cons, List.nodup_cons] at hkeys
    rw [filed, List.map_cons, addEntry]
    by_cases hp : p.1 = name
    · -- the family is here, and it is the only one with that name
      subst hp
      have hrest : families.map (adopt (some p.1) [child]) = families :=
        map_adopt_of_ne fun q hq heq =>
          hkeys.1 (List.mem_map.2 ⟨q, hq, (Option.some.inj heq).symm⟩)
      rw [if_pos rfl, fillDocument_family (hchild p List.mem_cons_self), List.map_cons, hrest, adopt,
        if_pos rfl]
      rfl
    · have hother : adopt (some name) [child] p = p := if_neg fun h => hp (Option.some.inj h).symm
      have hrest := ih hkeys.2 ((List.mem_cons.1 hname).resolve_left (Ne.symm hp))
        fun q hq => hchild q (List.mem_cons_of_mem _ hq)
      rw [if_neg fun h => hp (append_left_cancel h), List.map_cons, hother]
      exact (congrArg _ hrest).trans rfl

theorem addAll_member (hkeys : (families.map (·.1)).Nodup)
    (hparent : ∀ p ∈ parent, p ∈ families.map (·.1)) (hnew : name ∉ families.map (·.1))
    (hchild : ∀ p ∈ families, name ∉ p.2) (number : Nat) (failures : List (Nat × Failure)) :
    (Merged.mk (filed families) failures).addAll number (member parent name) =
      ⟨filed (families.map (adopt parent [name]) ++ [(name, [])]), failures⟩ := by
  have hfirst : addEntry ("CRE:name:" ++ name) (family name []) (filed families) =
      .ok (filed (families ++ [(name, [])])) := by
    rw [addEntry_new (mt key_mem_filed.1 hnew), filed_append]
    rfl
  rw [member, addAll, mergeKey_family, hfirst]
  cases parent with
  | none =>
    rw [map_adopt_of_ne fun _ _ h => by cases h]
    rfl
  | some p =>
    have hp := hparent p rfl
    have hne : p ≠ name := fun h => hnew (h ▸ hp)
    have hkeys' : ((families ++ [(name, ([] : List String))]).map (·.1)).Nodup :=
      Keyed.nodup_concat hkeys fun q hq h => hnew (List.mem_map.2 ⟨q, hq, h⟩)
    have hmem : p ∈ (families ++ [(name, ([] : List String))]).map (·.1) := by
      rw [List.map_append]
      exact List.mem_append_left _ hp
    have hchild' : ∀ q ∈ families ++ [(name, ([] : List String))], name ∉ q.2 := by
      simpa [or_imp, forall_and] using hchild
    have hself : adopt (some p) [name] (name, []) = (name, []) :=
      if_neg fun h => hne (Option.some.inj h)
    simp only [Option.toList_some, List.map_cons, List.map_nil, addAll,
      mergeKey_family, addEntry_child hkeys' hmem hchild', List.map_append, hself]

/-! ### Adding a forest -/

/-- No name of the forest has been read before. -/
def Fresh (f : Forest) (families : List (String × List String)) : Prop :=
  ∀ name ∈ f.names, ∀ p ∈ families, p.1 ≠ name ∧ name ∉ p.2

variable {f g : Forest}

theorem fresh_append {others : List (String × List String)} :
    f.Fresh (families ++ others) ↔ f.Fresh families ∧ f.Fresh others := by
  constructor
  · intro h
    exact ⟨fun name hname p hp => h name hname p (List.mem_append_left _ hp),
      fun name hname p hp => h name hname p (List.mem_append_right _ hp)⟩
  · rintro ⟨h, h'⟩ name hname p hp
    exact (List.mem_append.1 hp).elim (h name hname p) (h' name hname p)

theorem Fresh.adopt (h : f.Fresh families) (hmore : ∀ name ∈ f.names, name ∉ more) :
    f.Fresh (families.map (adopt parent more)) := by
  intro name hname p hp
  obtain ⟨q, hq, rfl⟩ := List.mem_map.1 hp
  obtain ⟨hne, hnot⟩ := h name hname q hq
  rw [adopt_fst]
  exact ⟨hne, fun hmem => (mem_adopt_snd hmem).elim hnot (hmore name hname)⟩

theorem fresh_singleton (hname : name ∉ f.names) (hchildren : f.names.Disjoint children) :
    f.Fresh [(name, children)] := by
  intro other hother p hp
  obtain rfl := List.mem_singleton.1 hp
  refine ⟨?_, hchildren hother⟩
  rintro rfl
  exact hname hother

theorem family_subset {p : String × List String} (h : p ∈ f.families) :
    p.1 ∈ f.names ∧ p.2 ⊆ f.names := by
  refine ⟨List.mem_map_of_mem h, fun child hchild => ?_⟩
  have hedge : (p.1, child) ∈ f.edges :=
    List.mem_flatMap.2 ⟨p, h, List.mem_map.2 ⟨child, hchild, rfl⟩⟩
  exact (mem_names_of_edge hedge).2

theorem fresh_families (h : f.names.Disjoint g.names) : f.Fresh g.families := by
  intro name hname p hp
  obtain ⟨hp₁, hp₂⟩ := family_subset hp
  exact ⟨fun heq => h hname (heq ▸ hp₁), fun hmem => h hname (hp₂ hmem)⟩

/-- A forest comes in below a parent that has been read, and with new names only. -/
structure ComesIn (f : Forest) (parent : Option String)
    (families : List (String × List String)) : Prop where
  nodup : f.names.Nodup
  keys : (families.map (·.1)).Nodup
  fresh : f.Fresh families
  parent : ∀ p ∈ parent, p ∈ families.map (·.1)

section Cons

variable {inner rest : Forest}

namespace ComesIn

theorem cons_nodup (h : (cons name inner rest).ComesIn parent families) :
    (name ∉ inner.names ∧ name ∉ rest.names) ∧
      inner.names.Nodup ∧ rest.names.Nodup ∧ inner.names.Disjoint rest.names := by
  have hnodup := h.nodup
  rwa [names_cons, List.nodup_cons, List.mem_append, not_or, List.nodup_append'] at hnodup

theorem cons_fresh (h : (cons name inner rest).ComesIn parent families) :
    (∀ p ∈ families, p.1 ≠ name ∧ name ∉ p.2) ∧ inner.Fresh families ∧ rest.Fresh families := by
  have hfresh := h.fresh
  simpa only [Fresh, names_cons, List.forall_mem_cons, List.forall_mem_append] using hfresh

theorem name_ne (h : (cons name inner rest).ComesIn parent families) :
    ∀ p ∈ families.map (adopt parent [name]), some name ≠ some p.1 := by
  intro p hp heq
  obtain ⟨q, hq, rfl⟩ := List.mem_map.1 hp
  rw [adopt_fst] at heq
  exact (h.cons_fresh.1 q hq).1 (Option.some.inj heq).symm

/-- The first name has come in behind, and the forest below it finds it there. -/
theorem below (h : (cons name inner rest).ComesIn parent families) :
    inner.ComesIn (some name) (families.map (adopt parent [name]) ++ [(name, [])]) where
  nodup := h.cons_nodup.2.1
  keys := Keyed.nodup_concat (by rw [map_adopt_fst]; exact h.keys)
    fun p hp heq => h.name_ne p hp (congrArg some heq.symm)
  fresh := by
    obtain ⟨⟨hname, -⟩, -⟩ := h.cons_nodup
    refine fresh_append.2 ⟨Fresh.adopt h.cons_fresh.2.1 fun other hother heq => ?_,
      fresh_singleton hname (by simp)⟩
    exact hname (List.mem_singleton.1 heq ▸ hother)
  parent := by simp

theorem adopt_below (h : (cons name inner rest).ComesIn parent families) :
    (families.map (adopt parent [name]) ++ [(name, [])]).map (adopt (some name) children) =
      families.map (adopt parent [name]) ++ [(name, children)] := by
  rw [List.map_append, map_adopt_of_ne h.name_ne]
  simp [adopt]

/-- The first tree has come in, and the other ones come in behind it. -/
theorem siblings (h : (cons name inner rest).ComesIn parent families) :
    rest.ComesIn parent
      (families.map (adopt parent [name]) ++ [(name, inner.roots)] ++ inner.families) where
  nodup := h.cons_nodup.2.2.1
  keys := by
    rw [List.map_append, List.nodup_append']
    refine ⟨by simpa using h.below.keys, h.below.nodup, fun other hold hmem => ?_⟩
    rw [List.map_append, map_adopt_fst, List.mem_append] at hold
    rcases hold with hold | hold
    · obtain ⟨p, hp, rfl⟩ := List.mem_map.1 hold
      exact (h.cons_fresh.2.1 p.1 hmem p hp).1 rfl
    · obtain rfl : other = name := List.mem_singleton.1 hold
      exact h.cons_nodup.1.1 hmem
  fresh := by
    obtain ⟨⟨-, hname⟩, -, -, hdisjoint⟩ := h.cons_nodup
    refine fresh_append.2 ⟨fresh_append.2 ⟨?_, ?_⟩, fresh_families (List.disjoint_comm.1 hdisjoint)⟩
    · exact Fresh.adopt h.cons_fresh.2.2
        fun other hother heq => hname (List.mem_singleton.1 heq ▸ hother)
    · exact fresh_singleton hname
        fun other hother hroot => hdisjoint (roots_subset _ hroot) hother
  parent := by
    intro p hp
    simp only [List.map_append, map_adopt_fst, List.mem_append]
    exact .inl (.inl (h.parent p hp))

theorem adopt_siblings (h : (cons name inner rest).ComesIn parent families) :
    (families.map (adopt parent [name]) ++ [(name, inner.roots)] ++ inner.families).map
        (adopt parent more) =
      families.map (adopt parent (name :: more)) ++ (name, inner.roots) :: inner.families := by
  have hne : ∀ p ∈ (name, inner.roots) :: inner.families, parent ≠ some p.1 := by
    intro p hp heq
    obtain ⟨q, hq, hqp⟩ := List.mem_map.1 (h.parent p.1 heq)
    rcases List.mem_cons.1 hp with rfl | hp
    · exact (h.cons_fresh.1 q hq).1 hqp
    · exact (h.cons_fresh.2.1 p.1 (List.mem_map_of_mem hp) q hq).1 hqp
  rw [List.append_assoc, List.singleton_append, List.map_append, map_adopt_of_ne hne, List.map_map]
  exact congrArg (· ++ _) (List.map_congr_left fun p _ => adopt_adopt p)

end ComesIn

end Cons

/-- The rows of a forest add the roots to the children of the parent, and its families behind all
that was read before. -/
theorem addResults_members (h : f.ComesIn parent families) (number : Nat)
    (failures : List (Nat × Failure)) :
    (Merged.mk (filed families) failures).addResults number ((f.members parent).map .ok) =
      ⟨filed (families.map (adopt parent f.roots) ++ f.families), failures⟩ := by
  induction f generalizing families parent number with
  | nil =>
    rw [roots, map_adopt_nil, Forest.families, List.append_nil]
    rfl
  | cons name inner rest ihi ihr =>
    obtain ⟨hname, -, -⟩ := h.cons_fresh
    have hnew : name ∉ families.map (·.1) := fun hmem => by
      obtain ⟨p, hp, heq⟩ := List.mem_map.1 hmem
      exact (hname p hp).1 heq
    rw [members, List.map_cons, List.map_append, addResults, addRow,
      addAll_member h.keys h.parent hnew fun p hp => (hname p hp).2, addResults_append,
      ihi h.below, h.adopt_below, ihr h.siblings, h.adopt_siblings]
    simp [roots, Forest.families]

end Crosswalk.Forest
