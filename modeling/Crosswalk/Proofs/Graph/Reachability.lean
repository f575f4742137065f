import Crosswalk.Graph.Path
import Mathlib.Logic.Relation
import Mathlib.Order.Basic
import Mathlib.Tactic.ByContra

/-!
# Reachability in finite graphs

The search in rounds finds exactly the vertices to which arrows lead. What it returns is closed
under successors: a round that goes on has seen the target of an arrow for the first time, and there
are as many rounds as arrows. So the tests for paths and for cycles decide the reflexive transitive
closure of the arrows.
-/

namespace Crosswalk.Graph

variable {α : Type}

/-- An arrow leads from the first vertex to the second one. -/
def Arrow (arrows : List (α × α)) (a b : α) : Prop :=
  (a, b) ∈ arrows

/-- No path of at least one step leads back to its start. -/
def Acyclic (arrows : List (α × α)) : Prop :=
  ∀ a, ¬ Relation.TransGen (Arrow arrows) a a

/-! ### Acyclic graphs -/

theorem arrow_le {as bs : List (α × α)} (h : as ⊆ bs) : Arrow as ≤ Arrow bs :=
  fun _ _ hab => h hab

theorem acyclic_nil : Acyclic ([] : List (α × α)) := by
  intro a h
  obtain ⟨b, hb, -⟩ := Relation.TransGen.head'_iff.1 h
  exact List.not_mem_nil hb

theorem Acyclic.anti {as bs : List (α × α)} (h : Acyclic bs) (hs : as ⊆ bs) : Acyclic as := by
  intro a ha
  exact h a (Relation.TransGen.mono (arrow_le hs) a a ha)

/-- A graph whose arrows become arrows of an acyclic graph has no cycle either. -/
theorem Acyclic.of_map {β : Type} {as : List (α × α)} {bs : List (β × β)} (h : Acyclic bs)
    (f : α → β) (hf : ∀ a b, (a, b) ∈ as → (f a, f b) ∈ bs) : Acyclic as :=
  fun a ha => h (f a) (Relation.TransGen.lift f (fun b c hbc => hf b c hbc) a a ha)

theorem Acyclic.congr {as bs : List (α × α)} (h : as.Perm bs) : Acyclic as ↔ Acyclic bs :=
  ⟨fun ha => ha.anti h.symm.subset, fun hb => hb.anti h.subset⟩

theorem Acyclic.ne {arrows : List (α × α)} (h : Acyclic arrows) {a b : α} (hab : (a, b) ∈ arrows) :
    a ≠ b := by
  rintro rfl
  exact h a (.single hab)

/-- A graph whose arrows lead to higher ranks has no cycle. -/
theorem acyclic_of_rank {arrows : List (α × α)} (rank : α → Nat)
    (h : ∀ a b, (a, b) ∈ arrows → rank a < rank b) : Acyclic arrows := by
  intro a hpath
  have hlt := Relation.TransGen.lift (p := (· < ·)) rank h a a hpath
  rw [Relation.transGen_eq_self] at hlt
  exact Nat.lt_irrefl _ hlt

/-- In a graph with one more arrow a path either leaves that arrow out or leads to its start and,
after it has been taken for the last time, from its end. -/
theorem path_cons {arrows : List (α × α)} {s t a b : α}
    (h : Relation.ReflTransGen (Arrow ((s, t) :: arrows)) a b) :
    Relation.ReflTransGen (Arrow arrows) a b ∨
      (Relation.ReflTransGen (Arrow arrows) a s ∧ Relation.ReflTransGen (Arrow arrows) t b) := by
  induction h with
  | refl => exact .inl .refl
  | @tail c d hac hcd ih =>
    rcases List.mem_cons.1 hcd with hst | hcd
    · obtain ⟨rfl, rfl⟩ := Prod.mk.inj hst
      rcases ih with ih | ih
      · exact .inr ⟨ih, .refl⟩
      · exact .inr ⟨ih.1, .refl⟩
    · rcases ih with ih | ih
      · exact .inl (ih.tail hcd)
      · exact .inr ⟨ih.1, ih.2.tail hcd⟩

/-- One more arrow keeps a graph acyclic exactly when no path leads from its end to its start. -/
theorem acyclic_cons {arrows : List (α × α)} {s t : α} :
    Acyclic ((s, t) :: arrows) ↔
      Acyclic arrows ∧ ¬ Relation.ReflTransGen (Arrow arrows) t s := by
  have hsub : arrows ⊆ (s, t) :: arrows := List.subset_cons_self _ _
  constructor
  · intro h
    refine ⟨h.anti hsub, fun hts => h s ?_⟩
    have hts' := Relation.ReflTransGen.mono (arrow_le hsub) t s hts
    exact Relation.TransGen.head' List.mem_cons_self hts'
  · rintro ⟨h, hts⟩ a ha
    obtain ⟨b, hab, hba⟩ := Relation.TransGen.head'_iff.1 ha
    rcases List.mem_cons.1 hab with hst | hab
    · obtain ⟨rfl, rfl⟩ := Prod.mk.inj hst
      rcases path_cons hba with hba | hba
      · exact hts hba
      · exact hts hba.1
    · rcases path_cons hba with hba | hba
      · exact h a (Relation.TransGen.head' hab hba)
      · exact hts (hba.2.trans (hba.1.head hab))

/-! ### Rounds of the search -/

variable [DecidableEq α]

/-- The targets of arrows that have not been seen. -/
def unseen (arrows : List (α × α)) (seen : List α) : List α :=
  (arrows.map (·.2)).filter fun b => b ∉ seen

theorem mem_prolong {next : α → List α} {paths : List (α × List α)} {seen : List α} {b : α} :
    b ∈ (prolong next paths seen).1.map (·.1) ↔ b ∉ seen ∧ ∃ p ∈ paths, b ∈ next p.1 := by
  induction paths generalizing seen with
  | nil => simp [prolong]
  | cons p paths ih =>
    obtain ⟨a, before⟩ := p
    simp only [prolong, List.map_append, List.mem_append, ih, List.map_map, List.mem_cons,
      Function.comp_def, List.map_id', List.mem_eraseDups, List.mem_filter, List.contains_eq_mem,
      Bool.not_eq_true', decide_eq_false_iff_not, exists_eq_or_imp]
    by_cases hb : b ∈ seen <;> by_cases ha : b ∈ next a <;> simp [hb, ha]

theorem mem_prolong_seen {next : α → List α} {paths : List (α × List α)} {seen : List α} {b : α} :
    b ∈ (prolong next paths seen).2 ↔ b ∈ seen ∨ b ∈ (prolong next paths seen).1.map (·.1) := by
  induction paths generalizing seen with
  | nil => simp [prolong]
  | cons p paths ih =>
    obtain ⟨a, before⟩ := p
    simp only [prolong, ih, List.mem_append, List.map_append, List.map_map, Function.comp_def,
      List.map_id', or_assoc]

theorem mem_search_of_mem {next : α → List α} (rounds : Nat) {paths : List (α × List α)}
    {seen : List α} {p : α × List α} (h : p ∈ paths) : p ∈ search next rounds paths seen := by
  cases rounds with
  | zero => exact h
  | succ rounds =>
    have hne : paths.isEmpty = false := by
      cases paths with
      | nil => exact absurd h List.not_mem_nil
      | cons => rfl
    simp [search, hne, h]

theorem search_sound {arrows : List (α × α)} (rounds : Nat) {paths : List (α × List α)}
    {seen : List α} {b : α} (h : b ∈ (search (successors arrows) rounds paths seen).map (·.1)) :
    ∃ p ∈ paths, Relation.ReflTransGen (Arrow arrows) p.1 b := by
  induction rounds generalizing paths seen with
  | zero =>
    obtain ⟨p, hp, rfl⟩ := List.mem_map.1 h
    exact ⟨p, hp, .refl⟩
  | succ rounds ih =>
    simp only [search] at h
    split at h
    · exact absurd h List.not_mem_nil
    · rw [List.map_append, List.mem_append] at h
      rcases h with h | h
      · obtain ⟨p, hp, rfl⟩ := List.mem_map.1 h
        exact ⟨p, hp, .refl⟩
      · obtain ⟨q, hq, hqb⟩ := ih h
        obtain ⟨-, p, hp, hpq⟩ := mem_prolong.1 (List.mem_map_of_mem hq)
        exact ⟨p, hp, hqb.head (mem_successors.1 hpq)⟩

theorem length_unseen_lt {arrows : List (α × α)} {seen seen' : List α} {b : α}
    (hs : seen ⊆ seen') (hb : b ∈ unseen arrows seen) (hb' : b ∈ seen') :
    (unseen arrows seen').length < (unseen arrows seen).length := by
  have hmem : ∀ c, c ∈ unseen arrows seen' → c ∈ unseen arrows seen := by
    intro c hc
    simp only [unseen, List.mem_filter, decide_eq_true_eq] at hc ⊢
    exact ⟨hc.1, fun h => hc.2 (hs h)⟩
  have heq : unseen arrows seen' = (unseen arrows seen).filter fun c => c ∉ seen' := by
    simp only [unseen, List.filter_filter]
    refine List.filter_congr fun c _ => ?_
    by_cases h : c ∈ seen'
    · simp [h]
    · have h' : c ∉ seen := fun hc => h (hs hc)
      simp [h, h']
  rw [heq]
  exact List.length_filter_lt_length_iff_exists.2 ⟨b, hb, by simpa using hb'⟩

/-- Where the search stands before a round: the ends of the paths have been seen, and no successors
but theirs are missing. -/
structure Frontier (arrows : List (α × α)) (paths : List (α × List α)) (seen : List α) : Prop where
  ends : ∀ p ∈ paths, p.1 ∈ seen
  served : ∀ a ∈ seen, a ∈ paths.map (·.1) ∨ ∀ b, Arrow arrows a b → b ∈ seen

/-- What has been seen or is found in some more rounds. -/
def Found (arrows : List (α × α)) (rounds : Nat) (paths : List (α × List α)) (seen : List α)
    (b : α) : Prop :=
  b ∈ seen ∨ b ∈ (search (successors arrows) rounds paths seen).map (·.1)

variable {arrows : List (α × α)} {paths : List (α × List α)} {seen : List α} {a b : α}

theorem search_nil (next : α → List α) (rounds : Nat) : search next rounds [] seen = [] := by
  cases rounds <;> rfl

theorem mem_unseen : b ∈ unseen arrows seen ↔ (∃ a, Arrow arrows a b) ∧ b ∉ seen := by
  simp [unseen, Arrow]

namespace Frontier

theorem subset_prolong : seen ⊆ (prolong (successors arrows) paths seen).2 := fun _ hc =>
  mem_prolong_seen.2 (.inl hc)

/-- What the paths end in is served by a round, and what is new is left to the next one. -/
theorem prolong (h : Frontier arrows paths seen) :
    Frontier arrows (prolong (successors arrows) paths seen).1
      (prolong (successors arrows) paths seen).2 where
  ends := fun p hp => mem_prolong_seen.2 (.inr (List.mem_map_of_mem hp))
  served := by
    intro c hc
    rcases mem_prolong_seen.1 hc with hc | hc
    · refine .inr fun d hcd => ?_
      rcases h.served c hc with hend | hserved
      · by_cases hd : d ∈ seen
        · exact subset_prolong hd
        · obtain ⟨p, hp, rfl⟩ := List.mem_map.1 hend
          exact mem_prolong_seen.2 (.inr (mem_prolong.2 ⟨hd, p, hp, mem_successors.2 hcd⟩))
      · exact subset_prolong (hserved d hcd)
    · exact .inl hc

/-- A round changes what is found with it, but not what is found in the end. -/
theorem found_succ (h : Frontier arrows paths seen) (hne : paths ≠ []) {rounds : Nat} :
    Found arrows (rounds + 1) paths seen b ↔
      Found arrows rounds (Graph.prolong (successors arrows) paths seen).1
        (Graph.prolong (successors arrows) paths seen).2 b := by
  have hempty : ¬ paths.isEmpty = true := fun hnil => hne (List.isEmpty_iff.1 hnil)
  unfold Found
  rw [search, if_neg hempty, List.map_append, List.mem_append]
  constructor
  · rintro (hb | hb | hb)
    · exact .inl (subset_prolong hb)
    · obtain ⟨p, hp, rfl⟩ := List.mem_map.1 hb
      exact .inl (subset_prolong (h.ends p hp))
    · exact .inr hb
  · rintro (hb | hb)
    · rcases mem_prolong_seen.1 hb with hb | hb
      · exact .inl hb
      · obtain ⟨p, hp, rfl⟩ := List.mem_map.1 hb
        exact .inr (.inr (List.mem_map_of_mem (mem_search_of_mem rounds hp)))
    · exact .inr (.inr hb)

/-- Without new paths everything has been seen. -/
theorem found_nil (h : Frontier arrows [] seen) {rounds : Nat}
    (ha : Found arrows rounds [] seen a) (hab : Arrow arrows a b) : b ∈ seen := by
  unfold Found at ha
  rw [search_nil] at ha
  rcases h.served a (ha.resolve_right List.not_mem_nil) with hend | hserved
  · exact absurd hend List.not_mem_nil
  · exact hserved b hab

/-- What is found is closed under arrows, when no more targets are missing than rounds are left. -/
theorem found_closed (h : Frontier arrows paths seen) {rounds : Nat}
    (hrounds : (unseen arrows seen).length ≤ rounds) (ha : Found arrows rounds paths seen a)
    (hab : Arrow arrows a b) : Found arrows rounds paths seen b := by
  induction rounds generalizing paths seen with
  | zero =>
    by_contra hb
    have hmissing : b ∈ unseen arrows seen := mem_unseen.2 ⟨⟨a, hab⟩, fun hs => hb (.inl hs)⟩
    have hpos := List.length_pos_of_mem hmissing
    omega
  | succ rounds ih =>
    by_cases hnil : paths = []
    · subst hnil
      exact .inl (h.found_nil ha hab)
    · rw [h.found_succ hnil] at ha ⊢
      by_cases hlonger : (Graph.prolong (successors arrows) paths seen).1 = []
      · have hprolong := h.prolong
        rw [hlonger] at ha hprolong
        exact .inl (hprolong.found_nil ha hab)
      · -- a round that goes on has met a target that was missing
        obtain ⟨p, hp⟩ := List.exists_mem_of_ne_nil _ hlonger
        obtain ⟨hunseen, q, -, hqp⟩ := mem_prolong.1 (List.mem_map_of_mem (f := (·.1)) hp)
        have hmissing := mem_unseen.2 ⟨⟨q.1, mem_successors.1 hqp⟩, hunseen⟩
        have hlt := length_unseen_lt subset_prolong hmissing (h.prolong.ends p hp)
        exact ih h.prolong (by omega) ha

end Frontier

/-! ### What the tests decide -/

theorem mem_reachable {arrows : List (α × α)} {a b : α} :
    b ∈ reachable arrows a ↔ Relation.ReflTransGen (Arrow arrows) a b := by
  constructor
  · intro h
    obtain ⟨p, hp, hpb⟩ := search_sound _ h
    rw [List.mem_singleton] at hp
    subst hp
    exact hpb
  · intro h
    have hstart : Frontier arrows [(a, [])] [a] := ⟨by simp, by simp⟩
    have hall : Found arrows arrows.length [(a, [])] [a] b := by
      induction h with
      | refl => exact .inl (List.mem_singleton.2 rfl)
      | @tail c d _ hcd ih =>
        have hle := List.length_filter_le (fun b => decide (b ∉ [a])) (arrows.map (·.2))
        rw [List.length_map] at hle
        exact hstart.found_closed hle ih hcd
    rcases hall with hb | hb
    · rw [List.mem_singleton] at hb
      subst hb
      exact List.mem_map.2 ⟨(b, []), mem_search_of_mem _ (List.mem_singleton.2 rfl), rfl⟩
    · exact hb

theorem reaches_iff {arrows : List (α × α)} {a b : α} :
    reaches arrows a b = true ↔ Relation.ReflTransGen (Arrow arrows) a b := by
  rw [reaches, List.contains_iff_mem, mem_reachable]

theorem isSome_shortestPath? {arrows : List (α × α)} {a b : α} :
    (shortestPath? arrows a b).isSome = true ↔ Relation.ReflTransGen (Arrow arrows) a b := by
  rw [← mem_reachable, shortestPath?, Option.isSome_map, List.find?_isSome, reachable,
    List.mem_map]
  simp only [decide_eq_true_eq]

theorem isCyclic_iff {arrows : List (α × α)} : isCyclic arrows = true ↔ ¬ Acyclic arrows := by
  simp only [isCyclic, List.any_eq_true, reaches_iff, Acyclic, not_forall, not_not, Prod.exists]
  constructor
  · rintro ⟨s, t, hst, hts⟩
    exact ⟨s, Relation.TransGen.head' hst hts⟩
  · rintro ⟨a, ha⟩
    obtain ⟨b, hab, hba⟩ := Relation.TransGen.head'_iff.1 ha
    exact ⟨a, b, hab, hba⟩

instance (arrows : List (α × α)) : Decidable (Acyclic arrows) :=
  decidable_of_iff (isCyclic arrows = false) (by rw [← Bool.not_eq_true, isCyclic_iff, not_not])

end Crosswalk.Graph
