import Mathlib.Data.List.Nodup
import Mathlib.Data.List.Perm.Basic

/-!
# Lists with distinct keys

Entities and links are stored in lists in which no key occurs twice. An item is found by its key,
and replacing the item with a key keeps everything else and the order. Of any list, the first items
with each key are such a list.
-/

namespace Crosswalk.Keyed

variable {α β κ : Type} {key : α → κ} {items : List α}

theorem eq_of_key (hk : (items.map key).Nodup) {a b : α} (ha : a ∈ items) (hb : b ∈ items)
    (h : key a = key b) : a = b :=
  List.inj_on_of_nodup_map hk ha hb h

theorem perm_of_keys {others : List α} (hk : (items.map key).Nodup) (hk' : (others.map key).Nodup)
    (hsub : ∀ a ∈ others, a ∈ items) (hkeys : ∀ a ∈ items, ∃ b ∈ others, key b = key a) :
    items.Perm others := by
  refine (List.perm_ext_iff_of_nodup hk.of_map hk'.of_map).2 fun a => ⟨fun ha => ?_, hsub a⟩
  obtain ⟨b, hb, hab⟩ := hkeys a ha
  rw [← eq_of_key hk (hsub b hb) ha hab]
  exact hb

/-- Images that keep the keys are distinct as the keys are. -/
theorem nodup_filterMap (hk : (items.map key).Nodup) {f : α → Option β} {g : β → κ}
    (h : ∀ a ∈ items, ∀ b, f a = some b → g b = key a) : (items.filterMap f).Nodup := by
  have hsub : ((items.filterMap f).map g).Sublist (items.map key) := by
    clear hk
    induction items with
    | nil => exact .slnil
    | cons a items ih =>
      have hrest := ih fun b hb => h b (List.mem_cons_of_mem _ hb)
      rw [List.filterMap_cons, List.map_cons]
      cases hf : f a with
      | none => exact hrest.cons _
      | some b =>
        rw [List.map_cons, h a List.mem_cons_self b hf]
        exact hrest.cons_cons _
  exact (hk.sublist hsub).of_map

theorem nodup_concat (hk : (items.map key).Nodup) {x : α} (hx : ∀ a ∈ items, key a ≠ key x) :
    ((items ++ [x]).map key).Nodup := by
  rw [List.map_append, List.map_singleton, List.nodup_append]
  refine ⟨hk, List.nodup_singleton _, fun k hmem k' hk' heq => ?_⟩
  obtain ⟨a, ha, rfl⟩ := List.mem_map.1 hmem
  exact hx a ha (heq.trans (List.mem_singleton.1 hk'))

/-- The key of an item occurs neither before nor after it. -/
theorem not_mem_of_middle {before after : List α} {a : α}
    (hk : ((before ++ a :: after).map key).Nodup) :
    key a ∉ before.map key ∧ key a ∉ after.map key := by
  rw [List.map_append, List.map_cons, List.nodup_middle, List.nodup_cons, List.mem_append,
    not_or] at hk
  exact hk.1

/-- Lists with the same keys have the same values, up to their order. -/
theorem map_perm {others : List α} {value : α → β} (hk : (items.map key).Nodup)
    (hk' : (others.map key).Nodup) (hkeys : ∀ k, k ∈ items.map key ↔ k ∈ others.map key)
    (hvalue : ∀ a ∈ items, ∀ b ∈ others, key a = key b → value a = value b) :
    (items.map value).Perm (others.map value) := by
  have hnodup : ∀ {l : List α}, (l.map key).Nodup → (l.map fun a => (key a, value a)).Nodup :=
    fun h => .of_map Prod.fst (by simpa [Function.comp_def] using h)
  have hpairs : (items.map fun a => (key a, value a)).Perm
      (others.map fun a => (key a, value a)) := by
    refine (List.perm_ext_iff_of_nodup (hnodup hk) (hnodup hk')).2 fun x => ⟨fun hx => ?_, fun hx => ?_⟩
    · obtain ⟨a, ha, rfl⟩ := List.mem_map.1 hx
      obtain ⟨b, hb, hab⟩ := List.mem_map.1 ((hkeys _).1 (List.mem_map_of_mem ha))
      exact List.mem_map.2 ⟨b, hb, Prod.ext hab (hvalue a ha b hb hab.symm).symm⟩
    · obtain ⟨b, hb, rfl⟩ := List.mem_map.1 hx
      obtain ⟨a, ha, hab⟩ := List.mem_map.1 ((hkeys _).2 (List.mem_map_of_mem hb))
      exact List.mem_map.2 ⟨a, ha, Prod.ext hab (hvalue a ha b hb hab)⟩
  simpa [Function.comp_def] using hpairs.map Prod.snd

/-! ### The first item with each key -/

section Firsts

variable [BEq κ]

def firsts (key : α → κ) (items : List α) : List α :=
  items.eraseDupsBy fun a b => key a == key b

theorem firsts_cons {a : α} :
    firsts key (a :: items) = a :: firsts key (items.filter fun b => key b != key a) := by
  unfold firsts
  rw [List.eraseDupsBy_cons]
  refine congrArg (a :: List.eraseDupsBy _ ·) (List.filter_congr fun b _ => ?_)
  rw [bne, Bool.decide_eq_false]

/-- Items are taken one after another, each time without those that have the key of the first. -/
theorem firsts_induction (key : α → κ) {motive : List α → Prop} (nil : motive [])
    (cons : ∀ a items, motive (items.filter fun b => key b != key a) → motive (a :: items))
    (items : List α) : motive items := by
  cases items with
  | nil => exact nil
  | cons a items => exact cons a items (firsts_induction key nil cons _)
termination_by items.length
decreasing_by exact Nat.lt_succ_of_le (List.length_filter_le _ _)

variable [LawfulBEq κ]

theorem mem_filter_bne {x a : α} :
    a ∈ items.filter (fun b => key b != key x) ↔ a ∈ items ∧ key a ≠ key x := by
  rw [List.mem_filter, bne_iff_ne]

theorem mem_of_mem_firsts {a : α} (ha : a ∈ firsts key items) : a ∈ items := by
  induction items using firsts_induction key with
  | nil => exact ha
  | cons b items ih =>
    rw [firsts_cons] at ha
    rcases List.mem_cons.1 ha with rfl | ha
    · exact List.mem_cons_self
    · exact List.mem_cons_of_mem _ (mem_filter_bne.1 (ih ha)).1

theorem exists_mem_firsts {a : α} (ha : a ∈ items) : ∃ b ∈ firsts key items, key b = key a := by
  induction items using firsts_induction key with
  | nil => exact absurd ha List.not_mem_nil
  | cons x items ih =>
    rw [firsts_cons]
    by_cases hax : key a = key x
    · exact ⟨x, List.mem_cons_self, hax.symm⟩
    · have ha : a ∈ items := (List.mem_cons.1 ha).resolve_left fun hx => hax (congrArg key hx)
      obtain ⟨b, hb, hba⟩ := ih (mem_filter_bne.2 ⟨ha, hax⟩)
      exact ⟨b, List.mem_cons_of_mem _ hb, hba⟩

theorem firsts_nodup (key : α → κ) (items : List α) : ((firsts key items).map key).Nodup := by
  induction items using firsts_induction key with
  | nil => exact .nil
  | cons a items ih =>
    rw [firsts_cons, List.map_cons, List.nodup_cons]
    refine ⟨fun hmem => ?_, ih⟩
    obtain ⟨b, hb, hba⟩ := List.mem_map.1 hmem
    exact (mem_filter_bne.1 (mem_of_mem_firsts hb)).2 hba

/-- A list with the items of a list in which no key occurs twice. -/
theorem firsts_perm {listed : List α} (hk : (items.map key).Nodup)
    (hmem : ∀ a, a ∈ listed ↔ a ∈ items) : (firsts key listed).Perm items := by
  refine (perm_of_keys hk (firsts_nodup key listed) (fun a ha => ?_) fun a ha => ?_).symm
  · exact (hmem a).1 (mem_of_mem_firsts ha)
  · exact exists_mem_firsts ((hmem a).2 ha)

end Firsts

/-! ### Looking up and replacing -/

variable [DecidableEq κ]

theorem find?_iff (hk : (items.map key).Nodup) {k : κ} {a : α} :
    items.find? (fun b => key b = k) = some a ↔ a ∈ items ∧ key a = k := by
  constructor
  · intro h
    have ha := List.find?_some h
    rw [decide_eq_true_eq] at ha
    exact ⟨List.mem_of_find?_eq_some h, ha⟩
  · rintro ⟨ha, rfl⟩
    cases hfind : items.find? fun b => key b = key a with
    | none =>
      have hnone := List.find?_eq_none.1 hfind a ha
      simp at hnone
    | some b =>
      have hb := List.find?_some hfind
      rw [decide_eq_true_eq] at hb
      rw [eq_of_key hk (List.mem_of_find?_eq_some hfind) ha hb]

/-- The items with a key, where one has it. -/
theorem filter_key (hk : (items.map key).Nodup) {a : α} (ha : a ∈ items) :
    items.filter (fun b => key b = key a) = [a] := by
  have hsingle : ∀ b ∈ items.filter (fun b => key b = key a), b = a := by
    intro b hb
    rw [List.mem_filter, decide_eq_true_eq] at hb
    exact eq_of_key hk hb.1 ha hb.2
  have hmem : a ∈ items.filter fun b => key b = key a :=
    List.mem_filter.2 ⟨ha, decide_eq_true rfl⟩
  have hnodup : (items.filter fun b => key b = key a).Nodup := hk.of_map.filter _
  exact (List.perm_singleton.1 ((List.perm_ext_iff_of_nodup hnodup (List.nodup_singleton a)).2
    fun b => ⟨fun hb => List.mem_singleton.2 (hsingle b hb),
      fun hb => List.mem_singleton.1 hb ▸ hmem⟩))

/-- The items with the given one in the place of the item with its key. -/
def replace (key : α → κ) (x : α) (items : List α) : List α :=
  items.map fun a => if key a = key x then x else a

theorem map_replace {x : α} {g : α → β} (h : ∀ a ∈ items, key a = key x → g a = g x) :
    (replace key x items).map g = items.map g := by
  unfold replace
  rw [List.map_map]
  refine List.map_congr_left fun a ha => ?_
  by_cases hax : key a = key x
  · simp [hax, h a ha hax]
  · simp [hax]

theorem mem_replace {x a : α} :
    a ∈ replace key x items ↔
      (a = x ∧ ∃ b ∈ items, key b = key x) ∨ (a ∈ items ∧ key a ≠ key x) := by
  unfold replace
  rw [List.mem_map]
  constructor
  · rintro ⟨b, hb, rfl⟩
    by_cases hbx : key b = key x
    · rw [if_pos hbx]
      exact .inl ⟨rfl, b, hb, hbx⟩
    · rw [if_neg hbx]
      exact .inr ⟨hb, hbx⟩
  · rintro (⟨rfl, b, hb, hbx⟩ | ⟨ha, hax⟩)
    · exact ⟨b, hb, if_pos hbx⟩
    · exact ⟨a, ha, if_neg hax⟩

theorem replace_of_mem (hk : (items.map key).Nodup) {x : α} (hx : x ∈ items) :
    replace key x items = items := by
  have hid : items.map id = items := List.map_id _
  refine Eq.trans (List.map_congr_left fun a ha => ?_) hid
  by_cases hax : key a = key x
  · simp [eq_of_key hk ha hx hax]
  · simp [hax]

/-- Replacing an item keeps what is selected from the others. -/
theorem filter_replace {x : α} {p : α → Bool} (hx : p x = false)
    (h : ∀ a ∈ items, key a = key x → p a = false) :
    (replace key x items).filter p = items.filter p := by
  induction items with
  | nil => rfl
  | cons a items ih =>
    have hrest := ih fun b hb => h b (List.mem_cons_of_mem _ hb)
    unfold replace at hrest ⊢
    rw [List.map_cons]
    by_cases hax : key a = key x
    · have ha : ¬ p a = true := by simp [h a List.mem_cons_self hax]
      rw [if_pos hax, List.filter_cons_of_neg (by simp [hx]), List.filter_cons_of_neg ha, hrest]
    · rw [if_neg hax, List.filter_cons, List.filter_cons, hrest]

theorem replace_middle {before after : List α} {a x : α}
    (hk : ((before ++ a :: after).map key).Nodup) (hax : key a = key x) :
    replace key x (before ++ a :: after) = before ++ x :: after := by
  obtain ⟨hnotBefore, hnotAfter⟩ := not_mem_of_middle hk
  have hkeep : ∀ items : List α, key a ∉ items.map key → replace key x items = items := by
    intro items hitems
    refine Eq.trans (List.map_congr_left fun b hb => ?_) (List.map_id items)
    exact if_neg fun hbx => hitems (List.mem_map.2 ⟨b, hb, hbx.trans hax.symm⟩)
  have hbefore := hkeep before hnotBefore
  have hafter := hkeep after hnotAfter
  unfold replace at hbefore hafter ⊢
  rw [List.map_append, List.map_cons, if_pos hax, hbefore, hafter]

/-- The items with another key. -/
def others (key : α → κ) (x : α) (items : List α) : List α :=
  items.filter fun a => key a ≠ key x

theorem replace_perm (hk : (items.map key).Nodup) {x a : α} (ha : a ∈ items)
    (hax : key a = key x) : (replace key x items).Perm (x :: others key x items) := by
  induction items with
  | nil => exact absurd ha List.not_mem_nil
  | cons b items ih =>
    rw [List.map_cons, List.nodup_cons] at hk
    unfold replace others
    by_cases hb : key b = key x
    · -- the item stands here and nowhere else
      have hrest : ∀ c ∈ items, key c ≠ key x := fun c hc hcx =>
        hk.1 (List.mem_map.2 ⟨c, hc, hcx.trans hb.symm⟩)
      have hmap : (items.map fun c => if key c = key x then x else c) = items := by
        refine Eq.trans (List.map_congr_left fun c hc => ?_) (List.map_id items)
        rw [if_neg (hrest c hc)]
        rfl
      have hfilter : items.filter (fun c => key c ≠ key x) = items :=
        List.filter_eq_self.2 fun c hc => by simpa using hrest c hc
      rw [List.map_cons, hmap, if_pos hb, List.filter_cons_of_neg (by simpa using hb), hfilter]
    · have ha' : a ∈ items := by
        rcases List.mem_cons.1 ha with rfl | ha
        · exact absurd hax hb
        · exact ha
      have hperm := ih hk.2 ha'
      rw [List.map_cons, if_neg hb, List.filter_cons_of_pos (by simpa using hb)]
      exact (hperm.cons b).trans (.swap x b _)

theorem perm_cons_others (hk : (items.map key).Nodup) {a : α} (ha : a ∈ items) :
    items.Perm (a :: others key a items) := by
  have h := replace_perm hk ha rfl
  rw [replace_of_mem hk ha] at h
  exact h

end Crosswalk.Keyed
