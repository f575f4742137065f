import Crosswalk.Text.Order
import Mathlib.Data.List.Basic

/-!
# Sorting and leaving out

The sort is stable, and so it makes no difference whether items are left out before or after it. An
item is sorted in behind the items that come before it strictly, and in front of all others. Where no
two items have one key, the result depends on the items alone.
-/

namespace Crosswalk.Text

variable {α : Type} {key : α → List String} {items before after : List α} {a : α}

/-- One more item in front of a list is sorted in between what comes before it strictly and the
rest. -/
theorem exists_sortOn_cons (key : α → List String) (a : α) (items : List α) :
    ∃ before after, sortOn key items = before ++ after ∧
      (∀ b ∈ before, keyLe (key a) (key b) = false) ∧
      (∀ b ∈ after, keyLe (key a) (key b) = true) ∧
      sortOn key (a :: items) = before ++ a :: after := by
  obtain ⟨before, after, hcons, hitems, hbefore⟩ :=
    @List.mergeSort_cons α (fun b c => keyLe (key b) (key c)) (fun _ _ _ => keyLe_trans)
      (fun b c => keyLe_total (key b) (key c)) a items
  refine ⟨before, after, hitems, fun b hb => by simpa using hbefore b hb, ?_, hcons⟩
  have hsorted : (before ++ a :: after).Pairwise fun b c => keyLe (key b) (key c) = true := by
    rw [← hcons]
    exact pairwise_sortOn key (a :: items)
  exact (List.pairwise_cons.1 (List.pairwise_append.1 hsorted).2.1).1

/-- There is one place only to sort an item in. -/
theorem split_unique {p : α → Bool} {before' after' : List α}
    (h : before ++ after = before' ++ after') (hbefore : ∀ b ∈ before, p b = false)
    (hafter : ∀ b ∈ after, p b = true) (hbefore' : ∀ b ∈ before', p b = false)
    (hafter' : ∀ b ∈ after', p b = true) : before = before' ∧ after = after' := by
  induction before generalizing before' with
  | nil =>
    cases before' with
    | nil => exact ⟨rfl, h⟩
    | cons b before' =>
      rw [List.nil_append] at h
      have hb := hafter b (h ▸ List.mem_cons_self)
      rw [hbefore' b List.mem_cons_self] at hb
      cases hb
  | cons b before ih =>
    cases before' with
    | nil =>
      rw [List.nil_append] at h
      have hb := hafter' b (h ▸ List.mem_cons_self)
      rw [hbefore b List.mem_cons_self] at hb
      cases hb
    | cons b' before' =>
      obtain ⟨rfl, hrest⟩ := List.cons.inj h
      obtain ⟨hbb', haa'⟩ := ih hrest (fun c hc => hbefore c (List.mem_cons_of_mem _ hc))
        fun c hc => hbefore' c (List.mem_cons_of_mem _ hc)
      exact ⟨congrArg _ hbb', haa'⟩

theorem sortOn_cons_eq (h : sortOn key items = before ++ after)
    (hbefore : ∀ b ∈ before, keyLe (key a) (key b) = false)
    (hafter : ∀ b ∈ after, keyLe (key a) (key b) = true) :
    sortOn key (a :: items) = before ++ a :: after := by
  obtain ⟨before', after', h', hbefore', hafter', hcons⟩ := exists_sortOn_cons key a items
  obtain ⟨rfl, rfl⟩ := split_unique (h.symm.trans h') hbefore hafter hbefore' hafter'
  exact hcons

theorem sortOn_filter (key : α → List String) (p : α → Bool) (items : List α) :
    (sortOn key items).filter p = sortOn key (items.filter p) := by
  induction items with
  | nil => simp only [sortOn, List.filter_nil, List.mergeSort_nil]
  | cons a items ih =>
    obtain ⟨before, after, hitems, hbefore, hafter, hcons⟩ := exists_sortOn_cons key a items
    rw [hitems, List.filter_append] at ih
    rw [hcons, List.filter_append]
    cases ha : p a with
    | false =>
      rw [List.filter_cons_of_neg (by simp [ha]), List.filter_cons_of_neg (by simp [ha])]
      exact ih
    | true =>
      rw [List.filter_cons_of_pos ha, List.filter_cons_of_pos ha]
      exact (sortOn_cons_eq ih.symm (fun b hb => hbefore b (List.mem_filter.1 hb).1)
        fun b hb => hafter b (List.mem_filter.1 hb).1).symm

theorem sortOn_of_pairwise (h : items.Pairwise fun a b => keyLe (key a) (key b) = true) :
    sortOn key items = items :=
  List.mergeSort_of_pairwise h

theorem sortOn_singleton (key : α → List String) (a : α) : sortOn key [a] = [a] :=
  List.perm_singleton.1 (sortOn_perm key [a])

theorem keyLe_antisymm {a b : List String} (h : keyLe a b = true) (h' : keyLe b a = true) : a = b :=
  Std.LawfulEqCmp.eq_of_compare (Std.OrientedCmp.isLE_antisymm h h')

theorem keyLe_pair (a b c d : String) :
    keyLe [a, b] [c, d] = ((compare a c).then (compare b d)).isLE := by
  simp only [keyLe, compare, List.compareLex_cons_cons, List.compareLex_nil_nil, Ordering.then_eq]

/-- Items with different keys are sorted in one way, however they are given. -/
theorem sortOn_congr {items' : List α} (h : items.Perm items')
    (hkey : ∀ a ∈ items, ∀ b ∈ items, key a = key b → a = b) :
    sortOn key items = sortOn key items' := by
  refine List.Perm.eq_of_pairwise (fun a b ha hb hab hba => ?_) (pairwise_sortOn key items)
    (pairwise_sortOn key items') ((sortOn_perm key items).trans (h.trans (sortOn_perm key items').symm))
  exact hkey a (mem_sortOn.1 ha) b (h.mem_iff.2 (mem_sortOn.1 hb)) (keyLe_antisymm hab hba)

theorem sortOn_map {β : Type} (key : β → List String) (f : α → β) (items : List α) :
    sortOn key (items.map f) = (sortOn (fun a => key (f a)) items).map f := by
  unfold sortOn
  exact (List.map_mergeSort (f := f) fun _ _ _ _ => rfl).symm

end Crosswalk.Text
