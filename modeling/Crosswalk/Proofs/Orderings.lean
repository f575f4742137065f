import Crosswalk.Catalog.Search
import Mathlib.Data.List.Nodup
import Mathlib.Data.List.Perm.Basic
import Mathlib.Data.Nat.Factorial.Basic

/-!
# Orderings of a list

The orderings of a list are its permutations: an item is put first and the others are ordered, in
every way there is. So the arrangement of the items makes no difference to what is among their
orderings. There are as many orderings as positions can be chosen, and two choices give one ordering
exactly if the list holds an item twice.
-/

namespace Crosswalk

variable {α : Type} {n : Nat} {items l : List α}

theorem length_eraseIdx_of_length_succ (hn : items.length = n + 1) {i : Nat}
    (hi : i < items.length) : (items.eraseIdx i).length = n := by
  rw [List.length_eraseIdx_of_lt hi, hn, Nat.add_sub_cancel]

theorem mem_orderings_go_succ :
    l ∈ orderings.go (n + 1) items ↔
      ∃ (i : Nat) (h : i < items.length), ∃ tail ∈ orderings.go n (items.eraseIdx i),
        items[i] :: tail = l := by
  rw [orderings.go, List.mem_flatMap]
  constructor
  · rintro ⟨⟨first, i⟩, hfirst, hl⟩
    obtain ⟨h, hi⟩ := List.getElem?_eq_some_iff.1 (List.mem_zipIdx_iff_getElem?.1 hfirst)
    obtain ⟨tail, htail, rfl⟩ := List.mem_map.1 hl
    exact ⟨i, h, tail, htail, congrArg (· :: tail) hi⟩
  · rintro ⟨i, h, tail, htail, rfl⟩
    refine ⟨(items[i], i), ?_, List.mem_map_of_mem htail⟩
    exact List.mem_zipIdx_iff_getElem?.2 (List.getElem?_eq_getElem h)

theorem mem_orderings_go (hn : items.length = n) : l ∈ orderings.go n items ↔ l.Perm items := by
  induction n generalizing items l with
  | zero => rw [orderings.go, List.mem_singleton, List.eq_nil_of_length_eq_zero hn, List.perm_nil]
  | succ n ih =>
    have hlength : ∀ {i : Nat}, i < items.length → (items.eraseIdx i).length = n :=
      length_eraseIdx_of_length_succ hn
    rw [mem_orderings_go_succ]
    constructor
    · rintro ⟨i, hi, tail, htail, rfl⟩
      exact (((ih (hlength hi)).1 htail).cons _).trans (List.getElem_cons_eraseIdx_perm hi)
    · intro hperm
      -- what stands first in the permutation stands somewhere in the list
      cases l with
      | nil => rw [← hperm.length_eq] at hn; cases hn
      | cons first tail =>
        obtain ⟨i, hi, rfl⟩ := List.getElem_of_mem (hperm.mem_iff.1 List.mem_cons_self)
        refine ⟨i, hi, tail, (ih (hlength hi)).2 ?_, rfl⟩
        exact (hperm.trans (List.getElem_cons_eraseIdx_perm hi).symm).cons_inv

theorem mem_orderings : l ∈ orderings items ↔ l.Perm items :=
  mem_orderings_go rfl

/-! ### How many there are -/

theorem length_orderings_go (hn : items.length = n) :
    (orderings.go n items).length = n.factorial := by
  induction n generalizing items with
  | zero => rfl
  | succ n ih =>
    have hfirst : items.zipIdx.map (fun p =>
        ((orderings.go n (items.eraseIdx p.2)).map (p.1 :: ·)).length) =
          items.zipIdx.map fun _ => n.factorial := by
      refine List.map_congr_left fun p hp => ?_
      have hi : p.2 < items.length := List.snd_lt_of_mem_zipIdx hp
      rw [List.length_map, ih (length_eraseIdx_of_length_succ hn hi)]
    rw [orderings.go, List.length_flatMap, hfirst, List.map_const', List.sum_replicate_nat,
      List.length_zipIdx, hn, Nat.factorial_succ]

/-! ### Repetitions -/

theorem disjoint_firsts_iff (hn : items.length = n + 1) {i j : Nat} (hi : i < items.length)
    (hj : j < items.length) :
    ((orderings.go n (items.eraseIdx i)).map (items[i] :: ·)).Disjoint
        ((orderings.go n (items.eraseIdx j)).map (items[j] :: ·)) ↔ items[i] ≠ items[j] := by
  constructor
  · intro hdisjoint heq
    have hrest : (items.eraseIdx i).Perm (items.eraseIdx j) := by
      have hi' := List.getElem_cons_eraseIdx_perm hi
      have hj' := List.getElem_cons_eraseIdx_perm hj
      rw [← heq] at hj'
      exact (hi'.trans hj'.symm).cons_inv
    refine hdisjoint (a := items[i] :: items.eraseIdx i) ?_ ?_
    · exact List.mem_map_of_mem
        ((mem_orderings_go (length_eraseIdx_of_length_succ hn hi)).2 (.refl _))
    · rw [heq]
      exact List.mem_map_of_mem
        ((mem_orderings_go (length_eraseIdx_of_length_succ hn hj)).2 hrest)
  · intro hne l hl hl'
    obtain ⟨tail, -, rfl⟩ := List.mem_map.1 hl
    obtain ⟨tail', -, htail⟩ := List.mem_map.1 hl'
    exact hne (List.cons.inj htail).1.symm

theorem pairwise_firsts_iff (hn : items.length = n + 1) :
    (items.zipIdx.Pairwise fun p q =>
      ((orderings.go n (items.eraseIdx p.2)).map (p.1 :: ·)).Disjoint
        ((orderings.go n (items.eraseIdx q.2)).map (q.1 :: ·))) ↔ items.Nodup := by
  rw [List.pairwise_iff_getElem, List.Nodup, List.pairwise_iff_getElem]
  simp only [List.length_zipIdx, List.getElem_zipIdx, Nat.zero_add]
  refine forall₅_congr fun i j hi hj _ => ?_
  exact disjoint_firsts_iff hn hi hj

theorem nodup_orderings_go (hn : items.length = n) :
    (orderings.go n items).Nodup ↔ items.Nodup := by
  induction n generalizing items with
  | zero =>
    rw [List.eq_nil_of_length_eq_zero hn]
    exact iff_of_true (List.nodup_singleton []) List.nodup_nil
  | succ n ih =>
    rw [orderings.go, List.nodup_flatMap]
    constructor
    · rintro ⟨-, hfirsts⟩
      exact (pairwise_firsts_iff hn).1 hfirsts
    · intro hitems
      refine ⟨fun p hp => ?_, (pairwise_firsts_iff hn).2 hitems⟩
      have hi : p.2 < items.length := List.snd_lt_of_mem_zipIdx hp
      have hrest := (ih (length_eraseIdx_of_length_succ hn hi)).2
        (hitems.sublist (List.eraseIdx_sublist _ _))
      exact hrest.map List.cons_injective

/-- The orderings of n items are n! lists, they are the rearrangements of the items, and none occurs
twice exactly if no item does. -/
theorem orderings_exhaust (items : List α) :
    (orderings items).length = items.length.factorial ∧
      (∀ l, l ∈ orderings items ↔ l.Perm items) ∧
      ((orderings items).Nodup ↔ items.Nodup) :=
  ⟨length_orderings_go rfl, fun _ => mem_orderings, nodup_orderings_go rfl⟩

/-- Positions are chosen, and not items. -/
example : orderings ["a", "a"] = [["a", "a"], ["a", "a"]] := rfl

end Crosswalk
