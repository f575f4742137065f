import Crosswalk.TagSet
import Mathlib.Data.List.Perm.Subperm

/-!
# Tag sets as sets

A tag set is determined by its members. Adding tags that are there already changes nothing, and that
is the case exactly when the number of tags stays the same.
-/

namespace Crosswalk.TagSet

theorem nodup (a : TagSet) : a.toList.Nodup :=
  a.ascending.imp fun h => String.ne_of_lt h

theorem eq_of_perm {a b : TagSet} (h : a.toList.Perm b.toList) : a = b := by
  have hlist : a.toList = b.toList :=
    h.eq_of_pairwise (fun s t _ _ hst hts => absurd hts (String.lt_asymm hst)) a.ascending b.ascending
  cases a
  cases b
  cases hlist
  rfl

theorem ext_mem {a b : TagSet} (h : ∀ t, t ∈ a.toList ↔ t ∈ b.toList) : a = b :=
  eq_of_perm ((List.perm_ext_iff_of_nodup a.nodup b.nodup).2 h)

theorem union_eq_left {a b : TagSet} (h : ∀ t ∈ b.toList, t ∈ a.toList) : a.union b = a := by
  refine ext_mem fun t => ?_
  rw [mem_union]
  exact ⟨fun ht => ht.elim id (h t), .inl⟩

theorem eq_of_size_union {a b : TagSet} (h : (a.union b).size = a.size) : a.union b = a := by
  have hsub : a.toList ⊆ (a.union b).toList := fun t ht => mem_union.2 (.inl ht)
  have hperm := (List.subperm_of_subset a.nodup hsub).perm_of_length_le (Nat.le_of_eq h)
  exact (eq_of_perm hperm).symm

end Crosswalk.TagSet
