/-!
# Sorting by a key

Lists are sorted by a list of texts computed from each item. Texts compare by their code points,
which is the order of their UTF-8 bytes, and lists of texts from the left. The sort is stable, and
its result has the items of the list.
-/

namespace Crosswalk.Text

/-- Whether the first key comes no later than the second one. -/
def keyLe (a b : List String) : Bool :=
  (compare a b).isLE

/-- The items in ascending order of their keys; items of equal key keep their order. -/
def sortOn {α : Type} (key : α → List String) (items : List α) : List α :=
  items.mergeSort fun a b => keyLe (key a) (key b)

theorem keyLe_trans {a b c : List String} (h₁ : keyLe a b = true) (h₂ : keyLe b c = true) :
    keyLe a c = true :=
  Std.TransCmp.isLE_trans h₁ h₂

theorem keyLe_total (a b : List String) : (keyLe a b || keyLe b a) = true := by
  have h : compare b a = (compare a b).swap := Std.OrientedCmp.eq_swap
  cases hab : compare a b <;> simp [keyLe, h, hab]

theorem sortOn_perm {α : Type} (key : α → List String) (items : List α) :
    (sortOn key items).Perm items :=
  List.mergeSort_perm ..

@[simp]
theorem mem_sortOn {α : Type} {key : α → List String} {items : List α} {a : α} :
    a ∈ sortOn key items ↔ a ∈ items :=
  (sortOn_perm key items).mem_iff

theorem pairwise_sortOn {α : Type} (key : α → List String) (items : List α) :
    (sortOn key items).Pairwise fun a b => keyLe (key a) (key b) = true :=
  @List.pairwise_mergeSort α (fun a b => keyLe (key a) (key b))
    (fun _ _ _ => keyLe_trans) (fun a b => keyLe_total (key a) (key b)) items

end Crosswalk.Text
