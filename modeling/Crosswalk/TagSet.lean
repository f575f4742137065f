/-!
# Tag sets

The tags of an entity are a set of texts, kept in ascending order without repetition, so that two
sets with the same tags are equal.
-/

namespace Crosswalk

structure TagSet where
  toList : List String
  ascending : toList.Pairwise (· < ·)
deriving DecidableEq

namespace TagSet

def empty : TagSet :=
  ⟨[], .nil⟩

instance : Inhabited TagSet := ⟨empty⟩

def size (tags : TagSet) : Nat :=
  tags.toList.length

def isEmpty (tags : TagSet) : Bool :=
  tags.toList.isEmpty

/-- The list with one more text at its place in the order, unless the text is there already. -/
def place (tag : String) : List String → List String
  | [] => [tag]
  | t :: ts => if tag < t then tag :: t :: ts else if tag = t then t :: ts else t :: place tag ts

@[simp]
theorem mem_place {tag t : String} {ts : List String} : t ∈ place tag ts ↔ t = tag ∨ t ∈ ts := by
  induction ts with
  | nil => simp [place]
  | cons u us ih =>
    simp only [place]
    split
    · simp
    · split
      · simp_all
      · simp only [List.mem_cons, ih]
        exact or_left_comm

theorem pairwise_place (tag : String) {ts : List String} (h : ts.Pairwise (· < ·)) :
    (place tag ts).Pairwise (· < ·) := by
  induction ts with
  | nil => simp [place]
  | cons u us ih =>
    have hu := List.pairwise_cons.1 h
    simp only [place]
    split
    · rename_i hlt
      refine List.pairwise_cons.2 ⟨fun t ht => ?_, h⟩
      rcases List.mem_cons.1 ht with rfl | ht
      · exact hlt
      · exact String.lt_trans hlt (hu.1 t ht)
    · split
      · exact h
      · rename_i hlt hne
        refine List.pairwise_cons.2 ⟨fun t ht => ?_, ih hu.2⟩
        rcases mem_place.1 ht with rfl | ht
        · exact String.not_le.1 fun hle => hne (String.le_antisymm hle (String.not_lt.1 hlt))
        · exact hu.1 t ht

def insert (tags : TagSet) (tag : String) : TagSet :=
  ⟨place tag tags.toList, pairwise_place tag tags.ascending⟩

def union (a b : TagSet) : TagSet :=
  b.toList.foldl insert a

def ofList (tags : List String) : TagSet :=
  tags.foldl insert empty

theorem mem_foldl_insert {t : String} (ts : List String) (tags : TagSet) :
    t ∈ (ts.foldl insert tags).toList ↔ t ∈ tags.toList ∨ t ∈ ts := by
  induction ts generalizing tags with
  | nil => simp
  | cons u us ih =>
    simp only [List.foldl_cons, ih, insert, mem_place, List.mem_cons]
    constructor
    · rintro ((h | h) | h) <;> simp [h]
    · rintro (h | h | h) <;> simp [h]

@[simp]
theorem mem_union {t : String} {a b : TagSet} :
    t ∈ (a.union b).toList ↔ t ∈ a.toList ∨ t ∈ b.toList :=
  mem_foldl_insert ..

@[simp]
theorem mem_ofList {t : String} {ts : List String} : t ∈ (ofList ts).toList ↔ t ∈ ts := by
  simp [ofList, mem_foldl_insert, empty]

end TagSet

end Crosswalk
