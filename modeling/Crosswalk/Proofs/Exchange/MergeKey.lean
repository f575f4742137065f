import Crosswalk.Proofs.Exchange.Header
import Crosswalk.Proofs.Exchange.Merge
import Mathlib.Algebra.GroupWithZero.Nat

/-!
# Merge keys

Merge keys tell entities apart: they start differently for requirements with an identifier, for
requirements without one and for nodes. The parts of the key of a node can be told from each other
as long as the character between them occurs equally often in each of them, and so in particular as
long as it does not occur in the parts of one of two nodes.
-/

namespace Crosswalk

variable {ι : Type}

/-! ### Texts with a character between them -/

theorem append_cons_inj_of_count {α : Type} [DecidableEq α] {sep : α} {a b s t : List α}
    (h : a ++ sep :: s = b ++ sep :: t) (hcount : a.count sep = b.count sep) : a = b ∧ s = t := by
  rcases List.append_eq_append_iff.1 h with ⟨u, rfl, hu⟩ | ⟨u, rfl, hu⟩ <;>
    cases u with
    | nil => simpa [eq_comm] using hu
    | cons c u =>
      obtain ⟨rfl, -⟩ := List.cons.inj hu
      simp at hcount

/-- How often a character occurs in a text. -/
def occurrences (c : Char) (s : String) : Nat :=
  s.toList.count c

theorem occurrences_eq_zero {c : Char} {s : String} : occurrences c s = 0 ↔ c ∉ s.toList :=
  List.count_eq_zero

theorem toList_intercalate_cons_cons (sep : Char) (x x' : String) (rest : List String) :
    ((String.singleton sep).intercalate (x :: x' :: rest)).toList =
      x.toList ++ sep :: ((String.singleton sep).intercalate (x' :: rest)).toList := by
  rw [String.intercalate_cons_cons, String.toList_append, String.toList_append,
    String.toList_singleton, List.append_assoc, List.singleton_append]

theorem intercalate_injective {sep : Char} {xs ys : List String}
    (hcount : xs.map (occurrences sep) = ys.map (occurrences sep))
    (h : (String.singleton sep).intercalate xs = (String.singleton sep).intercalate ys) :
    xs = ys := by
  induction xs generalizing ys with
  | nil => exact (List.map_eq_nil_iff.1 hcount.symm).symm
  | cons x xs ih =>
    cases ys with
    | nil => cases hcount
    | cons y ys =>
      obtain ⟨hfirst, hrest⟩ := List.cons.inj hcount
      have hlength := congrArg List.length hrest
      rw [List.length_map, List.length_map] at hlength
      cases xs with
      | nil =>
        obtain rfl := List.eq_nil_of_length_eq_zero hlength.symm
        rw [String.intercalate_singleton, String.intercalate_singleton] at h
        rw [h]
      | cons x' xs =>
        cases ys with
        | nil => cases hlength
        | cons y' ys =>
          -- the separator stands equally often in the first parts, so they end at the same one
          have hchars := congrArg String.toList h
          rw [toList_intercalate_cons_cons, toList_intercalate_cons_cons] at hchars
          obtain ⟨hhead, htail⟩ := append_cons_inj_of_count hchars hfirst
          rw [String.toList_inj.1 hhead, ih hrest (String.toList_inj.1 htail)]

theorem occurrences_intercalate (sep : Char) (x : String) (xs : List String) :
    occurrences sep ((String.singleton sep).intercalate (x :: xs)) =
      ((x :: xs).map (occurrences sep)).sum + xs.length := by
  induction xs generalizing x with
  | nil => simp
  | cons x' xs ih =>
    have htail := ih x'
    unfold occurrences at htail ⊢
    rw [toList_intercalate_cons_cons, List.count_append, List.count_cons_self, htail]
    simp only [List.map_cons, List.sum_cons, List.length_cons]
    omega

/-! ### Keys of requirements -/

theorem append_left_cancel {start a b : String} (h : start ++ a = start ++ b) : a = b := by
  have hlist := congrArg String.toList h
  rw [String.toList_append, String.toList_append] at hlist
  exact String.toList_inj.1 (List.append_cancel_left hlist)

theorem getElem?_append_of_lt {start : String} {i : Nat} (hi : i < start.toList.length)
    (a : String) : (start ++ a).toList[i]? = start.toList[i]? := by
  rw [String.toList_append, List.getElem?_append_left hi]

theorem mergeKey_of_id {r : Requirement ι} {id : ExternalId} (h : r.externalId = some id) :
    mergeKey (.requirement r) = "CRE:id:" ++ id.text := by
  simp only [mergeKey, h]

theorem mergeKey_of_no_id {r : Requirement ι} (h : r.externalId = none) :
    mergeKey (.requirement r) = "CRE:name:" ++ r.name := by
  simp only [mergeKey, h]

theorem id_start_ne_name_start (id name : String) : "CRE:id:" ++ id ≠ "CRE:name:" ++ name := by
  intro h
  have hchar := congrArg (fun s => s.toList[4]?) h
  rw [getElem?_append_of_lt (by decide), getElem?_append_of_lt (by decide)] at hchar
  revert hchar
  decide

/-- Requirements that are merged have one identifier, or one name and no identifier. -/
theorem eq_of_mergeKey_requirement {r q : Requirement ι}
    (h : mergeKey (.requirement r) = mergeKey (.requirement q)) :
    r.externalId = q.externalId ∧ (r.externalId = none → r.name = q.name) := by
  cases hr : r.externalId with
  | none =>
    cases hq : q.externalId with
    | none =>
      rw [mergeKey_of_no_id hr, mergeKey_of_no_id hq] at h
      exact ⟨rfl, fun _ => append_left_cancel h⟩
    | some id' =>
      rw [mergeKey_of_no_id hr, mergeKey_of_id hq] at h
      exact absurd h.symm (id_start_ne_name_start _ _)
  | some id =>
    cases hq : q.externalId with
    | none =>
      rw [mergeKey_of_id hr, mergeKey_of_no_id hq] at h
      exact absurd h (id_start_ne_name_start _ _)
    | some id' =>
      rw [mergeKey_of_id hr, mergeKey_of_id hq] at h
      have htext : ExternalId.textOf (some id) = ExternalId.textOf (some id') :=
        append_left_cancel h
      exact ⟨ExternalId.textOf_injective htext, fun hnone => by cases hnone⟩

/-! ### Keys of nodes -/

/-- The parts of the merge key of a node. -/
def Node.keyParts (n : Node ι) : List String :=
  [n.kind.text, n.name, n.sectionTitle, n.subsection, n.description, n.version]

theorem mergeKey_node (n : Node ι) :
    mergeKey (.node n) = (String.singleton '\u001f').intercalate n.keyParts :=
  rfl

theorem mergeKey_requirement_ne_node (r : Requirement ι) (n : Node ι) :
    mergeKey (.requirement r) ≠ mergeKey (.node n) := by
  intro h
  have hr : (mergeKey (.requirement r)).toList[1]? = some 'R' := by
    cases hid : r.externalId with
    | none =>
      rw [mergeKey_of_no_id hid, getElem?_append_of_lt (by decide)]
      decide
    | some id =>
      rw [mergeKey_of_id hid, getElem?_append_of_lt (by decide)]
      decide
  have hn : (mergeKey (.node n)).toList[1]? ≠ some 'R' := by
    rw [mergeKey_node]
    unfold Node.keyParts
    rw [String.intercalate_cons_cons, String.append_assoc]
    cases n.kind <;> rw [getElem?_append_of_lt (by decide)] <;> decide
  exact hn (h ▸ hr)

theorem key_eq_iff_keyParts {n m : Node ι} : n.key = m.key ↔ n.keyParts = m.keyParts := by
  simp only [Node.key, NodeKey.mk.injEq, Node.keyParts, List.cons.injEq, and_true]
  constructor
  · rintro ⟨hname, hsection, hsubsection, hkind, hdescription, hversion⟩
    exact ⟨congrArg NodeKind.text hkind, hname, hsection, hsubsection, hdescription, hversion⟩
  · rintro ⟨hkind, hname, hsection, hsubsection, hdescription, hversion⟩
    exact ⟨hname, hsection, hsubsection, NodeKind.text_injective hkind, hdescription, hversion⟩

/-- How often the character between the parts of a merge key stands in each part of the key. -/
def Node.separators (n : Node ι) : List Nat :=
  n.keyParts.map (occurrences '\u001f')

/-- Whether that character stands in no part of the key. -/
def Node.Undivided (n : Node ι) : Prop :=
  ∀ part ∈ n.keyParts, '\u001f' ∉ part.toList

theorem key_eq_iff_mergeKey {n m : Node ι} :
    n.key = m.key ↔ mergeKey (.node n) = mergeKey (.node m) ∧ n.separators = m.separators := by
  rw [key_eq_iff_keyParts, mergeKey_node, mergeKey_node]
  constructor
  · intro h
    rw [Node.separators, Node.separators, h]
    exact ⟨rfl, rfl⟩
  · rintro ⟨hkey, hcount⟩
    exact intercalate_injective hcount hkey

theorem sum_separators_of_mergeKey {n m : Node ι}
    (h : mergeKey (.node n) = mergeKey (.node m)) : n.separators.sum = m.separators.sum := by
  have hcount := congrArg (occurrences '\u001f') h
  simp only [mergeKey_node, Node.keyParts, occurrences_intercalate, List.length_cons] at hcount
  exact Nat.add_right_cancel hcount

theorem Node.undivided_iff {n : Node ι} : n.Undivided ↔ n.separators.sum = 0 := by
  simp only [Undivided, separators, List.sum_eq_zero_iff_forall_eq_nat, List.forall_mem_map,
    occurrences_eq_zero]

/-- A merge key shows how many separators its parts hold together, so if the parts of one of two
nodes with one merge key hold none, those of the other hold none either. -/
theorem key_eq_of_undivided {n m : Node ι} (hundivided : n.Undivided ∨ m.Undivided)
    (h : mergeKey (.node n) = mergeKey (.node m)) : n.key = m.key := by
  have hsum := sum_separators_of_mergeKey h
  rw [Node.undivided_iff, Node.undivided_iff, hsum, or_self] at hundivided
  rw [hundivided] at hsum
  have hzero := List.sum_eq_zero_iff_forall_eq_nat.1 hsum
  have hzero' := List.sum_eq_zero_iff_forall_eq_nat.1 hundivided
  have hlength : n.separators.length = m.separators.length := rfl
  refine key_eq_iff_mergeKey.2 ⟨h, ?_⟩
  rw [List.eq_replicate_of_mem hzero, List.eq_replicate_of_mem hzero', hlength]

/-! ### Entities that are alike -/

namespace Entity

/-- Whether two entities are the same by what they are called: requirements with one public
identifier, or with none and one name, and nodes with one key. -/
def Alike : Entity ι → Entity ι → Prop
  | requirement r, requirement q =>
    r.externalId = q.externalId ∧ (r.externalId = none → r.name = q.name)
  | node n, node m => n.key = m.key
  | _, _ => False

instance decidableAlike : (a b : Entity ι) → Decidable (a.Alike b)
  | requirement r, requirement q => inferInstanceAs
      (Decidable (r.externalId = q.externalId ∧ (r.externalId = none → r.name = q.name)))
  | node n, node m => inferInstanceAs (Decidable (n.key = m.key))
  | requirement _, node _ | node _, requirement _ => inferInstanceAs (Decidable False)

/-- The separators in the parts of a merge key; that of a requirement has no such parts. -/
def separators : Entity ι → List Nat
  | requirement _ => []
  | node n => n.separators

/-- Whether no part of the merge key holds a separator. -/
def Undivided : Entity ι → Prop
  | requirement _ => True
  | node n => n.Undivided

variable {a b : Entity ι}

theorem alike_requirement_iff {r q : Requirement ι} :
    (requirement r).Alike (requirement q) ↔
      mergeKey (.requirement r) = mergeKey (.requirement q) := by
  refine ⟨?_, eq_of_mergeKey_requirement⟩
  rintro ⟨hid, hname⟩
  cases hr : r.externalId with
  | none => rw [mergeKey_of_no_id hr, mergeKey_of_no_id (hid ▸ hr), hname hr]
  | some id => rw [mergeKey_of_id hr, mergeKey_of_id (hid ▸ hr)]

/-- Entities are alike exactly when they have one merge key and the separator stands equally often
in each part of it. -/
theorem alike_iff : a.Alike b ↔ mergeKey a = mergeKey b ∧ a.separators = b.separators := by
  cases a <;> cases b
  case requirement.requirement r q => exact alike_requirement_iff.trans (and_iff_left rfl).symm
  case node.node n m => exact key_eq_iff_mergeKey
  case requirement.node r n =>
    exact iff_of_false (fun h => h) fun h => mergeKey_requirement_ne_node r n h.1
  case node.requirement n r =>
    exact iff_of_false (fun h => h) fun h => mergeKey_requirement_ne_node r n h.1.symm

theorem Alike.mergeKey_eq (h : a.Alike b) : mergeKey a = mergeKey b :=
  (alike_iff.1 h).1

/-- One merge key means one entity as soon as no separator stands in a part of one of the keys. -/
theorem mergeKey_eq_iff_alike (h : a.Undivided ∨ b.Undivided) :
    mergeKey a = mergeKey b ↔ a.Alike b := by
  refine ⟨fun hkey => ?_, Alike.mergeKey_eq⟩
  cases a <;> cases b
  case requirement.requirement r q => exact alike_requirement_iff.2 hkey
  case node.node n m => exact key_eq_of_undivided h hkey
  case requirement.node r n => exact absurd hkey (mergeKey_requirement_ne_node r n)
  case node.requirement n r => exact absurd hkey.symm (mergeKey_requirement_ne_node r n)

end Entity

end Crosswalk
