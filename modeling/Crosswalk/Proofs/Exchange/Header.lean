import Crosswalk.Exchange.Sheet
import Crosswalk.Proofs.Text.Digit

/-!
# Headers

The headers that are written are read as they were meant, and different columns have different
headers: the kind of a node column ends at the first colon and its attribute starts after the last
one, whatever the name between them holds; the number of a linked requirement holds digits only.
-/

namespace Crosswalk

/-! ### Node columns -/

theorem NodeKind.colon_not_mem (kind : NodeKind) : ':' ∉ kind.text.toList := by
  cases kind <;> decide

theorem Attribute.colon_not_mem (attr : Attribute) : ':' ∉ attr.text.toList := by
  cases attr <;> decide

theorem NodeKind.ofText?_text (kind : NodeKind) : NodeKind.ofText? kind.text = some kind := by
  cases kind <;> decide +kernel

theorem NodeKind.text_injective {k k' : NodeKind} (h : k.text = k'.text) : k = k' := by
  rw [← Option.some.injEq, ← ofText?_text k, ← ofText?_text k', h]

theorem Attribute.ofText?_trim_text (attr : Attribute) :
    Attribute.ofText? (Text.trim attr.text) = some attr := by
  cases attr <;> decide +kernel

theorem Attribute.text_injective {a a' : Attribute} (h : a.text = a'.text) : a = a' := by
  rw [← Option.some.injEq, ← ofText?_trim_text a, ← ofText?_trim_text a', h]

namespace NodeColumn

theorem toList_header (c : NodeColumn) :
    c.header.toList =
      c.kind.text.toList ++ ':' :: (c.name.toList ++ ':' :: c.attr.text.toList) := by
  simp [header, String.toList_append, List.append_assoc]

theorem header_injective {c c' : NodeColumn} (h : c.header = c'.header) : c = c' := by
  have hlist := congrArg String.toList h
  rw [toList_header, toList_header] at hlist
  have hfirst := congrArg (Text.cutFirst ':') hlist
  rw [Text.cutFirst_append c.kind.colon_not_mem, Text.cutFirst_append c'.kind.colon_not_mem,
    Option.some.injEq, Prod.mk.injEq] at hfirst
  have hlast := congrArg (Text.cutLast ':') hfirst.2
  rw [Text.cutLast_append c.attr.colon_not_mem, Text.cutLast_append c'.attr.colon_not_mem,
    Option.some.injEq, Prod.mk.injEq] at hlast
  obtain ⟨kind, name, attr⟩ := c
  obtain ⟨kind', name', attr'⟩ := c'
  have hkind : kind = kind' := NodeKind.text_injective (String.toList_inj.1 hfirst.1)
  have hname : name = name' := String.toList_inj.1 hlast.1
  have hattr : attr = attr' := Attribute.text_injective (String.toList_inj.1 hlast.2)
  rw [hkind, hname, hattr]

theorem ofHeader_header {c : NodeColumn} (hname : Text.trim c.name = c.name) (hne : c.name ≠ "") :
    ofHeader c.header = .ok (some c) := by
  unfold ofHeader
  rw [toList_header, Text.cutFirst_append c.kind.colon_not_mem]
  simp only [String.ofList_toList, NodeKind.ofText?_text, Text.cutLast_append c.attr.colon_not_mem,
    hname, hne, if_false, Attribute.ofText?_trim_text]

end NodeColumn

/-! ### Columns of linked requirements -/

theorem Text.trimEnd_cons {c : Char} {cs : List Char} (h : isBlank c = false) :
    trimEnd (c :: cs) = c :: trimEnd cs := by
  unfold trimEnd
  rw [List.reverse_cons, List.dropWhile_append]
  by_cases hempty : (cs.reverse.dropWhile isBlank).isEmpty = true
  · rw [if_pos hempty, List.isEmpty_iff.1 hempty]
    simp [h]
  · rw [if_neg hempty, List.reverse_append]
    rfl

theorem Text.after?_append (start rest : String) : Text.after? start (start ++ rest) = some rest := by
  have hprefix : start.toList.isPrefixOf (start ++ rest).toList = true := by
    rw [String.toList_append]
    exact List.isPrefixOf_iff_prefix.2 (List.prefix_append _ _)
  rw [Text.after?, if_pos hprefix, String.toList_append, List.drop_left, String.ofList_toList]

theorem NodeKind.ofText?_eq_none {cs : List Char} : ofText? (String.ofList ('L' :: cs)) = none := by
  have htrim : (Text.trim (String.ofList ('L' :: cs))).toList = 'L' :: Text.trimEnd cs := by
    rw [Text.toList_trim, String.toList_ofList, Text.trimChars,
      List.dropWhile_cons_of_neg (by decide), Text.trimEnd_cons (by decide)]
  have hlower : ∀ kind : NodeKind,
      Text.equalFolded kind.text (Text.trim (String.ofList ('L' :: cs))) = false := by
    intro kind
    unfold Text.equalFolded Text.lower
    rw [htrim, beq_eq_false_iff_ne]
    intro h
    have hlist := congrArg String.toList h
    rw [String.toList_ofList, String.toList_ofList, List.map_cons] at hlist
    have hhead := congrArg List.head? hlist
    rw [List.head?_cons] at hhead
    revert hhead
    cases kind <;> decide +kernel
  unfold ofText?
  rw [List.find?_eq_none]
  intro kind _
  rw [hlower kind]
  simp

namespace Sheet

theorem toList_peerHeader (i : Nat) (attr : String) :
    (peerHeader i attr).toList =
      ("Linked_CRE_".toList ++ (toString i).toList) ++ ':' :: attr.toList := by
  simp [peerHeader, String.toList_append, List.append_assoc]

theorem head?_peerHeader (i : Nat) (attr : String) : (peerHeader i attr).toList.head? = some 'L' := by
  have hstart : "Linked_CRE_".toList = 'L' :: "inked_CRE_".toList := by decide
  rw [toList_peerHeader, hstart]
  rfl

theorem colon_not_mem_toString (i : Nat) : ':' ∉ (toString i).toList := fun h =>
  absurd (Text.isAsciiDigit_of_mem_toString h) (by decide)

theorem colon_not_mem_peerStart (i : Nat) :
    ':' ∉ "Linked_CRE_".toList ++ (toString i).toList := by
  rw [List.mem_append, not_or]
  exact ⟨by decide, colon_not_mem_toString i⟩

theorem peerHeader_injective {i j : Nat} {attr attr' : String}
    (h : peerHeader i attr = peerHeader j attr') : i = j ∧ attr = attr' := by
  have hlist := congrArg String.toList h
  rw [toList_peerHeader, toList_peerHeader] at hlist
  have hcut := congrArg (Text.cutFirst ':') hlist
  rw [Text.cutFirst_append (colon_not_mem_peerStart i),
    Text.cutFirst_append (colon_not_mem_peerStart j), Option.some.injEq, Prod.mk.injEq] at hcut
  have hdigits := List.append_cancel_left hcut.1
  exact ⟨Text.toString_injective (String.toList_inj.1 hdigits), String.toList_inj.1 hcut.2⟩

theorem after?_peerHeader (i : Nat) (attr : String) :
    Text.after? "Linked_CRE_" (peerHeader i attr) =
      some (String.ofList ((toString i).toList ++ ':' :: attr.toList)) := by
  have hheader : peerHeader i attr =
      "Linked_CRE_" ++ String.ofList ((toString i).toList ++ ':' :: attr.toList) :=
    String.toList_inj.1 (by simp [toList_peerHeader])
  rw [hheader, Text.after?_append]

theorem peerColumn?_peerHeader {i : Nat} {attr : String} (hattr : attr ∈ peerAttributes)
    (hi : i < UInt64.size) : peerColumn? (peerHeader i attr) = some (i, attr) := by
  have hcontains : peerAttributes.contains attr = true := List.contains_iff_mem.2 hattr
  unfold peerColumn?
  rw [after?_peerHeader]
  simp only [bind, Option.bind, String.toList_ofList,
    Text.cutFirst_append (colon_not_mem_toString i), String.ofList_toList, hcontains, if_true,
    Text.parseCount?_toString hi]
  rfl

theorem mem_peerIndices {headers : List String} {i : Nat} {attr : String}
    (hattr : attr ∈ ["id", "name"]) (hi : i + 1 < UInt64.size) (h : peerHeader i attr ∈ headers) :
    i ∈ peerIndices headers := by
  have hmem : attr ∈ peerAttributes ∧ attr ≠ "link_type" := by
    simp only [List.mem_cons, List.not_mem_nil, or_false] at hattr
    rcases hattr with rfl | rfl <;> decide
  have hcolumn : peerColumn? (peerHeader i attr) = some (i, attr) :=
    peerColumn?_peerHeader hmem.1 (by omega)
  unfold peerIndices
  rw [List.mem_mergeSort, List.mem_eraseDups, List.mem_filterMap]
  refine ⟨_, h, ?_⟩
  rw [hcolumn]
  simp [hi, hmem.2]

theorem ofHeader_peerHeader (i : Nat) (attr : String) :
    NodeColumn.ofHeader (peerHeader i attr) = .ok none := by
  have hstart : "Linked_CRE_".toList = 'L' :: "inked_CRE_".toList := by decide
  unfold NodeColumn.ofHeader
  rw [toList_peerHeader, Text.cutFirst_append (colon_not_mem_peerStart i), hstart]
  simp only [List.cons_append, NodeKind.ofText?_eq_none]

/-! ### Columns of the requirement itself -/

theorem ofHeader_own {h : String} (hh : h ∈ [idHeader, nameHeader, descriptionHeader]) :
    NodeColumn.ofHeader h = .ok none := by
  simp only [List.mem_cons, List.not_mem_nil, or_false] at hh
  rcases hh with rfl | rfl | rfl <;> decide +kernel

theorem peerHeader_ne_own {h : String} (hh : h ∈ [idHeader, nameHeader, descriptionHeader]) (i : Nat)
    (attr : String) : peerHeader i attr ≠ h := by
  intro heq
  have hhead := congrArg (fun s => s.toList.head?) heq
  simp only [head?_peerHeader] at hhead
  simp only [List.mem_cons, List.not_mem_nil, or_false] at hh
  rcases hh with rfl | rfl | rfl <;> revert hhead <;> decide +kernel

end Sheet

end Crosswalk
