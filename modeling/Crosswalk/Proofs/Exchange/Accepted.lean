import Crosswalk.Proofs.Exchange.Header
import Crosswalk.Proofs.Text.Trim

/-!
# Accepted headers

A header announces a node column exactly if it is a kind, a name and an attribute with colons
between. The kind ends at the first colon and the attribute starts after the last one, so that only
the name may hold colons of its own; it is trimmed and must not be blank. Written anew, an accepted
header announces the same column.
-/

namespace Crosswalk

namespace Text

variable {sep : Char} {cs a b : List Char}

theorem not_mem_of_cutLast_eq_none (h : cutLast sep cs = none) : sep ∉ cs := by
  induction cs with
  | nil => exact List.not_mem_nil
  | cons c cs ih =>
    unfold cutLast at h
    split at h
    · cases h
    · rename_i hrest
      split at h
      · cases h
      · rename_i hc
        rw [List.mem_cons, not_or]
        exact ⟨Ne.symm hc, ih hrest⟩

/-- No separator follows the last one. -/
theorem not_mem_of_cutLast (h : cutLast sep cs = some (a, b)) : sep ∉ b := by
  induction cs generalizing a with
  | nil => cases h
  | cons c cs ih =>
    unfold cutLast at h
    split at h
    · rename_i a' b' hrest
      cases h
      exact ih hrest
    · rename_i hrest
      split at h
      · cases h
        exact not_mem_of_cutLast_eq_none hrest
      · cases h

end Text

namespace NodeColumn

variable {text : String} {c : NodeColumn}

/-- Three texts with colons between that are read as a kind, a name and an attribute. -/
structure Parts (first middle last : String) (c : NodeColumn) : Prop where
  kind : NodeKind.ofText? first = some c.kind
  kind_plain : ':' ∉ first.toList
  name : Text.trim middle = c.name
  name_ne : c.name ≠ ""
  attr : Attribute.ofText? (Text.trim last) = some c.attr
  attr_plain : ':' ∉ last.toList

variable {first middle last : String}

theorem toList_joined (first middle last : String) :
    (first ++ ":" ++ middle ++ ":" ++ last).toList =
      first.toList ++ ':' :: (middle.toList ++ ':' :: last.toList) := by
  simp [String.toList_append, List.append_assoc]

theorem Parts.ofHeader (h : Parts first middle last c) :
    ofHeader (first ++ ":" ++ middle ++ ":" ++ last) = .ok (some c) := by
  unfold NodeColumn.ofHeader
  rw [toList_joined, Text.cutFirst_append h.kind_plain]
  simp only [String.ofList_toList, h.kind, Text.cutLast_append h.attr_plain, h.name, h.name_ne,
    if_false, h.attr]

/-- The headers that announce a column. -/
theorem ofHeader_eq_some_iff :
    ofHeader text = .ok (some c) ↔
      ∃ first middle last, text = first ++ ":" ++ middle ++ ":" ++ last ∧
        Parts first middle last c := by
  constructor
  · intro h
    unfold ofHeader at h
    split at h
    · cases h
    · rename_i start rest hfirst
      obtain ⟨htext, hstart⟩ := Text.cutFirst_eq_some hfirst
      split at h
      · cases h
      · rename_i kind hkind
        split at h
        · cases h
        · rename_i name attr hlast
          have hrest := Text.cutLast_eq_some hlast
          have hplain := Text.not_mem_of_cutLast hlast
          dsimp only at h
          split at h
          · cases h
          · rename_i hname
            split at h
            · cases h
            · rename_i _ hattr
              cases h
              refine ⟨String.ofList start, String.ofList name, String.ofList attr, ?_, hkind,
                ?_, rfl, hname, hattr, ?_⟩
              · rw [← String.toList_inj, toList_joined, htext, hrest]
                simp only [String.toList_ofList]
              · rwa [String.toList_ofList]
              · rwa [String.toList_ofList]
  · rintro ⟨first, middle, last, rfl, hparts⟩
    exact hparts.ofHeader

/-- What is written for a kind, a name and an attribute. -/
theorem parts_header (hname : Text.trim c.name ≠ "") :
    Parts c.kind.text c.name c.attr.text { c with name := Text.trim c.name } where
  kind := NodeKind.ofText?_text c.kind
  kind_plain := c.kind.colon_not_mem
  name := rfl
  name_ne := hname
  attr := Attribute.ofText?_trim_text c.attr
  attr_plain := c.attr.colon_not_mem

/-- The header of a kind, a name that is not blank and an attribute announces these, with the name
trimmed. Different columns have different headers. Written anew, the column that a header announces
is announced again. -/
theorem ofHeader_readback :
    (∀ c : NodeColumn, Text.trim c.name ≠ "" →
      ofHeader c.header = .ok (some { c with name := Text.trim c.name })) ∧
    Function.Injective header ∧
    ∀ text c, ofHeader text = .ok (some c) → ofHeader c.header = .ok (some c) := by
  refine ⟨fun c hname => (parts_header hname).ofHeader, fun c c' h => header_injective h, ?_⟩
  intro text c h
  obtain ⟨first, middle, last, -, hparts⟩ := ofHeader_eq_some_iff.1 h
  have htrim : Text.trim c.name = c.name := by
    rw [← hparts.name, Text.trim_trim]
  exact ofHeader_header htrim hparts.name_ne

theorem ofHeader_readback_colons :
    ofHeader (header ⟨.tool, " OWASP: ZAP\n:", .toolType⟩) =
      .ok (some ⟨.tool, "OWASP: ZAP\n:", .toolType⟩) ∧
    ofHeader " standard :\tNIST 800:53 : section_id" =
      .ok (some ⟨.standard, "NIST 800:53", .sectionId⟩) ∧
    ofHeader "Standard:NIST 800:53:section_id" =
      .ok (some ⟨.standard, "NIST 800:53", .sectionId⟩) := by
  obtain ⟨hwritten, -, hread⟩ := ofHeader_readback
  have htrim : Text.trim " OWASP: ZAP\n:" = "OWASP: ZAP\n:" := by decide +kernel
  have hheader : ofHeader " standard :\tNIST 800:53 : section_id" =
      .ok (some ⟨.standard, "NIST 800:53", .sectionId⟩) := by decide +kernel
  refine ⟨?_, hheader, hread _ _ hheader⟩
  rw [hwritten ⟨.tool, " OWASP: ZAP\n:", .toolType⟩ (by rw [htrim]; decide), htrim]

end NodeColumn

end Crosswalk
