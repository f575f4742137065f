import Crosswalk.Proofs.Text.Escaped
import Crosswalk.Store.Search

/-!
# What is written for a tag set

The tags of an entity are stored as one text: a bracket, the escaped tags between quotation marks
with commas between, and a bracket. Every tag is part of it as it is escaped. A part without
quotation marks lies in one of the escaped tags or in one of the seams between the quotation marks.
-/

namespace Crosswalk.Store

open Json

variable {needle rest tag : List Char} {start : Char} {tags : List (List Char)}

/-! ### The text -/

/-- A tag between quotation marks, with what stands before and after them. -/
def aroundTag (start : Char) (tag rest : List Char) : List Char :=
  [start] ++ '"' :: (escaped tag ++ '"' :: rest)

/-- What is written after a tag that these tags follow. -/
def writtenAfter : List (List Char) → List Char
  | [] => [']']
  | tag :: tags => aroundTag ',' tag (writtenAfter tags)

def writtenTags : List (List Char) → List Char
  | [] => ['[', ']']
  | tag :: tags => aroundTag '[' tag (writtenAfter tags)

theorem compactItems_concat (tag : String) (tags : List String) :
    compactItems ((tag :: tags).map Json.text) ++ [']'] =
      '"' :: (escaped tag.toList ++ '"' :: writtenAfter (tags.map String.toList)) := by
  induction tags generalizing tag with
  | nil =>
    rw [List.map_singleton, compactItems, compactChars, quote]
    simp [writtenAfter, escaped]
  | cons next tags ih =>
    rw [List.map_cons, List.map_cons, compactItems, List.append_assoc, List.cons_append,
      ← List.map_cons, ih next, compactChars, quote]
    simp [writtenAfter, aroundTag, escaped]

theorem toList_tagsText (tags : TagSet) :
    (tagsText tags).toList = writtenTags (tags.toList.map String.toList) := by
  rw [tagsText, compact, String.toList_ofList, ofTexts, compactChars]
  cases tags.toList with
  | nil => rfl
  | cons tag tags =>
    rw [compactItems_concat]
    rfl

theorem aroundTag_map_toLower (hstart : start.toLower = start) :
    (aroundTag start tag rest).map Char.toLower =
      aroundTag start (tag.map Char.toLower) (rest.map Char.toLower) := by
  simp only [aroundTag, List.singleton_append, List.map_cons, List.map_append, escaped_map_toLower,
    hstart]
  rfl

theorem writtenAfter_map_toLower (tags : List (List Char)) :
    (writtenAfter tags).map Char.toLower = writtenAfter (tags.map (List.map Char.toLower)) := by
  induction tags with
  | nil => rfl
  | cons tag tags ih => rw [writtenAfter, aroundTag_map_toLower (by decide), ih]; rfl

theorem writtenTags_map_toLower (tags : List (List Char)) :
    (writtenTags tags).map Char.toLower = writtenTags (tags.map (List.map Char.toLower)) := by
  cases tags with
  | nil => rfl
  | cons tag tags =>
    rw [writtenTags, aroundTag_map_toLower (by decide), writtenAfter_map_toLower]
    rfl

/-! ### Its parts -/

theorem escaped_infix_aroundTag : escaped tag <:+: aroundTag start tag rest :=
  List.infix_append' [start, '"'] (escaped tag) ('"' :: rest)

theorem rest_infix_aroundTag : rest <:+: aroundTag start tag rest :=
  ⟨[start, '"'] ++ escaped tag ++ ['"'], [], by simp [aroundTag]⟩

theorem infix_writtenAfter_of_mem (htag : tag ∈ tags) : escaped tag <:+: writtenAfter tags := by
  induction tags with
  | nil => exact absurd htag List.not_mem_nil
  | cons first tags ih =>
    rcases List.mem_cons.1 htag with rfl | htag
    · exact escaped_infix_aroundTag
    · exact (ih htag).trans rest_infix_aroundTag

/-- Every tag is part of the text as it is escaped. -/
theorem infix_writtenTags_of_mem (htag : tag ∈ tags) : escaped tag <:+: writtenTags tags := by
  cases tags with
  | nil => exact absurd htag List.not_mem_nil
  | cons first tags =>
    rcases List.mem_cons.1 htag with rfl | htag
    · exact escaped_infix_aroundTag
    · exact (infix_writtenAfter_of_mem htag).trans rest_infix_aroundTag

theorem infix_aroundTag_iff (hquote : '"' ∉ needle) :
    needle <:+: aroundTag start tag rest ↔
      needle <:+: [start] ∨ needle <:+: escaped tag ∨ needle <:+: rest := by
  rw [aroundTag, infix_append_cons_iff hquote, infix_append_cons_iff hquote]

/-- The stretches outside of the quotation marks after a tag that these tags follow. -/
def seamsAfter : List (List Char) → List (List Char)
  | [] => [[']']]
  | _ :: tags => [','] :: seamsAfter tags

/-- The stretches outside of the quotation marks. -/
def seams : List (List Char) → List (List Char)
  | [] => [['[', ']']]
  | _ :: tags => ['['] :: seamsAfter tags

theorem infix_writtenAfter_iff (hquote : '"' ∉ needle) :
    needle <:+: writtenAfter tags ↔
      (∃ seam ∈ seamsAfter tags, needle <:+: seam) ∨ ∃ tag ∈ tags, needle <:+: escaped tag := by
  induction tags with
  | nil => simp [writtenAfter, seamsAfter]
  | cons tag tags ih =>
    rw [writtenAfter, infix_aroundTag_iff hquote, ih, seamsAfter, List.exists_mem_cons_iff,
      List.exists_mem_cons_iff, or_assoc]
    exact or_congr_right or_left_comm

theorem infix_writtenTags_iff (hquote : '"' ∉ needle) :
    needle <:+: writtenTags tags ↔
      (∃ seam ∈ seams tags, needle <:+: seam) ∨ ∃ tag ∈ tags, needle <:+: escaped tag := by
  cases tags with
  | nil => simp [writtenTags, seams]
  | cons tag tags =>
    rw [writtenTags, infix_aroundTag_iff hquote, infix_writtenAfter_iff hquote, seams,
      List.exists_mem_cons_iff, List.exists_mem_cons_iff, or_assoc]
    exact or_congr_right or_left_comm

/-! ### Searching in it -/

/-- Whether searching for a part in what is written for some tags comes to searching in the tags: it
has no quotation marks and is part of no seam, and searching for it in an escaped tag comes to
searching in the tag. -/
structure Sought (needle : List Char) (tags : List (List Char)) : Prop where
  unquoted : tags ≠ [] → '"' ∉ needle
  no_seam : ∀ seam ∈ seams tags, ¬ needle <:+: seam
  faithful : ∀ tag ∈ tags, Faithful needle tag

instance (needle : List Char) (tags : List (List Char)) : Decidable (Sought needle tags) :=
  decidable_of_iff ((tags ≠ [] → '"' ∉ needle) ∧ (∀ seam ∈ seams tags, ¬ needle <:+: seam) ∧
    ∀ tag ∈ tags, Faithful needle tag) ⟨fun h => ⟨h.1, h.2.1, h.2.2⟩, fun h => ⟨h.1, h.2, h.3⟩⟩

theorem Sought.infix_writtenTags_iff (h : Sought needle tags) :
    needle <:+: writtenTags tags ↔ ∃ tag ∈ tags, needle <:+: tag := by
  by_cases htags : tags = []
  · subst htags
    exact iff_of_false (h.no_seam _ List.mem_cons_self) (by simp)
  · rw [Store.infix_writtenTags_iff (h.unquoted htags)]
    constructor
    · rintro (⟨seam, hseam, hpart⟩ | ⟨tag, htag, hpart⟩)
      · exact absurd hpart (h.no_seam seam hseam)
      · exact ⟨tag, htag, (h.faithful tag htag).infix_escaped_iff.1 hpart⟩
    · rintro ⟨tag, htag, hpart⟩
      exact .inr ⟨tag, htag, (h.faithful tag htag).infix_escaped_iff.2 hpart⟩

end Crosswalk.Store
