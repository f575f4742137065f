import Crosswalk.Document.Json
import Crosswalk.Proofs.TagSet

/-!
# Texts that are read back

The parts of a document are written as texts. Identities, public identifiers, relations and tags are
read back from what they are written as, the case of digits and the blanks that reading passes over
notwithstanding.
-/

namespace Crosswalk

/-! ### Identities -/

namespace Uuid

theorem take_drop_append {α : Type} (xs : List α) (m n : Nat) :
    (xs.drop m).take n ++ xs.drop (m + n) = xs.drop m := by
  rw [← List.drop_drop, List.take_append_drop]

/-- The five groups of a text of 32 digits. -/
theorem exists_groups {cs : List Char} (h : cs.length = 32) :
    ∃ a b c d e : List Char, cs = a ++ (b ++ (c ++ (d ++ e))) ∧ a.length = 8 ∧ b.length = 4 ∧
      c.length = 4 ∧ d.length = 4 ∧ e.length = 12 := by
  refine ⟨cs.take 8, (cs.drop 8).take 4, (cs.drop 12).take 4, (cs.drop 16).take 4, cs.drop 20,
    ?_, by simp [h], by simp [h], by simp [h], by simp [h], by simp [h]⟩
  rw [take_drop_append cs 16 4, take_drop_append cs 12 4, take_drop_append cs 8 4,
    List.take_append_drop]

theorem unhyphenate?_hyphenate {cs : List Char} (h : cs.length = 32) :
    (hyphenate cs).length = 36 ∧ unhyphenate? (hyphenate cs) = some cs := by
  obtain ⟨a, b, c, d, e, rfl, ha, hb, hc, hd, he⟩ := exists_groups h
  have hgroups : hyphenate (a ++ (b ++ (c ++ (d ++ e)))) =
      a ++ '-' :: (b ++ '-' :: (c ++ '-' :: (d ++ '-' :: e))) := by
    simp [hyphenate, List.drop_append, List.drop_eq_nil_of_le, ha, hb, hc, hd]
  have hlength : (a ++ '-' :: (b ++ '-' :: (c ++ '-' :: (d ++ '-' :: e)))).length = 36 := by
    simp [ha, hb, hc, hd, he]
  rw [hgroups]
  refine ⟨hlength, ?_⟩
  unfold unhyphenate?
  rw [if_pos]
  · simp [List.drop_append, List.drop_eq_nil_of_le, ha, hb, hc, hd]
  · refine ⟨hlength, ?_⟩
    simp [List.getElem?_append, ha, hb, hc, hd]

theorem ofText?_text (id : Uuid) : ofText? id.text = some id := by
  have hlength : (hexDigits 32 id.value).length = 32 := length_hexDigits ..
  obtain ⟨hyphens, hdigits⟩ := unhyphenate?_hyphenate hlength
  have hchars : digitsOf? id.text.toList = some (hexDigits 32 id.value) := by
    rw [text, String.toList_ofList, toChars, digitsOf?, hyphens, if_neg (by decide), if_pos rfl,
      hdigits]
  have hlt : id.value < Nat.pow 16 32 := id.value_lt
  rw [ofText?, hchars, Option.bind_some, ofDigits?, if_pos hlength, readHex_hexDigits hlt]
  exact congrArg some (ext_value (Nat.mod_eq_of_lt id.value_lt))

end Uuid

/-- No run of digits has a blank in it. -/
theorem Text.isBlank_of_isDigit {c : Char} (h : isDigit c = true) : isBlank c = false := by
  have hruns : ∀ start ∈ digitZeros, 13 < start ∧ 0x20 < start ∧
      (start + 10 ≤ 0x85 ∨ 0x85 < start) ∧ (start + 10 ≤ 0xA0 ∨ 0xA0 < start) ∧
      (start + 10 ≤ 0x1680 ∨ 0x1680 < start) ∧ (start + 10 ≤ 0x2000 ∨ 0x205F < start) ∧
      (start + 10 ≤ 0x3000 ∨ 0x3000 < start) := by decide
  obtain ⟨start, hstart, hc⟩ := List.any_eq_true.1 h
  have hrun := hruns start hstart
  simp only [Bool.and_eq_true, decide_eq_true_eq] at hc
  simp only [isBlank, Bool.or_eq_false_iff, Bool.and_eq_false_iff, decide_eq_false_iff_not,
    beq_eq_false_iff_ne]
  omega

namespace ExternalId

theorem trim_text (id : ExternalId) : Text.trim id.text = id.text := by
  have hwell := id.wellFormed
  unfold isExternalId at hwell
  split at hwell
  · rename_i a b c d e f hchars
    simp only [List.all_cons, List.all_nil, Bool.and_true, Bool.and_eq_true] at hwell
    have hfirst : Text.isBlank a = false := Text.isBlank_of_isDigit hwell.1
    have hlast : Text.isBlank f = false := Text.isBlank_of_isDigit hwell.2.2.2.2.2
    refine String.toList_inj.1 ?_
    rw [Text.toList_trim, hchars, Text.trimChars, List.dropWhile_cons, hfirst]
    show Text.trimEnd ([a, b, c, '-', d, e] ++ [f]) = [a, b, c, '-', d, e] ++ [f]
    exact Text.trimEnd_concat hlast
  · cases hwell

theorem ofText?_text (id : ExternalId) : ofText? id.text = some id := by
  unfold ofText?
  simp only [id.trim_text, id.wellFormed, dif_pos]

end ExternalId

theorem Relation.ofText?_text (r : Relation) : ofText? r.text = some r := by
  cases r <;> rfl

/-! ### Tags -/

theorem TagSet.ofList_toList (tags : TagSet) : ofList tags.toList = tags :=
  ext_mem fun _ => mem_ofList

theorem Json.texts?_ofTexts (texts : List String) : (ofTexts texts).texts? = some texts := by
  unfold ofTexts texts?
  dsimp only
  induction texts with
  | nil => rfl
  | cons s texts ih =>
    rw [List.map_cons, List.mapM_cons, ih]
    rfl

end Crosswalk
