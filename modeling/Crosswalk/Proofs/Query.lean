import Crosswalk.Proofs.Text.Escaped
import Crosswalk.Proofs.Text.Trim
import Crosswalk.Query

/-!
# What queries are read as

A query for nodes has at most three coordinates, and none of them is empty. The word for a
requirement with a colon or a blank, and then a name, is a query for the requirement with this name,
whatever the name is: other words and other colons in it mean nothing. The exceptions are a name in
the form of a public identifier, and a name with a line feed, after which nothing counts as a word.
-/

namespace Crosswalk

theorem isExternalId_cons_eq_false {c : Char} {cs : List Char} (h : Text.isDigit c = false) :
    isExternalId (c :: cs) = false := by
  unfold isExternalId
  split
  · rename_i heq
    obtain ⟨rfl, -⟩ := List.cons.inj heq
    rw [List.all_cons, h, Bool.false_and]
  · rfl

namespace Query

variable {word start name s : String} {said cs rest : List Char} {sep : Char}

/-! ### After a word -/

theorem afterWord?_append (hsaid : said.map Char.toLower = word.toList)
    (hsep : sep = ':' ∨ sep = ' ') (hrest : rest ≠ []) :
    afterWord? word (said ++ sep :: rest) = if '\n' ∈ rest then none else some rest := by
  have hlength : said.length = word.length := by
    rw [← String.length_toList, ← hsaid, List.length_map]
  rw [afterWord?, List.take_left' hlength, if_pos hsaid, List.drop_left' hlength]
  have hmark : (decide (sep = ':') || decide (sep = ' ')) = true := by simpa using hsep
  simp [hmark, hrest]

/-- What begins otherwise than a word has nothing after it. -/
theorem afterWord?_eq_none (hlength : said.length ≤ word.length)
    (h : word.toList.take said.length ≠ said.map Char.toLower) :
    afterWord? word (said ++ cs) = none := by
  rw [afterWord?, if_neg]
  intro hword
  refine h ?_
  rw [← hword, List.map_take, List.take_take, Nat.min_eq_left hlength, List.map_append,
    List.take_left' (List.length_map _)]

theorem ne_nil_of_afterWord? (h : afterWord? word cs = some rest) : cs ≠ [] := by
  rintro rfl
  simp [afterWord?] at h

/-! ### Nodes -/

theorem ofText_nodes {kind : NodeKind} {tokens : List String} {hyperlink : Option String}
    (h : ofText s = .nodes kind tokens hyperlink) :
    tokens.length ≤ 3 ∧ (∀ token ∈ tokens, token ≠ "") ∧ (∀ token ∈ hyperlink, token ≠ "") ∧
      Text.trim s ≠ "" := by
  simp only [ofText] at h
  split at h
  · cases h
  · split at h
    · cases h
    · split at h
      · rename_i found rest hfound
        obtain ⟨word, -, hword⟩ := List.exists_of_findSome?_eq_some hfound
        obtain ⟨rest', hafter, heq⟩ := Option.map_eq_some_iff.1 hword
        obtain ⟨rfl, rfl⟩ := Prod.mk.inj heq
        have hne : ∀ token ∈ coordinates rest', token ≠ "" := fun token htoken => by
          simpa using (List.mem_filter.1 htoken).2
        cases h
        refine ⟨List.length_take_le _ _, fun token htoken => ?_, fun token htoken => ?_, ?_⟩
        · exact hne token (List.mem_of_mem_filter (List.mem_of_mem_take htoken))
        · exact hne token (List.mem_of_find?_eq_some htoken)
        · exact fun hempty => ne_nil_of_afterWord? hafter (by rw [hempty]; rfl)
      · cases h

/-! ### Names of requirements -/

/-- The word for a requirement in any ASCII case, and a colon or a blank. -/
def IsNameMark (start : String) : Prop :=
  Text.lower start = "cre:" ∨ Text.lower start = "cre "

instance (start : String) : Decidable (IsNameMark start) :=
  inferInstanceAs (Decidable (_ ∨ _))

theorem IsNameMark.exists_word (h : IsNameMark start) :
    ∃ said sep, start.toList = said ++ [sep] ∧ said.map Char.toLower = "cre".toList ∧
      (sep = ':' ∨ sep = ' ') := by
  have hlower : ∃ sep, (sep = ':' ∨ sep = ' ') ∧
      start.toList.map Char.toLower = "cre".toList ++ [sep] := by
    rcases h with h | h
    · exact ⟨':', .inl rfl, String.ofList_injective h⟩
    · exact ⟨' ', .inr rfl, String.ofList_injective h⟩
  obtain ⟨sep, hsep, hchars⟩ := hlower
  obtain ⟨said, mark, hstart, hsaid, hmark⟩ := List.map_eq_append_iff.1 hchars
  obtain ⟨c, rfl, hc⟩ := List.map_eq_singleton_iff.1 hmark
  refine ⟨said, c, hstart, hsaid, ?_⟩
  -- neither separator is the small form of a letter
  rcases Json.toLower_cases c with ⟨hge, -, hlower⟩ | hsame
  · have := congrArg Char.toNat hc
    rcases hsep with rfl | rfl
    · exact absurd (hlower.symm.trans this) (by show _ ≠ 58; omega)
    · exact absurd (hlower.symm.trans this) (by show _ ≠ 32; omega)
  · rw [← hsame, hc]
    exact hsep

/-- The word begins with a letter, and so neither with a digit nor with a blank character. -/
theorem exists_letter (hsaid : said.map Char.toLower = "cre".toList) :
    ∃ c letters, said = c :: letters ∧ Text.isDigit c = false ∧ Text.isBlank c = false := by
  obtain ⟨c, letters, rfl, hc, -⟩ := List.map_eq_cons_iff.1 hsaid
  have hletter : c = 'C' ∨ c = 'c' := by
    rcases Json.toLower_cases c with ⟨-, -, hlower⟩ | hsame
    · rw [hc] at hlower
      have hcode : c.toNat = 67 := by
        change 99 = c.toNat + 32 at hlower
        omega
      exact .inl (Char.toNat_inj.1 hcode)
    · exact .inr (hsame ▸ hc)
  refine ⟨c, letters, rfl, ?_⟩
  rcases hletter with rfl | rfl <;> decide

theorem externalId?_of_name (hsaid : said.map Char.toLower = "cre".toList)
    (hsep : sep = ':' ∨ sep = ' ') (hrest : rest ≠ []) (hid : isExternalId rest = false) :
    externalId? (said ++ sep :: rest) = none := by
  have hbare : isExternalId ((afterWord? "cre" (said ++ sep :: rest)).getD
      (said ++ sep :: rest)) = false := by
    rw [afterWord?_append hsaid hsep hrest]
    split
    · obtain ⟨c, letters, rfl, hdigit, -⟩ := exists_letter hsaid
      exact isExternalId_cons_eq_false hdigit
    · exact hid
  simp only [externalId?, hbare, Bool.false_eq_true, if_false]

theorem kindWord?_of_name (hsaid : said.map Char.toLower = "cre".toList) :
    NodeKind.all.findSome? (fun kind =>
      (afterWord? (Text.lower kind.text) (said ++ cs)).map fun rest => (kind, rest)) = none := by
  have hlength : said.length = 3 := by
    rw [← List.length_map (f := Char.toLower), hsaid]
    rfl
  refine List.findSome?_eq_none_iff.2 fun kind _ => ?_
  have hapart : 3 ≤ (Text.lower kind.text).length ∧
      (Text.lower kind.text).toList.take 3 ≠ "cre".toList := by
    cases kind <;> decide
  rw [afterWord?_eq_none (hlength.symm ▸ hapart.1) (hlength.symm ▸ hsaid.symm ▸ hapart.2)]
  rfl

theorem IsNameMark.trim_append (hstart : IsNameMark start) (htrim : Text.trim name = name)
    (hne : name ≠ "") : Text.trim (start ++ name) = start ++ name := by
  obtain ⟨said, sep, hchars, hsaid, -⟩ := hstart.exists_word
  obtain ⟨c, letters, rfl, -, hblank⟩ := exists_letter hsaid
  refine Text.trim_append ?_ (fun hempty => ?_) htrim hne
  · rw [hchars, List.cons_append, List.dropWhile_cons_of_neg (by simp [hblank])]
  · rw [hempty] at hchars
    cases hchars

/-- A query for a requirement by its name. -/
theorem ofText_name (hstart : IsNameMark start) (htrim : Text.trim name = name) (hne : name ≠ "")
    (hid : isExternalId name.toList = false) :
    ofText (start ++ name) =
      if '\n' ∈ name.toList then .text (start ++ name) else .requirementName name := by
  obtain ⟨said, sep, hchars, hsaid, hsep⟩ := hstart.exists_word
  have hrest : name.toList ≠ [] := by simpa using hne
  have hquery : (start ++ name).toList = said ++ sep :: name.toList := by
    rw [String.toList_append, hchars, List.append_assoc]
    rfl
  simp only [ofText]
  rw [hstart.trim_append htrim hne, hquery, externalId?_of_name hsaid hsep hrest hid,
    afterWord?_append hsaid hsep hrest, kindWord?_of_name hsaid]
  by_cases hline : '\n' ∈ name.toList
  · rw [if_pos hline, if_pos hline]
  · rw [if_neg hline, if_neg hline]
    show requirementName (Text.trim (String.ofList name.toList)) = _
    rw [String.ofList_toList, htrim]

end Query

end Crosswalk
