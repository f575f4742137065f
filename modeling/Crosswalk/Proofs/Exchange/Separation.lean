import Crosswalk.Proofs.Exchange.RowRead
import Crosswalk.Proofs.Outline.Levels

/-!
# Entities kept apart

What is read from the rows of a table is merged under merge keys, and so by natural keys as far as
merge keys tell them apart. No two documents are kept for one entity, and a document unites what was
read of its own entity and of no other one, unless the character that stands between the parts of a
merge key also stands in one of them: then the rows of two nodes may be merged into one.
-/

namespace Crosswalk

namespace Merged

variable {read : List (Document Unit)} {entries : List (String × Document Unit)}

/-- How the documents of a table answer to what its rows are read as. Each row that is not listed is
among what was merged as a whole; there is one document for each entity, and it unites what was read
under its merge key: what is alike, as long as no separator stands in a part of the key. -/
structure Separates (results : List (Except Failure (List (Document Unit))))
    (read : List (Document Unit)) (decoded : Decoded) : Prop where
  subset : read ⊆ contents results
  whole : ∀ (n : Nat) (result : Except Failure (List (Document Unit))),
    results[n]? = some result →
      n + 1 ∈ decoded.failures.map (·.1) ∨ ∃ ds, result = .ok ds ∧ ds ⊆ read
  distinct : decoded.documents.Pairwise fun a b => ¬ a.entity.Alike b.entity
  covered : ∀ d ∈ read, ∃ kept ∈ decoded.documents, mergeKey kept.entity = mergeKey d.entity ∧
    (d.entity.Undivided → kept.entity.Alike d.entity)
  united : ∀ kept ∈ decoded.documents, United (under (mergeKey kept.entity) read) kept ∧
    (kept.entity.Undivided →
      under (mergeKey kept.entity) read = read.filter fun d => kept.entity.Alike d.entity)

namespace Unites

theorem distinct (h : Unites read entries) :
    (entries.map (·.2)).Pairwise fun a b => ¬ a.entity.Alike b.entity := by
  refine List.pairwise_map.2 ((List.pairwise_map.1 h.nodup).imp_of_mem ?_)
  intro p q hp hq hne halike
  exact hne ((h.filed p hp).trans (halike.mergeKey_eq.trans (h.filed q hq).symm))

theorem exists_alike (h : Unites read entries) {d : Document Unit} (hd : d ∈ read) :
    ∃ kept ∈ entries.map (·.2), mergeKey kept.entity = mergeKey d.entity ∧
      (d.entity.Undivided → kept.entity.Alike d.entity) := by
  obtain ⟨p, hp, hkey, -⟩ := h.exists_of_mem hd
  exact ⟨p.2, List.mem_map_of_mem hp, hkey, fun hundivided =>
    (Entity.mergeKey_eq_iff_alike (.inr hundivided)).1 hkey⟩

theorem united_mergeKey (h : Unites read entries) {kept : Document Unit}
    (hkept : kept ∈ entries.map (·.2)) : United (under (mergeKey kept.entity) read) kept := by
  obtain ⟨p, hp, rfl⟩ := List.mem_map.1 hkept
  exact h.filed p hp ▸ h.united p hp

end Unites

/-- Under the merge key of an undivided entity there is nothing but what is alike. -/
theorem under_mergeKey {e : Entity Unit} (hundivided : e.Undivided) :
    under (mergeKey e) read = read.filter fun d => e.Alike d.entity := by
  refine List.filter_congr fun d _ => decide_eq_decide.2 ?_
  rw [← Entity.mergeKey_eq_iff_alike (.inl hundivided), eq_comm]

theorem exists_separates (results : List (Except Failure (List (Document Unit)))) :
    ∃ read, Separates results read (empty.addResults 1 results).decoded := by
  obtain ⟨read, hsubset, hunites, hwhole⟩ := unites_nil.addResults (m := empty) 1 results
  rw [List.nil_append] at hunites
  refine ⟨read, hsubset, fun n result hresult => ?_, hunites.distinct,
    fun d hd => hunites.exists_alike hd,
    fun kept hkept => ⟨hunites.united_mergeKey hkept, under_mergeKey⟩⟩
  rw [Nat.add_comm]
  exact hwhole n result hresult

end Merged

open Merged

variable {ι : Type}

/-- Merge keys tell entities apart. Two entities are alike exactly when they have one merge key and
equally many separators in each part of it, and so one merge key means one entity as soon as the
parts of one of the two hold no separator. From a table of either form, therefore, one document is
read for each such entity, and nothing is merged into it that was read of another one. -/
theorem mergeKey_separates :
    (∀ a b : Entity ι, a.Alike b ↔ mergeKey a = mergeKey b ∧ a.separators = b.separators) ∧
      (∀ a b : Entity ι, a.Undivided ∨ b.Undivided → (mergeKey a = mergeKey b ↔ a.Alike b)) ∧
      (∀ (t : Table) (layout : Sheet.Layout), Sheet.Layout.ofHeaders t.headers = .ok layout →
        ∃ decoded, Sheet.decode t = .ok decoded ∧
          ∃ read, Separates (t.rows.map (Sheet.rowDocuments layout)) read decoded) ∧
      ∀ (t : Table) (layout : Outline.Layout), Outline.Layout.ofHeaders t.headers = .ok layout →
        ∃ decoded, Outline.decode t = .ok decoded ∧ ∃ read,
          Separates (Outline.readings layout (Outline.start layout) t.rows) read decoded := by
  refine ⟨fun a b => Entity.alike_iff, fun a b => Entity.mergeKey_eq_iff_alike, ?_, ?_⟩
  · intro t layout hlayout
    exact ⟨_, Sheet.decode_eq hlayout, exists_separates _⟩
  · intro t layout hlayout
    exact ⟨_, Outline.decode_eq hlayout, exists_separates _⟩

/-- A section of a standard. -/
def sectionOf (title subsection : String) : Entity Unit :=
  .node ⟨(), "S", "", .empty, .standard title subsection "" ""⟩

/-- A section that stands in two rows, and between them one with a separator in its title. -/
def dividedTitle : Table where
  headers := ["Standard:S:section", "Standard:S:subsection"]
  rows := [["1", "2"], ["1\u001f2", ""], ["1", "2"]]
  widths := by decide

/-- A requirement in a requirement, both with a separator in their names. -/
def dividedNames : Table where
  headers := Outline.levelHeaders 2
  rows := [["A\u001fB", ""], ["", "A\u001fC"]]
  widths := by decide

theorem mergeKey_separates_divided :
    ((sectionOf "1" "2").Undivided ∧
        (mergeKey (sectionOf "1" "2") = mergeKey (sectionOf "1\u001f2" "") ↔
          (sectionOf "1" "2").Alike (sectionOf "1\u001f2" ""))) ∧
      (∃ layout, Sheet.Layout.ofHeaders dividedTitle.headers = .ok layout ∧
        ∃ decoded, Sheet.decode dividedTitle = .ok decoded ∧
          ∃ read, Separates (dividedTitle.rows.map (Sheet.rowDocuments layout)) read decoded) ∧
      ∃ layout, Outline.Layout.ofHeaders dividedNames.headers = .ok layout ∧
        ∃ decoded, Outline.decode dividedNames = .ok decoded ∧
          ∃ read, Separates
            (Outline.readings layout (Outline.start layout) dividedNames.rows) read decoded := by
  obtain ⟨-, hkeys, hsheet, houtline⟩ := mergeKey_separates (ι := Unit)
  have hundivided : (sectionOf "1" "2").Undivided := by
    show ∀ part ∈ _, _
    decide
  refine ⟨⟨hundivided, hkeys _ _ (.inl hundivided)⟩, ?_, ?_⟩
  · have hheaders : (Sheet.Layout.ofHeaders dividedTitle.headers).toOption.map (·.headers) =
        some dividedTitle.headers := by decide +kernel
    obtain ⟨layout, h, -⟩ := exists_ok_of_toOption hheaders
    exact ⟨layout, h, hsheet dividedTitle layout h⟩
  · have h : Outline.Layout.ofHeaders dividedNames.headers =
        .ok ⟨Outline.levelHeaders 2, List.range 2, []⟩ :=
      Outline.ofHeaders_levelHeaders (by decide) (by decide)
    exact ⟨_, h, houtline dividedNames _ h⟩

/-- Two sections whose texts differ only by where a separator stands in them. -/
def blurred : Table where
  headers := ["Standard:S:section", "Standard:S:subsection"]
  rows := [["1\u001f2", "3"], ["1", "2\u001f3"]]
  widths := by decide

/-- Two nodes with different keys and one merge key: they are merged, and one of them is lost
without a failure. -/
theorem exists_nodes_merged :
    (¬ ∀ a b : Entity Unit, mergeKey a = mergeKey b ↔ a.Alike b) ∧
      ∃ decoded, Sheet.decode blurred = .ok decoded ∧ decoded.failures = [] ∧
        decoded.documents.map (·.entity) = [sectionOf "1\u001f2" "3"] := by
  constructor
  · intro hall
    have hkeys : mergeKey (sectionOf "1\u001f2" "3") = mergeKey (sectionOf "1" "2\u001f3") := by
      decide +kernel
    have halike := (hall _ _).1 hkeys
    revert halike
    decide +kernel
  · have hread : (Sheet.decode blurred).toOption.map
        (fun decoded => (decoded.failures, decoded.documents.map (·.entity))) =
          some ([], [sectionOf "1\u001f2" "3"]) := by decide +kernel
    obtain ⟨decoded, hdecode, hdecoded⟩ := exists_ok_of_toOption hread
    obtain ⟨hfailures, hentities⟩ := Prod.mk.inj hdecoded
    exact ⟨decoded, hdecode, hfailures, hentities⟩

end Crosswalk
