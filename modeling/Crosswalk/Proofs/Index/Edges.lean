import Crosswalk.Proofs.Index.Connected

/-!
# Edges between the same ends

An edge gives way to a new one between the same ends in the same direction. So the ends tell the edges
of a graph apart, however it has been changed.
-/

namespace Crosswalk

/-- The ends of an edge, in its direction. -/
def Edge.ends (e : Edge) : Vertex × Vertex :=
  (e.source, e.target)

namespace Index

/-- No two edges have the same ends in the same direction. -/
def EdgesOnce (ix : Index) : Prop :=
  (ix.edges.map Edge.ends).Nodup

variable {ix : Index}

theorem nodup_ends_setEdge {e : Edge} {es : List Edge} (h : (es.map Edge.ends).Nodup) :
    ((setEdge e es).map Edge.ends).Nodup := by
  induction es with
  | nil => exact List.nodup_singleton _
  | cons f es ih =>
    obtain ⟨hf, hes⟩ := List.nodup_cons.1 h
    rw [setEdge]
    split
    · -- the new edge stands where the old one with its ends stood
      rename_i hends
      have he : e.ends = f.ends := Prod.ext hends.1.symm hends.2.symm
      rw [List.map_cons, he]
      exact h
    · rename_i hends
      refine List.nodup_cons.2 ⟨fun hmem => ?_, ih hes⟩
      obtain ⟨g, hg, hgf⟩ := List.mem_map.1 hmem
      rcases mem_of_mem_setEdge hg with rfl | hg
      · exact hends ⟨(congrArg Prod.fst hgf).symm, (congrArg Prod.snd hgf).symm⟩
      · exact hf (hgf ▸ List.mem_map_of_mem hg)

theorem edges_removeEdge_sublist (l : StoredLink) : (ix.removeEdge l).edges.Sublist ix.edges := by
  unfold removeEdge
  dsimp only
  split
  · exact List.filter_sublist
  · exact List.filter_sublist

namespace EdgesOnce

theorem change (h : ix.EdgesOnce) (step : Change) : (ix.change step).EdgesOnce := by
  unfold EdgesOnce
  cases step with
  | addVertex v =>
    rw [Index.change, addVertex_edges]
    exact h
  | addEdge l =>
    rw [Index.change, edges_addEdge]
    exact nodup_ends_setEdge h
  | removeEdge l => exact h.sublist ((edges_removeEdge_sublist l).map _)

theorem foldl_change (h : ix.EdgesOnce) (changes : List Change) :
    (changes.foldl Index.change ix).EdgesOnce := by
  induction changes generalizing ix with
  | nil => exact h
  | cons step changes ih => exact ih (h.change step)

end EdgesOnce

theorem edgesOnce_evolve (changes : List Change) : (evolve changes).EdgesOnce := by
  have hempty : empty.EdgesOnce := .nil
  exact hempty.foldl_change changes

end Index

end Crosswalk
