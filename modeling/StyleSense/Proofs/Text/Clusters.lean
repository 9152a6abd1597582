/-
# Clusters can be cut anew at their ends

What a table of offsets relies on when it restarts a scan in the middle of a
text: cutting the rest of a text from the end of a cluster finds the clusters
that were left. The clusters of this library have that property, for a cluster
ends on grounds of what it holds itself.
-/

import StyleSense.Text.Cluster

namespace StyleSense.Text

/-- A way to cut texts into clusters. Nothing is asked of where the clusters
end, but that nothing is lost, no cluster is empty, and cutting can start anew
between two clusters. -/
structure IsClustering (cut : List Char → List (List Char)) : Prop where
  flatten_cut : ∀ text, (cut text).flatten = text
  nonempty : ∀ text, ∀ cluster ∈ cut text, cluster ≠ []
  restart : ∀ text before after, cut text = before ++ after → cut after.flatten = after

/-- What is left after the first cluster is cut as a text of its own. -/
theorem clustersFrom_eq_cons (s : ClusterState) (current cs : List Char) :
    ∃ more rest, clustersFrom s current cs = (current.reverse ++ more) :: clusters rest ∧
      cs = more ++ rest := by
  induction cs generalizing s current with
  | nil => exact ⟨[], [], by simp [clustersFrom, clusters], rfl⟩
  | cons c cs ih =>
      by_cases h : s.endsBefore c
      · exact ⟨[], c :: cs, by simp [clustersFrom, clusters, h], rfl⟩
      · obtain ⟨more, rest, hcut, hcs⟩ := ih (s.push c) (c :: current)
        refine ⟨c :: more, rest, ?_, by rw [hcs, List.cons_append]⟩
        simp [clustersFrom, h, hcut]

/-- The first cluster of a text holds its first character, and the others are
the clusters of the rest. -/
theorem clusters_cons (c : Char) (cs : List Char) :
    ∃ more rest, clusters (c :: cs) = (c :: more) :: clusters rest ∧ cs = more ++ rest := by
  simpa [clusters] using clustersFrom_eq_cons (.start c) [c] cs

theorem flatten_clusters (text : List Char) : (clusters text).flatten = text := by
  match text with
  | [] => rfl
  | c :: cs =>
      obtain ⟨more, rest, hcut, hcs⟩ := clusters_cons c cs
      have : rest.length < (c :: cs).length := by
        rw [hcs, List.length_cons, List.length_append]
        omega
      rw [hcut, List.flatten_cons, flatten_clusters rest, hcs, List.cons_append]
termination_by text.length

theorem ne_nil_of_mem_clusters (text : List Char) :
    ∀ cluster ∈ clusters text, cluster ≠ [] := by
  match text with
  | [] => simp [clusters]
  | c :: cs =>
      obtain ⟨more, rest, hcut, hcs⟩ := clusters_cons c cs
      have : rest.length < (c :: cs).length := by
        rw [hcs, List.length_cons, List.length_append]
        omega
      rw [hcut]
      intro cluster hmem
      rcases List.mem_cons.1 hmem with rfl | hmem
      · exact List.cons_ne_nil c more
      · exact ne_nil_of_mem_clusters rest cluster hmem
termination_by text.length

/-- Every tail of the clusters of a text is the clusters of some text. -/
theorem exists_clusters_eq (text : List Char) (before after : List (List Char))
    (h : clusters text = before ++ after) : ∃ rest, clusters rest = after := by
  induction before generalizing text with
  | nil => exact ⟨text, h⟩
  | cons cluster before ih =>
      cases text with
      | nil => simp [clusters] at h
      | cons c cs =>
          obtain ⟨more, rest, hcut, -⟩ := clusters_cons c cs
          rw [hcut, List.cons_append, List.cons.injEq] at h
          exact ih rest h.2

theorem isClustering_clusters : IsClustering clusters where
  flatten_cut := flatten_clusters
  nonempty := ne_nil_of_mem_clusters
  restart text before after h := by
    obtain ⟨rest, rfl⟩ := exists_clusters_eq text before after h
    rw [flatten_clusters]

end StyleSense.Text
