import ScopeConfig.Proofs.Import.Discovery
import ScopeConfig.Proofs.Path.Order

/-!
# Expansion is depth first

The edges of a file are followed in the order of its import blocks and, within one pattern, in path
order. Together with `expandAll_eq_closureAll` and the facts about closures this says what a caller
of the expansion gets.

## Main statements

* `edges_sublist_candidates`, `pairwise_le_blockCandidates`: the order in which edges are accepted.
* `settled_of_mem_edges`: an accepted edge leads to a file that was opened or could not be loaded.
* `expandAll_depth_first`: expansion is the depth-first recursion, with what follows from it.
-/

namespace ScopeConfig

open Syntax

namespace Resolver

/-! ## The order of edges -/

/-- The paths of one source are in path order. -/
theorem pairwise_le_of_pathsOf {r : Resolver} {importerDir : Path} {source : String}
    {range : SourceRange} {paths : List Path}
    (h : r.pathsOf importerDir source range = .ok paths) : paths.Pairwise (Path.le · ·) := by
  rcases pathsOf_eq_ok h with ⟨_, found, -, rfl⟩ | ⟨-, rfl⟩
  · have htrans : ∀ p q t : Path, p.le q = true → q.le t = true → p.le t = true :=
      fun _ _ _ => Path.le_trans
    exact List.pairwise_mergeSort htrans Path.le_total found
  · exact List.pairwise_singleton ..

/-- The candidates of an import block come in the order of their paths. -/
theorem pairwise_le_blockCandidates (r : Resolver) (importer : Path) (b : Block) :
    ((r.blockCandidates importer b).map Candidate.path).Pairwise (Path.le · ·) := by
  unfold blockCandidates
  split
  · exact .nil
  · rename_i text range hsource
    split
    · exact .nil
    · rename_i paths hpaths
      simpa [Function.comp_def] using pairwise_le_of_pathsOf hpaths

/-- Edges are accepted in the order of the candidates. -/
theorem edges_sublist_candidates (r : Resolver) (f : SourceFile) (chain : List Path) :
    ((r.edges f chain).1).Sublist ((r.candidates f).map Candidate.edge) := by
  rw [edges_fst, ← map_candidate_verdicts r f chain]
  induction r.verdicts f chain with
  | nil => exact .slnil
  | cons v vs ih =>
    rcases v with ⟨c, _ | fault⟩
    · exact ih.cons_cons c.edge
    · exact ih.cons c.edge

/-! ## The files that edges lead to -/

/-- The file that an accepted edge leads to is opened, unless an edge to it was loaded in vain, and
then the reason is reported. -/
theorem settled_of_mem_edges {r : Resolver} {starts : List SourceFile} {o : Opening} {e : Edge}
    (ho : o ∈ (r.closureAll [] starts).opened) (he : e ∈ o.edges r) :
    e.path ∈ (r.closureAll [] starts).paths ∨
      ∃ e' ∈ (r.closureAll [] starts).loaded, e'.path = e.path ∧ (r.load e').1 = none ∧
        (r.load e').2 ≠ [] ∧ ∀ d ∈ (r.load e').2, d ∈ (r.closureAll [] starts).errors := by
  have hsound := r.sound_closureAll [] starts
  rcases hsound.settled e.path (hsound.closed o ho e he) with hnil | hopen | ⟨e', he', hpath, hfail⟩
  · simp at hnil
  · exact .inl hopen
  · exact .inr ⟨e', he', hpath, hfail, load_errors_ne_nil hfail, hsound.load_reported e' he'⟩

/-- Expansion is the depth-first closure of files under imports. Each call returns, reports and
marks what the recursion does, which goes through the candidates of a file in the order of its
blocks and, within a block, in path order. Over all calls, no path is opened twice, every file is a
start or was reached by an accepted edge of a file before it, and every accepted edge of a file
leads to a file that this or an earlier call opened, or that could not be loaded and was
reported. -/
theorem expandAll_depth_first (r : Resolver) (starts : List SourceFile) :
    (∀ visited f, r.expand visited f = (r.closure visited f).expansion) ∧
      r.expandAll [] starts = (r.closureAll [] starts).expansion ∧
      (∀ f chain, ((r.edges f chain).1).Sublist
        (((f.blocksOf importType).flatMap (r.blockCandidates f.path)).map Candidate.edge)) ∧
      (∀ importer b, ((r.blockCandidates importer b).map Candidate.path).Pairwise (Path.le · ·)) ∧
      ((r.expandAll [] starts).files.map SourceFile.path).Nodup ∧
      (∀ before o after, (r.closureAll [] starts).opened = before ++ o :: after →
        (∃ f ∈ starts, o = ⟨f, [f.path]⟩) ∨ ∃ parent ∈ before, o.ReachedFrom r parent) ∧
      ∀ earlier f later, starts = earlier ++ f :: later →
        let run := r.closureAll [] (earlier ++ [f])
        ∀ o ∈ run.opened, ∀ e ∈ o.edges r,
          e.path ∈ run.paths ∨
            ∃ e' ∈ run.loaded, e'.path = e.path ∧ (r.load e').1 = none ∧ (r.load e').2 ≠ [] ∧
              ∀ d ∈ (r.load e').2, d ∈ run.errors := by
  refine ⟨r.expand_eq_closure, r.expandAll_eq_closureAll [] starts, r.edges_sublist_candidates,
    r.pairwise_le_blockCandidates, ?_, r.grown_closureAll [] starts, ?_⟩
  · rw [expandAll_eq_closureAll]
    show (r.closureAll [] starts).files.map SourceFile.path |>.Nodup
    rw [Closure.map_path_files]
    exact (r.sound_closureAll [] starts).paths_nodup
  · intro earlier f later _ run o ho e he
    exact settled_of_mem_edges ho he

end Resolver

end ScopeConfig
