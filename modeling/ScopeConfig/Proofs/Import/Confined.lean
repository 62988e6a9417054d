import ScopeConfig.Proofs.Import.Closure
import ScopeConfig.Proofs.Import.Verdict

/-!
# What imports can read

To follow imports is to ask a provider which files there are, and for the texts of those that edges
lead to. Which edges are accepted depends on no text but that of the importer, and all that are
accepted lead to paths under the project root. Two providers that have the same files, with the same
texts under the root, therefore give the same expansion: the walks over them take the same steps,
because the edges of all open frames stay under the root.

## Main statements

* `Walk.under_step`: a step keeps all edges under the root.
* `Resolver.expandAll_congr`: expansion does not depend on texts outside the root.
-/

namespace ScopeConfig

open Syntax

/-- Providers that differ at most in the texts of files outside the directory `root`. -/
structure Provider.AgreeUnder (root : Path) (p p' : Provider) : Prop where
  isFile_eq : ∀ path, p'.isFile path = p.isFile path
  list_eq : ∀ dir, p'.list dir = p.list dir
  glob_eq : ∀ pattern, p'.glob pattern = p.glob pattern
  read_eq : ∀ path, path.startsWith root = true → p'.read path = p.read path

/-- Every edge that a walk has left leads to a path under `root`. -/
def Walk.Under (root : Path) (w : Walk) : Prop :=
  ∀ frame ∈ w.frames, ∀ e ∈ frame.edges, e.path.startsWith root = true

section Congruence

variable {r : Resolver} {p' : Provider}

namespace Resolver

/-- The edges of a file are under the root. -/
theorem startsWith_of_mem_edges {f : SourceFile} {chain : List Path} {e : Edge}
    (he : e ∈ (r.edges f chain).1) : e.path.startsWith r.root = true :=
  (checks_of_mem_edges he).1

/-- No check of an edge asks the provider. -/
theorem acceptPaths_congr (importer : Path) (chain : List Path) (source : String)
    (range : SourceRange) (accepted : List Edge) (paths : List Path) :
    { r with provider := p' }.acceptPaths importer chain source range accepted paths =
      r.acceptPaths importer chain source range accepted paths := by
  have hfault : ∀ accepted path,
      { r with provider := p' }.edgeFault? importer chain accepted source path =
        r.edgeFault? importer chain accepted source path := fun _ _ => rfl
  induction paths generalizing accepted with
  | nil => rfl
  | cons path paths ih => simp only [acceptPaths, hfault, ih]

section Agree

variable (h : r.provider.AgreeUnder r.root p')
include h

/-- What a source stands for depends on which files there are, not on any text. -/
theorem pathsOf_congr (importerDir : Path) (source : String) (range : SourceRange) :
    { r with provider := p' }.pathsOf importerDir source range =
      r.pathsOf importerDir source range := by
  simp only [pathsOf, h.glob_eq, h.isFile_eq]

/-- Accepting import blocks is the same for two providers that agree under the root. -/
theorem acceptBlocks_congr (importer : Path) (chain : List Path) (accepted : List Edge)
    (blocks : List Block) :
    { r with provider := p' }.acceptBlocks importer chain accepted blocks =
      r.acceptBlocks importer chain accepted blocks := by
  induction blocks generalizing accepted with
  | nil => rfl
  | cons b blocks ih =>
    have hblock : { r with provider := p' }.acceptBlock importer chain accepted b =
        r.acceptBlock importer chain accepted b := by
      simp only [acceptBlock, pathsOf_congr h, acceptPaths_congr]
    simp only [acceptBlocks, hblock, ih]

/-- The edges of a file depend on the text of no other file. -/
theorem edges_congr (f : SourceFile) (chain : List Path) :
    { r with provider := p' }.edges f chain = r.edges f chain :=
  acceptBlocks_congr h f.path chain [] _

/-- What an edge to a path under the root leads to. -/
theorem load_congr {e : Edge} (he : e.path.startsWith r.root = true) :
    { r with provider := p' }.load e = r.load e := by
  simp only [load, h.read_eq e.path he]
  rfl

end Agree

end Resolver

namespace Walk

open Resolver

/-- Every edge with which a walk starts leads to a path under the root. -/
theorem under_start (visited : List Path) (f : SourceFile) :
    (start r visited f).Under r.root := by
  intro frame hframe e he
  obtain rfl := List.mem_singleton.1 hframe
  exact startsWith_of_mem_edges he

/-- A step keeps all edges under the root: it drops edges, or opens a frame with the edges of a
file. -/
theorem under_step {w : Walk} (hw : w.Under r.root) : (w.step r).Under r.root := by
  unfold step
  split
  · exact hw
  · rename_i hframes
    exact fun frame hframe => hw frame (hframes ▸ List.mem_cons_of_mem _ hframe)
  · rename_i path e edges frames hframes
    -- whether or not the edge is taken, the edges that stay open are those of the walk before
    have hrest : ∀ frame ∈ (⟨path, edges⟩ :: frames : List Frame), ∀ e ∈ frame.edges,
        e.path.startsWith r.root = true := by
      intro frame hframe e' he'
      rcases List.mem_cons.1 hframe with rfl | hframe
      · exact hw ⟨path, e :: edges⟩ (hframes ▸ List.mem_cons_self) e' (List.mem_cons_of_mem _ he')
      · exact hw frame (hframes ▸ List.mem_cons_of_mem _ hframe) e' he'
    dsimp only
    split
    · exact hrest
    · split
      · exact hrest
      · intro frame hframe e' he'
        rcases List.mem_cons.1 hframe with rfl | hframe
        · exact startsWith_of_mem_edges he'
        · exact hrest frame hframe e' he'

section Agree

variable (h : r.provider.AgreeUnder r.root p')
include h

/-- The start of a walk is the same for two providers that agree under the root. -/
theorem start_congr (visited : List Path) (f : SourceFile) :
    start { r with provider := p' } visited f = start r visited f := by
  simp only [start, edges_congr h]

/-- Walks over the two providers take the same step. -/
theorem step_congr {w : Walk} (hw : w.Under r.root) :
    w.step { r with provider := p' } = w.step r := by
  unfold step
  split
  · rfl
  · rfl
  · rename_i path e edges frames hframes
    have he : e.path.startsWith r.root = true :=
      hw ⟨path, e :: edges⟩ (hframes ▸ List.mem_cons_self) e List.mem_cons_self
    simp only [load_congr h he, edges_congr h]

/-- Walks over the two providers end alike: by induction on the steps of one of them, all edges
staying under the root. -/
theorem run_congr {w : Walk} (hw : w.Under r.root) :
    w.run { r with provider := p' } = w.run r := by
  induction w using Walk.run.induct r with
  | case1 w hframes => rw [run_of_frames_nil _ hframes, run_of_frames_nil _ hframes]
  | case2 w hframes ih =>
    rw [run_of_frames_ne_nil _ hframes, run_of_frames_ne_nil _ hframes, step_congr h hw]
    exact ih (under_step hw)

end Agree

end Walk

/-- Expansion does not depend on texts outside the root. -/
theorem Resolver.expandAll_congr (h : r.provider.AgreeUnder r.root p') (visited : List Path)
    (files : List SourceFile) :
    { r with provider := p' }.expandAll visited files = r.expandAll visited files := by
  have hexpand : ∀ visited f,
      { r with provider := p' }.expand visited f = r.expand visited f := by
    intro visited f
    simp only [expand, Walk.start_congr h, Walk.run_congr h (Walk.under_start visited f)]
  induction files generalizing visited with
  | nil => rfl
  | cons f files ih => simp only [expandAll, hexpand, ih]

end Congruence

end ScopeConfig
