import ScopeConfig.Import.Edge

/-!
# Expanding imports

A file is followed by the files it imports, depth first, each file at most once over all the calls
that share a set of visited paths. The walk keeps a stack of frames, innermost first: a frame is a
file with the edges of it that were not looked at yet, and the files of the frames, outermost first,
are the chain of importers that the edges of the innermost file are checked against.

The walk ends because every step either opens a frame for a readable file that was not visited
before, of which there are finitely many, or takes an edge or a frame away.
-/

namespace ScopeConfig

open Syntax

/-- A file being expanded, with the edges left to look at. -/
structure Frame where
  path : Path
  edges : List Edge
deriving DecidableEq, Repr

/-- The state of a walk: the paths visited, the open frames with the innermost first, the files
found and the errors, both in the order in which they came. -/
structure Walk where
  visited : List Path
  frames : List Frame
  found : List SourceFile
  errors : List Diagnostic

namespace Walk

/-- The open files, outermost first. -/
def chain (w : Walk) : List Path :=
  (w.frames.map Frame.path).reverse

/-- How many readable files were not visited yet. -/
def unvisited (r : Resolver) (w : Walk) : Nat :=
  (r.provider.readable.filter (· ∉ w.visited)).length

/-- How many edges and frames are left. -/
def pending (w : Walk) : Nat :=
  w.frames.foldr (·.edges.length + 1 + ·) 0

/-- One step: closes the innermost frame when it has no edges left, or looks at its next edge, and
opens a frame for the file that the edge leads to, unless it was visited or cannot be loaded. -/
def step (r : Resolver) (w : Walk) : Walk :=
  match w.frames with
  | [] => w
  | ⟨_, []⟩ :: frames => { w with frames }
  | ⟨path, e :: edges⟩ :: frames =>
    let w := { w with frames := ⟨path, edges⟩ :: frames }
    if e.path ∈ w.visited then w
    else
      let w := { w with visited := e.path :: w.visited }
      match r.load e with
      | (none, faults) => { w with errors := w.errors ++ faults }
      | (some f, faults) =>
        let (targets, more) := r.edges f (w.chain ++ [e.path])
        { w with
          frames := ⟨e.path, targets⟩ :: w.frames
          found := w.found ++ [f]
          errors := w.errors ++ faults ++ more }

/-- Visiting one more path never raises the number of paths that are still to be visited. -/
theorem length_filter_not_mem_cons_le (paths visited : List Path) (p : Path) :
    (paths.filter (· ∉ p :: visited)).length ≤ (paths.filter (· ∉ visited)).length := by
  induction paths with
  | nil => simp
  | cons q paths ih =>
    simp only [List.filter_cons, List.mem_cons, not_or, decide_eq_true_eq]
    split <;> split <;> simp_all
    omega

/-- Visiting a new path lowers the number of paths that are still to be visited. -/
theorem length_filter_not_mem_cons_lt {paths visited : List Path} {p : Path} (hp : p ∈ paths)
    (hv : p ∉ visited) :
    (paths.filter (· ∉ p :: visited)).length < (paths.filter (· ∉ visited)).length := by
  induction paths with
  | nil => simp at hp
  | cons q paths ih =>
    rcases List.mem_cons.1 hp with rfl | hp
    · have := length_filter_not_mem_cons_le paths visited p
      simp [hv] at this ⊢
      omega
    · have := ih hp
      simp only [List.filter_cons, List.mem_cons, not_or, decide_eq_true_eq] at this ⊢
      split <;> split <;> simp_all
      omega

/-- A step of an unfinished walk visits a readable file for the first time, or leaves fewer edges
and frames. -/
theorem step_decreases (r : Resolver) (w : Walk) (h : w.frames ≠ []) :
    (w.step r).unvisited r < w.unvisited r ∨
      ((w.step r).unvisited r ≤ w.unvisited r ∧ (w.step r).pending < w.pending) := by
  unfold step
  split
  · contradiction
  · rename_i hf
    -- a frame is closed
    right
    simp [unvisited, pending, hf]
  · rename_i path e edges frames hf
    simp only
    split
    · -- an edge to a path that was visited
      right
      simp only [unvisited, pending, hf, List.foldr_cons, List.length_cons]
      exact ⟨Nat.le_refl _, by omega⟩
    · rename_i hv
      split
      · -- an edge that is read in vain
        right
        simp only [unvisited, pending, hf, List.foldr_cons, List.length_cons]
        exact ⟨length_filter_not_mem_cons_le _ _ _, by omega⟩
      · rename_i f faults hload
        -- an edge whose target is opened: the frames may grow, but there is one path less to visit
        left
        have hmem : e.path ∈ r.provider.readable :=
          Resolver.mem_readable_of_load (f := f) (by rw [hload])
        exact length_filter_not_mem_cons_lt hmem hv

/-- Takes steps until no frame is open. -/
def run (r : Resolver) (w : Walk) : Walk :=
  if _h : w.frames = [] then w else run r (w.step r)
termination_by (w.unvisited r, w.pending)
decreasing_by
  rcases step_decreases r w _h with hlt | ⟨hle, hlt⟩
  · exact Prod.Lex.left _ _ hlt
  · rcases Nat.lt_or_eq_of_le hle with hlt' | heq
    · exact Prod.Lex.left _ _ hlt'
    · rw [heq]
      exact Prod.Lex.right _ hlt

/-- The walk that has opened one file and nothing else. -/
def start (r : Resolver) (visited : List Path) (f : SourceFile) : Walk :=
  let (edges, faults) := r.edges f [f.path]
  ⟨f.path :: visited, [⟨f.path, edges⟩], [f], faults⟩

end Walk

/-- What the expansion of one file gives: the file and every file that it imports for the first
time, the errors, and the paths visited from now on. -/
structure Expansion where
  files : List SourceFile
  errors : List Diagnostic
  visited : List Path

namespace Resolver

/-- Expands the imports of a file, when the paths in `visited` were visited before; a file that is
one of them was pulled in already and adds nothing. -/
def expand (r : Resolver) (visited : List Path) (f : SourceFile) : Expansion :=
  if f.path ∈ visited then ⟨[], [], visited⟩
  else
    let w := (Walk.start r visited f).run r
    ⟨w.found, w.errors, w.visited⟩

/-- Expands files, one after the other, with one set of visited paths. -/
def expandAll (r : Resolver) (visited : List Path) : List SourceFile → Expansion
  | [] => ⟨[], [], visited⟩
  | f :: files =>
    let first := r.expand visited f
    let rest := r.expandAll first.visited files
    ⟨first.files ++ rest.files, first.errors ++ rest.errors, rest.visited⟩

end Resolver

end ScopeConfig
