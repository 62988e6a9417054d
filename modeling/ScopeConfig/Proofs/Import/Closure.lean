import ScopeConfig.Import.Expansion

/-!
# Expansion as a recursion

`Walk.run` keeps its own stack of frames. Here the same expansion is a recursion over files: a file
is opened with the chain of files through which it was reached, its edges are followed in order, and
an edge to a path that was not visited before marks the path, loads the file and opens it in turn.
The result keeps, beside the files and the errors, the chain of every opened file and the edges that
were loaded.

## Main statements

* `run_push`: running a stack of frames is following the edges of the innermost frame, then running
  the frames below.
* `expand_eq_closure`, `expandAll_eq_closureAll`: expansion is the recursion, without the chains and
  the loaded edges.
-/

namespace ScopeConfig

open Syntax

/-- A file that an expansion takes in, with the files through which it was reached, outermost first
and the file itself last. -/
structure Opening where
  file : SourceFile
  chain : List Path

/-- What a part of an expansion gives: the files opened, the edges whose files were loaded, and the
errors, each in order, and the paths visited from then on. -/
@[ext]
structure Closure where
  opened : List Opening
  loaded : List Edge
  errors : List Diagnostic
  visited : List Path

namespace Closure

/-- The files opened, in order. -/
def files (c : Closure) : List SourceFile :=
  c.opened.map Opening.file

/-- The part of a closure that a caller of the expansion is given. -/
def expansion (c : Closure) : Expansion :=
  ⟨c.files, c.errors, c.visited⟩

/-- Nothing is done. -/
def stay (visited : List Path) : Closure :=
  ⟨[], [], [], visited⟩

/-- One part of an expansion, and then another. -/
def append (c d : Closure) : Closure :=
  ⟨c.opened ++ d.opened, c.loaded ++ d.loaded, c.errors ++ d.errors, d.visited⟩

instance : Append Closure := ⟨append⟩

@[simp] theorem opened_stay (visited : List Path) : (stay visited).opened = [] := rfl

@[simp] theorem loaded_stay (visited : List Path) : (stay visited).loaded = [] := rfl

@[simp] theorem errors_stay (visited : List Path) : (stay visited).errors = [] := rfl

@[simp] theorem visited_stay (visited : List Path) : (stay visited).visited = visited := rfl

@[simp] theorem opened_append (c d : Closure) : (c ++ d).opened = c.opened ++ d.opened := rfl

@[simp] theorem loaded_append (c d : Closure) : (c ++ d).loaded = c.loaded ++ d.loaded := rfl

@[simp] theorem errors_append (c d : Closure) : (c ++ d).errors = c.errors ++ d.errors := rfl

@[simp] theorem visited_append (c d : Closure) : (c ++ d).visited = d.visited := rfl

end Closure

namespace Resolver

/-! ## The recursion -/

/-- How many readable files are not among the paths visited. -/
def remaining (r : Resolver) (visited : List Path) : Nat :=
  (r.provider.readable.filter (· ∉ visited)).length

/-- Visiting one more path leaves no more to be visited. -/
theorem remaining_cons_le (r : Resolver) (visited : List Path) (p : Path) :
    r.remaining (p :: visited) ≤ r.remaining visited :=
  Walk.length_filter_not_mem_cons_le _ _ _

/-- Visiting the target of an edge that loads, new before, leaves less to be visited. -/
theorem remaining_cons_lt {r : Resolver} {visited : List Path} {e : Edge} {f : SourceFile}
    {faults : List Diagnostic} (hv : e.path ∉ visited) (hload : r.load e = (some f, faults)) :
    r.remaining (e.path :: visited) < r.remaining visited :=
  Walk.length_filter_not_mem_cons_lt (mem_readable_of_load (f := f) (by rw [hload])) hv

/-- Follows the edges of a file whose chain is `chain`, together with the bound that makes the
recursion end: following edges does not make more files unvisited. -/
def followWithin (r : Resolver) (visited chain : List Path) :
    List Edge → { c : Closure // r.remaining c.visited ≤ r.remaining visited }
  | [] => ⟨.stay visited, Nat.le_refl _⟩
  | e :: edges =>
    if hv : e.path ∈ visited then r.followWithin visited chain edges
    else
      match hload : r.load e with
      | (none, faults) =>
        -- the path stays marked, so the load is not tried again
        let rest := r.followWithin (e.path :: visited) chain edges
        ⟨⟨[], [e], faults, e.path :: visited⟩ ++ rest.1,
          Nat.le_trans rest.2 (r.remaining_cons_le visited e.path)⟩
      | (some f, faults) =>
        have hlt := remaining_cons_lt hv hload
        let targets := r.edges f (chain ++ [e.path])
        let inner := r.followWithin (e.path :: visited) (chain ++ [e.path]) targets.1
        -- what the new file led to is visited for the edges that are left
        let rest := r.followWithin inner.1.visited chain edges
        ⟨⟨[⟨f, chain ++ [e.path]⟩], [e], faults ++ targets.2, e.path :: visited⟩ ++ inner.1 ++
            rest.1,
          Nat.le_trans rest.2 (Nat.le_trans inner.2 (Nat.le_of_lt hlt))⟩
termination_by edges => (r.remaining visited, edges.length)
decreasing_by
  · exact Prod.Lex.right _ (Nat.lt_succ_self _)
  · -- an unreadable path need not be among the readable ones, but the edges are fewer
    rcases Nat.lt_or_eq_of_le (r.remaining_cons_le visited e.path) with hlt | heq
    · exact Prod.Lex.left _ _ hlt
    · rw [heq]
      exact Prod.Lex.right _ (Nat.lt_succ_self _)
  · exact Prod.Lex.left _ _ hlt
  · exact Prod.Lex.left _ _ (Nat.lt_of_le_of_lt inner.2 hlt)

/-- Follows the edges of a file whose chain is `chain`. -/
def follow (r : Resolver) (visited chain : List Path) (edges : List Edge) : Closure :=
  (r.followWithin visited chain edges).1

/-- Opens a file that was marked as visited: takes it in, checks its imports, and follows the edges
that are accepted. -/
def openFile (r : Resolver) (visited chain : List Path) (f : SourceFile) : Closure :=
  ⟨[⟨f, chain⟩], [], (r.edges f chain).2, visited⟩ ++ r.follow visited chain (r.edges f chain).1

/-- The closure of a file under imports, when the paths in `visited` were visited before. -/
def closure (r : Resolver) (visited : List Path) (f : SourceFile) : Closure :=
  if f.path ∈ visited then .stay visited else r.openFile (f.path :: visited) [f.path] f

/-- The closures of files, one after the other, with one set of visited paths. -/
def closureAll (r : Resolver) (visited : List Path) : List SourceFile → Closure
  | [] => .stay visited
  | f :: files => r.closure visited f ++ r.closureAll (r.closure visited f).visited files

section Follow

variable (r : Resolver) (visited chain : List Path)

/-- Without edges nothing is opened, loaded or reported. -/
@[simp] theorem follow_nil : r.follow visited chain [] = .stay visited := by
  simp [follow, followWithin]

/-- An edge to a path that was visited is passed over. -/
theorem follow_cons_of_mem {e : Edge} (hv : e.path ∈ visited) (edges : List Edge) :
    r.follow visited chain (e :: edges) = r.follow visited chain edges := by
  simp [follow, followWithin, hv]

/-- An edge to a file that cannot be loaded marks its path and reports why. -/
theorem follow_cons_of_load_none {e : Edge} {faults : List Diagnostic} (hv : e.path ∉ visited)
    (hload : r.load e = (none, faults)) (edges : List Edge) :
    r.follow visited chain (e :: edges) =
      ⟨[], [e], faults, e.path :: visited⟩ ++ r.follow (e.path :: visited) chain edges := by
  rw [follow, followWithin, dif_neg hv]
  split
  · rename_i found hfound
    rw [hload] at hfound
    obtain ⟨-, rfl⟩ := Prod.mk.inj hfound
    rfl
  · rename_i f found hfound
    rw [hload] at hfound
    cases hfound

/-- An edge to a file that can be loaded marks its path and opens the file; the edges after it are
followed from the paths visited then. -/
theorem follow_cons_of_load_some {e : Edge} {f : SourceFile} {faults : List Diagnostic}
    (hv : e.path ∉ visited) (hload : r.load e = (some f, faults)) (edges : List Edge) :
    r.follow visited chain (e :: edges) =
      ⟨[], [e], faults, e.path :: visited⟩ ++
        r.openFile (e.path :: visited) (chain ++ [e.path]) f ++
        r.follow (r.openFile (e.path :: visited) (chain ++ [e.path]) f).visited chain edges := by
  rw [follow, followWithin, dif_neg hv]
  split
  · rename_i found hfound
    rw [hload] at hfound
    cases hfound
  · rename_i f' found hfound
    rw [hload] at hfound
    obtain ⟨hf, rfl⟩ := Prod.mk.inj hfound
    obtain rfl := Option.some.inj hf
    ext1 <;> simp [openFile, follow]

end Follow

/-- Induction along the recursion: a property of `follow` holds when it holds of no edges and passes
over a visited path, a file that cannot be loaded, and a file that is opened. -/
theorem follow_induction (r : Resolver)
    {motive : List Path → List Path → List Edge → Closure → Prop}
    (nil : ∀ visited chain, motive visited chain [] (.stay visited))
    (skip : ∀ visited chain e edges, e.path ∈ visited →
      motive visited chain edges (r.follow visited chain edges) →
      motive visited chain (e :: edges) (r.follow visited chain edges))
    (fail : ∀ visited chain e edges faults, e.path ∉ visited → r.load e = (none, faults) →
      motive (e.path :: visited) chain edges (r.follow (e.path :: visited) chain edges) →
      motive visited chain (e :: edges)
        (⟨[], [e], faults, e.path :: visited⟩ ++ r.follow (e.path :: visited) chain edges))
    (enter : ∀ visited chain e edges f faults, e.path ∉ visited → r.load e = (some f, faults) →
      motive (e.path :: visited) (chain ++ [e.path]) (r.edges f (chain ++ [e.path])).1
        (r.follow (e.path :: visited) (chain ++ [e.path]) (r.edges f (chain ++ [e.path])).1) →
      motive (r.openFile (e.path :: visited) (chain ++ [e.path]) f).visited chain edges
        (r.follow (r.openFile (e.path :: visited) (chain ++ [e.path]) f).visited chain edges) →
      motive visited chain (e :: edges)
        (⟨[], [e], faults, e.path :: visited⟩ ++
          r.openFile (e.path :: visited) (chain ++ [e.path]) f ++
          r.follow (r.openFile (e.path :: visited) (chain ++ [e.path]) f).visited chain edges))
    (visited chain : List Path) (edges : List Edge) :
    motive visited chain edges (r.follow visited chain edges) := by
  induction visited, chain, edges using followWithin.induct r with
  | case1 visited chain =>
    rw [follow_nil]
    exact nil visited chain
  | case2 visited chain e edges hv ih =>
    rw [follow_cons_of_mem r visited chain hv]
    exact skip visited chain e edges hv ih
  | case3 visited chain e edges hv faults hload ih =>
    rw [follow_cons_of_load_none r visited chain hv hload]
    exact fail visited chain e edges faults hv hload ih
  | case4 visited chain e edges hv f faults hload hlt targets inner ihInner _ ihRest _ =>
    rw [follow_cons_of_load_some r visited chain hv hload]
    exact enter visited chain e edges f faults hv hload ihInner ihRest

end Resolver

/-! ## The walk takes the steps of the recursion -/

namespace Walk

/-- A walk without open frames is over. -/
theorem run_of_frames_nil (r : Resolver) {w : Walk} (h : w.frames = []) : w.run r = w := by
  rw [run, dif_pos h]

/-- A walk with open frames takes one step and goes on. -/
theorem run_of_frames_ne_nil (r : Resolver) {w : Walk} (h : w.frames ≠ []) :
    w.run r = (w.step r).run r := by
  rw [run, dif_neg h]

/-- Running the walk from an open frame follows the edges of the frame, with the files of the frames
as the chain, and then goes on with the frames below. -/
theorem run_push (r : Resolver) (visited chain : List Path) (edges : List Edge) (path : Path)
    (frames : List Frame) (found : List SourceFile) (errors : List Diagnostic)
    (hchain : chain = (frames.map Frame.path).reverse ++ [path]) :
    run r ⟨visited, ⟨path, edges⟩ :: frames, found, errors⟩ =
      run r ⟨(r.follow visited chain edges).visited, frames,
        found ++ (r.follow visited chain edges).files,
        errors ++ (r.follow visited chain edges).errors⟩ := by
  induction visited, chain, edges using r.follow_induction
    generalizing path frames found errors with
  | nil visited chain =>
    rw [run_of_frames_ne_nil r (by simp)]
    simp [step, Closure.files]
  | skip visited chain e edges hv ih =>
    rw [run_of_frames_ne_nil r (by simp)]
    simp only [step, hv, if_true]
    exact ih path frames found errors hchain
  | fail visited chain e edges faults hv hload ih =>
    rw [run_of_frames_ne_nil r (by simp)]
    simp only [step, hv, if_false, hload]
    rw [ih path frames found (errors ++ faults) hchain]
    simp [Closure.files]
  | enter visited chain e edges f faults hv hload ihInner ihRest =>
    rw [run_of_frames_ne_nil r (by simp)]
    -- the chain that the step hands to the edges of the new file is that of the recursion
    have hnew : ((⟨path, edges⟩ :: frames).map Frame.path).reverse ++ [e.path] =
        chain ++ [e.path] := by
      simp [hchain]
    simp only [step, hv, if_false, hload, Walk.chain, hnew]
    rw [ihInner e.path (⟨path, edges⟩ :: frames) _ _ hnew.symm]
    have hrest := ihRest path frames
      (found ++ [f] ++ (r.follow (e.path :: visited) (chain ++ [e.path])
        (r.edges f (chain ++ [e.path])).1).files)
      (errors ++ faults ++ (r.edges f (chain ++ [e.path])).2 ++
        (r.follow (e.path :: visited) (chain ++ [e.path])
          (r.edges f (chain ++ [e.path])).1).errors) hchain
    simp only [Resolver.openFile, Closure.visited_append] at hrest ⊢
    rw [hrest]
    simp [Closure.files]

end Walk

namespace Resolver

/-- The expansion of a file is its closure. -/
theorem expand_eq_closure (r : Resolver) (visited : List Path) (f : SourceFile) :
    r.expand visited f = (r.closure visited f).expansion := by
  unfold expand closure
  split
  · rfl
  · have hrun := Walk.run_push r (f.path :: visited) [f.path] (r.edges f [f.path]).1 f.path [] [f]
      (r.edges f [f.path]).2 rfl
    rw [Walk.run_of_frames_nil r (w := ⟨_, [], _, _⟩) rfl] at hrun
    simp only [Walk.start, hrun]
    simp [Closure.expansion, openFile, Closure.files]

/-- The expansion of files, one after the other, is their closure. -/
theorem expandAll_eq_closureAll (r : Resolver) (visited : List Path) (starts : List SourceFile) :
    r.expandAll visited starts = (r.closureAll visited starts).expansion := by
  induction starts generalizing visited with
  | nil => rfl
  | cons f starts ih =>
    simp only [expandAll, closureAll, expand_eq_closure, ih]
    simp [Closure.expansion, Closure.files]

end Resolver

end ScopeConfig
