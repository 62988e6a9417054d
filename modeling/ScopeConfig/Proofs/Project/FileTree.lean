import Mathlib.Data.List.Sort
import ScopeConfig.Project.FileTree
import ScopeConfig.Proofs.Path.Order
import ScopeConfig.Proofs.Path.Spelling

/-!
# Projects hold normal paths in order

## Main statements

* `isNormal_of_mem_paths`: the path of every file of a project is in normal form.
* `isSpelled_of_mem_paths`: its text is read as the path, if paths are stored as text spells them.
* `mem_list`: the files that a directory lists.
* `mem_glob`, `pairwise_glob`: the files that a pattern matches, and their order.
* `paths_eq_of_mem_iff`: projects with files at the same paths have the same paths in order.
-/

namespace ScopeConfig.FileTree

/-- Storing a file adds its path and no other. -/
theorem mem_map_store {p q : Path} {text : String} {files : List (Path × String)}
    (h : q ∈ (store p text files).map (·.1)) : q = p ∨ q ∈ files.map (·.1) := by
  induction files with
  | nil => simpa [store] using h
  | cons file files ih =>
    obtain ⟨p', old⟩ := file
    simp only [store] at h
    split at h
    all_goals
      simp only [List.map_cons, List.mem_cons] at h ⊢
      grind

/-- Storing files one by one adds their normal forms and no other paths. -/
theorem mem_paths_foldl_insert {files : List (Path × String)} {t : FileTree} {q : Path}
    (h : q ∈ (files.foldl (fun t (p, text) => t.insert p text) t).paths) :
    q ∈ t.paths ∨ ∃ file ∈ files, q = file.1.normalize := by
  induction files generalizing t with
  | nil => exact .inl h
  | cons file files ih =>
    rcases ih h with hq | ⟨file', hfile', hq⟩
    · rcases mem_map_store hq with hq | hq
      · exact .inr ⟨file, List.mem_cons_self, hq⟩
      · exact .inl hq
    · exact .inr ⟨file', List.mem_cons_of_mem _ hfile', hq⟩

/-- Files are kept by the normal forms of their paths. -/
theorem isNormal_of_mem_paths {files : List (Path × String)} {p : Path}
    (h : p ∈ (ofList files).paths) : p.IsNormal := by
  rcases mem_paths_foldl_insert h with hp | ⟨file, -, rfl⟩
  · cases hp
  · exact file.1.isNormal_normalize

/-- The paths of files that are stored under spelled paths are spelled. -/
theorem isSpelled_of_mem_paths {files : List (Path × String)}
    (hfiles : ∀ file ∈ files, file.1.IsSpelled) {p : Path} (h : p ∈ (ofList files).paths) :
    p.IsSpelled := by
  rcases mem_paths_foldl_insert h with hp | ⟨file, hfile, rfl⟩
  · cases hp
  · exact (hfiles file hfile).normalize

/-! ## Order -/

/-- Files stand in path order, and no two of them have the same path. -/
def Sorted (files : List (Path × String)) : Prop :=
  (files.map (·.1)).Pairwise fun p q => p.compare q = .lt

/-- Storing a file keeps the files in path order. -/
theorem sorted_store {p : Path} {text : String} {files : List (Path × String)}
    (h : Sorted files) : Sorted (store p text files) := by
  induction files with
  | nil => exact List.pairwise_singleton _ _
  | cons file files ih =>
    obtain ⟨q, old⟩ := file
    obtain ⟨hq, hfiles⟩ := List.pairwise_cons.1 h
    rw [store]
    split
    · rename_i hlt
      refine List.pairwise_cons.2 ⟨fun r hr => ?_, h⟩
      rcases List.mem_cons.1 hr with rfl | hr
      · exact hlt
      · exact Path.lt_trans hlt (hq r hr)
    · rename_i heq
      rw [Path.eq_of_compare heq]
      exact List.pairwise_cons.2 ⟨hq, hfiles⟩
    · rename_i hgt
      refine List.pairwise_cons.2 ⟨fun r hr => ?_, ih hfiles⟩
      rcases mem_map_store hr with rfl | hr
      · exact Std.OrientedCmp.lt_of_gt hgt
      · exact hq r hr

/-- The files of a tree that was made from a list stand in path order. -/
theorem sorted_ofList (files : List (Path × String)) : Sorted (ofList files).files := by
  have h : ∀ (t : FileTree), Sorted t.files →
      Sorted (files.foldl (fun t (p, text) => t.insert p text) t).files := by
    induction files with
    | nil => exact fun t ht => ht
    | cons file files ih => exact fun t ht => ih _ (sorted_store ht)
  exact h empty List.Pairwise.nil

/-- Projects with files at the same paths have the same paths in order. -/
theorem paths_eq_of_mem_iff {files files' : List (Path × String)}
    (h : ∀ p, p ∈ (ofList files).paths ↔ p ∈ (ofList files').paths) :
    (ofList files).paths = (ofList files').paths := by
  have : Std.Irrefl fun p q : Path => p.compare q = .lt := ⟨Path.compare_self_ne_lt⟩
  have : Std.Antisymm fun p q : Path => p.compare q = .lt :=
    ⟨fun p _ hpq hqp => (p.compare_self_ne_lt (Path.lt_trans hpq hqp)).elim⟩
  exact (sorted_ofList files).eq_of_mem_iff (sorted_ofList files') h

/-! ## Patterns -/

/-- A pattern finds the stored paths whose text it matches. -/
theorem mem_glob {t : FileTree} {pattern : Glob.Pattern} {p : Path} :
    p ∈ t.glob pattern ↔ p ∈ t.paths ∧ pattern.matches p.text = true := by
  simp [glob]

/-- The files that a pattern matches stand in path order. -/
theorem pairwise_glob (files : List (Path × String)) (pattern : Glob.Pattern) :
    ((ofList files).glob pattern).Pairwise fun p q => p.compare q = .lt :=
  List.Pairwise.filter _ (sorted_ofList files)

/-! ## Directories -/

/-- A directory lists the configuration files that stand in it. -/
theorem mem_list {t : FileTree} {dir p : Path} :
    p ∈ t.list dir ↔ p ∈ t.paths ∧ p.parent? = some dir.normalize ∧ p.isConfigFile = true := by
  simp [list]

end ScopeConfig.FileTree
