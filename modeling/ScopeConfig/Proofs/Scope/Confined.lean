import ScopeConfig.Proofs.Import.Confined
import ScopeConfig.Proofs.Scope.OwnFiles

/-!
# Sessions are confined to the project root

A session reads the files of its directory, which is under the project root or is refused, and the
files that are imported, all of which are under the root. Other files can only be found to exist. Of
two projects with files at the same paths, which have the same texts under the root, a session
cannot tell one from the other.

## Main statements

* `run_congr`: a session depends on texts under the root only.
* `run_confined`: sessions over two projects that differ outside the root give the same result.
-/

namespace ScopeConfig

open Syntax

/-! ## Projects that differ outside the root -/

namespace FileTree

/-- A path finds a text exactly if it is stored. -/
theorem isSome_lookup_iff {t : FileTree} {p : Path} :
    (t.lookup p).isSome = true ↔ p ∈ t.paths := by
  simp [lookup, paths]

/-- Projects with files at the same paths, and with the same texts under the root. -/
theorem agreeUnder {root : Path} {files files' : List (Path × String)}
    (hpaths : ∀ p, p ∈ (ofList files).paths ↔ p ∈ (ofList files').paths)
    (htexts : ∀ p, p.startsWith root = true → (ofList files).lookup p = (ofList files').lookup p) :
    (ofList files).provider.AgreeUnder root (ofList files').provider where
  isFile_eq p := by
    show ((ofList files').lookup p.normalize).isSome = ((ofList files).lookup p.normalize).isSome
    rw [Bool.eq_iff_iff, isSome_lookup_iff, isSome_lookup_iff, hpaths]
  list_eq dir := by
    show Except.ok ((ofList files').list dir) = .ok ((ofList files).list dir)
    rw [list, list, paths_eq_of_mem_iff hpaths]
  glob_eq pattern := by
    show Except.ok ((ofList files').glob pattern) = .ok ((ofList files).glob pattern)
    rw [glob, glob, paths_eq_of_mem_iff hpaths]
  read_eq p hp := by
    show (ofList files').readNormal p = (ofList files).readNormal p
    rw [readNormal, readNormal, htexts p hp]

end FileTree

namespace Session

/-! ## Sessions over two providers -/

/-- The files that a session lists are under the project root. -/
def ListsUnderRoot (s : Session) : Prop :=
  ∀ paths, s.provider.list s.dir = .ok paths → ∀ p ∈ paths, p.normalize.startsWith s.root = true

/-- The files of a directory that is under the root are under the root. -/
theorem LoadsFrom.listsUnderRoot {s : Session} {t : FileTree} (hs : s.LoadsFrom t)
    (hinside : s.inside = true) : s.ListsUnderRoot := by
  intro paths hlist p hp
  rw [hs.provider] at hlist
  obtain rfl : t.list s.dir = paths := Except.ok.inj hlist
  rw [Path.normalize_of_isNormal (hs.paths_normal p (FileTree.mem_list.1 hp).1)]
  exact Path.startsWith_of_parent? (hs.parent?_of_mem_list hp) hinside

section Agree

variable {s : Session} {p' : Provider} (h : s.provider.AgreeUnder s.root p')
include h

/-- Reading files under the root asks two agreeing providers for the same. -/
theorem readAll_congr {paths : List Path}
    (hpaths : ∀ p ∈ paths, p.normalize.startsWith s.root = true) :
    { s with provider := p' }.readAll paths = s.readAll paths := by
  induction paths with
  | nil => rfl
  | cons path paths ih =>
    have hown : { s with provider := p' }.readOwn path.normalize = s.readOwn path.normalize := by
      simp only [readOwn, h.read_eq _ (hpaths path List.mem_cons_self)]
    have hrest := ih fun p hp => hpaths p (List.mem_cons_of_mem _ hp)
    simp only [readAll, hown, hrest]

/-- Two providers that agree under the root give a scope the same files of its own. -/
theorem ownFiles_congr (hlists : s.ListsUnderRoot) :
    { s with provider := p' }.ownFiles = s.ownFiles := by
  simp only [ownFiles, h.list_eq]
  split
  · rfl
  · rename_i paths hlist
    exact readAll_congr h (hlists paths hlist)

theorem effectiveFiles_congr (hlists : s.ListsUnderRoot) :
    { s with provider := p' }.effectiveFiles = s.effectiveFiles := by
  have hresolver : ∀ own, { s with provider := p' }.resolver own =
      { s.resolver own with provider := p' } := fun _ => rfl
  have hexpand := fun own => Resolver.expandAll_congr (r := s.resolver own) h [] own
  simp only [effectiveFiles, ownFiles_congr h hlists, hresolver, hexpand]

/-- A session depends on texts under the root only. -/
theorem run_congr (hlists : s.inside = true → s.ListsUnderRoot) :
    { s with provider := p' }.run = s.run := by
  by_cases hinside : s.inside = true
  · rw [run_eq_runOn, run_eq_runOn, effectiveFiles_congr h (hlists hinside)]
    rfl
  · have hinside' : { s with provider := p' }.inside = s.inside := rfl
    have houtside : { s with provider := p' }.outsideFault = s.outsideFault := rfl
    simp only [run, hinside', houtside, if_neg hinside]

end Agree

/-- Files outside the project root have no part in a session beyond being there. For every registry,
options, root and directory, sessions over two projects that have files at the same paths, and the
same text at every path under the root, give the same configuration or the same errors in the same
order, whatever their files import. -/
theorem run_confined (registry : Registry) (options : Options) (root dir : Path)
    (files files' : List (Path × String))
    (hpaths : ∀ p, p ∈ (FileTree.ofList files).paths ↔ p ∈ (FileTree.ofList files').paths)
    (htexts : ∀ p, p.startsWith root.normalize = true →
      (FileTree.ofList files).lookup p = (FileTree.ofList files').lookup p) :
    (new registry (FileTree.ofList files).provider options root dir).run =
      (new registry (FileTree.ofList files').provider options root dir).run := by
  have hs := loadsFrom_new registry files options root dir
  have hagree := FileTree.agreeUnder hpaths htexts
  exact (run_congr (s := new registry (FileTree.ofList files).provider options root dir) hagree
    hs.listsUnderRoot).symm

/-! ## A file outside the root -/

/-- The file that is outside the root `/p`. -/
def outsidePath : Path := .ofText "/out/x.tm"

/-- The file that imports it. -/
def importerPath : Path := .ofText "/p/s/a.tm"

/-- Imports of a file outside the root in three spellings. -/
def reachingOut : String :=
  "import \x7b\n  source = \"../../out/x.tm\"\n\x7d\n" ++
    "import \x7b\n  source = \"//out/x.tm\"\n\x7d\n" ++
    "import \x7b\n  source = \"../../out/*.tm\"\n\x7d\n"

/-- A project whose file outside the root has this text. -/
def projectAround (text : String) : List (Path × String) :=
  [(importerPath, reachingOut), (outsidePath, text)]

/-- The two files of the project, in path order. -/
theorem files_projectAround (text : String) :
    (FileTree.ofList (projectAround text)).files =
      [(outsidePath, text), (importerPath, reachingOut)] := by
  have houtside : outsidePath.normalize = outsidePath := by decide
  have himporter : importerPath.normalize = importerPath := by decide
  have hlt : outsidePath.compare importerPath = .lt := by decide
  simp [FileTree.ofList, projectAround, FileTree.insert, FileTree.store, FileTree.empty, houtside,
    himporter, hlt]

/-- The paths of the two files, in order. -/
theorem paths_projectAround (text : String) :
    (FileTree.ofList (projectAround text)).paths = [outsidePath, importerPath] := by
  rw [FileTree.paths, files_projectAround]
  rfl

/-- Under any path but that of the file outside, the project holds the importer and nothing else. -/
theorem lookup_projectAround (text : String) {p : Path} (hp : p ≠ outsidePath) :
    (FileTree.ofList (projectAround text)).lookup p =
      if importerPath = p then some reachingOut else none := by
  rw [FileTree.lookup, files_projectAround]
  by_cases himporter : importerPath = p
  · simp [himporter, Ne.symm hp]
  · simp [himporter, Ne.symm hp]

/-- Whatever the file outside the root holds, the session of the importer ends alike. -/
theorem run_confined_projectAround :
    (FileTree.ofList (projectAround "x = 1\n")).lookup outsidePath = some "x = 1\n" ∧
      (FileTree.ofList (projectAround "secret\n")).lookup outsidePath = some "secret\n" ∧
      (new .builtin (FileTree.ofList (projectAround "x = 1\n")).provider ⟨.empty⟩ (.ofText "/p")
          (.ofText "/p/s")).run =
        (new .builtin (FileTree.ofList (projectAround "secret\n")).provider ⟨.empty⟩ (.ofText "/p")
          (.ofText "/p/s")).run := by
  have hlookup : ∀ text,
      (FileTree.ofList (projectAround text)).lookup outsidePath = some text := by
    intro text
    simp [FileTree.lookup, files_projectAround]
  refine ⟨hlookup _, hlookup _, run_confined .builtin ⟨.empty⟩ _ _ _ _ (fun p => ?_)
    fun p hp => ?_⟩
  · rw [paths_projectAround, paths_projectAround]
  · have hne : p ≠ outsidePath := by
      rintro rfl
      revert hp
      decide
    rw [lookup_projectAround _ hne, lookup_projectAround _ hne]

end Session

end ScopeConfig
