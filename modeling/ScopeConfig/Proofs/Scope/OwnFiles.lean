import ScopeConfig.Proofs.Import.Discovery
import ScopeConfig.Proofs.Project.FileTree
import ScopeConfig.Proofs.Scope.Steps

/-!
# Imports of the files of a scope

The files of the scope's own directory are not for importing. What stands in the way of an import of
one is that it is in the directory of the importer, or that it is one of the files that the resolver
was told of. Those are the files of the directory that could be parsed: an own file that could not
is protected only from the files beside it, and an imported file may import it like any other.

## Main statements

* `own_files_refused_iff`: every import of an own file is refused exactly when those from outside
  the directory lead to own files that were parsed.
-/

namespace ScopeConfig

open Syntax

/-- A path is under a directory if its parent is. -/
theorem Path.startsWith_of_parent? {p q base : Path} (hparent : p.parent? = some q)
    (h : q.startsWith base = true) : p.startsWith base = true := by
  unfold parent? at hparent
  split at hparent
  · cases hparent
  · obtain rfl := Option.some.inj hparent
    have hprefix : base.steps <+: p.steps.dropLast → base.steps <+: p.steps :=
      fun h => h.trans (List.dropLast_prefix _)
    by_cases hbase : base.rooted = true
    · simp only [startsWith, hbase, if_true, Bool.and_eq_true, List.isPrefixOf_iff_prefix] at h ⊢
      exact ⟨h.1, hprefix h.2⟩
    · simp only [startsWith, hbase, Bool.false_eq_true, if_false, Bool.or_eq_true,
        Bool.and_eq_true, List.isPrefixOf_iff_prefix] at h ⊢
      exact h.imp_right fun h => ⟨h.1, hprefix h.2⟩

/-! ## The files that a session reads -/

namespace Session

/-- The errors of a run inside the project are those of its assembly. -/
theorem ofResult_run {s : Session} (h : s.inside = true) :
    Diagnostic.ofResult s.run = s.assembly.errors := by
  simp only [run, h, if_true]
  split
  · rename_i hempty
    simpa [Diagnostic.ofResult] using hempty.symm
  · rfl

/-- The errors of imports are among the errors of the run. -/
theorem mem_ofResult_run_of_imports {s : Session} (h : s.inside = true) {d : Diagnostic}
    (hd : d ∈ s.imports.errors) : d ∈ Diagnostic.ofResult s.run := by
  rw [ofResult_run h]
  simp only [assembly, effectiveFiles_eq_imports]
  exact List.mem_append_left _ (List.mem_append_right _ hd)

/-- A listed file that can be parsed is an own file. -/
theorem mem_readAll {s : Session} {paths : List Path} {p : Path} {f : SourceFile} (hp : p ∈ paths)
    (hread : s.readOwn p.normalize = .ok f) : f ∈ (s.readAll paths).1 := by
  induction paths with
  | nil => cases hp
  | cons q paths ih =>
    simp only [readAll]
    rcases List.mem_cons.1 hp with rfl | hp
    · rw [hread]
      exact List.mem_cons_self
    · split
      · exact List.mem_cons_of_mem _ (ih hp)
      · exact ih hp

/-- An own file is read from a listed path. -/
theorem exists_of_mem_readAll {s : Session} {paths : List Path} {f : SourceFile}
    (h : f ∈ (s.readAll paths).1) : ∃ p ∈ paths, s.readOwn p.normalize = .ok f := by
  induction paths with
  | nil => cases h
  | cons p paths ih =>
    simp only [readAll] at h
    split at h
    · rename_i g hread
      rcases List.mem_cons.1 h with rfl | h
      · exact ⟨p, List.mem_cons_self, hread⟩
      · obtain ⟨q, hq, hread⟩ := ih h
        exact ⟨q, List.mem_cons_of_mem p hq, hread⟩
    · obtain ⟨q, hq, hread⟩ := ih h
      exact ⟨q, List.mem_cons_of_mem p hq, hread⟩

/-- A file is what the text at its path reads as. -/
theorem parse_of_readOwn {s : Session} {p : Path} {f : SourceFile} (h : s.readOwn p = .ok f) :
    ∃ text, s.provider.read p = .ok text ∧ SourceFile.parse p text = .ok f := by
  unfold readOwn at h
  split at h
  · cases h
  · rename_i text hread
    exact ⟨text, hread, h⟩

/-- A file is loaded for an edge as an own file is read. -/
theorem readOwn_of_load {s : Session} {own : List SourceFile} {e : Edge} {f : SourceFile}
    (hload : ((s.resolver own).load e).1 = some f) : s.readOwn e.path = .ok f := by
  unfold Resolver.load at hload
  unfold readOwn
  split at hload
  · simp at hload
  · rename_i text hread
    have hread' : s.provider.read e.path = .ok text := hread
    rw [hread']
    split at hload
    · simp at hload
    · rename_i g hparse
      obtain rfl : g = f := Option.some.inj hload
      exact hparse

end Session

/-! ## Where opened files come from -/

namespace Resolver

/-- The files of a chain are opened. -/
theorem mem_paths_of_mem_chain (r : Resolver) (starts : List SourceFile) :
    ∀ o ∈ (r.closureAll [] starts).opened, ∀ p ∈ o.chain, p ∈ (r.closureAll [] starts).paths := by
  intro o ho
  suffices h : ∀ p ∈ o.chain, p = o.path ∨ p ∈ (r.closureAll [] starts).paths by
    intro p hp
    rcases h p hp with rfl | hp
    · exact Closure.mem_paths.2 ⟨o, ho, rfl⟩
    · exact hp
  revert o
  refine (r.grown_closureAll [] starts).induction ?_ ?_
  · rintro o ⟨f, hf, rfl⟩ p hp
    exact .inl (List.mem_singleton.1 hp)
  · rintro parent hparent o ⟨hchain, -⟩ ih p hp
    rw [hchain] at hp
    rcases List.mem_append.1 hp with hp | hp
    · rcases ih p hp with rfl | hp
      · exact .inr (Closure.mem_paths.2 ⟨parent, hparent, rfl⟩)
      · exact .inr hp
    · exact .inl (List.mem_singleton.1 hp)

end Resolver

/-! ## Imports of own files -/

namespace Session

/-- A session that loads a directory of a project held in memory. -/
structure LoadsFrom (s : Session) (t : FileTree) : Prop where
  provider : s.provider = t.provider
  paths_normal : ∀ p ∈ t.paths, p.IsNormal
  dir_normal : s.dir.IsNormal

/-- A session over a file tree reads from that tree. -/
theorem loadsFrom_new (registry : Registry) (files : List (Path × String)) (options : Options)
    (root dir : Path) :
    (new registry (FileTree.ofList files).provider options root dir).LoadsFrom
      (FileTree.ofList files) :=
  ⟨rfl, fun _ => FileTree.isNormal_of_mem_paths, dir.isNormal_normalize⟩

/-- Whether the import that a verdict is about is refused: there is a reason against it, which the
session reports at the source of the import. -/
def Refuses (s : Session) (v : Verdict) : Prop :=
  ∃ fault, v.fault = some fault ∧ .importing fault v.candidate.range ∈ Diagnostic.ofResult s.run

namespace LoadsFrom

variable {s : Session} {t : FileTree} (hs : s.LoadsFrom t) {o : Opening} {v : Verdict}
include hs

/-- What is listed in the directory of a session has it as its parent. -/
theorem parent?_of_mem_list {p : Path} (hlist : p ∈ t.list s.dir) : p.parent? = some s.dir := by
  obtain ⟨-, hparent, -⟩ := FileTree.mem_list.1 hlist
  rwa [Path.normalize_of_isNormal hs.dir_normal] at hparent

/-- A session over a file tree lists what stands in its directory. -/
theorem list_eq : s.provider.list s.dir = .ok (t.list s.dir) := by
  rw [hs.provider]
  rfl

/-- The path of an own file is listed, and the file is read from there. -/
theorem of_mem_ownFiles {f : SourceFile} (hf : f ∈ s.ownFiles.1) :
    f.path ∈ t.list s.dir ∧ s.readOwn f.path = .ok f := by
  simp only [ownFiles, hs.list_eq] at hf
  obtain ⟨p, hp, hread⟩ := exists_of_mem_readAll hf
  rw [Path.normalize_of_isNormal (hs.paths_normal p (FileTree.mem_list.1 hp).1)] at hread
  obtain ⟨text, -, hparse⟩ := parse_of_readOwn hread
  rw [SourceFile.path_of_parse hparse]
  exact ⟨hp, hread⟩

/-- A listed file that a run opens was parsed as an own file. -/
theorem mem_own_of_opened {p : Path} (hlist : p ∈ t.list s.dir) (hopen : p ∈ s.imports.paths) :
    p ∈ s.ownFiles.1.map SourceFile.path := by
  obtain ⟨o, ho, rfl⟩ := Closure.mem_paths.1 hopen
  refine List.mem_map.2 ⟨o.file, ?_, rfl⟩
  rcases Resolver.start_or_loaded_of_mem_opened _ _ _ o ho with hstart | ⟨e, -, hpath, hload⟩
  · exact hstart
  · have hread : s.readOwn o.path.normalize = .ok o.file := by
      rw [Path.normalize_of_isNormal (hs.paths_normal _ (FileTree.mem_list.1 hlist).1)]
      exact hpath ▸ readOwn_of_load hload
    simp only [ownFiles, hs.list_eq]
    exact mem_readAll hlist hread

/-- An import of a listed file is refused when the file was parsed as an own file, or when the
importer is in the same directory. -/
theorem fault_ne_none (hv : v ∈ o.verdicts s.importResolver)
    (hlist : v.candidate.path ∈ t.list s.dir)
    (h : v.candidate.path ∈ s.ownFiles.1.map SourceFile.path ∨ o.path.parent? = some s.dir) :
    v.fault ≠ none := by
  intro hnone
  obtain ⟨accepted, -, hfault⟩ := Resolver.exists_accepted_of_mem_verdicts hv
  obtain ⟨-, -, hdir, -, hown, -⟩ :=
    Resolver.edgeFault?_eq_none_iff.1 (hfault.symm.trans hnone)
  rcases h with h | h
  · exact hown h
  · exact hdir ((hs.parent?_of_mem_list hlist).trans h.symm)

/-- When a file accepts no import of a listed file, that file was parsed as an own file, or the
importer is in the same directory. -/
theorem own_or_beside (hinside : s.inside = true) (ho : o ∈ s.imports.opened)
    (hv : v ∈ o.verdicts s.importResolver) (hlist : v.candidate.path ∈ t.list s.dir)
    (hrefused : ∀ w ∈ o.verdicts s.importResolver, w.candidate.path = v.candidate.path →
      w.fault ≠ none) :
    v.candidate.path ∈ s.ownFiles.1.map SourceFile.path ∨ o.path.parent? = some s.dir := by
  have hparent := hs.parent?_of_mem_list hlist
  obtain ⟨accepted, haccepted, hchecked⟩ := Resolver.exists_accepted_of_mem_verdicts hv
  have hfault := hrefused v hv rfl
  rw [hchecked, Ne, Resolver.edgeFault?_eq_none_iff] at hfault
  by_cases hown : v.candidate.path ∈ s.ownFiles.1.map SourceFile.path
  · exact .inl hown
  by_cases hbeside : o.path.parent? = some s.dir
  · exact .inr hbeside
  -- no other check speaks against the import
  refine (hfault ⟨Path.startsWith_of_parent? hparent hinside, ?_, ?_, ?_, hown, ?_⟩).elim
  · intro hself
    apply hbeside
    show o.file.path.parent? = _
    rw [← hself, hparent]
  · intro hdir
    exact hbeside (hdir.symm.trans hparent)
  · -- the files of a chain are opened, and an opened file of the directory was parsed
    intro hchain
    exact hown (hs.mem_own_of_opened hlist (Resolver.mem_paths_of_mem_chain _ _ o ho _ hchain))
  · intro htwice
    obtain ⟨w, hw, hnone, hpath⟩ := haccepted _ htwice
    exact hrefused w hw hpath hnone

end LoadsFrom

/-- A file that was loaded was the candidate of an accepted import. -/
theorem accepted_of_mem_loaded {s : Session} {e : Edge} (he : e ∈ s.imports.loaded) :
    ∃ o ∈ s.imports.opened, ∃ v ∈ o.verdicts s.importResolver,
      v.fault = none ∧ v.candidate.path = e.path := by
  obtain ⟨o, ho, hedge⟩ := s.importResolver.accepted_of_mem_loaded [] _ e he
  obtain ⟨v, hv, hnone, rfl⟩ := Resolver.mem_edges_fst.1 hedge
  exact ⟨o, ho, v, hv, hnone, rfl⟩

/-- A reason against an import is reported by the session. -/
theorem refuses_of_fault {s : Session} (hinside : s.inside = true) {o : Opening} {v : Verdict}
    (ho : o ∈ s.imports.opened) (hv : v ∈ o.verdicts s.importResolver) (hfault : v.fault ≠ none) :
    s.Refuses v := by
  obtain ⟨fault, hfault⟩ := Option.ne_none_iff_exists'.1 hfault
  refine ⟨fault, hfault, mem_ofResult_run_of_imports hinside ?_⟩
  exact (s.importResolver.sound_closureAll [] _).edges_reported o ho _
    (Resolver.importing_mem_edges_snd hv hfault)

/-- Imports of the configuration files of the directory itself. Every examined import stands at the
`source` of an import block; those that lead to a file of the directory are all refused there, and
no file of the directory is loaded for an import, exactly when every one of them that comes from
outside the directory leads to a file that could be parsed. -/
theorem own_files_refused_iff (registry : Registry) (files : List (Path × String))
    (options : Options) (root dir : Path)
    (hinside : (new registry (FileTree.ofList files).provider options root dir).inside = true) :
    let s := new registry (FileTree.ofList files).provider options root dir
    let listed := (FileTree.ofList files).list s.dir
    (∀ o ∈ s.imports.opened, ∀ v ∈ o.verdicts s.importResolver,
        ∃ b ∈ o.file.blocksOf importType, ∃ expr, b.attributes.expr? "source" = some expr ∧
          v.candidate.range = expr.range) ∧
      (((∀ o ∈ s.imports.opened, ∀ v ∈ o.verdicts s.importResolver,
            v.candidate.path ∈ listed → s.Refuses v) ∧
          ∀ e ∈ s.imports.loaded, e.path ∉ listed) ↔
        ∀ o ∈ s.imports.opened, ∀ v ∈ o.verdicts s.importResolver, v.candidate.path ∈ listed →
          v.candidate.path ∈ s.ownFiles.1.map SourceFile.path ∨ o.path.parent? = some s.dir) := by
  intro s listed
  have hs : s.LoadsFrom (FileTree.ofList files) := loadsFrom_new registry files options root dir
  refine ⟨?_, ?_, ?_⟩
  · intro o ho v hv
    obtain ⟨b, hb, hc⟩ := Resolver.exists_block_of_mem_verdicts hv
    obtain ⟨expr, hexpr, hrange⟩ := Resolver.range_of_mem_blockCandidates hc
    exact ⟨b, hb, expr, hexpr, hrange⟩
  -- an import from outside to a file that did not parse would be accepted by the checks
  · rintro ⟨hrefuses, -⟩ o ho v hv hlist
    refine hs.own_or_beside hinside ho hv hlist fun w hw hpath => ?_
    obtain ⟨fault, hfault, -⟩ := hrefuses o ho w hw (hpath ▸ hlist)
    simp [hfault]
  · intro h
    refine ⟨fun o ho v hv hlist => ?_, fun e he hlist => ?_⟩
    · exact refuses_of_fault hinside ho hv (hs.fault_ne_none hv hlist (h o ho v hv hlist))
    · obtain ⟨o, ho, v, hv, hnone, hpath⟩ := accepted_of_mem_loaded he
      rw [← hpath] at hlist
      exact hs.fault_ne_none hv hlist (h o ho v hv hlist) hnone

/-! ## An own file that is malformed -/

/-- A file of the directory `/s` imports one of the directory `/x`, which imports a malformed file
of `/s`. -/
def malformedScope : List (Path × String) :=
  [(.ofText "/s/a.tm", "import \x7b\n  source = \"/x/1.tm\"\n\x7d\n"),
    (.ofText "/s/bad.tm", "a = \n"),
    (.ofText "/x/1.tm", "import \x7b\n  source = \"/s/bad.tm\"\n\x7d\n")]

/-- The session that loads `/s`. -/
def malformedSession : Session :=
  new .builtin (FileTree.ofList malformedScope).provider ⟨.empty⟩ .root (.ofText "/s")

/-- The directory of the session is inside the project. -/
theorem inside_malformedSession : malformedSession.inside = true :=
  rfl

/-- The expansion of the session opens two files and visits the malformed one without loading it. -/
theorem expandWithin_malformedSession :
    (malformedSession.importResolver.expandWithin 8 [] malformedSession.ownFiles.1).map
        (fun all => (all.files.map SourceFile.path, all.visited)) =
      some ([.ofText "/s/a.tm", .ofText "/x/1.tm"],
        [.ofText "/s/bad.tm", .ofText "/x/1.tm", .ofText "/s/a.tm"]) := by
  decide +kernel

/-- The malformed file is visited and not opened, so it was loaded in vain. -/
theorem mem_loaded_malformedSession :
    ∃ e ∈ malformedSession.imports.loaded, e.path = .ofText "/s/bad.tm" := by
  obtain ⟨all, hall, heq⟩ := Option.map_eq_some_iff.1 expandWithin_malformedSession
  have hexpand := Resolver.expandAll_eq_expandWithin _ hall
  rw [Resolver.expandAll_eq_closureAll] at hexpand
  obtain ⟨hpaths, hvisited⟩ := Prod.mk.inj heq
  rw [← hexpand] at hpaths hvisited
  have hsound := malformedSession.importResolver.sound_closureAll [] malformedSession.ownFiles.1
  have hmem : Path.ofText "/s/bad.tm" ∈ malformedSession.imports.visited := by
    rw [show malformedSession.imports.visited = _ from hvisited]
    exact List.mem_cons_self
  rcases hsound.settled _ hmem with hnil | hopen | ⟨e, he, hpath, -⟩
  · cases hnil
  · have hopen' := (Closure.map_path_files malformedSession.imports).symm ▸ hopen
    rw [show malformedSession.imports.files.map SourceFile.path = _ from hpaths] at hopen'
    revert hopen'
    decide
  · exact ⟨e, he, hpath⟩

/-- The malformed file is listed in the directory of the session. -/
theorem mem_list_malformedSession :
    Path.ofText "/s/bad.tm" ∈ (FileTree.ofList malformedScope).list malformedSession.dir := by
  decide

/-- In the session a file outside of the directory has a listed file that did not parse as a
candidate. -/
theorem own_files_refused_iff_malformedScope :
    malformedSession.inside = true ∧
      ¬ ∀ o ∈ malformedSession.imports.opened, ∀ v ∈ o.verdicts malformedSession.importResolver,
        v.candidate.path ∈ (FileTree.ofList malformedScope).list malformedSession.dir →
          v.candidate.path ∈ malformedSession.ownFiles.1.map SourceFile.path ∨
            o.path.parent? = some malformedSession.dir := by
  refine ⟨inside_malformedSession, fun h => ?_⟩
  obtain ⟨-, hiff⟩ := own_files_refused_iff .builtin malformedScope ⟨.empty⟩ .root (.ofText "/s")
    inside_malformedSession
  obtain ⟨e, he, hpath⟩ := mem_loaded_malformedSession
  exact (hiff.2 h).2 e he (hpath ▸ mem_list_malformedSession)

/-- The malformed file is loaded for the import, its fault is reported twice, and there is no error
about the import. -/
theorem malformed_own_file_imported :
    (∃ e ∈ malformedSession.imports.loaded,
        e.path ∈ (FileTree.ofList malformedScope).list malformedSession.dir) ∧
      ∃ d, malformedSession.run = .error [d, d] ∧ d.kind = .malformed := by
  obtain ⟨e, he, hpath⟩ := mem_loaded_malformedSession
  refine ⟨⟨e, he, hpath ▸ mem_list_malformedSession⟩, ?_⟩
  have hrun : (malformedSession.runWithin 8).map Diagnostic.ofResult =
      some [⟨.malformed .missingExpression, some ⟨"/s/bad.tm", ⟨1, 5, 4⟩, ⟨2, 1, 5⟩⟩⟩,
        ⟨.malformed .missingExpression, some ⟨"/s/bad.tm", ⟨1, 5, 4⟩, ⟨2, 1, 5⟩⟩⟩] := by
    decide +kernel
  obtain ⟨result, hresult, herrors⟩ := Option.map_eq_some_iff.1 hrun
  rw [run_eq_runWithin hresult]
  cases result with
  | ok c => cases herrors
  | error faults =>
    obtain rfl : faults = _ := herrors
    exact ⟨_, rfl, rfl⟩

end Session

end ScopeConfig
