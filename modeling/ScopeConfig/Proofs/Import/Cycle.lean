import Mathlib.Data.List.Nodup
import Mathlib.Logic.Relation
import ScopeConfig.Proofs.Import.Discovery

/-!
# Import cycles

The accepted edges of a run never form a cycle, whatever is refused on the way: when a file is
closed, everything that it imports was closed before it, because an edge to an open file, which is
an edge into the chain, is refused. A refused edge of this kind does close a cycle, since the files
of a chain import each other.

## Main statements

* `acc_closureAll`: the accepted edges lead from every visited path down to files without any.
* `imports_acyclic_of_no_errors`: without errors, the relation of importing is acyclic.
* `cycle_error_genuine`: a reported cycle is one.
* `import_cycles_exact`: both, over the calls that share a set of visited paths.
-/

namespace ScopeConfig

open Syntax Relation

namespace Resolver

/-- Some import block of the file `p` among `files` resolves to `q`. -/
def Imports (r : Resolver) (files : List SourceFile) (p q : Path) : Prop :=
  ∃ f ∈ files, f.path = p ∧
    ∃ b ∈ f.blocksOf importType, ∃ c ∈ r.blockCandidates f.path b, c.path = q

/-- The file `p` among `os` has an accepted edge to `q`. -/
def Accepts (r : Resolver) (os : List Opening) (p q : Path) : Prop :=
  ∃ o ∈ os, o.path = p ∧ ∃ e ∈ o.edges r, e.path = q

/-! ## Accepted edges are well founded -/

/-- A file has no infinite descent along accepted edges when the files it leads to, which are
outside its chain, have none. -/
theorem acc_of_opening {r : Resolver} {os : List Opening} {o : Opening} {reached : List Path}
    (hnodup : (os.map Opening.path).Nodup) (ho : o ∈ os)
    (hreached : ∀ e ∈ o.edges r, e.path ∈ reached)
    (hacc : ∀ p ∈ reached, p ∉ o.chain → Acc (flip (r.Accepts os)) p) :
    Acc (flip (r.Accepts os)) o.path := by
  refine Acc.intro _ fun q hq => ?_
  obtain ⟨o', ho', hpath, e, he, rfl⟩ := hq
  -- the path was opened once, so the edge is one of `o`
  obtain rfl : o' = o := List.inj_on_of_nodup_map hnodup ho' ho hpath
  obtain ⟨-, -, -, hchain, -⟩ := checks_of_mem_edges he
  exact hacc e.path (hreached e he) hchain

/-- Following edges keeps the paths outside the chain without infinite descent: a path that is
visited and not in the chain is closed. -/
theorem acc_follow (r : Resolver) {os : List Opening} (hnodup : (os.map Opening.path).Nodup)
    (visited chain : List Path) (edges : List Edge)
    (hopened : ∀ o ∈ (r.follow visited chain edges).opened, o ∈ os)
    (hfailed : ∀ e ∈ (r.follow visited chain edges).loaded, (r.load e).1 = none →
      e.path ∉ os.map Opening.path)
    (hacc : ∀ p ∈ visited, p ∉ chain → Acc (flip (r.Accepts os)) p) :
    ∀ p ∈ (r.follow visited chain edges).visited, p ∉ chain → Acc (flip (r.Accepts os)) p := by
  induction visited, chain, edges using r.follow_induction with
  | nil visited chain => exact hacc
  | skip visited chain e edges hv ih => exact ih hopened hfailed hacc
  | fail visited chain e edges faults hv hload ih =>
    refine ih hopened (fun e' he' => hfailed e' (List.mem_cons_of_mem _ he')) ?_
    intro p hp hchain
    rcases List.mem_cons.1 hp with rfl | hp
    · -- a file that cannot be loaded has no edges
      refine Acc.intro _ fun q hq => ?_
      obtain ⟨o, ho, hpath, -⟩ := hq
      have hnot := hfailed e List.mem_cons_self (by rw [hload])
      exact (hnot (List.mem_map.2 ⟨o, ho, hpath⟩)).elim
    · exact hacc p hp hchain
  | enter visited chain e edges f faults hv hload ihInner ihRest =>
    have hpath : f.path = e.path := path_of_load (by rw [hload])
    obtain ⟨-, hreached⟩ := r.sound_follow (e.path :: visited) (chain ++ [e.path])
      (r.edges f (chain ++ [e.path])).1
    -- inside, the file itself is on the chain, and nothing is asked of it yet
    have hinner := ihInner
      (fun o ho => hopened o (List.mem_append_left _ (List.mem_cons_of_mem _ ho)))
      (fun e' he' => hfailed e' (List.mem_append_left _ (List.mem_cons_of_mem _ he')))
      (by
        intro p hp hchain
        rcases List.mem_cons.1 hp with rfl | hp
        · simp at hchain
        · exact hacc p hp fun h => hchain (List.mem_append_left _ h))
    refine ihRest (fun o ho => hopened o (List.mem_append_right _ ho))
      (fun e' he' => hfailed e' (List.mem_append_right _ he')) ?_
    intro p hp hchain
    by_cases hlast : p = e.path
    · -- the file that was opened is closed now
      subst hlast
      have hmem := hopened ⟨f, chain ++ [e.path]⟩ (List.mem_append_left _ List.mem_cons_self)
      exact hpath ▸ acc_of_opening hnodup hmem hreached hinner
    · exact hinner p hp (by simp [hchain, hlast])

/-- When the visited paths are accessible along accepted edges, so are those that are visited after
the closure of a file. -/
theorem acc_closure (r : Resolver) {os : List Opening} (hnodup : (os.map Opening.path).Nodup)
    (visited : List Path) (f : SourceFile) (hopened : ∀ o ∈ (r.closure visited f).opened, o ∈ os)
    (hfailed : ∀ e ∈ (r.closure visited f).loaded, (r.load e).1 = none →
      e.path ∉ os.map Opening.path)
    (hacc : ∀ p ∈ visited, Acc (flip (r.Accepts os)) p) :
    ∀ p ∈ (r.closure visited f).visited, Acc (flip (r.Accepts os)) p := by
  by_cases hv : f.path ∈ visited
  · simpa [closure, hv] using hacc
  · simp only [closure, hv, if_false] at hopened hfailed ⊢
    obtain ⟨-, hreached⟩ := r.sound_follow (f.path :: visited) [f.path] (r.edges f [f.path]).1
    -- the file itself is on the chain until all that it imports is followed
    have hinner := r.acc_follow hnodup (f.path :: visited) [f.path] (r.edges f [f.path]).1
      (fun o ho => hopened o (List.mem_cons_of_mem _ ho)) hfailed
      (by
        intro p hp hchain
        rcases List.mem_cons.1 hp with rfl | hp
        · simp at hchain
        · exact hacc p hp)
    intro p hp
    by_cases hstart : p = f.path
    · subst hstart
      exact acc_of_opening hnodup (hopened ⟨f, [f.path]⟩ List.mem_cons_self) hreached hinner
    · exact hinner p hp (by simpa using hstart)

/-- When the visited paths are accessible along accepted edges, so are those that are visited after
the closures of files. -/
theorem acc_closureAll (r : Resolver) {os : List Opening} (hnodup : (os.map Opening.path).Nodup)
    (visited : List Path) (starts : List SourceFile)
    (hopened : ∀ o ∈ (r.closureAll visited starts).opened, o ∈ os)
    (hfailed : ∀ e ∈ (r.closureAll visited starts).loaded, (r.load e).1 = none →
      e.path ∉ os.map Opening.path)
    (hacc : ∀ p ∈ visited, Acc (flip (r.Accepts os)) p) :
    ∀ p ∈ (r.closureAll visited starts).visited, Acc (flip (r.Accepts os)) p := by
  induction starts generalizing visited with
  | nil => exact hacc
  | cons f starts ih =>
    refine ih _ (fun o ho => hopened o (List.mem_append_right _ ho))
      (fun e he => hfailed e (List.mem_append_right _ he)) ?_
    exact r.acc_closure hnodup visited f (fun o ho => hopened o (List.mem_append_left _ ho))
      (fun e he => hfailed e (List.mem_append_left _ he)) hacc

/-- An accessible point is on no cycle. -/
theorem not_transGen_self_of_acc {α : Type} {R : α → α → Prop} {a : α} (h : Acc (flip R) a) :
    ¬ TransGen R a a := by
  induction h with
  | intro a _ ih =>
    intro hloop
    obtain ⟨b, hab, hba⟩ := TransGen.head'_iff.1 hloop
    exact ih b hab (TransGen.tail' hba hab)

/-- The accepted edges of a run form no cycle. -/
theorem accepts_acyclic (r : Resolver) (starts : List SourceFile) (p : Path) :
    ¬ TransGen (r.Accepts (r.closureAll [] starts).opened) p p := by
  intro hloop
  have hsound := r.sound_closureAll [] starts
  obtain ⟨q, ⟨o, ho, rfl, -⟩, -⟩ := TransGen.head'_iff.1 hloop
  have hacc := r.acc_closureAll hsound.paths_nodup [] starts (fun _ ho => ho)
    hsound.failed_not_opened (by simp)
  exact not_transGen_self_of_acc
    (hacc o.path (hsound.paths_visited _ (Closure.mem_paths.2 ⟨o, ho, rfl⟩))) hloop

/-! ## Runs without errors -/

/-- A block without errors of its own whose candidates are all accepted resolves to accepted edges
only. -/
theorem accepts_of_imports {r : Resolver} {starts : List SourceFile}
    (hok : (r.closureAll [] starts).errors = []) {p q : Path}
    (himports : r.Imports (r.closureAll [] starts).files p q) :
    r.Accepts (r.closureAll [] starts).opened p q := by
  obtain ⟨f, hf, rfl, b, hb, c, hc, rfl⟩ := himports
  obtain ⟨o, ho, rfl⟩ := List.mem_map.1 hf
  obtain ⟨v, hv, rfl⟩ := exists_verdict_of_mem_blockCandidates o.chain hb hc
  have hnone : v.fault = none := by
    cases hfault : v.fault with
    | none => rfl
    | some fault =>
      have hin := (r.sound_closureAll [] starts).edges_reported o ho _
        (importing_mem_edges_snd hv hfault)
      simp [hok] at hin
  exact ⟨o, ho, rfl, v.candidate.edge, mem_edges_fst.2 ⟨v, hv, hnone, rfl⟩, rfl⟩

/-- Without errors, the files of a run do not import each other in a circle. -/
theorem imports_acyclic_of_no_errors {r : Resolver} {starts : List SourceFile}
    (hok : (r.closureAll [] starts).errors = []) (p : Path) :
    ¬ TransGen (r.Imports (r.closureAll [] starts).files) p p := by
  intro hloop
  apply r.accepts_acyclic starts p
  exact TransGen.mono (fun _ _ => accepts_of_imports hok) _ _ hloop

/-! ## Reported cycles -/

/-- The chain of an opened file leads from a start to the file, and every file of it leads to the
file along accepted edges. -/
theorem chain_of_mem_opened (r : Resolver) (starts : List SourceFile) :
    ∀ o ∈ (r.closureAll [] starts).opened,
      (∃ f ∈ starts, o.chain.head? = some f.path) ∧
        ∀ p ∈ o.chain, ReflTransGen (r.Accepts (r.closureAll [] starts).opened) p o.path := by
  refine (r.grown_closureAll [] starts).induction ?_ ?_
  · rintro o ⟨f, hf, rfl⟩
    refine ⟨⟨f, hf, rfl⟩, fun p hp => ?_⟩
    obtain rfl := List.mem_singleton.1 hp
    exact .refl
  · rintro parent hparent o ⟨hchain, e, he, hpath, -⟩ ⟨⟨f, hf, hhead⟩, hlead⟩
    refine ⟨⟨f, hf, by simp [hchain, hhead]⟩, fun p hp => ?_⟩
    have hstep : r.Accepts (r.closureAll [] starts).opened parent.path o.path :=
      ⟨parent, hparent, rfl, e, he, hpath⟩
    rw [hchain] at hp
    rcases List.mem_append.1 hp with hp | hp
    · exact (hlead p hp).tail hstep
    · obtain rfl := List.mem_singleton.1 hp
      exact .refl

/-- What is wrong with a block itself is that it violates a rule or that its source leads
nowhere. -/
theorem schema_or_importing_of_mem_blockErrors {r : Resolver} {importer : Path} {b : Block}
    {d : Diagnostic} (hd : d ∈ r.blockErrors importer b) :
    (∃ fault range, d = .schema fault range) ∨
      ∃ fault range, d = .importing fault range ∧ ∀ trail, fault ≠ .cycle trail := by
  unfold blockErrors at hd
  split at hd
  · rename_i faults hfound
    exact .inl (schema_of_mem_source (by rwa [hfound]))
  · rename_i text range faults hfound
    split at hd
    · rename_i d' hpaths
      rcases List.mem_append.1 hd with hd | hd
      · exact .inl (schema_of_mem_source (by rwa [hfound]))
      · obtain rfl := List.mem_singleton.1 hd
        rcases pathsOf_eq_error hpaths with ⟨e, rfl⟩ | ⟨fault, rfl⟩ | rfl | rfl
        · exact .inl ⟨_, _, rfl⟩
        all_goals exact .inr ⟨_, _, rfl, by simp⟩
    · exact .inl (schema_of_mem_source (by rwa [hfound]))

/-- A load reports that a file cannot be read, that it is malformed, or that it has blocks that may
not be imported. -/
theorem sort_of_mem_load {r : Resolver} {e : Edge} {d : Diagnostic} (hd : d ∈ (r.load e).2) :
    (∃ fault, d = .importing (.notRead e.path fault) e.sourceRange) ∨ d.IsMalformed ∨
      ∃ b : Block, d = ⟨.refusedImport b.blockType e.sourceRange, some b.header⟩ := by
  unfold load at hd
  split at hd
  · exact .inl ⟨_, List.mem_singleton.1 hd⟩
  · split at hd
    · rename_i faults hparse
      exact .inr (.inl (SourceFile.malformed_of_parse hparse d hd))
    · obtain ⟨b, -, rfl⟩ := List.mem_map.1 hd
      exact .inr (.inr ⟨b, rfl⟩)

/-- What is wrong with a block itself is never a cycle. -/
theorem cause_ne_cycle_of_mem_blockErrors {r : Resolver} {importer : Path} {b : Block}
    {d : Diagnostic} (hd : d ∈ r.blockErrors importer b) (trail : List Path) :
    d.cause ≠ .importing (.cycle trail) := by
  rcases schema_or_importing_of_mem_blockErrors hd with ⟨fault, range, rfl⟩ | ⟨fault, range, rfl, h⟩
  · simp [Diagnostic.schema]
  · simpa [Diagnostic.importing] using h trail

/-- A load never reports a cycle. -/
theorem cause_ne_cycle_of_mem_load {r : Resolver} {e : Edge} {d : Diagnostic}
    (hd : d ∈ (r.load e).2) (trail : List Path) : d.cause ≠ .importing (.cycle trail) := by
  rcases sort_of_mem_load hd with ⟨fault, rfl⟩ | ⟨fault, range, rfl⟩ | ⟨b, rfl⟩
  · simp [Diagnostic.importing]
  · simp [Diagnostic.malformed]
  · simp

/-- A cycle is reported at the source of a block of a file `f` which resolves to a file of the chain
of `f`, and accepted edges lead from there to `f`. -/
theorem cycle_error_genuine {r : Resolver} {starts : List SourceFile} {d : Diagnostic}
    {trail : List Path} (hd : d ∈ (r.closureAll [] starts).errors)
    (hcause : d.cause = .importing (.cycle trail)) :
    ∃ o ∈ (r.closureAll [] starts).opened, ∃ b ∈ o.file.blocksOf importType,
      ∃ c ∈ r.blockCandidates o.path b, ∃ expr, b.attributes.expr? "source" = some expr ∧
        d.range = some expr.range ∧ trail = o.chain ++ [c.path] ∧ c.path ∈ o.chain ∧
        TransGen (r.Accepts (r.closureAll [] starts).opened) c.path o.path := by
  -- errors of loading and of the form of a block are no cycles, so it is one of a verdict
  rcases (r.sound_closureAll [] starts).explained d hd with ⟨e, -, hload⟩ | ⟨o, ho, hin⟩
  · exact (cause_ne_cycle_of_mem_load hload trail hcause).elim
  · rcases mem_edges_snd.1 hin with ⟨b, -, hblock⟩ | ⟨v, hv, herror⟩
    · exact (cause_ne_cycle_of_mem_blockErrors hblock trail hcause).elim
    · obtain ⟨fault, hfault, rfl⟩ := Verdict.error?_eq_some_iff.1 herror
      obtain rfl : fault = .cycle trail := by simpa [Diagnostic.importing] using hcause
      obtain ⟨accepted, -, hchecked⟩ := exists_accepted_of_mem_verdicts hv
      obtain ⟨hmem, hne, htrail⟩ := eq_of_edgeFault?_eq_cycle (hchecked.symm.trans hfault)
      obtain ⟨b, hb, hc⟩ := exists_block_of_mem_verdicts hv
      obtain ⟨expr, hexpr, hrange⟩ := range_of_mem_blockCandidates hc
      refine ⟨o, ho, b, hb, v.candidate, hc, expr, hexpr, ?_, htrail, hmem, ?_⟩
      · simp [Diagnostic.importing, hrange]
      -- each file of a chain leads to the last one along accepted edges
      · obtain ⟨-, hlead⟩ := r.chain_of_mem_opened starts o ho
        rcases reflTransGen_iff_eq_or_transGen.1 (hlead _ hmem) with heq | hgen
        · exact (hne heq.symm).elim
        · exact hgen

/-- Cycles are found exactly, over all calls that share a set of visited paths. When nothing is
reported, the files returned do not import each other in a circle. And a reported cycle is one: it
is located at the source of an import block of a returned file that resolves to a file of its
chain, which starts at one of the starts, and from that file accepted edges lead to the file
itself. -/
theorem import_cycles_exact (r : Resolver) (starts : List SourceFile) :
    (r.expandAll [] starts).files = (r.closureAll [] starts).files ∧
      ((r.expandAll [] starts).errors = [] →
        ∀ p, ¬ TransGen (r.Imports (r.expandAll [] starts).files) p p) ∧
      ∀ d ∈ (r.expandAll [] starts).errors, ∀ trail, d.cause = .importing (.cycle trail) →
        ∃ o ∈ (r.closureAll [] starts).opened, ∃ b ∈ o.file.blocksOf importType,
          ∃ c ∈ r.blockCandidates o.path b, ∃ expr, b.attributes.expr? "source" = some expr ∧
            d.range = some expr.range ∧ trail = o.chain ++ [c.path] ∧ c.path ∈ o.chain ∧
            (∃ f ∈ starts, o.chain.head? = some f.path) ∧
            TransGen (r.Accepts (r.closureAll [] starts).opened) c.path o.path := by
  rw [expandAll_eq_closureAll]
  refine ⟨rfl, fun hok => imports_acyclic_of_no_errors hok, fun d hd trail hcause => ?_⟩
  obtain ⟨o, ho, b, hb, c, hc, expr, hexpr, hrange, htrail, hmem, hgen⟩ :=
    cycle_error_genuine hd hcause
  exact ⟨o, ho, b, hb, c, hc, expr, hexpr, hrange, htrail, hmem,
    (r.chain_of_mem_opened starts o ho).1, hgen⟩

end Resolver

end ScopeConfig
