import ScopeConfig.Proofs.Import.Discovery
import ScopeConfig.Proofs.Syntax.Places

/-!
# What each import block contributes

`Resolver.edges` goes through the import blocks of a file with one growing list of accepted edges.
Here its result is cut up by blocks: every block has a share of the edges and of the errors
(`Share`), and a share is settled by the block alone and the paths that the blocks before it had
accepted (`Share.Settled`). Which blocks are well formed is said without the reader of import blocks
(`Import.WellFormed`), and the reasons against a path are a list of checks of which the first that
fails decides (`Resolver.objections`).

## Main statements

* `edgeFault?_eq_first_objection`: the reason against a path is that of the first failing check.
* `settled_share`: the share of a block is settled by what the blocks before it accepted.
* `errors_perm_closureAll`: the errors of a run are those of its loads and of its import blocks.
* `edges_exact`: the edges and errors of every opened file, block by block and path by path.
-/

namespace ScopeConfig

open Syntax

namespace Import

/-! ## Well-formed import blocks -/

/-- An import block as it should be: no labels, no blocks in it, no attribute but `source`, whose
expression stands at `range` and is the literal of `text`. -/
structure WellFormed (b : Block) (text : String) (range : SourceRange) : Prop where
  labels : b.labels = []
  blocks : b.blocks = []
  attributes : ∀ a ∈ b.attributes.entries, a.name = "source"
  source : ∃ e, b.attributes.expr? "source" = some e ∧ Literal.evaluate e = .ok (.text text) ∧
    e.range = range

/-- A block passes the rule of import blocks exactly if it has no labels, no inner blocks and no
attribute but `source`. -/
theorem blockFaults_eq_nil_iff {b : Block} :
    blockFaults b = [] ↔
      b.labels = [] ∧ b.blocks = [] ∧ ∀ a ∈ b.attributes.entries, a.name = "source" := by
  simp only [blockFaults, List.append_eq_nil_iff, List.map_eq_nil_iff, Option.toList_eq_nil_iff,
    Block.labelsRange?_eq_none_iff, List.filter_eq_nil_iff, decide_eq_true_eq, Decidable.not_not]
  rw [and_assoc, and_comm (b := b.blocks = [])]

/-- The source of a block is a text exactly if its `source` attribute is there and evaluates to that
text. -/
theorem sourceText_eq_ok_iff {b : Block} {text : String} {range : SourceRange} :
    sourceText b = .ok (text, range) ↔
      ∃ e, b.attributes.expr? "source" = some e ∧ Literal.evaluate e = .ok (.text text) ∧
        e.range = range := by
  unfold sourceText
  cases b.attributes.expr? "source" with
  | none => simp
  | some e =>
    cases hvalue : Literal.evaluate e with
    | error fault => simp [hvalue]
    | ok value => cases value <;> simp [hvalue]

/-- A source is read off a well-formed block, and then nothing is wrong with the block. -/
theorem source_of_wellFormed {b : Block} {text : String} {range : SourceRange}
    (h : WellFormed b text range) : source b = (some (text, range), []) := by
  have hfaults : blockFaults b = [] := blockFaults_eq_nil_iff.2 ⟨h.labels, h.blocks, h.attributes⟩
  have htext : sourceText b = .ok (text, range) := sourceText_eq_ok_iff.2 h.source
  simp [source, htext, hfaults]

/-- No source is read off any other block, and then something is wrong with it. -/
theorem source_of_not_wellFormed {b : Block} (h : ∀ text range, ¬WellFormed b text range) :
    (source b).1 = none ∧ (source b).2 ≠ [] := by
  unfold source
  cases htext : sourceText b with
  | error d => simp
  | ok found =>
    have hfaults : blockFaults b ≠ [] := by
      intro hfaults
      obtain ⟨hlabels, hblocks, hattributes⟩ := blockFaults_eq_nil_iff.1 hfaults
      exact h found.1 found.2 ⟨hlabels, hblocks, hattributes, sourceText_eq_ok_iff.1 htext⟩
    simp [hfaults]

end Import

/-! ## The first failing check -/

namespace Resolver

open Import

/-- The checks on an import of `path`, in the order in which they are made: whether the check fails,
and the reason it gives then. -/
def objections (r : Resolver) (importer : Path) (chain accepted : List Path) (source : String)
    (path : Path) : List (Bool × ImportFault) :=
  [(!path.startsWith r.root, .outsideRoot source),
    (path = importer, .itself path),
    (path.parent? = importer.parent?, .sameDirectory path),
    (path ∈ chain, .cycle (chain ++ [path])),
    (path ∈ r.own, .ownFile path),
    (path ∈ accepted, .twice path)]

/-- The reason against a path is that of the first check that fails. -/
theorem edgeFault?_eq_first_objection (r : Resolver) (importer : Path)
    (chain accepted : List Path) (source : String) (path : Path) :
    r.edgeFault? importer chain accepted source path =
      ((r.objections importer chain accepted source path).find? Prod.fst).map Prod.snd := by
  simp only [edgeFault?, objections, List.find?_cons, List.find?_nil]
  grind

/-- A source never stands for no paths at all. -/
theorem pathsOf_ne_nil {r : Resolver} {importerDir : Path} {source : String} {range : SourceRange}
    {paths : List Path} (h : r.pathsOf importerDir source range = .ok paths) : paths ≠ [] := by
  unfold pathsOf at h
  split at h
  · dsimp only at h
    split at h
    · cases h
    · split at h
      · cases h
      · cases h
      -- a pattern that finds nothing is a fault, and sorting loses no path
      · rename_i found hnone _
        obtain rfl := Except.ok.inj h
        intro hnil
        have hlength : found.length = 0 := by
          rw [← (List.mergeSort_perm found Path.le).length_eq, hnil]
          rfl
        exact hnone (List.length_eq_zero_iff.1 hlength)
  · dsimp only at h
    split at h
    · obtain rfl := Except.ok.inj h
      simp
    · cases h

end Resolver

/-! ## The share of a block -/

/-- What one import block contributes: the errors about the block itself, and a verdict on each path
that its source stands for. -/
structure Share where
  block : Block
  faults : List Diagnostic
  verdicts : List Verdict

namespace Share

/-- The edges among a share: one for each verdict that accepts. -/
def edges (s : Share) : List Edge :=
  s.verdicts.filterMap Verdict.edge?

/-- The errors among a share: those about the block, and one for each verdict that refuses. -/
def errors (s : Share) : List Diagnostic :=
  s.faults ++ s.verdicts.filterMap Verdict.error?

/-- How the share of a block comes about in a file `importer` whose chain is `chain`, when the
blocks before it had the paths in `accepted` accepted. -/
inductive Settled (r : Resolver) (importer : Path) (chain accepted : List Path) : Share → Prop
  /-- A malformed block has errors that say so, and nothing is looked up for it. -/
  | malformed {b : Block} {faults : List Diagnostic}
      (block : ∀ text range, ¬Import.WellFormed b text range) (some_fault : faults ≠ [])
      (schema : ∀ d ∈ faults, d.kind = .schema) : Settled r importer chain accepted ⟨b, faults, []⟩
  /-- The source of a well-formed block that stands for nothing is one error. -/
  | unresolved {b : Block} {text : String} {range : SourceRange} {d : Diagnostic}
      (block : Import.WellFormed b text range)
      (paths : r.pathsOf (importer.parent?.getD .root) text range = .error d) :
      Settled r importer chain accepted ⟨b, [d], []⟩
  /-- Otherwise each path has a verdict, which is the first objection to it. -/
  | resolved {b : Block} {text : String} {range : SourceRange} {paths : List Path}
      {vs : List Verdict} (block : Import.WellFormed b text range)
      (paths_eq : r.pathsOf (importer.parent?.getD .root) text range = .ok paths)
      (some_path : paths ≠ [])
      (candidates : vs.map Verdict.candidate = paths.map fun path => ⟨path, text, range⟩)
      (first : ∀ before v after, vs = before ++ v :: after →
        v.fault = ((r.objections importer chain (accepted ++ Verdict.accepted before) text
          v.candidate.path).find? Prod.fst).map Prod.snd) :
      Settled r importer chain accepted ⟨b, [], vs⟩

/-- No block is passed over in silence. -/
theorem Settled.not_silent {r : Resolver} {importer : Path} {chain accepted : List Path}
    {s : Share} (h : s.Settled r importer chain accepted) : s.edges ≠ [] ∨ s.errors ≠ [] := by
  cases h with
  | malformed block some_fault schema => exact .inr (by simpa [errors] using some_fault)
  | unresolved block paths => exact .inr (by simp [errors])
  | @resolved b text range paths vs block paths_eq some_path candidates first =>
    have hsome : vs ≠ [] := by
      rintro rfl
      exact some_path (List.map_eq_nil_iff.1 candidates.symm)
    obtain ⟨⟨c, fault⟩, vs, rfl⟩ := List.exists_cons_of_ne_nil hsome
    cases fault with
    | none => exact .inl (by simp [edges])
    | some fault => exact .inr (by simp [errors])

end Share

namespace Resolver

open Import

/-- The share of a block when the paths in `accepted` were accepted before it. -/
def share (r : Resolver) (importer : Path) (chain accepted : List Path) (b : Block) : Share :=
  ⟨b, r.blockErrors importer b, r.judge importer chain accepted (r.blockCandidates importer b)⟩

/-- The shares of blocks, one after the other. -/
def shares (r : Resolver) (importer : Path) (chain accepted : List Path) :
    List Block → List Share
  | [] => []
  | b :: blocks =>
    let s := r.share importer chain accepted b
    s :: r.shares importer chain (accepted ++ s.edges.map Edge.path) blocks

section Shares

variable (r : Resolver) (importer : Path) (chain : List Path)

/-- The share of a block is settled by the paths accepted before it. -/
theorem settled_share (accepted : List Path) (b : Block) :
    (r.share importer chain accepted b).Settled r importer chain accepted := by
  unfold share blockErrors blockCandidates
  by_cases hformed : ∃ text range, WellFormed b text range
  · obtain ⟨text, range, hformed⟩ := hformed
    simp only [source_of_wellFormed hformed]
    cases hpaths : r.pathsOf (importer.parent?.getD .root) text range with
    | error d => exact .unresolved hformed hpaths
    | ok paths =>
      refine .resolved hformed hpaths (pathsOf_ne_nil hpaths) (map_candidate_judge ..) ?_
      -- each path is judged with what was accepted before it, in this block too
      intro before v after hsplit
      have hsource : v.candidate.source = text := by
        have hmem : v.candidate ∈ paths.map fun path => (⟨path, text, range⟩ : Candidate) := by
          rw [← map_candidate_judge r importer chain accepted (paths.map _), hsplit]
          exact List.mem_map_of_mem (List.mem_append_right _ List.mem_cons_self)
        obtain ⟨path, -, hpath⟩ := List.mem_map.1 hmem
        rw [← hpath]
      rw [fault_eq_edgeFault?_of_judge r importer chain hsplit, hsource,
        edgeFault?_eq_first_objection]
  · have hformed : ∀ text range, ¬WellFormed b text range :=
      fun text range h => hformed ⟨text, range, h⟩
    obtain ⟨hnone, hfaults⟩ := source_of_not_wellFormed hformed
    have hschema : ∀ d ∈ (source b).2, d.kind = .schema := by
      intro d hd
      obtain ⟨fault, range, rfl⟩ := schema_of_mem_source hd
      rfl
    rcases hsource : source b with ⟨_ | found, faults⟩
    · rw [hsource] at hfaults hschema
      exact .malformed hformed hfaults hschema
    · rw [hsource] at hnone
      cases hnone

/-- There is one share for each block, in order. -/
@[simp] theorem map_block_shares (accepted : List Path) (blocks : List Block) :
    (r.shares importer chain accepted blocks).map Share.block = blocks := by
  induction blocks generalizing accepted with
  | nil => rfl
  | cons b blocks ih => simp [shares, share, ih]

/-- The edges and errors of blocks are those of their shares, in order. -/
theorem acceptBlocks_eq_shares (accepted : List Edge) (blocks : List Block) :
    r.acceptBlocks importer chain accepted blocks =
      let ss := r.shares importer chain (accepted.map Edge.path) blocks
      (accepted ++ ss.flatMap Share.edges, ss.flatMap Share.errors) := by
  induction blocks generalizing accepted with
  | nil => simp [acceptBlocks, shares]
  | cons b blocks ih =>
    simp [acceptBlocks, acceptBlock_eq, ih, shares, share, Share.edges, Share.errors]

/-- Every share is settled by the paths that the shares before it accepted. -/
theorem settled_of_shares_eq {accepted : List Path} {blocks : List Block}
    {before after : List Share} {s : Share}
    (h : r.shares importer chain accepted blocks = before ++ s :: after) :
    s.Settled r importer chain (accepted ++ (before.flatMap Share.edges).map Edge.path) := by
  induction blocks generalizing accepted before with
  | nil => simp [shares] at h
  | cons b blocks ih =>
    simp only [shares] at h
    cases before with
    | nil =>
      obtain ⟨rfl, -⟩ := List.cons.inj h
      simpa using r.settled_share importer chain accepted b
    | cons first before =>
      obtain ⟨rfl, htail⟩ := List.cons.inj h
      simpa using ih htail

/-- What is accepted is new each time. -/
theorem nodup_accepted_judge {accepted : List Path} (h : accepted.Nodup) (cs : List Candidate) :
    (accepted ++ Verdict.accepted (r.judge importer chain accepted cs)).Nodup := by
  induction cs generalizing accepted with
  | nil => simpa [judge] using h
  | cons c cs ih =>
    unfold judge
    split
    · simpa using ih h
    · rename_i hnone
      obtain ⟨-, -, -, -, -, hnew⟩ := edgeFault?_eq_none_iff.1 hnone
      have hadded : (accepted ++ [c.path]).Nodup := by
        rw [List.nodup_append]
        refine ⟨h, by simp, ?_⟩
        rintro p hp q hq rfl
        exact hnew (List.mem_singleton.1 hq ▸ hp)
      simpa using ih hadded

end Shares

/-- The files that a file imports are distinct. -/
theorem nodup_edges (r : Resolver) (f : SourceFile) (chain : List Path) :
    ((r.edges f chain).1.map Edge.path).Nodup := by
  have h := r.nodup_accepted_judge f.path chain List.nodup_nil (r.candidates f)
  rw [edges_fst]
  simpa [Verdict.accepted, verdicts] using h

end Resolver

/-! ## The errors of a run -/

namespace Closure

/-- The errors of the files loaded, and then those of the import blocks of the files opened. -/
def reports (r : Resolver) (c : Closure) : List Diagnostic :=
  c.loaded.flatMap (fun e => (r.load e).2) ++ c.opened.flatMap (Opening.errors r)

/-- The errors of a part of a run, counted each, are those of its loads and import blocks. -/
def Accounted (r : Resolver) (c : Closure) : Prop :=
  c.errors.Perm (c.reports r)

/-- Two parts of a run that account for their errors do so together. -/
theorem accounted_append {r : Resolver} {c d : Closure} (hc : c.Accounted r)
    (hd : d.Accounted r) : (c ++ d).Accounted r := by
  refine (List.Perm.append hc hd).trans ?_
  simp only [reports, loaded_append, opened_append, List.flatMap_append]
  rw [List.append_assoc, List.append_assoc]
  refine List.Perm.append_left _ ?_
  rw [← List.append_assoc, ← List.append_assoc]
  exact List.Perm.append_right _ List.perm_append_comm

end Closure

namespace Resolver

/-- Following edges accounts for all of its errors. -/
theorem accounted_follow (r : Resolver) (visited chain : List Path) (edges : List Edge) :
    (r.follow visited chain edges).Accounted r := by
  induction visited, chain, edges using r.follow_induction with
  | nil visited chain => exact .refl _
  | skip visited chain e edges hv ih => exact ih
  | fail visited chain e edges faults hv hload ih =>
    refine Closure.accounted_append ?_ ih
    simp [Closure.Accounted, Closure.reports, hload]
  | enter visited chain e edges f faults hv hload ihInner ihRest =>
    refine Closure.accounted_append (Closure.accounted_append ?_ ?_) ihRest
    · simp [Closure.Accounted, Closure.reports, hload]
    · refine Closure.accounted_append ?_ ihInner
      simp [Closure.Accounted, Closure.reports, Opening.errors]

/-- The errors of a run are those of its loads and of the import blocks of its files. -/
theorem accounted_closureAll (r : Resolver) (visited : List Path) (starts : List SourceFile) :
    (r.closureAll visited starts).Accounted r := by
  induction starts generalizing visited with
  | nil => exact .refl _
  | cons f starts ih =>
    refine Closure.accounted_append ?_ (ih _)
    unfold closure
    split
    · exact .refl _
    · refine Closure.accounted_append ?_ (r.accounted_follow _ _ _)
      simp [Closure.Accounted, Closure.reports, Opening.errors]

/-- The import blocks of every file that is expanded are settled exactly. The edges and the errors
of the file are those that its blocks contribute, in the order of the blocks. A malformed block
contributes errors about its form and no edge; the source of any other one stands for nothing, which
is one error, or for paths, each of which is an edge or one error at the source, by the first check
that fails when the paths accepted before it are known. The targets of a file are distinct, and
every error of an import block is reported by the expansion as often as it is contributed. -/
theorem edges_exact (r : Resolver) (visited : List Path) (starts : List SourceFile) :
    let run := r.closureAll visited starts
    (r.expandAll visited starts).files = run.opened.map Opening.file ∧
      (r.expandAll visited starts).errors.Perm
        (run.loaded.flatMap (fun e => (r.load e).2) ++ run.opened.flatMap (Opening.errors r)) ∧
      ∀ o ∈ run.opened, ∃ shares : List Share,
        shares.map Share.block = o.file.blocksOf importType ∧
          o.edges r = shares.flatMap Share.edges ∧
          o.errors r = shares.flatMap Share.errors ∧
          (∀ before s after, shares = before ++ s :: after →
            s.Settled r o.path o.chain ((before.flatMap Share.edges).map Edge.path) ∧
              (s.edges ≠ [] ∨ s.errors ≠ [])) ∧
          ((o.edges r).map Edge.path).Nodup := by
  intro run
  refine ⟨?_, ?_, fun o _ => ?_⟩
  · rw [expandAll_eq_closureAll]
    rfl
  · rw [expandAll_eq_closureAll]
    exact r.accounted_closureAll visited starts
  -- the blocks of a file are accepted one after the other, each with the paths of those before it
  · have hshares := r.acceptBlocks_eq_shares o.path o.chain [] (o.file.blocksOf importType)
    refine ⟨r.shares o.path o.chain [] (o.file.blocksOf importType), r.map_block_shares .., ?_, ?_,
      fun before s after hsplit => ?_, r.nodup_edges o.file o.chain⟩
    · exact (congrArg Prod.fst hshares).trans (List.nil_append _)
    · exact congrArg Prod.snd hshares
    · have hsettled := r.settled_of_shares_eq o.path o.chain hsplit
      exact ⟨hsettled, hsettled.not_silent⟩

end Resolver

end ScopeConfig
