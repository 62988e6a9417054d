import ScopeConfig.Import.Edge

/-!
# Verdicts on imported paths

`Resolver.edges` accepts and reports in one pass over the blocks of a file. Here the pass is taken
apart: the paths that the blocks of a file resolve to are its candidates (`Resolver.candidates`), in
the order of the blocks and, within one pattern, in path order, and each candidate gets a verdict
(`Resolver.verdicts`), which is the first reason against it or none.

## Main statements

* `edges_fst`: the accepted edges are the candidates with no reason against them, in order.
* `mem_edges_snd`: the errors are those of the blocks themselves and one for each refused candidate.
* `fault_eq_edgeFault?`: a verdict is `Resolver.edgeFault?` on the paths accepted before it.
-/

namespace ScopeConfig

open Syntax

/-- A path that an import block resolves to, with the source that stands for it and the range of
that source. -/
structure Candidate where
  path : Path
  source : String
  range : SourceRange
deriving DecidableEq, Repr

/-- The edge to a candidate. -/
def Candidate.edge (c : Candidate) : Edge := ⟨c.path, c.range⟩

/-- A candidate with the first reason against it, if there is one. -/
structure Verdict where
  candidate : Candidate
  fault : Option ImportFault
deriving DecidableEq, Repr

namespace Verdict

/-- The edge that a verdict accepts. -/
def edge? (v : Verdict) : Option Edge :=
  match v.fault with
  | none => some v.candidate.edge
  | some _ => none

/-- The error that a verdict reports, at the source of the candidate. -/
def error? (v : Verdict) : Option Diagnostic :=
  v.fault.map fun fault => .importing fault v.candidate.range

@[simp] theorem edge?_none (c : Candidate) : edge? ⟨c, none⟩ = some c.edge := rfl

@[simp] theorem edge?_some (c : Candidate) (fault : ImportFault) :
    edge? ⟨c, some fault⟩ = none := rfl

@[simp] theorem error?_none (c : Candidate) : error? ⟨c, none⟩ = none := rfl

@[simp] theorem error?_some (c : Candidate) (fault : ImportFault) :
    error? ⟨c, some fault⟩ = some (.importing fault c.range) := rfl

/-- The paths that verdicts accept, in order. -/
def accepted (vs : List Verdict) : List Path :=
  (vs.filterMap edge?).map Edge.path

@[simp] theorem accepted_nil : accepted [] = [] := rfl

/-- A candidate without a fault is accepted. -/
@[simp] theorem accepted_cons_none (c : Candidate) (vs : List Verdict) :
    accepted (⟨c, none⟩ :: vs) = c.path :: accepted vs := by
  simp [accepted, Candidate.edge]

/-- A candidate with a fault is not accepted. -/
@[simp] theorem accepted_cons_some (c : Candidate) (fault : ImportFault) (vs : List Verdict) :
    accepted (⟨c, some fault⟩ :: vs) = accepted vs := by
  simp [accepted, List.filterMap_cons]

/-- A verdict gives an edge exactly if there is no fault, and then it is the edge to the
candidate. -/
theorem edge?_eq_some_iff {v : Verdict} {e : Edge} :
    v.edge? = some e ↔ v.fault = none ∧ v.candidate.edge = e := by
  cases hv : v.fault <;> simp [edge?, hv]

/-- A verdict gives an error exactly if there is a fault, and then it is that fault at the
source. -/
theorem error?_eq_some_iff {v : Verdict} {d : Diagnostic} :
    v.error? = some d ↔
      ∃ fault, v.fault = some fault ∧ .importing fault v.candidate.range = d := by
  simp [error?]

/-- The accepted paths are those of the candidates without a fault. -/
theorem mem_accepted {vs : List Verdict} {p : Path} :
    p ∈ accepted vs ↔ ∃ v ∈ vs, v.fault = none ∧ v.candidate.path = p := by
  constructor
  · intro hp
    obtain ⟨e, he, rfl⟩ := List.mem_map.1 hp
    obtain ⟨v, hv, hve⟩ := List.mem_filterMap.1 he
    obtain ⟨hnone, rfl⟩ := edge?_eq_some_iff.1 hve
    exact ⟨v, hv, hnone, rfl⟩
  · rintro ⟨v, hv, hnone, rfl⟩
    refine List.mem_map.2 ⟨v.candidate.edge, List.mem_filterMap.2 ⟨v, hv, ?_⟩, rfl⟩
    exact edge?_eq_some_iff.2 ⟨hnone, rfl⟩

end Verdict

namespace Resolver

open Import

/-! ## The paths of a source -/

/-- A source stands for the sorted files of its pattern, or for the one file that it names. -/
theorem pathsOf_eq_ok {r : Resolver} {importerDir : Path} {source : String} {range : SourceRange}
    {paths : List Path} (h : r.pathsOf importerDir source range = .ok paths) :
    (∃ pattern found, r.provider.glob pattern = .ok found ∧ paths = found.mergeSort Path.le) ∨
      r.provider.isFile (literalPath r.root importerDir source) = true ∧
        paths = [literalPath r.root importerDir source] := by
  unfold pathsOf at h
  split at h
  · left
    dsimp only at h
    -- where the pattern starts from does not matter here
    generalize (if source.toList.head? = some '/' then r.root else importerDir) = base at h
    cases hpattern : Glob.Pattern.compile (patternText base source) with
    | error e => simp [hpattern] at h
    | ok pattern =>
      rw [hpattern] at h
      rcases hglob : r.provider.glob pattern with fault | _ | ⟨p, found⟩
      · simp [hglob] at h
      · simp [hglob] at h
      · simp only [hglob, Except.ok.injEq] at h
        exact ⟨pattern, p :: found, hglob, h.symm⟩
  · right
    dsimp only at h
    split at h
    · rename_i hfile
      exact ⟨hfile, (Except.ok.inj h).symm⟩
    · simp at h

/-- When a source stands for nothing, its pattern or its path is at fault. -/
theorem pathsOf_eq_error {r : Resolver} {importerDir : Path} {source : String}
    {range : SourceRange} {d : Diagnostic} (h : r.pathsOf importerDir source range = .error d) :
    (∃ e, d = .schema (.importPattern source e) range) ∨
      (∃ fault, d = .importing (.notExpanded source fault) range) ∨
      d = .importing (.noMatch source) range ∨ d = .importing (.notFound source) range := by
  unfold pathsOf at h
  split at h
  · dsimp only at h
    generalize (if source.toList.head? = some '/' then r.root else importerDir) = base at h
    cases hpattern : Glob.Pattern.compile (patternText base source) with
    | error e =>
      simp only [hpattern, Except.error.injEq] at h
      exact .inl ⟨e, h.symm⟩
    | ok pattern =>
      rcases hglob : r.provider.glob pattern with fault | _ | ⟨p, found⟩
      · simp only [hpattern, hglob, Except.error.injEq] at h
        exact .inr (.inl ⟨fault, h.symm⟩)
      · simp only [hpattern, hglob, Except.error.injEq] at h
        exact .inr (.inr (.inl h.symm))
      · simp [hpattern, hglob] at h
  · dsimp only at h
    split at h
    · simp at h
    · exact .inr (.inr (.inr (Except.error.inj h).symm))

/-- What is wrong with a block or with the value of its source violates the rules for blocks. -/
theorem schema_of_mem_source {b : Block} {d : Diagnostic} (hd : d ∈ (source b).2) :
    ∃ fault range, d = .schema fault range := by
  have hblock : ∀ d ∈ blockFaults b, ∃ fault range, d = .schema fault range := by
    intro d hd
    simp only [blockFaults, List.mem_append, List.mem_map] at hd
    rcases hd with (⟨range, -, rfl⟩ | ⟨a, -, rfl⟩) | ⟨inner, -, rfl⟩
    · exact ⟨_, _, rfl⟩
    · exact ⟨_, _, rfl⟩
    · exact ⟨_, _, rfl⟩
  unfold source at hd
  split at hd
  · exact hblock d hd
  · rename_i found htext
    rcases List.mem_append.1 hd with hd | hd
    · exact hblock d hd
    · obtain rfl := List.mem_singleton.1 hd
      unfold sourceText at htext
      split at htext
      · exact ⟨_, _, (Except.error.inj htext).symm⟩
      · split at htext
        · simp at htext
        · exact ⟨_, _, (Except.error.inj htext).symm⟩
        · exact ⟨_, _, (Except.error.inj htext).symm⟩

/-! ## The candidates of a file -/

/-- The candidates of one import block: none when the block or its source is at fault. -/
def blockCandidates (r : Resolver) (importer : Path) (b : Block) : List Candidate :=
  match (source b).1 with
  | none => []
  | some (text, range) =>
    match r.pathsOf (importer.parent?.getD .root) text range with
    | .error _ => []
    | .ok paths => paths.map fun path => ⟨path, text, range⟩

/-- What is wrong with one import block before any candidate is looked at. -/
def blockErrors (r : Resolver) (importer : Path) (b : Block) : List Diagnostic :=
  match source b with
  | (none, faults) => faults
  | (some (text, range), faults) =>
    match r.pathsOf (importer.parent?.getD .root) text range with
    | .error d => faults ++ [d]
    | .ok _ => faults

/-- The candidates of all import blocks of a file. -/
def candidates (r : Resolver) (f : SourceFile) : List Candidate :=
  (f.blocksOf importType).flatMap (r.blockCandidates f.path)

/-- A candidate is located at the expression of the `source` attribute of its block. -/
theorem range_of_mem_blockCandidates {r : Resolver} {importer : Path} {b : Block} {c : Candidate}
    (hc : c ∈ r.blockCandidates importer b) :
    ∃ e, b.attributes.expr? "source" = some e ∧ c.range = e.range := by
  unfold blockCandidates at hc
  split at hc
  · simp at hc
  · rename_i text range hsource
    have hrange : c.range = range := by
      split at hc
      · simp at hc
      · obtain ⟨path, -, rfl⟩ := List.mem_map.1 hc
        rfl
    rw [hrange]
    -- the source of a block is that of its text, which is there only when the block has no faults
    unfold Import.source at hsource
    split at hsource
    · rename_i found htext
      split at hsource
      · obtain rfl : found = (text, range) := Option.some.inj hsource
        unfold sourceText at htext
        split at htext
        · simp at htext
        · rename_i e he
          refine ⟨e, he, ?_⟩
          split at htext <;> simp at htext
          exact htext.2.symm
      · simp at hsource
    · simp at hsource

/-! ## The verdicts on candidates -/

/-- The verdicts on candidates, one after the other, when the paths in `accepted` were accepted
before. -/
def judge (r : Resolver) (importer : Path) (chain accepted : List Path) :
    List Candidate → List Verdict
  | [] => []
  | c :: cs =>
    match r.edgeFault? importer chain accepted c.source c.path with
    | some fault => ⟨c, some fault⟩ :: r.judge importer chain accepted cs
    | none => ⟨c, none⟩ :: r.judge importer chain (accepted ++ [c.path]) cs

/-- The verdicts on the candidates of a file whose chain of importers is `chain`. -/
def verdicts (r : Resolver) (f : SourceFile) (chain : List Path) : List Verdict :=
  r.judge f.path chain [] (r.candidates f)

section Judge

variable (r : Resolver) (importer : Path) (chain : List Path)

/-- Judging candidates in two parts: the second part knows what the first one accepted. -/
theorem judge_append (accepted : List Path) (cs ds : List Candidate) :
    r.judge importer chain accepted (cs ++ ds) =
      r.judge importer chain accepted cs ++
        r.judge importer chain (accepted ++ Verdict.accepted (r.judge importer chain accepted cs))
          ds := by
  induction cs generalizing accepted with
  | nil => simp [judge]
  | cons c cs ih =>
    simp only [List.cons_append, judge]
    -- a candidate that is refused does not count for those after it
    split
    · rw [ih]
      rfl
    · rw [ih]
      simp

theorem map_candidate_judge (accepted : List Path) (cs : List Candidate) :
    (r.judge importer chain accepted cs).map Verdict.candidate = cs := by
  induction cs generalizing accepted with
  | nil => rfl
  | cons c cs ih =>
    simp only [judge]
    split <;> simp [ih]

/-- Each verdict is the first reason against its candidate, given the paths accepted before it. -/
theorem fault_eq_edgeFault?_of_judge {accepted : List Path} {cs : List Candidate}
    {before after : List Verdict} {v : Verdict}
    (h : r.judge importer chain accepted cs = before ++ v :: after) :
    v.fault = r.edgeFault? importer chain (accepted ++ Verdict.accepted before)
      v.candidate.source v.candidate.path := by
  induction cs generalizing accepted before with
  | nil => simp [judge] at h
  | cons c cs ih =>
    simp only [judge] at h
    split at h
    -- a path that is refused does not count for the candidates after it
    · rename_i fault hfault
      cases before with
      | nil =>
        obtain ⟨rfl, -⟩ := List.cons.inj h
        simp [hfault]
      | cons w before =>
        obtain ⟨rfl, htail⟩ := List.cons.inj h
        simpa using ih htail
    -- and one that is accepted does
    · rename_i hnone
      cases before with
      | nil =>
        obtain ⟨rfl, -⟩ := List.cons.inj h
        simp [hnone]
      | cons w before =>
        obtain ⟨rfl, htail⟩ := List.cons.inj h
        simpa using ih htail

/-! ## Accepting edges, by verdicts -/

/-- Accepting the paths of a source is judging the candidates for it. -/
theorem acceptPaths_eq (source : String) (range : SourceRange) (accepted : List Edge)
    (paths : List Path) :
    r.acceptPaths importer chain source range accepted paths =
      let vs := r.judge importer chain (accepted.map Edge.path)
        (paths.map fun path => ⟨path, source, range⟩)
      (accepted ++ vs.filterMap Verdict.edge?, vs.filterMap Verdict.error?) := by
  induction paths generalizing accepted with
  | nil => simp [acceptPaths, judge]
  | cons path paths ih =>
    simp only [acceptPaths, List.map_cons, judge]
    cases hfault : r.edgeFault? importer chain (accepted.map Edge.path) source path with
    | some fault => simp [ih, List.filterMap_cons]
    | none => simp [ih, List.filterMap_cons, Candidate.edge]

/-- Accepting an import block is judging its candidates. -/
theorem acceptBlock_eq (accepted : List Edge) (b : Block) :
    r.acceptBlock importer chain accepted b =
      let vs := r.judge importer chain (accepted.map Edge.path) (r.blockCandidates importer b)
      (accepted ++ vs.filterMap Verdict.edge?,
        r.blockErrors importer b ++ vs.filterMap Verdict.error?) := by
  unfold acceptBlock blockCandidates blockErrors
  rcases source b with ⟨_ | ⟨text, range⟩, faults⟩
  · simp [judge]
  · simp only
    cases hpaths : r.pathsOf (importer.parent?.getD .root) text range with
    | error d => simp [judge]
    | ok paths => simp [acceptPaths_eq]

/-- Accepting blocks adds the edges of the verdicts on their candidates, in order. -/
theorem acceptBlocks_fst (accepted : List Edge) (blocks : List Block) :
    (r.acceptBlocks importer chain accepted blocks).1 =
      accepted ++ (r.judge importer chain (accepted.map Edge.path)
        (blocks.flatMap (r.blockCandidates importer))).filterMap Verdict.edge? := by
  induction blocks generalizing accepted with
  | nil => simp [acceptBlocks, judge]
  | cons b blocks ih =>
    simp [acceptBlocks, acceptBlock_eq, ih, judge_append, Verdict.accepted]

/-- What accepting blocks reports: the errors of the blocks themselves, and those of the
verdicts. -/
theorem mem_acceptBlocks_snd {accepted : List Edge} {blocks : List Block} {d : Diagnostic} :
    d ∈ (r.acceptBlocks importer chain accepted blocks).2 ↔
      (∃ b ∈ blocks, d ∈ r.blockErrors importer b) ∨
        ∃ v ∈ r.judge importer chain (accepted.map Edge.path)
          (blocks.flatMap (r.blockCandidates importer)), v.error? = some d := by
  induction blocks generalizing accepted with
  | nil => simp [acceptBlocks, judge]
  | cons b blocks ih =>
    simp only [acceptBlocks, acceptBlock_eq, List.mem_append, ih, List.mem_filterMap,
      List.flatMap_cons, judge_append, List.mem_cons, List.map_append, Verdict.accepted]
    grind

end Judge

/-! ## The edges of a file -/

/-- The edges of a file are those of the verdicts on its candidates. -/
theorem edges_fst (r : Resolver) (f : SourceFile) (chain : List Path) :
    (r.edges f chain).1 = (r.verdicts f chain).filterMap Verdict.edge? := by
  simp [edges, acceptBlocks_fst, verdicts, candidates]

/-- The errors of a file: those of its import blocks, and those of the verdicts. -/
theorem mem_edges_snd {r : Resolver} {f : SourceFile} {chain : List Path} {d : Diagnostic} :
    d ∈ (r.edges f chain).2 ↔
      (∃ b ∈ f.blocksOf importType, d ∈ r.blockErrors f.path b) ∨
        ∃ v ∈ r.verdicts f chain, v.error? = some d := by
  simp [edges, mem_acceptBlocks_snd, verdicts, candidates]

/-- There is one verdict for each candidate, in order. -/
theorem map_candidate_verdicts (r : Resolver) (f : SourceFile) (chain : List Path) :
    (r.verdicts f chain).map Verdict.candidate = r.candidates f :=
  map_candidate_judge r f.path chain [] (r.candidates f)

/-- The verdict on a candidate is the first reason against it, given the paths that the importer
accepted before. -/
theorem fault_eq_edgeFault? {r : Resolver} {f : SourceFile} {chain : List Path}
    {before after : List Verdict} {v : Verdict}
    (h : r.verdicts f chain = before ++ v :: after) :
    v.fault = r.edgeFault? f.path chain (Verdict.accepted before) v.candidate.source
      v.candidate.path := by
  simpa using fault_eq_edgeFault?_of_judge r f.path chain h

/-- As `fault_eq_edgeFault?`, for a verdict wherever it stands. -/
theorem exists_accepted_of_mem_verdicts {r : Resolver} {f : SourceFile} {chain : List Path}
    {v : Verdict} (hv : v ∈ r.verdicts f chain) :
    ∃ accepted : List Path,
      (∀ p ∈ accepted, ∃ w ∈ r.verdicts f chain, w.fault = none ∧ w.candidate.path = p) ∧
        v.fault = r.edgeFault? f.path chain accepted v.candidate.source v.candidate.path := by
  obtain ⟨before, after, hsplit⟩ := List.append_of_mem hv
  refine ⟨Verdict.accepted before, fun p hp => ?_, fault_eq_edgeFault? hsplit⟩
  obtain ⟨w, hw, hnone, hpath⟩ := Verdict.mem_accepted.1 hp
  exact ⟨w, hsplit ▸ List.mem_append_left _ hw, hnone, hpath⟩

/-- A verdict is about a candidate of some import block. -/
theorem exists_block_of_mem_verdicts {r : Resolver} {f : SourceFile} {chain : List Path}
    {v : Verdict} (hv : v ∈ r.verdicts f chain) :
    ∃ b ∈ f.blocksOf importType, v.candidate ∈ r.blockCandidates f.path b := by
  have hcand : v.candidate ∈ r.candidates f :=
    r.map_candidate_verdicts f chain ▸ List.mem_map_of_mem hv
  exact List.mem_flatMap.1 hcand

/-- A candidate of an import block gets a verdict. -/
theorem exists_verdict_of_mem_blockCandidates {r : Resolver} {f : SourceFile} (chain : List Path)
    {b : Block} {c : Candidate} (hb : b ∈ f.blocksOf importType)
    (hc : c ∈ r.blockCandidates f.path b) : ∃ v ∈ r.verdicts f chain, v.candidate = c := by
  have hcand : c ∈ (r.verdicts f chain).map Verdict.candidate := by
    rw [map_candidate_verdicts]
    exact List.mem_flatMap.2 ⟨b, hb, hc⟩
  exact List.mem_map.1 hcand

/-- A reason against a candidate is an error at the source of the candidate. -/
theorem importing_mem_edges_snd {r : Resolver} {f : SourceFile} {chain : List Path} {v : Verdict}
    {fault : ImportFault} (hv : v ∈ r.verdicts f chain) (hfault : v.fault = some fault) :
    .importing fault v.candidate.range ∈ (r.edges f chain).2 :=
  mem_edges_snd.2 (.inr ⟨v, hv, Verdict.error?_eq_some_iff.2 ⟨fault, hfault, rfl⟩⟩)

/-- An edge of a file is one to a candidate without a fault. -/
theorem mem_edges_fst {r : Resolver} {f : SourceFile} {chain : List Path} {e : Edge} :
    e ∈ (r.edges f chain).1 ↔
      ∃ v ∈ r.verdicts f chain, v.fault = none ∧ v.candidate.edge = e := by
  simp only [edges_fst, List.mem_filterMap, Verdict.edge?_eq_some_iff]

/-! ## Reasons against a candidate -/

/-- A path is accepted exactly if it is under the root, not the importer or in its directory, not on
the way to it, not a file of the scope, and not accepted before. -/
theorem edgeFault?_eq_none_iff {r : Resolver} {importer : Path} {chain accepted : List Path}
    {source : String} {path : Path} :
    r.edgeFault? importer chain accepted source path = none ↔
      path.startsWith r.root = true ∧ path ≠ importer ∧ path.parent? ≠ importer.parent? ∧
        path ∉ chain ∧ path ∉ r.own ∧ path ∉ accepted := by
  unfold edgeFault?
  grind

/-- A cycle is reported for a file of the chain other than the importer, with the whole chain. -/
theorem eq_of_edgeFault?_eq_cycle {r : Resolver} {importer : Path} {chain accepted : List Path}
    {source : String} {path : Path} {trail : List Path}
    (h : r.edgeFault? importer chain accepted source path = some (.cycle trail)) :
    path ∈ chain ∧ path ≠ importer ∧ trail = chain ++ [path] := by
  unfold edgeFault? at h
  grind

/-- An accepted edge passes every check, whatever the importer accepted before it. -/
theorem checks_of_mem_edges {r : Resolver} {f : SourceFile} {chain : List Path} {e : Edge}
    (h : e ∈ (r.edges f chain).1) :
    e.path.startsWith r.root = true ∧ e.path ≠ f.path ∧ e.path.parent? ≠ f.path.parent? ∧
      e.path ∉ chain ∧ e.path ∉ r.own := by
  obtain ⟨v, hv, hnone, rfl⟩ := mem_edges_fst.1 h
  obtain ⟨accepted, -, hfault⟩ := exists_accepted_of_mem_verdicts hv
  obtain ⟨hroot, hne, hdir, hchain, hown, -⟩ :=
    edgeFault?_eq_none_iff.1 (hfault.symm.trans hnone)
  exact ⟨hroot, hne, hdir, hchain, hown⟩

end Resolver

end ScopeConfig
