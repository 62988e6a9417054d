import ScopeConfig.Proofs.Config.Repeats
import ScopeConfig.Proofs.Import.Cycle
import ScopeConfig.Proofs.Scope.MoreExperiments
import ScopeConfig.Proofs.Scope.Unique
import ScopeConfig.Proofs.Syntax.Places

/-!
# Second declarations cite the first

What a scope may declare once is declared first by the block that comes first in the files of the
scope. A block of a script or a stack that comes later is reported when it is merged, and an input,
an output, a sharing backend or a generated file when all blocks are recorded. In each case there is
one report for each later declaration, at its place, and it cites the first.

For generated files this is so only as long as the first declaration of a label is not a
`generate_file` block with a `generate_hcl` block after it: labels are compared over all blocks of
the one type and then over those of the other, so that the block that came first is reported as the
repetition of one that came after it.

## Main statements

* `nodup_ranges_scopeBlocks`: the blocks of a scope have places of their own.
* `Session.cites_first_iff`: what a session reports about identities, names and labels.
-/

namespace ScopeConfig

open Syntax Blocks Diagnostic

/-! ## Places of blocks -/

/-- The blocks of files have places of their own, if the paths of the files are spelled
differently. -/
theorem nodup_ranges_scopeBlocks {files : List SourceFile}
    (hparsed : ∀ f ∈ files, ∃ text, SourceFile.parse f.path text = .ok f)
    (hspelled : (files.map (·.path.text)).Nodup) :
    ((MergeTable.scopeBlocks files).map Block.range).Nodup := by
  have hbetween : ∀ f ∈ files, ∃ hi, f.body.Between f.path.text 0 hi := fun f hf => by
    obtain ⟨text, htext⟩ := hparsed f hf
    exact SourceFile.between_of_parse htext
  rw [MergeTable.scopeBlocks, List.map_flatMap, List.nodup_flatMap]
  constructor
  · intro f hf
    obtain ⟨hi, hbody⟩ := hbetween f hf
    exact hbody.nodup_ranges.sublist (List.filter_sublist.map Block.range)
  · -- the places in two files differ in the file
    refine (List.pairwise_map.1 hspelled).imp_of_mem fun {f g} hf hg hne r hr hr' => hne ?_
    obtain ⟨b, hb, rfl⟩ := List.mem_map.1 hr
    obtain ⟨c, hc, heq⟩ := List.mem_map.1 hr'
    obtain ⟨hi, hbody⟩ := hbetween f hf
    obtain ⟨hi', hbody'⟩ := hbetween g hg
    rw [← (hbody.blocks b (List.mem_filter.1 hb).1).file_eq, ← heq,
      (hbody'.blocks c (List.mem_filter.1 hc).1).file_eq]

/-- A part of a list whose elements are told apart by a key, found again by the keys. -/
theorem filter_key_of_sublist {α κ : Type} [DecidableEq κ] {key : α → κ} {l l' : List α}
    (h : l'.Sublist l) (hnodup : (l.map key).Nodup) :
    l.filter (fun a => key a ∈ l'.map key) = l' := by
  induction h with
  | slnil => rfl
  | @cons l' l a hsub ih =>
    obtain ⟨hnew, hnodup⟩ := List.nodup_cons.1 hnodup
    have hout : key a ∉ l'.map key := fun hmem => hnew ((hsub.map key).subset hmem)
    rw [List.filter_cons_of_neg (by simpa using hout), ih hnodup]
  | @cons_cons l' l a hsub ih =>
    obtain ⟨hnew, hnodup⟩ := List.nodup_cons.1 hnodup
    rw [List.filter_cons_of_pos (by simp)]
    congr 1
    refine (List.filter_congr fun b hb => ?_).trans (ih hnodup)
    have hne : key b ≠ key a := fun heq => hnew (heq ▸ List.mem_map_of_mem hb)
    simp [hne]

/-! ## Declarations -/

namespace Registry

/-- The blocks of files that their kinds accept, when the files are assembled. -/
def acceptedBlocks (r : Registry) (options : Options) (dir : Path) (files : List SourceFile) :
    List Block :=
  let table := ((MergeTable.new r.policies).mergeFiles files).1
  (Config.start dir table.attributes).acceptedBlocks options (r.calls table)

/-- The declarations of a name: the blocks of these types that have it as their only label and are
accepted, in the order of the files and in each file in order. A block is known by its place. -/
def declarations (r : Registry) (options : Options) (dir : Path) (files : List SourceFile)
    (types : List String) (name : String) : List Block :=
  (MergeTable.scopeBlocks files).filter fun b =>
    b.blockType ∈ types ∧ label? b = some name ∧
      b.range ∈ (r.acceptedBlocks options dir files).map Block.range

section Assemble

variable {r : Registry} {options : Options} {dir : Path} {files : List SourceFile}

/-- The declarations by blocks of some of the types. -/
theorem filter_declarations (keep : String → Bool) {types : List String} {name : String} :
    (r.declarations options dir files types name).filter (keep ·.blockType) =
      r.declarations options dir files (types.filter keep) name := by
  rw [declarations, declarations, List.filter_filter]
  refine List.filter_congr fun b _ => ?_
  simp only [List.mem_filter, Bool.decide_and, Bool.decide_eq_true]
  ac_rfl

/-- Accepted blocks are blocks of the scope. -/
theorem mem_scopeBlocks_of_mem_acceptedBlocks {b : Block}
    (hb : b ∈ r.acceptedBlocks options dir files) : b ∈ MergeTable.scopeBlocks files := by
  obtain ⟨call, hcall, hmem⟩ := List.mem_flatMap.1 ((acceptedBlocks_sublist _ _ _).subset hb)
  rw [r.calls_mergeFiles] at hcall
  have hsource : b ∈ call.form.sources := by
    cases hform : call.form with
    | raw given => rwa [hform] at hmem
    | merged m =>
      rw [hform] at hmem
      cases hmem
  exact (r.sources_due_subperm files).subset (List.mem_flatMap.2 ⟨call, hcall, hsource⟩)

/-- The accepted blocks of a kind that keeps every block are in the order of the files. -/
theorem filter_acceptedBlocks {k : BlockKind} (hk : k ∈ r.kinds) (hpolicy : k.policy = .append)
    (hnodup : ((MergeTable.scopeBlocks files).map Block.range).Nodup) :
    (r.acceptedBlocks options dir files).filter (·.blockType = k.name) =
      (MergeTable.scopeBlocks files).filter fun b => b.blockType = k.name ∧
        b.range ∈ (r.acceptedBlocks options dir files).map Block.range := by
  set accepted := r.acceptedBlocks options dir files with haccepted
  set own := (MergeTable.scopeBlocks files).filter (·.blockType = k.name) with hown
  -- the accepted blocks are among those that were given to the kind, in the same order, and a kind
  -- that keeps every block is given all of its type
  have hsub : (accepted.filter (·.blockType = k.name)).Sublist own := by
    have hgiven : own = ((r.calls ((MergeTable.new r.policies).mergeFiles files).1).flatMap
        (·.form.blocks)).filter (·.blockType = k.name) := by
      have hkept : MergeTable.kept (some k.policy) own = own := by rw [hpolicy, MergeTable.kept]
      rw [r.filter_blocks_calls _ hk, k.calls_mergeFiles hk, ← hown, BlockKind.due,
        if_neg (by simp [hpolicy]), hkept, List.flatMap_map]
      simp [Form.blocks]
    rw [hgiven]
    exact (acceptedBlocks_sublist _ _ _).filter _
  -- so they are found again by their places, which are distinct
  have hfound := filter_key_of_sublist hsub (hnodup.sublist (List.filter_sublist.map Block.range))
  rw [← hfound, hown, List.filter_filter]
  refine List.filter_congr fun b hb => ?_
  -- a block at the place of an accepted one is that block
  have hplace : b.blockType = k.name → (b.range ∈ accepted.map Block.range ↔
      b.range ∈ (accepted.filter (·.blockType = k.name)).map Block.range) := by
    intro htype
    constructor
    · intro hmem
      obtain ⟨a, ha, heq⟩ := List.mem_map.1 hmem
      obtain rfl := List.inj_on_of_nodup_map hnodup
        (mem_scopeBlocks_of_mem_acceptedBlocks ha) hb heq
      exact List.mem_map_of_mem (List.mem_filter.2 ⟨ha, by simpa using htype⟩)
    · exact fun hmem => (List.filter_sublist.map Block.range).subset hmem
  by_cases htype : b.blockType = k.name
  · simp only [htype, decide_true, Bool.and_true, true_and, decide_eq_decide]
    exact (hplace htype).symm
  · simp [htype]

end Assemble

/-! ## What assembling reports -/

section Builtin

variable {options : Options} {dir : Path} {files : List SourceFile}

/-- Recording blocks reports nothing about second declarations but those of attributes. -/
theorem filter_repeats_assemble {again : SourceRange → Redeclaration}
    (hagain : ∀ first, (again first).ofAttribute = false) :
    (builtin.assemble options dir files).errors.filter (repeats again) =
      ((MergeTable.new builtin.policies).mergeFiles files).2.filter (repeats again) ++
        (builtin.check options (builtin.assemble options dir files).config).filter
          (repeats again) := by
  set table := ((MergeTable.new builtin.policies).mergeFiles files).1
  have hrecorded : ((Config.start dir table.attributes).recordAll options
      (builtin.calls table)).2.filter (repeats again) = [] := by
    refine filter_repeats_eq_nil fun d hd => ?_
    rcases schema_or_conflict_of_mem_recordAll (fun call hcall =>
      ⟨(builtin.of_mem_calls _ hcall).1, ofType_of_mem_calls hcall⟩) d hd with hkind | hconflict
    · exact repeats_of_kind (by simp [hkind])
    · exact repeats_of_conflict hconflict hagain
  have herrors : (builtin.assemble options dir files).errors =
      ((MergeTable.new builtin.policies).mergeFiles files).2 ++
        ((Config.start dir table.attributes).recordAll options (builtin.calls table)).2 ++
          builtin.check options (builtin.assemble options dir files).config := rfl
  rw [herrors, List.filter_append, List.filter_append, hrecorded, List.append_nil]

/-- The places at which a name is declared, as the checks at the end find them. -/
theorem filter_declared_assemble (n : NamedKind)
    (hnodup : ((MergeTable.scopeBlocks files).map Block.range).Nodup) (name : String) :
    ((n.declared (builtin.assemble options dir files).config).filter (·.1 = name)).map Prod.snd =
      (builtin.declarations options dir files [n.kind.name] name).map Block.range := by
  set table := ((MergeTable.new builtin.policies).mergeFiles files).1
  have hempty : n.declared (Config.start dir table.attributes) = [] := by cases n <;> rfl
  have hdeclared : n.declared (builtin.assemble options dir files).config =
      ((builtin.acceptedBlocks options dir files).filter (·.blockType = n.kind.name)).filterMap
        labelled? := by
    have hrecorded : n.declared ((Config.start dir table.attributes).recordAll options
        (builtin.calls table)).1 = _ :=
      n.declared_recordAll fun call hcall =>
        ⟨(builtin.of_mem_calls table hcall).1, (builtin.of_mem_calls table hcall).2,
          ofType_of_mem_calls hcall⟩
    rwa [hempty, List.nil_append] at hrecorded
  rw [hdeclared, filter_labelled?, filter_acceptedBlocks n.kind_mem n.policy_eq hnodup,
    List.filter_filter, declarations]
  congr 1
  refine List.filter_congr fun b _ => ?_
  simp only [List.mem_singleton, Bool.decide_and]
  ac_rfl

/-- Of the blocks of a script or a stack, all but the first are reported. -/
theorem filter_repeats_assemble_block {i : BlockIdentity} (hi : i.blockType ∈ ["script", "stack"]) :
    (builtin.assemble options dir files).errors.filter (repeats (.block i)) =
      citing (.block i)
        (((MergeTable.scopeBlocks files).filter (·.identity = i)).map Block.header) := by
  have hunique : MergeTable.policyFor builtin.policies i.blockType = some .uniqueByLabel := by
    simp only [List.mem_cons, List.not_mem_nil, or_false] at hi
    rcases hi with hi | hi <;> rw [hi] <;> decide
  rw [filter_repeats_assemble fun _ => rfl, filter_repeats_check_of_ne (by simp),
    MergeTable.filter_repeats_mergeFiles hunique, List.append_nil]

/-- Of the declarations of an input, an output or a sharing backend, all but the first are
reported. -/
theorem filter_repeats_assemble_named {n : NamedKind} (hn : n ∈ [.backends, .inputs, .outputs])
    (hnodup : ((MergeTable.scopeBlocks files).map Block.range).Nodup) (name : String) :
    (builtin.assemble options dir files).errors.filter (repeats (.named n.kind.name name)) =
      citing (.named n.kind.name name)
        ((builtin.declarations options dir files [n.kind.name] name).map Block.range) := by
  rw [filter_repeats_assemble fun _ => rfl, MergeTable.filter_repeats_named_mergeFiles,
    filter_repeats_check_named hn, filter_declared_assemble n hnodup, List.nil_append]

/-- Of the declarations of a label, those by `generate_hcl` before those by `generate_file`, all but
the first are reported. -/
theorem filter_repeats_assemble_label
    (hnodup : ((MergeTable.scopeBlocks files).map Block.range).Nodup) (label : String) :
    (builtin.assemble options dir files).errors.filter (repeats (.named "generate label" label)) =
      citing (.named "generate label" label)
        ((builtin.declarations options dir files ["generate_hcl"] label ++
          builtin.declarations options dir files ["generate_file"] label).map Block.range) := by
  rw [filter_repeats_assemble fun _ => rfl, MergeTable.filter_repeats_named_mergeFiles,
    filter_repeats_check_label, List.filter_append, List.map_append,
    filter_declared_assemble .hcls hnodup, filter_declared_assemble .files hnodup, List.nil_append,
    List.map_append]
  rfl

end Builtin

end Registry

/-! ## The order in which labels are compared -/

/-- Reports in another order of the declarations cite the first one and are about the others exactly
if the first one is still the first: otherwise it is reported itself. -/
theorem perm_citing_iff (again : SourceRange → Redeclaration) {ds : List Block}
    (front : Block → Bool) (hnodup : (ds.map Block.range).Nodup) :
    (citing again ((ds.filter front ++ ds.filter (!front ·)).map Block.range)).Perm
        (citing again (ds.map Block.range)) ↔
      ((∃ b ∈ ds, front b = true) → ∃ b, ds.head? = some b ∧ front b = true) := by
  cases ds with
  | nil => simp [citing]
  | cons d ds =>
    obtain ⟨hnew, -⟩ := List.nodup_cons.1 hnodup
    by_cases hd : front d = true
    · simp only [List.filter_cons, hd, if_true, Bool.not_true, Bool.false_eq_true, if_false,
        List.cons_append, List.map_cons, citing, List.head?_cons, Option.some.injEq,
        exists_eq_left', implies_true, iff_true]
      exact ((List.filter_append_perm front ds).map Block.range).map _
    · constructor
      · intro hperm hfront
        exfalso
        -- the first of the blocks in front is cited, and `d` is among those that cite it
        obtain ⟨h, hs, hhs⟩ : ∃ h hs, (d :: ds).filter front = h :: hs := by
          obtain ⟨b, hb, hbfront⟩ := hfront
          exact List.exists_cons_of_ne_nil
            (List.ne_nil_of_mem (List.mem_filter.2 ⟨hb, hbfront⟩))
        have hback : d ∈ (d :: ds).filter (!front ·) := by simp [hd]
        have hreported : redeclared (again h.range) d.range ∈
            citing again (((d :: ds).filter front ++ (d :: ds).filter (!front ·)).map
              Block.range) := by
          rw [hhs, List.cons_append, List.map_cons, citing]
          exact List.mem_map_of_mem (List.mem_map_of_mem (List.mem_append_right hs hback))
        obtain ⟨place, hplace, heq⟩ := List.mem_map.1 (hperm.subset hreported)
        have hsame : place = d.range := by simpa [redeclared] using congrArg Diagnostic.range heq
        exact hnew (hsame ▸ hplace)
      · intro hfirst
        have hnone : (d :: ds).filter front = [] := by
          refine List.filter_eq_nil_iff.2 fun b hb hbfront => hd ?_
          obtain ⟨c, hc, hcfront⟩ := hfirst ⟨b, hb, hbfront⟩
          rwa [Option.some.inj hc]
        have hall : (d :: ds).filter (!front ·) = d :: ds :=
          List.filter_eq_self.2 fun b hb => by
            simpa using List.filter_eq_nil_iff.1 hnone b hb
        rw [hnone, hall, List.nil_append]

/-! ## Errors of reading and importing files -/

namespace Resolver

/-- Loading a file reports no redeclaration. -/
theorem kind_ne_redeclared_of_mem_load {r : Resolver} {e : Edge} {d : Diagnostic}
    (hd : d ∈ (r.load e).2) : d.kind ≠ .redeclared := by
  rcases sort_of_mem_load hd with ⟨fault, rfl⟩ | ⟨fault, range, rfl⟩ | ⟨b, rfl⟩
  · simp [kind, importing, Cause.kind]
  · simp [kind, malformed, Cause.kind]
  · simp [kind, Cause.kind]

/-- The edges of a file come with no redeclaration. -/
theorem kind_ne_redeclared_of_mem_edges {r : Resolver} {f : SourceFile} {chain : List Path}
    {d : Diagnostic} (hd : d ∈ (r.edges f chain).2) : d.kind ≠ .redeclared := by
  rcases mem_edges_snd.1 hd with ⟨b, -, hblock⟩ | ⟨v, -, herror⟩
  · rcases schema_or_importing_of_mem_blockErrors hblock with
      ⟨fault, range, rfl⟩ | ⟨fault, range, rfl, -⟩
    · simp [kind, schema, Cause.kind]
    · simp [kind, importing, Cause.kind]
  · obtain ⟨fault, -, rfl⟩ := Verdict.error?_eq_some_iff.1 herror
    simp [kind, importing, Cause.kind]

end Resolver

namespace Session

/-- Reading the files of a scope's own reports no redeclaration. -/
theorem kind_ne_redeclared_of_mem_readAll {s : Session} {paths : List Path} {d : Diagnostic}
    (hd : d ∈ (s.readAll paths).2) : d.kind ≠ .redeclared := by
  induction paths with
  | nil => cases hd
  | cons path paths ih =>
    simp only [readAll] at hd
    split at hd
    · exact ih hd
    · rename_i faults hread
      rcases List.mem_append.1 hd with hd | hd
      · unfold readOwn at hread
        split at hread
        · obtain rfl := Except.error.inj hread
          obtain rfl := List.mem_singleton.1 hd
          simp [kind, Cause.kind]
        · obtain ⟨fault, range, rfl⟩ := SourceFile.malformed_of_parse hread d hd
          simp [kind, malformed, Cause.kind]
      · exact ih hd

/-- No error on the way to the files of a scope is about a second declaration. -/
theorem kind_ne_redeclared_of_mem_effectiveFiles {s : Session} {d : Diagnostic}
    (hd : d ∈ s.effectiveFiles.2) : d.kind ≠ .redeclared := by
  rw [effectiveFiles_eq_imports] at hd
  rcases List.mem_append.1 hd with hd | hd
  · unfold ownFiles at hd
    split at hd
    · obtain rfl := List.mem_singleton.1 hd
      simp [kind, Cause.kind]
    · exact kind_ne_redeclared_of_mem_readAll hd
  · rcases (s.importResolver.sound_closureAll [] s.ownFiles.1).explained d hd with
      ⟨e, -, hload⟩ | ⟨o, -, hin⟩
    · exact Resolver.kind_ne_redeclared_of_mem_load hload
    · exact Resolver.kind_ne_redeclared_of_mem_edges hin

/-! ## Sessions -/

/-- The files of a scope are read and parsed. -/
theorem parsed_of_mem_effectiveFiles {s : Session} {f : SourceFile} (hf : f ∈ s.effectiveFiles.1) :
    ∃ text, s.provider.read f.path = .ok text ∧ SourceFile.parse f.path text = .ok f := by
  obtain ⟨p, hread⟩ : ∃ p, s.readOwn p = .ok f := by
    rcases own_or_loaded_of_mem_effectiveFiles hf with hown | ⟨e, -, -, hload⟩
    · unfold ownFiles at hown
      split at hown
      · cases hown
      · obtain ⟨p, -, hread⟩ := exists_of_mem_readAll hown
        exact ⟨_, hread⟩
    · exact ⟨_, readOwn_of_load hload⟩
  obtain ⟨text, htext, hparse⟩ := parse_of_readOwn hread
  obtain rfl := SourceFile.path_of_parse hparse
  exact ⟨text, htext, hparse⟩

/-- The files that a session is about: outside of the project, none. -/
def scopeFiles (s : Session) : List SourceFile :=
  if s.inside then s.effectiveFiles.1 else []

/-- The blocks of one identity, in the order of the files and in each file in order. -/
def blocksOf (s : Session) (i : BlockIdentity) : List Block :=
  (MergeTable.scopeBlocks s.scopeFiles).filter (·.identity = i)

/-- The declarations of a name by blocks of these types, that is, the blocks that their kinds accept
and that have the name, in the order of the files and in each file in order. -/
def declarations (s : Session) (types : List String) (name : String) : List Block :=
  s.registry.declarations s.options s.dir s.scopeFiles types name

section Builtin

variable {provider : Provider} {options : Options} {root dir : Path}

/-- Second declarations are reported when the files are assembled. -/
theorem filter_repeats_run (again : SourceRange → Redeclaration) :
    let s := new .builtin provider options root dir
    (ofResult s.run).filter (repeats again) =
      (Registry.builtin.assemble options s.dir s.scopeFiles).errors.filter (repeats again) := by
  intro s
  by_cases hinside : s.inside = true
  · have hfiles : s.effectiveFiles.2.filter (repeats again) = [] :=
      filter_repeats_eq_nil fun d hd =>
        repeats_of_kind (kind_ne_redeclared_of_mem_effectiveFiles hd)
    have herrors : s.assembly.errors = s.effectiveFiles.2 ++
        (Registry.builtin.assemble options s.dir s.effectiveFiles.1).errors := rfl
    rw [ofResult_run hinside, herrors, List.filter_append, hfiles, List.nil_append, scopeFiles,
      if_pos hinside]
  · -- outside of the project nothing is read, and so nothing is declared
    have hnone : (Registry.builtin.assemble options s.dir []).errors = [] := rfl
    rw [scopeFiles, if_neg hinside, hnone, run, if_neg hinside]
    rfl

/-- The blocks of a scope have places of their own. -/
theorem nodup_ranges_scopeFiles (hspelled : ∀ p ∈ provider.readable, p.IsSpelled) :
    ((MergeTable.scopeBlocks (new .builtin provider options root dir).scopeFiles).map
      Block.range).Nodup := by
  set s := new .builtin provider options root dir with hs
  rw [scopeFiles]
  split
  · refine nodup_ranges_scopeBlocks (fun f hf => ?_) ?_
    · obtain ⟨text, -, hparse⟩ := parsed_of_mem_effectiveFiles hf
      exact ⟨text, hparse⟩
    · have hpaths : ∀ f ∈ s.effectiveFiles.1, f.path.IsSpelled := fun f hf => by
        obtain ⟨text, hread, -⟩ := parsed_of_mem_effectiveFiles hf
        exact hspelled f.path (provider.mem_readable hread)
      show (s.effectiveFiles.1.map (Path.text ∘ SourceFile.path)).Nodup
      rw [← List.map_map]
      refine s.nodup_paths_effectiveFiles.map_on fun p hp q hq heq => ?_
      obtain ⟨f, hf, rfl⟩ := List.mem_map.1 hp
      obtain ⟨g, hg, rfl⟩ := List.mem_map.1 hq
      exact (hpaths f hf).eq_of_text (hpaths g hg) heq
  · exact List.nodup_nil

end Builtin

/-- Second declarations are reported with the first. Take any session with the kinds that need no
registration, over files whose paths are spelled as text spells them. Of the blocks of a script or a
stack, and of the declarations of an input, an output or a sharing backend, all but the first are
reported once each: at their own place, with the place of the first. Of the declarations of a label
by generated files this holds exactly if the first of them is a `generate_hcl` block, or none is. -/
theorem cites_first_iff (provider : Provider) (options : Options) (root dir : Path)
    (hspelled : ∀ p ∈ provider.readable, p.IsSpelled) :
    let s := new .builtin provider options root dir
    let errors := ofResult s.run
    (∀ i : BlockIdentity, i.blockType ∈ ["script", "stack"] →
        CitesFirst (.block i) ((s.blocksOf i).map Block.header) errors) ∧
      (∀ noun ∈ ["input", "output", "sharing_backend"], ∀ name,
        CitesFirst (.named noun name) ((s.declarations [noun] name).map Block.range) errors) ∧
      ∀ label,
        let ds := s.declarations ["generate_hcl", "generate_file"] label
        CitesFirst (.named "generate label" label) (ds.map Block.range) errors ↔
          ((∃ b ∈ ds, b.blockType = "generate_hcl") →
            ∃ b, ds.head? = some b ∧ b.blockType = "generate_hcl") := by
  intro s errors
  have hnodup : ((MergeTable.scopeBlocks s.scopeFiles).map Block.range).Nodup :=
    nodup_ranges_scopeFiles hspelled
  -- the places of blocks are distinct, so a declaration is known by its place
  refine ⟨fun i hi => ?_, fun noun hnoun name => ?_, fun label => ?_⟩
  · rw [CitesFirst, filter_repeats_run, Registry.filter_repeats_assemble_block hi]
    exact .refl _
  · obtain ⟨n, hn, rfl⟩ : ∃ n ∈ [NamedKind.backends, .inputs, .outputs], n.kind.name = noun := by
      simp only [List.mem_cons, List.not_mem_nil, or_false] at hnoun
      rcases hnoun with rfl | rfl | rfl
      · exact ⟨.inputs, by simp, rfl⟩
      · exact ⟨.outputs, by simp, rfl⟩
      · exact ⟨.backends, by simp, rfl⟩
    rw [CitesFirst, filter_repeats_run, Registry.filter_repeats_assemble_named hn hnodup]
    exact .refl _
  -- here the errors cite blocks of one type and then those of the other; perm_citing_iff compares
  -- that with citing the first of the blocks as they stand in the files
  · intro ds
    have hhcls : ds.filter (·.blockType = "generate_hcl") =
        s.declarations ["generate_hcl"] label :=
      Registry.filter_declarations (· = "generate_hcl")
    have hfiles : ds.filter (fun b => !decide (b.blockType = "generate_hcl")) =
        s.declarations ["generate_file"] label :=
      Registry.filter_declarations fun t => !decide (t = "generate_hcl")
    have hplaces : (ds.map Block.range).Nodup :=
      hnodup.sublist (List.filter_sublist.map Block.range)
    have hperm := perm_citing_iff (.named "generate label" label)
      (fun b => decide (b.blockType = "generate_hcl")) hplaces
    simp only [decide_eq_true_eq] at hperm
    rw [CitesFirst, filter_repeats_run, Registry.filter_repeats_assemble_label hnodup, ← hperm,
      hhcls, hfiles]
    rfl

/-! ## Labels of generated files -/

/-- What is declared in a session, given the files that it finds in counted steps. -/
theorem declarations_eq_expandWithin {s : Session} {n : Nat} {all : Expansion}
    (hinside : s.inside = true)
    (h : s.importResolver.expandWithin n [] s.ownFiles.1 = some all) (types : List String)
    (name : String) :
    s.declarations types name = s.registry.declarations s.options s.dir all.files types name := by
  rw [declarations, scopeFiles, if_pos hinside, effectiveFiles_eq_expandWithin h]

/-- A file that is imported has three blocks with one label, the first a `generate_hcl`. -/
def mixedScope : List (Path × String) :=
  [(.ofText "/s/a.tm", "import \x7b\n  source = \"/x/b.tm\"\n\x7d\n"),
    (.ofText "/x/b.tm",
      "generate_hcl \"out\" \x7b\n  content \x7b\n  \x7d\n\x7d\n" ++
        "generate_file \"out\" \x7b\n  content = 1\n\x7d\n" ++
        "generate_hcl \"out\" \x7b\n  content \x7b\n  \x7d\n\x7d\n")]

/-- The session that loads `/s`. -/
def mixedSession : Session :=
  new .builtin (FileTree.ofList mixedScope).provider ⟨.empty⟩ .root (.ofText "/s")

/-- The name is declared three times in the session, by two `generate_hcl` blocks and a
`generate_file` block. -/
theorem declarations_mixedSession :
    (mixedSession.importResolver.expandWithin 6 [] mixedSession.ownFiles.1).map (fun all =>
        (mixedSession.registry.declarations mixedSession.options mixedSession.dir all.files
          ["generate_hcl", "generate_file"] "out").map Block.blockType) =
      some ["generate_hcl", "generate_file", "generate_hcl"] := by
  decide +kernel

/-- Both later blocks are reported with the first. -/
theorem cites_first_iff_mixedScope :
    (∀ p ∈ (FileTree.ofList mixedScope).provider.readable, p.IsSpelled) ∧
      (mixedSession.declarations ["generate_hcl", "generate_file"] "out").map Block.blockType =
        ["generate_hcl", "generate_file", "generate_hcl"] ∧
      CitesFirst (.named "generate label" "out")
        ((mixedSession.declarations ["generate_hcl", "generate_file"] "out").map Block.range)
        (ofResult mixedSession.run) := by
  have hspelled : ∀ p ∈ (FileTree.ofList mixedScope).provider.readable, p.IsSpelled :=
    fun p hp => FileTree.isSpelled_of_mem_paths (by simp [mixedScope, Path.isSpelled_ofText]) hp
  obtain ⟨all, hall, hblocks⟩ := Option.map_eq_some_iff.1 declarations_mixedSession
  have hinside : mixedSession.inside = true := rfl
  rw [← declarations_eq_expandWithin hinside hall] at hblocks
  obtain ⟨-, -, hlabels⟩ := cites_first_iff (FileTree.ofList mixedScope).provider ⟨.empty⟩ .root
    (.ofText "/s") hspelled
  refine ⟨hspelled, hblocks, (hlabels "out").2 fun _ => ?_⟩
  obtain ⟨b, bs, hb, htype, -⟩ := List.map_eq_cons_iff.1 hblocks
  exact ⟨b, congrArg List.head? hb, htype⟩

/-- A `generate_file` block and, after it, a `generate_hcl` block with the same label. -/
def clashScope : List (Path × String) :=
  [(.ofText "/s/a.tm",
      "generate_file \"out\" \x7b\n  content = \"x\"\n\x7d\n" ++
        "generate_hcl \"out\" \x7b\n  content \x7b\n  \x7d\n\x7d\n")]

/-- The session that loads `/s`. -/
def clashSession : Session :=
  new .builtin (FileTree.ofList clashScope).provider ⟨.empty⟩ .root (.ofText "/s")

/-- The first block is reported, with the second as the one that was declared first. -/
theorem not_cites_first_clashScope :
    ∃ first second : SourceRange,
      (clashSession.declarations ["generate_hcl", "generate_file"] "out").map Block.range =
        [first, second] ∧
      clashSession.run = .error [.redeclared (.named "generate label" "out" second) first] ∧
      ¬CitesFirst (.named "generate label" "out") [first, second] (ofResult clashSession.run) := by
  have hrun : (clashSession.importResolver.expandWithin 4 [] clashSession.ownFiles.1).map
      (fun all => ((clashSession.registry.declarations clashSession.options clashSession.dir
          all.files ["generate_hcl", "generate_file"] "out").map Block.range,
        ofResult (clashSession.runOn all.files (clashSession.ownFiles.2 ++ all.errors)))) =
      some ([⟨"/s/a.tm", ⟨1, 1, 0⟩, ⟨3, 2, 39⟩⟩, ⟨"/s/a.tm", ⟨4, 1, 40⟩, ⟨7, 2, 78⟩⟩],
        [.redeclared (.named "generate label" "out" ⟨"/s/a.tm", ⟨4, 1, 40⟩, ⟨7, 2, 78⟩⟩)
          ⟨"/s/a.tm", ⟨1, 1, 0⟩, ⟨3, 2, 39⟩⟩]) := by
    decide +kernel
  obtain ⟨all, hall, heq⟩ := Option.map_eq_some_iff.1 hrun
  obtain ⟨hplaces, hreported⟩ := Prod.mk.inj heq
  have hinside : clashSession.inside = true := rfl
  rw [← declarations_eq_expandWithin hinside hall] at hplaces
  refine ⟨_, _, hplaces, ?_⟩
  rw [run_eq_runOn, effectiveFiles_eq_expandWithin hall]
  generalize clashSession.runOn all.files (clashSession.ownFiles.2 ++ all.errors) = result
    at hreported
  cases result with
  | ok c => cases hreported
  | error faults =>
    obtain rfl : faults = _ := hreported
    exact ⟨rfl, by rw [CitesFirst]; decide⟩

end Session

end ScopeConfig
