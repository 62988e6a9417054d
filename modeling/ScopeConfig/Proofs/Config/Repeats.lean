import ScopeConfig.Proofs.Config.Gate
import ScopeConfig.Proofs.Merge.Repeats

/-!
# Names that are declared again

The names of inputs, outputs and sharing backends and the labels of generated files are compared at
the end, when all blocks are recorded. Blocks that were refused have left nothing behind, so what is
compared are the names of the blocks that were accepted, in the order in which these were recorded:
kind after kind, and within a kind in the order of the files. The labels of generated files are of
two kinds, so the order in which they are compared is not the one in which they were declared.

## Main statements

* `filter_repeats_uniqueNames`: what comparing names reports about one name.
* `declared_recordAll`: the names that are compared.
* `filter_repeats_check_named`, `filter_repeats_check_label`: what the checks at the end report
  about one name or label.
-/

namespace ScopeConfig

open Syntax Blocks Diagnostic

/-! ## Comparing names -/

/-- The reports about one name: by induction on the entries, where the first declaration of the name
is looked up among those before. -/
theorem filter_repeats_repeatedNames (kind name : String)
    (seen entries : List (String × SourceRange)) :
    (repeatedNames kind seen entries).filter (repeats (.named kind name)) =
      citing (.named kind name)
        ((seen.lookup name).toList ++ (entries.filter (·.1 = name)).map Prod.snd) := by
  induction entries generalizing seen with
  | nil => cases seen.lookup name <;> simp [repeatedNames, citing]
  | cons entry entries ih =>
    obtain ⟨other, range⟩ := entry
    unfold repeatedNames
    by_cases hname : other = name
    · subst hname
      split
      · rename_i first hseen
        simp [ih, hseen, citing, Redeclaration.first]
      · rename_i hseen
        simp [ih, hseen, List.lookup_append, citing]
    · have hne : (name == other) = false := by simpa using Ne.symm hname
      split
      · simp [ih, hname, Redeclaration.first]
      · simp [ih, hname, List.lookup_append, List.lookup_cons, hne]

/-- Comparing names reports, in the words for the kind of names, all but the first of each name. -/
theorem filter_repeats_uniqueNames (kind name : String) (entries : List (String × SourceRange)) :
    (uniqueNames kind entries).filter (repeats (.named kind name)) =
      citing (.named kind name) ((entries.filter (·.1 = name)).map Prod.snd) :=
  filter_repeats_repeatedNames kind name [] entries

/-- Every repetition of names is reported as a redeclaration of a name of that kind. -/
theorem exists_of_mem_repeatedNames {kind : String} {seen entries : List (String × SourceRange)}
    {d : Diagnostic} (h : d ∈ repeatedNames kind seen entries) :
    ∃ name first range, d = .redeclared (.named kind name first) range := by
  induction entries generalizing seen with
  | nil => cases h
  | cons entry entries ih =>
    unfold repeatedNames at h
    split at h
    · rcases List.mem_cons.1 h with rfl | h
      · exact ⟨_, _, _, rfl⟩
      · exact ih h
    · exact ih h

/-- Names of other kinds are reported in other words. -/
theorem filter_repeats_uniqueNames_of_ne {kind : String} {again : SourceRange → Redeclaration}
    (hagain : ∀ name first, again first ≠ .named kind name first)
    (entries : List (String × SourceRange)) :
    (uniqueNames kind entries).filter (repeats again) = [] := by
  refine filter_repeats_eq_nil fun d hd => ?_
  obtain ⟨name, first, range, rfl⟩ := exists_of_mem_repeatedNames hd
  rw [repeats_redeclared, decide_eq_false_iff_not]
  exact fun heq => hagain name first heq.symm

/-! ## The names of a configuration -/

/-- The kinds of blocks whose names are compared. -/
inductive NamedKind where
  | backends | inputs | outputs | hcls | files

namespace NamedKind

/-- The kind of the blocks. -/
def kind : NamedKind → BlockKind
  | backends => backendKind
  | inputs => inputKind
  | outputs => outputKind
  | hcls => hclKind
  | files => fileKind

/-- The names that a configuration has, with the places of the blocks that declare them. -/
def declared (c : Config) : NamedKind → List (String × SourceRange)
  | backends => c.sharingBackends.map fun x => (x.name, x.range)
  | inputs => c.inputs.map fun x => (x.name, x.range)
  | outputs => c.outputs.map fun x => (x.name, x.range)
  | hcls => c.generatedHcls.map fun x => (x.label, x.range)
  | files => c.generatedFiles.map fun x => (x.label, x.range)

/-- Every kind with unique names is builtin. -/
theorem kind_mem (n : NamedKind) : n.kind ∈ Registry.builtinKinds := by
  cases n <;> simp [kind, Registry.builtinKinds]

/-- Every kind with unique names keeps all of its blocks. -/
theorem policy_eq (n : NamedKind) : n.kind.policy = .append := by
  cases n <;> rfl

end NamedKind

/-- The label of a block that has one, with the place of the block. -/
def Blocks.labelled? (b : Block) : Option (String × SourceRange) :=
  (label? b).map fun label => (label, b.range)

/-- The places at which one label is declared. -/
theorem filter_labelled? (bs : List Block) (name : String) :
    ((bs.filterMap labelled?).filter (·.1 = name)).map Prod.snd =
      (bs.filter fun b => label? b = some name).map Block.range := by
  induction bs with
  | nil => rfl
  | cons b bs ih =>
    cases hlabel : label? b with
    | none => simpa [labelled?, hlabel] using ih
    | some label =>
      by_cases hname : label = name
      · simpa [labelled?, hlabel, hname] using ih
      · simpa [labelled?, hlabel, hname] using ih

/-- A block that is recorded adds its label to the names of its kind, and to no other names. -/
theorem NamedKind.declared_of_records (n : NamedKind) {c c' : Config} {k : BlockKind} {form : Form}
    (h : c.Records k form c') :
    n.declared c' = n.declared c ++
      if k.name = n.kind.name then form.blocks.filterMap labelled? else [] := by
  cases h with
  | project | globals | stack | script | assertion =>
    cases n <;> simp [declared, kind, projectKind, globalsKind, stackKind, scriptKind, assertKind,
      backendKind, inputKind, outputKind, hclKind, fileKind]
  | backend hx hrange =>
    cases n <;> simp [declared, kind, backendKind, inputKind, outputKind, hclKind, fileKind,
      Form.blocks, labelled?, label?_of_backend? hx, hrange]
  | input hx hrange =>
    cases n <;> simp [declared, kind, backendKind, inputKind, outputKind, hclKind, fileKind,
      Form.blocks, labelled?, label?_of_input? hx, hrange]
  | output hx hrange =>
    cases n <;> simp [declared, kind, backendKind, inputKind, outputKind, hclKind, fileKind,
      Form.blocks, labelled?, label?_of_output? hx, hrange]
  | hcl hx hrange =>
    cases n <;> simp [declared, kind, backendKind, inputKind, outputKind, hclKind, fileKind,
      Form.blocks, labelled?, label?_of_generatedHcl? hx, hrange]
  | file hx hrange =>
    cases n <;> simp [declared, kind, backendKind, inputKind, outputKind, hclKind, fileKind,
      Form.blocks, labelled?, label?_of_generatedFile? hx, hrange]

/-! ## The checks at the end -/

/-- The checks at the end compare the names of four sorts of entries. -/
theorem check_builtin_eq (options : Options) (c : Config) :
    Registry.builtin.check options c =
      uniqueNames "sharing_backend" (NamedKind.backends.declared c) ++
        (uniqueNames "input" (NamedKind.inputs.declared c) ++
          (uniqueNames "output" (NamedKind.outputs.declared c) ++
            uniqueNames "generate label"
              (NamedKind.hcls.declared c ++ NamedKind.files.declared c))) := by
  simp [Registry.check, Registry.builtin, Registry.builtinKinds, projectKind, globalsKind,
    stackKind, scriptKind, backendKind, inputKind, outputKind, assertKind, hclKind, fileKind,
    fileLabelsCheck, NamedKind.declared]

/-- The checks at the end are about names only. -/
theorem filter_repeats_check_of_ne {again : SourceRange → Redeclaration}
    (hagain : ∀ kind name first, again first ≠ .named kind name first) (options : Options)
    (c : Config) : (Registry.builtin.check options c).filter (repeats again) = [] := by
  simp only [check_builtin_eq, List.filter_append, filter_repeats_uniqueNames_of_ne (hagain _),
    List.append_nil]

/-- Of the declarations of a name, the checks at the end report all but the first. -/
theorem filter_repeats_check_named {n : NamedKind} (hn : n ∈ [.backends, .inputs, .outputs])
    (options : Options) (c : Config) (name : String) :
    (Registry.builtin.check options c).filter (repeats (.named n.kind.name name)) =
      citing (.named n.kind.name name) (((n.declared c).filter (·.1 = name)).map Prod.snd) := by
  simp only [List.mem_cons, List.not_mem_nil, or_false] at hn
  -- the names of the other kinds are reported in other words
  rcases hn with rfl | rfl | rfl
  all_goals
    simp [check_builtin_eq, NamedKind.kind, backendKind, inputKind, outputKind,
      filter_repeats_uniqueNames, filter_repeats_uniqueNames_of_ne]

/-- Of the declarations of a label, in the order in which they are compared, the checks at the end
report all but the first. -/
theorem filter_repeats_check_label (options : Options) (c : Config) (label : String) :
    (Registry.builtin.check options c).filter (repeats (.named "generate label" label)) =
      citing (.named "generate label" label)
        (((NamedKind.hcls.declared c ++ NamedKind.files.declared c).filter (·.1 = label)).map
          Prod.snd) := by
  rw [check_builtin_eq, List.filter_append, List.filter_append, List.filter_append,
    filter_repeats_uniqueNames_of_ne (by simp), filter_repeats_uniqueNames_of_ne (by simp),
    filter_repeats_uniqueNames_of_ne (by simp), filter_repeats_uniqueNames]
  rfl

/-! ## Accepted blocks -/

/-- The blocks that are accepted, of those that are given to kinds as they were written, when blocks
are recorded one after the other. -/
def Config.acceptedBlocks (options : Options) (c : Config) : List Call → List Block
  | [] => []
  | ⟨kind, form⟩ :: calls =>
    match kind.read options c form with
    | (c, .ok ()) => form.blocks ++ c.acceptedBlocks options calls
    | (c, .error _) => c.acceptedBlocks options calls

/-- The blocks of a form are all of the type of its kind. -/
theorem Form.OfType.filter_blocks {form : Form} {blockType : String} (h : form.OfType blockType)
    (other : String) :
    form.blocks.filter (·.blockType = other) =
      if blockType = other then form.blocks else [] := by
  split
  · rename_i heq
    exact List.filter_eq_self.2 fun b hb => by simp [h b hb, heq]
  · rename_i hne
    exact List.filter_eq_nil_iff.2 fun b hb => by simp [h b hb, hne]

/-- The blocks of a type that are given to kinds are those that its kind is given. -/
theorem Registry.filter_blocks_calls (r : Registry) (t : MergeTable) {k : BlockKind}
    (hk : k ∈ r.kinds) :
    ((r.calls t).flatMap (·.form.blocks)).filter (·.blockType = k.name) =
      (k.calls t).flatMap (·.form.blocks) := by
  rw [← r.flatMap_calls t hk Form.blocks, List.filter_flatMap]
  exact List.flatMap_congr fun call hcall =>
    (Registry.ofType_of_mem_calls hcall).filter_blocks k.name

section Accepted

variable {options : Options} {c : Config} {calls : List Call}

/-- The accepted blocks are among the blocks of the calls, in the same order. -/
theorem acceptedBlocks_sublist (options : Options) (c : Config) (calls : List Call) :
    (c.acceptedBlocks options calls).Sublist (calls.flatMap (·.form.blocks)) := by
  induction calls generalizing c with
  | nil => exact .slnil
  | cons call calls ih =>
    rw [List.flatMap_cons, Config.acceptedBlocks]
    split
    · exact (List.Sublist.refl _).append (ih _)
    · exact (ih _).trans (List.sublist_append_right _ _)

/-- The names that are compared at the end are those of the accepted blocks. -/
theorem NamedKind.declared_recordAll (n : NamedKind)
    (hcalls : ∀ call ∈ calls, call.kind ∈ Registry.builtinKinds ∧
      call.form.Fits call.kind.policy ∧ call.form.OfType call.kind.name) :
    n.declared (c.recordAll options calls).1 = n.declared c ++
      ((c.acceptedBlocks options calls).filter (·.blockType = n.kind.name)).filterMap
        labelled? := by
  induction calls generalizing c with
  | nil => simp [Config.recordAll, Config.acceptedBlocks]
  | cons call calls ih =>
    obtain ⟨kind, form⟩ := call
    obtain ⟨⟨hkind, hfit, htype⟩, hrest⟩ := List.forall_mem_cons.1 hcalls
    rcases settled_read hkind options c form with ⟨c', hread⟩ | ⟨faults, -, hread⟩
    · rw [recordAll_cons_of_ok hread, ih hrest, Config.acceptedBlocks, hread]
      rw [n.declared_of_records (records_of_read hkind hfit hread), List.filter_append,
        List.filterMap_append, htype.filter_blocks, List.append_assoc]
      split <;> rfl
    · rw [recordAll_cons_of_error hread, Config.acceptedBlocks, hread]
      exact ih hrest

end Accepted

end ScopeConfig
