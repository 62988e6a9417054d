import Mathlib.Data.List.Perm.Subperm
import ScopeConfig.Proofs.Merge.Fusion
import ScopeConfig.Proofs.Scope.Complete

/-!
# Every entity is given to its kind, once

The kinds of a registry get their blocks in turn: each kind, in the order of the registry, is given
one block after the other, and what it records or refuses is carried on to the next. `Dispatch` is
this loop, with a log of what was given; recording the calls of a table does the same. The log is
decided by the merged blocks alone, never by what the kinds make of them.

## Main statements

* `Registry.dispatch_eq`: giving blocks in turn is recording the calls of the table.
* `Registry.dispatch_exact`: what is given, to which kind, and what is not given to any.
-/

namespace ScopeConfig

open Syntax

/-! ## Picking by keys -/

section Pick

variable {α ι κ : Type} [DecidableEq κ] (key : α → κ) (name : ι → κ) {owners : List ι} {l : List α}
  {pick : ι → List α}

/-- Owners of distinct names that each take some of the elements with their name as the key take no
element twice: by induction on the owners, with the elements of the first one taken out. -/
theorem flatMap_subperm_of_nodup (hnames : (owners.map name).Nodup)
    (hpick : ∀ o ∈ owners, (pick o).Subperm (l.filter (key · = name o))) :
    (owners.flatMap pick).Subperm l := by
  induction owners generalizing l with
  | nil => exact List.nil_subperm
  | cons o owners ih =>
    obtain ⟨hnew, hnames⟩ := List.nodup_cons.1 hnames
    have hothers : ∀ o' ∈ owners,
        (pick o').Subperm ((l.filter fun a => !decide (key a = name o)).filter
          (key · = name o')) := by
      intro o' ho'
      have hne : name o' ≠ name o := fun heq => hnew (heq ▸ List.mem_map_of_mem ho')
      rw [List.filter_filter]
      refine (hpick o' (List.mem_cons_of_mem o ho')).trans (List.Perm.subperm (.of_eq ?_))
      refine List.filter_congr fun a _ => ?_
      by_cases ha : key a = name o'
      · simp [ha, hne]
      · simp [ha]
    rw [List.flatMap_cons]
    exact ((hpick o List.mem_cons_self).append (ih hnames hothers)).trans
      (List.filter_append_perm _ l).subperm

end Pick

/-! ## What a form was made of -/

namespace Form

/-- The blocks that a form was made of. -/
def sources : Form → List Block
  | .raw b => [b]
  | .merged m => m.origins

/-- What a form declares, as told apart from the others of its kind. -/
def identity : Form → BlockIdentity
  | .raw b => b.identity
  | .merged m => m.identity

end Form

/-! ## Giving blocks to kinds -/

/-- How far giving blocks to kinds has come: the configuration and the errors so far, and every call
that was made. -/
structure Dispatch where
  config : Config
  errors : List Diagnostic
  made : List Call

namespace Dispatch

/-- Gives a kind one block, and goes on from the configuration that it leaves. -/
def give (options : Options) (k : BlockKind) (d : Dispatch) (form : Form) : Dispatch :=
  let (c, result) := k.read options d.config form
  ⟨c, d.errors ++ Diagnostic.ofResult result, d.made ++ [⟨k, form⟩]⟩

/-- Gives a kind the blocks of a table that are its own, in the form that its policy calls for. -/
def giveKind (options : Options) (t : MergeTable) (d : Dispatch) (k : BlockKind) : Dispatch :=
  if k.policy = .mergeByLabel then
    (t.mergedOf k.name).foldl (fun d m => d.give options k (.merged m)) d
  else (t.unmergedOf k.name).foldl (fun d b => d.give options k (.raw b)) d

/-- What is left of calls once they are recorded after those made before. -/
def after (options : Options) (d : Dispatch) (calls : List Call) : Dispatch :=
  ⟨(d.config.recordAll options calls).1, d.errors ++ (d.config.recordAll options calls).2,
    d.made ++ calls⟩

theorem after_nil (options : Options) (d : Dispatch) : d.after options [] = d := by
  simp [after, Config.recordAll]

/-- Giving one block is recording one call. -/
theorem after_cons (options : Options) (d : Dispatch) (call : Call) (calls : List Call) :
    d.after options (call :: calls) = (d.give options call.kind call.form).after options calls := by
  simp [after, give, Config.recordAll]

/-- Two lists of calls, one after the other. -/
theorem after_append (options : Options) (d : Dispatch) (calls more : List Call) :
    d.after options (calls ++ more) = (d.after options calls).after options more := by
  induction calls generalizing d with
  | nil => rw [after_nil, List.nil_append]
  | cons call calls ih => rw [List.cons_append, after_cons, ih, after_cons]

/-- Giving forms to a kind one by one makes the calls for them. -/
theorem foldl_give {α : Type} (options : Options) (k : BlockKind) (form : α → Form) (d : Dispatch)
    (l : List α) :
    l.foldl (fun d a => d.give options k (form a)) d =
      d.after options (l.map fun a => ⟨k, form a⟩) := by
  induction l generalizing d with
  | nil => exact (after_nil options d).symm
  | cons a l ih => rw [List.foldl_cons, List.map_cons, after_cons, ih]

/-- Giving a kind its blocks makes the calls of the kind. -/
theorem giveKind_eq (options : Options) (t : MergeTable) (d : Dispatch) (k : BlockKind) :
    d.giveKind options t k = d.after options (k.calls t) := by
  rw [giveKind, BlockKind.calls]
  split <;> exact foldl_give options k _ d _

end Dispatch

namespace Registry

variable (r : Registry)

/-- Gives every kind, in order, the blocks of a table that are its own. -/
def dispatch (options : Options) (t : MergeTable) (c : Config) : Dispatch :=
  r.kinds.foldl (·.giveKind options t ·) ⟨c, [], []⟩

/-- Giving blocks in turn is recording the calls of the table. -/
theorem dispatch_eq (options : Options) (t : MergeTable) (c : Config) :
    r.dispatch options t c =
      ⟨(c.recordAll options (r.calls t)).1, (c.recordAll options (r.calls t)).2, r.calls t⟩ := by
  have hfold : ∀ (kinds : List BlockKind) (d : Dispatch),
      kinds.foldl (·.giveKind options t ·) d = d.after options (kinds.flatMap (·.calls t)) := by
    intro kinds
    induction kinds with
    | nil => exact fun d => (d.after_nil options).symm
    | cons k kinds ih =>
      intro d
      rw [List.foldl_cons, ih, Dispatch.giveKind_eq, List.flatMap_cons, Dispatch.after_append]
  rw [dispatch, hfold]
  rfl

/-- The registry whose kinds have the same names and policies, but read blocks in another way. -/
def behaving
    (read : BlockKind → Options → Config → Form → Config × Except (List Diagnostic) Unit) :
    Registry where
  kinds := r.kinds.map fun k => { k with read := read k }
  nodup := by simpa [List.map_map, Function.comp_def] using r.nodup
  not_reserved := by simpa [List.map_map, Function.comp_def] using r.not_reserved

/-- The kind of a type is the one of its name. -/
theorem get?_eq_some_iff {blockType : String} {k : BlockKind} :
    r.get? blockType = some k ↔ k ∈ r.kinds ∧ k.name = blockType := by
  rw [get?]
  constructor
  · intro h
    exact ⟨List.mem_of_find?_eq_some h, by simpa using List.find?_some h⟩
  · rintro ⟨hk, rfl⟩
    cases hfind : r.kinds.find? (·.name = k.name) with
    | none => simpa using List.find?_eq_none.1 hfind k hk
    | some k' =>
      have hname : k'.name = k.name := by simpa using List.find?_some hfind
      rw [List.inj_on_of_nodup_map r.nodup (List.mem_of_find?_eq_some hfind) hk hname]

/-- The policy for a type is that of its kind. -/
theorem policyFor_eq (blockType : String) :
    MergeTable.policyFor r.policies blockType = (r.get? blockType).map BlockKind.policy := by
  cases hget : r.get? blockType with
  | some k =>
    obtain ⟨hk, rfl⟩ := r.get?_eq_some_iff.1 hget
    exact policyFor_of_mem hk
  | none =>
    cases hpolicy : MergeTable.policyFor r.policies blockType with
    | none => rfl
    | some policy =>
      obtain ⟨k, hk, hname, -⟩ := policyFor_eq_some hpolicy
      rw [r.get?_eq_some_iff.2 ⟨hk, hname⟩] at hget
      cases hget

end Registry

/-! ## What a kind is due -/

/-- Taking the first or the last of each identity takes no block twice. -/
theorem filterMap_find?_subperm {bs cs : List Block} (h : cs.Perm bs) :
    ((identitiesOf bs).filterMap fun i => cs.find? (·.identity = i)).Subperm bs := by
  rw [List.filterMap_eq_flatMap_toList]
  refine flatMap_subperm_of_nodup Block.identity id
    (by simpa using nodup_identitiesOf bs) fun i _ => ?_
  refine List.Subperm.trans ?_ (h.filter _).subperm
  show (cs.find? (·.identity = i)).toList.Subperm (cs.filter (·.identity = i))
  rw [← List.head?_filter]
  generalize cs.filter (·.identity = i) = own
  cases own with
  | nil => exact List.nil_subperm
  | cons b rest => exact (List.singleton_sublist.2 List.mem_cons_self).subperm

/-- What a policy keeps was given, and is kept once. -/
theorem MergeTable.kept_subperm (policy : Option MergePolicy) (bs : List Block) :
    (kept policy bs).Subperm bs := by
  unfold kept
  split
  · exact List.Subperm.refl bs
  · exact filterMap_find?_subperm (.refl bs)
  · exact filterMap_find?_subperm bs.reverse_perm
  · exact List.nil_subperm
  · exact List.nil_subperm

namespace BlockKind

/-- The calls that a kind is due for the blocks of its type: one for each identity, in the order in
which the identities occur first, if it is merged by label, and else one for each block that its
policy keeps. -/
def due (k : BlockKind) (bs : List Block) : List Call :=
  if k.policy = .mergeByLabel then
    (identitiesOf bs).map fun i => ⟨k, .merged (.fuse i (bs.filter (·.identity = i)))⟩
  else (MergeTable.kept k.policy bs).map fun b => ⟨k, .raw b⟩

variable (k : BlockKind) (bs : List Block)

/-- The calls that a kind is due are calls to that kind. -/
theorem kind_of_mem_due {call : Call} (h : call ∈ k.due bs) : call.kind = k := by
  unfold due at h
  split at h
  · obtain ⟨i, -, rfl⟩ := List.mem_map.1 h
    rfl
  · obtain ⟨b, -, rfl⟩ := List.mem_map.1 h
    rfl

/-- No block is part of two calls. -/
theorem sources_due_subperm : ((k.due bs).flatMap (·.form.sources)).Subperm bs := by
  unfold due
  split
  · rw [List.flatMap_map]
    refine flatMap_subperm_of_nodup Block.identity id
      (by simpa using nodup_identitiesOf bs) fun i _ => ?_
    rw [Form.sources, MergedBlock.origins_fuse]
    exact List.Subperm.refl _
  · rw [List.flatMap_map]
    simpa [Form.sources] using MergeTable.kept_subperm (some k.policy) bs

/-- Every identity has one call, unless all blocks are kept. -/
theorem identities_due (h : k.policy ≠ .append) :
    (k.due bs).map (·.form.identity) = identitiesOf bs := by
  unfold due
  split
  · simp [Function.comp_def, Form.identity]
  · rename_i hmerge
    rw [List.map_map]
    show (MergeTable.kept k.policy bs).map Block.identity = _
    cases hpolicy : k.policy with
    | append => exact (h hpolicy).elim
    | mergeByLabel => exact (hmerge hpolicy).elim
    | uniqueByLabel => exact map_identity_firstOfEach bs
    | override => exact map_identity_lastOfEach bs

/-- The calls of a kind, when files were merged, are those that it is due. -/
theorem calls_mergeFiles {r : Registry} (hk : k ∈ r.kinds) (files : List SourceFile) :
    k.calls ((MergeTable.new r.policies).mergeFiles files).1 =
      k.due ((MergeTable.scopeBlocks files).filter (·.blockType = k.name)) := by
  have hfor := Registry.policyFor_of_mem hk
  rw [calls, due]
  split
  · rename_i hpolicy
    rw [MergeTable.mergedOf_mergeFiles files (hfor.trans (congrArg some hpolicy)), List.map_map]
    rfl
  · rw [MergeTable.unmergedOf_mergeFiles files, hfor]

end BlockKind

namespace Registry

/-! ## All kinds -/

section Due

variable (r : Registry) (files : List SourceFile)

/-- The calls that all kinds are due for the blocks of files. -/
def due : List Call :=
  r.kinds.flatMap fun k =>
    k.due ((MergeTable.scopeBlocks files).filter (·.blockType = k.name))

/-- After files are merged into a new table, the calls for what it holds are those that the files
are due. -/
theorem calls_mergeFiles :
    r.calls ((MergeTable.new r.policies).mergeFiles files).1 = r.due files :=
  List.flatMap_congr fun k hk => k.calls_mergeFiles hk files

/-- Every block of a scope is due at most once. -/
theorem sources_due_subperm :
    ((r.due files).flatMap (·.form.sources)).Subperm (MergeTable.scopeBlocks files) := by
  rw [due, List.flatMap_assoc]
  exact flatMap_subperm_of_nodup Block.blockType BlockKind.name r.nodup
    fun k _ => k.sources_due_subperm _

/-- A block that is part of a call is of the type of the kind that is called. -/
theorem get?_of_mem_sources_due {call : Call} (hcall : call ∈ r.due files) {b : Block}
    (hb : b ∈ call.form.sources) : r.get? b.blockType = some call.kind := by
  obtain ⟨k, hk, hdue⟩ := List.mem_flatMap.1 hcall
  have hgiven := (k.sources_due_subperm _).subset (List.mem_flatMap.2 ⟨call, hdue, hb⟩)
  have htype : b.blockType = k.name := by simpa using (List.mem_filter.1 hgiven).2
  rw [k.kind_of_mem_due _ hdue]
  exact r.get?_eq_some_iff.2 ⟨hk, htype.symm⟩

/-- Over all kinds that do not keep every block, no identity has two calls. -/
theorem nodup_identities_due :
    (((r.due files).filter (·.kind.policy ≠ .append)).map (·.form.identity)).Nodup := by
  set given := MergeTable.scopeBlocks files
  -- of each kind, all calls are left or none
  have hown : ∀ k : BlockKind, ((k.due (given.filter (·.blockType = k.name))).filter
      (·.kind.policy ≠ .append)).map (·.form.identity) =
        if k.policy = .append then [] else identitiesOf (given.filter (·.blockType = k.name)) := by
    intro k
    split
    · rename_i hpolicy
      rw [List.map_eq_nil_iff, List.filter_eq_nil_iff]
      intro call hcall
      simp [k.kind_of_mem_due _ hcall, hpolicy]
    · rename_i hpolicy
      rw [List.filter_eq_self.2 fun call hcall => by simp [k.kind_of_mem_due _ hcall, hpolicy]]
      exact k.identities_due _ hpolicy
  rw [due, List.filter_flatMap, List.map_flatMap, List.flatMap_congr fun k _ => hown k,
    List.nodup_flatMap]
  constructor
  · intro k _
    split
    · exact List.nodup_nil
    · exact nodup_identitiesOf _
  · -- two kinds have no identity in common, since their names are the types
    have htype : ∀ (k : BlockKind) (i : BlockIdentity),
        (i ∈ if k.policy = .append then []
          else identitiesOf (given.filter (·.blockType = k.name))) → i.blockType = k.name := by
      intro k i hi
      split at hi
      · cases hi
      · obtain ⟨b, hb, rfl⟩ := mem_identitiesOf.1 hi
        simpa [Block.identity] using (List.mem_filter.1 hb).2
    refine (List.pairwise_map.1 r.nodup).imp fun {k k'} hne i hi hi' => hne ?_
    exact (htype k i hi).symm.trans (htype k' i hi')

end Due

/-- What a kind makes of its blocks has no part in which blocks are given to which kind. -/
theorem given_behaving (r : Registry)
    (read : BlockKind → Options → Config → Form → Config × Except (List Diagnostic) Unit)
    (t : MergeTable) :
    ((r.behaving read).calls t).map (fun call => (call.kind.name, call.form)) =
      (r.calls t).map fun call => (call.kind.name, call.form) := by
  rw [calls, calls, List.map_flatMap, List.map_flatMap, behaving, List.flatMap_map]
  refine List.flatMap_congr fun k _ => ?_
  simp only [BlockKind.calls]
  split <;> simp

/-- The calls that are made when files are merged under the policies of a registry and its kinds are
given the merged blocks in turn, from any configuration. For each kind, in the order of the
registry, there is one call for each identity of its type in the order in which the identities occur
first, with all blocks of the identity fused, if the kind is merged by label, and otherwise one call
for each block of its type that its policy keeps, in the order in which they were merged: under
`override`, the last block of an identity stands in the place of the first.

So no block is part of two calls, no identity has two calls unless its kind keeps every block, and
each call is of the kind that has the name of its blocks' type, in the form that the policy of the
kind calls for. A block whose type has no kind is part of no call, and merging reports it once, with
the only sort of error against a block as such that merging has. Kinds that read blocks in any other
way are given the same blocks in the same order, and the configuration and the errors are those of
recording the calls of the table. -/
theorem dispatch_exact (r : Registry) (options : Options) (c : Config) (files : List SourceFile) :
    let given := MergeTable.scopeBlocks files
    let merging := (MergeTable.new r.policies).mergeFiles files
    let d := r.dispatch options merging.1 c
    d.made = (r.kinds.flatMap fun k => k.due (given.filter (·.blockType = k.name))) ∧
      (d.made.flatMap (·.form.sources)).Subperm given ∧
      ((d.made.filter (·.kind.policy ≠ .append)).map (·.form.identity)).Nodup ∧
      (∀ call ∈ d.made, call.form.Fits call.kind.policy ∧
        ∀ b ∈ call.form.sources, r.get? b.blockType = some call.kind) ∧
      merging.2.filter (·.kind = .schema) =
        ((given.filter fun b => (r.get? b.blockType).isNone).map fun b =>
          .schema (.unknownTopBlock b.blockType) b.header) ∧
      (∀ read, ((r.behaving read).dispatch options merging.1 c).made.map
          (fun call => (call.kind.name, call.form)) =
        d.made.map fun call => (call.kind.name, call.form)) ∧
      d = ⟨(c.recordAll options (r.calls merging.1)).1,
        (c.recordAll options (r.calls merging.1)).2, r.calls merging.1⟩ := by
  intro given merging d
  have hd : d = ⟨(c.recordAll options (r.calls merging.1)).1,
      (c.recordAll options (r.calls merging.1)).2, r.calls merging.1⟩ :=
    r.dispatch_eq options merging.1 c
  have hmade : d.made = r.due files := by
    rw [hd]
    exact r.calls_mergeFiles files
  -- the calls are those of the table, and by calls_mergeFiles those that are due for the files
  refine ⟨hmade, ?_, ?_, ?_, ?_, ?_, hd⟩
  · rw [hmade]
    exact r.sources_due_subperm files
  · rw [hmade]
    exact r.nodup_identities_due files
  · intro call hcall
    refine ⟨?_, fun b hb => r.get?_of_mem_sources_due files (hmade ▸ hcall) hb⟩
    rw [hd] at hcall
    exact (r.of_mem_calls merging.1 hcall).2
  · have hschema : MergeTable.schemaErrors merging.2 =
        MergeTable.unknownTypeErrors r.policies given :=
      (MergeTable.new r.policies).schemaErrors_mergeFiles files
    simpa [MergeTable.schemaErrors, MergeTable.unknownTypeErrors, policyFor_eq] using hschema
  · intro read
    rw [hd, dispatch_eq]
    exact r.given_behaving read merging.1

/-- One kind for each policy, none of which records anything. -/
def mixed : Registry where
  kinds := [("note", .append), ("last", .override), ("one", .uniqueByLabel),
    ("parts", .mergeByLabel)].map fun (name, policy) =>
      { name, policy, importAllowed := true, read := fun _ c _ => (c, .ok ()),
        check := fun _ _ => .ok () }
  nodup := by decide
  not_reserved := by decide

/-- Blocks of all kinds mixed, one on each line, and one of an unknown type. -/
def mixedText : String :=
  "parts \x7b\x7d\nlast \x7b\x7d\none \x7b\x7d\nlast \"x\" \x7b\x7d\nnote \x7b\x7d\n" ++
    "last \x7b\x7d\nother \x7b\x7d\nparts \x7b\x7d\none \x7b\x7d\nnote \x7b\x7d\n"

-- the lines of the blocks that each call is made of
example :
    (SourceFile.parse (.ofText "/s/a.tm") mixedText).toOption.map (fun f =>
        let merging := (MergeTable.new mixed.policies).mergeFiles [f]
        ((mixed.dispatch ⟨.empty⟩ merging.1 (.new .root)).made.map fun call =>
            (call.kind.name, call.form.sources.map (·.range.start.line)),
          merging.2.map Diagnostic.kind)) =
      some ([("note", [5]), ("note", [10]), ("last", [6]), ("last", [4]), ("one", [3]),
        ("parts", [1, 8])], [.schema, .redeclared]) := by
  decide +kernel

end Registry

end ScopeConfig
