import ScopeConfig.Proofs.Blocks.Accepted
import ScopeConfig.Scope.Assembly

/-!
# What recording a block does

A kind that accepts a block sets the one field of the configuration that belongs to it, or adds one
entry to it, and touches nothing else. `Config.Records` lists what each kind does; what a field
holds after all blocks are recorded follows along the list of blocks.

## Main statements

* `records_of_read`: what a kind that accepts a block does.
* `settled_read`: a kind records a block, or refuses it with an error and records nothing.
* `recordAll_view`: what can be seen of a configuration after recording without errors.
-/

namespace ScopeConfig

open Syntax Blocks

/-- Whether a block comes in the form that a policy calls for. -/
def Form.Fits : Form → MergePolicy → Prop
  | .merged _, policy => policy = .mergeByLabel
  | .raw _, policy => policy ≠ .mergeByLabel

/-- What becomes of a configuration when a kind records a block. -/
inductive Config.Records (c : Config) : BlockKind → Form → Config → Prop
  | project (m : MergedBlock) :
    Records c projectKind (.merged m) { c with project := some (projectSettings m) }
  | globals (m : MergedBlock) :
    Records c globalsKind (.merged m) { c with globals := c.globals ++ [m] }
  | stack (b : Block) : Records c stackKind (.raw b) { c with stack := some (stackOf b) }
  | script (b : Block) :
    Records c scriptKind (.raw b) { c with scripts := c.scripts ++ [scriptOf b] }
  | backend {b : Block} {x : SharingBackend} (hx : backend? b = some x)
    (h : x.range = b.range) :
    Records c backendKind (.raw b) { c with sharingBackends := c.sharingBackends ++ [x] }
  | input {b : Block} {x : Input} (hx : input? b = some x)
    (h : x.range = b.range) :
    Records c inputKind (.raw b) { c with inputs := c.inputs ++ [x] }
  | output {b : Block} {x : Output} (hx : output? b = some x)
    (h : x.range = b.range) :
    Records c outputKind (.raw b) { c with outputs := c.outputs ++ [x] }
  | assertion {b : Block} {x : Assertion} (hx : assertion? b = some x)
    (h : x.range = b.range) :
    Records c assertKind (.raw b) { c with asserts := c.asserts ++ [x] }
  | hcl {b : Block} {x : GeneratedHcl} (hx : generatedHcl? b = some x)
    (h : x.range = b.range) :
    Records c hclKind (.raw b) { c with generatedHcls := c.generatedHcls ++ [x] }
  | file {b : Block} {x : GeneratedFile} (hx : generatedFile? b = some x)
    (h : x.range = b.range) :
    Records c fileKind (.raw b) { c with generatedFiles := c.generatedFiles ++ [x] }

/-! ## One block -/

/-- A shared block is accepted when its experiment is enabled and nothing is wrong with it. -/
theorem readShared_raw_ok {faults : Block → List Diagnostic}
    {record : Config → Block → Option Config} {options : Options} {c c' : Config} {b : Block}
    (h : readShared faults record options c (.raw b) = (c', .ok ())) :
    faults b = [] ∧ (record c b).getD c = c' := by
  simp only [readShared] at h
  split at h
  · exact acceptIf_eq_ok_iff.1 h
  · cases h

/-- A script is accepted when its experiment is enabled and nothing is wrong with it. -/
theorem scriptKind_read_ok {options : Options} {c c' : Config} {b : Block}
    (h : scriptKind.read options c (.raw b) = (c', .ok ())) :
    scriptFaults b = [] ∧ { c with scripts := c.scripts ++ [scriptOf b] } = c' := by
  simp only [scriptKind] at h
  split at h
  · exact acceptIf_eq_ok_iff.1 h
  · cases h

/-- A kind that accepts a block records it. -/
theorem records_of_read {k : BlockKind} {options : Options} {c c' : Config} {form : Form}
    (hk : k ∈ Registry.builtinKinds) (hfit : form.Fits k.policy)
    (h : k.read options c form = (c', .ok ())) : c.Records k form c' := by
  simp only [Registry.builtinKinds, List.mem_cons, List.not_mem_nil, or_false] at hk
  -- a kind and a form that do not fit are ruled out by the policy of the kind
  cases form with
  | merged m =>
    rcases hk with rfl | rfl | rfl | rfl | rfl | rfl | rfl | rfl | rfl | rfl
    · obtain ⟨-, rfl⟩ := acceptIf_eq_ok_iff.1 h
      exact .project m
    · obtain ⟨-, rfl⟩ := acceptIf_eq_ok_iff.1 h
      exact .globals m
    all_goals cases hfit
  | raw b =>
    rcases hk with rfl | rfl | rfl | rfl | rfl | rfl | rfl | rfl | rfl | rfl
    · exact (hfit rfl).elim
    · exact (hfit rfl).elim
    · obtain ⟨-, rfl⟩ := acceptIf_eq_ok_iff.1 h
      exact .stack b
    · obtain ⟨-, rfl⟩ := scriptKind_read_ok h
      exact .script b
    -- without faults the optional record of a block is there, so nothing is passed over
    · simp only [backendKind] at h
      obtain ⟨hok, rfl⟩ := readShared_raw_ok h
      obtain ⟨x, hx, hrange⟩ := backend?_of_no_faults hok
      rw [hx]
      exact .backend hx hrange
    · simp only [inputKind] at h
      obtain ⟨hok, rfl⟩ := readShared_raw_ok h
      obtain ⟨x, hx, hrange⟩ := input?_of_no_faults hok
      rw [hx]
      exact .input hx hrange
    · simp only [outputKind] at h
      obtain ⟨hok, rfl⟩ := readShared_raw_ok h
      obtain ⟨x, hx, hrange⟩ := output?_of_no_faults hok
      rw [hx]
      exact .output hx hrange
    · obtain ⟨hok, rfl⟩ := acceptIf_eq_ok_iff.1 h
      obtain ⟨x, hx, hrange⟩ := assertion?_of_no_faults hok
      rw [hx]
      exact .assertion hx hrange
    · obtain ⟨hok, rfl⟩ := acceptIf_eq_ok_iff.1 h
      obtain ⟨x, hx, hrange⟩ := generatedHcl?_of_no_faults hok
      rw [hx]
      exact .hcl hx hrange
    · obtain ⟨hok, rfl⟩ := acceptIf_eq_ok_iff.1 h
      obtain ⟨x, hx, hrange⟩ := generatedFile?_of_no_faults hok
      rw [hx]
      exact .file hx hrange

/-- What reading a block comes to when the block is recorded or refused, and nothing in between: a
block that is refused leaves the configuration as it was, and there is an error. -/
def Settled (c : Config) (outcome : Config × Except (List Diagnostic) Unit) : Prop :=
  (∃ c', outcome = (c', .ok ())) ∨ ∃ faults, faults ≠ [] ∧ outcome = (c, .error faults)

/-- A block that a kind has nothing to do with is no failure. -/
theorem settled_ok (c : Config) : Settled c (c, .ok ()) :=
  .inl ⟨c, rfl⟩

/-- A block that is recorded if nothing is wrong is settled. -/
theorem settled_acceptIf (faults : List Diagnostic) (c next : Config) :
    Settled c (acceptIf faults c next) := by
  by_cases hfaults : faults = []
  · exact .inl ⟨next, acceptIf_eq_ok_iff.2 ⟨hfaults, rfl⟩⟩
  · exact .inr ⟨faults, hfaults, acceptIf_eq_error_iff.2 ⟨hfaults, rfl, rfl⟩⟩

/-- A shared block is settled, by its experiment or by its rules. -/
theorem settled_readShared (faults : Block → List Diagnostic)
    (record : Config → Block → Option Config) (options : Options) (c : Config) (form : Form) :
    Settled c (readShared faults record options c form) := by
  unfold readShared
  split
  · exact settled_ok c
  · split
    · exact settled_acceptIf _ _ _
    · rename_i hne
      exact .inr ⟨_, hne, rfl⟩

/-- A script is settled, by its experiment or by its rules. -/
theorem settled_scriptKind_read (options : Options) (c : Config) (form : Form) :
    Settled c (scriptKind.read options c form) := by
  simp only [scriptKind]
  split
  · split
    · exact settled_acceptIf _ _ _
    · rename_i hne
      exact .inr ⟨_, hne, rfl⟩
  · exact settled_ok c

/-- A kind records a block, or refuses it and says why. -/
theorem settled_read {k : BlockKind} (hk : k ∈ Registry.builtinKinds) (options : Options)
    (c : Config) (form : Form) : Settled c (k.read options c form) := by
  simp only [Registry.builtinKinds, List.mem_cons, List.not_mem_nil, or_false] at hk
  -- a form that a kind is not given is never refused
  cases form with
  | merged m =>
    rcases hk with rfl | rfl | rfl | rfl | rfl | rfl | rfl | rfl | rfl | rfl
    · exact settled_acceptIf _ _ _
    · exact settled_acceptIf _ _ _
    all_goals exact settled_ok c
  | raw b =>
    rcases hk with rfl | rfl | rfl | rfl | rfl | rfl | rfl | rfl | rfl | rfl
    · exact settled_ok c
    · exact settled_ok c
    · exact settled_acceptIf _ _ _
    · exact settled_scriptKind_read _ _ _
    · simp only [backendKind]
      exact settled_readShared _ _ _ _ _
    · simp only [inputKind]
      exact settled_readShared _ _ _ _ _
    · simp only [outputKind]
      exact settled_readShared _ _ _ _ _
    all_goals exact settled_acceptIf _ _ _

/-! ## All blocks -/

section RecordAll

variable {options : Options} {c : Config} {calls : List Call}

/-- After a block that is recorded, recording goes on from the new configuration. -/
theorem recordAll_cons_of_ok {k : BlockKind} {form : Form} {c' : Config}
    (h : k.read options c form = (c', .ok ())) (calls : List Call) :
    c.recordAll options (⟨k, form⟩ :: calls) = c'.recordAll options calls := by
  simp [Config.recordAll, h]

/-- After a block that is refused, recording goes on from the configuration that it leaves, and its
errors come first. -/
theorem recordAll_cons_of_error {k : BlockKind} {form : Form} {c' : Config}
    {faults : List Diagnostic} (h : k.read options c form = (c', .error faults))
    (calls : List Call) :
    c.recordAll options (⟨k, form⟩ :: calls) =
      ((c'.recordAll options calls).1, faults ++ (c'.recordAll options calls).2) := by
  simp [Config.recordAll, h]

/-- What can be seen of a configuration after recording without errors, when it is known what every
block that is recorded adds to it. -/
theorem recordAll_view {α : Type} (view : Config → α) (add : α → Call → α)
    (hadd : ∀ c c' call, c.Records call.kind call.form c' → view c' = add (view c) call)
    (hcalls : ∀ call ∈ calls,
      call.kind ∈ Registry.builtinKinds ∧ call.form.Fits call.kind.policy)
    (hok : (c.recordAll options calls).2 = []) :
    view (c.recordAll options calls).1 = calls.foldl add (view c) := by
  induction calls generalizing c with
  | nil => rfl
  | cons call calls ih =>
    obtain ⟨kind, form⟩ := call
    obtain ⟨hkind, hfit⟩ := hcalls ⟨kind, form⟩ List.mem_cons_self
    rcases settled_read hkind options c form with ⟨c', hread⟩ | ⟨faults, hne, hread⟩
    · rw [recordAll_cons_of_ok hread] at hok ⊢
      rw [ih (fun call hcall => hcalls call (List.mem_cons_of_mem _ hcall)) hok,
        hadd c c' ⟨kind, form⟩ (records_of_read hkind hfit hread)]
      rfl
    · -- a block that is refused leaves an error behind
      rw [recordAll_cons_of_error hread] at hok
      exact (hne (List.append_eq_nil_iff.1 hok).1).elim

/-- A list that every block adds entries to. -/
theorem recordAll_list {β : Type} (view : Config → List β) (gain : Call → List β)
    (hgain : ∀ c c' call, c.Records call.kind call.form c' → view c' = view c ++ gain call)
    (hcalls : ∀ call ∈ calls,
      call.kind ∈ Registry.builtinKinds ∧ call.form.Fits call.kind.policy)
    (hok : (c.recordAll options calls).2 = []) :
    view (c.recordAll options calls).1 = view c ++ calls.flatMap gain := by
  have hfold : ∀ (calls : List Call) (entries : List β),
      calls.foldl (fun entries call => entries ++ gain call) entries =
        entries ++ calls.flatMap gain := by
    intro calls
    induction calls with
    | nil => simp
    | cons call calls ih => simp [ih]
  rw [recordAll_view view (fun entries call => entries ++ gain call) hgain hcalls hok, hfold]

/-- A flag that some blocks set. -/
theorem recordAll_flag (view : Config → Bool) (sets : Call → Bool)
    (hsets : ∀ c c' call, c.Records call.kind call.form c' → view c' = (view c || sets call))
    (hcalls : ∀ call ∈ calls,
      call.kind ∈ Registry.builtinKinds ∧ call.form.Fits call.kind.policy)
    (hok : (c.recordAll options calls).2 = []) :
    view (c.recordAll options calls).1 = (view c || calls.any sets) := by
  have hfold : ∀ (calls : List Call) (flag : Bool),
      calls.foldl (fun flag call => flag || sets call) flag = (flag || calls.any sets) := by
    intro calls
    induction calls with
    | nil => simp
    | cons call calls ih => simp [ih, Bool.or_assoc]
  rw [recordAll_view view (fun flag call => flag || sets call) hsets hcalls hok, hfold]

end RecordAll

end ScopeConfig
