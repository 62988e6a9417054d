import ScopeConfig.Proofs.Config.Acceptance

/-!
# A block is recorded whole or refused

A kind that is given a block in the form that its policy calls for either records it, as one entry
at the end of its own field, or refuses it with at least one error and leaves the configuration as
it was. So an error is there whenever a block is not, and blocks are recorded without errors exactly
when each of them is accepted where its turn comes.

## Main statements

* `recordAll_ok_iff_accepts`: when blocks are recorded without errors.
* `builtin_all_or_nothing`: what a kind does with a block.
-/

namespace ScopeConfig

open Syntax Blocks

/-! ## The other form -/

/-- A kind does nothing with a block that is not in the form that its policy calls for. -/
theorem read_of_not_fits {k : BlockKind} (hk : k ∈ Registry.builtinKinds) {options : Options}
    {c : Config} {form : Form} (h : ¬form.Fits k.policy) :
    k.read options c form = (c, .ok ()) := by
  simp only [Registry.builtinKinds, List.mem_cons, List.not_mem_nil, or_false] at hk
  cases form with
  | raw b =>
    rcases hk with rfl | rfl | rfl | rfl | rfl | rfl | rfl | rfl | rfl | rfl
    · rfl
    · rfl
    all_goals exact (h (by simp [Form.Fits, stackKind, scriptKind, backendKind, inputKind,
      outputKind, assertKind, hclKind, fileKind])).elim
  | merged m =>
    rcases hk with rfl | rfl | rfl | rfl | rfl | rfl | rfl | rfl | rfl | rfl
    · exact (h rfl).elim
    · exact (h rfl).elim
    all_goals rfl

/-! ## Checks at the end -/

/-- A list of errors that is a failure is not empty. -/
theorem ne_nil_of_toResult {ds faults : List Diagnostic}
    (h : Diagnostic.toResult ds = .error faults) : faults ≠ [] := by
  unfold Diagnostic.toResult at h
  split at h
  · cases h
  · rename_i hne
    obtain rfl := Except.error.inj h
    simpa using hne

/-- A check that fails says why. -/
theorem ne_nil_of_check {k : BlockKind} (hk : k ∈ Registry.builtinKinds) {options : Options}
    {c : Config} {faults : List Diagnostic} (h : k.check options c = .error faults) :
    faults ≠ [] := by
  simp only [Registry.builtinKinds, List.mem_cons, List.not_mem_nil, or_false] at hk
  rcases hk with rfl | rfl | rfl | rfl | rfl | rfl | rfl | rfl | rfl | rfl
  · cases h
  · cases h
  · cases h
  · cases h
  · exact ne_nil_of_toResult h
  · exact ne_nil_of_toResult h
  · exact ne_nil_of_toResult h
  · cases h
  · exact ne_nil_of_toResult h
  · cases h

/-! ## All blocks -/

section RecordAll

variable {options : Options} {c c' : Config} {k : BlockKind} {form : Form}
  {faults : List Diagnostic}

/-- One block that is recorded leaves no errors. -/
theorem recordAll_singleton_of_ok (h : k.read options c form = (c', .ok ())) :
    c.recordAll options [⟨k, form⟩] = (c', []) := by
  simp [Config.recordAll, h]

/-- One block that is refused leaves its errors. -/
theorem recordAll_singleton_of_error (h : k.read options c form = (c', .error faults)) :
    c.recordAll options [⟨k, form⟩] = (c', faults) := by
  simp [Config.recordAll, h]

/-- Blocks are recorded without errors when each is accepted by the configuration that the blocks
before it leave: by induction on the blocks, where one that is refused leaves an error behind. -/
theorem recordAll_ok_iff_accepts {calls : List Call}
    (hcalls : ∀ call ∈ calls, call.kind ∈ Registry.builtinKinds) :
    (c.recordAll options calls).2 = [] ↔ ∀ before call after, calls = before ++ call :: after →
      call.kind.Accepts options (c.recordAll options before).1 call.form := by
  induction calls generalizing c with
  | nil => simp [Config.recordAll]
  | cons first calls ih =>
    obtain ⟨kind, form⟩ := first
    have hkind := hcalls ⟨kind, form⟩ List.mem_cons_self
    replace ih := fun c => ih (c := c) fun call hcall => hcalls call (List.mem_cons_of_mem _ hcall)
    -- a block is recorded, and the rest begins from what it left, or it is refused with an error
    rcases settled_read hkind options c form with ⟨c', hread⟩ | ⟨faults, hne, hread⟩
    · have hrest : ∀ before, (c.recordAll options (⟨kind, form⟩ :: before)).1 =
          (c'.recordAll options before).1 := fun before => by rw [recordAll_cons_of_ok hread]
      rw [recordAll_cons_of_ok hread, ih c']
      constructor
      · intro h before call after heq
        cases before with
        | nil =>
          obtain ⟨rfl, -⟩ := List.cons_eq_cons.1 heq
          exact ⟨c', hread⟩
        | cons b before =>
          obtain ⟨rfl, htail⟩ := List.cons_eq_cons.1 heq
          rw [hrest]
          exact h before call after htail
      · intro h before call after heq
        rw [← hrest]
        exact h (⟨kind, form⟩ :: before) call after (by rw [heq, List.cons_append])
    · constructor
      · intro h
        rw [recordAll_cons_of_error hread, List.append_eq_nil_iff] at h
        exact (hne h.1).elim
      · intro h
        obtain ⟨c', hok⟩ := h [] ⟨kind, form⟩ calls rfl
        rw [Config.recordAll, hread] at hok
        cases hok

end RecordAll

/-! ## One kind -/

/-- What a kind does with a block. In the form that its policy calls for, the block is recorded or
refused. If it is recorded, the configuration differs in what `Config.Records` says and nothing
else, that is in the field of the kind: a list has one entry more, at its end, which has the range
of the block, or is the merged block with its origins; the stack and the settings of the project are
those of the block; and every job of a script is there. If it is refused, there is an error, and the
configuration stays as it was. A block in the other form is no failure and changes nothing. The
check of the kind at the end has an error too when it fails. So no failure is lost among the errors
of many blocks: these are recorded without errors exactly when each is accepted where its turn
comes. -/
theorem builtin_all_or_nothing {k : BlockKind} (hk : k ∈ Registry.builtinKinds)
    (options : Options) (c : Config) :
    (∀ form : Form, form.Fits k.policy →
      (∃ c', k.read options c form = (c', .ok ()) ∧ c.recordAll options [⟨k, form⟩] = (c', []) ∧
        c.Records k form c' ∧
        (∀ l : ListedKind, l.ranges c' = l.ranges c ++
          if k.name = l.kind.name then form.blocks.map Block.range else []) ∧
        c'.globals = c.globals ++ (if k.name = globalsKind.name then form.entities else []) ∧
        (∀ b, k = scriptKind → form = .raw b →
          (scriptOf b).jobs.map (·.range) = (b.blocks.filter isJob).map Block.range)) ∨
      ∃ faults, faults ≠ [] ∧ k.read options c form = (c, .error faults) ∧
        c.recordAll options [⟨k, form⟩] = (c, faults)) ∧
      (∀ form : Form, ¬form.Fits k.policy → k.read options c form = (c, .ok ())) ∧
      (∀ faults, k.check options c = .error faults → faults ≠ []) ∧
      ∀ calls : List Call, (∀ call ∈ calls, call.kind ∈ Registry.builtinKinds) →
        ((c.recordAll options calls).2 = [] ↔ ∀ before call after,
          calls = before ++ call :: after →
            call.kind.Accepts options (c.recordAll options before).1 call.form) := by
  refine ⟨fun form hfit => ?_, fun form => read_of_not_fits hk,
    fun faults hcheck => ne_nil_of_check hk hcheck, fun calls => recordAll_ok_iff_accepts⟩
  -- the block is recorded, and the record is the one of its kind, or it is refused with an error
  rcases settled_read hk options c form with ⟨c', hread⟩ | ⟨faults, hne, hread⟩
  · have hrecords := records_of_read hk hfit hread
    refine .inl ⟨c', hread, recordAll_singleton_of_ok hread, hrecords,
      fun l => l.ranges_of_records hrecords, hrecords.globals_eq, ?_⟩
    rintro b rfl rfl
    exact jobs_of_no_faults (scriptKind_read_ok hread).1
  · exact .inr ⟨faults, hne, hread, recordAll_singleton_of_error hread⟩

/-- Two assertions, the second without its message. -/
def halfAsserted : String :=
  "assert \x7b\n  assertion = true\n  message = \"m\"\n\x7d\n" ++
    "assert \x7b\n  assertion = true\n\x7d\n"

/-- The first of the two assertions is recorded, and the second is refused. -/
theorem read_halfAsserted :
    (Body.parse "/s/a.tm" halfAsserted).toOption.map (fun body => body.blocks.map fun b =>
        let (c, result) := assertKind.read ⟨.empty⟩ (Config.new .root) (.raw b)
        (c.asserts.length, result.toBool)) = some [(1, true), (0, false)] := by
  decide +kernel

/-- The first assertion is recorded, at its range; the second is refused with an error, and the
configuration stays as it was. -/
theorem builtin_all_or_nothing_halfAsserted :
    assertKind ∈ Registry.builtinKinds ∧ ∃ good bad : Block, ∃ c' faults,
      (Config.new .root).recordAll ⟨.empty⟩ [⟨assertKind, .raw good⟩] = (c', []) ∧
        c'.asserts.map (·.range) = [good.range] ∧ faults ≠ [] ∧
        (Config.new .root).recordAll ⟨.empty⟩ [⟨assertKind, .raw bad⟩] =
          (Config.new .root, faults) := by
  have hk : assertKind ∈ Registry.builtinKinds := by simp [Registry.builtinKinds]
  obtain ⟨body, -, hblocks⟩ := Option.map_eq_some_iff.1 read_halfAsserted
  obtain ⟨good, rest, hbody, hgood, hrest⟩ := List.map_eq_cons_iff.1 hblocks
  obtain ⟨bad, -, -, hbad, -⟩ := List.map_eq_cons_iff.1 hrest
  obtain ⟨hall, -⟩ := builtin_all_or_nothing hk ⟨.empty⟩ (Config.new .root)
  have hfit : ∀ b : Block, (Form.raw b).Fits assertKind.policy := fun b h => by cases h
  rcases hall (.raw good) (hfit good) with ⟨c', -, hrecorded, -, hranges, -⟩ | ⟨_, -, hread, -⟩
  · rcases hall (.raw bad) (hfit bad) with ⟨_, hread, -⟩ | ⟨faults, hne, -, hrefused⟩
    · simp [hread, Except.toBool] at hbad
    · exact ⟨hk, good, bad, c', faults, hrecorded, hranges .asserts, hne, hrefused⟩
  · simp [hread, Except.toBool] at hgood

end ScopeConfig
