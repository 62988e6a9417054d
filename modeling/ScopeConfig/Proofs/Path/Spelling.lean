import ScopeConfig.Proofs.Path.Normal

/-!
# The spelling of rooted paths

A step that is read from text is read again from its own spelling, and its spelling holds no slash.
A rooted path is spelled by its steps, each after a slash, so its steps are found again in its
spelling, and the spelling of a directory with a slash after it is the front of the spellings of the
paths below that directory and of no others.

## Main statements

* `isSpelled_ofText`, `IsSpelled.normalize`: paths that are read from text, and their normal forms,
  have steps that are read from their own spelling.
* `IsSpelled.eq_of_text`: such paths are told apart by their spelling.
* `toList_text_eq_append_iff`: the rooted paths whose spelling starts with that of a directory.
-/

namespace ScopeConfig

namespace Step

/-- A step that is read from its own spelling. -/
structure Spelled (s : Step) : Prop where
  slash : '/' ∉ s.text.toList
  read : ofPart s.text.toList = some s

/-- A step is spelled as the part that it stands for. -/
theorem text_of_ofPart {part : List Char} {s : Step} (h : ofPart part = some s) :
    s.text.toList = part := by
  unfold ofPart at h
  split at h
  case h_1 => simp at h
  all_goals
    cases h
    simp [text]

/-- The step that a part without slashes stands for is read from its own spelling. -/
theorem spelled_of_ofPart {part : List Char} {s : Step} (h : ofPart part = some s)
    (hslash : '/' ∉ part) : s.Spelled := by
  have htext := text_of_ofPart h
  constructor
  · rwa [htext]
  · rwa [htext]

/-- Steps, each after a slash. -/
def slashed (steps : List Step) : List Char :=
  steps.flatMap fun s => '/' :: s.text.toList

theorem slashed_append (steps steps' : List Step) :
    slashed (steps ++ steps') = slashed steps ++ slashed steps' :=
  List.flatMap_append

theorem slashed_cons (s : Step) (steps : List Step) :
    slashed (s :: steps) = '/' :: (s.text.toList ++ slashed steps) :=
  rfl

/-- Steps with slashes between them and one more in front. -/
theorem slashed_of_ne_nil {steps : List Step} (h : steps ≠ []) :
    slashed steps = '/' :: ['/'].intercalate (steps.map (·.text.toList)) := by
  induction steps with
  | nil => exact absurd rfl h
  | cons s steps ih =>
    rw [slashed_cons]
    by_cases hlast : steps = []
    · subst hlast
      simp [slashed, List.intercalate]
    · obtain ⟨next, more, rfl⟩ := List.exists_cons_of_ne_nil hlast
      rw [ih hlast]
      simp [List.intercalate_cons_cons]

section Spelled

variable {steps : List Step}

/-- Steps are found again in their spelling. -/
theorem splitAt_slashed (h : ∀ s ∈ steps, s.Spelled) {back : List Char}
    {pieces : List (List Char)} (hback : Text.splitAt '/' back = [] :: pieces) :
    Text.splitAt '/' (slashed steps ++ back) = [] :: (steps.map (·.text.toList) ++ pieces) := by
  induction steps with
  | nil => exact hback
  | cons s steps ih =>
    rw [List.forall_mem_cons] at h
    have hsplit := Text.splitAt_append h.1.slash (ih h.2)
    rw [slashed_cons, List.cons_append, List.append_assoc, Text.splitAt_sep, hsplit,
      List.append_nil]
    rfl

/-- Steps are read back from their spellings. -/
theorem filterMap_ofPart (h : ∀ s ∈ steps, s.Spelled) :
    (steps.map (·.text.toList)).filterMap ofPart = steps := by
  induction steps with
  | nil => rfl
  | cons s steps ih =>
    rw [List.forall_mem_cons] at h
    rw [List.map_cons, List.filterMap_cons_some h.1.read, ih h.2]

/-- The spelling of steps does not end with a slash. -/
theorem exists_last_of_slashed (h : ∀ s ∈ steps, s.Spelled) (hne : steps ≠ []) :
    ∃ front c, slashed steps = front ++ [c] ∧ c ≠ '/' := by
  obtain ⟨first, s, rfl⟩ := (List.eq_nil_or_concat steps).resolve_left hne
  have hs : s.Spelled := h s (by simp)
  have htext : s.text.toList ≠ [] := by
    intro hnil
    simpa [hnil, ofPart] using hs.read
  obtain ⟨text, c, hlast⟩ := (List.eq_nil_or_concat s.text.toList).resolve_left htext
  refine ⟨slashed first ++ '/' :: text, c, ?_, ?_⟩
  · rw [List.concat_eq_append, slashed_append, slashed_cons, hlast]
    simp [slashed]
  · rintro rfl
    exact hs.slash (by simp [hlast])

/-- Steps with slashes between them are told apart by their spelling. -/
theorem eq_of_intercalate_text {steps' : List Step} (h : ∀ s ∈ steps, s.Spelled)
    (h' : ∀ s ∈ steps', s.Spelled)
    (heq : ['/'].intercalate (steps.map (·.text.toList)) =
      ['/'].intercalate (steps'.map (·.text.toList))) : steps = steps' := by
  -- no steps but the empty ones have an empty spelling
  have hnil : ∀ {more : List Step}, (∀ s ∈ more, s.Spelled) →
      ['/'].intercalate (more.map (·.text.toList)) = [] → more = [] := by
    intro more hmore hempty
    refine Classical.byContradiction fun hne => ?_
    obtain ⟨front, c, hlast, hc⟩ := exists_last_of_slashed hmore hne
    rw [slashed_of_ne_nil hne, hempty] at hlast
    cases front with
    | nil => exact hc (List.cons.inj hlast).1.symm
    | cons d front => simp at hlast
  by_cases hne : steps = []
  · subst hne
    exact (hnil h' heq.symm).symm
  · have hne' : steps' ≠ [] := by
      rintro rfl
      exact hne (hnil h heq)
    have hslashed : slashed steps = slashed steps' := by
      rw [slashed_of_ne_nil hne, slashed_of_ne_nil hne', heq]
    have hread : ∀ {more : List Step}, (∀ s ∈ more, s.Spelled) →
        Text.splitAt '/' (slashed more) = [] :: more.map (·.text.toList) := by
      intro more hmore
      simpa using splitAt_slashed hmore (show Text.splitAt '/' [] = [] :: [] from rfl)
    have htexts := (hread h).symm.trans ((congrArg _ hslashed).trans (hread h'))
    rw [← filterMap_ofPart h, (List.cons.inj htexts).2, filterMap_ofPart h']

/-- The spelling of steps starts with that of other steps and a slash if it goes on from them. -/
theorem slashed_eq_append_iff (h : ∀ s ∈ steps, s.Spelled) {front : List Step}
    (hfront : ∀ s ∈ front, s.Spelled) {tail : List Char} :
    slashed steps = slashed front ++ '/' :: tail ↔
      ∃ back, back ≠ [] ∧ steps = front ++ back ∧
        ['/'].intercalate (back.map (·.text.toList)) = tail := by
  constructor
  · intro heq
    -- both sides are cut at their slashes
    have hleft := splitAt_slashed h (show Text.splitAt '/' [] = [] :: [] from rfl)
    have hright := splitAt_slashed hfront (Text.splitAt_sep '/' tail)
    rw [List.append_nil, heq, hright, List.append_nil, List.cons.injEq] at hleft
    obtain ⟨first, back, rfl, hfirst, hback⟩ := List.map_eq_append_iff.1 hleft.2.symm
    obtain rfl : first = front := by
      rw [← filterMap_ofPart fun s hs => h s (List.mem_append_left back hs), hfirst,
        filterMap_ofPart hfront]
    refine ⟨back, ?_, rfl, ?_⟩
    · rintro rfl
      exact absurd hback.symm (Text.splitAt_ne_nil '/' tail)
    · rw [hback, Text.intercalate_splitAt]
  · rintro ⟨back, hne, rfl, rfl⟩
    rw [slashed_append, slashed_of_ne_nil hne]

end Spelled

end Step

namespace Path

open Step

/-- A path whose steps are read from their own spelling. -/
def IsSpelled (p : Path) : Prop :=
  ∀ s ∈ p.steps, s.Spelled

/-- Every path that is read from a text has steps that are read from their own spelling. -/
theorem isSpelled_ofText (s : String) : (ofText s).IsSpelled := by
  have hread : ∀ step ∈ (Text.splitAt '/' s.toList).filterMap ofPart, step.Spelled := by
    intro step hstep
    obtain ⟨part, hpart, hstep⟩ := List.mem_filterMap.1 hstep
    exact spelled_of_ofPart hstep (Text.not_mem_of_mem_splitAt hpart)
  intro step hstep
  refine hread step ?_
  unfold ofText at hstep
  dsimp only at hstep
  split at hstep
  · exact (List.mem_filter.1 hstep).1
  · split at hstep
    · rename_i rest hrest
      rw [hrest]
      rcases List.mem_cons.1 hstep with rfl | hstep
      · exact List.mem_cons_self
      · exact List.mem_cons_of_mem _ (List.mem_filter.1 hstep).1
    · exact (List.mem_filter.1 hstep).1

/-- The path that some steps and more text after a slash spell. -/
theorem ofText_slashed_append {steps : List Step} (hsteps : ∀ s ∈ steps, s.Spelled)
    (hhere : Step.here ∉ steps) (rest : List Char) :
    ofText (String.ofList (slashed steps ++ '/' :: rest)) =
      ⟨true, steps ++ ((Text.splitAt '/' rest).filterMap ofPart).filter (· ≠ .here)⟩ := by
  obtain ⟨tail, htail⟩ : ∃ tail, slashed steps ++ '/' :: rest = '/' :: tail := by
    cases steps with
    | nil => exact ⟨rest, rfl⟩
    | cons s steps => exact ⟨_, rfl⟩
  have hsplit := splitAt_slashed hsteps (Text.splitAt_sep '/' rest)
  have hkept : steps.filter (· ≠ .here) = steps :=
    List.filter_eq_self.2 fun s hs => by simpa using fun heq : s = .here => hhere (heq ▸ hs)
  unfold ofText
  dsimp only
  rw [String.toList_ofList, hsplit, List.filterMap_cons_none (by rfl), List.filterMap_append,
    filterMap_ofPart hsteps, List.filter_append, hkept]
  split
  · rfl
  · rename_i h
    exact (h tail htail).elim

/-- A path that is read from a text is rooted exactly if the text begins with a slash. -/
theorem rooted_ofText (s : String) :
    (ofText s).rooted = true ↔ s.toList.head? = some '/' := by
  unfold ofText
  dsimp only
  split
  · rename_i h
    simp [h]
  · rename_i h
    have hhead : s.toList.head? ≠ some '/' := by
      intro hhead
      obtain ⟨rest, hrest⟩ := List.head?_eq_some_iff.1 hhead
      exact h rest hrest
    split <;> simp [hhead]

/-- Pushing steps makes no new ones. -/
theorem mem_foldl_pushStep {rooted : Bool} {s : Step} {taken steps : List Step}
    (h : s ∈ steps.foldl (pushStep rooted) taken) : s ∈ taken ∨ s ∈ steps := by
  induction steps generalizing taken with
  | nil => exact .inl h
  | cons step steps ih =>
    rcases ih h with hs | hs
    · have hpush : s ∈ taken ∨ s = step := by
        unfold pushStep at hs
        split at hs
        · exact .inl hs
        · exact (List.mem_cons.1 hs).symm
        · split at hs
          · exact .inl (List.mem_cons_of_mem _ hs)
          · split at hs
            · exact .inl hs
            · exact .inr (List.mem_singleton.1 hs)
          · exact (List.mem_cons.1 hs).symm
      refine hpush.imp_right fun hs => ?_
      rw [hs]
      exact List.mem_cons_self
    · exact .inr (List.mem_cons_of_mem _ hs)

/-- Normalizing keeps every step one that is read from its own spelling. -/
theorem IsSpelled.normalize {p : Path} (h : p.IsSpelled) : p.normalize.IsSpelled := by
  intro s hs
  rcases mem_foldl_pushStep (List.mem_reverse.1 hs) with hs | hs
  · exact absurd hs List.not_mem_nil
  · exact h s hs

/-! ## Spellings -/

section Spelling

variable {p : Path}

/-- A rooted path with steps is spelled as its steps, each after a slash. -/
theorem toList_text_of_steps_ne_nil (hrooted : p.rooted = true) (h : p.steps ≠ []) :
    p.text.toList = slashed p.steps := by
  rw [slashed_of_ne_nil h, text, hrooted]
  simp [Function.comp_def]

/-- The root is spelled as a slash. -/
theorem toList_text_of_steps_nil (hrooted : p.rooted = true) (h : p.steps = []) :
    p.text.toList = ['/'] := by
  rw [text, hrooted, h]
  simp

/-- A path that is not rooted is spelled as its steps, set apart by slashes. -/
theorem toList_text_of_not_rooted (h : p.rooted = false) :
    p.text.toList = ['/'].intercalate (p.steps.map (·.text.toList)) := by
  rw [text, h]
  simp [Function.comp_def]

/-- The spelling of a path that is not rooted does not start with a slash. -/
theorem head?_text_of_not_rooted (h : p.rooted = false) (hp : p.IsSpelled) :
    p.text.toList.head? ≠ some '/' := by
  rw [toList_text_of_not_rooted h]
  intro hhead
  cases hsteps : p.steps with
  | nil => simp [hsteps] at hhead
  | cons s steps =>
    have hs : s.Spelled := hp s (hsteps ▸ List.mem_cons_self)
    -- the first step is not empty, and no slash stands in it
    cases htext : s.text.toList with
    | nil => simpa [htext, ofPart] using hs.read
    | cons c cs =>
      have hslash := hs.slash
      cases steps <;> simp_all [List.intercalate]

/-- Paths that are spelled alike are the same. -/
theorem IsSpelled.eq_of_text {q : Path} (hp : p.IsSpelled) (hq : q.IsSpelled)
    (h : p.text = q.text) : p = q := by
  have htext : ∀ r : Path, r.text.toList = (if r.rooted then ['/'] else []) ++
      ['/'].intercalate (r.steps.map (·.text.toList)) := by
    intro r
    rw [text]
    split <;> simp [Function.comp_def]
  -- the first character tells whether a path is rooted
  have hrooted : p.rooted = q.rooted := by
    cases hproot : p.rooted with
    | true =>
      have hhead : q.text.toList.head? = some '/' := by
        rw [← h, htext p, hproot]
        rfl
      cases hqroot : q.rooted with
      | true => rfl
      | false => exact (head?_text_of_not_rooted hqroot hq hhead).elim
    | false =>
      cases hqroot : q.rooted with
      | false => rfl
      | true =>
        refine (head?_text_of_not_rooted hproot hp ?_).elim
        rw [h, htext q, hqroot]
        rfl
  -- and the rest of the text tells the steps
  have hsteps := congrArg String.toList h
  rw [htext p, htext q, hrooted, List.append_cancel_left_eq] at hsteps
  have hsame : p.steps = q.steps := eq_of_intercalate_text hp hq hsteps
  obtain ⟨rooted, steps⟩ := p
  obtain rfl : rooted = q.rooted := hrooted
  obtain rfl : steps = q.steps := hsame
  rfl

/-- The only path without a root and without steps is the empty one. -/
theorem eq_empty_iff (h : p.rooted = false) : p = empty ↔ p.steps = [] := by
  cases p
  simp_all [empty]

/-- The spelling of a rooted path starts with some steps and a slash if the path starts with the
steps and goes on. Only the root is spelled by a slash and nothing after it. -/
theorem toList_text_eq_append_iff (hrooted : p.rooted = true) (hp : p.IsSpelled)
    {steps : List Step} (hsteps : ∀ s ∈ steps, s.Spelled) {tail : List Char} :
    p.text.toList = slashed steps ++ '/' :: tail ↔
      ∃ q : Path, q.rooted = false ∧ (q = empty → steps = []) ∧ p.steps = steps ++ q.steps ∧
        q.text.toList = tail := by
  -- the root is spelled with a slash although it has no steps
  by_cases hroot : p.steps = []
  · rw [toList_text_of_steps_nil hrooted hroot, hroot]
    constructor
    · intro h
      have hlength := congrArg List.length h
      simp only [List.length_append, List.length_cons, List.length_nil] at hlength
      obtain rfl : tail = [] := List.eq_nil_of_length_eq_zero (by omega)
      have hnil : slashed steps = [] := List.eq_nil_of_length_eq_zero (by omega)
      have hnone : steps = [] := by
        cases steps with
        | nil => rfl
        | cons s steps => simp [slashed_cons] at hnil
      exact ⟨empty, rfl, fun _ => hnone, by simp [hnone, empty], by simp [text, empty]⟩
    · rintro ⟨q, hq, -, heq, rfl⟩
      obtain ⟨rfl, hnil⟩ := List.append_eq_nil_iff.1 heq.symm
      rw [toList_text_of_not_rooted hq, hnil]
      rfl
  · rw [toList_text_of_steps_ne_nil hrooted hroot, slashed_eq_append_iff hp hsteps]
    constructor
    · rintro ⟨back, hne, heq, htail⟩
      have hq : (⟨false, back⟩ : Path).rooted = false := rfl
      exact ⟨⟨false, back⟩, hq, fun hempty => absurd ((eq_empty_iff hq).1 hempty) hne, heq,
        (toList_text_of_not_rooted hq).trans htail⟩
    · rintro ⟨q, hq, hempty, heq, htail⟩
      refine ⟨q.steps, fun hnil => hroot ?_, heq, (toList_text_of_not_rooted hq).symm.trans htail⟩
      rw [heq, hempty ((eq_empty_iff hq).2 hnil), hnil]
      rfl

end Spelling

end Path

end ScopeConfig
