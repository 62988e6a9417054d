import ScopeConfig.Proofs.Path.Joined
import ScopeConfig.Proofs.Project.FileTree

/-!
# What a project holds

A project is made of files and then takes more of them, one call after the other. The calls that
count are the last one that made the project and those after it. Whatever spellings they use, the
project answers by normal forms: it has the text that was stored last under a path with the same
normal form, and it lists normal forms of stored paths, each once and in order.

## Main statements

* `Holds`: what every call keeps true of a project and the files stored in it.
* `holds_after`: it is true after any calls.
* `answers_by_normal_form`: the laws of normal forms, and what a project answers after any calls.
-/

namespace ScopeConfig.FileTree

/-! ## Calls -/

/-- A call on a project: making it of files, or storing one more. -/
inductive Call where
  | new (files : List (Path × String))
  | insert (p : Path) (text : String)

namespace Call

/-- The project after a call. -/
def apply (t : FileTree) : Call → FileTree
  | new files => ofList files
  | insert p text => t.insert p text

/-- The files stored in the project after a call, in the order in which they came. -/
def record (stored : List (Path × String)) : Call → List (Path × String)
  | new files => files
  | insert p text => stored ++ [(p, text)]

end Call

/-- The project after calls. -/
def after (calls : List Call) : FileTree :=
  calls.foldl Call.apply empty

/-- The files that calls stored in the project, in the order in which they came. -/
def stored (calls : List Call) : List (Path × String) :=
  calls.foldl Call.record []

/-! ## The text stored last -/

/-- The text that was stored last under a path with the normal form `p`. -/
def lastStored? (stored : List (Path × String)) (p : Path) : Option String :=
  (stored.reverse.find? (·.1.normalize = p)).map (·.2)

section LastStored

variable {files : List (Path × String)} {p q : Path} {text : String}

/-- One more file at the end is what was stored last under its normal form. -/
theorem lastStored?_append :
    lastStored? (files ++ [(q, text)]) p =
      if q.normalize = p then some text else lastStored? files p := by
  by_cases hp : q.normalize = p <;> simp [lastStored?, hp]

/-- A text was stored last under a path exactly if it was stored under a spelling of it and no later
file was. -/
theorem lastStored?_eq_some_iff :
    lastStored? files p = some text ↔
      ∃ before q after, files = before ++ (q, text) :: after ∧ q.normalize = p ∧
        ∀ file ∈ after, file.1.normalize ≠ p := by
  rw [lastStored?, Option.map_eq_some_iff]
  constructor
  · rintro ⟨⟨q, _⟩, hfind, rfl⟩
    obtain ⟨hq, after, before, hfiles, hafter⟩ := List.find?_eq_some_iff_append.1 hfind
    refine ⟨before.reverse, q, after.reverse, ?_, by simpa using hq, by simpa using hafter⟩
    simp [← List.reverse_inj, hfiles]
  · rintro ⟨before, q, after, rfl, hq, hafter⟩
    refine ⟨(q, text), List.find?_eq_some_iff_append.2 ⟨by simpa using hq, after.reverse,
      before.reverse, by simp, by simpa using hafter⟩, rfl⟩

/-- Something was stored under a path exactly if a file has a spelling of it. -/
theorem isSome_lastStored?_iff :
    (lastStored? files p).isSome = true ↔ ∃ file ∈ files, file.1.normalize = p := by
  simp [lastStored?]

end LastStored

/-! ## What a call does to a project -/

/-- After a text was stored it is found under its path, and the other paths find what they found. -/
theorem find?_store (p q : Path) (text : String) (files : List (Path × String)) :
    (store p text files).find? (·.1 = q) =
      if p = q then some (p, text) else files.find? (·.1 = q) := by
  induction files with
  | nil => by_cases hq : p = q <;> simp [store, hq]
  | cons file files ih =>
    obtain ⟨r, old⟩ := file
    rw [store]
    split
    · by_cases hq : p = q <;> simp [hq]
    · rename_i heq
      obtain rfl := Path.eq_of_compare heq
      by_cases hq : p = q <;> simp [hq]
    · rename_i hgt
      -- the new file goes further back, past one with another path
      have hne : p ≠ r := by
        rintro rfl
        have hself : p.compare p = .eq :=
          (inferInstance : Std.ReflCmp Path.compare).compare_self
        rw [hself] at hgt
        cases hgt
      by_cases hr : r = q
      · subst hr
        simp [hne]
      · simp [hr, ih]

/-- After an insertion the normal form finds the text, and the other paths find what they found. -/
theorem lookup_insert (t : FileTree) (p q : Path) (text : String) :
    (t.insert p text).lookup q = if p.normalize = q then some text else t.lookup q := by
  rw [lookup, insert, find?_store]
  split <;> rfl

/-- A path is stored exactly if it finds a text. -/
theorem mem_paths_iff_isSome_lookup {t : FileTree} {p : Path} :
    p ∈ t.paths ↔ (t.lookup p).isSome = true := by
  simp [paths, lookup]

/-- A project holds its files in path order, and of each normal form the text that was stored
last. -/
structure Holds (t : FileTree) (stored : List (Path × String)) : Prop where
  sorted : Sorted t.files
  lookup : ∀ p, t.lookup p = lastStored? stored p

namespace Holds

variable {t : FileTree} {files : List (Path × String)}

theorem empty : Holds FileTree.empty [] :=
  ⟨.nil, fun _ => rfl⟩

theorem insert (h : Holds t files) (p : Path) (text : String) :
    Holds (t.insert p text) (files ++ [(p, text)]) :=
  ⟨sorted_store h.sorted, fun q => by rw [lookup_insert, lastStored?_append, h.lookup]⟩

theorem ofList (files : List (Path × String)) : Holds (ofList files) files := by
  have hmore : ∀ more t stored, Holds t stored →
      Holds (more.foldl (fun t file => t.insert file.1 file.2) t) (stored ++ more) := by
    intro more
    induction more with
    | nil => intro t stored h; simpa using h
    | cons file more ih =>
      intro t stored h
      simpa using ih _ _ (h.insert file.1 file.2)
  exact hmore files _ _ .empty

/-- A project holds what was stored in it after one more call. -/
theorem apply (h : Holds t files) (call : Call) : Holds (call.apply t) (call.record files) := by
  cases call with
  | new files => exact .ofList files
  | insert p text => exact h.insert p text

/-- The stored paths are the normal forms of the paths of the files. -/
theorem mem_paths_iff (h : Holds t files) {p : Path} :
    p ∈ t.paths ↔ ∃ file ∈ files, file.1.normalize = p := by
  rw [mem_paths_iff_isSome_lookup, h.lookup, isSome_lastStored?_iff]

/-- A part of the paths of a project stands in path order, and is made of normal forms of stored
paths. -/
theorem filter_paths (h : Holds t files) (keep : Path → Bool) :
    ((t.paths.filter keep).Pairwise fun p q => p.compare q = .lt) ∧
      ∀ p ∈ t.paths.filter keep, ∃ file ∈ files, file.1.normalize = p :=
  ⟨List.Pairwise.filter _ h.sorted, fun _ hp => h.mem_paths_iff.1 (List.mem_filter.1 hp).1⟩

end Holds

/-- After any calls, the project holds what they stored in it: by induction on the calls, from any
project before them. -/
theorem holds_after (calls : List Call) : Holds (after calls) (stored calls) := by
  have hmore : ∀ t files, Holds t files →
      Holds (calls.foldl Call.apply t) (calls.foldl Call.record files) := by
    induction calls with
    | nil => exact fun t files h => h
    | cons call calls ih => exact fun t files h => ih _ _ (h.apply call)
  exact hmore _ _ .empty

/-! ## What a project answers -/

/-- A path reads as a text exactly if its normal form finds it. -/
theorem read_eq_ok_iff {t : FileTree} {p : Path} {text : String} :
    t.read p = .ok text ↔ t.lookup p.normalize = some text := by
  unfold read readNormal
  split <;> simp_all

/-- A normal form is its own normal form; the base of a joined path may be normalized first; and the
steps of a normal form climb first, unless the path is rooted, and then go along names, so that none
of them stays where it is. A project that was made and added to by any calls sees paths by their
normal forms only. Under a path it reads the text that was stored last under any path with the same
normal form, it has a file where it can read one, and the files that it lists, in a directory or for
a pattern, stand in path order, each once, and are normal forms of stored paths. -/
theorem answers_by_normal_form (p q : Path) (calls : List Call) :
    p.normalize.normalize = p.normalize ∧
      (p.join q).normalize = (p.normalize.join q).normalize ∧
      (∃ (climbs : Nat) (names : List String),
        p.normalize.steps = List.replicate climbs .up ++ names.map .name ∧
          (p.rooted = true → climbs = 0)) ∧
      let t := after calls
      (∀ text, t.read p = .ok text ↔ ∃ before r rest, stored calls = before ++ (r, text) :: rest ∧
        r.normalize = p.normalize ∧ ∀ file ∈ rest, file.1.normalize ≠ p.normalize) ∧
      (t.isFile p = true ↔ ∃ text, t.read p = .ok text) ∧
      (((t.list p).Pairwise fun f g => f.compare g = .lt) ∧
        ∀ f ∈ t.list p, ∃ file ∈ stored calls, file.1.normalize = f) ∧
      ∀ pattern, ((t.glob pattern).Pairwise fun f g => f.compare g = .lt) ∧
        ∀ f ∈ t.glob pattern, ∃ file ∈ stored calls, file.1.normalize = f := by
  have h := holds_after calls
  refine ⟨p.normalize_normalize, (Path.normalize_join_normalize p q).symm,
    Path.isNormal_iff.1 p.isNormal_normalize, fun text => ?_, ?_, h.filter_paths _,
    fun pattern => h.filter_paths _⟩
  · rw [read_eq_ok_iff, h.lookup, lastStored?_eq_some_iff]
  · simp only [read_eq_ok_iff, isFile, Option.isSome_iff_exists]

end ScopeConfig.FileTree
