import ScopeConfig.Import.Edge
import ScopeConfig.Proofs.Glob.Literal
import ScopeConfig.Proofs.Path.Course

/-!
# Where a source leads

The parts of a source lead up from a directory some number of times and then down along names. A
source with wildcards is turned into a pattern part by part, and one without is read as a path, seen
from the directory and put in normal form. Both start from the project root when the source starts
with a slash, but a source that goes on with a second slash is read as a path from the root of the
file system. The two ways then lead to the same place only if the source climbs out of the project
root to that root anyway.

## Main statements

* `patternParts_eq`, `toList_patternText`: the directory and the names in the pattern of a source.
* `literalPath_eq`: the path that a source without wildcards names.
* `literalPath_eq_patternPath_iff`: when the two are the same.
-/

namespace ScopeConfig.Import

open ScopeConfig.Path

/-! ## The parts of a source -/

/-- How often the parts of a source climb out of the directory they start from. -/
def climbs (source : String) : Nat :=
  (Step.course (Step.ofText source.toList)).1

/-- The names that a source goes down along after it has climbed. -/
def names (source : String) : List String :=
  (Step.course (Step.ofText source.toList)).2

/-- The names of a source with slashes between them. -/
def remainder (source : String) : String :=
  "/".intercalate (names source)

/-- Where a source leads from a directory. -/
def resolved (base : Path) (source : String) : Path :=
  (base.climb (climbs source)).descend (names source)

/-- The remainder of a source is its names, set apart by slashes. -/
theorem toList_remainder (source : String) :
    (remainder source).toList = ['/'].intercalate ((names source).map String.toList) :=
  String.toList_intercalate

/-- A name of a source is one of its parts. -/
theorem exists_part_of_mem_names {source s : String} (h : s ∈ names source) :
    s.toList ∈ Text.splitAt '/' source.toList ∧ (Step.name s).Spelled := by
  obtain ⟨part, hpart, hread⟩ := List.mem_filterMap.1 (Step.name_mem_of_mem_course h)
  have htext : s.toList = part := Step.text_of_ofPart hread
  exact ⟨htext ▸ hpart, Step.spelled_of_ofPart hread (Text.not_mem_of_mem_splitAt hpart)⟩

/-- A character of the remainder is a slash or a character of the source. -/
theorem mem_of_mem_remainder {source : String} {c : Char} (h : c ∈ (remainder source).toList) :
    c = '/' ∨ c ∈ source.toList := by
  rw [toList_remainder] at h
  refine (Text.mem_intercalate h).imp_right fun ⟨piece, hpiece, hc⟩ => ?_
  obtain ⟨s, hs, rfl⟩ := List.mem_map.1 hpiece
  exact Text.mem_of_mem_splitAt (exists_part_of_mem_names hs).1 hc

/-- The names are found again in their text. -/
theorem ofText_remainder (source : String) :
    Step.ofText (remainder source).toList = (names source).map Step.name := by
  have hspelled : ∀ s ∈ (names source).map Step.name, s.Spelled := by
    rw [List.forall_mem_map]
    exact fun s hs => (exists_part_of_mem_names hs).2
  have htexts : (names source).map String.toList =
      ((names source).map Step.name).map (·.text.toList) := by
    rw [List.map_map]
    rfl
  rw [toList_remainder, htexts, Step.ofText]
  by_cases hnone : (names source).map Step.name = []
  · rw [hnone]
    rfl
  · rw [Text.splitAt_intercalate (by simpa using hnone), Step.filterMap_ofPart hspelled]
    rw [List.forall_mem_map]
    exact fun s hs => (hspelled s hs).slash

/-! ## The pattern of a source -/

/-- One part is taken by the step that it stands for. -/
theorem takePart_eq (base : Path) (kept : List (List Char)) (part : List Char) :
    takePart base kept part =
      match Step.ofPart part with
      | none | some .here => (base, kept)
      | some .up => if kept = [] then (base.pop, []) else (base, kept.tail)
      | some (.name _) => (base, part :: kept) := by
  unfold takePart Step.ofPart
  split
  · rfl
  · rfl
  · cases kept <;> rfl
  · split <;> simp_all

/-- Parts that are taken one by one, the last first, lead where their course says: the parts that
are kept are climbed out of before the directory is. -/
theorem foldl_takePart (base : Path) (kept parts : List (List Char)) :
    parts.foldl (fun (base, kept) part => takePart base kept part) (base, kept) =
      (base.climb ((Step.course (parts.filterMap Step.ofPart)).1 - kept.length),
        ((Step.course (parts.filterMap Step.ofPart)).2.map String.toList).reverse ++
          kept.drop (Step.course (parts.filterMap Step.ofPart)).1) := by
  induction parts generalizing base kept with
  | nil => simp [Step.course, climb]
  | cons part parts ih =>
    rw [List.foldl_cons]
    dsimp only
    rw [takePart_eq]
    cases hpart : Step.ofPart part with
    | none => rw [List.filterMap_cons_none hpart, ih]
    | some s =>
      rw [List.filterMap_cons_some hpart]
      cases s with
      | here => rw [ih, Step.course]
      -- going up leaves the last part that was kept, and without one the directory
      | up =>
        rw [Step.course]
        cases kept with
        | nil => simp [ih, climb]
        | cons last kept => simp [ih]
      | name text =>
        have htext : text.toList = part := Step.text_of_ofPart hpart
        dsimp only
        rw [ih, Step.course]
        rcases hcourse : Step.course (parts.filterMap Step.ofPart) with ⟨_ | n, names⟩
        · simp [climb, htext]
        · simp

/-- The pattern of a source starts from the directory that the source has climbed to. -/
theorem patternParts_eq (base : Path) (source : String) :
    patternParts base source =
      (base.climb (climbs source), (names source).map String.toList) := by
  have hparts := foldl_takePart base [] (Text.splitAt '/' source.toList)
  rw [List.length_nil, Nat.sub_zero, List.drop_nil, List.append_nil] at hparts
  rw [patternParts, hparts]
  exact congrArg (Prod.mk _) (List.reverse_reverse _)

/-- No slash is dropped from the end of an escaped text that does not end with one. -/
theorem dropWhile_reverse_escaped {c : Char} (hc : c ≠ '/') (cs : List Char) :
    (Glob.escaped (cs ++ [c])).reverse.dropWhile (· = '/') =
      (Glob.escaped (cs ++ [c])).reverse := by
  have hnil : Glob.escaped [] = [] := rfl
  by_cases hescaped : Glob.isEscaped c = true
  · rw [Glob.escaped_append, Glob.escaped_cons_of_pos hescaped, hnil]
    simp
  · rw [Glob.escaped_append, Glob.escaped_cons_of_neg (by simpa using hescaped), hnil]
    simp [hc]

/-- A rooted path is spelled in front of the parts of a pattern by its steps, each after a slash,
the root by nothing. -/
theorem dropWhile_escape_text {p : Path} (hrooted : p.rooted = true) (hp : p.IsSpelled) :
    ((Glob.escape p.text).toList.reverse.dropWhile (· = '/')).reverse =
      Glob.escaped (Step.slashed p.steps) := by
  rw [Glob.toList_escape]
  by_cases hroot : p.steps = []
  · rw [toList_text_of_steps_nil hrooted hroot, hroot]
    decide
  · rw [toList_text_of_steps_ne_nil hrooted hroot]
    obtain ⟨front, c, hlast, hc⟩ := Step.exists_last_of_slashed hp hroot
    rw [hlast, dropWhile_reverse_escaped hc, List.reverse_reverse]

/-- The text of the pattern of a source: the directory it has climbed to, taken literally, a slash,
and the names. -/
theorem toList_patternText {base : Path} (hrooted : base.rooted = true) (hbase : base.IsSpelled)
    (source : String) :
    (patternText base source).toList =
      Glob.escaped (Step.slashed (base.climb (climbs source)).steps) ++
        '/' :: (remainder source).toList := by
  have hstart := dropWhile_escape_text (p := base.climb (climbs source))
    ((rooted_climb base _).trans hrooted) (hbase.climb _)
  rw [patternText, patternParts_eq, toList_remainder]
  dsimp only
  rw [hstart, String.toList_ofList]

/-- The path that is spelled by the pattern of a source without the escaping of the directory. -/
def patternPath (base : Path) (source : String) : Path :=
  .ofText (String.ofList (Glob.unescaped (patternText base source).toList))

/-! ## Sources without wildcards -/

/-- A path in normal form that starts from the root of the file system, as text can spell it. -/
structure IsDirectory (p : Path) : Prop where
  rooted : p.rooted = true
  normal : p.IsNormal
  spelled : p.IsSpelled

/-- The path of a rooted text in normal form is that of a directory. -/
theorem isDirectory_ofText {s : String} (hrooted : (ofText s).rooted = true)
    (hnormal : (ofText s).normalize = ofText s) : IsDirectory (ofText s) :=
  ⟨hrooted, hnormal ▸ isNormal_normalize _, isSpelled_ofText s⟩

/-- The pattern of a source without wildcards spells the path that the source leads to. -/
theorem patternPath_eq {base : Path} (hbase : IsDirectory base) {source : String}
    (hsource : Glob.hasWildcard source = false) :
    patternPath base source = resolved base source := by
  have hopen : '[' ∉ (remainder source).toList := by
    intro hmem
    rcases mem_of_mem_remainder hmem with h | h
    · exact absurd h (by decide)
    · have hnone := List.any_eq_false.1 hsource _ h
      simp at hnone
  have hhere : Step.here ∉ (base.climb (climbs source)).steps := by
    rw [steps_climb]
    exact fun hmem => here_not_mem_steps hbase.normal hbase.rooted (List.mem_of_mem_take hmem)
  have hnames : ((names source).map Step.name).filter (· ≠ .here) =
      (names source).map Step.name := by
    simp
  have hspelled := ofText_slashed_append (hbase.spelled.climb (climbs source)) hhere
    (remainder source).toList
  rw [patternPath, toList_patternText hbase.rooted hbase.spelled, Glob.unescaped_escaped_append,
    Glob.unescaped_cons (by decide), Glob.unescaped_of_not_mem hopen, hspelled]
  have hsteps := ofText_remainder source
  rw [Step.ofText] at hsteps
  rw [hsteps, hnames, resolved, descend, rooted_climb, hbase.rooted]

/-- A source without wildcards leads from the project root if it starts with one slash, from the
root of the file system if it starts with two, and else from the directory of the importing file. -/
theorem literalPath_eq {root dir : Path} (hroot : IsDirectory root) (hdir : IsDirectory dir)
    (source : String) :
    literalPath root dir source =
      resolved (if ['/', '/'] <+: source.toList then Path.root
        else if source.toList.head? = some '/' then root else dir) source := by
  unfold literalPath
  split
  -- one slash is taken off, so what is left is rooted exactly if there was another
  · rename_i rest hrest
    have hrooted : (Path.ofText (String.ofList rest)).rooted = true ↔
        ['/', '/'] <+: source.toList := by
      rw [rooted_ofText, String.toList_ofList, hrest, List.cons_prefix_cons]
      cases rest <;> simp [eq_comm]
    have hcourse : Step.course (Path.ofText (String.ofList rest)).steps =
        Step.course (Step.ofText source.toList) := by
      rw [Step.course_steps_ofText, String.toList_ofList, hrest, Step.ofText_slash]
    rw [normalize_join hroot.normal hroot.rooted, hcourse]
    simp [hrooted, hrest, resolved, climbs, names]
  · rename_i hrest
    have hhead : source.toList.head? ≠ some '/' := by
      intro hhead
      obtain ⟨rest, hcons⟩ := List.head?_eq_some_iff.1 hhead
      exact hrest rest hcons
    have hnot : (Path.ofText source).rooted ≠ true := mt (rooted_ofText source).1 hhead
    have hone : ¬['/', '/'] <+: source.toList := fun ⟨rest, h⟩ => hrest _ h.symm
    rw [normalize_join hdir.normal hdir.rooted, Step.course_steps_ofText, if_neg hnot, if_neg hone,
      if_neg hhead]
    rfl

/-- A source that begins with two slashes begins with one. -/
theorem head?_of_doubled {source : String} (h : ['/', '/'] <+: source.toList) :
    source.toList.head? = some '/' := by
  obtain ⟨rest, hrest⟩ := h
  rw [← hrest]
  rfl

/-- The path of a source without wildcards is spelled by its pattern, from the project root or the
directory of the importing file. The path that is looked up is the same, unless the source starts
with two slashes and does not climb out of the project root to the root of the file system. -/
theorem literalPath_eq_patternPath_iff {root dir : Path} (hroot : IsDirectory root)
    (hdir : IsDirectory dir) {source : String} (hsource : Glob.hasWildcard source = false) :
    let base := if source.toList.head? = some '/' then root else dir
    patternPath base source = resolved base source ∧
      (literalPath root dir source = patternPath base source ↔
        (['/', '/'] <+: source.toList → root.steps.length ≤ climbs source)) := by
  intro base
  have hbase : IsDirectory base := by
    unfold base
    split <;> assumption
  refine ⟨patternPath_eq hbase hsource, ?_⟩
  rw [patternPath_eq hbase hsource, literalPath_eq hroot hdir]
  by_cases hdoubled : ['/', '/'] <+: source.toList
  · have hfrom : base = root := if_pos (head?_of_doubled hdoubled)
    rw [if_pos hdoubled, hfrom, resolved, resolved, descend_climb_root_eq_iff hroot.rooted]
    exact ⟨fun h _ => h, fun h => h hdoubled⟩
  · rw [if_neg hdoubled]
    exact iff_of_true rfl fun h => absurd h hdoubled

/-- A source that climbs and goes down again, below a directory whose name looks like a class. -/
theorem literalPath_eq_patternPath_upAndDown :
    literalPath (.ofText "/p") (.ofText "/p/[s]") "../m//./x.tm" =
      patternPath (.ofText "/p/[s]") "../m//./x.tm" :=
  (literalPath_eq_patternPath_iff (isDirectory_ofText (by decide) (by decide))
    (isDirectory_ofText (by decide) (by decide)) (by decide)).2.2 fun h => absurd h (by decide)

/-- After a second slash the project root is forgotten. -/
theorem literalPath_ne_patternPath_doubledSlash :
    literalPath (.ofText "/p") (.ofText "/p/s") "//m/x.tm" = .ofText "/m/x.tm" ∧
      patternPath (.ofText "/p") "//m/x.tm" = .ofText "/p/m/x.tm" ∧
      Path.ofText "/m/x.tm" ≠ .ofText "/p/m/x.tm" :=
  ⟨by decide, by decide, by decide⟩

end ScopeConfig.Import
