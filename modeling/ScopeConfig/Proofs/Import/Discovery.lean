import ScopeConfig.Proofs.Import.Closure
import ScopeConfig.Proofs.Import.Verdict
import ScopeConfig.Proofs.Syntax.Faults

/-!
# What an expansion discovers

Facts about the closures of files that hold of every run, whatever the graph of imports is like:
diamonds, cycles, and files that cannot be read or parsed. `Closure.Sound` holds of every part of a
run and is kept by putting parts together; `Grown` says where the opened files come from.

## Main statements

* `sound_closureAll`: no path is opened or loaded twice, and every path that becomes visited was
  opened or could not be loaded.
* `grown_closureAll`: every file is a start or was reached by an accepted edge of a file opened
  before it.
-/

namespace ScopeConfig

open Syntax

namespace Opening

/-- The path of an opened file. -/
def path (o : Opening) : Path :=
  o.file.path

/-- The edges that an opened file accepts. -/
def edges (r : Resolver) (o : Opening) : List Edge :=
  (r.edges o.file o.chain).1

/-- The errors of the import blocks of an opened file. -/
def errors (r : Resolver) (o : Opening) : List Diagnostic :=
  (r.edges o.file o.chain).2

/-- The verdicts on the paths that an opened file imports. -/
def verdicts (r : Resolver) (o : Opening) : List Verdict :=
  r.verdicts o.file o.chain

/-- A file was reached by an accepted edge of a file whose chain is `chain` and whose edges are
`edges`. -/
def Along (r : Resolver) (chain : List Path) (edges : List Edge) (o : Opening) : Prop :=
  o.chain = chain ++ [o.path] ∧ ∃ e ∈ edges, e.path = o.path ∧ (r.load e).1 = some o.file

/-- A file was reached by an accepted edge of another. -/
def ReachedFrom (r : Resolver) (o parent : Opening) : Prop :=
  o.Along r parent.chain (parent.edges r)

end Opening

namespace Closure

/-- The paths of the files opened. -/
def paths (c : Closure) : List Path :=
  c.opened.map Opening.path

@[simp] theorem paths_stay (visited : List Path) : (stay visited).paths = [] := rfl

@[simp] theorem paths_append (c d : Closure) : (c ++ d).paths = c.paths ++ d.paths := by
  simp [paths]

theorem mem_paths {c : Closure} {p : Path} : p ∈ c.paths ↔ ∃ o ∈ c.opened, o.path = p := by
  simp [paths]

theorem map_path_files (c : Closure) : c.files.map SourceFile.path = c.paths := by
  simp [files, paths, Opening.path, Function.comp_def]

end Closure

/-! ## Loading -/

namespace Resolver

/-- A file that is loaded along an edge has the path of the edge. -/
theorem path_of_load {r : Resolver} {e : Edge} {f : SourceFile} (h : (r.load e).1 = some f) :
    f.path = e.path := by
  unfold load at h
  split at h
  · simp at h
  · split at h
    · simp at h
    · rename_i g hparse
      obtain rfl : g = f := Option.some.inj h
      exact SourceFile.path_of_parse hparse

/-- A file that cannot be loaded is reported. -/
theorem load_errors_ne_nil {r : Resolver} {e : Edge} (h : (r.load e).1 = none) :
    (r.load e).2 ≠ [] := by
  unfold load at h ⊢
  split
  · simp
  · rename_i text htext
    rw [htext] at h
    split
    · rename_i faults hparse
      exact SourceFile.parse_error_ne_nil hparse
    · rename_i f hparse
      simp [hparse] at h

end Resolver

/-! ## Parts of a run -/

/-- What holds of every part of a run that starts with the paths in `visited`. -/
structure Closure.Sound (r : Resolver) (visited : List Path) (c : Closure) : Prop where
  mono : ∀ p ∈ visited, p ∈ c.visited
  paths_new : ∀ p ∈ c.paths, p ∉ visited
  paths_visited : ∀ p ∈ c.paths, p ∈ c.visited
  paths_nodup : c.paths.Nodup
  loaded_new : ∀ e ∈ c.loaded, e.path ∉ visited
  loaded_visited : ∀ e ∈ c.loaded, e.path ∈ c.visited
  loaded_nodup : (c.loaded.map Edge.path).Nodup
  settled : ∀ p ∈ c.visited, p ∈ visited ∨ p ∈ c.paths ∨
    ∃ e ∈ c.loaded, e.path = p ∧ (r.load e).1 = none
  failed_not_opened : ∀ e ∈ c.loaded, (r.load e).1 = none → e.path ∉ c.paths
  closed : ∀ o ∈ c.opened, ∀ e ∈ o.edges r, e.path ∈ c.visited
  load_reported : ∀ e ∈ c.loaded, ∀ d ∈ (r.load e).2, d ∈ c.errors
  edges_reported : ∀ o ∈ c.opened, ∀ d ∈ o.errors r, d ∈ c.errors
  explained : ∀ d ∈ c.errors,
    (∃ e ∈ c.loaded, d ∈ (r.load e).2) ∨ ∃ o ∈ c.opened, d ∈ o.errors r

namespace Closure.Sound

variable {r : Resolver} {visited : List Path}

theorem stay : (Closure.stay visited).Sound r visited := by
  constructor <;> simp

/-- Two parts of a run are a part of it. -/
theorem append {c d : Closure} (hc : c.Sound r visited) (hd : d.Sound r c.visited) :
    (c ++ d).Sound r visited where
  mono p hp := hd.mono p (hc.mono p hp)
  paths_new p hp := by
    rcases List.mem_append.1 (Closure.paths_append c d ▸ hp) with hp | hp
    · exact hc.paths_new p hp
    · exact fun hv => hd.paths_new p hp (hc.mono p hv)
  paths_visited p hp := by
    rcases List.mem_append.1 (Closure.paths_append c d ▸ hp) with hp | hp
    · exact hd.mono p (hc.paths_visited p hp)
    · exact hd.paths_visited p hp
  paths_nodup := by
    rw [Closure.paths_append, List.nodup_append]
    refine ⟨hc.paths_nodup, hd.paths_nodup, ?_⟩
    rintro p hp q hq rfl
    exact hd.paths_new p hq (hc.paths_visited p hp)
  loaded_new e he := by
    rcases List.mem_append.1 he with he | he
    · exact hc.loaded_new e he
    · exact fun hv => hd.loaded_new e he (hc.mono e.path hv)
  loaded_visited e he := by
    rcases List.mem_append.1 he with he | he
    · exact hd.mono e.path (hc.loaded_visited e he)
    · exact hd.loaded_visited e he
  loaded_nodup := by
    rw [Closure.loaded_append, List.map_append, List.nodup_append]
    refine ⟨hc.loaded_nodup, hd.loaded_nodup, ?_⟩
    intro p hp q hq hpq
    obtain ⟨e, he, rfl⟩ := List.mem_map.1 hp
    obtain ⟨e', he', rfl⟩ := List.mem_map.1 hq
    exact hd.loaded_new e' he' (hpq ▸ hc.loaded_visited e he)
  settled p hp := by
    rcases hd.settled p hp with hp | hp | ⟨e, he, hfail⟩
    · rcases hc.settled p hp with hp | hp | ⟨e, he, hfail⟩
      · exact .inl hp
      · exact .inr (.inl (by simp [hp]))
      · exact .inr (.inr ⟨e, by simp [he], hfail⟩)
    · exact .inr (.inl (by simp [hp]))
    · exact .inr (.inr ⟨e, by simp [he], hfail⟩)
  failed_not_opened e he hfail hp := by
    -- a path loaded in one part is visited, and new to the other, so the mixed cases cannot occur
    rcases List.mem_append.1 he, List.mem_append.1 (Closure.paths_append c d ▸ hp) with
      ⟨he | he, hp | hp⟩
    · exact hc.failed_not_opened e he hfail hp
    · exact hd.paths_new e.path hp (hc.loaded_visited e he)
    · exact hd.loaded_new e he (hc.paths_visited e.path hp)
    · exact hd.failed_not_opened e he hfail hp
  closed o ho e he := by
    rcases List.mem_append.1 ho with ho | ho
    · exact hd.mono e.path (hc.closed o ho e he)
    · exact hd.closed o ho e he
  load_reported e he d hd' := by
    rcases List.mem_append.1 he with he | he
    · exact List.mem_append_left _ (hc.load_reported e he d hd')
    · exact List.mem_append_right _ (hd.load_reported e he d hd')
  edges_reported o ho d hd' := by
    rcases List.mem_append.1 ho with ho | ho
    · exact List.mem_append_left _ (hc.edges_reported o ho d hd')
    · exact List.mem_append_right _ (hd.edges_reported o ho d hd')
  explained d hd' := by
    rcases List.mem_append.1 hd' with hd' | hd'
    · rcases hc.explained d hd' with ⟨e, he, hin⟩ | ⟨o, ho, hin⟩
      · exact .inl ⟨e, by simp [he], hin⟩
      · exact .inr ⟨o, by simp [ho], hin⟩
    · rcases hd.explained d hd' with ⟨e, he, hin⟩ | ⟨o, ho, hin⟩
      · exact .inl ⟨e, by simp [he], hin⟩
      · exact .inr ⟨o, by simp [ho], hin⟩

/-- A load that fails is a part of a run. -/
theorem load_none {e : Edge} {faults : List Diagnostic} (hv : e.path ∉ visited)
    (hload : r.load e = (none, faults)) :
    Closure.Sound r visited ⟨[], [e], faults, e.path :: visited⟩ := by
  constructor <;> simp +contextual [hv, hload, Closure.paths]

/-- Taking in a file, loaded by an edge or given as a start, and following its edges is a part of a
run, when following the edges is one and reaches every one of them. -/
theorem opening {inner : Closure} (o : Opening) (loads : List Edge) (faults : List Diagnostic)
    (hv : o.path ∉ visited)
    (hloads : loads = [] ∨ ∃ e, loads = [e] ∧ e.path = o.path ∧ (r.load e).1 = some o.file)
    (hfaults : ∀ d, d ∈ faults ↔ ∃ e ∈ loads, d ∈ (r.load e).2)
    (hinner : inner.Sound r (o.path :: visited))
    (hreached : ∀ e ∈ o.edges r, e.path ∈ inner.visited) :
    Closure.Sound r visited
      (⟨[], loads, faults, o.path :: visited⟩ ++
        (⟨[o], [], o.errors r, o.path :: visited⟩ ++ inner)) where
  mono p hp := hinner.mono p (List.mem_cons_of_mem _ hp)
  paths_new p hp := by
    rcases List.mem_cons.1 (show p ∈ o.path :: inner.paths from hp) with rfl | hp
    · exact hv
    · exact fun h => hinner.paths_new p hp (List.mem_cons_of_mem _ h)
  paths_visited p hp := by
    rcases List.mem_cons.1 (show p ∈ o.path :: inner.paths from hp) with rfl | hp
    · exact hinner.mono _ List.mem_cons_self
    · exact hinner.paths_visited p hp
  paths_nodup := by
    show (o.path :: inner.paths).Nodup
    exact List.nodup_cons.2
      ⟨fun h => hinner.paths_new _ h List.mem_cons_self, hinner.paths_nodup⟩
  loaded_new e he := by
    rcases List.mem_append.1 (show e ∈ loads ++ inner.loaded from he) with he | he
    · rcases hloads with rfl | ⟨e', rfl, hpath, -⟩
      · simp at he
      · obtain rfl := List.mem_singleton.1 he
        exact hpath ▸ hv
    · exact fun h => hinner.loaded_new e he (List.mem_cons_of_mem _ h)
  loaded_visited e he := by
    rcases List.mem_append.1 (show e ∈ loads ++ inner.loaded from he) with he | he
    · rcases hloads with rfl | ⟨e', rfl, hpath, -⟩
      · simp at he
      · obtain rfl := List.mem_singleton.1 he
        exact hinner.mono _ (hpath ▸ List.mem_cons_self)
    · exact hinner.loaded_visited e he
  loaded_nodup := by
    show ((loads ++ inner.loaded).map Edge.path).Nodup
    rcases hloads with rfl | ⟨e, rfl, hpath, -⟩
    · exact hinner.loaded_nodup
    · refine List.nodup_cons.2 ⟨fun h => ?_, hinner.loaded_nodup⟩
      obtain ⟨e', he', heq⟩ := List.mem_map.1 h
      exact hinner.loaded_new e' he' (heq ▸ hpath ▸ List.mem_cons_self)
  settled p hp := by
    rcases hinner.settled p hp with hp | hp | ⟨e, he, hfail⟩
    -- the one path that is visited before the edges are followed is that of the file itself
    · rcases List.mem_cons.1 hp with rfl | hp
      · exact .inr (.inl List.mem_cons_self)
      · exact .inl hp
    · exact .inr (.inl (List.mem_cons_of_mem _ hp))
    · exact .inr (.inr ⟨e, List.mem_append_right _ he, hfail⟩)
  failed_not_opened e he hfail hp := by
    rcases List.mem_append.1 (show e ∈ loads ++ inner.loaded from he) with he | he
    · rcases hloads with rfl | ⟨e', rfl, -, hload⟩
      · simp at he
      · obtain rfl := List.mem_singleton.1 he
        simp [hload] at hfail
    · rcases List.mem_cons.1 (show e.path ∈ o.path :: inner.paths from hp) with hp | hp
      · exact hinner.loaded_new e he (hp ▸ List.mem_cons_self)
      · exact hinner.failed_not_opened e he hfail hp
  closed o' ho e he := by
    rcases List.mem_cons.1 (show o' ∈ o :: inner.opened from ho) with rfl | ho
    · exact hreached e he
    · exact hinner.closed o' ho e he
  load_reported e he d hd := by
    rcases List.mem_append.1 (show e ∈ loads ++ inner.loaded from he) with he | he
    · exact List.mem_append_left _ ((hfaults d).2 ⟨e, he, hd⟩)
    · exact List.mem_append_right _ (List.mem_append_right _ (hinner.load_reported e he d hd))
  edges_reported o' ho d hd := by
    refine List.mem_append_right _ ?_
    rcases List.mem_cons.1 (show o' ∈ o :: inner.opened from ho) with rfl | ho
    · exact List.mem_append_left _ hd
    · exact List.mem_append_right _ (hinner.edges_reported o' ho d hd)
  explained d hd := by
    rcases List.mem_append.1 hd with hd | hd
    · obtain ⟨e, he, hin⟩ := (hfaults d).1 hd
      exact .inl ⟨e, List.mem_append_left _ he, hin⟩
    · rcases List.mem_append.1 hd with hd | hd
      · exact .inr ⟨o, List.mem_cons_self, hd⟩
      · rcases hinner.explained d hd with ⟨e, he, hin⟩ | ⟨o', ho, hin⟩
        · exact .inl ⟨e, List.mem_append_right _ he, hin⟩
        · exact .inr ⟨o', List.mem_cons_of_mem _ ho, hin⟩

end Closure.Sound

namespace Resolver

/-- Following edges is a part of a run, and every edge leads to a path that is visited then. -/
theorem sound_follow (r : Resolver) (visited chain : List Path) (edges : List Edge) :
    (r.follow visited chain edges).Sound r visited ∧
      ∀ e ∈ edges, e.path ∈ (r.follow visited chain edges).visited := by
  induction visited, chain, edges using r.follow_induction with
  | nil visited chain => exact ⟨.stay, by simp⟩
  | skip visited chain e edges hv ih =>
    refine ⟨ih.1, fun e' he' => ?_⟩
    rcases List.mem_cons.1 he' with rfl | he'
    · exact ih.1.mono _ hv
    · exact ih.2 e' he'
  | fail visited chain e edges faults hv hload ih =>
    refine ⟨(Closure.Sound.load_none hv hload).append ih.1, fun e' he' => ?_⟩
    rcases List.mem_cons.1 he' with rfl | he'
    · exact ih.1.mono _ List.mem_cons_self
    · exact ih.2 e' he'
  | enter visited chain e edges f faults hv hload ihInner ihRest =>
    -- the path was marked under the edge; the file that is opened has the same one
    have hpath : f.path = e.path := path_of_load (by rw [hload])
    have hopen := Closure.Sound.opening ⟨f, chain ++ [e.path]⟩ [e] faults (hpath ▸ hv)
      (.inr ⟨e, rfl, hpath.symm, by rw [hload]⟩) (by simp [hload])
      (by simpa [Opening.path, hpath] using ihInner.1) ihInner.2
    simp only [Opening.path, Opening.errors, hpath] at hopen
    refine ⟨hopen.append ihRest.1, fun e' he' => ?_⟩
    rcases List.mem_cons.1 he' with rfl | he'
    · exact ihRest.1.mono _ (ihInner.1.mono _ List.mem_cons_self)
    · exact ihRest.2 e' he'

/-- The closure of one file is sound. -/
theorem sound_closure (r : Resolver) (visited : List Path) (f : SourceFile) :
    (r.closure visited f).Sound r visited := by
  unfold closure
  split
  · exact .stay
  · rename_i hv
    obtain ⟨hinner, hreached⟩ := r.sound_follow (f.path :: visited) [f.path] (r.edges f [f.path]).1
    exact Closure.Sound.opening ⟨f, [f.path]⟩ [] [] hv (.inl rfl) (by simp) hinner hreached

/-- A whole run is sound, from any paths visited before. -/
theorem sound_closureAll (r : Resolver) (visited : List Path) (starts : List SourceFile) :
    (r.closureAll visited starts).Sound r visited := by
  induction starts generalizing visited with
  | nil => exact .stay
  | cons f starts ih => exact (r.sound_closure visited f).append (ih _)

end Resolver

/-! ## Where opened files come from -/

/-- Every file of a list is one of the `roots` or was reached by an accepted edge of a file before
it. -/
def Grown (r : Resolver) (roots : Opening → Prop) (os : List Opening) : Prop :=
  ∀ before o after, os = before ++ o :: after →
    roots o ∨ ∃ parent ∈ before, o.ReachedFrom r parent

namespace Grown

variable {r : Resolver} {roots : Opening → Prop}

theorem nil : Grown r roots [] := by
  intro before o after h
  simp at h

theorem mono {roots' : Opening → Prop} {os : List Opening} (h : Grown r roots os)
    (himp : ∀ o, roots o → roots' o) : Grown r roots' os :=
  fun before o after hsplit => (h before o after hsplit).imp_left (himp o)

/-- Files that have grown from the roots, and then files that have grown from the roots or by an
edge of the former. -/
theorem append {os ps : List Opening} (hos : Grown r roots os)
    (hps : Grown r (fun o => roots o ∨ ∃ parent ∈ os, o.ReachedFrom r parent) ps) :
    Grown r roots (os ++ ps) := by
  intro before o after hsplit
  rcases List.append_eq_append_iff.1 hsplit with ⟨mid, rfl, hps'⟩ | ⟨mid, rfl, hafter⟩
  · rcases hps mid o after hps' with (hroot | ⟨p, hp, hreach⟩) | ⟨p, hp, hreach⟩
    · exact .inl hroot
    · exact .inr ⟨p, List.mem_append_left _ hp, hreach⟩
    · exact .inr ⟨p, List.mem_append_right _ hp, hreach⟩
  · -- `o` is the first of `ps` when nothing of `os` is left after the split
    cases mid with
    | nil =>
      rcases hps [] o after (by simpa using hafter.symm) with hbefore | ⟨p, hp, -⟩
      · simpa using hbefore
      · simp at hp
    | cons o' mid =>
      obtain ⟨rfl, -⟩ := List.cons.inj hafter
      exact hos before o mid rfl

/-- A root in front of files that have grown from the roots or by an edge of it. -/
theorem cons {o : Opening} {os : List Opening} (ho : roots o)
    (hos : Grown r (fun o' => roots o' ∨ o'.ReachedFrom r o) os) : Grown r roots (o :: os) := by
  have hone : Grown r roots [o] := by
    intro before o' after hsplit
    cases before with
    | nil =>
      obtain ⟨rfl, -⟩ := List.cons.inj hsplit
      exact .inl ho
    | cons p before => simp at hsplit
  exact hone.append (by simpa using hos)

/-- What holds of the roots and passes from a file to the files it leads to holds of every file. -/
theorem induction {os : List Opening} (h : Grown r roots os) {motive : Opening → Prop}
    (root : ∀ o, roots o → motive o)
    (reach : ∀ parent ∈ os, ∀ o, o.ReachedFrom r parent → motive parent → motive o) :
    ∀ o ∈ os, motive o := by
  -- along the length of what comes before a file
  have hsplit : ∀ n before o after, before.length ≤ n → os = before ++ o :: after → motive o := by
    intro n
    induction n with
    | zero =>
      intro before o after hlen hos
      rcases h before o after hos with hroot | ⟨parent, hparent, -⟩
      · exact root o hroot
      · rw [List.length_eq_zero_iff.1 (Nat.le_zero.1 hlen)] at hparent
        cases hparent
    | succ n ih =>
      intro before o after hlen hos
      rcases h before o after hos with hroot | ⟨parent, hparent, hreach⟩
      · exact root o hroot
      · obtain ⟨earlier, later, rfl⟩ := List.append_of_mem hparent
        refine reach parent (by simp [hos]) o hreach (ih earlier parent (later ++ o :: after) ?_ ?_)
        · simp only [List.length_append, List.length_cons] at hlen
          omega
        · simp [hos]
  intro o ho
  obtain ⟨before, after, hos⟩ := List.append_of_mem ho
  exact hsplit before.length before o after (Nat.le_refl _) hos

end Grown

namespace Resolver

/-- What following edges opens has grown from the targets of those edges. -/
theorem grown_follow (r : Resolver) (visited chain : List Path) (edges : List Edge) :
    Grown r (Opening.Along r chain edges) (r.follow visited chain edges).opened := by
  -- an edge of the rest of a list is an edge of the list
  have along_cons : ∀ (chain : List Path) (e : Edge) (edges : List Edge) (o : Opening),
      o.Along r chain edges → o.Along r chain (e :: edges) :=
    fun _ _ _ _ ⟨hchain, e', he', h⟩ => ⟨hchain, e', List.mem_cons_of_mem _ he', h⟩
  induction visited, chain, edges using r.follow_induction with
  | nil visited chain => exact .nil
  | skip visited chain e edges hv ih => exact ih.mono (along_cons chain e edges)
  | fail visited chain e edges faults hv hload ih => exact ih.mono (along_cons chain e edges)
  | enter visited chain e edges f faults hv hload ihInner ihRest =>
    have hpath : f.path = e.path := path_of_load (by rw [hload])
    have hroot : Opening.Along r chain (e :: edges) ⟨f, chain ++ [e.path]⟩ :=
      ⟨by simp [Opening.path, hpath], e, List.mem_cons_self, hpath.symm, by rw [hload]⟩
    refine Grown.append (Grown.cons hroot (ihInner.mono fun o ho => .inr ho)) ?_
    exact ihRest.mono fun o ho => .inl (along_cons chain e edges o ho)

/-- What the closure of a file opens has grown from that file. -/
theorem grown_closure (r : Resolver) (visited : List Path) (f : SourceFile) :
    Grown r (· = ⟨f, [f.path]⟩) (r.closure visited f).opened := by
  unfold closure
  split
  · exact .nil
  · exact .cons rfl ((r.grown_follow _ _ _).mono fun o ho => .inr ho)

/-- Every file that a run opens is a start, or was reached by an accepted edge of a file opened
before it. -/
theorem grown_closureAll (r : Resolver) (visited : List Path) (starts : List SourceFile) :
    Grown r (fun o => ∃ f ∈ starts, o = ⟨f, [f.path]⟩) (r.closureAll visited starts).opened := by
  induction starts generalizing visited with
  | nil => exact .nil
  | cons f starts ih =>
    refine Grown.append ((r.grown_closure visited f).mono ?_) ((ih _).mono ?_)
    · rintro o rfl
      exact ⟨f, List.mem_cons_self, rfl⟩
    · rintro o ⟨g, hg, rfl⟩
      exact .inl ⟨g, List.mem_cons_of_mem _ hg, rfl⟩

/-- A file that is opened on the way along edges was loaded for one of the edges that were
loaded. -/
theorem loaded_of_mem_opened_follow (r : Resolver) (visited chain : List Path)
    (edges : List Edge) :
    ∀ o ∈ (r.follow visited chain edges).opened,
      ∃ e ∈ (r.follow visited chain edges).loaded,
        e.path = o.path ∧ (r.load e).1 = some o.file := by
  induction visited, chain, edges using r.follow_induction with
  | nil visited chain => simp
  | skip visited chain e edges hv ih => exact ih
  | fail visited chain e edges faults hv hload ih =>
    intro o ho
    obtain ⟨e', he', hfrom⟩ := ih o ho
    exact ⟨e', List.mem_cons_of_mem e he', hfrom⟩
  | enter visited chain e edges f faults hv hload ihInner ihRest =>
    intro o ho
    rcases List.mem_append.1 ho with ho | ho
    · rcases List.mem_cons.1 ho with rfl | ho
      · have hfile : (r.load e).1 = some f := by rw [hload]
        exact ⟨e, List.mem_append_left _ List.mem_cons_self, (path_of_load hfile).symm, hfile⟩
      · obtain ⟨e', he', hfrom⟩ := ihInner o ho
        exact ⟨e', List.mem_append_left _ (List.mem_cons_of_mem e he'), hfrom⟩
    · obtain ⟨e', he', hfrom⟩ := ihRest o ho
      exact ⟨e', List.mem_append_right _ he', hfrom⟩

/-- An opened file is a start, or was loaded for one of the edges that were loaded. -/
theorem start_or_loaded_of_mem_opened (r : Resolver) (visited : List Path)
    (starts : List SourceFile) :
    ∀ o ∈ (r.closureAll visited starts).opened, o.file ∈ starts ∨
      ∃ e ∈ (r.closureAll visited starts).loaded, e.path = o.path ∧ (r.load e).1 = some o.file := by
  induction starts generalizing visited with
  | nil => simp [closureAll]
  | cons f starts ih =>
    intro o ho
    rcases List.mem_append.1 ho with ho | ho
    · unfold closure at ho
      split at ho
      · simp at ho
      · rename_i hv
        have hloaded : (r.closure visited f).loaded =
            (r.follow (f.path :: visited) [f.path] (r.edges f [f.path]).1).loaded := by
          simp [closure, hv, openFile]
        rcases List.mem_cons.1 ho with rfl | ho
        · exact .inl List.mem_cons_self
        · obtain ⟨e, he, hfrom⟩ := r.loaded_of_mem_opened_follow _ _ _ o ho
          exact .inr ⟨e, List.mem_append_left _ (hloaded ▸ he), hfrom⟩
    · rcases ih _ o ho with hstart | ⟨e, he, hfrom⟩
      · exact .inl (List.mem_cons_of_mem f hstart)
      · exact .inr ⟨e, List.mem_append_right _ he, hfrom⟩

/-- Every edge that is loaded was accepted for a file that is opened. -/
theorem accepted_of_mem_loaded_follow (r : Resolver) (visited chain : List Path)
    (edges : List Edge) :
    ∀ e ∈ (r.follow visited chain edges).loaded,
      e ∈ edges ∨ ∃ o ∈ (r.follow visited chain edges).opened, e ∈ o.edges r := by
  induction visited, chain, edges using r.follow_induction with
  | nil visited chain => simp
  | skip visited chain e edges hv ih =>
    exact fun e' he' => (ih e' he').imp_left (List.mem_cons_of_mem e)
  | fail visited chain e edges faults hv hload ih =>
    intro e' he'
    rcases List.mem_cons.1 he' with rfl | he'
    · exact .inl List.mem_cons_self
    · exact (ih e' he').imp_left (List.mem_cons_of_mem e)
  | enter visited chain e edges f faults hv hload ihInner ihRest =>
    intro e' he'
    -- the edge itself, an edge of the file that it leads to, or one that is followed after them
    rcases List.mem_append.1 he' with he' | he'
    · rcases List.mem_cons.1 he' with rfl | he'
      · exact .inl List.mem_cons_self
      · right
        rcases ihInner e' he' with hin | ⟨o, ho, hin⟩
        · exact ⟨_, List.mem_append_left _ List.mem_cons_self, hin⟩
        · exact ⟨o, List.mem_append_left _ (List.mem_cons_of_mem _ ho), hin⟩
    · rcases ihRest e' he' with hin | ⟨o, ho, hin⟩
      · exact .inl (List.mem_cons_of_mem _ hin)
      · exact .inr ⟨o, List.mem_append_right _ ho, hin⟩

/-- Every edge that was loaded is an accepted edge of a file that was opened. -/
theorem accepted_of_mem_loaded (r : Resolver) (visited : List Path) (starts : List SourceFile) :
    ∀ e ∈ (r.closureAll visited starts).loaded,
      ∃ o ∈ (r.closureAll visited starts).opened, e ∈ o.edges r := by
  induction starts generalizing visited with
  | nil => simp [closureAll]
  | cons f starts ih =>
    intro e he
    rcases List.mem_append.1 he with he | he
    · unfold closure at he
      split at he
      · simp at he
      · rename_i hv
        have hopen : (r.closure visited f).opened =
            ⟨f, [f.path]⟩ ::
              (r.follow (f.path :: visited) [f.path] (r.edges f [f.path]).1).opened := by
          simp [closure, hv, openFile]
        rcases r.accepted_of_mem_loaded_follow _ _ _ e he with hin | ⟨o, ho, hin⟩
        · exact ⟨⟨f, [f.path]⟩, List.mem_append_left _ (hopen ▸ List.mem_cons_self), hin⟩
        · exact ⟨o, List.mem_append_left _ (hopen ▸ List.mem_cons_of_mem _ ho), hin⟩
    · obtain ⟨o, ho, hin⟩ := ih _ e he
      exact ⟨o, List.mem_append_right _ ho, hin⟩

end Resolver

end ScopeConfig
