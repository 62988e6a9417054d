import Mathlib.Data.List.Dedup
import Mathlib.Data.List.Forall2
import Mathlib.Data.List.Perm.Subperm
import ScopeConfig.Project.FileTree
import ScopeConfig.Proofs.Import.Discovery
import ScopeConfig.Proofs.Loop.Rounds

/-!
# What expansion takes

The loop of the expansion, given round by round, with a note of what it does: how many rounds it
takes, which frames it opens, with the edges that were accepted for each, and which paths it reads.
The notes change nothing. Every round that is not the last one closes a frame or takes an edge off
one, so the rounds are as many as the frames and their edges, and a path is marked as visited before
it is read or opened, so neither is done twice.

## Main statements

* `Resolver.loop_round`: the loop ends, and leaves with the run.
* `Resolver.Noted.accounts`: what the notes say of the walk, kept by every round.
* `Resolver.expansion_effort`: what the expansions of a project in memory take.
-/

namespace ScopeConfig

open Syntax

/-- What one call of the expansion does: the rounds of its loop that go on, the frames that it opens
with all of their edges, and the paths that it reads, both in order. -/
structure Effort where
  rounds : Nat
  opened : List Frame
  reads : List Path

namespace Effort

/-- One more round. -/
def tick (l : Effort) : Effort :=
  { l with rounds := l.rounds + 1 }

/-- One more path is read. -/
def read (l : Effort) (p : Path) : Effort :=
  { l with reads := l.reads ++ [p] }

/-- One more frame is opened. -/
def push (l : Effort) (frame : Frame) : Effort :=
  { l with opened := l.opened ++ [frame] }

/-- How many frames are opened and edges are accepted for them. -/
def work (l : Effort) : Nat :=
  l.opened.length + (l.opened.flatMap Frame.edges).length

@[simp] theorem rounds_tick (l : Effort) : l.tick.rounds = l.rounds + 1 := rfl

@[simp] theorem opened_tick (l : Effort) : l.tick.opened = l.opened := rfl

@[simp] theorem rounds_read (l : Effort) (p : Path) : (l.read p).rounds = l.rounds := rfl

@[simp] theorem opened_read (l : Effort) (p : Path) : (l.read p).opened = l.opened := rfl

@[simp] theorem rounds_push (l : Effort) (frame : Frame) : (l.push frame).rounds = l.rounds := rfl

@[simp] theorem opened_push (l : Effort) (frame : Frame) :
    (l.push frame).opened = l.opened ++ [frame] := rfl

end Effort

namespace Resolver

/-! ## The loop -/

/-- Reads a file. -/
def readNoting (r : Resolver) (l : Effort) (p : Path) : Except FileFault String × Effort :=
  (r.provider.read p, l.read p)

/-- Loads the file that an edge leads to. -/
def loadNoting (r : Resolver) (l : Effort) (e : Edge) :
    (Option SourceFile × List Diagnostic) × Effort :=
  match r.readNoting l e.path with
  | (.error fault, l) => ((none, [.importing (.notRead e.path fault) e.sourceRange]), l)
  | (.ok text, l) =>
    match SourceFile.parse e.path text with
    | .error faults => ((none, faults), l)
    | .ok f => ((some f, r.refusedBlocks f e.sourceRange), l)

/-- Loading with notes is loading, with the path noted as read. -/
theorem loadNoting_eq (r : Resolver) (l : Effort) (e : Edge) :
    r.loadNoting l e = (r.load e, l.read e.path) := by
  unfold loadNoting load readNoting
  split
  · rename_i fault l' h
    obtain ⟨hread, rfl⟩ := Prod.mk.inj h
    simp [hread]
  · rename_i text l' h
    obtain ⟨hread, rfl⟩ := Prod.mk.inj h
    simp only [hread]
    cases SourceFile.parse e.path text <;> rfl

/-- One round of the loop of the expansion. -/
def round (r : Resolver) : Walk × Effort → Round (Walk × Effort) (Walk × Effort)
  | (w, l) =>
    match w.frames with
    | [] => .leave (w, l)
    | ⟨_, []⟩ :: frames => .again ({ w with frames }, l.tick)
    | ⟨path, e :: edges⟩ :: frames =>
      let w := { w with frames := ⟨path, edges⟩ :: frames }
      if e.path ∈ w.visited then .again (w, l.tick)
      else
        let w := { w with visited := e.path :: w.visited }
        match r.loadNoting l.tick e with
        | ((none, faults), l) => .again ({ w with errors := w.errors ++ faults }, l)
        | ((some f, faults), l) =>
          let (targets, more) := r.edges f (w.chain ++ [e.path])
          .again ({ w with
            frames := ⟨e.path, targets⟩ :: w.frames
            found := w.found ++ [f]
            errors := w.errors ++ faults ++ more }, l.push ⟨e.path, targets⟩)

/-- Expands a file within `n` rounds. -/
def expandNoting (r : Resolver) (n : Nat) (visited : List Path) (f : SourceFile) :
    Option (Expansion × Effort) :=
  if f.path ∈ visited then some (⟨[], [], visited⟩, ⟨0, [], []⟩)
  else
    let w := Walk.start r visited f
    (Round.loop r.round n (w, ⟨0, w.frames, []⟩)).map fun (w, l) =>
      (⟨w.found, w.errors, w.visited⟩, l)

/-- Expands files, one after the other, each within `n` rounds, with one set of visited paths. -/
def expandAllNoting (r : Resolver) (n : Nat) (visited : List Path) :
    List SourceFile → Option (Expansion × List Effort)
  | [] => some (⟨[], [], visited⟩, [])
  | f :: files =>
    (r.expandNoting n visited f).bind fun (first, l) =>
      (r.expandAllNoting n first.visited files).map fun (rest, ls) =>
        (⟨first.files ++ rest.files, first.errors ++ rest.errors, rest.visited⟩, l :: ls)

/-- A round without open frames is the last one. -/
theorem round_of_frames_nil (r : Resolver) {w : Walk} (l : Effort) (h : w.frames = []) :
    r.round (w, l) = .leave (w, l) := by
  simp [round, h]

/-- The edges of a frame are those that were accepted for a file at its path. -/
def Accepted (r : Resolver) (frame : Frame) : Prop :=
  ∃ f chain, f.path = frame.path ∧ frame.edges = (r.edges f chain).1

/-- What a round that goes on from a walk leads to, with its notes: an edge or a frame is taken off,
or so is an edge to a path that was not visited before, which is marked and read, and whose frame is
opened when it can be. -/
inductive Noted (r : Resolver) (w : Walk) (l : Effort) : Walk → Effort → Prop
  | pass {w' : Walk} (visited : w'.visited = w.visited) (pending : w.pending = w'.pending + 1) :
    Noted r w l w' l.tick
  | fail {w' : Walk} {p : Path} (new : p ∉ w.visited) (visited : w'.visited = p :: w.visited)
    (pending : w.pending = w'.pending + 1) : Noted r w l w' (l.tick.read p)
  | enter {w' : Walk} {p : Path} {targets : List Edge} (new : p ∉ w.visited)
    (known : p ∈ r.provider.readable) (accepted : r.Accepted ⟨p, targets⟩)
    (visited : w'.visited = p :: w.visited)
    (pending : w.pending + (targets.length + 1) = w'.pending + 1) :
    Noted r w l w' ((l.tick.read p).push ⟨p, targets⟩)

/-- A round that goes on is noted once. -/
theorem Noted.rounds {r : Resolver} {w w' : Walk} {l l' : Effort} (h : r.Noted w l w' l') :
    l'.rounds = l.rounds + 1 := by
  cases h <;> rfl

/-- A round takes a step of the walk, and notes what it does. -/
theorem round_of_frames_ne_nil (r : Resolver) {w : Walk} (l : Effort) (h : w.frames ≠ []) :
    ∃ l', r.round (w, l) = .again (w.step r, l') ∧ r.Noted w l (w.step r) l' := by
  obtain ⟨visited, frames, found, errors⟩ := w
  obtain ⟨⟨path, edges⟩, frames, rfl⟩ := List.exists_cons_of_ne_nil h
  unfold round Walk.step
  -- a frame without edges is closed, and else its first edge is taken off: its target was visited
  -- before, cannot be loaded, or is opened
  cases edges with
  | nil => exact ⟨_, rfl, .pass rfl (by simp [Walk.pending, Nat.add_comm])⟩
  | cons e edges =>
    by_cases hvisited : e.path ∈ visited
    · simp only [hvisited, if_true]
      refine ⟨_, rfl, .pass rfl ?_⟩
      simp only [Walk.pending, List.foldr_cons, List.length_cons]
      omega
    · simp only [hvisited, if_false, loadNoting_eq]
      cases hload : r.load e with
      | mk loaded faults =>
        cases loaded with
        | none =>
          refine ⟨_, rfl, .fail hvisited rfl ?_⟩
          simp only [Walk.pending, List.foldr_cons, List.length_cons]
          omega
        | some f =>
          have hloaded : (r.load e).1 = some f := by rw [hload]
          refine ⟨_, rfl, .enter hvisited (mem_readable_of_load hloaded)
            ⟨f, _, path_of_load hloaded, rfl⟩ rfl ?_⟩
          simp only [Walk.pending, List.foldr_cons, List.length_cons]
          omega

/-- The loop is left with the run, after the rounds that are noted and the last one. -/
theorem loop_round (r : Resolver) (w : Walk) (l : Effort) :
    ∃ l', l.rounds ≤ l'.rounds ∧
      ∀ n, l'.rounds < l.rounds + n → Round.loop r.round n (w, l) = some (w.run r, l') := by
  -- along the run of the walk, since each of its steps is one round of the loop
  induction w using Walk.run.induct r generalizing l with
  | case1 w hframes =>
    -- the round that leaves the loop is not noted, so one more is allowed
    refine ⟨l, Nat.le_refl _, fun n hn => ?_⟩
    obtain ⟨n, rfl⟩ := Nat.exists_eq_add_of_lt (Nat.pos_of_lt_add_right hn)
    rw [Walk.run_of_frames_nil r hframes]
    simp [Round.loop, round_of_frames_nil r l hframes]
  | case2 w hframes ih =>
    obtain ⟨l₁, hround, hnoted⟩ := round_of_frames_ne_nil r l hframes
    have hrounds := hnoted.rounds
    obtain ⟨l', hle, hloop⟩ := ih l₁
    refine ⟨l', by omega, fun n hn => ?_⟩
    cases n with
    | zero => omega
    | succ n =>
      rw [Walk.run_of_frames_ne_nil r hframes, Round.loop, hround]
      exact hloop n (by omega)

/-! ## The notes -/

/-- Paths that were not visited before and are visited now, each of them once. -/
structure Fresh (visited now ps : List Path) : Prop where
  nodup : ps.Nodup
  new : ∀ p ∈ ps, p ∉ visited
  seen : ∀ p ∈ ps, p ∈ now

namespace Fresh

variable {visited now ps : List Path}

theorem nil (visited : List Path) : Fresh visited visited [] :=
  ⟨.nil, List.forall_mem_nil _, List.forall_mem_nil _⟩

/-- Fresh paths stay fresh while more paths are visited. -/
theorem of_seen (h : Fresh visited now ps) {now' : List Path} (hnow : ∀ p ∈ now, p ∈ now') :
    Fresh visited now' ps :=
  ⟨h.nodup, h.new, fun p hp => hnow p (h.seen p hp)⟩

/-- One path is fresh if it was not visited before and is now. -/
theorem singleton {p : Path} (hnew : p ∉ visited) (hseen : p ∈ now) : Fresh visited now [p] where
  nodup := List.nodup_cons.2 ⟨List.not_mem_nil, .nil⟩
  new := List.forall_mem_singleton.2 hnew
  seen := List.forall_mem_singleton.2 hseen

/-- The paths of two parts, one after the other. -/
theorem append (h : Fresh visited now ps) (hmono : ∀ p ∈ visited, p ∈ now) {now' qs : List Path}
    (h' : Fresh now now' qs) (hmono' : ∀ p ∈ now, p ∈ now') : Fresh visited now' (ps ++ qs) where
  nodup := List.nodup_append.2 ⟨h.nodup, h'.nodup,
    fun p hp q hq heq => h'.new q hq (heq ▸ h.seen p hp)⟩
  new := List.forall_mem_append.2 ⟨h.new, fun q hq hv => h'.new q hq (hmono q hv)⟩
  seen := List.forall_mem_append.2 ⟨fun p hp => hmono' p (h.seen p hp), h'.seen⟩

/-- A path that is visited for the first time comes last. -/
theorem snoc (h : Fresh visited now ps) (hmono : ∀ p ∈ visited, p ∈ now) {p : Path}
    (hp : p ∉ now) : Fresh visited (p :: now) (ps ++ [p]) :=
  h.append hmono (.singleton hp List.mem_cons_self) fun _ hq => List.mem_cons_of_mem p hq

end Fresh

/-- What the notes of an expansion from a path say when the paths in `visited` were visited before
it, those in `now` are visited, and `left` rounds are still to come for the open frames. -/
structure Accounts (r : Resolver) (visited : List Path) (start : Path) (now : List Path)
    (left : Nat) (l : Effort) : Prop where
  mono : ∀ p ∈ visited, p ∈ now
  opened : Fresh visited now (l.opened.map Frame.path)
  known : ∀ frame ∈ l.opened, frame.path = start ∨ frame.path ∈ r.provider.readable
  accepted : ∀ frame ∈ l.opened, r.Accepted frame
  reads : Fresh visited now l.reads
  rounds : l.rounds + left = l.work

/-- The notes of a start: the frame of the file, no round and nothing read yet. -/
theorem accounts_start (r : Resolver) {visited : List Path} {f : SourceFile}
    (h : f.path ∉ visited) :
    r.Accounts visited f.path (Walk.start r visited f).visited (Walk.start r visited f).pending
      ⟨0, (Walk.start r visited f).frames, []⟩ where
  mono p hp := List.mem_cons_of_mem f.path hp
  opened := .singleton h List.mem_cons_self
  known := by simp [Walk.start]
  accepted := List.forall_mem_singleton.2 ⟨f, [f.path], rfl, rfl⟩
  reads := (Fresh.nil visited).of_seen fun p hp => List.mem_cons_of_mem f.path hp
  rounds := by simp [Walk.start, Walk.pending, Effort.work, Nat.add_comm]

/-- A round keeps the account. -/
theorem Noted.accounts {r : Resolver} {visited : List Path} {start : Path} {w w' : Walk}
    {l l' : Effort} (h : r.Noted w l w' l')
    (haccounts : r.Accounts visited start w.visited w.pending l) :
    r.Accounts visited start w'.visited w'.pending l' := by
  obtain ⟨hmono, hopened, hknown, haccepted, hreads, hrounds⟩ := haccounts
  cases h with
  -- an edge is taken off that leads nowhere new: a round for an edge that was noted
  | pass hvisited hpending =>
    refine ⟨hvisited ▸ hmono, hvisited ▸ hopened, hknown, haccepted, hvisited ▸ hreads, ?_⟩
    rw [Effort.rounds_tick, Effort.work, Effort.opened_tick, ← Effort.work]
    omega
  -- an edge that is read in vain: its path is visited and noted once
  | @fail p hnew hvisited hpending =>
    have hseen : ∀ q ∈ w.visited, q ∈ w'.visited :=
      fun q hq => hvisited ▸ List.mem_cons_of_mem p hq
    refine ⟨fun q hq => hseen q (hmono q hq), hopened.of_seen hseen, hknown,
      haccepted, hvisited ▸ hreads.snoc hmono hnew, ?_⟩
    rw [Effort.rounds_read, Effort.rounds_tick, Effort.work, Effort.opened_read,
      Effort.opened_tick, ← Effort.work]
    omega
  -- a frame is opened: it adds its edges and itself to the work, and to what is pending
  | @enter p targets hnew hin hedges hvisited hpending =>
    have hseen : ∀ q ∈ w.visited, q ∈ w'.visited :=
      fun q hq => hvisited ▸ List.mem_cons_of_mem p hq
    refine ⟨fun q hq => hseen q (hmono q hq), ?_, ?_, ?_, hvisited ▸ hreads.snoc hmono hnew, ?_⟩
    · rw [Effort.opened_push, List.map_append, hvisited]
      exact hopened.snoc hmono hnew
    · exact List.forall_mem_append.2 ⟨hknown, List.forall_mem_singleton.2 (.inr hin)⟩
    · exact List.forall_mem_append.2 ⟨haccepted, List.forall_mem_singleton.2 hedges⟩
    · have hwork : ((l.tick.read p).push ⟨p, targets⟩).work = l.work + (targets.length + 1) := by
        simp [Effort.work]
        omega
      rw [hwork, Effort.rounds_push, Effort.rounds_read, Effort.rounds_tick]
      omega

/-- The loop leaves with no frame open, and the account is kept up to there. -/
theorem accounts_of_loop {r : Resolver} {visited : List Path} {start : Path} {w w' : Walk}
    {l l' : Effort} {n : Nat} (haccounts : r.Accounts visited start w.visited w.pending l)
    (h : Round.loop r.round n (w, l) = some (w', l')) :
    r.Accounts visited start w'.visited 0 l' := by
  -- a round goes on exactly while a frame is open, so at the end nothing is pending
  have hagain : ∀ s s', r.round s = .again s' →
      r.Accounts visited start s.1.visited s.1.pending s.2 →
      r.Accounts visited start s'.1.visited s'.1.pending s'.2 := by
    rintro ⟨w, l⟩ s' hround hs
    by_cases hframes : w.frames = []
    · rw [round_of_frames_nil r l hframes] at hround
      cases hround
    · obtain ⟨l', hagain, hnoted⟩ := round_of_frames_ne_nil r l hframes
      obtain rfl := Round.again.inj (hagain.symm.trans hround)
      exact hnoted.accounts hs
  have hleave : ∀ s s', r.round s = .leave s' →
      r.Accounts visited start s.1.visited s.1.pending s.2 →
      r.Accounts visited start s'.1.visited 0 s'.2 := by
    rintro ⟨w, l⟩ s' hround hs
    by_cases hframes : w.frames = []
    · rw [round_of_frames_nil r l hframes] at hround
      obtain rfl := Round.leave.inj hround
      have hpending : w.pending = 0 := by simp [Walk.pending, hframes]
      exact hpending ▸ hs
    · obtain ⟨l', hagain, -⟩ := round_of_frames_ne_nil r l hframes
      rw [hagain] at hround
      cases hround
  exact Round.loop_induction hagain hleave haccounts h

/-- The expansion of a file ends, and is accounted for. -/
theorem exists_expandNoting (r : Resolver) (visited : List Path) (f : SourceFile) :
    ∃ l : Effort,
      (∀ n, l.rounds < n → r.expandNoting n visited f = some (r.expand visited f, l)) ∧
      r.Accounts visited f.path (r.expand visited f).visited 0 l := by
  unfold expandNoting expand
  by_cases hf : f.path ∈ visited
  · simp only [hf, if_true]
    exact ⟨⟨0, [], []⟩, fun n _ => rfl, fun p hp => hp, .nil visited, by simp, by simp,
      .nil visited, rfl⟩
  · simp only [hf, if_false]
    obtain ⟨l, -, hloop⟩ := r.loop_round (Walk.start r visited f)
      ⟨0, (Walk.start r visited f).frames, []⟩
    have hleft := hloop (l.rounds + 1) (by simp)
    refine ⟨l, fun n hn => ?_, accounts_of_loop (r.accounts_start hf) hleft⟩
    rw [hloop n (by simpa using hn)]
    rfl

/-- Expansions of files, one after the other, end and are accounted for, and the paths that they
read are all distinct. -/
theorem exists_expandAllNoting (r : Resolver) (visited : List Path) (starts : List SourceFile) :
    ∃ ls : List Effort,
      (∀ n, (∀ l ∈ ls, l.rounds < n) →
        r.expandAllNoting n visited starts = some (r.expandAll visited starts, ls)) ∧
      List.Forall₂ (fun f l => ∃ visited now, r.Accounts visited f.path now 0 l) starts ls ∧
      (∀ p ∈ visited, p ∈ (r.expandAll visited starts).visited) ∧
      Fresh visited (r.expandAll visited starts).visited (ls.flatMap Effort.reads) := by
  induction starts generalizing visited with
  | nil => exact ⟨[], fun _ _ => rfl, .nil, fun p hp => hp, .nil visited⟩
  | cons f starts ih =>
    obtain ⟨l, hexpand, haccounts⟩ := r.exists_expandNoting visited f
    obtain ⟨ls, hexpandAll, hall, hmono, hreads⟩ := ih (r.expand visited f).visited
    refine ⟨l :: ls, fun n hn => ?_, .cons ⟨_, _, haccounts⟩ hall,
      fun p hp => hmono p (haccounts.mono p hp), ?_⟩
    · obtain ⟨hl, hls⟩ := List.forall_mem_cons.1 hn
      rw [expandAllNoting, hexpand n hl, Option.bind_some]
      dsimp only
      rw [hexpandAll n hls]
      rfl
    · rw [List.flatMap_cons]
      exact haccounts.reads.append haccounts.mono hreads hmono

end Resolver

/-! ## Projects in memory -/

/-- What an expansion takes when only the files at some paths can be read: one frame at most for
each of them and one for the file that it starts from, and a round for each frame and each edge that
was accepted for one. -/
structure Effort.Bounded (r : Resolver) (paths : List Path) (start : SourceFile) (l : Effort) :
    Prop where
  opened_nodup : (l.opened.map Frame.path).Nodup
  opened_known : ∀ frame ∈ l.opened, frame.path = start.path ∨ frame.path ∈ paths
  opened_length : l.opened.length ≤ paths.dedup.length + 1
  accepted : ∀ frame ∈ l.opened, r.Accepted frame
  rounds : l.rounds = l.opened.length + (l.opened.flatMap Frame.edges).length

/-- When no frame is open any more, the notes say that the expansion is within its bounds. -/
theorem Resolver.Accounts.bounded {r : Resolver} {visited now : List Path} {f : SourceFile}
    {l : Effort} (h : r.Accounts visited f.path now 0 l) :
    l.Bounded r r.provider.readable f where
  opened_nodup := h.opened.nodup
  opened_known := h.known
  opened_length := by
    have hsubset : l.opened.map Frame.path ⊆ f.path :: r.provider.readable.dedup := by
      intro p hp
      obtain ⟨frame, hframe, rfl⟩ := List.mem_map.1 hp
      rcases h.known frame hframe with heq | hmem
      · exact heq ▸ List.mem_cons_self
      · exact List.mem_cons_of_mem _ (List.mem_dedup.2 hmem)
    simpa using (List.subperm_of_subset h.opened.nodup hsubset).length_le
  accepted := h.accepted
  rounds := h.rounds

/-- In a project in memory every expansion ends, whatever the root, the refused types and the files
of the scope are, and from whatever files it starts. The loop of each of the calls is left after one
round for each frame that it opens and each edge that is accepted for one; it opens a frame at most
for each path of the project and for its start; and no path is read twice in all the calls. -/
theorem Resolver.expansion_effort (tree : FileTree) (root : Path) (refused : List String)
    (own : List Path) (starts : List SourceFile) :
    let r : Resolver := ⟨tree.provider, root, refused, own⟩
    ∃ efforts : List Effort,
      (∀ n, (∀ l ∈ efforts, l.rounds < n) →
        r.expandAllNoting n [] starts = some (r.expandAll [] starts, efforts)) ∧
      List.Forall₂ (fun start l => l.Bounded r tree.paths start) starts efforts ∧
      (efforts.flatMap Effort.reads).Nodup := by
  intro r
  obtain ⟨efforts, hends, haccounts, -, hreads⟩ := r.exists_expandAllNoting [] starts
  exact ⟨efforts, hends, haccounts.imp fun _ _ ⟨_, _, h⟩ => h.bounded, hreads.nodup⟩

end ScopeConfig
