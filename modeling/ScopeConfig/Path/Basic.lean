import ScopeConfig.Text.Split

/-!
# Paths by component

A path is a list of steps, from the root of the file system or from an unnamed place. Reading one
from text drops what does not count: repeated and trailing slashes and inner `.` parts. Two
spellings name the same path exactly when they read as the same steps, and paths are ordered step
by step, so that `/m/a/b` comes before `/m/a-b`.

`Path.normalize` folds the `..` steps against the names before them, without looking at any file.
-/

namespace ScopeConfig

/-- One step of a path: to the same directory, to the parent, or to a named entry. -/
inductive Step where
  | here
  | up
  | name (text : String)
deriving DecidableEq, Repr, Ord

/-- A path from the root (`rooted`) or from an unnamed place, as the steps it takes. -/
structure Path where
  rooted : Bool
  steps : List Step
deriving DecidableEq, Repr, Inhabited

namespace Step

/-- How a step is spelled. -/
def text : Step → String
  | here => "."
  | up => ".."
  | name s => s

/-- The step that a part between two slashes stands for; an empty part is none. -/
def ofPart : List Char → Option Step
  | [] => none
  | ['.'] => some here
  | ['.', '.'] => some up
  | part => some (name (String.ofList part))

end Step

namespace Path

/-- The root of the file system. -/
def root : Path := ⟨true, []⟩

/-- The unnamed place that relative paths start from. -/
def empty : Path := ⟨false, []⟩

/-! ## Reading and writing -/

/-- The path that a text spells. A leading `.` of a relative path counts, every other one does
not. -/
def ofText (s : String) : Path :=
  let steps := (Text.splitAt '/' s.toList).filterMap Step.ofPart
  match s.toList with
  | '/' :: _ => ⟨true, steps.filter (· ≠ .here)⟩
  | _ =>
    match steps with
    | .here :: rest => ⟨false, .here :: rest.filter (· ≠ .here)⟩
    | steps => ⟨false, steps.filter (· ≠ .here)⟩

/-- The plain spelling of a path: its steps joined by single slashes. -/
def text (p : Path) : String :=
  (if p.rooted then "/" else "") ++ "/".intercalate (p.steps.map Step.text)

/-! ## Taking paths apart -/

/-- The path without its last step; the root and the empty path have no parent. -/
def parent? (p : Path) : Option Path :=
  if p.steps = [] then none else some { p with steps := p.steps.dropLast }

/-- The path without its last step, if it has one. -/
def pop (p : Path) : Path :=
  { p with steps := p.steps.dropLast }

/-- The name of the last step, if the last step is a name. -/
def fileName? (p : Path) : Option String :=
  match p.steps.getLast? with
  | some (.name s) => some s
  | _ => none

/-- Whether the steps of `base` are the first steps of `p`. The empty path is the start of every
path. -/
def startsWith (p base : Path) : Bool :=
  if base.rooted then p.rooted && base.steps.isPrefixOf p.steps
  else base.steps.isEmpty || (!p.rooted && base.steps.isPrefixOf p.steps)

/-! ## Putting paths together -/

/-- The path `q` seen from `p`: a rooted `q` replaces `p`. -/
def join (p q : Path) : Path :=
  if q.rooted || p = empty then q
  else { p with steps := p.steps ++ q.steps.filter (· ≠ .here) }

/-- The entry `s` of the directory `p`. -/
def child (p : Path) (s : String) : Path :=
  { p with steps := p.steps ++ [.name s] }

/-! ## Normal form -/

/-- Takes one more step from a normal path, whose steps are given last first. A `..` cancels the
name before it; it does nothing at the root and stays where there is nothing to cancel. -/
def pushStep (rooted : Bool) (taken : List Step) : Step → List Step
  | .here => taken
  | .name s => .name s :: taken
  | .up =>
    match taken with
    | .name _ :: rest => rest
    | [] => if rooted then [] else [.up]
    | taken => .up :: taken

/-- The path with its `.` and `..` steps resolved by spelling alone. -/
def normalize (p : Path) : Path :=
  { p with steps := (p.steps.foldl (pushStep p.rooted) []).reverse }

@[simp] theorem normalize_rooted (p : Path) : p.normalize.rooted = p.rooted := rfl

/-! ## Order -/

/-- Compares two paths component by component, the root counting as the first component of a
rooted path and coming before every step. -/
def compare (p q : Path) : Ordering :=
  match p.rooted, q.rooted with
  | true, false => if q.steps = [] then .gt else .lt
  | false, true => if p.steps = [] then .lt else .gt
  | _, _ => List.compareLex Ord.compare p.steps q.steps

instance : Ord Path := ⟨Path.compare⟩

/-- Whether `p` comes before `q` or is the same path. -/
def le (p q : Path) : Bool :=
  (p.compare q).isLE

end Path

end ScopeConfig
