import ScopeConfig.Path.Basic

/-!
# Places in a source text

A place is counted three ways at once: by line and by column in the line, both from one and in
characters, and by byte from zero, in the UTF-8 form of the text. All three are moved by one rule,
`Pos.next`, so the place after a piece of text is `Pos.after`, whatever the piece was read as.

Lines and columns are counters of 32 bits that start over behind the last number, which a text of
four billion characters can reach. Bytes are counted in the width of an address, and no text in
memory has more of them than that can count.

A range is a file, as it is spelled, with the places where the range starts and stops.
-/

namespace ScopeConfig

/-- A place in a source text. -/
structure Pos where
  line : UInt32
  column : UInt32
  byte : Nat
deriving DecidableEq, Repr, Ord, Inhabited

namespace Pos

/-- The place before the first character. -/
def first : Pos := ⟨1, 1, 0⟩

/-- The place after one more character: a newline starts a line, any other character takes a
column. -/
def next (p : Pos) (c : Char) : Pos :=
  if c = '\n' then ⟨p.line + 1, 1, p.byte + c.utf8Size⟩
  else ⟨p.line, p.column + 1, p.byte + c.utf8Size⟩

/-- The place after a piece of text. -/
def after (p : Pos) (cs : List Char) : Pos :=
  cs.foldl next p

/-- No text leaves the place as it is. -/
@[simp] theorem after_nil (p : Pos) : p.after [] = p := rfl

/-- A text moves the place by its first character and then by the others. -/
@[simp] theorem after_cons (p : Pos) (c : Char) (cs : List Char) :
    p.after (c :: cs) = (p.next c).after cs := rfl

/-- The place after two texts is reached by way of the place after the first. -/
theorem after_append (p : Pos) (cs ds : List Char) :
    p.after (cs ++ ds) = (p.after cs).after ds := by
  simp [after]

end Pos

/-- A stretch of one source text. The file is kept as it was spelled. -/
structure SourceRange where
  file : String
  start : Pos
  stop : Pos
deriving DecidableEq, Repr, Inhabited

namespace SourceRange

/-- From the start of one range to the stop of another, in the file of the first. -/
def through (r s : SourceRange) : SourceRange :=
  { r with stop := s.stop }

/-- How a range is shown: the line once if the range stays on it. -/
def text (r : SourceRange) : String :=
  if r.start.line = r.stop.line then
    s!"{r.file}:{r.start.line},{r.start.column}-{r.stop.column}"
  else
    s!"{r.file}:{r.start.line},{r.start.column}-{r.stop.line},{r.stop.column}"

/-- Whether two ranges are the same places of the same file, however the file is spelled. -/
def same (r s : SourceRange) : Bool :=
  Path.ofText r.file = Path.ofText s.file && r.start = s.start && r.stop = s.stop

end SourceRange

end ScopeConfig
