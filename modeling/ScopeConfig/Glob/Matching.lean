import ScopeConfig.Glob.Pattern

/-!
# Matching a text with a pattern

`matchPieces` says when the pieces of a pattern match a whole text: it tries every way to divide
the text among the pieces, which takes time exponential in the number of wildcards.
`Pattern.matches` asks each question once. It works through the pieces from the last to the first
and keeps a *column*: for every tail of the text, whether the pieces seen so far match it. One pass
over the text makes the column of the next piece. Main statement: `matches_eq_matchPieces`, the two
agree.
-/

namespace ScopeConfig.Glob

/-! ## When a text matches -/

/-- Whether a piece that stands for one character matches this one. -/
def Piece.matchesChar : Piece → Char → Bool
  | char x, c => c = x
  | anyChar, c => c ≠ '/'
  | within items, c => c ≠ '/' && items.any (·.has c)
  | except items, c => c ≠ '/' && !items.any (·.has c)
  | anyText, _ => false
  | deep, _ => false

/-- Whether `next` accepts what is left after one character that the piece matches. -/
def Piece.afterChar (piece : Piece) (next : List Char → Bool) : List Char → Bool
  | [] => false
  | c :: cs => piece.matchesChar c && next cs

/-- Whether `next` accepts what is left after some characters other than slashes. -/
def afterText (next : List Char → Bool) : List Char → Bool
  | [] => next []
  | c :: cs => next (c :: cs) || (c ≠ '/' && afterText next cs)

/-- Whether `next` accepts what is left after one of the slashes of the text, or at its end. -/
def afterSlash (next : List Char → Bool) : List Char → Bool
  | [] => next []
  | c :: cs => (c = '/' && next cs) || afterSlash next cs

/-- Whether the piece matches the beginning of a text and `next` accepts what is left. A `*` takes
any characters but slashes; a `**` takes any number of whole components, each with the slash after
it, or all that is left. -/
def Piece.before (piece : Piece) (next : List Char → Bool) (cs : List Char) : Bool :=
  match piece with
  | anyText => afterText next cs
  | deep => next cs || afterSlash next cs
  | piece => piece.afterChar next cs

/-- Whether the pieces match the whole text. -/
def matchPieces : List Piece → List Char → Bool
  | [], cs => cs.isEmpty
  | piece :: rest, cs => piece.before (matchPieces rest) cs

/-! ## Columns -/

/-- The text and everything that is left of it after its first characters, the empty text last. -/
def tails : List Char → List (List Char)
  | [] => [[]]
  | c :: cs => (c :: cs) :: tails cs

/-- The column of `afterChar` from that of `next`. -/
def Piece.charColumn (piece : Piece) : List Char → List Bool → List Bool
  | c :: cs, _ :: next => (piece.matchesChar c && next.headD false) :: piece.charColumn cs next
  | _, _ => [false]

/-- The column of `afterText` from that of `next`. -/
def textColumn : List Char → List Bool → List Bool
  | c :: cs, here :: next =>
    let later := textColumn cs next
    (here || (c ≠ '/' && later.headD false)) :: later
  | _, next => next

/-- The column of `afterSlash` from that of `next`. -/
def slashColumn : List Char → List Bool → List Bool
  | c :: cs, _ :: next =>
    let later := slashColumn cs next
    ((c = '/' && next.headD false) || later.headD false) :: later
  | _, next => next

/-- The column of the piece and what follows it, from the column of what follows. -/
def Piece.column (piece : Piece) (cs : List Char) (next : List Bool) : List Bool :=
  match piece with
  | anyText => textColumn cs next
  | deep => List.zipWith (· || ·) next (slashColumn cs next)
  | piece => piece.charColumn cs next

/-- The column of a list of pieces. -/
def column (pieces : List Piece) (cs : List Char) : List Bool :=
  pieces.foldr (fun piece next => piece.column cs next) ((tails cs).map List.isEmpty)

/-- Whether the pattern matches the whole text. -/
def Pattern.matches (p : Pattern) (text : String) : Bool :=
  (column p.pieces text.toList).headD false

/-! ## Columns hold the answers -/

/-- The first entry of a column over all tails is the answer for the whole text. -/
theorem headD_map_tails (f : List Char → Bool) (cs : List Char) :
    ((tails cs).map f).headD false = f cs := by
  cases cs <;> rfl

/-- A column of answers for what follows a piece of one character gives the column of the piece. -/
theorem charColumn_map_tails (piece : Piece) (next : List Char → Bool) (cs : List Char) :
    piece.charColumn cs ((tails cs).map next) = (tails cs).map (piece.afterChar next) := by
  induction cs with
  | nil => rfl
  | cons c cs ih =>
    simp only [tails, List.map_cons, Piece.charColumn, Piece.afterChar, headD_map_tails, ih]

/-- The column of the piece `*` from the column of what follows it. -/
theorem textColumn_map_tails (next : List Char → Bool) (cs : List Char) :
    textColumn cs ((tails cs).map next) = (tails cs).map (afterText next) := by
  induction cs with
  | nil => rfl
  | cons c cs ih =>
    simp only [tails, List.map_cons, textColumn, afterText, ih, headD_map_tails]

/-- The column of the piece `**/` from the column of what follows it. -/
theorem slashColumn_map_tails (next : List Char → Bool) (cs : List Char) :
    slashColumn cs ((tails cs).map next) = (tails cs).map (afterSlash next) := by
  induction cs with
  | nil => rfl
  | cons c cs ih =>
    simp only [tails, List.map_cons, slashColumn, afterSlash, ih, headD_map_tails]

/-- One step of the table: from the answers of the later pieces to those of all pieces, at every
tail. -/
theorem column_map_tails (piece : Piece) (next : List Char → Bool) (cs : List Char) :
    piece.column cs ((tails cs).map next) = (tails cs).map (piece.before next) := by
  cases piece with
  | anyText => exact textColumn_map_tails next cs
  | deep =>
    simp only [Piece.column, slashColumn_map_tails, List.zipWith_map_left, List.zipWith_map_right,
      List.zipWith_self]
    rfl
  | _ => exact charColumn_map_tails _ next cs

/-- The table answers, at every tail of the text, what the matching of the pieces by recursion
answers. -/
theorem column_eq_map_tails (pieces : List Piece) (cs : List Char) :
    column pieces cs = (tails cs).map (matchPieces pieces) := by
  induction pieces with
  | nil => rfl
  | cons piece rest ih =>
    have step : column (piece :: rest) cs = piece.column cs (column rest cs) := rfl
    rw [step, ih, column_map_tails]
    simp only [matchPieces]

/-- A pattern matches exactly the texts that can be divided among its pieces. -/
theorem matches_eq_matchPieces (p : Pattern) (text : String) :
    p.matches text = matchPieces p.pieces text.toList := by
  rw [Pattern.matches, column_eq_map_tails, headD_map_tails]

end ScopeConfig.Glob
