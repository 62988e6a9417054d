import ScopeConfig.Diagnostic.Basic
import ScopeConfig.Syntax.Lexeme
import ScopeConfig.Syntax.Tree

/-!
# Expressions, heads and ends of entries

The pieces of an entry that are read without looking inside a body. An expression is not parsed: it
is the tokens up to a newline or a closing brace outside of all brackets, where the brackets are
only counted. A reader that fails leaves the rest of the tokens from the one it failed at;
`recover` then finds the end of the broken entry.
-/

namespace ScopeConfig.Syntax

/-- What a body is read from: the file as spelled, its text, and the place where the text ends. -/
structure Origin where
  file : String
  source : List Char
  stop : Pos

/-- The range of the next token, or the end of the text. -/
def Origin.here (o : Origin) : List Located → SourceRange
  | t :: _ => t.range o.file
  | [] => ⟨o.file, o.stop, o.stop⟩

/-! ## Text between two places -/

/-- The text without its first `n` bytes. -/
def dropBytes : Nat → List Char → List Char
  | _, [] => []
  | n, c :: cs => if n = 0 then c :: cs else dropBytes (n - c.utf8Size) cs

/-- The first `n` bytes of a text. -/
def takeBytes : Nat → List Char → List Char
  | _, [] => []
  | n, c :: cs => if n = 0 then [] else c :: takeBytes (n - c.utf8Size) cs

/-- The text from one byte to another. -/
def Origin.slice (o : Origin) (start stop : Nat) : String :=
  String.ofList (takeBytes (stop - start) (dropBytes start o.source))

/-! ## Expressions -/

/-- How many tokens the expression at the front takes when `depth` brackets are open, and what is
wrong with the token after them, if anything is. -/
def capture : Nat → List Located → Option Fault × Nat
  | 0, [] => (none, 0)
  | _ + 1, [] => (some .openBracket, 0)
  | depth, t :: ts =>
    match t.token with
    | .newline =>
      if depth = 0 then (none, 0) else (capture depth ts).map id (· + 1)
    | .symbol s =>
      if s.opens then (capture (depth + 1) ts).map id (· + 1)
      else if s.closes then
        match depth with
        | 0 => if s = .rbrace then (none, 0) else (some (.strayClosing s), 0)
        | depth + 1 => (capture depth ts).map id (· + 1)
      else (capture depth ts).map id (· + 1)
    | _ => (capture depth ts).map id (· + 1)

/-- The expression that these tokens make up. -/
def Origin.expr (o : Origin) (first : Located) (more : List Located) : Expr :=
  let last := more.getLast?.getD first
  ⟨first :: more, o.slice first.start.byte last.stop.byte, ⟨o.file, first.start, last.stop⟩⟩

/-- Reads an expression; the rest of the tokens comes with it, also after a fault. -/
def expression (o : Origin) (ts : List Located) : Except Diagnostic Expr × List Located :=
  let (fault, count) := capture 0 ts
  let rest := ts.drop count
  match fault, ts.take count with
  | some fault, _ => (.error (.malformed fault (o.here rest)), rest)
  | none, [] => (.error (.malformed .missingExpression (o.here rest)), rest)
  | none, first :: more => (.ok (o.expr first more), rest)

/-- Reading an expression leaves no more than there was. -/
theorem expression_length (o : Origin) (ts : List Located) :
    (expression o ts).2.length ≤ ts.length := by
  unfold expression
  simp only
  split <;> simp

/-! ## Heads of blocks -/

/-- Reads the labels of a block up to and with its opening brace, which comes with them. -/
def header (o : Origin) : List Located → Except Diagnostic (List Label × Located) × List Located
  | [] => (.error (.malformed (.expectedHeader none) (o.here [])), [])
  | t :: ts =>
    let withLabel (text : String) :=
      let (outcome, rest) := header o ts
      (outcome.map fun (labels, brace) => (⟨text, t.range o.file⟩ :: labels, brace), rest)
    match t.token with
    | .word text => withLabel text
    | .str text false => withLabel text
    | .str _ true => (.error (.malformed .templateLabel (t.range o.file)), t :: ts)
    | .symbol .lbrace => (.ok ([], t), ts)
    | token => (.error (.malformed (.expectedHeader (some token)) (t.range o.file)), t :: ts)

theorem header_length (o : Origin) (ts : List Located) :
    (header o ts).2.length ≤ ts.length := by
  induction ts with
  | nil => simp [header]
  | cons t ts ih =>
    simp only [header]
    split
    all_goals simp only [List.length_cons]
    all_goals omega

/-! ## Ends of entries -/

/-- Reads the end of an entry: a newline, or, not read, the end of the text or a closing brace. -/
def entryEnd (o : Origin) : List Located → Except Diagnostic Unit × List Located
  | [] => (.ok (), [])
  | t :: ts =>
    match t.token with
    | .newline => (.ok (), ts)
    | .symbol .rbrace => (.ok (), t :: ts)
    | token => (.error (.malformed (.expectedNewline (some token)) (t.range o.file)), t :: ts)

theorem entryEnd_length (o : Origin) (ts : List Located) :
    (entryEnd o ts).2.length ≤ ts.length := by
  unfold entryEnd
  split
  · simp
  · split <;> simp

/-- What is left from the end of a broken entry on: the next newline or closing brace at depth
zero. Opening brackets count up and closing ones down, also below zero. The depth is an integer
without bounds: to leave the 32 bits of a machine counter it takes more than two billion brackets,
and their tokens, of several dozen bytes each, do not fit in a hundred gigabytes. -/
def recover : Int → List Located → List Located
  | _, [] => []
  | depth, t :: ts =>
    match t.token with
    | .newline => if depth = 0 then t :: ts else recover depth ts
    | .symbol s =>
      if s.opens then recover (depth + 1) ts
      else if s.closes then
        if s = .rbrace && depth = 0 then t :: ts else recover (depth - 1) ts
      else recover depth ts
    | _ => recover depth ts

/-- The recovery leaves no more than there was. -/
theorem recover_length (depth : Int) (ts : List Located) :
    (recover depth ts).length ≤ ts.length := by
  induction ts generalizing depth with
  | nil => simp [recover]
  | cons t ts ih =>
    simp only [recover]
    repeat' split
    all_goals first
      | exact Nat.le_refl _
      | exact Nat.le_succ_of_le (ih _)

end ScopeConfig.Syntax
