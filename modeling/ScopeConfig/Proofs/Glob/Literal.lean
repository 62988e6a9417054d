import ScopeConfig.Glob.Matching

/-!
# Text that a pattern takes literally

`escape` puts every wildcard character of a text in a class of its own. A pattern that starts with
such a text and a slash is valid when the rest of it is a pattern, and it matches the text with the
slash in front of everything that the rest matches. The classes can be told from the text around
them, so that the text is found again.

## Main statements

* `unescaped_escaped_append`: the text is found again in a pattern that starts with it.
* `toOption_compile_escaped`: a pattern that starts with a literal text and a slash.
* `matches_literals_iff`: what such a pattern matches.
-/

namespace ScopeConfig.Glob

/-- Whether a character is put in a class of its own. -/
def isEscaped (c : Char) : Bool :=
  c = '?' || c = '*' || c = '[' || c = ']'

/-- How a pattern spells text that it takes literally. -/
def escaped (cs : List Char) : List Char :=
  cs.flatMap fun c => if isEscaped c then ['[', c, ']'] else [c]

/-- Escaping a text is escaping its characters. -/
theorem toList_escape (text : String) : (escape text).toList = escaped text.toList :=
  String.toList_ofList

/-- Escaping works piece by piece. -/
theorem escaped_append (cs ds : List Char) : escaped (cs ++ ds) = escaped cs ++ escaped ds :=
  List.flatMap_append

/-- A character with a meaning of its own is put into brackets. -/
theorem escaped_cons_of_pos {c : Char} (hc : isEscaped c = true) (cs : List Char) :
    escaped (c :: cs) = '[' :: c :: ']' :: escaped cs := by
  simp [escaped, hc]

/-- A character without a meaning of its own stays as it is. -/
theorem escaped_cons_of_neg {c : Char} (hc : isEscaped c = false) (cs : List Char) :
    escaped (c :: cs) = c :: escaped cs := by
  simp [escaped, hc]

/-! ## Undoing the classes -/

/-- Text with every class of one character replaced by the character. -/
def unescaped : List Char → List Char
  | '[' :: c :: ']' :: cs => c :: unescaped cs
  | c :: cs => c :: unescaped cs
  | [] => []

/-- A character that opens no class is read as it is. -/
theorem unescaped_cons {c : Char} (hc : c ≠ '[') (cs : List Char) :
    unescaped (c :: cs) = c :: unescaped cs := by
  rw [unescaped]
  intro d ds h
  exact absurd h hc

/-- Undoing the escape of a text in front of any rest gives back the text. -/
theorem unescaped_escaped_append (cs rest : List Char) :
    unescaped (escaped cs ++ rest) = cs ++ unescaped rest := by
  induction cs with
  | nil => rfl
  | cons c cs ih =>
    by_cases hc : isEscaped c = true
    · rw [escaped_cons_of_pos hc]
      simp only [List.cons_append, unescaped, ih]
    · have hopen : c ≠ '[' := by
        rintro rfl
        exact hc (by decide)
      rw [escaped_cons_of_neg (by simpa using hc), List.cons_append, unescaped_cons hopen, ih,
        List.cons_append]

/-- Text without an opening bracket holds no class. -/
theorem unescaped_of_not_mem {cs : List Char} (h : '[' ∉ cs) : unescaped cs = cs := by
  induction cs with
  | nil => rfl
  | cons c cs ih =>
    rw [List.mem_cons, not_or] at h
    rw [unescaped_cons (Ne.symm h.1), ih h.2]

/-! ## The pieces of a pattern -/

/-- Mapping a result and forgetting its error can be done in either order. -/
theorem toOption_map {ε α β : Type} (f : α → β) (r : Except ε α) :
    (r.map f).toOption = r.toOption.map f := by
  cases r <;> rfl

theorem toOption_eq_some_iff {ε α : Type} {r : Except ε α} {a : α} :
    r.toOption = some a ↔ r = .ok a := by
  cases r <;> simp [Except.toOption]

theorem toOption_error {ε α : Type} (e : ε) : (.error e : Except ε α).toOption = none :=
  rfl

/-- A character that is none of `?`, `*` and `[` compiles to a piece of its own. -/
theorem compilePieces_char {c : Char} (hany : c ≠ '?') (hstar : c ≠ '*') (hopen : c ≠ '[')
    (position : Nat) (atComponent : Bool) (rest : List Char) :
    compilePieces position atComponent (c :: rest) =
      (compilePieces (position + 1) (c = '/') rest).map (.char c :: ·) := by
  rw [compilePieces]
  · exact fun h => absurd h hany
  · exact fun _ h => absurd h hstar
  · exact fun _ h => absurd h hstar
  · exact fun h => absurd h hstar
  · exact fun h => absurd h hopen

/-- A class that is read compiles to its piece. -/
theorem compilePieces_class {rest after : List Char} {piece : Piece}
    (h : class? rest = some (piece, after)) (position : Nat) (atComponent : Bool) :
    compilePieces position atComponent ('[' :: rest) =
      (compilePieces (position + 1 + (rest.length - after.length)) false after).map
        (piece :: ·) := by
  rw [compilePieces]
  split
  · rename_i hnone
    rw [h] at hnone
    cases hnone
  · rename_i hclass
    rw [h] at hclass
    cases hclass
    rfl

/-- The pieces do not depend on how many characters were read before. -/
theorem toOption_compilePieces (n m : Nat) (atComponent : Bool) (cs : List Char) :
    (compilePieces n atComponent cs).toOption = (compilePieces m atComponent cs).toOption := by
  fun_induction compilePieces n atComponent cs generalizing m
  case case1 => rw [compilePieces]
  case case2 ih => rw [compilePieces, toOption_map, toOption_map, ih]
  case case3 => rw [compilePieces, toOption_error, toOption_error]
  case case4 => simp [compilePieces]
  case case5 ih => rw [compilePieces, if_pos rfl, toOption_map, toOption_map, ih]
  case case6 => simp [*, compilePieces, toOption_error]
  case case7 hlong hinside =>
    rw [compilePieces.eq_def]
    simp [hinside, toOption_error]
  case case8 hlong htwo ih =>
    rw [compilePieces, toOption_map, toOption_map, ih]
    · exact hlong
    · exact htwo
  case case9 n atComponent rest hclass =>
    rw [compilePieces]
    split
    · rfl
    · rename_i hclass'
      simp [hclass] at hclass'
  case case10 hclass ih => rw [compilePieces_class hclass, toOption_map, toOption_map, ih]
  case case11 hany _ _ hstar hopen ih =>
    rw [compilePieces_char hany hstar hopen, toOption_map, toOption_map, ih]

/-- The piece that matches a character alone, as `escape` spells it. -/
def literal (c : Char) : Piece :=
  if isEscaped c then .within [.single c] else .char c

/-- An escaped character is read as the class of that character. -/
theorem class?_escaped {c : Char} (hc : isEscaped c = true) (rest : List Char) :
    class? (c :: ']' :: rest) = some (.within [.single c], rest) := by
  have hne : c ≠ '!' := by
    rintro rfl
    revert hc
    decide
  rw [class?]
  · simp [classBody?, classItems]
  · exact fun _ h => hne (List.cons.inj h).1

/-- A literal text is read as one piece for each of its characters. -/
theorem toOption_compilePieces_escaped_append (cs rest : List Char) (atComponent : Bool) :
    ∃ atRest, (compilePieces 0 atComponent (escaped cs ++ rest)).toOption =
      (compilePieces 0 atRest rest).toOption.map (cs.map literal ++ ·) := by
  induction cs generalizing atComponent with
  | nil => exact ⟨atComponent, by simp [escaped]⟩
  | cons c cs ih =>
    by_cases hc : isEscaped c = true
    · obtain ⟨atRest, hrest⟩ := ih false
      refine ⟨atRest, ?_⟩
      have hpiece : literal c = .within [.single c] := if_pos hc
      rw [escaped_cons_of_pos hc, List.cons_append, List.cons_append, List.cons_append,
        compilePieces_class (class?_escaped hc _), toOption_map, toOption_compilePieces _ 0, hrest,
        Option.map_map, List.map_cons, hpiece]
      rfl
    · obtain ⟨atRest, hrest⟩ := ih (c = '/')
      refine ⟨atRest, ?_⟩
      have hpiece : literal c = .char c := if_neg hc
      simp only [isEscaped, Bool.or_eq_true, decide_eq_true_eq, not_or] at hc
      obtain ⟨⟨⟨hany, hstar⟩, hopen⟩, hclose⟩ := hc
      rw [escaped_cons_of_neg (by simp [isEscaped, *]), List.cons_append,
        compilePieces_char hany hstar hopen, toOption_map, toOption_compilePieces _ 0, hrest,
        Option.map_map, List.map_cons, hpiece]
      rfl

/-- A literal text and a slash in front of a pattern: the pattern starts a component, as it does on
its own. -/
theorem toOption_compilePieces_escaped (cs rest : List Char) :
    (compilePieces 0 true (escaped cs ++ '/' :: rest)).toOption =
      (compilePieces 0 true rest).toOption.map ((cs ++ ['/']).map literal ++ ·) := by
  obtain ⟨atRest, hrest⟩ := toOption_compilePieces_escaped_append cs ('/' :: rest) true
  rw [hrest, compilePieces_char (by decide) (by decide) (by decide), toOption_map,
    toOption_compilePieces _ 0, Option.map_map]
  simp only [decide_true, List.map_append, List.map_cons, List.map_nil, List.append_assoc]
  rfl

/-! ## Matching -/

/-- A literal piece matches its character and no other. -/
theorem matchesChar_literal (c d : Char) : (literal c).matchesChar d = decide (d = c) := by
  by_cases hc : isEscaped c = true
  · have hslash : c ≠ '/' := by
      rintro rfl
      revert hc
      decide
    have hpiece : literal c = .within [.single c] := if_pos hc
    rw [hpiece, Bool.eq_iff_iff]
    simp only [Piece.matchesChar, ClassItem.has, List.any_cons, List.any_nil, Bool.or_false,
      Bool.and_eq_true, decide_eq_true_eq]
    exact ⟨And.right, fun h => ⟨h ▸ hslash, h⟩⟩
  · have hpiece : literal c = .char c := if_neg hc
    rw [hpiece, Piece.matchesChar]

/-- A literal piece takes one character off the text. -/
theorem before_literal (c : Char) (next : List Char → Bool) (cs : List Char) :
    (literal c).before next cs = (literal c).afterChar next cs := by
  unfold literal
  split <;> rfl

/-- Pieces for a literal text match it with everything behind it that the other pieces match. -/
theorem matchPieces_literals_iff {front text : List Char} {pieces : List Piece} :
    matchPieces (front.map literal ++ pieces) text = true ↔
      ∃ tail, text = front ++ tail ∧ matchPieces pieces tail = true := by
  induction front generalizing text with
  | nil => simp
  | cons c front ih =>
    rw [List.map_cons, List.cons_append, matchPieces, before_literal]
    cases text with
    | nil => simp [Piece.afterChar]
    | cons d text =>
      rw [Piece.afterChar, matchesChar_literal, Bool.and_eq_true, decide_eq_true_eq, ih]
      constructor
      · rintro ⟨rfl, tail, rfl, htail⟩
        exact ⟨tail, rfl, htail⟩
      · rintro ⟨tail, htext, htail⟩
        obtain ⟨rfl, rfl⟩ := List.cons.inj htext
        exact ⟨rfl, tail, rfl, htail⟩

/-! ## Patterns that start with literal text -/

section Compile

variable {whole rest : String} {front : List Char}

/-- A pattern stays valid, or not, with a literal text and a slash in front of it. -/
theorem toOption_compile_escaped (h : whole.toList = escaped front ++ '/' :: rest.toList) :
    (Pattern.compile whole).toOption = (Pattern.compile rest).toOption.map fun p =>
      ⟨whole, (front ++ ['/']).map literal ++ p.pieces⟩ := by
  rw [Pattern.compile, Pattern.compile, toOption_map, toOption_map, h,
    toOption_compilePieces_escaped, Option.map_map, Option.map_map]
  rfl

/-- It then matches the text and the slash with everything behind them that it matched alone. -/
theorem matches_literals_iff {p : Pattern} {text : String} :
    (⟨whole, (front ++ ['/']).map literal ++ p.pieces⟩ : Pattern).matches text = true ↔
      ∃ tail : String, text.toList = front ++ '/' :: tail.toList ∧ p.matches tail = true := by
  simp only [matches_eq_matchPieces, matchPieces_literals_iff, List.append_assoc,
    List.singleton_append]
  constructor
  · rintro ⟨tail, htext, htail⟩
    exact ⟨String.ofList tail, by rwa [String.toList_ofList], by rwa [String.toList_ofList]⟩
  · rintro ⟨tail, htext, htail⟩
    exact ⟨tail.toList, htext, htail⟩

end Compile

end ScopeConfig.Glob
