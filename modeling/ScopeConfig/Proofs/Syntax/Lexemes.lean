import Mathlib.Data.List.TakeWhile
import ScopeConfig.Syntax.Lexeme

/-!
# The text of a lexeme

What a reader takes from the front of a text when it finds something: the text of a token, or text
that is skipped. Each reader has one lemma that gives the shape of what it takes, whatever else the
text holds.

## Main statements

* `Spells`: the texts that a token can be read from.
* `spells_of_lexeme`: the text that the reader takes spells the token that it finds.
* `skipped_of_lexeme`: text without a token is a blank, a comment on a line or a block comment.
-/

namespace ScopeConfig.Syntax

/-! ## Spellings -/

/-- How a symbol is written. -/
def Symbol.spelling : Symbol → List Char
  | lbrace => ['\x7b']
  | rbrace => ['\x7d']
  | lbracket => ['[']
  | rbracket => [']']
  | lparen => ['(']
  | rparen => [')']
  | assign => ['=']
  | comma => [',']
  | dot => ['.']
  | ellipsis => ['.', '.', '.']
  | colon => [':']
  | question => ['?']
  | fatArrow => ['=', '>']
  | eq => ['=', '=']
  | neq => ['!', '=']
  | lt => ['<']
  | lte => ['<', '=']
  | gt => ['>']
  | gte => ['>', '=']
  | plus => ['+']
  | minus => ['-']
  | star => ['*']
  | slash => ['/']
  | percent => ['%']
  | and => ['&', '&']
  | or => ['|', '|']
  | bang => ['!']

/-- The texts that a token can be read from. A word and a number are their own text, and a string is
written between quotes or as a heredoc. -/
inductive Spells : Token → List Char → Prop
  | newline : Spells .newline ['\n']
  | word {text : List Char} (hne : text ≠ []) (hline : '\n' ∉ text) :
    Spells (.word (String.ofList text)) text
  | number {text : List Char} (hne : text ≠ []) (hline : '\n' ∉ text) :
    Spells (.number (String.ofList text)) text
  | symbol (s : Symbol) : Spells (.symbol s) s.spelling
  | quoted {value : String} {template : Bool} (body : List Char) :
    Spells (.str value template) ('"' :: (body ++ ['"']))
  | heredoc {value : String} {template : Bool} (body : List Char) :
    Spells (.str value template) ('<' :: '<' :: body)

/-- Text that is skipped, with the text after it: a blank that is no newline, a comment up to the
end of its line, or a block comment up to the first place where one can end. -/
inductive Skipped : List Char → List Char → Prop
  | blank {c : Char} (after : List Char) (hblank : Text.isBlank c = true) (hline : c ≠ '\n') :
    Skipped [c] after
  | lineComment {text after : List Char} (hopening : ['#'] <+: text ∨ ['/', '/'] <+: text)
    (hline : '\n' ∉ text) (hend : after = [] ∨ after.head? = some '\n') : Skipped text after
  | blockComment {inner : List Char} (after : List Char) (hinner : ¬ ['*', '/'] <:+: inner) :
    Skipped ('/' :: '*' :: (inner ++ ['*', '/'])) after

namespace Spells

variable {t : Token} {text : List Char}

/-- No token is spelled as nothing. -/
theorem ne_nil (h : Spells t text) : text ≠ [] := by
  cases h with
  | word hne _ => exact hne
  | number hne _ => exact hne
  | symbol s => cases s <;> exact List.cons_ne_nil _ _
  | _ => exact List.cons_ne_nil _ _

/-- A newline is a token of its own or stands in a string. -/
theorem newline_or_str (h : Spells t text) (hline : '\n' ∈ text) :
    t = .newline ∧ text = ['\n'] ∨ ∃ value template, t = .str value template := by
  cases h with
  | newline => exact .inl ⟨rfl, rfl⟩
  | word _ hnone => exact (hnone hline).elim
  | number _ hnone => exact (hnone hline).elim
  | symbol s => cases s <;> simp [Symbol.spelling] at hline
  | quoted _ => exact .inr ⟨_, _, rfl⟩
  | heredoc _ => exact .inr ⟨_, _, rfl⟩

end Spells

/-! ## The front of a line -/

/-- `text` stands at the front of `cs` and does not go beyond its first line. -/
structure FrontOfLine (text cs : List Char) : Prop where
  front : text <+: cs
  line : '\n' ∉ text

namespace FrontOfLine

variable {text more cs : List Char}

theorem nil (cs : List Char) : FrontOfLine [] cs :=
  ⟨List.nil_prefix, List.not_mem_nil⟩

/-- One more character that is no newline, at the front of a line. -/
theorem cons (h : FrontOfLine text cs) {c : Char} (hc : c ≠ '\n') :
    FrontOfLine (c :: text) (c :: cs) :=
  ⟨(List.prefix_cons_inj c).2 h.front, by simpa [Ne.symm hc] using h.line⟩

/-- Text at the front, and then text at the front of what is left. -/
theorem append (h : FrontOfLine text cs) (hmore : FrontOfLine more (cs.drop text.length)) :
    FrontOfLine (text ++ more) cs where
  front := by
    obtain ⟨rest, rfl⟩ := h.front
    have hfront := hmore.front
    rw [List.drop_left] at hfront
    exact (List.prefix_append_right_inj text).2 hfront
  line := by
    simp [h.line, hmore.line]

/-- Characters that are taken while a condition holds are at the front of a line, if the condition
fails for a newline. -/
theorem takeWhile {p : Char → Bool} (hp : p '\n' = false) (cs : List Char) :
    FrontOfLine (cs.takeWhile p) cs where
  front := List.takeWhile_prefix p
  line hmem := by simpa [hp] using List.mem_takeWhile_imp hmem

/-- What is taken for text at the front is the text. -/
theorem take_eq (h : FrontOfLine text cs) : cs.take text.length = text :=
  (List.prefix_iff_eq_take.1 h.front).symm

end FrontOfLine

/-! ## Comments and strings -/

namespace Reading

variable {α β : Type} {r : Reading α} {cs tail : List Char}

/-- What is found from a later place was found there. -/
theorem exists_of_after {n : Nat} {g : α → β} {value : β} (h : (r.after n g).outcome = .ok value) :
    ∃ found, r.outcome = .ok found ∧ g found = value := by
  cases houtcome : r.outcome with
  | error f => simp [after, houtcome, Except.map] at h
  | ok found => exact ⟨found, rfl, by simpa [after, houtcome, Except.map] using h⟩

/-- When something is found, what is taken of `cs` for it ends with `tail`. -/
def EndsWith (r : Reading α) (cs tail : List Char) : Prop :=
  ∀ value, r.outcome = .ok value → ∃ body, cs.take r.used = body ++ tail

/-- A fault finds nothing, so that there is no end to speak of. -/
theorem endsWith_fault (f : Fault) (used : Nat) (cs tail : List Char) :
    (fault f used : Reading α).EndsWith cs tail := by
  intro value h
  cases h

/-- Reading from a later place on changes the front of what is taken only. -/
theorem EndsWith.after (h : r.EndsWith cs tail) (front : List Char) (g : α → β) :
    (r.after front.length g).EndsWith (front ++ cs) tail := by
  intro value hvalue
  obtain ⟨found, hfound, -⟩ := exists_of_after hvalue
  obtain ⟨body, hbody⟩ := h found hfound
  refine ⟨front ++ body, ?_⟩
  rw [List.append_assoc, ← hbody]
  exact List.take_length_add_append r.used

end Reading

/-- A quoted string ends with a quote, from wherever inside it the rest is read: by induction along
the reader, which finds something at the closing quote only. -/
theorem endsWith_quotedRest (mode : Mode) (cs : List Char) :
    (quotedRest mode cs).EndsWith cs ['"'] := by
  fun_induction quotedRest mode cs
  case case2 => exact fun _ _ => ⟨[], rfl⟩
  all_goals first
    | exact Reading.endsWith_fault _ _ _ _
    | (rename_i ih; exact ih.after [_] _)
    | (rename_i ih; exact ih.after [_, _] _)
    | (rename_i ih; exact ih.after [_, _, _] _)

/-- A block comment ends at the first place where one can end. -/
theorem take_commentEnd {cs : List Char} (h : (commentEnd cs).outcome = .ok ()) :
    ∃ inner, cs.take (commentEnd cs).used = inner ++ ['*', '/'] ∧ ¬ ['*', '/'] <:+: inner := by
  fun_induction commentEnd cs with
  | case1 => cases h
  | case2 rest => exact ⟨[], rfl, by simp⟩
  | case3 c cs hopen ih =>
    obtain ⟨⟨⟩, hrest, -⟩ := Reading.exists_of_after h
    obtain ⟨inner, htake, hinner⟩ := ih hrest
    refine ⟨c :: inner, ?_, ?_⟩
    · simp [Reading.after, Nat.add_comm 1, htake]
    · rw [List.infix_cons_iff]
      rintro (hfront | hinfix)
      · -- the comment would have ended at `c`
        obtain ⟨hstar, more, rfl⟩ := List.cons_prefix_cons.1 hfront
        have hslash := List.take_append_drop (commentEnd cs).used cs
        rw [htake] at hslash
        exact hopen _ hstar.symm hslash.symm
      · exact hinner hinfix

/-- What is left of a text after its first line starts with the newline. -/
theorem drop_firstLine (cs : List Char) :
    cs.drop (cs.takeWhile (· ≠ '\n')).length = [] ∨
      (cs.drop (cs.takeWhile (· ≠ '\n')).length).head? = some '\n' := by
  induction cs with
  | nil => exact .inl rfl
  | cons c cs ih =>
    by_cases hc : c = '\n'
    · exact .inr (by simp [hc])
    · simpa [hc] using ih

/-- A comment up to the end of the line is read from its first character on. -/
theorem skipped_lineComment {c : Char} {cs : List Char} (hc : c ≠ '\n')
    (hopening : ['#'] <+: c :: cs.takeWhile (· ≠ '\n') ∨
      ['/', '/'] <+: c :: cs.takeWhile (· ≠ '\n')) :
    Skipped (c :: cs.take (cs.takeWhile (· ≠ '\n')).length)
      (cs.drop (cs.takeWhile (· ≠ '\n')).length) := by
  have hfront : FrontOfLine (cs.takeWhile (· ≠ '\n')) cs := .takeWhile (by decide) cs
  rw [hfront.take_eq]
  exact .lineComment hopening (hfront.cons hc).line (drop_firstLine cs)

/-! ## Numbers -/

/-- Digits are at the front of a line. -/
theorem frontOfLine_digits (cs : List Char) : FrontOfLine (digits cs) cs :=
  .takeWhile (by decide) cs

theorem frontOfLine_fraction (cs : List Char) : FrontOfLine (fraction cs) cs := by
  unfold fraction
  split
  · split
    · exact (frontOfLine_digits _).cons (by decide)
    · exact .nil _
  · exact .nil _

theorem frontOfLine_signedDigits (cs : List Char) : FrontOfLine (signedDigits cs) cs := by
  unfold signedDigits
  split
  · split
    · exact .nil _
    · exact (frontOfLine_digits _).cons (by decide)
  · split
    · exact .nil _
    · exact (frontOfLine_digits _).cons (by decide)
  · exact frontOfLine_digits _

theorem frontOfLine_exponent (cs : List Char) : FrontOfLine (exponent cs) cs := by
  unfold exponent
  split
  · rename_i c cs
    split
    · rename_i h
      have hc : c ≠ '\n' := by
        rintro rfl
        simp at h
      exact (frontOfLine_signedDigits cs).cons hc
    · exact .nil _
  · exact .nil _

/-- A number is at the front of a line. -/
theorem frontOfLine_numeral (cs : List Char) : FrontOfLine (numeral cs) cs := by
  have hpart := (frontOfLine_digits cs).append (frontOfLine_fraction _)
  have hwhole := hpart.append (frontOfLine_exponent _)
  rwa [List.length_append] at hwhole

/-- A number that starts with a digit is not empty. -/
theorem numeral_ne_nil {c : Char} {cs : List Char} (hc : c.isDigit = true) :
    numeral (c :: cs) ≠ [] := by
  simp [numeral, digits, hc]

/-! ## Words and symbols -/

/-- A word does not go on over a newline. -/
theorem not_continuesWord_newline : continuesWord '\n' = false := by
  decide +kernel

/-- A word does not start with a newline. -/
theorem ne_newline_of_startsWord {c : Char} (h : startsWord c = true) : c ≠ '\n' := by
  rintro rfl
  revert h
  decide +kernel

/-- What is taken for a symbol is its spelling. -/
theorem spelling_of_symbol? {c : Char} {cs : List Char} {s : Symbol} {used : Nat}
    (h : symbol? c cs = some (s, used)) : c :: cs.take used = s.spelling := by
  unfold symbol? at h
  split at h
  all_goals cases h
  all_goals rfl

/-! ## One lexeme -/

/-- The ways in which the lexeme is read that starts with a character, when the others come after
it. -/
inductive LexemeCase : Char → List Char → Reading (Option Token) → Prop
  | hashComment (cs : List Char) :
    LexemeCase '#' cs (.found none (cs.takeWhile (· ≠ '\n')).length)
  | slashComment (cs : List Char) :
    LexemeCase '/' ('/' :: cs) (.found none (('/' :: cs).takeWhile (· ≠ '\n')).length)
  | blockComment (cs : List Char) :
    LexemeCase '/' ('*' :: cs) ((commentEnd cs).after 1 fun _ => none)
  | newline (cs : List Char) : LexemeCase '\n' cs (.found (some .newline) 0)
  | blank {c : Char} (cs : List Char) (hblank : Text.isBlank c = true) (hline : c ≠ '\n') :
    LexemeCase c cs (.found none 0)
  | quoted (cs : List Char) :
    LexemeCase '"' cs ((quotedRest .plain cs).after 0 fun value => some (strToken value))
  | heredoc (cs : List Char) :
    LexemeCase '<' ('<' :: cs) ((heredoc cs).after 1 fun value => some (strToken value))
  | number {c : Char} (cs : List Char) (hc : c.isDigit = true) :
    LexemeCase c cs (.found (some (.number (String.ofList (numeral (c :: cs)))))
      ((numeral (c :: cs)).length - 1))
  | word {c : Char} (cs : List Char) (hc : startsWord c = true) :
    LexemeCase c cs (.found (some (.word (String.ofList (c :: cs.takeWhile continuesWord))))
      (cs.takeWhile continuesWord).length)
  | symbol {c : Char} {cs : List Char} {s : Symbol} {used : Nat}
    (hs : symbol? c cs = some (s, used)) : LexemeCase c cs (.found (some (.symbol s)) used)
  | stray (c : Char) (cs : List Char) : LexemeCase c cs (.fault (.strayCharacter c) 0)

/-- Every lexeme is read in one of the ways listed. -/
theorem lexemeCase (c : Char) (cs : List Char) : LexemeCase c cs (lexeme c cs) := by
  have hhead : ∀ {d : Char}, cs.head? = some d → ∃ rest, cs = d :: rest :=
    List.head?_eq_some_iff.1
  -- one case for each test, in the order in which they are made
  unfold lexeme
  split
  · rename_i hline
    simp only [Bool.or_eq_true, Bool.and_eq_true, decide_eq_true_eq] at hline
    rcases hline with rfl | ⟨rfl, hslash⟩
    · exact .hashComment cs
    · obtain ⟨rest, rfl⟩ := hhead hslash
      exact .slashComment rest
  split
  · rename_i hblock
    simp only [Bool.and_eq_true, decide_eq_true_eq] at hblock
    obtain ⟨rfl, hstar⟩ := hblock
    obtain ⟨rest, rfl⟩ := hhead hstar
    exact .blockComment rest
  split
  · rename_i hc
    exact hc ▸ .newline cs
  split
  · rename_i hline hblank
    exact .blank cs hblank hline
  split
  · rename_i hc
    exact hc ▸ .quoted cs
  split
  · rename_i hangles
    simp only [Bool.and_eq_true, decide_eq_true_eq] at hangles
    obtain ⟨rfl, hangle⟩ := hangles
    obtain ⟨rest, rfl⟩ := hhead hangle
    exact .heredoc rest
  split
  · rename_i hc
    exact .number cs hc
  split
  · rename_i hc
    exact .word cs hc
  split
  · rename_i hs
    exact .symbol hs
  · exact .stray c cs

/-- What a lexeme takes when it finds a token spells the token. -/
theorem spells_of_lexeme {c : Char} {cs : List Char} {token : Token}
    (h : (lexeme c cs).outcome = .ok (some token)) :
    Spells token (c :: cs.take (lexeme c cs).used) := by
  have hcase := lexemeCase c cs
  -- the reading is made a variable, so that the cases can say what it is
  generalize lexeme c cs = r at h hcase
  cases hcase with
  | hashComment | slashComment | blank | stray => cases h
  | blockComment =>
    obtain ⟨_, _, hnone⟩ := Reading.exists_of_after h
    cases hnone
  | newline =>
    cases h
    exact .newline
  | quoted =>
    obtain ⟨value, hvalue, hstr⟩ := Reading.exists_of_after h
    cases hstr
    obtain ⟨body, hbody⟩ := endsWith_quotedRest .plain cs value hvalue
    simp only [Reading.after, Nat.zero_add, hbody]
    exact .quoted body
  | heredoc rest =>
    obtain ⟨value, -, hstr⟩ := Reading.exists_of_after h
    cases hstr
    simp only [Reading.after, Nat.add_comm 1, List.take_succ_cons]
    exact .heredoc _
  | number _ hc =>
    cases h
    have hfront := frontOfLine_numeral (c :: cs)
    have hne : numeral (c :: cs) ≠ [] := numeral_ne_nil hc
    obtain ⟨d, more, htext⟩ := List.exists_cons_of_ne_nil hne
    rw [htext] at hfront ⊢
    have htake : c :: cs.take more.length = d :: more := hfront.take_eq
    simp only [Reading.found, List.length_cons, Nat.add_sub_cancel, htake]
    exact .number (List.cons_ne_nil d more) hfront.line
  | word _ hc =>
    cases h
    have hfront := FrontOfLine.takeWhile not_continuesWord_newline cs
    simp only [Reading.found, hfront.take_eq]
    exact .word (List.cons_ne_nil c _) (hfront.cons (ne_newline_of_startsWord hc)).line
  | symbol hs =>
    cases h
    rw [Reading.found, spelling_of_symbol? hs]
    exact .symbol _

/-- What a lexeme takes when it finds no token is text that is skipped. -/
theorem skipped_of_lexeme {c : Char} {cs : List Char} (h : (lexeme c cs).outcome = .ok none) :
    Skipped (c :: cs.take (lexeme c cs).used) (cs.drop (lexeme c cs).used) := by
  have hcase := lexemeCase c cs
  generalize lexeme c cs = r at h hcase
  cases hcase with
  | newline | number | word | symbol | stray => cases h
  | quoted | heredoc =>
    obtain ⟨_, _, hnone⟩ := Reading.exists_of_after h
    cases hnone
  | hashComment =>
    exact skipped_lineComment (by decide) (.inl (List.prefix_append ['#'] _))
  | slashComment rest =>
    exact skipped_lineComment (by decide) (.inr (by simp))
  | blockComment rest =>
    obtain ⟨⟨⟩, hok, -⟩ := Reading.exists_of_after h
    obtain ⟨inner, htake, hinner⟩ := take_commentEnd hok
    simp only [Reading.after, Nat.add_comm 1, List.take_succ_cons, htake]
    exact .blockComment _ hinner
  | blank _ hblank hline => exact .blank _ hblank hline

end ScopeConfig.Syntax
