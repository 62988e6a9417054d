import Mathlib.Data.List.Forall2
import Mathlib.Order.Bounds.Basic
import ScopeConfig.Proofs.Syntax.Relexing

/-!
# The indentation of heredocs

The lines of an indented heredoc are meant to lose the indentation that they have in common: as many
blanks as the least indented of the lines that hold something else starts with. That indentation is
measured in bytes, and as many characters are then dropped from every line. A blank of more than one
byte is therefore counted more than once, and what follows the blanks is dropped as well, unless one
of the least indented lines starts with blanks of one byte only.

## Main statements

* `tokensFrom_indentedHeredoc`: the token that an indented heredoc is read as.
* `dedented_drop_iff`: when dropping the common indentation drops nothing else.
* `indentedHeredoc_dedented_iff`: when a heredoc loses its common indentation and nothing else.
-/

namespace ScopeConfig.Syntax

open Reading

/-! ## Losing indentation -/

/-- The number of blanks that a line starts with. -/
def indentOf (line : List Char) : Nat :=
  (line.takeWhile Text.isBlank).length

/-- A line that holds something else than blanks. -/
def Visible (line : List Char) : Prop :=
  ∃ c ∈ line, Text.isBlank c = false

instance : DecidablePred Visible :=
  fun line => decidable_of_iff (line.any (!Text.isBlank ·) = true) (by simp [Visible])

/-- The indentations of the visible lines. -/
def indents (lines : List (List Char)) : Set Nat :=
  {n | ∃ line ∈ lines, Visible line ∧ indentOf line = n}

/-- `rest` is what is left of a line that loses blanks at its front, and `n` of them if it is
visible. -/
def LosesIndent (n : Nat) (line rest : List Char) : Prop :=
  ∃ lost, line = lost ++ rest ∧ (∀ c ∈ lost, Text.isBlank c = true) ∧
    (Visible line → lost.length = n)

/-- `kept` is what is left of lines that lose their common indentation `n` and nothing else. -/
structure Dedented (n : Nat) (lines kept : List (List Char)) : Prop where
  least : (indents lines).Nonempty → IsLeast (indents lines) n
  lost : List.Forall₂ (LosesIndent n) lines kept

/-- No line is visible, or one of the least indented visible lines starts with blanks of one byte
only. -/
def OneByteIndent (lines : List (List Char)) : Prop :=
  (∀ line ∈ lines, ¬Visible line) ∨
    ∃ line ∈ lines, Visible line ∧ indentOf line ∈ lowerBounds (indents lines) ∧
      ∀ c ∈ line.takeWhile Text.isBlank, c.utf8Size = 1

/-- The text of lines, each with a newline after it. -/
def joinLines (lines : List (List Char)) : List Char :=
  lines.flatMap (· ++ ['\n'])

section Lines

variable {n : Nat} {line rest : List Char} {lines kept : List (List Char)}

/-- A line that is not visible holds blanks only. -/
theorem not_visible_iff : ¬Visible line ↔ ∀ c ∈ line, Text.isBlank c = true := by
  simp [Visible]

/-- A visible line is longer than its indentation. -/
theorem indentOf_lt_length (h : Visible line) : indentOf line < line.length := by
  obtain ⟨c, hc, hblank⟩ := h
  have hle : (line.takeWhile Text.isBlank).length ≤ line.length :=
    (List.takeWhile_prefix _).length_le
  refine lt_of_le_of_ne hle fun heq => ?_
  -- otherwise the whole line is blank
  have hall : line.takeWhile Text.isBlank = line :=
    (List.takeWhile_prefix _).eq_of_length heq
  rw [← hall] at hc
  simp [List.mem_takeWhile_imp hc] at hblank

/-- The first characters of a line are blank, as far as it is indented. -/
theorem isBlank_of_mem_take (h : n ≤ indentOf line) {c : Char} (hc : c ∈ line.take n) :
    Text.isBlank c = true := by
  have hfront : line.take n <+: line.takeWhile Text.isBlank :=
    List.prefix_of_prefix_length_le (List.take_prefix n line) (List.takeWhile_prefix _)
      ((List.length_take_le n line).trans h)
  exact List.mem_takeWhile_imp (hfront.subset hc)

namespace LosesIndent

/-- A visible line is indented less by what it loses. -/
theorem indentOf_eq (h : LosesIndent n line rest) (hvisible : Visible line) :
    indentOf line = n + indentOf rest := by
  obtain ⟨lost, rfl, hblank, hlength⟩ := h
  rw [indentOf, List.takeWhile_append_of_pos hblank, List.length_append, hlength hvisible, indentOf]

/-- What is not blank stays. -/
theorem filter_eq (h : LosesIndent n line rest) :
    rest.filter (!Text.isBlank ·) = line.filter (!Text.isBlank ·) := by
  obtain ⟨lost, rfl, hblank, -⟩ := h
  have hnone : lost.filter (!Text.isBlank ·) = [] := by simpa using hblank
  rw [List.filter_append, hnone, List.nil_append]

/-- A line that loses indentation gains no character. -/
theorem not_mem (h : LosesIndent n line rest) {c : Char} (hc : c ∉ line) : c ∉ rest := by
  obtain ⟨lost, rfl, -, -⟩ := h
  exact fun hmem => hc (List.mem_append_right lost hmem)

end LosesIndent

namespace Dedented

/-- What is not blank stays, in its order. -/
theorem filter_flatten_eq (h : Dedented n lines kept) :
    kept.flatten.filter (!Text.isBlank ·) = lines.flatten.filter (!Text.isBlank ·) := by
  obtain ⟨-, hlost⟩ := h
  induction hlost with
  | nil => rfl
  | cons hline _ ih =>
    rw [List.flatten_cons, List.flatten_cons, List.filter_append, List.filter_append,
      hline.filter_eq, ih]

/-- All visible lines are indented less by the same number of blanks. -/
theorem forall₂_indentOf_eq (h : Dedented n lines kept) :
    List.Forall₂ (fun line rest => Visible line → indentOf line = n + indentOf rest) lines kept :=
  h.lost.imp fun _ _ => LosesIndent.indentOf_eq

/-- Dedented lines have no newline if the lines had none. -/
theorem not_mem (h : Dedented n lines kept) (hlines : ∀ line ∈ lines, '\n' ∉ line) :
    ∀ rest ∈ kept, '\n' ∉ rest := by
  obtain ⟨-, hlost⟩ := h
  induction hlost with
  | nil => simp
  | cons hline _ ih =>
    rw [List.forall_mem_cons] at hlines ⊢
    exact ⟨hline.not_mem hlines.1, ih hlines.2⟩

end Dedented

/-! ## Lines and their text -/

/-- The text of lines, the first one and then the rest. -/
theorem joinLines_cons (line : List Char) (lines : List (List Char)) :
    joinLines (line :: lines) = line ++ '\n' :: joinLines lines := by
  simp [joinLines]

/-- Lines are found again in their text. -/
theorem splitAt_joinLines (h : ∀ line ∈ lines, '\n' ∉ line) (rest : List Char) :
    Text.splitAt '\n' (joinLines lines ++ rest) = lines ++ Text.splitAt '\n' rest := by
  induction lines with
  | nil => rfl
  | cons line lines ih =>
    rw [List.forall_mem_cons] at h
    rw [joinLines_cons, List.append_assoc, List.cons_append, Text.splitAt_line h.1, ih h.2,
      List.cons_append]

/-- Lines without newlines are determined by their text. -/
theorem joinLines_injective {lines' : List (List Char)} (h : ∀ line ∈ lines, '\n' ∉ line)
    (h' : ∀ line ∈ lines', '\n' ∉ line) (htext : joinLines lines = joinLines lines') :
    lines = lines' := by
  have hsplit := congrArg (fun text => Text.splitAt '\n' (text ++ [])) htext
  rwa [splitAt_joinLines h, splitAt_joinLines h', List.append_left_inj] at hsplit

/-! ## Indentation in bytes -/

/-- Every character has at least one byte. -/
theorem length_le_bytes (cs : List Char) : cs.length ≤ cs.foldr (·.utf8Size + ·) 0 := by
  induction cs with
  | nil => exact Nat.le_refl 0
  | cons c cs ih =>
    have hpos := c.utf8Size_pos
    rw [List.foldr_cons, List.length_cons]
    omega

/-- Characters take as many bytes as they are exactly if each of them takes one. -/
theorem bytes_eq_length_iff (cs : List Char) :
    cs.foldr (·.utf8Size + ·) 0 = cs.length ↔ ∀ c ∈ cs, c.utf8Size = 1 := by
  induction cs with
  | nil => simp
  | cons c cs ih =>
    have hpos := c.utf8Size_pos
    have hle := length_le_bytes cs
    rw [List.forall_mem_cons, ← ih, List.foldr_cons, List.length_cons]
    omega

/-- An indentation in bytes is no less than the one in characters. -/
theorem indentOf_le_indentBytes (line : List Char) : indentOf line ≤ indentBytes line :=
  length_le_bytes _

/-- Keeping the lines that are not all blank is keeping the visible ones. -/
theorem mem_filter_visible :
    line ∈ lines.filter (fun line => !line.all Text.isBlank) ↔ line ∈ lines ∧ Visible line := by
  simp [Visible]

/-- Lines without a visible one have no indentation in common. -/
theorem commonIndent_of_not_visible (h : ∀ line ∈ lines, ¬Visible line) :
    commonIndent lines = 0 := by
  have hnone : lines.filter (fun line => !line.all Text.isBlank) = [] :=
    List.eq_nil_iff_forall_not_mem.2 fun line hmem =>
      h line (mem_filter_visible.1 hmem).1 (mem_filter_visible.1 hmem).2
  simp [commonIndent, hnone]

/-- The common indentation is that of a visible line, in bytes, and no visible line has less. -/
theorem commonIndent_isLeast (h : ∃ line ∈ lines, Visible line) :
    (∃ line ∈ lines, Visible line ∧ indentBytes line = commonIndent lines) ∧
      ∀ line ∈ lines, Visible line → commonIndent lines ≤ indentBytes line := by
  obtain ⟨line, hline, hvisible⟩ := h
  have hmem := List.mem_map_of_mem (f := indentBytes) (mem_filter_visible.2 ⟨hline, hvisible⟩)
  obtain ⟨least, hleast⟩ : ∃ least, ((lines.filter fun line => !line.all Text.isBlank).map
      indentBytes).min? = some least :=
    Option.isSome_iff_exists.1 (List.isSome_min?_of_mem hmem)
  have hcommon : commonIndent lines = least := by simp [commonIndent, hleast]
  rw [List.min?_eq_some_iff] at hleast
  constructor
  · obtain ⟨other, hother, heq⟩ := List.mem_map.1 hleast.1
    obtain ⟨hmem, hvisible⟩ := mem_filter_visible.1 hother
    exact ⟨other, hmem, hvisible, heq.trans hcommon.symm⟩
  · intro other hother hvisible
    rw [hcommon]
    exact hleast.2 _ (List.mem_map_of_mem (mem_filter_visible.2 ⟨hother, hvisible⟩))

/-! ## Dropping the common indentation -/

/-- There is an indentation exactly if there is a visible line. -/
theorem indents_nonempty_iff : (indents lines).Nonempty ↔ ∃ line ∈ lines, Visible line := by
  constructor
  · rintro ⟨_, line, hline, hvisible, -⟩
    exact ⟨line, hline, hvisible⟩
  · rintro ⟨line, hline, hvisible⟩
    exact ⟨_, line, hline, hvisible, rfl⟩

/-- A line that is not indented less than `n` loses `n` blanks when `n` characters are dropped. -/
theorem losesIndent_drop (h : Visible line → n ≤ indentOf line) :
    LosesIndent n line (line.drop n) := by
  refine ⟨line.take n, (List.take_append_drop n line).symm, fun c hc => ?_, fun hvisible => ?_⟩
  · by_cases hvisible : Visible line
    · exact isBlank_of_mem_take (h hvisible) hc
    · exact not_visible_iff.1 hvisible c (List.mem_of_mem_take hc)
  · have hlength := indentOf_lt_length hvisible
    have hle := h hvisible
    rw [List.length_take]
    omega

/-- A visible line that starts with exactly `n` blanks and loses `n` of them when `m` characters
are dropped shows that `m` is `n`: there are more than `n` characters to drop. -/
theorem eq_of_losesIndent_drop {m : Nat} (hvisible : Visible line) (hindent : indentOf line = n)
    (h : LosesIndent n line (line.drop m)) : m = n := by
  obtain ⟨lost, hline, -, hlength⟩ := h
  have htotal := congrArg List.length hline
  have hlt := indentOf_lt_length hvisible
  rw [List.length_append, List.length_drop, hlength hvisible] at htotal
  omega

/-- The common indentation in bytes is the least indentation exactly when a least indented line
starts with blanks of one byte. -/
theorem isLeast_commonIndent_iff (h : ∃ line ∈ lines, Visible line) :
    IsLeast (indents lines) (commonIndent lines) ↔ OneByteIndent lines := by
  obtain ⟨⟨line, hline, hvisible, hbytes⟩, hleast⟩ := commonIndent_isLeast h
  constructor
  · rintro ⟨-, hlower⟩
    -- the line that is least in bytes is also least in characters
    have hle : commonIndent lines ≤ indentOf line := hlower ⟨line, hline, hvisible, rfl⟩
    have heq : indentBytes line = indentOf line := by
      have hge := indentOf_le_indentBytes line
      omega
    refine .inr ⟨line, hline, hvisible, ?_, (bytes_eq_length_iff _).1 heq⟩
    rwa [← heq, hbytes]
  · rintro (hnone | ⟨other, hother, hvisible', hlower, hone⟩)
    · obtain ⟨line, hline, hvisible⟩ := h
      exact (hnone line hline hvisible).elim
    · have hbytes' : indentBytes other = indentOf other := (bytes_eq_length_iff _).2 hone
      have heq : commonIndent lines = indentOf other := by
        refine le_antisymm (hbytes' ▸ hleast other hother hvisible') ?_
        calc indentOf other ≤ indentOf line := hlower ⟨line, hline, hvisible, rfl⟩
          _ ≤ indentBytes line := indentOf_le_indentBytes line
          _ = commonIndent lines := hbytes
      rw [heq]
      exact ⟨⟨other, hother, hvisible', rfl⟩, hlower⟩

/-- Dropping as many characters from every line as the common indentation has bytes is losing the
common indentation exactly when a least indented line starts with blanks of one byte. -/
theorem dedented_drop_iff :
    (∃ n, Dedented n lines (lines.map (·.drop (commonIndent lines)))) ↔ OneByteIndent lines := by
  by_cases h : ∃ line ∈ lines, Visible line
  · rw [← isLeast_commonIndent_iff h]
    constructor
    · rintro ⟨n, hdedented⟩
      have hleast := hdedented.least (indents_nonempty_iff.2 h)
      have hlost : ∀ line ∈ lines, LosesIndent n line (line.drop (commonIndent lines)) :=
        List.forall₂_same.1 (List.forall₂_map_right_iff.1 hdedented.lost)
      obtain ⟨line, hline, hvisible, hindent⟩ := hleast.1
      rwa [eq_of_losesIndent_drop hvisible hindent (hlost line hline)]
    · intro hleast
      refine ⟨commonIndent lines, fun _ => hleast, ?_⟩
      refine List.forall₂_map_right_iff.2 (List.forall₂_same.2 fun line hline => ?_)
      exact losesIndent_drop fun hvisible => hleast.2 ⟨line, hline, hvisible, rfl⟩
  · have hnone : ∀ line ∈ lines, ¬Visible line := fun line hline hvisible =>
      h ⟨line, hline, hvisible⟩
    refine iff_of_true ⟨0, fun hsome => (h (indents_nonempty_iff.1 hsome)).elim, ?_⟩ (.inl hnone)
    rw [commonIndent_of_not_visible hnone]
    refine List.forall₂_map_right_iff.2 (List.forall₂_same.2 fun line _ => ?_)
    exact losesIndent_drop fun _ => Nat.zero_le _

end Lines

/-! ## Reading an indented heredoc -/

/-- The marker of a heredoc, the lines of its body, and the line that ends it, which is the first
that holds the marker and nothing else but blanks. -/
structure IsHeredoc (marker : List Char) (lines : List (List Char)) (closing : List Char) :
    Prop where
  ne_nil : marker ≠ []
  inMarker : ∀ c ∈ marker, inMarker c = true
  oneLine : ∀ line ∈ lines, '\n' ∉ line
  goesOn : ∀ line ∈ lines, Text.trim line ≠ marker
  closing_oneLine : '\n' ∉ closing
  closing_ends : Text.trim closing = marker

/-- The text of an indented heredoc. -/
def indentedHeredoc (marker : List Char) (lines : List (List Char)) (closing : List Char) :
    List Char :=
  '<' :: '<' :: '-' :: (marker ++ '\n' :: (joinLines lines ++ closing))

/-- A whole line ends at a newline or with the text. -/
def AtLineEnd (rest : List Char) : Prop :=
  rest = [] ∨ ∃ more, rest = '\n' :: more

/-- Splitting a text at newlines gives a whole line first. -/
theorem splitAt_of_atLineEnd {line rest : List Char} (hline : '\n' ∉ line) (h : AtLineEnd rest) :
    ∃ more, Text.splitAt '\n' (line ++ rest) = line :: more := by
  rcases h with rfl | ⟨more, rfl⟩
  · have hnil : Text.splitAt '\n' [] = [] :: [] := rfl
    exact ⟨[], by rw [Text.splitAt_append hline hnil, List.append_nil]⟩
  · exact ⟨_, Text.splitAt_line hline more⟩

section Reading

variable {marker closing : List Char} {lines : List (List Char)}

/-- The lines of a heredoc are read up to the line that ends it. -/
theorem heredocLines_append (hlines : ∀ line ∈ lines, Text.trim line ≠ marker)
    (hclosing : Text.trim closing = marker) (more : List (List Char)) :
    heredocLines marker (lines ++ closing :: more) =
      .found lines ((joinLines lines).length + closing.length) := by
  induction lines with
  | nil =>
    rw [List.nil_append, heredocLines_of_marker hclosing]
    simp [joinLines]
  | cons line lines ih =>
    rw [List.forall_mem_cons] at hlines
    have hne : lines ++ closing :: more ≠ [] := by simp
    rw [List.cons_append, heredocLines_of_line hlines.1 hne, ih hlines.2, joinLines_cons]
    simp only [found, after, Except.map, List.length_append, List.length_cons]
    congr 1
    omega

/-- An indented heredoc is read as one string: its lines without as many characters at the front of
each as the common indentation has bytes. -/
theorem tokensFrom_indentedHeredoc (h : IsHeredoc marker lines closing) {rest : List Char}
    (hrest : AtLineEnd rest) (start : Pos) :
    ∃ template, tokensFrom start (indentedHeredoc marker lines closing ++ rest) =
      (tokensFrom (start.after (indentedHeredoc marker lines closing)) rest).map (·.push
        ⟨.str (String.ofList (joinLines (lines.map (·.drop (commonIndent lines))))) template, start,
          start.after (indentedHeredoc marker lines closing)⟩) := by
  obtain ⟨more, hmore⟩ := splitAt_of_atLineEnd h.closing_oneLine hrest
  -- from the inside out: the lines up to the marker, the heredoc, and the lexeme
  have hlines : heredocLines marker (Text.splitAt '\n' (joinLines lines ++ (closing ++ rest))) =
      .found lines ((joinLines lines).length + closing.length) := by
    rw [splitAt_joinLines h.oneLine, hmore]
    exact heredocLines_append h.goesOn h.closing_ends more
  have hheredoc : heredoc ('-' :: (marker ++ '\n' :: (joinLines lines ++ (closing ++ rest)))) =
      .found (heredocValue true lines)
        ('-' :: (marker ++ '\n' :: (joinLines lines ++ closing))).length := by
    rw [heredoc, heredocFrom_of_marker true h.ne_nil h.inMarker, hlines]
    simp only [found, after, Except.map, id_eq, List.length_cons, List.length_append]
    congr 1
    omega
  have hlexeme : lexeme '<' (('<' :: '-' :: (marker ++ '\n' :: (joinLines lines ++ closing))) ++
      rest) = .found (some (strToken (heredocValue true lines)))
        ('<' :: '-' :: (marker ++ '\n' :: (joinLines lines ++ closing))).length := by
    have hblank : Text.isBlank '<' = false := by decide
    simp only [List.cons_append, List.append_assoc, lexeme, hblank, List.head?_cons, List.tail_cons,
      hheredoc]
    simp only [found, after, Except.map, List.length_cons]
    simp [Nat.add_comm 1]
  exact ⟨_, tokensFrom_token start hlexeme⟩

end Reading

/-! ## What a heredoc loses -/

/-- The indentation of a heredoc. An indented heredoc, whatever its marker and the lines of its body
are and wherever it stands, is read as one string. Its value is the text of the lines without the
indentation that they have in common, the least number of blanks that a visible line starts with, so
that no visible character is lost and all visible lines are indented less by the same number,
exactly when a least indented visible line starts with blanks of one byte only or no line is
visible. -/
theorem indentedHeredoc_dedented_iff {marker closing : List Char} {lines : List (List Char)}
    (h : IsHeredoc marker lines closing) {rest : List Char} (hrest : AtLineEnd rest)
    (start : Pos) :
    ∃ value template, tokensFrom start (indentedHeredoc marker lines closing ++ rest) =
        (tokensFrom (start.after (indentedHeredoc marker lines closing)) rest).map (·.push
          ⟨.str value template, start, start.after (indentedHeredoc marker lines closing)⟩) ∧
      ((∃ n kept, value.toList = joinLines kept ∧ Dedented n lines kept ∧
          kept.flatten.filter (!Text.isBlank ·) = lines.flatten.filter (!Text.isBlank ·) ∧
          List.Forall₂ (fun line rest => Visible line → indentOf line = n + indentOf rest)
            lines kept) ↔
        OneByteIndent lines) := by
  obtain ⟨template, hread⟩ := tokensFrom_indentedHeredoc h hrest start
  refine ⟨_, template, hread, ?_⟩
  rw [← dedented_drop_iff, String.toList_ofList]
  constructor
  · rintro ⟨n, kept, htext, hdedented, -, -⟩
    have hdrop : ∀ line ∈ lines.map (·.drop (commonIndent lines)), '\n' ∉ line := by
      simp only [List.forall_mem_map]
      exact fun line hline hmem => h.oneLine line hline (List.mem_of_mem_drop hmem)
    obtain rfl := joinLines_injective hdrop (hdedented.not_mem h.oneLine) htext
    exact ⟨n, hdedented⟩
  · rintro ⟨n, hdedented⟩
    exact ⟨n, _, rfl, hdedented, hdedented.filter_flatten_eq, hdedented.forall₂_indentOf_eq⟩

/-- The marker of the examples is one. -/
theorem isMarker_E : ∀ c ∈ ['E'], inMarker c = true := by
  rw [List.forall_mem_singleton]
  decide

/-- A line with two spaces in front, an empty one, and one with three blanks of two bytes each. -/
def mixedIndent : List (List Char) :=
  ["  a".toList, [], "\u00a0\u00a0\u00a0b".toList]

/-- The spaces are two bytes and the other blanks are six, so every line loses two blanks. -/
theorem indentedHeredoc_dedented_iff_mixedIndent :
    IsHeredoc ['E'] mixedIndent [' ', 'E'] ∧ AtLineEnd ['\n'] ∧ OneByteIndent mixedIndent ∧
      ∃ value template, tokensFrom .first (indentedHeredoc ['E'] mixedIndent [' ', 'E'] ++ ['\n']) =
          (tokensFrom (Pos.first.after (indentedHeredoc ['E'] mixedIndent [' ', 'E'])) ['\n']).map
            (·.push ⟨.str value template, .first,
              Pos.first.after (indentedHeredoc ['E'] mixedIndent [' ', 'E'])⟩) ∧
        ∃ n kept, value.toList = joinLines kept ∧ Dedented n mixedIndent kept := by
  have h : IsHeredoc ['E'] mixedIndent [' ', 'E'] := by
    refine ⟨by decide, isMarker_E, ?_, ?_, ?_, ?_⟩ <;> decide +kernel
  have hrest : AtLineEnd ['\n'] := .inr ⟨[], rfl⟩
  have hleast : ∀ line ∈ mixedIndent, Visible line → 2 ≤ indentOf line := by decide +kernel
  have hone : OneByteIndent mixedIndent := by
    refine .inr ⟨"  a".toList, by decide, by decide, ?_, (bytes_eq_length_iff _).1 (by decide)⟩
    rintro _ ⟨line, hline, hvisible, rfl⟩
    exact hleast line hline hvisible
  obtain ⟨value, template, hread, hiff⟩ := indentedHeredoc_dedented_iff h hrest .first
  obtain ⟨n, kept, htext, hdedented, -⟩ := hiff.2 hone
  exact ⟨h, hrest, hone, value, template, hread, n, kept, htext, hdedented⟩

/-- A line that starts with one blank of two bytes loses the letter after the blank as well. -/
theorem indentedHeredoc_loses_letter :
    IsHeredoc ['E'] ["\u00a0ab".toList] ['E'] ∧
      "<<-E\n\u00a0ab\nE".toList = indentedHeredoc ['E'] ["\u00a0ab".toList] ['E'] ∧
      tokens "<<-E\n\u00a0ab\nE" =
        .ok ⟨[⟨.str "b\n" false, ⟨1, 1, 0⟩, ⟨3, 2, 11⟩⟩], ⟨3, 2, 11⟩⟩ ∧
      ¬∃ n kept, "b\n".toList = joinLines kept ∧ Dedented n ["\u00a0ab".toList] kept := by
  have h : IsHeredoc ['E'] ["\u00a0ab".toList] ['E'] := by
    refine ⟨by decide, isMarker_E, ?_, ?_, ?_, ?_⟩ <;> decide +kernel
  refine ⟨h, by decide, by decide +kernel, ?_⟩
  rintro ⟨n, kept, htext, hdedented⟩
  have hkept : kept = [['b']] :=
    joinLines_injective (hdedented.not_mem (by decide)) (by decide) htext.symm
  -- of two visible characters one is left
  have hvisible := hdedented.filter_flatten_eq
  rw [hkept] at hvisible
  revert hvisible
  decide

end ScopeConfig.Syntax
