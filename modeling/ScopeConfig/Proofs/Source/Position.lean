import Mathlib.Data.List.Induction
import ScopeConfig.Source.Position

/-!
# Places counted afresh

`Pos.after` moves a place one character at a time. Counted afresh, the place after a text from its
beginning on has the line that its newlines give, the column that the characters after the last of
them give, and the bytes of its UTF-8 form. Line and column are these numbers as far as 32 bits hold
them, which they do in full after a text with fewer characters than such a counter has values.

## Main statements

* `Pos.isAfter_after`: moving through a text leads to the place counted afresh.
* `Pos.IsAfter.line_eq_iff`: which places of a text are on one line.
* `Pos.IsAfter.exact`: after a text that is not too long, no counter has started over.
-/

namespace ScopeConfig.Pos

/-- The place after the text `before`, counted afresh from the beginning of the text. -/
structure IsAfter (p : Pos) (before : List Char) : Prop where
  line : p.line = UInt32.ofNat (1 + before.count '\n')
  column : p.column = UInt32.ofNat (1 + (before.reverse.takeWhile (· ≠ '\n')).length)
  byte : p.byte = (String.ofList before).utf8ByteSize

/-- The place after the text `before` with its line and its column in full. -/
structure Exactly (p : Pos) (before : List Char) : Prop where
  line : p.line.toNat = 1 + before.count '\n'
  column : p.column.toNat = 1 + (before.reverse.takeWhile (· ≠ '\n')).length
  byte : p.byte = (String.ofList before).utf8ByteSize

/-- The place before the first character. -/
theorem isAfter_first : first.IsAfter [] :=
  ⟨rfl, rfl, rfl⟩

/-- One more character: a newline starts a line, every other character takes a column. -/
theorem IsAfter.next {p : Pos} {before : List Char} (h : p.IsAfter before) (c : Char) :
    (p.next c).IsAfter (before ++ [c]) := by
  have hbyte : p.byte + c.utf8Size = (String.ofList (before ++ [c])).utf8ByteSize := by
    simp [h.byte]
  unfold Pos.next
  by_cases hc : c = '\n'
  · rw [if_pos hc]
    refine ⟨?_, by simp [hc], hbyte⟩
    calc p.line + 1
      _ = UInt32.ofNat (1 + before.count '\n') + 1 := by rw [h.line]
      _ = UInt32.ofNat (1 + before.count '\n' + 1) := (UInt32.ofNat_add _ 1).symm
      _ = UInt32.ofNat (1 + (before ++ [c]).count '\n') := by
        rw [hc, List.count_append, List.count_singleton_self, Nat.add_assoc]
  · rw [if_neg hc]
    refine ⟨?_, ?_, hbyte⟩
    · simp [h.line, hc]
    · simp [h.column, hc, UInt32.ofNat_add, UInt32.add_assoc]

/-- A place that is counted afresh stays so along a text. -/
theorem IsAfter.after {p : Pos} {before : List Char} (h : p.IsAfter before) (cs : List Char) :
    (p.after cs).IsAfter (before ++ cs) := by
  induction cs generalizing p before with
  | nil => simpa using h
  | cons c cs ih => simpa using ih (h.next c)

/-- Moving through a text leads to the place counted afresh. -/
theorem isAfter_after (cs : List Char) : (first.after cs).IsAfter cs :=
  isAfter_first.after cs

/-- A place further on in the text has more bytes before it. -/
theorem IsAfter.byte_add {p q : Pos} {before text : List Char} (hp : p.IsAfter before)
    (hq : q.IsAfter (before ++ text)) :
    q.byte = p.byte + (String.ofList text).utf8ByteSize := by
  rw [hq.byte, hp.byte, String.ofList_append, String.utf8ByteSize_append]

/-- A place further on in the text is further down by the newlines between, as far as the counter
holds them. -/
theorem IsAfter.line_add {p q : Pos} {before text : List Char} (hp : p.IsAfter before)
    (hq : q.IsAfter (before ++ text)) : q.line = p.line + UInt32.ofNat (text.count '\n') := by
  rw [hq.line, hp.line, List.count_append, ← Nat.add_assoc, UInt32.ofNat_add]

/-- Without a newline between them, two places are on one line. -/
theorem IsAfter.line_eq {p q : Pos} {before text : List Char} (hp : p.IsAfter before)
    (hq : q.IsAfter (before ++ text)) (hnone : '\n' ∉ text) : p.line = q.line := by
  rw [hp.line_add hq, List.count_eq_zero.2 hnone]
  exact (UInt32.add_zero _).symm

/-- Two places are on one line exactly if there is no newline between them, when there are fewer of
them than the counter has values. -/
theorem IsAfter.line_eq_iff {p q : Pos} {before text : List Char} (hp : p.IsAfter before)
    (hq : q.IsAfter (before ++ text)) (hcount : text.count '\n' < UInt32.size) :
    p.line = q.line ↔ '\n' ∉ text := by
  refine ⟨fun hline => ?_, hp.line_eq hq⟩
  have hzero : UInt32.ofNat (text.count '\n') = UInt32.ofNat 0 :=
    UInt32.left_eq_add.1 (hline.trans (hp.line_add hq))
  have hnone := congrArg UInt32.toNat hzero
  rw [UInt32.toNat_ofNat_of_lt' hcount] at hnone
  exact List.count_eq_zero.1 hnone

/-- After a text with fewer characters than a counter has values, neither the line nor the column
has started over. -/
theorem IsAfter.exact {p : Pos} {before : List Char} (h : p.IsAfter before)
    (hlength : before.length + 1 < UInt32.size) : p.Exactly before where
  line := by
    have hcount : before.count '\n' ≤ before.length := List.count_le_length
    rw [h.line, UInt32.toNat_ofNat_of_lt' (by omega)]
  column := by
    have hline := (List.takeWhile_sublist (· ≠ '\n') (l := before.reverse)).length_le
    rw [List.length_reverse] at hline
    rw [h.column, UInt32.toNat_ofNat_of_lt' (by omega)]
  byte := h.byte

end ScopeConfig.Pos
