/-!
# Splitting a text at a separator

`splitAt sep` cuts a text at every occurrence of a separator; the pieces, joined by the separator,
are the text again. There is always one piece more than there are separators, so an empty text has
one empty piece.
-/

namespace ScopeConfig.Text

/-- The pieces of a text between the occurrences of a separator. -/
def splitAt (sep : Char) : List Char → List (List Char)
  | [] => [[]]
  | c :: cs =>
    if c = sep then [] :: splitAt sep cs
    else
      match splitAt sep cs with
      | [] => [[c]]
      | piece :: pieces => (c :: piece) :: pieces

/-- Splitting gives at least one part. -/
theorem splitAt_ne_nil (sep : Char) (cs : List Char) : splitAt sep cs ≠ [] := by
  cases cs with
  | nil => simp [splitAt]
  | cons c cs =>
    simp only [splitAt]
    split
    · simp
    · split <;> simp

/-- Nothing is lost: the pieces joined by the separator are the text. -/
theorem intercalate_splitAt (sep : Char) (cs : List Char) :
    [sep].intercalate (splitAt sep cs) = cs := by
  induction cs with
  | nil => simp [splitAt, List.intercalate]
  | cons c cs ih =>
    simp only [splitAt]
    split
    · rename_i h
      obtain ⟨p, ps, hp⟩ := List.exists_cons_of_ne_nil (splitAt_ne_nil sep cs)
      rw [hp] at ih ⊢
      simp_all [List.intercalate]
    · split
      · rename_i h
        exact absurd h (splitAt_ne_nil sep cs)
      · rename_i p ps hp
        rw [hp] at ih
        cases ps <;> simp_all [List.intercalate]

/-- A separator in front sets an empty part apart. -/
@[simp] theorem splitAt_sep (sep : Char) (cs : List Char) :
    splitAt sep (sep :: cs) = [] :: splitAt sep cs := by
  simp [splitAt]

/-- Text without a separator belongs to the first piece. -/
theorem splitAt_append {sep : Char} {front back piece : List Char} {pieces : List (List Char)}
    (h : sep ∉ front) (hback : splitAt sep back = piece :: pieces) :
    splitAt sep (front ++ back) = (front ++ piece) :: pieces := by
  induction front with
  | nil => exact hback
  | cons c front ih =>
    have hc : c ≠ sep := by
      rintro rfl
      exact h List.mem_cons_self
    have htail := ih fun hmem => h (List.mem_cons_of_mem c hmem)
    simp [splitAt, hc, htail]

/-- The text before the first separator is the first piece. -/
theorem splitAt_line {sep : Char} {line : List Char} (h : sep ∉ line) (cs : List Char) :
    splitAt sep (line ++ sep :: cs) = line :: splitAt sep cs := by
  simpa using splitAt_append h (splitAt_sep sep cs)

/-- Pieces without the separator are found again between its occurrences. -/
theorem splitAt_intercalate {sep : Char} {pieces : List (List Char)} (hne : pieces ≠ [])
    (h : ∀ piece ∈ pieces, sep ∉ piece) : splitAt sep ([sep].intercalate pieces) = pieces := by
  induction pieces with
  | nil => exact absurd rfl hne
  | cons piece pieces ih =>
    rw [List.forall_mem_cons] at h
    by_cases hlast : pieces = []
    · have hnil : splitAt sep [] = [] :: [] := rfl
      subst hlast
      simpa [List.intercalate] using splitAt_append h.1 hnil
    · obtain ⟨next, more, rfl⟩ := List.exists_cons_of_ne_nil hlast
      rw [List.intercalate_cons_cons, List.append_assoc, List.singleton_append,
        splitAt_line h.1, ih hlast h.2]

/-- No piece holds the separator. -/
theorem not_mem_of_mem_splitAt {sep : Char} {cs piece : List Char}
    (h : piece ∈ splitAt sep cs) : sep ∉ piece := by
  induction cs generalizing piece with
  | nil => simp_all [splitAt]
  | cons c cs ih =>
    simp only [splitAt] at h
    split at h
    · rcases List.mem_cons.1 h with rfl | h
      · simp
      · exact ih h
    · rename_i hc
      split at h
      · rename_i hnil
        exact absurd hnil (splitAt_ne_nil sep cs)
      · rename_i p ps hp
        rcases List.mem_cons.1 h with rfl | h
        · have := ih (hp ▸ List.mem_cons_self)
          simp [Ne.symm hc, this]
        · exact ih (hp ▸ List.mem_cons_of_mem _ h)

/-- The pieces hold nothing that is not in the text. -/
theorem mem_of_mem_splitAt {sep c : Char} {cs piece : List Char} (h : piece ∈ splitAt sep cs)
    (hc : c ∈ piece) : c ∈ cs := by
  induction cs generalizing piece with
  | nil =>
    obtain rfl := List.mem_singleton.1 h
    exact hc
  | cons d cs ih =>
    simp only [splitAt] at h
    split at h
    · rcases List.mem_cons.1 h with rfl | h
      · exact absurd hc List.not_mem_nil
      · exact List.mem_cons_of_mem d (ih h hc)
    · split at h
      · rename_i hnil
        exact absurd hnil (splitAt_ne_nil sep cs)
      · rename_i p ps hp
        rcases List.mem_cons.1 h with rfl | h
        · rcases List.mem_cons.1 hc with rfl | hc
          · exact List.mem_cons_self
          · exact List.mem_cons_of_mem d (ih (hp ▸ List.mem_cons_self) hc)
        · exact List.mem_cons_of_mem d (ih (hp ▸ List.mem_cons_of_mem p h) hc)

/-- What stands in the text of some pieces is the separator or stands in one of them. -/
theorem mem_intercalate {sep c : Char} {pieces : List (List Char)}
    (h : c ∈ [sep].intercalate pieces) : c = sep ∨ ∃ piece ∈ pieces, c ∈ piece := by
  induction pieces with
  | nil => simp [List.intercalate] at h
  | cons piece pieces ih =>
    by_cases hlast : pieces = []
    · subst hlast
      exact .inr ⟨piece, List.mem_cons_self, by simpa [List.intercalate] using h⟩
    · obtain ⟨next, more, rfl⟩ := List.exists_cons_of_ne_nil hlast
      rw [List.intercalate_cons_cons, List.mem_append, List.mem_append, List.mem_singleton] at h
      rcases h with (h | rfl) | h
      · exact .inr ⟨piece, List.mem_cons_self, h⟩
      · exact .inl rfl
      · exact (ih h).imp_right fun ⟨other, hother, hc⟩ =>
          ⟨other, List.mem_cons_of_mem piece hother, hc⟩

end ScopeConfig.Text
