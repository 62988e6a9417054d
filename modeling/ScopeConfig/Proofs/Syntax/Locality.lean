import ScopeConfig.Proofs.Syntax.Lexemes

/-!
# A lexeme is read from its own text

What a reader finds at the front of a text depends on the text that it uses, and on what comes next
only as far as the text could go on. A newline never makes it go on, so a reader finds the same when
the text is cut anywhere behind what it used and goes on with a newline instead.

## Main statements

* `lexeme_cut`: a lexeme that is found is found again in front of a newline.
* `word_cut`: a word is found again in front of any character that does not belong to words.
-/

namespace ScopeConfig.Syntax

/-! ## Cut texts -/

/-- Text at the front of a text stands in front of every cut behind it. -/
theorem exists_append_of_cut (text : List Char) {front back tail : List Char}
    (hcs : front ++ back = text ++ tail) (h : text.length ≤ front.length) :
    ∃ more, front = text ++ more ∧ more ++ back = tail := by
  obtain ⟨more, rfl⟩ : text <+: front := List.prefix_of_prefix_length_le
    (hcs ▸ List.prefix_append text tail) (List.prefix_append front back) h
  rw [List.append_assoc, List.append_cancel_left_eq] at hcs
  exact ⟨more, rfl, hcs⟩

/-- Text on one line that stands in front of a newline does not go beyond it. -/
theorem prefix_of_prefix_cut {text front rest : List Char} (hline : '\n' ∉ text)
    (h : text <+: front ++ '\n' :: rest) : text <+: front := by
  rcases List.prefix_or_prefix_of_prefix h (List.prefix_append front _) with hfront | ⟨more, rfl⟩
  · exact hfront
  · have hmore : more <+: '\n' :: rest := (List.prefix_append_right_inj front).1 h
    cases more with
    | nil => simp
    | cons d more =>
      obtain ⟨rfl, -⟩ := List.cons_prefix_cons.1 hmore
      simp at hline

/-- What does not follow in a text does not follow when the text is cut and goes on with a
newline. -/
theorem ne_append_cut (text : List Char) {front back cs : List Char} (hcs : front ++ back = cs)
    (hline : '\n' ∉ text) (h : ∀ tail, cs = text ++ tail → False) (rest : List Char) :
    ∀ tail, front ++ '\n' :: rest = text ++ tail → False := by
  intro tail htail
  obtain ⟨more, rfl⟩ := prefix_of_prefix_cut hline ⟨tail, htail.symm⟩
  exact h (more ++ back) (by rw [← hcs, List.append_assoc])

/-! ## Readers that stay within a text -/

namespace Reading

variable {α β : Type}

/-- Something is found, and no more than `n` characters are used for it. -/
def Within (r : Reading α) (n : Nat) : Prop :=
  (∃ value, r.outcome = .ok value) ∧ r.used ≤ n

/-- A fault is nothing that is found, within whatever number of characters. -/
theorem not_within_fault (f : Fault) (used n : Nat) : ¬(fault f used : Reading α).Within n := by
  rintro ⟨⟨value, h⟩, -⟩
  cases h

/-- What is found after `m` characters is found within `n` if `n - m` are enough for the rest. -/
theorem within_after_iff {r : Reading α} {m n : Nat} {g : α → β} :
    (r.after m g).Within n ↔ m ≤ n ∧ r.Within (n - m) := by
  constructor
  · rintro ⟨⟨value, hvalue⟩, hused⟩
    obtain ⟨found, hfound, -⟩ := exists_of_after hvalue
    have hsum : m + r.used ≤ n := hused
    exact ⟨by omega, ⟨found, hfound⟩, by omega⟩
  · rintro ⟨hm, ⟨found, hfound⟩, hused⟩
    refine ⟨⟨g found, by simp [after, hfound, Except.map]⟩, ?_⟩
    show m + r.used ≤ n
    omega

/-- What is found within a text is found again when a newline comes after the text. -/
def Local (read : List Char → Reading α) : Prop :=
  ∀ front back, (read (front ++ back)).Within front.length → ∀ rest,
    read (front ++ '\n' :: rest) = read (front ++ back)

/-- One step of a reader over the characters `ds` is the same step in front of a newline, when what
is read after them is found again. -/
theorem cut_after {read : List Char → Reading β} (read' : List Char → Reading α) {g : α → β}
    {front back cs rest : List Char} (ds : List Char) (hcs : front ++ back = ds ++ cs)
    (h : ((read' cs).after ds.length g).Within front.length)
    (ih : ∀ more, more ++ back = cs → (read' cs).Within more.length →
      read' (more ++ '\n' :: rest) = read' cs)
    (hread : ∀ more, more ++ back = cs →
      read (ds ++ (more ++ '\n' :: rest)) = (read' (more ++ '\n' :: rest)).after ds.length g) :
    read (front ++ '\n' :: rest) = (read' cs).after ds.length g := by
  obtain ⟨hlength, hwithin⟩ := within_after_iff.1 h
  obtain ⟨more, rfl, hmore⟩ := exists_append_of_cut ds hcs hlength
  rw [List.length_append, Nat.add_sub_cancel_left] at hwithin
  rw [List.append_assoc, hread more hmore, ih more hmore hwithin]

end Reading

open Reading

/-! ## Runs of characters -/

/-- A run of characters that is taken from within a text is taken again when a newline comes after
the text. -/
def LocalRun (run : List Char → List Char) : Prop :=
  ∀ front back, (run (front ++ back)).length ≤ front.length → ∀ rest,
    run (front ++ '\n' :: rest) = run (front ++ back)

/-- Taking characters while a condition holds is local, if the condition fails for a newline. -/
theorem localRun_takeWhile {p : Char → Bool} (hp : p '\n' = false) :
    LocalRun (List.takeWhile p) := by
  intro front back h rest
  induction front with
  | nil =>
    have hnone : back.takeWhile p = [] := List.eq_nil_of_length_eq_zero (Nat.le_zero.1 h)
    simp [hp, hnone]
  | cons c front ih =>
    by_cases hc : p c = true
    · simp only [List.cons_append, List.takeWhile_cons, hc, if_true, List.length_cons,
        Nat.add_le_add_iff_right] at h ⊢
      rw [ih h]
    · simp [hc]

/-- A run that stops at a newline has to be looked at only where it could start. -/
theorem localRun_of_cons {run : List Char → List Char} (hnil : ∀ rest, run ('\n' :: rest) = [])
    (hcons : ∀ c front back, (run (c :: (front ++ back))).length ≤ front.length + 1 → ∀ rest,
      run (c :: (front ++ '\n' :: rest)) = run (c :: (front ++ back))) : LocalRun run := by
  intro front back h rest
  cases front with
  | nil => exact (hnil rest).trans (List.eq_nil_of_length_eq_zero (Nat.le_zero.1 h)).symm
  | cons c front => exact hcons c front back h rest

/-- A run that counts only after its first character. -/
theorem LocalRun.cut_cons {run inner : List Char → List Char} (hinner : LocalRun inner) {c : Char}
    (hread : ∀ cs, run (c :: cs) = if inner cs = [] then [] else c :: inner cs)
    {front back : List Char} (h : (run (c :: (front ++ back))).length ≤ front.length + 1)
    (rest : List Char) : run (c :: (front ++ '\n' :: rest)) = run (c :: (front ++ back)) := by
  have hlength : (inner (front ++ back)).length ≤ front.length := by
    by_cases hnone : inner (front ++ back) = []
    · simp [hnone]
    · rw [hread, if_neg hnone] at h
      exact Nat.le_of_succ_le_succ h
  rw [hread, hread, hinner front back hlength rest]

/-- Two runs, one after the other. -/
theorem LocalRun.append {first second : List Char → List Char} (hfirst : LocalRun first)
    (hsecond : LocalRun second) :
    LocalRun fun cs => first cs ++ second (cs.drop (first cs).length) := by
  intro front back h rest
  dsimp only at h ⊢
  rw [List.length_append] at h
  rw [hfirst front back (by omega)]
  rw [List.drop_append_of_le_length (by omega)] at h ⊢
  rw [List.drop_append_of_le_length (by omega), hsecond _ back (by rw [List.length_drop]; omega)]

/-! ## Comments -/

/-- The end of a comment is local. -/
theorem local_commentEnd : Local commentEnd := by
  intro front back h rest
  generalize hcs : front ++ back = cs at h ⊢
  fun_induction commentEnd cs generalizing front with
  | case1 => exact (not_within_fault _ _ _ h).elim
  | case2 cs =>
    obtain ⟨more, rfl, -⟩ := exists_append_of_cut ['*', '/'] hcs h.2
    rfl
  | case3 c cs hopen ih =>
    refine cut_after _ [c] hcs h ih fun more hmore => ?_
    rw [List.singleton_append, commentEnd]
    · rfl
    · intro tail hstar
      exact ne_append_cut ['/'] hmore (by decide) (fun tail => hopen tail hstar) rest tail

/-! ## Quoted strings -/

/-- A character that could open a template sequence and does not stands for itself. -/
theorem quotedRest_loneMark {c : Char} {cs : List Char} (hc : isTemplateMark c = true)
    (hopen : ∀ tail, cs = '\x7b' :: tail → False)
    (hdouble : ∀ tail, cs = c :: '\x7b' :: tail → False) :
    quotedRest .plain (c :: cs) = (quotedRest .plain cs).after 1 (prepend [c]) := by
  have hplain : c ≠ '"' ∧ c ≠ '\n' ∧ c ≠ '\\' := by
    simp only [isTemplateMark, Bool.or_eq_true, decide_eq_true_eq] at hc
    rcases hc with rfl | rfl <;> decide
  rw [quotedRest.eq_def]
  simp only [hplain, hc, if_true, if_false]
  split
  · exact (hopen _ rfl).elim
  · rw [if_neg fun hd => hdouble _ (by rw [hd])]
  · rfl

/-- The rest of a quoted string is local, in each mode. -/
theorem local_quotedRest (mode : Mode) : Local (quotedRest mode) := by
  intro front back h rest
  generalize hcs : front ++ back = cs at h ⊢
  fun_induction quotedRest mode cs generalizing front
  -- the closing quote
  case case2 cs =>
    obtain ⟨more, rfl, -⟩ := exists_append_of_cut ['"'] hcs h.2
    rw [List.append_assoc, quotedRest.eq_def]
    rfl
  -- a mark on its own: the two characters after it could make it a template or a doubled mark, and
  -- with a newline there they do neither
  case case8 c _ hline _ hmark d cs hopen hne ih =>
    refine cut_after _ [c] hcs h ih fun more hmore => quotedRest_loneMark hmark ?_ ?_
    · exact ne_append_cut ['\x7b'] hmore (by decide)
        (fun tail htail => hopen (List.cons.inj htail).1) rest
    · exact ne_append_cut [c, '\x7b'] hmore (by simp [Ne.symm hline])
        (fun tail htail => hne (List.cons.inj htail).1) rest
  case case9 c _ hline _ hmark cs hopen hdouble ih =>
    refine cut_after _ [c] hcs h ih fun more hmore => quotedRest_loneMark hmark ?_ ?_
    · exact ne_append_cut ['\x7b'] hmore (by decide) hopen rest
    · exact ne_append_cut [c, '\x7b'] hmore (by simp [Ne.symm hline]) (hdouble c) rest
  -- the other characters are read one, two or three at a time, whatever follows
  all_goals first
    | exact (not_within_fault _ _ _ h).elim
    | exact cut_after _ [_] hcs h (by assumption) fun more _ => by
        rw [quotedRest.eq_def]
        simp [*]
    | exact cut_after _ [_, _] hcs h (by assumption) fun more _ => by
        simp [quotedRest, *]
    | exact cut_after _ [_, _, _] hcs h (by assumption) fun more _ => by
        simp [quotedRest, *]

/-! ## Heredocs -/

/-- The lines of a heredoc end at the marker. -/
theorem heredocLines_of_marker {marker line : List Char} (h : Text.trim line = marker)
    (lines : List (List Char)) : heredocLines marker (line :: lines) = .found [] line.length := by
  cases lines <;> simp [heredocLines, h]

/-- A line that is not the marker is taken into the heredoc, if another line follows. -/
theorem heredocLines_of_line {marker line : List Char} (h : Text.trim line ≠ marker)
    {lines : List (List Char)} (hne : lines ≠ []) :
    heredocLines marker (line :: lines) =
      (heredocLines marker lines).after (line.length + 1) (line :: ·) := by
  obtain ⟨next, more, rfl⟩ := List.exists_cons_of_ne_nil hne
  simp [heredocLines, h]

/-- The lines of a heredoc are read up to the end of one. -/
theorem length_le_of_heredocLines {marker line : List Char} {lines : List (List Char)} {n : Nat}
    (h : (heredocLines marker (line :: lines)).Within n) :
    line.length ≤ n ∧ (Text.trim line ≠ marker → line.length < n) := by
  by_cases hline : Text.trim line = marker
  · rw [heredocLines_of_marker hline] at h
    exact ⟨h.2, fun hne => (hne hline).elim⟩
  · cases lines with
    | nil =>
      simp only [heredocLines, if_neg hline] at h
      exact (not_within_fault _ _ _ h).elim
    | cons next more =>
      rw [heredocLines_of_line hline (List.cons_ne_nil next more)] at h
      obtain ⟨hlength, -⟩ := within_after_iff.1 h
      exact ⟨by omega, fun _ => by omega⟩

/-- The lines of a heredoc are local. -/
theorem local_heredocLines (marker : List Char) :
    Local fun cs => heredocLines marker (Text.splitAt '\n' cs) := by
  intro front back h rest
  induction hn : front.length using Nat.strong_induction_on generalizing front with
  | _ n ih =>
    by_cases hline : '\n' ∈ front
    · -- a whole line is read, and then the lines after it
      obtain ⟨line, more, rfl, hfree⟩ := List.eq_append_cons_of_mem hline
      simp only [List.append_assoc, List.cons_append, Text.splitAt_line hfree] at h ⊢
      by_cases hmarker : Text.trim line = marker
      · rw [heredocLines_of_marker hmarker, heredocLines_of_marker hmarker]
      · have hread := fun cs =>
          heredocLines_of_line hmarker (Text.splitAt_ne_nil '\n' (more ++ cs))
        rw [hread] at h
        obtain ⟨hlength, hmore⟩ := within_after_iff.1 h
        have htotal : (line ++ '\n' :: more).length = line.length + 1 + more.length := by
          simp only [List.length_append, List.length_cons]
          omega
        rw [htotal, Nat.add_sub_cancel_left] at hmore
        have hrest := ih more.length (by omega) more hmore rfl
        dsimp only at hrest
        rw [hread, hread, hrest]
    · obtain ⟨piece, pieces, hpieces⟩ := List.exists_cons_of_ne_nil (Text.splitAt_ne_nil '\n' back)
      simp only [Text.splitAt_append hline hpieces, Text.splitAt_line hline] at h ⊢
      obtain ⟨hle, hlt⟩ := length_le_of_heredocLines h
      rw [List.length_append] at hle hlt
      obtain rfl : piece = [] := List.eq_nil_of_length_eq_zero (by omega)
      have hmarker : Text.trim (front ++ []) = marker := by
        by_contra hne
        have hlt' := hlt hne
        omega
      rw [heredocLines_of_marker hmarker, List.append_nil]
      rw [List.append_nil] at hmarker
      rw [heredocLines_of_marker hmarker]

/-- A marker and a newline begin a heredoc, whose value is made of the lines up to the marker. -/
theorem heredocFrom_of_marker (indented : Bool) {marker : List Char} (hne : marker ≠ [])
    (hmarker : ∀ c ∈ marker, inMarker c = true) (cs : List Char) :
    heredocFrom indented (marker ++ '\n' :: cs) =
      (heredocLines marker (Text.splitAt '\n' cs)).after (marker.length + 1)
        (heredocValue indented) := by
  have htake : (marker ++ '\n' :: cs).takeWhile inMarker = marker := by
    rw [List.takeWhile_append_of_pos hmarker, List.takeWhile_cons_of_neg (by decide +kernel),
      List.append_nil]
  obtain ⟨c, more, rfl⟩ := List.exists_cons_of_ne_nil hne
  simp only [heredocFrom, htake, List.drop_left]

/-- What a heredoc is read from when something is found. -/
theorem marker_of_heredocFrom {indented : Bool} {cs : List Char} {n : Nat}
    (h : (heredocFrom indented cs).Within n) :
    ∃ marker more, marker ≠ [] ∧ (∀ c ∈ marker, inMarker c = true) ∧
      cs = marker ++ '\n' :: more := by
  unfold heredocFrom at h
  dsimp only at h
  split at h
  · rename_i c name more hname hmore
    refine ⟨cs.takeWhile inMarker, more, by simp [hname], fun c => List.mem_takeWhile_imp, ?_⟩
    rw [← hmore, List.prefix_iff_eq_append.1 (List.takeWhile_prefix inMarker)]
  · exact (not_within_fault _ _ _ h).elim

/-- A heredoc is local, from its marker on. -/
theorem local_heredocFrom (indented : Bool) : Local (heredocFrom indented) := by
  intro front back h rest
  obtain ⟨marker, cs, hne, hmarker, hcs⟩ := marker_of_heredocFrom h
  have hread := heredocFrom_of_marker indented hne hmarker
  have hsplit : front ++ back = (marker ++ ['\n']) ++ cs := by
    rw [hcs, List.append_assoc, List.singleton_append]
  have hlength : (marker ++ ['\n']).length = marker.length + 1 := List.length_append
  rw [hcs, hread, ← hlength] at h ⊢
  refine cut_after (fun cs => heredocLines marker (Text.splitAt '\n' cs)) (marker ++ ['\n'])
    hsplit h (fun more hmore hwithin => ?_) fun more _ => ?_
  · subst hmore
    exact local_heredocLines marker more back hwithin rest
  · rw [hlength, ← hread, List.append_assoc, List.singleton_append]

/-- What is found of a heredoc, from its marker on, takes at least one character. -/
theorem not_within_heredocFrom {indented : Bool} {cs : List Char} :
    ¬(heredocFrom indented cs).Within 0 := by
  intro h
  obtain ⟨marker, more, hne, hmarker, rfl⟩ := marker_of_heredocFrom h
  rw [heredocFrom_of_marker indented hne hmarker, within_after_iff] at h
  exact Nat.not_succ_le_zero _ h.1

theorem heredoc_cons {c : Char} (hc : c ≠ '-') (cs : List Char) :
    heredoc (c :: cs) = heredocFrom false (c :: cs) := by
  rw [heredoc.eq_def]
  split
  · rename_i heq
    exact (hc (List.cons.inj heq).1).elim
  · rfl

/-- What is found of a heredoc takes at least one character. -/
theorem not_within_heredoc {cs : List Char} : ¬(heredoc cs).Within 0 := by
  intro h
  unfold heredoc at h
  split at h
  · exact Nat.not_succ_le_zero _ (within_after_iff.1 h).1
  · exact not_within_heredocFrom h

/-- A heredoc is local. -/
theorem local_heredoc : Local heredoc := by
  intro front back h rest
  cases front with
  | nil => exact (not_within_heredoc h).elim
  | cons c front =>
    by_cases hc : c = '-'
    · subst hc
      have hcs : '-' :: front ++ back = ['-'] ++ (front ++ back) := rfl
      refine cut_after _ ['-'] hcs h (fun more hmore hwithin => ?_) fun more _ => rfl
      rw [← hmore] at hwithin ⊢
      exact local_heredocFrom true more back hwithin rest
    · simp only [List.cons_append, heredoc_cons hc] at h ⊢
      exact local_heredocFrom false (c :: front) back h rest

/-! ## Numbers -/

/-- The run of digits is local. -/
theorem localRun_digits : LocalRun digits :=
  localRun_takeWhile (by decide)

/-- Without a point there is no fraction. -/
theorem fraction_of_ne {c : Char} (hc : c ≠ '.') (cs : List Char) : fraction (c :: cs) = [] := by
  unfold fraction
  split
  · rename_i heq
    exact (hc (List.cons.inj heq).1).elim
  · rfl

/-- The fraction of a number is a local run. -/
theorem localRun_fraction : LocalRun fraction := by
  refine localRun_of_cons (fun _ => fraction_of_ne (by decide) _) fun c front back h rest => ?_
  by_cases hc : c = '.'
  · subst hc
    cases front with
    | nil =>
      -- a point without its digit is no fraction, and the digit would have been too long
      cases back with
      | nil => rfl
      | cons d back =>
        have hd : d.isDigit = false := by
          by_contra hd
          simp [fraction, digits, Bool.of_not_eq_false hd] at h
        simp [fraction, hd]
    | cons d front =>
      by_cases hd : d.isDigit = true
      · simp only [List.cons_append, fraction, hd, if_true, List.length_cons,
          Nat.add_le_add_iff_right] at h ⊢
        exact congrArg _ (localRun_digits (d :: front) back h rest)
      · simp [fraction, hd]
  · rw [fraction_of_ne hc, fraction_of_ne hc]

theorem localRun_signedDigits : LocalRun signedDigits := by
  refine localRun_of_cons (fun _ => rfl) fun c front back h rest => ?_
  by_cases hsign : c = '+' ∨ c = '-'
  · refine localRun_digits.cut_cons ?_ h rest
    rcases hsign with rfl | rfl <;> exact fun _ => rfl
  · have hread : ∀ cs, signedDigits (c :: cs) = digits (c :: cs) := by
      intro cs
      unfold signedDigits
      split <;> simp_all
    rw [hread] at h
    rw [hread, hread]
    exact localRun_digits (c :: front) back h rest

theorem localRun_exponent : LocalRun exponent := by
  refine localRun_of_cons (fun _ => by simp [exponent]) fun c front back h rest => ?_
  by_cases hletter : c = 'e' ∨ c = 'E'
  · refine localRun_signedDigits.cut_cons (fun cs => ?_) h rest
    have hc : (c = 'e' || c = 'E') = true := by simpa using hletter
    simp only [exponent, hc, Bool.true_and, decide_not, Bool.not_eq_true', decide_eq_false_iff_not,
      ite_not]
  · simp only [not_or] at hletter
    simp [exponent, hletter]

/-- A number is a local run. -/
theorem localRun_numeral : LocalRun numeral := by
  have hpart := localRun_digits.append localRun_fraction
  have hwhole := hpart.append localRun_exponent
  intro front back h rest
  have hnumeral : ∀ cs, numeral cs = (digits cs ++ fraction (cs.drop (digits cs).length)) ++
      exponent (cs.drop (digits cs ++ fraction (cs.drop (digits cs).length)).length) := by
    intro cs
    simp only [numeral, List.length_append]
  simp only [hnumeral] at h ⊢
  exact hwhole front back h rest

/-! ## Symbols -/

/-- A symbol that is found within a text is found again in front of a newline. -/
theorem symbol?_cut {c : Char} {front back : List Char} {s : Symbol} {used : Nat}
    (h : symbol? c (front ++ back) = some (s, used)) (hused : used ≤ front.length)
    (rest : List Char) : symbol? c (front ++ '\n' :: rest) = some (s, used) := by
  generalize hcs : front ++ back = cs at h
  unfold symbol? at h
  split at h
  all_goals cases h
  -- a symbol of one character is still none of the longer ones; those stand in `front`
  case h_9.refl hassign harrow =>
    rw [symbol?]
    · exact ne_append_cut ['='] hcs (by decide) hassign rest
    · exact ne_append_cut ['>'] hcs (by decide) harrow rest
  case h_10.refl hassign | h_11.refl hassign | h_12.refl hassign =>
    rw [symbol?]
    exact ne_append_cut ['='] hcs (by decide) hassign rest
  case h_20.refl hdots =>
    rw [symbol?]
    exact ne_append_cut ['.', '.'] hcs (by decide) hdots rest
  case h_8.refl =>
    obtain ⟨more, rfl, -⟩ := exists_append_of_cut ['.', '.'] hcs hused
    rfl
  all_goals first
    | rfl
    | obtain ⟨more, rfl, -⟩ := exists_append_of_cut [_] hcs hused
      rfl

/-! ## One lexeme -/

/-- A line comment that is found takes more than its first character. -/
theorem not_within_lineComment (cs : List Char) : ¬(lexeme '/' ('/' :: cs)).Within 0 := by
  rintro ⟨-, hused⟩
  simp [lexeme, found] at hused

/-- A block comment that is found takes more than its first character. -/
theorem not_within_blockComment (cs : List Char) : ¬(lexeme '/' ('*' :: cs)).Within 0 := by
  rintro ⟨-, hused⟩
  simp [lexeme, after] at hused

/-- A heredoc that is found takes more than its first character. -/
theorem not_within_angles (cs : List Char) : ¬(lexeme '<' ('<' :: cs)).Within 0 := by
  rintro ⟨-, hused⟩
  simp [lexeme, after, Text.isBlank, show Text.blanks.has '<' = false by decide +kernel] at hused

/-- Whether a lexeme goes on with a character can be seen in front of a newline as well. -/
theorem head?_cut {c d : Char} {front back : List Char} (hd : d ≠ '\n')
    (h : (lexeme c (front ++ back)).Within front.length)
    (hnot : ∀ cs, ¬(lexeme c (d :: cs)).Within 0) (rest : List Char) :
    (front ++ '\n' :: rest).head? = some d ↔ (front ++ back).head? = some d := by
  cases front with
  | nil =>
    have hback : back.head? ≠ some d := by
      intro hhead
      obtain ⟨more, rfl⟩ := List.head?_eq_some_iff.1 hhead
      exact hnot more h
    simpa [Ne.symm hd] using hback
  | cons e front => rfl

/-- A reader after a second character that a lexeme starts with. -/
theorem cut_after_head {α β : Type} {read : List Char → Reading α} (hread : Local read) {d : Char}
    {g : α → β} {front back : List Char} (hd : d ≠ '\n') (rest : List Char)
    (hhead : (front ++ '\n' :: rest).head? = some d)
    (h : ((read (front ++ back).tail).after 1 g).Within front.length) :
    (read (front ++ '\n' :: rest).tail).after 1 g = (read (front ++ back).tail).after 1 g := by
  cases front with
  | nil => exact (hd (Option.some.inj hhead).symm).elim
  | cons e front =>
    obtain ⟨-, hwithin⟩ := within_after_iff.1 h
    exact congrArg _ (hread front back hwithin rest)

/-- A reader that chooses between two others, in the same way in front of a newline. -/
theorem cut_ite {α : Type} {p : Prop} [Decidable p] {r s r' s' : Reading α} {n : Nat}
    (h : (if p then r else s).Within n) (hr : p → r.Within n → r' = r)
    (hs : s.Within n → s' = s) : (if p then r' else s') = if p then r else s := by
  by_cases hp : p
  · rw [if_pos hp] at h
    rw [if_pos hp, if_pos hp, hr hp h]
  · rw [if_neg hp] at h
    rw [if_neg hp, if_neg hp, hs h]

/-- A lexeme that is found is found again in front of a newline. -/
theorem lexeme_cut {c : Char} {front back : List Char}
    (h : (lexeme c (front ++ back)).Within front.length) (rest : List Char) :
    lexeme c (front ++ '\n' :: rest) = lexeme c (front ++ back) := by
  -- the tests that look one character ahead come out alike, as that character is within the text
  have hline : (c = '/' ∧ (front ++ '\n' :: rest).head? = some '/') ↔
      (c = '/' ∧ (front ++ back).head? = some '/') :=
    and_congr_right fun hc => head?_cut (by decide) h (hc ▸ not_within_lineComment) rest
  have hblock : (c = '/' ∧ (front ++ '\n' :: rest).head? = some '*') ↔
      (c = '/' ∧ (front ++ back).head? = some '*') :=
    and_congr_right fun hc => head?_cut (by decide) h (hc ▸ not_within_blockComment) rest
  have hangles : (c = '<' ∧ (front ++ '\n' :: rest).head? = some '<') ↔
      (c = '<' ∧ (front ++ back).head? = some '<') :=
    and_congr_right fun hc => head?_cut (by decide) h (hc ▸ not_within_angles) rest
  unfold lexeme at h ⊢
  simp only [Bool.or_eq_true, Bool.and_eq_true, decide_eq_true_eq, hline, hblock, hangles] at h ⊢
  -- so the same branch is taken, and what it takes is local
  refine cut_ite h (fun _ h => ?_) fun h => cut_ite h (fun hopen h => ?_) fun h =>
    cut_ite h (fun _ _ => rfl) fun h => cut_ite h (fun _ _ => rfl) fun h =>
    cut_ite h (fun _ h => ?_) fun h => cut_ite h (fun hheredoc h => ?_) fun h =>
    cut_ite h (fun _ h => ?_) fun h => cut_ite h (fun _ h => ?_) fun h => ?_
  · rw [localRun_takeWhile (by decide) front back h.2 rest]
  · exact cut_after_head local_commentEnd (by decide) rest (hblock.2 hopen).2 h
  · rw [local_quotedRest .plain front back (within_after_iff.1 h).2 rest]
  · exact cut_after_head local_heredoc (by decide) rest (hangles.2 hheredoc).2 h
  · have hlength : (numeral (c :: (front ++ back))).length ≤ (c :: front).length :=
      Nat.le_succ_of_pred_le h.2
    have hnumeral := localRun_numeral (c :: front) back hlength rest
    rw [List.cons_append, List.cons_append] at hnumeral
    rw [hnumeral]
  · rw [localRun_takeWhile not_continuesWord_newline front back h.2 rest]
  · cases hsymbol : symbol? c (front ++ back) with
    | none =>
      rw [hsymbol] at h
      exact (not_within_fault _ _ _ h).elim
    | some found =>
      rw [hsymbol] at h
      rw [symbol?_cut hsymbol h.2 rest]

/-- A word is read only where a word starts. -/
theorem startsWord_of_word {c : Char} {cs : List Char} {word : String}
    (h : (lexeme c cs).outcome = .ok (some (.word word))) : startsWord c = true := by
  have hcase := lexemeCase c cs
  generalize lexeme c cs = r at h hcase
  cases hcase with
  | word _ hc => exact hc
  | blockComment =>
    obtain ⟨_, _, hnone⟩ := exists_of_after h
    cases hnone
  | quoted | heredoc =>
    obtain ⟨_, _, hstr⟩ := exists_of_after h
    cases hstr
  | hashComment | slashComment | newline | blank | number | symbol | stray => cases h

/-- A word is found again in front of any character that no word goes on with. -/
theorem word_cut {c : Char} {cs : List Char} {word : String}
    (h : (lexeme c cs).outcome = .ok (some (.word word))) {d : Char} (hd : continuesWord d = false)
    (rest : List Char) :
    word = String.ofList (c :: cs.takeWhile continuesWord) ∧
      lexeme c (cs.takeWhile continuesWord ++ d :: rest) =
        .found (some (.word word)) (cs.takeWhile continuesWord).length := by
  have hc := startsWord_of_word h
  have hne : ∀ d, startsWord d = false → c ≠ d := by
    rintro d hd rfl
    exact Bool.false_ne_true (hd.symm.trans hc)
  have hspecial : c ≠ '#' ∧ c ≠ '/' ∧ c ≠ '\n' ∧ c ≠ '"' ∧ c ≠ '<' := by
    refine ⟨hne _ ?_, hne _ ?_, hne _ ?_, hne _ ?_, hne _ ?_⟩ <;> decide +kernel
  -- a blank or a digit would have been read as such
  have hblank : Text.isBlank c = false := by
    by_contra hblank
    simp [lexeme, hspecial, Bool.of_not_eq_false hblank, found] at h
  have hdigit : c.isDigit = false := by
    by_contra hdigit
    simp [lexeme, hspecial, hblank, Bool.of_not_eq_false hdigit, found] at h
  have hread : ∀ cs, lexeme c cs =
      .found (some (.word (String.ofList (c :: cs.takeWhile continuesWord))))
        (cs.takeWhile continuesWord).length := by
    intro cs
    simp [lexeme, hspecial, hc, hblank, hdigit]
  have htake : (cs.takeWhile continuesWord ++ d :: rest).takeWhile continuesWord =
      cs.takeWhile continuesWord := by
    rw [List.takeWhile_append_of_pos fun c => List.mem_takeWhile_imp,
      List.takeWhile_cons_of_neg (by simp [hd]), List.append_nil]
  rw [hread] at h
  obtain rfl := Token.word.inj (Option.some.inj (Except.ok.inj h))
  exact ⟨rfl, by rw [hread, htake]⟩

end ScopeConfig.Syntax
