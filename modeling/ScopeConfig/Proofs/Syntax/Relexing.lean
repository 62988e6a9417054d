import ScopeConfig.Proofs.Syntax.Locality

/-!
# Tokens are read again from their own text

Consecutive tokens of a text stand on a stretch of it. When the stretch is put in front of a newline
somewhere else, tokens with the same values are read from it, and the reader goes on at the newline:
each lexeme in the stretch is found again, since it is read from its own text.

## Main statements

* `Holds`: a text in front of a newline is read as tokens with given values.
* `Scans.exists_text`: consecutive tokens stand on a text that starts where the first of them does
  and holds them.
-/

namespace ScopeConfig.Syntax

open Reading

/-! ## Readers use what there is -/

/-- The end of a comment uses no more than there is. -/
theorem used_commentEnd_le (cs : List Char) : (commentEnd cs).used ≤ cs.length := by
  fun_induction commentEnd cs with
  | case1 => exact Nat.le_refl 0
  | case2 => simp [found]
  | case3 c cs _ ih =>
    simp only [after, List.length_cons]
    omega

theorem used_quotedRest_le (mode : Mode) (cs : List Char) :
    (quotedRest mode cs).used ≤ cs.length := by
  fun_induction quotedRest mode cs
  all_goals simp only [found, fault, after, List.length_cons, List.length_nil] at *
  all_goals omega

/-- The lines of a heredoc use no more than there is. -/
theorem used_heredocLines_le (marker : List Char) (lines : List (List Char)) :
    (heredocLines marker lines).used ≤ (['\n'].intercalate lines).length := by
  fun_induction heredocLines marker lines with
  | case1 => exact Nat.zero_le _
  | case2 last | case3 last => simp [found, fault, List.intercalate]
  | case4 line lines hne =>
    obtain ⟨next, more, rfl⟩ := List.exists_cons_of_ne_nil hne
    simp [found, List.intercalate]
  | case5 line lines hne _ ih =>
    obtain ⟨next, more, rfl⟩ := List.exists_cons_of_ne_nil hne
    rw [List.intercalate_cons_cons, List.length_append, List.length_append]
    simp only [after, List.length_cons, List.length_nil]
    omega

theorem used_heredocFrom_le (indented : Bool) (cs : List Char) :
    (heredocFrom indented cs).used ≤ cs.length := by
  have hmarker := (List.takeWhile_prefix (l := cs) inMarker).length_le
  unfold heredocFrom
  dsimp only
  split
  · rename_i c name rest hname hrest
    have hused := used_heredocLines_le (cs.takeWhile inMarker) (Text.splitAt '\n' rest)
    have hlength := congrArg List.length hrest
    rw [Text.intercalate_splitAt] at hused
    simp only [List.length_drop, List.length_cons] at hlength
    simp only [after]
    omega
  · exact hmarker

theorem used_heredoc_le (cs : List Char) : (heredoc cs).used ≤ cs.length := by
  unfold heredoc
  split
  · rename_i cs
    have hused := used_heredocFrom_le true cs
    simp only [after, List.length_cons]
    omega
  · exact used_heredocFrom_le false _

/-- A symbol uses no more than there is. -/
theorem used_symbol?_le {c : Char} {cs : List Char} {s : Symbol} {used : Nat}
    (h : symbol? c cs = some (s, used)) : used ≤ cs.length := by
  unfold symbol? at h
  split at h
  all_goals cases h
  all_goals simp

/-- A lexeme does not go beyond the end of the text. -/
theorem used_lexeme_le (c : Char) (cs : List Char) : (lexeme c cs).used ≤ cs.length := by
  have hcase := lexemeCase c cs
  generalize lexeme c cs = r at hcase
  cases hcase with
  | hashComment | slashComment | word => exact (List.takeWhile_prefix _).length_le
  | blockComment cs =>
    have hused := used_commentEnd_le cs
    simp only [after, List.length_cons]
    omega
  | newline | blank | stray => exact Nat.zero_le _
  | quoted =>
    have hused := used_quotedRest_le .plain cs
    simp only [after]
    omega
  | heredoc cs =>
    have hused := used_heredoc_le cs
    simp only [after, List.length_cons]
    omega
  | number _ hc =>
    have hlength := (frontOfLine_numeral (c :: cs)).front.length_le
    exact Nat.sub_le_of_le_add hlength
  | symbol hs => exact used_symbol?_le hs

/-! ## One more lexeme -/

section Step

variable (start : Pos) {c : Char} {used rest : List Char}

/-- Behind a lexeme without a token the rest is read from where the lexeme ends. -/
theorem tokensFrom_skipped (h : lexeme c (used ++ rest) = .found none used.length) :
    tokensFrom start (c :: (used ++ rest)) = tokensFrom (start.after (c :: used)) rest := by
  rw [tokensFrom, h]
  simp [found]

/-- Behind a lexeme with a token the rest is read from where the lexeme ends, and the token comes
first. -/
theorem tokensFrom_token {token : Token}
    (h : lexeme c (used ++ rest) = .found (some token) used.length) :
    tokensFrom start (c :: (used ++ rest)) = (tokensFrom (start.after (c :: used)) rest).map
      (·.push ⟨token, start, start.after (c :: used)⟩) := by
  rw [tokensFrom, h]
  simp [found]

end Step

/-- A lexeme that is found divides the text after its first character. -/
theorem exists_used_of_lexeme {c : Char} {cs : List Char} {found : Option Token}
    (h : (lexeme c cs).outcome = .ok found) :
    ∃ used rest, cs = used ++ rest ∧ cs.take (lexeme c cs).used = used ∧
      cs.drop (lexeme c cs).used = rest ∧
      lexeme c (used ++ rest) = .found found used.length := by
  refine ⟨_, _, (List.take_append_drop _ cs).symm, rfl, rfl, ?_⟩
  rw [List.take_append_drop, List.length_take, Nat.min_eq_left (used_lexeme_le c cs)]
  cases hread : lexeme c cs with
  | mk outcome used =>
    rw [hread] at h
    obtain rfl : outcome = .ok found := h
    rfl

/-- A lexeme is found again when the text after it is cut. -/
theorem lexeme_eq_found_cut {c : Char} {used text back : List Char} {found : Option Token}
    (h : lexeme c (used ++ (text ++ back)) = .found found used.length) (rest : List Char) :
    lexeme c (used ++ (text ++ '\n' :: rest)) = .found found used.length := by
  rw [← List.append_assoc] at h
  have hwithin : (lexeme c (used ++ text ++ back)).Within (used ++ text).length := by
    rw [h]
    exact ⟨⟨found, rfl⟩, by simp [Reading.found]⟩
  rw [← List.append_assoc, lexeme_cut hwithin rest, h]

/-! ## Texts that hold tokens -/

/-- Puts tokens in front of a stream. -/
def TokenStream.prepend (ts : List Located) (s : TokenStream) : TokenStream :=
  { s with tokens := ts ++ s.tokens }

/-- Where tokens stop that are read from a place on. -/
def stopOf : Pos → List Located → Pos
  | start, [] => start
  | _, t :: ts => stopOf t.stop ts

/-- From the place `start` on and in front of a newline, the text is read as the tokens. -/
structure ReadsAs (start : Pos) (text : List Char) (ts : List Located) : Prop where
  stop : stopOf start ts = start.after text
  read : ∀ rest, tokensFrom start (text ++ '\n' :: rest) =
    (tokensFrom (start.after text) ('\n' :: rest)).map (·.prepend ts)

/-- Wherever the text stands in front of a newline, it is read as tokens with these values. -/
def Holds (text : List Char) (values : List Token) : Prop :=
  ∀ start, ∃ ts, ts.map Located.token = values ∧ ReadsAs start text ts

section Holds

variable {start : Pos} {c : Char} {used text back : List Char}

/-- Where tokens stop does not depend on where they start, when there is one. -/
theorem stopOf_of_ne_nil {ts : List Located} (h : ts ≠ []) (start start' : Pos) :
    stopOf start ts = stopOf start' ts := by
  obtain ⟨t, ts, rfl⟩ := List.exists_cons_of_ne_nil h
  rfl

theorem ReadsAs.nil (start : Pos) : ReadsAs start [] [] := by
  refine ⟨rfl, fun rest => ?_⟩
  show tokensFrom start ('\n' :: rest) = (tokensFrom start ('\n' :: rest)).map (·.prepend [])
  cases tokensFrom start ('\n' :: rest) <;> rfl

/-- Skipped text in front of tokens. -/
theorem ReadsAs.skipped {ts : List Located} (hne : ts ≠ [])
    (h : ReadsAs (start.after (c :: used)) text ts)
    (hread : lexeme c (used ++ (text ++ back)) = .found none used.length) :
    ReadsAs start (c :: (used ++ text)) ts := by
  constructor
  · rw [stopOf_of_ne_nil hne start (start.after (c :: used)), h.stop, ← Pos.after_append]
    rfl
  · intro rest
    have hcut := lexeme_eq_found_cut hread rest
    rw [List.cons_append, List.append_assoc, tokensFrom_skipped start hcut, h.read,
      ← Pos.after_append]
    rfl

/-- A token in front of tokens. -/
theorem ReadsAs.token {token : Token} {ts : List Located}
    (h : ReadsAs (start.after (c :: used)) text ts)
    (hread : lexeme c (used ++ (text ++ back)) = .found (some token) used.length) :
    ReadsAs start (c :: (used ++ text)) (⟨token, start, start.after (c :: used)⟩ :: ts) := by
  constructor
  · rw [stopOf, h.stop, ← Pos.after_append]
    rfl
  · intro rest
    have hcut := lexeme_eq_found_cut hread rest
    rw [List.cons_append, List.append_assoc, tokensFrom_token start hcut, h.read,
      ← Pos.after_append]
    simp only [List.cons_append]
    cases tokensFrom (start.after (c :: (used ++ text))) ('\n' :: rest) <;> rfl

end Holds

/-! ## Consecutive tokens -/

/-- The text is read as the tokens from a place on, one lexeme after the other. -/
inductive Scans : Pos → List Char → List Located → Prop
  | nil (start : Pos) : Scans start [] []
  | skipped {start : Pos} {c : Char} {used rest : List Char} {ts : List Located}
    (hread : lexeme c (used ++ rest) = .found none used.length)
    (hrest : Scans (start.after (c :: used)) rest ts) : Scans start (c :: (used ++ rest)) ts
  | token {start : Pos} {c : Char} {used rest : List Char} {token : Token} {ts : List Located}
    (hread : lexeme c (used ++ rest) = .found (some token) used.length)
    (hrest : Scans (start.after (c :: used)) rest ts) :
    Scans start (c :: (used ++ rest)) (⟨token, start, start.after (c :: used)⟩ :: ts)

/-- A text that is lexed without a fault is read one lexeme after the other. -/
theorem scans_of_tokensFrom {start : Pos} {cs : List Char} {stream : TokenStream}
    (h : tokensFrom start cs = .ok stream) : Scans start cs stream.tokens := by
  fun_induction tokensFrom start cs generalizing stream with
  | case1 start =>
    cases h
    exact .nil start
  | case2 => cases h
  -- what the lexeme used is split off, so that it is read again in front of any rest
  | case3 start c cs reading stop =>
    rename_i hread ih
    obtain ⟨used, rest, rfl, hused, hrest, hfound⟩ := exists_used_of_lexeme hread
    have hstop : stop = start.after (c :: used) := congrArg _ hused
    have hmore := ih h
    rw [hrest, hstop] at hmore
    exact .skipped hfound hmore
  | case4 start c cs reading stop token =>
    rename_i hread ih
    obtain ⟨used, rest, rfl, hused, hrest, hfound⟩ := exists_used_of_lexeme hread
    have hstop : stop = start.after (c :: used) := congrArg _ hused
    cases hmore : tokensFrom stop ((used ++ rest).drop reading.used) with
    | error f => simp [hmore, Except.map] at h
    | ok more =>
      obtain rfl : more.push ⟨token, start, stop⟩ = stream := by
        simpa [hmore, Except.map] using h
      have hscans := ih hmore
      rw [hrest, hstop] at hscans
      rw [hstop]
      exact .token hfound hscans

/-- Consecutive tokens at the front stand on a text that holds them: by induction along the text,
up to the last of the tokens. -/
theorem Scans.exists_holds {start : Pos} {cs : List Char} {ts es more : List Located}
    (h : Scans start cs ts) (hts : ts = es ++ more) :
    ∃ text back, cs = text ++ back ∧ stopOf start es = start.after text ∧
      Holds text (es.map Located.token) := by
  -- no tokens stand on no text, wherever the last of them has ended
  have hnone : ∀ start cs, ∃ text back, cs = text ++ back ∧ stopOf start [] = start.after text ∧
      Holds text (List.map Located.token []) := fun start cs =>
    ⟨[], cs, rfl, rfl, fun start => ⟨[], rfl, .nil start⟩⟩
  induction h generalizing es with
  | nil start =>
    obtain ⟨rfl, -⟩ := List.append_eq_nil_iff.1 hts.symm
    exact hnone start []
  | @skipped start c used rest ts hread _ ih =>
    by_cases hes : es = []
    · subst hes
      exact hnone start _
    · obtain ⟨text, back, rfl, hstop, hholds⟩ := ih hts
      refine ⟨c :: (used ++ text), back, by simp, ?_, fun start' => ?_⟩
      · rw [stopOf_of_ne_nil hes start (start.after (c :: used)), hstop, ← Pos.after_append]
        rfl
      -- skipped text is read as nothing in front of a token, and there is one since `es` has one
      · obtain ⟨ts', hvalues, hreads⟩ := hholds (start'.after (c :: used))
        have hne : ts' ≠ [] := by
          rintro rfl
          exact hes (List.map_eq_nil_iff.1 hvalues.symm)
        exact ⟨ts', hvalues, hreads.skipped hne hread⟩
  | @token start c used rest token ts hread _ ih =>
    cases es with
    | nil => exact hnone start _
    | cons e es =>
      obtain ⟨rfl, htail⟩ := List.cons.inj hts
      obtain ⟨text, back, rfl, hstop, hholds⟩ := ih htail
      refine ⟨c :: (used ++ text), back, by simp, ?_, fun start' => ?_⟩
      · rw [stopOf, hstop, ← Pos.after_append]
        rfl
      · obtain ⟨ts', hvalues, hreads⟩ := hholds (start'.after (c :: used))
        exact ⟨⟨token, start', _⟩ :: ts', congrArg (List.cons token) hvalues, hreads.token hread⟩

/-- Every token starts a part of the text, after the text of the tokens before it. -/
theorem Scans.exists_token {start : Pos} {cs : List Char} {ts before after : List Located}
    {t : Located} (h : Scans start cs ts) (hts : ts = before ++ t :: after) :
    ∃ front c used rest, cs = front ++ c :: (used ++ rest) ∧ t.start = start.after front ∧
      lexeme c (used ++ rest) = .found (some t.token) used.length ∧
      t.stop = t.start.after (c :: used) ∧ Scans t.stop rest after := by
  induction h generalizing before with
  | nil => simp at hts
  | @skipped start c used rest ts hread _ ih =>
    obtain ⟨front, d, more, back, rfl, hstart, hrest⟩ := ih hts
    refine ⟨c :: (used ++ front), d, more, back, by simp, ?_, hrest⟩
    rw [hstart, ← Pos.after_append]
    rfl
  | @token start c used rest token ts hread hscans ih =>
    cases before with
    | nil =>
      obtain ⟨rfl, rfl⟩ := List.cons.inj hts
      exact ⟨[], c, used, rest, rfl, rfl, hread, rfl, hscans⟩
    | cons e before =>
      obtain ⟨rfl, htail⟩ := List.cons.inj hts
      obtain ⟨front, d, more, back, rfl, hstart, hrest⟩ := ih htail
      refine ⟨c :: (used ++ front), d, more, back, by simp, ?_, hrest⟩
      rw [hstart, ← Pos.after_append]
      rfl

/-- The text of a token and of those after it, up to the last of them. It starts where the first of
them does, and wherever it is put in front of a newline, the first token is read from its first
character on. -/
theorem Scans.exists_text {start : Pos} {cs : List Char} {ts before es after : List Located}
    {t : Located} (h : Scans start cs ts) (hts : ts = before ++ t :: (es ++ after)) :
    ∃ front text back, cs = front ++ text ++ back ∧ text ≠ [] ∧ t.start = start.after front ∧
      stopOf t.stop es = start.after (front ++ text) ∧
      ∀ start', ∃ t' es', t'.token = t.token ∧ es'.map Located.token = es.map Located.token ∧
        t'.start = start' ∧ ReadsAs start' text (t' :: es') := by
  obtain ⟨front, c, used, rest, rfl, hstart, hread, hstop, hrest⟩ := h.exists_token hts
  obtain ⟨text, back, rfl, hlast, hholds⟩ := hrest.exists_holds rfl
  refine ⟨front, c :: (used ++ text), back, by simp, List.cons_ne_nil _ _, hstart, ?_,
    fun start' => ?_⟩
  · rw [hlast, hstop, hstart, ← Pos.after_append, ← Pos.after_append]
    simp
  · obtain ⟨es', hvalues, hreads⟩ := hholds (start'.after (c :: used))
    exact ⟨⟨t.token, start', _⟩, es', rfl, hvalues, rfl, hreads.token hread⟩

end ScopeConfig.Syntax
