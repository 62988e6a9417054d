import ScopeConfig.Proofs.Syntax.SelfContained

/-!
# Every string has a literal

A string is written between quotes with an escape for each backslash, quote, tab and line end, and
with `$` and `%` doubled where a brace follows them and would open a template sequence. Such a mark
is written once everywhere else, also in a run of marks: of those only the last can stand before a
brace. The text between the quotes never shows a mark before a brace that is not doubled, and that
carries the induction.

## Main statements

* `quotedRest_written`: the text between the quotes is read as the string.
* `stringLiteral_exact`: the literal of a string is one token, and the value of every attribute that
  it is written for is the string.
-/

namespace ScopeConfig.Syntax

open Reading

/-! ## Writing a string -/

/-- How a character is written between quotes when it is not a mark before a brace. -/
def writtenChar : Char → List Char
  | '\\' => ['\\', '\\']
  | '"' => ['\\', '"']
  | '\n' => ['\\', 'n']
  | '\r' => ['\\', 'r']
  | '\t' => ['\\', 't']
  | c => [c]

/-- How the characters of a string are written between quotes: a `$` or `%` directly before a brace
twice. -/
def written : List Char → List Char
  | [] => []
  | c :: cs =>
    (if isTemplateMark c && cs.head? = some '\x7b' then [c, c] else writtenChar c) ++ written cs

/-- The literal of a string. -/
def stringLiteral (s : String) : String :=
  String.ofList ('"' :: (written s.toList ++ ['"']))

section Written

variable {c : Char} {cs : List Char}

/-- A mark before a brace is written twice. -/
theorem written_mark_brace (hc : isTemplateMark c = true) (cs : List Char) :
    written (c :: '\x7b' :: cs) = c :: c :: '\x7b' :: written cs := by
  have hbrace : isTemplateMark '\x7b' = false := by decide
  simp [written, hc, hbrace, writtenChar]

/-- Any other character is written on its own. -/
theorem written_cons (h : isTemplateMark c = true → cs.head? ≠ some '\x7b') :
    written (c :: cs) = writtenChar c ++ written cs := by
  simp only [written]
  rw [if_neg]
  simpa using h

/-- A character is written with a backslash and an escape for it, or it stands for itself. -/
theorem writtenChar_cases (c : Char) :
    (∃ e, writtenChar c = ['\\', e] ∧ unescape e = [c]) ∨
      (writtenChar c = [c] ∧ c ≠ '\\' ∧ c ≠ '"' ∧ c ≠ '\n') := by
  unfold writtenChar
  split
  case h_6 hslash hquote hnewline _ _ => exact .inr ⟨rfl, hslash, hquote, hnewline⟩
  all_goals exact .inl ⟨_, rfl, rfl⟩

/-- A template mark is no brace. -/
theorem ne_brace_of_mark (hc : isTemplateMark c = true) : c ≠ '\x7b' := by
  rintro rfl
  revert hc
  decide

/-- A template mark is neither a backslash nor a quote nor a newline. -/
theorem ne_special_of_mark (hc : isTemplateMark c = true) : c ≠ '\\' ∧ c ≠ '"' ∧ c ≠ '\n' := by
  simp only [isTemplateMark, Bool.or_eq_true, decide_eq_true_eq] at hc
  rcases hc with rfl | rfl <;> decide

/-- A written text starts with a brace only when the string does. -/
theorem head?_of_written {rest tail : List Char}
    (h : written cs ++ '"' :: rest = '\x7b' :: tail) : cs.head? = some '\x7b' := by
  cases cs with
  | nil => simp [written] at h
  | cons c cs =>
    by_cases hopen : isTemplateMark c = true ∧ cs.head? = some '\x7b'
    · simp only [written, hopen, decide_true, Bool.and_self, if_true, List.cons_append,
        List.cons.injEq] at h
      exact (ne_brace_of_mark hopen.1 h.1).elim
    · rw [written_cons fun hc hbrace => hopen ⟨hc, hbrace⟩] at h
      rcases writtenChar_cases c with ⟨e, hc, -⟩ | ⟨hc, -⟩
      · simp [hc] at h
      · simpa [hc] using (List.cons.inj (hc ▸ h)).1

/-- No mark stands before a brace in a written text without another one in front of it. -/
theorem written_ne_mark_brace {rest tail : List Char} (hc : isTemplateMark c = true) :
    written cs ++ '"' :: rest ≠ c :: '\x7b' :: tail := by
  intro h
  obtain ⟨hslash, hquote, -⟩ := ne_special_of_mark hc
  cases cs with
  | nil => exact hquote (List.cons.inj h).1.symm
  | cons d cs =>
    by_cases hopen : isTemplateMark d = true ∧ cs.head? = some '\x7b'
    · -- the mark is doubled, and a mark is no brace
      simp only [written, hopen, decide_true, Bool.and_self, if_true, List.cons_append,
        List.cons.injEq] at h
      exact ne_brace_of_mark hopen.1 h.2.1
    · rw [written_cons fun hd hbrace => hopen ⟨hd, hbrace⟩] at h
      rcases writtenChar_cases d with ⟨e, hd, -⟩ | ⟨hd, -⟩
      · simp only [hd, List.cons_append, List.cons.injEq] at h
        exact hslash h.1.symm
      · simp only [hd, List.cons_append, List.nil_append, List.cons.injEq] at h
        obtain ⟨rfl, hrest⟩ := h
        exact hopen ⟨hc, head?_of_written hrest⟩

end Written

/-! ## Reading it back -/

section Steps

variable {c : Char}

/-- A quote ends the string. -/
theorem quotedRest_quote (rest : List Char) :
    quotedRest .plain ('"' :: rest) = .found ([], false) 1 := by
  rw [quotedRest.eq_def]
  rfl

/-- A backslash and a character are read as what they stand for. -/
theorem quotedRest_escape (e : Char) (cs : List Char) :
    quotedRest .plain ('\\' :: e :: cs) =
      (quotedRest .plain cs).after 2 (prepend (unescape e)) := by
  rw [quotedRest.eq_def]
  rfl

/-- A mark that is written twice before a brace is read as the mark and the brace. -/
theorem quotedRest_doubledMark (hc : isTemplateMark c = true) (cs : List Char) :
    quotedRest .plain (c :: c :: '\x7b' :: cs) =
      (quotedRest .plain cs).after 3 (prepend [c, '\x7b']) := by
  obtain ⟨hslash, hquote, hline⟩ := ne_special_of_mark hc
  have hbrace := ne_brace_of_mark hc
  rw [quotedRest.eq_def]
  simp [hslash, hquote, hline, hc]

/-- A character with no meaning of its own is read as it is. -/
theorem quotedRest_char (hc : isTemplateMark c = false) (hslash : c ≠ '\\') (hquote : c ≠ '"')
    (hline : c ≠ '\n') (cs : List Char) :
    quotedRest .plain (c :: cs) = (quotedRest .plain cs).after 1 (prepend [c]) := by
  rw [quotedRest.eq_def]
  simp [hslash, hquote, hline, hc]

/-- Characters in front of what was found. -/
theorem found_after_prepend (front cs : List Char) (template : Bool) (used n : Nat) :
    (found (cs, template) used).after n (prepend front) =
      found (front ++ cs, template) (n + used) :=
  rfl

end Steps

/-- The text between the quotes is read as the string. The induction also carries what is read after
a brace at the front, since a doubled mark is read together with the brace. -/
theorem quotedRest_written (s rest : List Char) :
    quotedRest .plain (written s ++ '"' :: rest) = .found (s, false) ((written s).length + 1) ∧
      ∀ more, s = '\x7b' :: more → quotedRest .plain (written more ++ '"' :: rest) =
        .found (more, false) ((written more).length + 1) := by
  induction s with
  | nil => exact ⟨quotedRest_quote rest, fun more h => by simp at h⟩
  | cons c cs ih =>
    obtain ⟨hread, hmore⟩ := ih
    refine ⟨?_, fun more h => (List.cons.inj h).2 ▸ hread⟩
    by_cases hopen : isTemplateMark c = true ∧ cs.head? = some '\x7b'
    · -- the doubled mark and the brace
      obtain ⟨hc, hhead⟩ := hopen
      obtain ⟨more, rfl⟩ := List.head?_eq_some_iff.1 hhead
      rw [written_mark_brace hc, List.cons_append, List.cons_append, List.cons_append,
        quotedRest_doubledMark hc, hmore more rfl, found_after_prepend]
      congr 1
      simp only [List.length_cons]
      omega
    · rw [written_cons fun hc hbrace => hopen ⟨hc, hbrace⟩]
      rcases writtenChar_cases c with ⟨e, hc, he⟩ | ⟨hc, hslash, hquote, hline⟩
      · rw [hc]
        show quotedRest .plain ('\\' :: e :: (written cs ++ '"' :: rest)) = _
        rw [quotedRest_escape, hread, found_after_prepend, he]
        congr 1
        simp only [List.length_append, List.length_cons, List.length_nil]
        omega
      · have hone : quotedRest .plain (c :: (written cs ++ '"' :: rest)) =
            (quotedRest .plain (written cs ++ '"' :: rest)).after 1 (prepend [c]) := by
          by_cases hmark : isTemplateMark c = true
          · exact quotedRest_loneMark hmark
              (fun tail htail => hopen ⟨hmark, head?_of_written htail⟩)
              (fun tail htail => written_ne_mark_brace hmark htail)
          · exact quotedRest_char (by simpa using hmark) hslash hquote hline _
        rw [hc, List.singleton_append, List.cons_append, hone, hread, found_after_prepend]
        congr 1
        simp only [List.length_cons]
        omega

/-- The literal of a string is read as a token of that string, in front of any rest. -/
theorem lexeme_stringLiteral (s rest : List Char) :
    lexeme '"' ((written s ++ ['"']) ++ rest) =
      .found (some (.str (String.ofList s) false)) (written s ++ ['"']).length := by
  have hblank : Text.isBlank '"' = false := by decide
  have hread := (quotedRest_written s rest).1
  simp only [List.append_assoc, List.singleton_append, lexeme, hblank, hread]
  simp [found, after, Except.map, strToken]

/-- A literal is its characters between quotes. -/
theorem toList_stringLiteral (s : String) :
    (stringLiteral s).toList = '"' :: (written s.toList ++ ['"']) :=
  String.toList_ofList

/-- The literal of a string is read as one token. -/
theorem tokens_stringLiteral (s : String) :
    tokens (stringLiteral s) =
      .ok ⟨[⟨.str s false, .first, Pos.first.after (stringLiteral s).toList⟩],
        Pos.first.after (stringLiteral s).toList⟩ := by
  have hstep := tokensFrom_token .first (lexeme_stringLiteral s.toList [])
  rw [List.append_nil, ← toList_stringLiteral, String.ofList_toList, tokensFrom] at hstep
  exact hstep

/-- The literal of a string is read as one token of that string, which is no template. -/
theorem readsAs_stringLiteral (s : String) (start : Pos) :
    ReadsAs start (stringLiteral s).toList
      [⟨.str s false, start, start.after (stringLiteral s).toList⟩] := by
  have hread : lexeme '"' ((written s.toList ++ ['"']) ++ ([] ++ [])) =
      .found (some (.str s false)) (written s.toList ++ ['"']).length := by
    rw [lexeme_stringLiteral, String.ofList_toList]
  have htoken := (ReadsAs.nil (start.after ('"' :: (written s.toList ++ ['"'])))).token hread
  rwa [List.append_nil, ← toList_stringLiteral] at htoken

/-- A text is read as one list of tokens at most. -/
theorem ReadsAs.unique {start : Pos} {text : List Char} {ts ts' : List Located}
    (h : ReadsAs start text ts) (h' : ReadsAs start text ts') : ts = ts' := by
  have hread := (h.read []).symm.trans (h'.read [])
  rw [tokensFrom_newline] at hread
  exact List.append_cancel_right (congrArg TokenStream.tokens (Except.ok.inj hread))

/-! ## The value of a literal -/

/-- A word that an attribute can have as its name. -/
def IsWord (name : String) : Prop :=
  ∃ c cs, (lexeme c cs).outcome = .ok (some (.word name))

/-- An expression that is one string without a template evaluates to the string. -/
theorem evaluate_of_str {e : Expr} {s : String}
    (h : e.tokens.map Located.token = [.str s false]) : Literal.evaluate e = .ok (.text s) := by
  have hsignificant : Literal.significant e = [.str s false] := by
    simp [Literal.significant, h]
  rw [evaluate_eq_evaluateTokens, hsignificant, evaluateTokens, Literal.readValue]

/-- A line with a name, a sign and the literal of a string is read as one attribute with the string
as its value. -/
theorem Body.parse_stringLiteral (file : String) {name : String} (hname : IsWord name)
    (s : String) :
    ∃ body a, Body.parse file (name ++ " = " ++ stringLiteral s ++ "\n") = .ok body ∧
      body.attributes.entries = [a] ∧ body.blocks = [] ∧ a.name = name ∧
      Literal.evaluate a.expr = .ok (.text s) := by
  obtain ⟨c, cs, hword⟩ := hname
  obtain ⟨t, sign, ending, stop, htokens, ht, hsign, hending⟩ :=
    tokens_line hword (readsAs_stringLiteral s _)
  rw [String.ofList_toList] at htokens
  have hexpr : IsExpr [⟨.str s false, Pos.first.after (name ++ " = ").toList,
      (Pos.first.after (name ++ " = ").toList).after (stringLiteral s).toList⟩] :=
    ⟨List.cons_ne_nil _ _, by simp [nested_cons_iff, nested_nil_iff, Token.turn]⟩
  obtain ⟨body, a, hparse, hentries, hblocks, hname, hexpr⟩ :=
    Body.parse_line file htokens ht hsign hexpr hending
  exact ⟨body, a, hparse, hentries, hblocks, hname, evaluate_of_str (by simp [hexpr])⟩

/-- Every string has a literal. The text with each backslash, quote, newline, carriage return and
tab of a string escaped and each `$` and `%` directly before a brace doubled, between quotes, is
read as one token, the string without template sequences. Written after any name and a sign it is
one attribute with the string as its value, and so it is for every attribute of every text, at any
depth, whose expression is written as that literal. -/
theorem stringLiteral_exact (s : String) :
    tokens (stringLiteral s) =
        .ok ⟨[⟨.str s false, .first, Pos.first.after (stringLiteral s).toList⟩],
          Pos.first.after (stringLiteral s).toList⟩ ∧
      (∀ file name, IsWord name →
        ∃ body a, Body.parse file (name ++ " = " ++ stringLiteral s ++ "\n") = .ok body ∧
          body.attributes.entries = [a] ∧ body.blocks = [] ∧ a.name = name ∧
          Literal.evaluate a.expr = .ok (.text s)) ∧
      ∀ file source body a, Body.parse file source = .ok body → body.Has a →
        a.expr.text = stringLiteral s → Literal.evaluate a.expr = .ok (.text s) := by
  refine ⟨tokens_stringLiteral s, fun file name hname => Body.parse_stringLiteral file hname s, ?_⟩
  intro file source body a hparse ha htext
  obtain ⟨front, text, back, hwritten⟩ := Body.written_of_parse hparse ha
  obtain rfl : text = (stringLiteral s).toList := by
    rw [← htext, hwritten.text_eq, String.toList_ofList]
  -- the tokens of the expression are read again from its text, which is the literal
  obtain ⟨first, more, hvalues, -, hreads⟩ := hwritten.again .first
  rw [hreads.unique (readsAs_stringLiteral s .first)] at hvalues
  exact evaluate_of_str hvalues.symm

/-- A string with a run of marks before a brace, a newline, a quote and a backslash. -/
def marksAndEscapes : String := "$$%\x7b\n\"\\"

/-- The literal of that string, on one line with the block that it stands in. -/
def literalInBlock : String := "x \x7b a-b = \"$$%%\x7b\\n\\\"\\\\\" \x7d"

/-- The attribute inside the block has the literal as its text. -/
theorem body_literalInBlock :
    (Body.parse "/s/a.tm" literalInBlock).toOption.map (fun body => body.blocks.map fun b =>
        b.attributes.entries.map fun a => a.expr.text) =
      some [[stringLiteral marksAndEscapes]] := by
  decide +kernel

/-- The literal is read back on its own, on a line for a name with a hyphen, and inside the
block. -/
theorem stringLiteral_exact_marksAndEscapes :
    stringLiteral marksAndEscapes = "\"$$%%\x7b\\n\\\"\\\\\"" ∧ IsWord "a-b" ∧
      (∃ body a, Body.parse "/s/a.tm" "a-b = \"$$%%\x7b\\n\\\"\\\\\"\n" = .ok body ∧
        body.attributes.entries = [a] ∧
        Literal.evaluate a.expr = .ok (.text "$$%\x7b\n\"\\")) ∧
      ∃ body b a, Body.parse "/s/a.tm" literalInBlock = .ok body ∧ body.blocks = [b] ∧
        b.attributes.entries = [a] ∧
        Literal.evaluate a.expr = .ok (.text "$$%\x7b\n\"\\") := by
  have hliteral : stringLiteral marksAndEscapes = "\"$$%%\x7b\\n\\\"\\\\\"" := by decide +kernel
  have hword : IsWord "a-b" := ⟨'a', ['-', 'b'], by decide +kernel⟩
  obtain ⟨-, hline, hinside⟩ := stringLiteral_exact marksAndEscapes
  refine ⟨hliteral, hword, ?_, ?_⟩
  · obtain ⟨body, a, hparse, hentries, -, -, hvalue⟩ := hline "/s/a.tm" "a-b" hword
    rw [hliteral] at hparse
    exact ⟨body, a, hparse, hentries, hvalue⟩
  · obtain ⟨body, hbody, hfields⟩ := Option.map_eq_some_iff.1 body_literalInBlock
    have hparse : Body.parse "/s/a.tm" literalInBlock = .ok body := by
      cases hread : Body.parse "/s/a.tm" literalInBlock with
      | error faults => simp [hread, Except.toOption] at hbody
      | ok found => simpa [hread, Except.toOption] using hbody
    obtain ⟨b, hblocks, hentries⟩ := List.map_eq_singleton_iff.1 hfields
    obtain ⟨a, hattributes, htext⟩ := List.map_eq_singleton_iff.1 hentries
    have hb : b ∈ body.blocks := hblocks ▸ List.mem_singleton_self b
    have ha : a ∈ b.attributes.entries := hattributes ▸ List.mem_singleton_self a
    have hvalue := hinside "/s/a.tm" literalInBlock body a hparse (.inner hb (.own ha)) htext
    exact ⟨body, b, a, hparse, hblocks, hattributes, hvalue⟩

end ScopeConfig.Syntax
