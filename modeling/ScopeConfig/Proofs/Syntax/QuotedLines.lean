import ScopeConfig.Proofs.Glob.Literal
import ScopeConfig.Proofs.Syntax.Relexing
import ScopeConfig.Proofs.Syntax.Tiling

/-!
# Quoted strings and lines

The reader of a quoted string refuses a newline in each of its modes, but takes the character after
a backslash without looking at it. So a newline gets into a literal in one way only, right after a
backslash, and a literal is on one line exactly when no backslash stands before a newline in it.

## Main statements

* `quotedRest_escapesLines`: what the reader takes has newlines right after backslashes only.
* `quoted_line_iff`: which literals are on one line, and which newlines the reader refuses.
-/

namespace ScopeConfig.Syntax

open Reading

/-! ## Newlines after backslashes -/

/-- Every newline of a text stands right after a backslash. -/
def EscapesLines (text : List Char) : Prop :=
  ∀ front back, text = front ++ '\n' :: back → front.getLast? = some '\\'

namespace EscapesLines

variable {text more : List Char}

/-- A text without newlines escapes them all. -/
theorem of_not_mem (h : '\n' ∉ text) : EscapesLines text := by
  rintro front back rfl
  simp at h

/-- A backslash and any character. -/
theorem escape (e : Char) : EscapesLines ['\\', e] := by
  intro front back h
  match front with
  | [] => simp at h
  | [d] => exact congrArg some (List.cons.inj h).1.symm
  | _ :: _ :: _ => simp at h

theorem append (h : EscapesLines text) (hmore : EscapesLines more) :
    EscapesLines (text ++ more) := by
  intro front back htext
  rcases List.append_eq_append_iff.1 htext with ⟨left, rfl, hback⟩ | ⟨left, rfl, hback⟩
  · rw [List.getLast?_append, hmore left back hback]
    rfl
  · cases left with
    | nil =>
      -- the newline is the first character of the second text, which nothing stands before
      simpa using hmore [] back (by simpa using hback.symm)
    | cons d left =>
      obtain ⟨rfl, -⟩ := List.cons.inj hback
      exact h front left rfl

/-- A newline is in the text exactly when a backslash directly before a newline is. -/
theorem mem_iff (h : EscapesLines text) : '\n' ∈ text ↔ ['\\', '\n'] <:+: text := by
  constructor
  · intro hline
    obtain ⟨front, back, rfl⟩ := List.append_of_mem hline
    obtain ⟨left, rfl⟩ := List.getLast?_eq_some_iff.1 (h front back rfl)
    exact ⟨left, back, by simp⟩
  · rintro ⟨left, right, rfl⟩
    simp

end EscapesLines

/-! ## What the reader takes -/

/-- When something is found, the newlines in what is taken of `cs` stand after backslashes. -/
def Reading.Escaping {α : Type} (r : Reading α) (cs : List Char) : Prop :=
  ∀ value, r.outcome = .ok value → EscapesLines (cs.take r.used)

theorem Reading.escaping_fault {α : Type} (f : Fault) (used : Nat) (cs : List Char) :
    (fault f used : Reading α).Escaping cs := by
  intro value h
  cases h

/-- What is found behind a text that escapes its newlines escapes its own with it. -/
theorem Reading.Escaping.after {α β : Type} {r : Reading α} {cs front : List Char}
    (h : r.Escaping cs) (hfront : EscapesLines front) (g : α → β) :
    (r.after front.length g).Escaping (front ++ cs) := by
  intro value hvalue
  obtain ⟨found, hfound, -⟩ := exists_of_after hvalue
  have htake : (front ++ cs).take (r.after front.length g).used = front ++ cs.take r.used :=
    List.take_length_add_append r.used
  rw [htake]
  exact hfront.append (h found hfound)

/-- The newlines in what a quoted string takes stand after backslashes, from wherever inside it the
rest is read: by induction along the reader, which looks at every character but the one after a
backslash. -/
theorem quotedRest_escapesLines (mode : Mode) (cs : List Char) :
    (quotedRest mode cs).Escaping cs := by
  fun_induction quotedRest mode cs
  case case2 => exact fun _ _ => .of_not_mem (by simp [found])
  case case5 e cs _ _ ih => exact ih.after (.escape e) _
  case case20 e cs ih => exact ih.after (.escape e) _
  all_goals first
    | exact escaping_fault _ _ _
    | exact Escaping.after (by assumption) (.of_not_mem (by grind) : EscapesLines [_]) _
    | exact Escaping.after (by assumption) (.of_not_mem (by grind) : EscapesLines [_, _]) _
    | exact Escaping.after (by assumption) (.of_not_mem (by grind) : EscapesLines [_, _, _]) _

/-- A newline that no backslash stands before ends the literal or what is read of it: the closing
quote comes before the newline, or the reader fails. -/
theorem quotedRest_newline (mode : Mode) {inner : List Char} (h : inner.getLast? ≠ some '\\')
    (rest : List Char) :
    (quotedRest mode (inner ++ '\n' :: rest)).Within inner.length ∨
      ∃ f, (quotedRest mode (inner ++ '\n' :: rest)).outcome = .error f := by
  cases houtcome : (quotedRest mode (inner ++ '\n' :: rest)).outcome with
  | error f => exact .inr ⟨f, rfl⟩
  | ok value =>
    refine .inl ⟨⟨value, houtcome⟩, Nat.le_of_not_lt fun hused => h ?_⟩
    obtain ⟨n, hn⟩ := Nat.exists_eq_add_of_lt hused
    have hescapes := quotedRest_escapesLines mode _ value houtcome
    rw [hn, Nat.add_assoc, List.take_length_add_append, List.take_succ_cons] at hescapes
    exact hescapes inner _ rfl

/-- The text that a quoted literal is read from ends with its closing quote, and the newlines in it
stand after backslashes. -/
theorem lexeme_quote {text rest : List Char} {token : Token}
    (h : lexeme '"' (text ++ rest) = .found (some token) text.length) :
    (∃ value template, token = .str value template) ∧ EscapesLines text := by
  have hquoted : lexeme '"' (text ++ rest) =
      (quotedRest .plain (text ++ rest)).after 0 fun value => some (strToken value) := rfl
  have hfound := hquoted.symm.trans h
  obtain ⟨value, hvalue, hstr⟩ := exists_of_after (congrArg outcome hfound)
  have hused : 0 + (quotedRest .plain (text ++ rest)).used = text.length := congrArg used hfound
  have hescapes := quotedRest_escapesLines .plain _ value hvalue
  rw [← Nat.zero_add (used _), hused, List.take_left] at hescapes
  exact ⟨⟨_, _, (Option.some.inj hstr).symm⟩, hescapes⟩

/-! ## Places in a text where a lexeme starts -/

/-- The reader of tokens comes to the text `cs` as the start of a lexeme, after the text `front`. -/
inductive LexemeAfter : List Char → List Char → Prop
  | first (cs : List Char) : LexemeAfter [] cs
  | later {c : Char} {used front cs : List Char} {found : Option Token}
    (hread : lexeme c (used ++ (front ++ cs)) = .found found used.length)
    (hfront : LexemeAfter front cs) : LexemeAfter (c :: (used ++ front)) cs

/-- When the reader comes to a lexeme that has a fault, there is no token stream but the fault. -/
theorem LexemeAfter.tokensFrom_error {front cs : List Char} {c : Char} {f : Fault}
    (h : LexemeAfter front (c :: cs)) (hfault : (lexeme c cs).outcome = .error f) (start : Pos) :
    ∃ stop, tokensFrom start (front ++ c :: cs) = .error ⟨f, start.after front, stop⟩ := by
  generalize hlexeme : c :: cs = text at h
  induction h generalizing start with
  | first =>
    subst hlexeme
    rw [List.nil_append, tokensFrom, hfault]
    exact ⟨_, rfl⟩
  | @later d used front text found hread _ ih =>
    subst hlexeme
    obtain ⟨stop, hrest⟩ := ih (start.after (d :: used)) rfl
    refine ⟨stop, ?_⟩
    have hafter : (start.after (d :: used)).after front = start.after (d :: (used ++ front)) := by
      rw [← Pos.after_append]
      rfl
    rw [List.cons_append, List.append_assoc, ← hafter]
    cases found with
    | none => rw [tokensFrom_skipped start hread, hrest]
    | some token =>
      rw [tokensFrom_token start hread, hrest]
      rfl

/-! ## Literals on one line -/

/-- Which quoted literals are on one line. In every text that lexes, a token whose text starts with
a quote is a string, every newline in its text stands right after a backslash, and there is none in
it exactly when no backslash stands directly before a newline. Then the token starts and ends on the
same line, and otherwise it does not, unless it has as many characters as the counter of lines has
values. In every text, a newline that no backslash stands before is refused where a quote starts a
lexeme and is not closed before the newline: the text has no tokens, and the fault is located from
the quote on. -/
theorem quoted_line_iff (source : String) :
    (∀ stream, tokens source = .ok stream → ∀ o : Origin, o.source = source.toList →
      ∀ t ∈ stream.tokens, ∀ text, o.slice t.start.byte t.stop.byte = String.ofList ('"' :: text) →
        (∃ value template, t.token = .str value template) ∧ EscapesLines text ∧
          ('\n' ∉ text ↔ ¬['\\', '\n'] <:+: text) ∧
          (¬['\\', '\n'] <:+: text → t.start.line = t.stop.line) ∧
          (text.length < UInt32.size →
            (t.start.line = t.stop.line ↔ ¬['\\', '\n'] <:+: text))) ∧
      ∀ front inner rest, source.toList = front ++ '"' :: (inner ++ '\n' :: rest) →
        LexemeAfter front ('"' :: (inner ++ '\n' :: rest)) → inner.getLast? ≠ some '\\' →
          (quotedRest .plain (inner ++ '\n' :: rest)).Within inner.length ∨
            ∃ f, tokens source = .error f ∧ f.start.IsAfter front := by
  constructor
  · intro stream h o ho t ht text htext
    obtain ⟨before, after, hsplit⟩ := List.append_of_mem ht
    obtain ⟨front, c, used, rest, hsource, hstart, hread, hstop, -⟩ :=
      (scans_of_tokensFrom h).exists_token hsplit
    have hstartAfter : t.start.IsAfter front := hstart ▸ Pos.isAfter_after front
    have hstopAfter : t.stop.IsAfter (front ++ c :: used) :=
      hstop ▸ hstartAfter.after (c :: used)
    -- the text between the places of the token is what its lexeme was read from
    have hsplitSource : o.source = front ++ c :: used ++ rest :=
      ho.trans (by simpa using hsource)
    have hslice := Origin.slice_eq hsplitSource hstartAfter hstopAfter
    obtain ⟨rfl, rfl⟩ : '"' = c ∧ text = used :=
      List.cons.inj (String.ofList_injective (htext.symm.trans hslice))
    obtain ⟨hstr, hescapes⟩ := lexeme_quote hread
    have hquote : '\n' ∉ '"' :: text ↔ ¬['\\', '\n'] <:+: text := by
      rw [← hescapes.mem_iff]
      simp
    refine ⟨hstr, hescapes, not_congr hescapes.mem_iff,
      fun hnone => hstartAfter.line_eq hstopAfter (hquote.2 hnone), fun hlength => ?_⟩
    -- with fewer newlines than the counter has values, it does not come back to its start
    have hcount : ('"' :: text).count '\n' < UInt32.size := by
      rw [List.count_cons_of_ne (by decide)]
      exact Nat.lt_of_le_of_lt List.count_le_length hlength
    exact (hstartAfter.line_eq_iff hstopAfter hcount).trans hquote
  · intro front inner rest hsource hlexeme hlast
    rcases quotedRest_newline .plain hlast rest with hwithin | ⟨f, hfault⟩
    · exact .inl hwithin
    · have hlexed : (lexeme '"' (inner ++ '\n' :: rest)).outcome = .error f := by
        have hquoted : lexeme '"' (inner ++ '\n' :: rest) = (quotedRest .plain
            (inner ++ '\n' :: rest)).after 0 fun value => some (strToken value) := rfl
        rw [hquoted, Reading.after, hfault]
        rfl
      obtain ⟨stop, herror⟩ := hlexeme.tokensFrom_error hlexed .first
      rw [tokens, hsource]
      exact .inr ⟨_, herror, Pos.isAfter_after front⟩

/-- A literal on one line, with a template sequence and a string in it, and one over two lines. -/
def escapedLine : String := "\"$\x7b\"b\"\x7d\" \"\\\n\""

/-- The text is read as a template on the first line and a string that ends on the second. -/
theorem tokens_escapedLine :
    (tokens escapedLine).toOption.map TokenStream.tokens =
      some [⟨.str "$\x7b\"b\"\x7d" true, ⟨1, 1, 0⟩, ⟨1, 9, 8⟩⟩,
        ⟨.str "\\\n" false, ⟨1, 10, 9⟩, ⟨2, 2, 13⟩⟩] := by
  decide +kernel

/-- The first literal is on one line, in the second one the newline stands after a backslash, and a
newline after a letter is refused. -/
theorem quoted_line_iff_escapedLine :
    (∃ stream first second, tokens escapedLine = .ok stream ∧ stream.tokens = [first, second] ∧
      first.start.line = first.stop.line ∧ EscapesLines ['\\', '\n', '"'] ∧
      second.start.line ≠ second.stop.line) ∧
      ∃ f, tokens "\n\"a\nb\"" = .error f ∧ f.start.IsAfter ['\n'] := by
  constructor
  · obtain ⟨stream, hstream, htokens⟩ := Option.map_eq_some_iff.1 tokens_escapedLine
    have hlexes : tokens escapedLine = .ok stream := Glob.toOption_eq_some_iff.1 hstream
    have hlines := (quoted_line_iff escapedLine).1 stream hlexes
      ⟨"", escapedLine.toList, .first⟩ rfl
    rw [htokens] at hlines
    obtain ⟨-, -, -, hone, -⟩ :=
      hlines _ (.head _) ['$', '\x7b', '"', 'b', '"', '\x7d', '"'] (by decide +kernel)
    obtain ⟨-, hescapes, -, -, htwo⟩ :=
      hlines _ (.tail _ (.head _)) ['\\', '\n', '"'] (by decide +kernel)
    exact ⟨stream, _, _, hlexes, htokens, hone (by decide), hescapes,
      fun h => (htwo (by decide)).1 h ⟨[], ['"'], rfl⟩⟩
  · have hline : lexeme '\n' "\"a\nb\"".toList = .found (some .newline) 0 := rfl
    have hrefused := (quoted_line_iff "\n\"a\nb\"").2 ['\n'] ['a'] ['b', '"'] (by decide)
      (@LexemeAfter.later _ [] _ _ _ hline (.first _)) (by decide)
    refine hrefused.resolve_left fun hwithin => ?_
    obtain ⟨⟨value, hvalue⟩, -⟩ := hwithin
    simp [quotedRest, isTemplateMark, fault, after, Except.map] at hvalue

/-- A quoted literal with a backslash before a newline lexes as one string that starts on line 1 and
stops on line 2. -/
theorem escaped_newline_two_lines :
    ∃ stream t, tokens "\"\\\n\"" = .ok stream ∧ stream.tokens = [t] ∧
      t.token = .str "\\\n" false ∧ t.start = ⟨1, 1, 0⟩ ∧ t.stop = ⟨2, 2, 4⟩ ∧
      t.start.line ≠ t.stop.line := by
  refine ⟨⟨[⟨.str "\\\n" false, ⟨1, 1, 0⟩, ⟨2, 2, 4⟩⟩], ⟨2, 2, 4⟩⟩, _, ?_, rfl, rfl, rfl, rfl,
    by decide⟩
  decide +kernel

end ScopeConfig.Syntax
