import ScopeConfig.Literal.Evaluation
import ScopeConfig.Proofs.Syntax.Attributes
import ScopeConfig.Proofs.Syntax.Exact
import ScopeConfig.Proofs.Syntax.Relexing
import ScopeConfig.Proofs.Syntax.Tiling

/-!
# The text of an expression stands for itself

An attribute can be written down anew from its name and the text of its expression: that text is a
stretch of the source, tokens with the same values are read from it on a line of its own, and they
make up one attribute with the same text and the same value.

## Main statements

* `evaluate_congr`: the value of an expression depends on its text and its tokens only.
* `Body.parse_again`: every attribute of a text is read again from its name and its expression.
-/

namespace ScopeConfig.Syntax

/-! ## Expressions with the same tokens -/

/-- Nesting depends on the values of the tokens only. -/
theorem Nested.congr {depth : Int} {ts ts' : List Located} (h : Nested depth ts)
    (hvalues : ts'.map Located.token = ts.map Located.token) : Nested depth ts' := by
  induction ts generalizing depth ts' with
  | nil =>
    obtain rfl := List.map_eq_nil_iff.1 hvalues
    exact h
  | cons t ts ih =>
    obtain ⟨t', ts', rfl, ht, hts⟩ := List.map_eq_cons_iff.1 hvalues
    rw [nested_cons_iff] at h ⊢
    rw [ht]
    exact ⟨h.1, h.2.1, ih h.2.2 hts⟩

/-- Whether tokens make up an expression depends on their values only. -/
theorem IsExpr.congr {ts ts' : List Located} (h : IsExpr ts)
    (hvalues : ts'.map Located.token = ts.map Located.token) : IsExpr ts' := by
  refine ⟨?_, h.2.congr hvalues⟩
  rintro rfl
  exact h.1 (List.map_eq_nil_iff.1 hvalues.symm)

/-- The value of the tokens that count, in an expression with this text. -/
def evaluateTokens (ts : List Token) (text : String) : Except Literal.Fault Literal.Value :=
  match Literal.readValue ts with
  | .ok (value, ⟨[], _⟩) => .ok value
  | .ok _ => .error (.notStatic text)
  | .error none => .error (.notStatic text)
  | .error (some key) => .error (.duplicateKey key)

/-- An expression evaluates as its significant tokens do, with its text for the fault. -/
theorem evaluate_eq_evaluateTokens (e : Expr) :
    Literal.evaluate e = evaluateTokens (Literal.significant e) e.text := by
  unfold Literal.evaluate evaluateTokens
  generalize Literal.readValue (Literal.significant e) = r
  rcases r with (_ | key) | ⟨value, ⟨_ | ⟨t, ts⟩, h⟩⟩
  all_goals rfl

/-- The value of an expression depends on its text and on the values of its tokens only. -/
theorem evaluate_congr {e e' : Expr} (htext : e'.text = e.text)
    (hvalues : e'.tokens.map Located.token = e.tokens.map Located.token) :
    Literal.evaluate e' = Literal.evaluate e := by
  have hsignificant : Literal.significant e' = Literal.significant e := by
    simp only [Literal.significant, hvalues]
  rw [evaluate_eq_evaluateTokens, evaluate_eq_evaluateTokens, hsignificant, htext]

/-! ## The text of an expression -/

/-- An expression ends where its last token does. -/
theorem stop_expr (o : Origin) (first : Located) (more : List Located) :
    (o.expr first more).range.stop = stopOf first.stop more := by
  show (more.getLast?.getD first).stop = stopOf first.stop more
  induction more generalizing first with
  | nil => rfl
  | cons t more ih =>
    rw [List.getLast?_cons]
    exact ih t

/-- The text of an expression is what stands between its first and its last token. -/
theorem Origin.text_expr {o : Origin} {first : Located} {more : List Located}
    {before text after : List Char} (hsource : o.source = before ++ text ++ after)
    (hstart : first.start = Pos.first.after before)
    (hstop : stopOf first.stop more = Pos.first.after (before ++ text)) :
    (o.expr first more).text = String.ofList text := by
  show o.slice first.start.byte (o.expr first more).range.stop.byte = _
  rw [stop_expr, hstart, hstop]
  exact Origin.slice_eq hsource (Pos.isAfter_after before) (Pos.isAfter_after _)

/-! ## A line with one attribute -/

/-- A blank in front is passed over. -/
theorem tokensFrom_blank (start : Pos) (rest : List Char) :
    tokensFrom start (' ' :: rest) = tokensFrom (start.next ' ') rest := by
  have hread : lexeme ' ' ([] ++ rest) = .found none 0 := by
    simp [lexeme, show Text.isBlank ' ' = true by decide]
  exact tokensFrom_skipped start hread

/-- A sign and a blank in front are read as the sign. -/
theorem tokensFrom_sign (start : Pos) (rest : List Char) :
    tokensFrom start ('=' :: ' ' :: rest) = (tokensFrom (start.next '=') (' ' :: rest)).map
      (·.push ⟨.symbol .assign, start, start.next '='⟩) := by
  have hread : lexeme '=' ([] ++ ' ' :: rest) = .found (some (.symbol .assign)) 0 := by
    have hword : startsWord '=' = false := by decide +kernel
    simp [lexeme, symbol?, hword, show Text.isBlank '=' = false by decide]
  exact tokensFrom_token start hread

/-- A newline on its own is read as a newline. -/
theorem tokensFrom_newline (start : Pos) :
    tokensFrom start ['\n'] =
      .ok ⟨[⟨.newline, start, start.next '\n'⟩], start.next '\n'⟩ := by
  have hread : lexeme '\n' ([] ++ []) = .found (some .newline) 0 := rfl
  have hstep := tokensFrom_token start hread
  rw [List.nil_append, tokensFrom] at hstep
  exact hstep

/-- A name, a sign and a text that is read as tokens make up a line with these tokens. -/
theorem tokens_line {name : String} {c : Char} {cs text : List Char} {ts : List Located}
    (hname : (lexeme c cs).outcome = .ok (some (.word name)))
    (hts : ReadsAs (Pos.first.after (name ++ " = ").toList) text ts) :
    ∃ t sign ending stop,
      tokens (name ++ " = " ++ String.ofList text ++ "\n") =
        .ok ⟨t :: sign :: (ts ++ [ending]), stop⟩ ∧
      t.token = .word name ∧ sign.token = .symbol .assign ∧ ending.token = .newline := by
  have hblank : continuesWord ' ' = false := by decide +kernel
  obtain ⟨rfl, -⟩ := word_cut hname hblank []
  have hread := fun rest => (word_cut hname hblank rest).2
  generalize cs.takeWhile continuesWord = more at hts hread ⊢
  have hsource : (String.ofList (c :: more) ++ " = " ++ String.ofList text ++ "\n").toList =
      c :: (more ++ ' ' :: '=' :: ' ' :: (text ++ ['\n'])) := by
    simp
  have hplace : Pos.first.after (String.ofList (c :: more) ++ " = ").toList =
      (((Pos.first.after (c :: more)).next ' ').next '=').next ' ' := by
    simp [Pos.after_append]
  rw [hplace] at hts
  unfold tokens
  rw [hsource, tokensFrom_token _ (hread _), tokensFrom_blank, tokensFrom_sign, tokensFrom_blank,
    hts.read, tokensFrom_newline]
  exact ⟨_, _, _, _, rfl, rfl, rfl, rfl⟩

/-! ## One attribute -/

/-- A line with a name, a sign and an expression is read as one attribute. -/
theorem Body.parse_line (file : String) {source name : String} {t sign ending : Located}
    {e : List Located} {stop : Pos}
    (htokens : tokens source = .ok ⟨t :: sign :: (e ++ [ending]), stop⟩)
    (ht : t.token = .word name) (hsign : sign.token = .symbol .assign) (he : IsExpr e)
    (hending : ending.token = .newline) :
    ∃ body a, Body.parse file source = .ok body ∧ body.attributes.entries = [a] ∧
      body.blocks = [] ∧ a.name = name ∧ a.expr.tokens = e := by
  have hend : Ends [ending] [] := .newline hending
  have hclose : Closes false [] := ⟨trivial, fun _ => rfl⟩
  obtain ⟨a, hentry, hrest, hitem⟩ :=
    attributeEntry_of_isExpr ⟨file, source.toList, stop⟩ t name he hend
  have hread := (entries_attr ⟨file, source.toList, stop⟩ false (e ++ [ending]) ht hsign).1
  rw [hentry, hrest, (entries_of_closes _ hclose).1] at hread
  obtain ⟨hname, hexpr⟩ := Item.attr.inj hitem
  have hnew : a.name ∉ AttributeTable.empty.names := List.not_mem_nil
  refine ⟨(collect .empty [.attribute a]).1, a, (Body.parse_eq_ok_iff htokens).2 ?_,
    AttributeTable.entries_add_of_not_mem hnew, rfl, hname, hexpr⟩
  dsimp only
  rw [hread]
  exact ⟨rfl, rfl⟩

/-- What stands as an expression is the expression of its tokens. -/
theorem Stands.expr_eq {o : Origin} {ts more : List Located} {a : Attribute} {first : Located}
    (h : Stands o ts a) (he : a.expr.tokens = first :: more) : a.expr = o.expr first more := by
  obtain ⟨_, _, _, _, _, _, -, -, -, hexpr⟩ := h
  rw [hexpr] at he
  obtain ⟨rfl, rfl⟩ := List.cons.inj he
  exact hexpr

/-- An attribute of a text: its name is a word there, and its expression stands on a stretch of the
text, between the places of its range, which holds the tokens of the expression. -/
structure Written (source : String) (a : Attribute) (front text back : List Char) : Prop where
  name : ∃ c cs, (lexeme c cs).outcome = .ok (some (.word a.name))
  isExpr : IsExpr a.expr.tokens
  source_eq : source.toList = front ++ text ++ back
  ne_nil : text ≠ []
  start : a.expr.range.start = Pos.first.after front
  stop : a.expr.range.stop = Pos.first.after (front ++ text)
  text_eq : a.expr.text = String.ofList text
  again : ∀ start, ∃ first more,
    (first :: more).map Located.token = a.expr.tokens.map Located.token ∧
      first.start = start ∧ ReadsAs start text (first :: more)

/-- Every attribute of a text that can be read is written somewhere in it. -/
theorem Body.written_of_parse {file source : String} {body : Body} {a : Attribute}
    (h : Body.parse file source = .ok body) (ha : body.Has a) :
    ∃ front text back, Written source a front text back := by
  obtain ⟨stream, hstream, before, t, sign, first, more, after, htokens, hname, hexpr, he⟩ :=
    Body.stands_of_parse h ha
  have hscans := scans_of_tokensFrom hstream
  -- the name is a token of the text, and the tokens of the expression stand on a stretch of it
  obtain ⟨_, c, used, rest, -, -, hword, -, -⟩ := hscans.exists_token htokens
  have hsplit : stream.tokens = (before ++ [t, sign]) ++ first :: (more ++ after) := by
    simp [htokens]
  obtain ⟨front, text, back, hsource, hne, hstart, hstop, hagain⟩ := hscans.exists_text hsplit
  refine ⟨front, text, back, ⟨c, used ++ rest, ?_⟩, ?_, hsource, hne, ?_, ?_, ?_, fun start => ?_⟩
  · rw [hword, hname]
    rfl
  · rw [he]
    exact hexpr
  · rw [he]
    exact hstart
  · rw [he, stop_expr]
    exact hstop
  · rw [he]
    exact Origin.text_expr hsource hstart hstop
  · obtain ⟨first', more', hfirst, hmore, hstart', hreads⟩ := hagain start
    refine ⟨first', more', ?_, hstart', hreads⟩
    rw [he]
    exact List.cons_eq_cons.2 ⟨hfirst, hmore⟩

/-- The text of an expression stands for itself. For every attribute of a text that can be read, in
a block at any depth or in none, the text of its expression is not empty and is the stretch of the
source between the places of its range. Written after the name of the attribute and a sign, on a
line of its own and in whatever file, it is read as one attribute, with the same name, the same text
and tokens with the same values, and the evaluation of the two expressions gives the same value or
the same fault. -/
theorem Body.parse_again {file source : String} {body : Body} {a : Attribute}
    (h : Body.parse file source = .ok body) (ha : body.Has a) (file' : String) :
    a.expr.text ≠ "" ∧
      (∃ before after : String, source = before ++ a.expr.text ++ after ∧
        a.expr.range.start.byte = before.utf8ByteSize ∧
        a.expr.range.stop.byte = (before ++ a.expr.text).utf8ByteSize) ∧
      ∃ body' a', Body.parse file' (a.name ++ " = " ++ a.expr.text ++ "\n") = .ok body' ∧
        body'.attributes.entries = [a'] ∧ body'.blocks = [] ∧ a'.name = a.name ∧
        a'.expr.text = a.expr.text ∧
        a'.expr.tokens.map Located.token = a.expr.tokens.map Located.token ∧
        Literal.evaluate a'.expr = Literal.evaluate a.expr := by
  obtain ⟨front, text, back, hwritten⟩ := Body.written_of_parse h ha
  have htext := hwritten.text_eq
  refine ⟨?_, ⟨String.ofList front, String.ofList back, ?_, ?_, ?_⟩, ?_⟩
  · rw [htext]
    simpa using hwritten.ne_nil
  · rw [htext, ← String.ofList_append, ← String.ofList_append, ← hwritten.source_eq,
      String.ofList_toList]
  · rw [hwritten.start, (Pos.isAfter_after front).byte]
  · rw [hwritten.stop, (Pos.isAfter_after _).byte, htext, String.ofList_append]
  -- the line is read as the name, the sign and the tokens that the text holds
  obtain ⟨c, cs, hname⟩ := hwritten.name
  obtain ⟨first, more, hvalues, hstart, hreads⟩ :=
    hwritten.again (Pos.first.after (a.name ++ " = ").toList)
  obtain ⟨t, sign, ending, stop, htokens, ht, hsign, hending⟩ := tokens_line hname hreads
  rw [← htext] at htokens
  obtain ⟨body', a', hparse, hentries, hblocks, hname', hexpr⟩ :=
    Body.parse_line file' htokens ht hsign (hwritten.isExpr.congr hvalues) hending
  have hvalues' : a'.expr.tokens.map Located.token = a.expr.tokens.map Located.token := by
    rw [hexpr, hvalues]
  have htext' : a'.expr.text = a.expr.text := by
    have hown : body'.Has a' := .own (hentries ▸ List.mem_singleton_self a')
    obtain ⟨stream, -, hstands⟩ := Body.stands_of_parse hparse hown
    have hline : (a.name ++ " = " ++ a.expr.text ++ "\n").toList =
        (a.name ++ " = ").toList ++ text ++ ['\n'] := by
      simp [htext]
    have hlast : stopOf first.stop more =
        Pos.first.after ((a.name ++ " = ").toList ++ text) := by
      rw [Pos.after_append]
      exact hreads.stop
    rw [hstands.expr_eq hexpr, Origin.text_expr hline hstart hlast, htext]
  exact ⟨body', a', hparse, hentries, hblocks, hname', htext', hvalues',
    evaluate_congr htext' hvalues'⟩

/-- A list two blocks deep, with a line break, a comment that holds a bracket, and a heredoc. -/
def innerList : String :=
  "x y \x7bz \x7ba=[1,\n/*]*/<<E\nv\nE\n]\x7d\x7d"

/-- The list inside the two blocks is read with the text that it has in the source. -/
theorem Body.parse_innerList :
    (Body.parse "/s/a.tm" innerList).toOption.map (fun body => body.blocks.map fun b =>
        b.blocks.map fun b => b.attributes.entries.map fun a => (a.name, a.expr.text)) =
      some [[[("a", "[1,\n/*]*/<<E\nv\nE\n]")]]] := by
  decide +kernel

/-- The list is read again from its own text, on a line outside of all blocks. -/
theorem Body.parse_again_innerList :
    ∃ body a body' a', Body.parse "/s/a.tm" innerList = .ok body ∧ body.Has a ∧
      Body.parse "/s/b.tm" "a = [1,\n/*]*/<<E\nv\nE\n]\n" = .ok body' ∧
      body'.attributes.entries = [a'] ∧ body'.blocks = [] ∧ a'.expr.text = a.expr.text ∧
      Literal.evaluate a'.expr = Literal.evaluate a.expr := by
  obtain ⟨body, hbody, hfields⟩ := Option.map_eq_some_iff.1 Body.parse_innerList
  have hparse : Body.parse "/s/a.tm" innerList = .ok body := by
    cases hread : Body.parse "/s/a.tm" innerList with
    | error faults => simp [hread, Except.toOption] at hbody
    | ok found => simpa [hread, Except.toOption] using hbody
  obtain ⟨b, hblocks, hinner⟩ := List.map_eq_singleton_iff.1 hfields
  obtain ⟨c, hinnerBlocks, hentries⟩ := List.map_eq_singleton_iff.1 hinner
  obtain ⟨a, hattributes, hfound⟩ := List.map_eq_singleton_iff.1 hentries
  obtain ⟨hname, htext⟩ := Prod.mk.inj hfound
  have ha : a ∈ c.attributes.entries := hattributes ▸ List.mem_singleton_self a
  have hc : c ∈ b.blocks := hinnerBlocks ▸ List.mem_singleton_self c
  have hb : b ∈ body.blocks := hblocks ▸ List.mem_singleton_self b
  have hhas : body.Has a := .inner hb (.inner hc (.own ha))
  obtain ⟨-, -, body', a', hagain, hentries', hnone, -, htext', -, hvalue⟩ :=
    Body.parse_again hparse hhas "/s/b.tm"
  rw [hname, htext] at hagain
  exact ⟨body, a, body', a', hparse, hhas, hagain, hentries', hnone, htext', hvalue⟩

end ScopeConfig.Syntax
