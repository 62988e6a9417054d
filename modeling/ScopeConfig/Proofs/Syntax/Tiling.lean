import ScopeConfig.Proofs.Source.Position
import ScopeConfig.Proofs.Syntax.Lexemes
import ScopeConfig.Syntax.Capture

/-!
# Tokens tile their text

A text whose tokens can be read is cut into stretches, one after the other and with nothing left
out: the texts of the tokens, and between them text that is skipped. The places of a token are those
of the ends of its stretch, counted afresh from the beginning of the text.

## Main statements

* `cuts_of_tokensFrom`: the tokens of a text cut it into stretches, wherever it starts.
* `Origin.slice_eq`: the text between the places of a stretch is the stretch.
* `tokens_tile`: the stretches of a whole text, and what follows for places and newlines.
-/

namespace ScopeConfig.Syntax

/-! ## Stretches -/

/-- A stretch of a text: text that is skipped, or a token with the text that it was read from. -/
inductive Stretch where
  | skipped (text : List Char)
  | token (t : Located) (text : List Char)

namespace Stretch

/-- The text of a stretch. -/
def text : Stretch → List Char
  | skipped text => text
  | token _ text => text

/-- The token of a stretch. -/
def token? : Stretch → Option Located
  | skipped _ => none
  | token t _ => some t

/-- A stretch is what it says, between the text before it and the text after it. -/
inductive Fits (before after : List Char) : Stretch → Prop
  | skipped {text : List Char} (h : Skipped text after) : Fits before after (.skipped text)
  | token {t : Located} {text : List Char} (htext : Spells t.token text)
    (hstart : t.start.IsAfter before) (hstop : t.stop.IsAfter (before ++ text)) :
    Fits before after (.token t text)

end Stretch

/-- Stretches fit, one after the other, behind the text `before`. -/
inductive Tiles : List Char → List Stretch → Prop
  | nil (before : List Char) : Tiles before []
  | cons {before : List Char} {s : Stretch} {rest : List Stretch}
    (hs : s.Fits before (rest.flatMap Stretch.text)) (hrest : Tiles (before ++ s.text) rest) :
    Tiles before (s :: rest)

/-- A token stream cuts the text `cs` behind the text `before` into stretches: they fit, they make
up the text, their tokens are those of the stream, and the stream stops at the end of the text. -/
structure Cuts (stream : TokenStream) (before cs : List Char) (stretches : List Stretch) :
    Prop where
  tiles : Tiles before stretches
  text_eq : stretches.flatMap Stretch.text = cs
  tokens_eq : stream.tokens = stretches.filterMap Stretch.token?
  stop : stream.stop.IsAfter (before ++ cs)

namespace Cuts

variable {stream : TokenStream} {before cs rest : List Char} {stretches : List Stretch}

theorem nil {stop : Pos} (h : stop.IsAfter before) : Cuts ⟨[], stop⟩ before [] [] :=
  ⟨.nil before, rfl, rfl, by simpa using h⟩

/-- One more stretch in front. -/
theorem cons {s : Stretch} (h : Cuts stream (before ++ s.text) rest stretches)
    (hs : s.Fits before rest) :
    Cuts ⟨s.token?.toList ++ stream.tokens, stream.stop⟩ before (s.text ++ rest)
      (s :: stretches) where
  tiles := .cons (h.text_eq ▸ hs) h.tiles
  text_eq := by rw [List.flatMap_cons, h.text_eq]
  tokens_eq := by cases s <;> simp [Stretch.token?, List.filterMap_cons, h.tokens_eq]
  stop := by simpa using h.stop

end Cuts

/-- The tokens that are read from a text cut it into stretches: by induction along the reader, which
goes on behind each lexeme. -/
theorem cuts_of_tokensFrom {start : Pos} {before cs : List Char} {stream : TokenStream}
    (hstart : start.IsAfter before) (h : tokensFrom start cs = .ok stream) :
    ∃ stretches, Cuts stream before cs stretches := by
  fun_induction tokensFrom start cs generalizing before stream with
  | case1 start =>
    cases h
    exact ⟨[], .nil hstart⟩
  | case2 => cases h
  | case3 start c cs reading stop =>
    rename_i hread ih
    have hstop : stop.IsAfter (before ++ c :: cs.take reading.used) :=
      hstart.after (c :: cs.take reading.used)
    obtain ⟨stretches, hcuts⟩ := ih hstop h
    -- the stretch that was just read goes in front of those that come after it
    have hwhole := hcuts.cons (s := .skipped _) (.skipped (skipped_of_lexeme hread))
    rw [Stretch.text, List.cons_append, List.take_append_drop] at hwhole
    exact ⟨_, hwhole⟩
  | case4 start c cs reading stop token =>
    rename_i hread ih
    have hstop : stop.IsAfter (before ++ c :: cs.take reading.used) :=
      hstart.after (c :: cs.take reading.used)
    obtain ⟨more, hmore, rfl⟩ : ∃ more, tokensFrom stop (cs.drop reading.used) = .ok more ∧
        more.push ⟨token, start, stop⟩ = stream := by
      cases hmore : tokensFrom stop (cs.drop reading.used) with
      | error f => simp [hmore, Except.map] at h
      | ok more => exact ⟨more, rfl, by simpa [hmore, Except.map] using h⟩
    obtain ⟨stretches, hcuts⟩ := ih hstop hmore
    have hwhole := hcuts.cons (s := .token ⟨token, start, stop⟩ _)
      (.token (spells_of_lexeme hread) hstart hstop)
    rw [Stretch.text, List.cons_append, List.take_append_drop] at hwhole
    exact ⟨_, hwhole⟩

/-! ## Text between places -/

/-- The bytes of a text, the first character and then the rest. -/
theorem utf8ByteSize_ofList_cons (c : Char) (cs : List Char) :
    (String.ofList (c :: cs)).utf8ByteSize = c.utf8Size + (String.ofList cs).utf8ByteSize := by
  rw [← List.singleton_append, String.ofList_append, String.utf8ByteSize_append]
  simp

/-- Dropping the bytes of a text leaves what comes after it. -/
theorem dropBytes_append (before rest : List Char) :
    dropBytes (String.ofList before).utf8ByteSize (before ++ rest) = rest := by
  induction before with
  | nil => cases rest <;> simp [dropBytes]
  | cons c cs ih =>
    have hpos := c.utf8Size_pos
    rw [utf8ByteSize_ofList_cons, List.cons_append, dropBytes, if_neg (by omega),
      Nat.add_sub_cancel_left, ih]

/-- Taking the bytes of a text gives the text. -/
theorem takeBytes_append (text rest : List Char) :
    takeBytes (String.ofList text).utf8ByteSize (text ++ rest) = text := by
  induction text with
  | nil => cases rest <;> simp [takeBytes]
  | cons c cs ih =>
    have hpos := c.utf8Size_pos
    rw [utf8ByteSize_ofList_cons, List.cons_append, takeBytes, if_neg (by omega),
      Nat.add_sub_cancel_left, ih]

/-- The text between the places of a stretch is the stretch. -/
theorem Origin.slice_eq {o : Origin} {before text after : List Char} {start stop : Pos}
    (hsource : o.source = before ++ text ++ after) (hstart : start.IsAfter before)
    (hstop : stop.IsAfter (before ++ text)) :
    o.slice start.byte stop.byte = String.ofList text := by
  rw [Origin.slice, hstart.byte_add hstop, Nat.add_sub_cancel_left, hsource, List.append_assoc,
    hstart.byte, dropBytes_append, takeBytes_append]

/-! ## What tiles a text -/

/-- Skipped text goes over a line only in a block comment. -/
theorem Skipped.blockComment_of_newline {text after : List Char} (h : Skipped text after)
    (hline : '\n' ∈ text) : ∃ inner, text = '/' :: '*' :: (inner ++ ['*', '/']) := by
  cases h with
  | blank _ _ hc => exact (hc (List.mem_singleton.1 hline).symm).elim
  | lineComment _ hnone _ => exact (hnone hline).elim
  | blockComment _ _ => exact ⟨_, rfl⟩

namespace Tiles

variable {before : List Char} {stretches : List Stretch}

/-- Each of the stretches fits between the texts before and after it. -/
theorem fits (h : Tiles before stretches) {left right : List Stretch} {s : Stretch}
    (hsplit : stretches = left ++ s :: right) :
    s.Fits (before ++ left.flatMap Stretch.text) (right.flatMap Stretch.text) := by
  induction left generalizing before stretches with
  | nil =>
    subst hsplit
    cases h with
    | cons hs _ => simpa using hs
  | cons first left ih =>
    subst hsplit
    cases h with
    | cons _ hrest => simpa using ih hrest rfl

/-- Every token stands on a stretch of the text that spells it. -/
theorem exists_text (h : Tiles before stretches) {t : Located}
    (ht : t ∈ stretches.filterMap Stretch.token?) :
    ∃ front text back, stretches.flatMap Stretch.text = front ++ text ++ back ∧
      Spells t.token text ∧ t.start.IsAfter (before ++ front) ∧
      t.stop.IsAfter (before ++ front ++ text) := by
  obtain ⟨s, hs, htoken⟩ := List.mem_filterMap.1 ht
  obtain ⟨left, right, hsplit⟩ := List.append_of_mem hs
  have hfits := h.fits hsplit
  cases hfits with
  | skipped => cases htoken
  | token hspells hstart hstop =>
    cases htoken
    refine ⟨_, _, right.flatMap Stretch.text, ?_, hspells, hstart, hstop⟩
    simp [hsplit, Stretch.text]

/-- The tokens stand one after the other. -/
theorem pairwise (h : Tiles before stretches) :
    (stretches.filterMap Stretch.token?).Pairwise fun t u => t.stop.byte ≤ u.start.byte := by
  induction h with
  | nil => exact .nil
  | cons hs hrest ih =>
    cases hs with
    | skipped => exact ih
    | token _ _ hstop =>
      refine List.pairwise_cons.2 ⟨fun u hu => ?_, ih⟩
      obtain ⟨front, _, _, _, _, hstart, _⟩ := hrest.exists_text hu
      rw [hstop.byte_add hstart]
      exact Nat.le_add_right _ _

/-- A newline is a token of its own, or stands in a string or in a block comment. -/
theorem newline_cases (h : Tiles before stretches) {s : Stretch} (hs : s ∈ stretches)
    (hline : '\n' ∈ s.text) :
    (∃ t, s = .token t ['\n'] ∧ t.token = .newline) ∨
      (∃ t text value template, s = .token t text ∧ t.token = .str value template) ∨
      ∃ inner, s = .skipped ('/' :: '*' :: (inner ++ ['*', '/'])) := by
  induction h with
  | nil => cases hs
  | cons hfits _ ih =>
    rcases List.mem_cons.1 hs with rfl | hs
    · cases hfits with
      | skipped hskipped =>
        obtain ⟨inner, rfl⟩ := hskipped.blockComment_of_newline hline
        exact .inr (.inr ⟨inner, rfl⟩)
      | token hspells _ _ =>
        rcases hspells.newline_or_str hline with ⟨htoken, rfl⟩ | ⟨value, template, htoken⟩
        · exact .inl ⟨_, rfl, htoken⟩
        · exact .inr (.inl ⟨_, _, value, template, rfl, htoken⟩)
    · exact ih hs

end Tiles

/-- A word or a number is spelled as itself. -/
theorem Spells.word_or_number {t : Token} {text : List Char} (h : Spells t text) {word : String}
    (hword : t = .word word ∨ t = .number word) : String.ofList text = word := by
  cases h <;> simp_all

/-- The tokens of a text tile it. They cut it into stretches, which are the texts of the tokens and
text that is skipped. Every token stands on a text that spells it, at places with the line, the
column and the byte counted afresh, in full when the text has fewer characters than the counters
have values, and the slice between these places is the word or the number when the token is one. The
tokens are in order, none of them is empty, and the stream stops at the end of the text. A newline
is a token of its own unless it stands in a string or in a block comment. -/
theorem tokens_tile {source : String} {stream : TokenStream} (h : tokens source = .ok stream) :
    ∃ stretches, Cuts stream [] source.toList stretches ∧
      (∀ t ∈ stream.tokens, ∃ front text back, source.toList = front ++ text ++ back ∧
        Spells t.token text ∧ t.start.IsAfter front ∧ t.stop.IsAfter (front ++ text) ∧
        (source.length + 1 < UInt32.size →
          t.start.Exactly front ∧ t.stop.Exactly (front ++ text))) ∧
      (∀ o : Origin, o.source = source.toList → ∀ t ∈ stream.tokens, ∀ word,
        t.token = .word word ∨ t.token = .number word →
          o.slice t.start.byte t.stop.byte = word) ∧
      stream.tokens.Pairwise (fun t u => t.stop.byte ≤ u.start.byte) ∧
      (∀ t ∈ stream.tokens, t.start.byte < t.stop.byte ∧ t.stop.byte ≤ stream.stop.byte) ∧
      stream.stop.IsAfter source.toList ∧
      (source.length + 1 < UInt32.size → stream.stop.Exactly source.toList) ∧
      ∀ s ∈ stretches, '\n' ∈ s.text →
        (∃ t, s = .token t ['\n'] ∧ t.token = .newline) ∨
          (∃ t text value template, s = .token t text ∧ t.token = .str value template) ∨
          ∃ inner, s = .skipped ('/' :: '*' :: (inner ++ ['*', '/'])) := by
  obtain ⟨stretches, hcuts⟩ := cuts_of_tokensFrom Pos.isAfter_first h
  have hstands : ∀ t ∈ stream.tokens, ∃ front text back, source.toList = front ++ text ++ back ∧
      Spells t.token text ∧ t.start.IsAfter front ∧ t.stop.IsAfter (front ++ text) := by
    intro t ht
    rw [hcuts.tokens_eq] at ht
    rw [← hcuts.text_eq]
    exact hcuts.tiles.exists_text ht
  refine ⟨stretches, hcuts, ?_, ?_, ?_, ?_, hcuts.stop, fun hlength => hcuts.stop.exact hlength,
    fun s => hcuts.tiles.newline_cases⟩
  · intro t ht
    obtain ⟨front, text, back, hsource, hspells, hstart, hstop⟩ := hstands t ht
    refine ⟨front, text, back, hsource, hspells, hstart, hstop, fun hlength => ?_⟩
    -- no counter starts over before the end of the text, so none does before a token
    have hsplit : (front ++ text).length + back.length = source.length := by
      rw [← List.length_append, ← hsource, String.length_toList]
    rw [List.length_append] at hsplit
    exact ⟨hstart.exact (by omega), hstop.exact (by rw [List.length_append]; omega)⟩
  · intro o ho t ht word hword
    obtain ⟨front, text, back, hsource, hspells, hstart, hstop⟩ := hstands t ht
    rw [Origin.slice_eq (ho.trans hsource) hstart hstop, hspells.word_or_number hword]
  · rw [hcuts.tokens_eq]
    exact hcuts.tiles.pairwise
  · intro t ht
    obtain ⟨front, text, back, hsource, hspells, hstart, hstop⟩ := hstands t ht
    have hend : stream.stop.IsAfter (front ++ text ++ back) := hsource ▸ hcuts.stop
    have hpos : 0 < (String.ofList text).utf8ByteSize := by
      obtain ⟨c, cs, rfl⟩ := List.exists_cons_of_ne_nil hspells.ne_nil
      rw [utf8ByteSize_ofList_cons]
      exact Nat.add_pos_left c.utf8Size_pos _
    rw [hstop.byte_add hend, hstart.byte_add hstop]
    omega

/-- A letter of two bytes, both kinds of comments, a string nested in a template, and a heredoc. -/
def mixedText : String :=
  "é=1.5 # c\nx /*\n*/ \"$\x7b\"b\"\x7d\"\n<<E\n\"\nE"

/-- The places of the tokens of the text: characters of several bytes, a comment and a heredoc move
line, column and byte apart. -/
theorem tokens_mixedText :
    (tokens mixedText).toOption.map (fun stream =>
        (stream.tokens.map fun t => (t.start.line, t.start.column, t.start.byte), stream.stop)) =
      some ([(1, 1, 0), (1, 2, 2), (1, 3, 3), (1, 10, 10), (2, 1, 11), (3, 4, 19), (3, 12, 27),
        (4, 1, 28)], ⟨6, 2, 35⟩) := by
  decide +kernel

/-- The tokens of the text are where the stretches of the text are, up to its end. -/
theorem tokens_tile_mixedText :
    ∃ stream stretches, tokens mixedText = .ok stream ∧
      stream.tokens.map (·.start.byte) = [0, 2, 3, 10, 11, 19, 27, 28] ∧
      Cuts stream [] mixedText.toList stretches ∧ stream.stop.Exactly mixedText.toList ∧
      stream.stop = ⟨6, 2, 35⟩ := by
  obtain ⟨stream, hstream, hplaces⟩ := Option.map_eq_some_iff.1 tokens_mixedText
  have htokens : tokens mixedText = .ok stream := by
    cases hread : tokens mixedText with
    | error fault => simp [hread, Except.toOption] at hstream
    | ok found => simpa [hread, Except.toOption] using hstream
  obtain ⟨stretches, hcuts, _, _, _, _, _, hstop, _⟩ := tokens_tile htokens
  obtain ⟨hstarts, hend⟩ := Prod.mk.inj hplaces
  have hbytes := congrArg (List.map fun place => place.2.2) hstarts
  rw [List.map_map] at hbytes
  exact ⟨stream, stretches, htokens, hbytes, hcuts, hstop (by decide +kernel), hend⟩

end ScopeConfig.Syntax
