import ScopeConfig.Proofs.Syntax.Faults
import ScopeConfig.Proofs.Syntax.Loops
import ScopeConfig.Proofs.Syntax.Marked

/-!
# Reading a text ends

A text is cut into tokens by one more loop, over its characters, whose rounds each take a character
at least. Since there are no more tokens than characters, no loop takes more rounds than there are
characters, but for the last one. What reading ends with is a file, or faults that stand in its
text.

## Main statements

* `SourceFile.parseWithin_eq`: the loops are not cut off.
* `SourceFile.parse_ends`: reading a text ends, and reports its faults at stretches of the text.
-/

namespace ScopeConfig.Syntax

open Round

/-! ## Characters -/

/-- How far a text was cut into tokens: the tokens that were found, the place, and what is left. -/
structure LexState where
  tokens : List Located
  place : Pos
  left : List Char

/-- One token of a text, or one stretch that is skipped. -/
def lexRound : LexState → Round LexState (Except LocatedFault TokenStream)
  | ⟨ts, start, []⟩ => .leave (.ok ⟨ts, start⟩)
  | ⟨ts, start, c :: cs⟩ =>
    let reading := lexeme c cs
    let stop := (start.next c).after (cs.take reading.used)
    match reading.outcome with
    | .error f => .leave (.error ⟨f, start, stop⟩)
    | .ok none => .again ⟨ts, stop, cs.drop reading.used⟩
    | .ok (some token) => .again ⟨ts ++ [⟨token, start, stop⟩], stop, cs.drop reading.used⟩

/-- What the loop over the characters comes to from a state on. -/
def LexState.result (s : LexState) : Except LocatedFault TokenStream :=
  (tokensFrom s.place s.left).map fun stream => { stream with tokens := s.tokens ++ stream.tokens }

/-- A round of the lexer keeps the tokens that the rest of the text is read as. -/
theorem keeps_lexRound (s : LexState) :
    (lexRound s).Keeps LexState.left LexState.result s := by
  obtain ⟨ts, start, cs⟩ := s
  cases cs with
  | nil => simp [lexRound, Keeps, LexState.result, tokensFrom, Except.map]
  | cons c cs =>
    have hpass : Passes (c :: cs) (cs.drop (lexeme c cs).used) := .of_suffix (List.drop_suffix _ cs)
    simp only [lexRound]
    split
    all_goals rename_i hread
    · simp [Keeps, LexState.result, tokensFrom, hread, Except.map]
    · refine ⟨hpass, ?_⟩
      simp [LexState.result, tokensFrom, hread]
    · refine ⟨hpass, ?_⟩
      simp only [LexState.result, tokensFrom, hread]
      cases tokensFrom ((start.next c).after (cs.take (lexeme c cs).used))
          (cs.drop (lexeme c cs).used) with
      | error fault => rfl
      | ok stream => simp [Except.map, TokenStream.push]

/-- A text has at most as many tokens as characters. -/
theorem length_tokensFrom_le {start : Pos} {cs : List Char} {stream : TokenStream}
    (h : tokensFrom start cs = .ok stream) : stream.tokens.length ≤ cs.length := by
  fun_induction tokensFrom start cs generalizing stream with
  | case1 start =>
    obtain rfl := Except.ok.inj h
    simp
  | case2 => cases h
  | case3 start c cs reading stop =>
    rename_i hread ih
    have hle := ih h
    simp only [List.length_drop, List.length_cons] at hle ⊢
    omega
  | case4 start c cs reading stop token =>
    rename_i hread ih
    cases hmore : tokensFrom stop (cs.drop reading.used) with
    | error fault => simp [hmore, Except.map] at h
    | ok more =>
      simp only [hmore, Except.map, Except.ok.injEq] at h
      have hle := ih hmore
      subst h
      simp only [TokenStream.push, List.length_drop, List.length_cons] at hle ⊢
      omega

/-! ## Files -/

/-- Reads the text of a file with at most `n` rounds in the loop over its characters and in each
loop of a body. -/
def SourceFile.parseWithin (n : Nat) (path : Path) (source : String) :
    Option (Except (List Diagnostic) SourceFile) :=
  (loop lexRound n ⟨[], .first, source.toList⟩).bind fun
    | .error f => some (.error [.malformed f.fault (f.range path.text)])
    | .ok stream =>
      (bodyWithin ⟨path.text, source.toList, stream.stop⟩ n false stream.tokens).map fun read =>
        let (body, faults) := collect .empty read.1
        if faults.isEmpty then .ok ⟨path, body⟩ else .error faults

/-- A file is read as it is within one round more than its text has characters. -/
theorem SourceFile.parseWithin_eq {n : Nat} (path : Path) {source : String}
    (hn : source.length < n) :
    SourceFile.parseWithin n path source = some (SourceFile.parse path source) := by
  have hcharacters : source.toList.length < n := by
    rwa [String.length_toList]
  have hlex := finishes_of_keeps keeps_lexRound ⟨[], .first, source.toList⟩ n hcharacters
  have htokens : LexState.result ⟨[], .first, source.toList⟩ = tokens source := by
    unfold LexState.result tokens
    cases tokensFrom .first source.toList <;> rfl
  rw [htokens] at hlex
  unfold SourceFile.parseWithin SourceFile.parse Body.parse
  rw [hlex, Option.bind_some]
  cases hstream : tokens source with
  | error f => rfl
  | ok stream =>
    have hlength := length_tokensFrom_le hstream
    dsimp only
    rw [bodyWithin_eq _ false (Nat.lt_of_le_of_lt hlength hcharacters)]
    simp only [readBody, Option.map_some]
    split <;> rfl

/-- Reading a text ends, within one round more than it has characters in the loop over these and in
each loop of a body; every round of a loop that goes on goes over something. It gives a file, or one
fault at least, and every fault is one of the text, at a range in the file that does not stop before
it starts nor after the end of the text. -/
theorem SourceFile.parse_ends (path : Path) (source : String) :
    (∀ n, source.length < n →
      SourceFile.parseWithin n path source = some (SourceFile.parse path source)) ∧
    Advances lexRound LexState.left ∧
    (∀ o, LoopsEnd o) ∧
    ∀ faults, SourceFile.parse path source = .error faults → faults ≠ [] ∧
      ∀ d ∈ faults, d.kind = .malformed ∧ ∃ r text, d.range = some r ∧
        r.Marks path.text source.toList text ∧ r.start.byte ≤ r.stop.byte ∧
        r.stop.byte ≤ source.utf8ByteSize := by
  refine ⟨fun n hn => SourceFile.parseWithin_eq path hn, advances_of_keeps keeps_lexRound, loopsEnd,
    fun faults h => ⟨SourceFile.parse_error_ne_nil h, fun d hd => ?_⟩⟩
  obtain ⟨fault, r, text, rfl, hmarks⟩ :=
    Body.marks_of_parse_error (SourceFile.parse_eq_error_iff.1 h) d hd
  have hstop := hmarks.stop_le
  rw [String.ofList_toList] at hstop
  exact ⟨rfl, r, text, rfl, hmarks, hmarks.start_le, hstop⟩

end ScopeConfig.Syntax
