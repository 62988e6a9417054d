import ScopeConfig.Proofs.Syntax.Readings
import ScopeConfig.Proofs.Syntax.Tiling

/-!
# Ranges and the text that they mark

A range marks a stretch of the source when its two places are those at the ends of the stretch,
counted afresh from the beginning of the source. The ranges of tokens mark the texts that spell
them, a range from one marked stretch to a later one marks a stretch again, and every fault of a
source is reported at a range that marks some stretch of it, which may be empty.

## Main statements

* `SourceRange.Marks`: the range marks this stretch of the source.
* `marks_of_mem_tokens`: the ranges of tokens mark their texts.
* `Body.marks_of_parse_error`: so do the ranges that faults are reported at.
-/

namespace ScopeConfig

/-- The range stands in the file, from where the text before the stretch leads to where the stretch
then leads. -/
structure SourceRange.Marks (r : SourceRange) (file : String) (source text : List Char) :
    Prop where
  file_eq : r.file = file
  cut : ∃ front back, source = front ++ text ++ back ∧ r.start.IsAfter front ∧
    r.stop.IsAfter (front ++ text)

namespace Syntax

/-- Of two beginnings of a text, the one with fewer bytes is the beginning of the other. -/
theorem prefix_of_utf8ByteSize_le {front front' text : List Char} (h : front <+: text)
    (h' : front' <+: text)
    (hle : (String.ofList front).utf8ByteSize ≤ (String.ofList front').utf8ByteSize) :
    front <+: front' := by
  rcases List.prefix_or_prefix_of_prefix h h' with hfront | ⟨more, rfl⟩
  · exact hfront
  · rw [String.ofList_append, String.utf8ByteSize_append] at hle
    have hmore : more = [] := by
      cases more with
      | nil => rfl
      | cons c more =>
        rw [utf8ByteSize_ofList_cons] at hle
        have hpos := c.utf8Size_pos
        omega
    exact ⟨[], by simp [hmore]⟩

end Syntax

namespace SourceRange.Marks

open Syntax

variable {r s : SourceRange} {file : String} {source text text' : List Char}

/-- The slice of the source under a range is the stretch that the range marks. -/
theorem slice_eq {o : Origin} (h : r.Marks file o.source text) :
    o.slice r.start.byte r.stop.byte = String.ofList text := by
  obtain ⟨front, back, hsource, hstart, hstop⟩ := h.cut
  exact Origin.slice_eq hsource hstart hstop

/-- A range ends as many bytes after its start as the text that it marks has. -/
theorem stop_eq (h : r.Marks file source text) :
    r.stop.byte = r.start.byte + (String.ofList text).utf8ByteSize := by
  obtain ⟨front, back, -, hstart, hstop⟩ := h.cut
  exact hstart.byte_add hstop

/-- A range that marks a text does not end before it starts. -/
theorem start_le (h : r.Marks file source text) : r.start.byte ≤ r.stop.byte := by
  rw [h.stop_eq]
  exact Nat.le_add_right _ _

/-- A range that marks a text ends inside the source. -/
theorem stop_le (h : r.Marks file source text) :
    r.stop.byte ≤ (String.ofList source).utf8ByteSize := by
  obtain ⟨front, back, rfl, -, hstop⟩ := h.cut
  have hsource : (String.ofList (front ++ text ++ back)).utf8ByteSize =
      (String.ofList (front ++ text)).utf8ByteSize + (String.ofList back).utf8ByteSize := by
    rw [String.ofList_append, String.utf8ByteSize_append]
  rw [hstop.byte, hsource]
  exact Nat.le_add_right _ _

/-- A range from the start of one stretch to the stop of another marks what lies between. -/
theorem through (hr : r.Marks file source text) (hs : s.Marks file source text')
    (h : r.start.byte ≤ s.stop.byte) : ∃ whole, (r.through s).Marks file source whole := by
  obtain ⟨front, back, hsource, hstart, -⟩ := hr.cut
  obtain ⟨front', back', hsource', -, hstop⟩ := hs.cut
  have hfront : front <+: source := ⟨text ++ back, by rw [hsource, List.append_assoc]⟩
  have hfront' : front' ++ text' <+: source := ⟨back', hsource'.symm⟩
  rw [hstart.byte, hstop.byte] at h
  obtain ⟨whole, hwhole⟩ := prefix_of_utf8ByteSize_le hfront hfront' h
  refine ⟨whole, hr.file_eq, front, back', ?_, hstart, ?_⟩
  · rw [hwhole, hsource']
  · rw [hwhole]
    exact hstop

end SourceRange.Marks

namespace Syntax

/-! ## Tokens -/

/-- The range of a token marks a text that spells the token. -/
theorem marks_of_mem_tokens {source : String} {stream : TokenStream}
    (h : tokens source = .ok stream) (file : String) {t : Located} (ht : t ∈ stream.tokens) :
    ∃ text, Spells t.token text ∧ (t.range file).Marks file source.toList text := by
  obtain ⟨stretches, hcuts⟩ := cuts_of_tokensFrom Pos.isAfter_first h
  rw [hcuts.tokens_eq] at ht
  obtain ⟨front, text, back, hsource, hspells, hstart, hstop⟩ := hcuts.tiles.exists_text ht
  rw [hcuts.text_eq] at hsource
  exact ⟨text, hspells, rfl, front, back, hsource, hstart, hstop⟩

/-- Nothing is left of the source where its tokens stop. -/
theorem marks_end {source : String} {stream : TokenStream} (h : tokens source = .ok stream)
    (file : String) :
    (⟨file, stream.stop, stream.stop⟩ : SourceRange).Marks file source.toList [] := by
  obtain ⟨stretches, hcuts⟩ := cuts_of_tokensFrom Pos.isAfter_first h
  have hstop : stream.stop.IsAfter source.toList := hcuts.stop
  exact ⟨rfl, source.toList, [], by simp, hstop, by simpa using hstop⟩

/-- A fault among the characters of a text is reported at a stretch of it. -/
theorem cut_of_tokensFrom_error {start : Pos} {before cs : List Char} {fault : LocatedFault}
    (hstart : start.IsAfter before) (h : tokensFrom start cs = .error fault) :
    ∃ front text back, before ++ cs = front ++ text ++ back ∧ fault.start.IsAfter front ∧
      fault.stop.IsAfter (front ++ text) := by
  fun_induction tokensFrom start cs generalizing before with
  | case1 start => cases h
  -- the fault of this lexeme: it is reported at what the lexeme took
  | case2 start c cs reading stop =>
    rename_i f hread
    obtain rfl := Except.error.inj h
    refine ⟨before, c :: cs.take reading.used, cs.drop reading.used, ?_, hstart,
      hstart.after (c :: cs.take reading.used)⟩
    rw [List.append_assoc, List.cons_append, List.take_append_drop]
  -- a fault further on: what was read so far only moves the front
  | case3 start c cs reading stop =>
    rename_i hread ih
    have hstop : stop.IsAfter (before ++ c :: cs.take reading.used) :=
      hstart.after (c :: cs.take reading.used)
    have hcut := ih hstop h
    rwa [List.append_assoc, List.cons_append, List.take_append_drop] at hcut
  | case4 start c cs reading stop token =>
    rename_i hread ih
    have hstop : stop.IsAfter (before ++ c :: cs.take reading.used) :=
      hstart.after (c :: cs.take reading.used)
    have hmore : tokensFrom stop (cs.drop reading.used) = .error fault := by
      cases hmore : tokensFrom stop (cs.drop reading.used) with
      | error f => simpa [hmore, Except.map] using h
      | ok more => simp [hmore, Except.map] at h
    have hcut := ih hstop hmore
    rwa [List.append_assoc, List.cons_append, List.take_append_drop] at hcut

/-! ## Faults -/

/-- Every fault of a text is reported at a stretch of it. -/
theorem Body.marks_of_parse_error {file source : String} {faults : List Diagnostic}
    (h : Body.parse file source = .error faults) :
    ∀ d ∈ faults, ∃ fault r text, d = .malformed fault r ∧ r.Marks file source.toList text := by
  unfold Body.parse at h
  split at h
  · rename_i f hfault
    obtain rfl := Except.error.inj h
    obtain ⟨front, text, back, hsource, hstart, hstop⟩ :=
      cut_of_tokensFrom_error Pos.isAfter_first hfault
    intro d hd
    exact ⟨f.fault, f.range file, text, List.mem_singleton.1 hd, rfl, front, back, hsource, hstart,
      hstop⟩
  · rename_i stream hstream
    dsimp only at h
    split at h
    · cases h
    · obtain rfl := Except.error.inj h
      intro d hd
      obtain ⟨fault, r, rfl, rfl | ⟨t, ht, rfl⟩⟩ :=
        (reads_entries _ false stream.tokens).reportedAt_collect .empty d hd
      · exact ⟨fault, _, [], rfl, marks_end hstream file⟩
      · obtain ⟨text, -, hmarks⟩ := marks_of_mem_tokens hstream file ht
        exact ⟨fault, _, text, rfl, hmarks⟩

end Syntax

end ScopeConfig
