import ScopeConfig.Proofs.Syntax.Exact

/-!
# How entries are read

The readers of entries go through the tokens once. A reading says what they make of a stretch of
tokens, without the order in which they decide it: an attribute of a name, a sign, an expression and
an end, a block of a type, labels, braces, what is read between them and an end, and some faults, if
there are any, of a stretch that could be read as neither. What holds of readings is proved by
induction on them, in four cases.

## Main statements

* `Reads`: entries are read from tokens, and others are left.
* `reads_entries`: the readers read like that.
* `Reads.reportedAt_collect`: faults are reported at tokens, or at the end of the text.
-/

namespace ScopeConfig.Syntax

/-! ## Readers leave the end of what they are given -/

/-- Reading an expression leaves a suffix of the tokens. -/
theorem suffix_expression (o : Origin) (ts : List Located) : (expression o ts).2 <:+ ts := by
  unfold expression
  dsimp only
  split <;> exact List.drop_suffix _ _

theorem suffix_entryEnd (o : Origin) (ts : List Located) : (entryEnd o ts).2 <:+ ts := by
  unfold entryEnd
  split
  · exact List.suffix_rfl
  · split
    · exact List.suffix_cons _ _
    · exact List.suffix_rfl
    · exact List.suffix_rfl

/-- The recovery leaves a suffix of the tokens. -/
theorem suffix_recover (depth : Int) (ts : List Located) : recover depth ts <:+ ts := by
  induction ts generalizing depth with
  | nil => exact List.suffix_rfl
  | cons t ts ih =>
    have hmore := fun depth => (ih depth).trans (List.suffix_cons t ts)
    unfold recover
    repeat' split
    all_goals first
      | exact List.suffix_rfl
      | exact hmore _

theorem suffix_header (o : Origin) (ts : List Located) : (header o ts).2 <:+ ts := by
  induction ts with
  | nil => exact List.suffix_rfl
  | cons t ts ih =>
    have hmore := ih.trans (List.suffix_cons t ts)
    simp only [header]
    split
    · exact hmore
    · exact hmore
    · exact List.suffix_rfl
    · exact List.suffix_cons t ts
    · exact List.suffix_rfl

/-- What the reader of expressions takes is the expression of the tokens. -/
theorem expr_of_expression {o : Origin} {ts : List Located} {e : Expr}
    (h : (expression o ts).1 = .ok e) : ∃ first more, ts = first :: (more ++ (expression o ts).2) ∧
      IsExpr (first :: more) ∧ e = o.expr first more := by
  obtain ⟨he, -, hts⟩ := isExpr_of_expression (Prod.ext h rfl)
  unfold expression at h
  dsimp only at h
  split at h
  · cases h
  · cases h
  · rename_i first more _ _
    obtain rfl := Except.ok.inj h
    exact ⟨first, more, hts, he, rfl⟩

/-! ## Readings -/

/-- The fault is one of the text, and is reported at one of the tokens or at the end of the text. -/
def ReportedAt (o : Origin) (ts : List Located) (d : Diagnostic) : Prop :=
  ∃ fault r, d = .malformed fault r ∧
    (r = ⟨o.file, o.stop, o.stop⟩ ∨ ∃ t ∈ ts, r = t.range o.file)

/-- The token is a label of a block, and the label has its range. -/
def Labels (o : Origin) (t : Located) (l : Label) : Prop :=
  IsLabel t l.text ∧ l.range = t.range o.file

/-- The attribute that is read from the word at `t` and an expression. -/
def Origin.attribute (o : Origin) (t : Located) (name : String) (first : Located)
    (more : List Located) : Attribute :=
  ⟨name, o.expr first more, t.range o.file, (t.range o.file).through (o.expr first more).range⟩

/-- Entries are read from the tokens of the first list, and those of the second are left. -/
inductive Reads (o : Origin) : List Located → List Entry → List Located → Prop
  | faults {ts rest : List Located} {ds : List Diagnostic} (hrest : rest <:+ ts)
    (hds : ∀ d ∈ ds, ReportedAt o ts d) : Reads o ts (ds.map .fault) rest
  | declaration {t sign first : Located} {more after rest : List Located} {name : String}
    (ht : t.token = .word name) (hsign : sign.token = .symbol .assign)
    (he : IsExpr (first :: more)) (hend : Ends after rest) :
    Reads o (t :: sign :: first :: (more ++ after)) [.attribute (o.attribute t name first more)]
      rest
  | block {t opening closing : Located} {ls inner after rest : List Located} {blockType : String}
    {labels : List Label} {es : List Entry} (ht : t.token = .word blockType)
    (hlabels : List.Forall₂ (Labels o) ls labels) (hopening : opening.token = .symbol .lbrace)
    (hbody : Reads o inner es (closing :: after)) (hclosing : closing.token = .symbol .rbrace)
    (hend : Ends after rest) :
    Reads o (t :: (ls ++ opening :: inner))
      [.block (o.block t blockType labels opening closing (collect .empty es).1)] rest
  | append {ts mid rest : List Located} {es es' : List Entry} (h : Reads o ts es mid)
    (h' : Reads o mid es' rest) : Reads o ts (es ++ es') rest

/-- A fault that is reported at tokens is reported at more that end with them. -/
theorem ReportedAt.of_suffix {o : Origin} {ts ts' : List Located} {d : Diagnostic}
    (h : ReportedAt o ts d) (hsuffix : ts <:+ ts') : ReportedAt o ts' d := by
  obtain ⟨fault, r, rfl, hr⟩ := h
  exact ⟨fault, r, rfl, hr.imp_right fun ⟨t, ht, heq⟩ => ⟨t, hsuffix.mem ht, heq⟩⟩

/-- What is inside a block comes behind its head. -/
theorem suffix_head (t opening : Located) (ls inner : List Located) :
    inner <:+ t :: (ls ++ opening :: inner) :=
  (List.suffix_cons opening inner).trans (List.suffix_append (t :: ls) _)

/-- The end of an entry leaves a suffix of the tokens. -/
theorem Ends.suffix {ts rest : List Located} (h : Ends ts rest) : rest <:+ ts := by
  cases h with
  | newline => exact List.suffix_cons _ _
  | brace => exact List.suffix_rfl
  | text => exact List.suffix_rfl

namespace Reads

variable {o : Origin} {ts ts' rest : List Located} {es : List Entry}

/-- Tokens may be passed over without an entry. -/
theorem nil (h : rest <:+ ts) : Reads o ts [] rest :=
  .faults h (List.forall_mem_nil _)

/-- What is read of tokens is read of more that end with them. -/
theorem of_suffix (h : Reads o ts es rest) (hsuffix : ts <:+ ts') : Reads o ts' es rest :=
  .append (.nil hsuffix) h

/-- A fault at one of the tokens, read in front of what is left. -/
theorem fault {d : Diagnostic} (h : rest <:+ ts) (hd : ReportedAt o ts d) :
    Reads o ts [.fault d] rest :=
  .faults h (List.forall_mem_singleton.2 hd)

/-- What is left after reading is a suffix of the tokens. -/
theorem suffix (h : Reads o ts es rest) : rest <:+ ts := by
  induction h with
  | faults hrest => exact hrest
  | @declaration t sign first more after rest _ _ _ _ hend =>
    exact hend.suffix.trans (List.suffix_append (t :: sign :: first :: more) after)
  | @block t opening closing ls inner after rest _ _ _ _ _ _ _ _ hend ih =>
    have hclosing : after <:+ closing :: after := List.suffix_cons closing after
    exact hend.suffix.trans (hclosing.trans (ih.trans (suffix_head t opening ls inner)))
  | append _ _ ih ih' => exact ih'.trans ih

/-! ### Faults -/

/-- A fault among what is read is reported at one of the tokens, or at the end. -/
theorem reportedAt_of_mem (h : Reads o ts es rest) {d : Diagnostic} (hd : .fault d ∈ es) :
    ReportedAt o ts d := by
  induction h with
  | faults _ hds =>
    obtain ⟨d', hd', heq⟩ := List.mem_map.1 hd
    obtain rfl := Entry.fault.inj heq
    exact hds d' hd'
  | declaration => simp at hd
  | block => simp at hd
  | append h _ ih ih' =>
    rcases List.mem_append.1 hd with hd | hd
    · exact ih hd
    · exact (ih' hd).of_suffix h.suffix

/-- The name of an attribute that is read has the range of one of the tokens. -/
theorem nameRange_of_mem (h : Reads o ts es rest) {a : Attribute} (ha : .attribute a ∈ es) :
    ∃ t ∈ ts, a.nameRange = t.range o.file := by
  induction h with
  | faults => simp at ha
  | declaration =>
    obtain rfl := Entry.attribute.inj (List.mem_singleton.1 ha)
    exact ⟨_, List.mem_cons_self, rfl⟩
  | block => simp at ha
  | append h _ ih ih' =>
    rcases List.mem_append.1 ha with ha | ha
    · exact ih ha
    · obtain ⟨t, ht, heq⟩ := ih' ha
      exact ⟨t, h.suffix.mem ht, heq⟩

end Reads

/-- The faults of collected entries are those among them, and one for each name that is taken, at
the name. -/
theorem fault_or_attribute_of_mem_collect {es : List Entry} {table : AttributeTable}
    {d : Diagnostic} (h : d ∈ (collect table es).2) :
    .fault d ∈ es ∨
      ∃ a first, .attribute a ∈ es ∧ d = .malformed (.redefined a.name first) a.nameRange := by
  induction es generalizing table with
  | nil => simp [collect] at h
  | cons e es ih =>
    -- what the later entries are blamed for they are blamed for in the longer list
    have hmore : ∀ {table}, d ∈ (collect table es).2 → .fault d ∈ e :: es ∨
        ∃ a first, .attribute a ∈ e :: es ∧
          d = .malformed (.redefined a.name first) a.nameRange := by
      intro table h
      rcases ih h with hfault | ⟨a, first, ha, heq⟩
      · exact .inl (List.mem_cons_of_mem e hfault)
      · exact .inr ⟨a, first, List.mem_cons_of_mem e ha, heq⟩
    rcases e with a | b | d'
    · simp only [collect] at h
      split at h
      · rename_i first _
        rcases List.mem_cons.1 h with rfl | h
        · exact .inr ⟨a, first.nameRange, List.mem_cons_self, rfl⟩
        · exact hmore h
      · exact hmore h
    · exact hmore h
    · rcases List.mem_cons.1 h with rfl | h
      · exact .inl List.mem_cons_self
      · exact hmore h

/-- The faults of a body are reported at the tokens that it is read from, or at the end of the
text. -/
theorem Reads.reportedAt_collect {o : Origin} {ts rest : List Located} {es : List Entry}
    (h : Reads o ts es rest) (table : AttributeTable) :
    ∀ d ∈ (collect table es).2, ReportedAt o ts d := by
  intro d hd
  rcases fault_or_attribute_of_mem_collect hd with hd | ⟨a, first, ha, rfl⟩
  · exact h.reportedAt_of_mem hd
  · obtain ⟨t, ht, heq⟩ := h.nameRange_of_mem ha
    exact ⟨_, _, rfl, .inr ⟨t, ht, heq⟩⟩

/-! ## The pieces of an entry -/

/-- A fault at a token is reported there. -/
theorem reportedAt_token {o : Origin} {ts : List Located} {t : Located} (fault : Fault)
    (ht : t ∈ ts) : ReportedAt o ts (.malformed fault (t.range o.file)) :=
  ⟨fault, _, rfl, .inr ⟨t, ht, rfl⟩⟩

/-- A fault where the rest begins is reported at its first token, or at the end. -/
theorem reportedAt_here {o : Origin} {ts rest : List Located} (fault : Fault)
    (h : rest <:+ ts) : ReportedAt o ts (.malformed fault (o.here rest)) := by
  cases rest with
  | nil => exact ⟨fault, _, rfl, .inl rfl⟩
  | cons t rest => exact reportedAt_token fault (h.mem List.mem_cons_self)

/-- A fault of an expression is reported at its tokens, or at the end. -/
theorem reportedAt_of_expression {o : Origin} {ts : List Located} {d : Diagnostic}
    (h : (expression o ts).1 = .error d) : ReportedAt o ts d := by
  unfold expression at h
  dsimp only at h
  split at h
  · obtain rfl := Except.error.inj h
    exact reportedAt_here _ (List.drop_suffix _ _)
  · obtain rfl := Except.error.inj h
    exact reportedAt_here _ (List.drop_suffix _ _)
  · cases h

theorem reportedAt_of_entryEnd {o : Origin} {ts : List Located} {d : Diagnostic}
    (h : (entryEnd o ts).1 = .error d) : ReportedAt o ts d := by
  unfold entryEnd at h
  split at h
  · cases h
  · split at h
    · cases h
    · cases h
    · obtain rfl := Except.error.inj h
      exact reportedAt_token _ List.mem_cons_self

theorem reportedAt_of_header {o : Origin} {ts : List Located} {d : Diagnostic}
    (h : (header o ts).1 = .error d) : ReportedAt o ts d := by
  induction ts with
  | nil =>
    obtain rfl := Except.error.inj h
    exact reportedAt_here _ (List.suffix_refl [])
  | cons t ts ih =>
    -- a label passes on the fault of the rest of the head
    have hrest : ∀ g : List Label × Located → List Label × Located,
        (header o ts).1.map g = .error d → ReportedAt o (t :: ts) d := by
      intro g hg
      cases hhead : (header o ts).1 with
      | error found =>
        rw [hhead] at hg
        obtain rfl := Except.error.inj hg
        exact (ih hhead).of_suffix (List.suffix_cons t ts)
      | ok found =>
        rw [hhead] at hg
        cases hg
    simp only [header] at h
    split at h
    · exact hrest _ h
    · exact hrest _ h
    · obtain rfl := Except.error.inj h
      exact reportedAt_token _ List.mem_cons_self
    · cases h
    · obtain rfl := Except.error.inj h
      exact reportedAt_token _ List.mem_cons_self

/-- The labels of a head are tokens before its opening brace. -/
theorem labels_of_header_eq_ok {o : Origin} {ts : List Located} {labels : List Label}
    {opening : Located} (h : (header o ts).1 = .ok (labels, opening)) :
    ∃ ls, ts = ls ++ opening :: (header o ts).2 ∧ List.Forall₂ (Labels o) ls labels ∧
      opening.token = .symbol .lbrace := by
  induction ts generalizing labels with
  | nil => cases h
  | cons t ts ih =>
    -- a label comes before the labels of the rest
    have hlabel : ∀ text, IsLabel t text →
        (header o ts).1.map (fun head : List Label × Located =>
          (⟨text, t.range o.file⟩ :: head.1, head.2)) = .ok (labels, opening) →
        ∃ ls, t :: ts = ls ++ opening :: (header o ts).2 ∧
          List.Forall₂ (Labels o) ls labels ∧ opening.token = .symbol .lbrace := by
      intro text ht hmap
      cases hhead : (header o ts).1 with
      | error d =>
        rw [hhead] at hmap
        cases hmap
      | ok head =>
        rw [hhead] at hmap
        obtain ⟨rfl, rfl⟩ := Prod.mk.inj (Except.ok.inj hmap)
        obtain ⟨ls, hts, hlabels, hopening⟩ := ih hhead
        exact ⟨t :: ls, congrArg (t :: ·) hts, .cons ⟨ht, rfl⟩ hlabels, hopening⟩
    simp only [header] at h ⊢
    split at h
    · rename_i text ht
      exact hlabel text (.inl ht) h
    · rename_i text ht
      exact hlabel text (.inr ht) h
    · cases h
    · rename_i ht
      obtain ⟨rfl, rfl⟩ := Prod.mk.inj (Except.ok.inj h)
      exact ⟨[], rfl, .nil, ht⟩
    · cases h

/-! ## The readers -/

/-- A name, a sign and what follows are read as the attribute, or as its fault. -/
theorem reads_attributeEntry {o : Origin} {t sign : Located} {name : String}
    (ht : t.token = .word name) (hsign : sign.token = .symbol .assign) (ts : List Located) :
    Reads o (t :: sign :: ts) [(attributeEntry o t name ts).1]
      (attributeEntry o t name ts).2.1 := by
  have hts : ts <:+ t :: sign :: ts := List.suffix_append [t, sign] ts
  have hexpr := suffix_expression o ts
  unfold attributeEntry
  dsimp only
  split
  · rename_i d _ hfault
    exact .fault ((suffix_recover 0 _).trans (hexpr.trans hts))
      ((reportedAt_of_expression hfault).of_suffix hts)
  · rename_i d _ hfault
    exact .fault ((suffix_recover 0 _).trans ((suffix_entryEnd o _).trans (hexpr.trans hts)))
      ((reportedAt_of_entryEnd hfault).of_suffix (hexpr.trans hts))
  · rename_i e hok hend
    obtain ⟨first, more, hsplit, he, rfl⟩ := expr_of_expression hok
    have hread := Reads.declaration (o := o) ht hsign he
      (entryEnd_eq_ok_iff.1 (Prod.ext hend rfl))
    rwa [← hsplit] at hread

/-- A block is read like that, when the entries inside it are. -/
theorem reads_blockEntries {o : Origin} {t : Located} {blockType : String} {ts : List Located}
    (ht : t.token = .word blockType)
    (hinner : ∀ head, (header o ts).1 = .ok head →
      Reads o (header o ts).2 (entries o true (header o ts).2).1
        (entries o true (header o ts).2).2.1) :
    Reads o (t :: ts) (blockEntries o t blockType ts).1 (blockEntries o t blockType ts).2.1 := by
  have hts := List.suffix_cons t ts
  have hhead := (suffix_header o ts).trans hts
  unfold blockEntries
  split
  -- the head is faulty
  · rename_i d hfault
    exact .fault ((suffix_recover 0 _).trans hhead) ((reportedAt_of_header hfault).of_suffix hts)
  · rename_i labels opening hok
    obtain ⟨ls, hsplit, hlabels, hopening⟩ := labels_of_header_eq_ok hok
    have hbody := hinner _ hok
    have hfaults : ∀ d ∈ (collect .empty (entries o true (header o ts).2).1).2,
        ReportedAt o (t :: ts) d :=
      fun d hd => (hbody.reportedAt_collect .empty d hd).of_suffix hhead
    have hcloses := ((exact_entries_and_blockEntries o).1 true (header o ts).2).closes.1
    dsimp only
    split
    -- the text ends inside the block, which is reported at the opening brace
    · have hmem : opening ∈ t :: ts := by
        rw [hsplit]
        simp
      exact (Reads.faults List.suffix_rfl hfaults).append
        (.fault List.nil_suffix (reportedAt_token _ hmem))
    · rename_i closing rest hrest hleft
      have hleft : (entries o true (header o ts).2).2.1 = closing :: rest := congrArg _ hleft
      rw [hleft] at hbody hcloses
      have hrest : rest <:+ t :: ts :=
        (List.suffix_cons closing rest).trans (hbody.suffix.trans hhead)
      split
      -- the block is closed, and the line ends behind it or does not
      · rename_i hend
        have hread := Reads.block ht hlabels hopening hbody hcloses
          (entryEnd_eq_ok_iff.1 (Prod.ext hend rfl))
        rw [← hsplit] at hread
        exact (Reads.faults List.suffix_rfl hfaults).append hread
      · rename_i d hfault
        exact (Reads.faults List.suffix_rfl hfaults).append
          (.fault ((suffix_recover 0 _).trans ((suffix_entryEnd o rest).trans hrest))
            ((reportedAt_of_entryEnd hfault).of_suffix hrest))

/-- Entries and the entries of a block are read together. -/
theorem reads_entries_and_blockEntries (o : Origin) :
    (∀ inBlock ts, Reads o ts (entries o inBlock ts).1 (entries o inBlock ts).2.1) ∧
      ∀ t blockType ts, t.token = .word blockType →
        Reads o (t :: ts) (blockEntries o t blockType ts).1
          (blockEntries o t blockType ts).2.1 := by
  apply entries.mutual_induct o
    (fun inBlock ts => Reads o ts (entries o inBlock ts).1 (entries o inBlock ts).2.1)
    (fun t blockType ts => t.token = .word blockType →
      Reads o (t :: ts) (blockEntries o t blockType ts).1 (blockEntries o t blockType ts).2.1)
  -- the end of the text
  · intro inBlock
    simp only [entries]
    exact .nil List.suffix_rfl
  -- a newline before an entry
  · intro inBlock t ts ht more rest hmore ih
    simp only [entries, ht]
    exact ih.of_suffix (List.suffix_cons t ts)
  -- an attribute
  · intro inBlock t name ht start stop ts found after hfound hlen more rest hmore ih
    have hsign : (⟨.symbol .assign, start, stop⟩ : Located).token = .symbol .assign := rfl
    have hattr := reads_attributeEntry (o := o) ht hsign ts
    simp only [entries, ht]
    rw [hfound] at hattr ⊢
    exact hattr.append ih
  -- a block
  · intro inBlock t name ht ts hassign found after hfound hlen more rest hmore ihBlock ih
    have hblock := ihBlock ht
    simp only [entries, ht]
    rw [hfound] at hblock ⊢
    exact hblock.append ih
  -- the brace that closes the block around the entries
  · intro inBlock t ts hnewline hword hclose
    simp only [entries, hclose]
    exact .nil List.suffix_rfl
  -- a token that begins no entry: the recovery leaves a suffix
  · intro inBlock t ts hlen more rest hmore hnewline hword hclose ih
    simp only [entries, hclose]
    exact (Reads.fault ((suffix_recover 0 ts).trans (List.suffix_cons t ts))
      (reportedAt_token _ List.mem_cons_self)).append ih
  -- a block without a proper head; the others differ in how the block ends
  · intro t blockType ts hlen d hhead ht
    refine reads_blockEntries ht fun head hok => ?_
    simp [hhead] at hok
  · intro t blockType ts hlen labels opening hhead inner body faults hcollect hrest hinner ih ht
    exact reads_blockEntries ht fun _ _ => ih
  · intro t blockType ts hlen labels opening hhead inner body faults hcollect closing rest hrest
      ending hending hok hinner ih ht
    exact reads_blockEntries ht fun _ _ => ih
  · intro t blockType ts hlen labels opening hhead inner body faults hcollect closing rest hrest
      ending hending d hfault hinner ih ht
    exact reads_blockEntries ht fun _ _ => ih

/-- The entries of a body are read from its tokens. -/
theorem reads_entries (o : Origin) (inBlock : Bool) (ts : List Located) :
    Reads o ts (entries o inBlock ts).1 (entries o inBlock ts).2.1 :=
  (reads_entries_and_blockEntries o).1 inBlock ts

end ScopeConfig.Syntax
