import ScopeConfig.Proofs.Syntax.Faults
import ScopeConfig.Proofs.Syntax.Tiling

/-!
# Where blocks stand

A block stands on the text from its type to its closing brace. What it is made of, its labels, its
attributes and the blocks inside it, stands in that stretch of the text, and blocks of one body
stand one after the other. So a place inside a block is in no other block of the same body.

The places are those of tokens, which follow each other (`InOrder`). Entries that are read from
the front of a list of tokens stand, one after the other (`Laid`), between the tokens before them
and the tokens that are left.

## Main statements

* `Block.Nested`: what a block is made of stands inside it, at every depth.
* `SourceFile.between_of_parse`: the blocks of a file are nested, and stand one after the other.
-/

namespace ScopeConfig

namespace SourceRange

/-- The range stands in the file `file` between two of its bytes. -/
structure Between (r : SourceRange) (file : String) (lo hi : Nat) : Prop where
  file_eq : r.file = file
  start : lo ≤ r.start.byte
  forward : r.start.byte ≤ r.stop.byte
  stop : r.stop.byte ≤ hi

/-- A range between two bytes is between any that are further apart. -/
theorem Between.mono {r : SourceRange} {file : String} {lo lo' hi hi' : Nat}
    (h : r.Between file lo hi) (hlo : lo' ≤ lo) (hhi : hi ≤ hi') : r.Between file lo' hi' :=
  ⟨h.file_eq, Nat.le_trans hlo h.start, h.forward, Nat.le_trans h.stop hhi⟩

/-- One range lies inside another. -/
def Inside (r s : SourceRange) : Prop :=
  r.Between s.file s.start.byte s.stop.byte

/-- A range inside a second one is inside what that one is inside. -/
theorem Inside.trans {r s t : SourceRange} (h : r.Inside s) (h' : s.Inside t) : r.Inside t :=
  ⟨h.file_eq.trans h'.file_eq, Nat.le_trans h'.start h.start, h.forward,
    Nat.le_trans h.stop h'.stop⟩

/-- Ranges that follow each other in one stretch are joined in it. -/
theorem Between.through {r s : SourceRange} {file : String} {lo hi : Nat}
    (hr : r.Between file lo hi) (hs : s.Between file lo hi)
    (h : r.start.byte ≤ s.stop.byte) : (r.through s).Between file lo hi :=
  ⟨hr.file_eq, hr.start, h, hs.stop⟩

end SourceRange

namespace Syntax

/-! ## Tokens in order -/

/-- The tokens are not empty and follow each other from the byte `lo` on. -/
def InOrder (lo : Nat) : List Located → Prop
  | [] => True
  | t :: ts => lo ≤ t.start.byte ∧ t.start.byte < t.stop.byte ∧ InOrder t.stop.byte ts

namespace InOrder

variable {lo : Nat} {ts ts' : List Located}

theorem mono {lo' : Nat} (h : InOrder lo ts) (hlo : lo' ≤ lo) : InOrder lo' ts := by
  cases ts with
  | nil => trivial
  | cons t ts => exact ⟨Nat.le_trans hlo h.1, h.2⟩

theorem tail {t : Located} (h : InOrder lo (t :: ts)) : InOrder lo ts := by
  obtain ⟨hstart, hlt, hrest⟩ := h
  exact hrest.mono (by omega)

theorem of_suffix (h : InOrder lo ts) (hsuffix : ts' <:+ ts) : InOrder lo ts' := by
  obtain ⟨front, rfl⟩ := hsuffix
  induction front with
  | nil => exact h
  | cons t front ih => exact ih h.tail

/-- Behind some tokens the others go on from where the last of them stops. -/
theorem behind {first : Located} {more rest : List Located}
    (h : InOrder lo (first :: (more ++ rest))) :
    lo ≤ first.start.byte ∧ first.start.byte < (more.getLast?.getD first).stop.byte ∧
      InOrder (more.getLast?.getD first).stop.byte rest := by
  induction more generalizing first lo with
  | nil => exact h
  | cons second more ih =>
    obtain ⟨hstart, hlt, hrest⟩ := h
    obtain ⟨hsecond, hstop, hbehind⟩ := ih hrest
    have hlast : (second :: more).getLast?.getD first = more.getLast?.getD second := by
      rw [List.getLast?_cons]
      rfl
    rw [hlast]
    exact ⟨hstart, by omega, hbehind⟩

/-- Tokens that are not empty and come one behind the other are in order. -/
theorem of_pairwise (hpairs : ts.Pairwise fun t u => t.stop.byte ≤ u.start.byte)
    (hnonempty : ∀ t ∈ ts, t.start.byte < t.stop.byte) (hlo : ∀ t ∈ ts, lo ≤ t.start.byte) :
    InOrder lo ts := by
  induction ts generalizing lo with
  | nil => trivial
  | cons t ts ih =>
    obtain ⟨hfirst, hpairs⟩ := List.pairwise_cons.1 hpairs
    exact ⟨hlo t List.mem_cons_self, hnonempty t List.mem_cons_self,
      ih hpairs (fun u hu => hnonempty u (List.mem_cons_of_mem t hu)) hfirst⟩

end InOrder

/-- The tokens of a text are in order. -/
theorem inOrder_of_tokens {source : String} {stream : TokenStream}
    (h : tokens source = .ok stream) : InOrder 0 stream.tokens := by
  obtain ⟨stretches, hcuts⟩ := cuts_of_tokensFrom Pos.isAfter_first h
  rw [hcuts.tokens_eq]
  refine .of_pairwise hcuts.tiles.pairwise (fun t ht => ?_) fun _ _ => Nat.zero_le _
  obtain ⟨front, text, back, -, hspells, hstart, hstop⟩ := hcuts.tiles.exists_text ht
  obtain ⟨c, cs, rfl⟩ := List.exists_cons_of_ne_nil hspells.ne_nil
  rw [hstart.byte_add hstop, utf8ByteSize_ofList_cons]
  have hpos := c.utf8Size_pos
  omega

/-! ## Blocks and what they are made of -/

/-- The name and the expression of an attribute stand between two bytes of a file. -/
structure Attribute.Between (a : Attribute) (file : String) (lo hi : Nat) : Prop where
  name : a.nameRange.Between file lo hi
  expr : a.expr.range.Between file lo hi

theorem Attribute.Between.mono {a : Attribute} {file : String} {lo lo' hi hi' : Nat}
    (h : a.Between file lo hi) (hlo : lo' ≤ lo) (hhi : hi ≤ hi') : a.Between file lo' hi' :=
  ⟨h.name.mono hlo hhi, h.expr.mono hlo hhi⟩

/-- The head, the labels, the attributes and the inner blocks of a block stand inside the block, and
the inner blocks stand one after the other. -/
structure Block.Holds (b : Block) : Prop where
  nonempty : b.range.start.byte < b.range.stop.byte
  header : b.header.Inside b.range
  typeRange : b.typeRange.Inside b.range
  braceRange : b.braceRange.Inside b.range
  labels : ∀ r, b.labelsRange? = some r → r.Inside b.range
  attributes : ∀ a ∈ b.attributes.entries,
    a.Between b.range.file b.range.start.byte b.range.stop.byte
  blocks : ∀ c ∈ b.blocks, c.range.Inside b.range
  order : b.blocks.Pairwise fun c d => c.range.stop.byte ≤ d.range.start.byte

/-- What a block is made of stands inside it, and the same is true of every block inside it. -/
inductive Block.Nested : Block → Prop
  | intro {b : Block} (holds : b.Holds) (inner : ∀ c ∈ b.blocks, Block.Nested c) : Nested b

/-- A nested block holds what it is made of. -/
theorem Block.Nested.holds {b : Block} (h : b.Nested) : b.Holds := by
  cases h
  assumption

/-- A block inside a nested one is nested. -/
theorem Block.Nested.inner {b c : Block} (h : b.Nested) (hc : c ∈ b.blocks) : c.Nested := by
  cases h with
  | intro _ inner => exact inner c hc

/-- The attributes and the blocks of a body stand between two bytes of a file, the blocks one after
the other, and the blocks are nested. -/
structure Body.Between (body : Body) (file : String) (lo hi : Nat) : Prop where
  attributes : ∀ a ∈ body.attributes.entries, a.Between file lo hi
  blocks : ∀ b ∈ body.blocks, b.range.Between file lo hi
  nested : ∀ b ∈ body.blocks, b.Nested
  order : body.blocks.Pairwise fun c d => c.range.stop.byte ≤ d.range.start.byte

/-- The blocks of one text have places of their own, since they stand one after the other. -/
theorem Body.Between.nodup_ranges {body : Body} {file : String} {lo hi : Nat}
    (h : body.Between file lo hi) : (body.blocks.map Block.range).Nodup := by
  refine List.pairwise_map.2 (h.order.imp_of_mem fun {b c} hb _ hbefore heq => ?_)
  have hnonempty := (h.nested b hb).holds.nonempty
  rw [← heq] at hbefore
  omega

/-- A block that holds what it is made of has a range that does not end before it starts. -/
theorem Block.Holds.inside {b : Block} (h : b.Holds) : b.range.Inside b.range :=
  ⟨rfl, Nat.le_refl _, Nat.le_of_lt h.nonempty, Nat.le_refl _⟩

/-- A block has a range of labels exactly if it has labels. -/
theorem Block.labelsRange?_eq_none_iff {b : Block} : b.labelsRange? = none ↔ b.labels = [] := by
  unfold Block.labelsRange?
  cases b.labels <;> simp [List.getLast?_cons]

/-- A fault of labels is shown inside the block. -/
theorem Block.Holds.labelsOrHeader {b : Block} (h : b.Holds) :
    b.labelsOrHeader.Inside b.range := by
  unfold Block.labelsOrHeader
  cases hlabels : b.labelsRange? with
  | none => exact h.header
  | some r => exact h.labels r hlabels

/-! ## Entries in order -/

/-- The entries stand in a file, one after the other, between the bytes `lo` and `hi`. Faults stand
anywhere. -/
inductive Laid (file : String) : Nat → List Entry → Nat → Prop
  | nil {lo hi : Nat} (h : lo ≤ hi) : Laid file lo [] hi
  | declaration {lo mid hi : Nat} {a : Attribute} {es : List Entry}
    (between : a.Between file lo mid)
    (rest : Laid file mid es hi) : Laid file lo (.attribute a :: es) hi
  | block {lo mid hi : Nat} {b : Block} {es : List Entry} (between : b.range.Between file lo mid)
    (nested : b.Nested) (rest : Laid file mid es hi) : Laid file lo (.block b :: es) hi
  | fault {lo hi : Nat} {d : Diagnostic} {es : List Entry} (rest : Laid file lo es hi) :
    Laid file lo (.fault d :: es) hi

namespace Laid

variable {file : String} {lo mid hi : Nat} {es es' : List Entry}

theorem le (h : Laid file lo es hi) : lo ≤ hi := by
  induction h with
  | nil h => exact h
  | declaration between rest ih =>
    have hle :=
      Nat.le_trans between.name.start (Nat.le_trans between.name.forward between.name.stop)
    omega
  | block between nested rest ih =>
    have hle := Nat.le_trans between.start (Nat.le_trans between.forward between.stop)
    omega
  | fault rest ih => exact ih

theorem mono {lo' : Nat} (h : Laid file lo es hi) (hlo : lo' ≤ lo) : Laid file lo' es hi := by
  induction h with
  | nil h => exact .nil (Nat.le_trans hlo h)
  | declaration between rest ih => exact .declaration (between.mono hlo (Nat.le_refl _)) rest
  | block between nested rest ih => exact .block (between.mono hlo (Nat.le_refl _)) nested rest
  | fault rest ih => exact .fault (ih hlo)

theorem append (h : Laid file lo es mid) (h' : Laid file mid es' hi) :
    Laid file lo (es ++ es') hi := by
  induction h with
  | nil h => exact h'.mono h
  | declaration between rest ih => exact .declaration between (ih h')
  | block between nested rest ih => exact .block between nested (ih h')
  | fault rest ih => exact .fault (ih h')

/-- Faults are laid anywhere. -/
theorem faults (h : lo ≤ hi) (ds : List Diagnostic) : Laid file lo (ds.map .fault) hi := by
  induction ds with
  | nil => exact .nil h
  | cons d ds ih => exact .fault ih

/-- The attributes that are collected from entries stand where the entries do, if those that were
collected before them stand there too. -/
theorem attributes_collect {base : Nat} (h : Laid file lo es hi) {table : AttributeTable}
    (hbase : base ≤ lo) (htable : ∀ a ∈ table.entries, a.Between file base lo) :
    ∀ a ∈ (collect table es).1.attributes.entries, a.Between file base hi := by
  induction h generalizing table with
  | nil h => exact fun a ha => (htable a ha).mono (Nat.le_refl _) h
  | @declaration lo mid hi own es between rest ih =>
    have hmid : lo ≤ mid :=
      Nat.le_trans between.name.start (Nat.le_trans between.name.forward between.name.stop)
    have hkept : ∀ a ∈ table.entries, a.Between file base mid :=
      fun a ha => (htable a ha).mono (Nat.le_refl _) hmid
    unfold collect
    split
    · exact ih (Nat.le_trans hbase hmid) hkept
    · rename_i hnew
      refine ih (Nat.le_trans hbase hmid) fun a ha => ?_
      rw [AttributeTable.entries_add_of_not_mem (AttributeTable.find?_eq_none_iff.1 hnew),
        List.mem_append, List.mem_singleton] at ha
      rcases ha with ha | rfl
      · exact hkept a ha
      · exact between.mono hbase (Nat.le_refl _)
  | block between nested rest ih =>
    have hmid := Nat.le_trans between.start (Nat.le_trans between.forward between.stop)
    exact ih (Nat.le_trans hbase hmid) fun a ha => (htable a ha).mono (Nat.le_refl _) hmid
  | fault rest ih => exact ih hbase htable

/-- The blocks that are collected from entries are nested and stand one after the other. -/
theorem blocks_collect (h : Laid file lo es hi) (table : AttributeTable) :
    (∀ b ∈ (collect table es).1.blocks, b.range.Between file lo hi ∧ b.Nested) ∧
      (collect table es).1.blocks.Pairwise fun c d => c.range.stop.byte ≤ d.range.start.byte := by
  induction h generalizing table with
  | nil h => exact ⟨by simp [collect], .nil⟩
  -- an attribute in front of the blocks only moves the lower bound
  | declaration between rest ih =>
    have hmid :=
      Nat.le_trans between.name.start (Nat.le_trans between.name.forward between.name.stop)
    have hmore : ∀ table', _ := fun table' =>
      (ih table').imp_left fun hall b hb =>
        And.imp_left (fun hbetween => SourceRange.Between.mono hbetween hmid (Nat.le_refl _))
          (hall b hb)
    unfold collect
    split
    · exact hmore table
    · exact hmore _
  | @block lo mid hi own es between nested rest ih =>
    have hmid := Nat.le_trans between.start (Nat.le_trans between.forward between.stop)
    obtain ⟨hall, hpairs⟩ := ih table
    refine ⟨fun b hb => ?_, List.pairwise_cons.2 ⟨fun b hb => ?_, hpairs⟩⟩
    · rcases List.mem_cons.1 hb with rfl | hb
      · exact ⟨between.mono (Nat.le_refl _) rest.le, nested⟩
      · exact ⟨(hall b hb).1.mono hmid (Nat.le_refl _), (hall b hb).2⟩
    · exact Nat.le_trans between.stop (hall b hb).1.start
  | fault rest ih => exact ih table

/-- The body that is collected from entries stands where they do. -/
theorem between_collect (h : Laid file lo es hi) : (collect .empty es).1.Between file lo hi where
  attributes := h.attributes_collect (Nat.le_refl _) (fun a ha => by cases ha)
  blocks b hb := ((h.blocks_collect .empty).1 b hb).1
  nested b hb := ((h.blocks_collect .empty).1 b hb).2
  order := (h.blocks_collect .empty).2

end Laid

/-! ## Readings lay out entries -/

/-- The labels of a head stand, one after the other, before its opening brace. -/
theorem Labels.between {o : Origin} {ls inner : List Located} {labels : List Label}
    {opening : Located} {lo : Nat} (h : List.Forall₂ (Labels o) ls labels)
    (hts : InOrder lo (ls ++ opening :: inner)) :
    (∀ l ∈ labels, l.range.Between o.file lo opening.start.byte) ∧
      labels.Pairwise (fun l m => l.range.stop.byte ≤ m.range.start.byte) ∧
      lo ≤ opening.start.byte ∧ opening.start.byte < opening.stop.byte ∧
      InOrder opening.stop.byte inner := by
  induction h generalizing lo with
  | nil =>
    obtain ⟨hopening, hopens, hbehind⟩ := hts
    exact ⟨by simp, .nil, hopening, hopens, hbehind⟩
  | @cons t l ts labels hl _ ih =>
    obtain ⟨hstart, hlt, hrest⟩ := hts
    obtain ⟨hall, hpairs, hopening, hopens, hbehind⟩ := ih hrest
    have hrange : l.range = t.range o.file := hl.2
    refine ⟨List.forall_mem_cons.2 ⟨?_, fun m hm => ?_⟩,
      List.pairwise_cons.2 ⟨fun m hm => ?_, hpairs⟩, by omega, hopens, hbehind⟩
    · rw [hrange]
      exact ⟨rfl, hstart, Nat.le_of_lt hlt, hopening⟩
    · exact (hall m hm).mono (by omega) (Nat.le_refl _)
    · rw [hrange]
      exact (hall m hm).start

/-- The labels of a block stand between the first of them and the last. -/
theorem between_labelsRange? {b : Block} {file : String} {lo hi : Nat}
    (hlabels : ∀ l ∈ b.labels, l.range.Between file lo hi)
    (hpairs : b.labels.Pairwise fun l m => l.range.stop.byte ≤ m.range.start.byte) {r : SourceRange}
    (h : b.labelsRange? = some r) : r.Between file lo hi := by
  unfold Block.labelsRange? at h
  cases hb : b.labels with
  | nil => simp [hb] at h
  | cons first more =>
    rw [hb] at hlabels hpairs
    have hfirst := hlabels first List.mem_cons_self
    obtain ⟨hafter, -⟩ := List.pairwise_cons.1 hpairs
    have hlast : (first :: more).getLast? = some (more.getLast?.getD first) := List.getLast?_cons
    simp only [hb, List.head?_cons, hlast, Option.some.injEq] at h
    subst h
    cases hmore : more.getLast? with
    | none => exact hfirst.through hfirst hfirst.forward
    | some last =>
      have hmem := List.mem_of_getLast? hmore
      have hlate := hafter last hmem
      have hlast := hlabels last (List.mem_cons_of_mem first hmem)
      refine hfirst.through hlast ?_
      have h₁ := hfirst.forward
      have h₂ := hlast.forward
      simp only [Option.getD_some]
      omega

/-- A block that is read from its type to its closing brace is nested, when its labels stand before
the opening brace and its body between the braces. -/
theorem nested_block {o : Origin} {t opening closing : Located} (blockType : String)
    {labels : List Label} {body : Body} (htype : t.start.byte < t.stop.byte)
    (hlabels : ∀ l ∈ labels, l.range.Between o.file t.stop.byte opening.start.byte)
    (hpairs : labels.Pairwise fun l m => l.range.stop.byte ≤ m.range.start.byte)
    (hopening : t.stop.byte ≤ opening.start.byte) (hopens : opening.start.byte < opening.stop.byte)
    (hbody : body.Between o.file opening.stop.byte closing.start.byte)
    (hclosing : opening.stop.byte ≤ closing.start.byte)
    (hcloses : closing.start.byte < closing.stop.byte) :
    (o.block t blockType labels opening closing body).Nested := by
  have hlo : t.start.byte ≤ opening.stop.byte := by omega
  have hhi : closing.start.byte ≤ closing.stop.byte := by omega
  -- everything lies between the type and the closing brace; omega orders the bytes
  refine .intro ?_ hbody.nested
  constructor
  · show t.start.byte < closing.stop.byte
    omega
  · exact ⟨rfl, Nat.le_refl _, hlo, show opening.stop.byte ≤ closing.stop.byte by omega⟩
  · exact ⟨rfl, Nat.le_refl _, Nat.le_of_lt htype, show t.stop.byte ≤ closing.stop.byte by omega⟩
  · exact ⟨rfl, show t.start.byte ≤ opening.start.byte by omega, Nat.le_of_lt hopens,
      show opening.stop.byte ≤ closing.stop.byte by omega⟩
  · intro r hr
    have hbetween := between_labelsRange?
      (b := o.block t blockType labels opening closing body) hlabels hpairs hr
    exact hbetween.mono (Nat.le_of_lt htype)
      (show opening.start.byte ≤ closing.stop.byte by omega)
  · exact fun a ha => (hbody.attributes a ha).mono hlo hhi
  · exact fun c hc => (hbody.blocks c hc).mono hlo hhi
  · exact hbody.order

/-- What is read from tokens in order is laid out before those that are left. -/
theorem Reads.laid {o : Origin} {ts rest : List Located} {es : List Entry}
    (h : Reads o ts es rest) {lo : Nat} (hts : InOrder lo ts) :
    ∃ mid, Laid o.file lo es mid ∧ InOrder mid rest := by
  induction h generalizing lo with
  | faults hrest => exact ⟨lo, .faults (Nat.le_refl _) _, hts.of_suffix hrest⟩
  | @declaration t sign first more after rest name _ _ _ hend =>
    obtain ⟨hname, hnameLt, hsign, hsignLt, hrest⟩ := hts
    obtain ⟨hfirst, hlast, hbehind⟩ := hrest.behind
    refine ⟨_, .declaration ⟨⟨rfl, hname, Nat.le_of_lt hnameLt, ?_⟩, ⟨rfl, ?_, ?_, Nat.le_refl _⟩⟩
      (.nil (Nat.le_refl _)), hbehind.of_suffix hend.suffix⟩
    all_goals simp only [Origin.attribute, Located.range, Origin.expr]; omega
  -- the body is laid out between the braces by induction, and the block around it
  | @block t opening closing ls inner after rest blockType labels es _ hlabels _ _ _ hend ih =>
    obtain ⟨hstart, htype, hts⟩ := hts
    obtain ⟨hlabels, hpairs, hopening, hopens, hbehind⟩ := Labels.between hlabels hts
    obtain ⟨mid, hlaid, hclosing, hcloses, hafter⟩ := ih hbehind
    have hinside := hlaid.append (.nil hclosing)
    rw [List.append_nil] at hinside
    have hnested := nested_block blockType htype hlabels hpairs hopening hopens
      hinside.between_collect hinside.le hcloses
    have hforward := hnested.holds.inside.forward
    exact ⟨closing.stop.byte, .block ⟨rfl, hstart, hforward, Nat.le_refl _⟩ hnested
      (.nil (Nat.le_refl _)), hafter.of_suffix hend.suffix⟩
  | append _ _ ih ih' =>
    obtain ⟨mid, hlaid, hmid⟩ := ih hts
    obtain ⟨hi, hlaid', hrest⟩ := ih' hmid
    exact ⟨hi, hlaid.append hlaid', hrest⟩

/-! ## Texts -/

/-- The attributes and blocks of a text stand in it, the blocks one after the other and nested. -/
theorem Body.between_of_parse {file source : String} {body : Body}
    (h : Body.parse file source = .ok body) : ∃ hi, body.Between file 0 hi := by
  unfold Body.parse at h
  split at h
  · cases h
  · rename_i stream hstream
    dsimp only at h
    split at h
    · obtain rfl := Except.ok.inj h
      obtain ⟨hi, hlaid, -⟩ := (reads_entries ⟨file, source.toList, stream.stop⟩ false _).laid
        (inOrder_of_tokens hstream)
      exact ⟨hi, hlaid.between_collect⟩
    · cases h

/-- The blocks of a file stand in it, one after the other and nested. -/
theorem SourceFile.between_of_parse {path : Path} {source : String} {f : SourceFile}
    (h : SourceFile.parse path source = .ok f) : ∃ hi, f.body.Between path.text 0 hi :=
  Body.between_of_parse (SourceFile.parse_eq_ok_iff.1 h).1

/-- A block is among the blocks `bs` or, at any depth, inside one of them. -/
inductive Block.Among (bs : List Block) : Block → Prop
  | top {b : Block} (h : b ∈ bs) : Among bs b
  | inner {b c : Block} (h : Among bs b) (hc : c ∈ b.blocks) : Among bs c

/-- A block at any depth among nested blocks is nested. -/
theorem Block.Among.nested {bs : List Block} {b : Block} (h : b.Among bs)
    (hbs : ∀ c ∈ bs, c.Nested) : b.Nested := by
  induction h with
  | top h => exact hbs _ h
  | inner _ hc ih => exact ih.inner hc

/-- The block stands in a text that can be read, at the top or inside another block. -/
def Block.Parsed (b : Block) : Prop :=
  ∃ file source body, Body.parse file source = .ok body ∧ b.Among body.blocks

/-- A block of a text that can be read is nested. -/
theorem Block.Parsed.nested {b : Block} (h : b.Parsed) : b.Nested := by
  obtain ⟨file, source, body, hparse, hamong⟩ := h
  obtain ⟨hi, hbetween⟩ := Body.between_of_parse hparse
  exact hamong.nested hbetween.nested

end Syntax

end ScopeConfig
