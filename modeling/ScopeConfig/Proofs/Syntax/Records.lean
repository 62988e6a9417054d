import ScopeConfig.Proofs.Syntax.Marked
import ScopeConfig.Proofs.Syntax.Places

/-!
# Records and the source they were read from

The records of a text say where they were read: the ranges of an attribute mark its name and its
expression, those of a block its type, its labels and its braces, and the attributes and blocks of
one body stand apart from each other, between the braces of the block around them. All of it comes
from the tokens, which stand in order and whose ranges mark their texts, by induction on the reading
that made the records.

## Main statements

* `Body.Recorded`: what the records of a body say of the source.
* `Reads.recorded`: it is true of what is read from the tokens of a text.
* `Body.recorded_of_parse`: it is true of every body in a text, at any depth.
-/

namespace ScopeConfig

namespace SourceRange

/-- One range stops before another starts, or where it starts. -/
def Before (r s : SourceRange) : Prop :=
  r.stop.byte ≤ s.start.byte

/-- Two ranges have nothing in common. -/
def Apart (r s : SourceRange) : Prop :=
  r.Before s ∨ s.Before r

end SourceRange

namespace Syntax

/-! ## What records say of the source -/

/-- The ranges of an attribute mark its name and, further on, its expression, and it goes from the
one to the other. -/
structure Attribute.Recorded (a : Attribute) (file : String) (source : List Char) : Prop where
  name : a.nameRange.Marks file source a.name.toList
  expr : a.expr.range.Marks file source a.expr.text.toList
  order : a.nameRange.stop.byte < a.expr.range.start.byte
  range : a.range = a.nameRange.through a.expr.range

/-- The range of a label marks a text that is read as the label, a word or a string that is no
template. -/
def Label.Recorded (l : Label) (file : String) (source : List Char) : Prop :=
  ∃ text, l.range.Marks file source text ∧
    (Spells (.word l.text) text ∨ Spells (.str l.text false) text)

/-- What stands between the braces of a block. -/
def Block.body (b : Block) : Body :=
  ⟨b.attributes, b.blocks⟩

/-- The ranges of the attributes and the blocks of a body. -/
def Body.itemRanges (body : Body) : List SourceRange :=
  body.attributes.entries.map Attribute.range ++ body.blocks.map Block.range

/-- The ranges of a block mark its type, its labels and its opening brace, which stand one after the
other. The block goes from its type to a closing brace, and what stands in it stands between the
braces, so strictly inside the block. -/
structure Block.Recorded (b : Block) (file : String) (source : List Char) : Prop where
  blockType : b.typeRange.Marks file source b.blockType.toList
  labels : ∀ l ∈ b.labels, l.Recorded file source
  opening : b.braceRange.Marks file source ['\x7b']
  head : (b.typeRange :: (b.labels.map Label.range ++ [b.braceRange])).Pairwise SourceRange.Before
  closing : ∃ closing : SourceRange, closing.Marks file source ['\x7d'] ∧
    b.range = b.typeRange.through closing ∧ b.braceRange.Before closing ∧
    ∀ r ∈ b.body.itemRanges, b.braceRange.Before r ∧ r.Before closing
  inside : ∀ r ∈ b.body.itemRanges,
    b.range.start.byte < r.start.byte ∧ r.stop.byte < b.range.stop.byte

/-- The attributes and the blocks of a body say where they were read. No two of them have anything
in common, and the attributes stand one after the other, and so do the blocks. -/
structure Body.Recorded (body : Body) (file : String) (source : List Char) : Prop where
  attributes : ∀ a ∈ body.attributes.entries, a.Recorded file source
  blocks : ∀ b ∈ body.blocks, b.Recorded file source
  nonempty : ∀ r ∈ body.itemRanges, r.start.byte < r.stop.byte
  apart : body.itemRanges.Pairwise SourceRange.Apart
  attributes_order :
    body.attributes.entries.Pairwise fun a a' => a.range.Before a'.range
  blocks_order : body.blocks.Pairwise fun b b' => b.range.Before b'.range

/-- The second body is the first one, or that of a block in it, at any depth. -/
inductive Body.Encloses (body : Body) : Body → Prop
  | self : Encloses body body
  | inner {inner : Body} {b : Block} (h : Encloses body inner) (hb : b ∈ inner.blocks) :
    Encloses body b.body

/-- A body in another is that one, or is in one of its blocks. -/
theorem Body.Encloses.eq_or_block {body inner : Body} (h : body.Encloses inner) :
    inner = body ∨ ∃ b ∈ body.blocks, b.body.Encloses inner := by
  induction h with
  | self => exact .inl rfl
  | inner _ hb ih =>
    rcases ih with rfl | ⟨c, hc, hin⟩
    · exact .inr ⟨_, hb, .self⟩
    · exact .inr ⟨c, hc, .inner hin hb⟩

/-! ## Entries -/

namespace Entry

/-- The range of an attribute or a block. -/
def range? : Entry → Option SourceRange
  | .attribute a => some a.range
  | .block b => some b.range
  | .fault _ => none

/-- An entry says where it was read, and so does everything in it. -/
def Recorded (file : String) (source : List Char) : Entry → Prop
  | .attribute a => a.Recorded file source
  | .block b => b.Recorded file source ∧ ∀ inner, b.body.Encloses inner → inner.Recorded file source
  | .fault _ => True

/-- An entry stands before another, if both of them stand somewhere. -/
def Before (e e' : Entry) : Prop :=
  ∀ r, e.range? = some r → ∀ s, e'.range? = some s → r.Before s

end Entry

/-- Entries stand one after the other between two bytes of the source. -/
structure Spread (lo : Nat) (es : List Entry) (hi : Nat) : Prop where
  le : lo ≤ hi
  bounds : ∀ e ∈ es, ∀ r, e.range? = some r →
    lo ≤ r.start.byte ∧ r.start.byte < r.stop.byte ∧ r.stop.byte ≤ hi
  order : es.Pairwise Entry.Before

namespace Spread

variable {lo mid hi : Nat} {es es' : List Entry}

/-- Faults take no place. -/
theorem faults (lo : Nat) (ds : List Diagnostic) : Spread lo (ds.map .fault) lo where
  le := Nat.le_refl lo
  bounds e he r hr := by
    obtain ⟨d, -, rfl⟩ := List.mem_map.1 he
    cases hr
  order := by
    refine List.pairwise_map.2 (List.pairwise_of_forall fun d d' r hr => ?_)
    cases hr

/-- An entry whose range is not empty is spread over that range. -/
theorem singleton {e : Entry} {r : SourceRange} (hr : e.range? = some r)
    (hlo : lo ≤ r.start.byte) (hlt : r.start.byte < r.stop.byte) :
    Spread lo [e] r.stop.byte where
  le := by omega
  bounds e' he' r' hr' := by
    obtain rfl := List.mem_singleton.1 he'
    obtain rfl := Option.some.inj (hr.symm.trans hr')
    exact ⟨hlo, hlt, Nat.le_refl _⟩
  order := List.pairwise_singleton _ _

theorem append (h : Spread lo es mid) (h' : Spread mid es' hi) : Spread lo (es ++ es') hi where
  le := Nat.le_trans h.le h'.le
  bounds e he r hr := by
    have hle := h.le
    have hle' := h'.le
    rcases List.mem_append.1 he with he | he
    · have hbounds := h.bounds e he r hr
      omega
    · have hbounds := h'.bounds e he r hr
      omega
  order := by
    refine List.pairwise_append.2 ⟨h.order, h'.order, fun e he e' he' r hr s hs => ?_⟩
    obtain ⟨-, -, hstop⟩ := h.bounds e he r hr
    obtain ⟨hstart, -, -⟩ := h'.bounds e' he' s hs
    exact Nat.le_trans hstop hstart

end Spread

/-- Of two entries that follow each other, one stands before the other. -/
theorem before_or_before {es : List Entry} (h : es.Pairwise Entry.Before) {e e' : Entry}
    (he : e ∈ es) (he' : e' ∈ es) (hne : e ≠ e') : e.Before e' ∨ e'.Before e := by
  induction h with
  | nil => cases he
  | cons hfirst _ ih =>
    rcases List.mem_cons.1 he with rfl | hin
    · exact .inl (hfirst e' ((List.mem_cons.1 he').resolve_left hne.symm))
    · rcases List.mem_cons.1 he' with rfl | hin'
      · exact .inr (hfirst e hin)
      · exact ih hin hin'

/-! ## Collecting entries -/

/-- The attributes that are collected are among those of the entries, in their order, and come after
those of the table; the blocks are those of the entries. -/
theorem exists_sublist_collect (table : AttributeTable) (es : List Entry) :
    (∃ as, (collect table es).1.attributes.entries = table.entries ++ as ∧
      (as.map Entry.attribute).Sublist es) ∧
    ((collect table es).1.blocks.map Entry.block).Sublist es := by
  induction es generalizing table with
  | nil => exact ⟨⟨[], by simp [collect], .slnil⟩, .slnil⟩
  | cons e es ih =>
    -- an entry that adds no attribute
    have hpass : ∀ {table'}, table'.entries = table.entries →
        (∃ as, (collect table' es).1.attributes.entries = table.entries ++ as ∧
          (as.map Entry.attribute).Sublist (e :: es)) := by
      intro table' htable
      obtain ⟨⟨as, has, hsub⟩, -⟩ := ih table'
      exact ⟨as, htable ▸ has, hsub.cons e⟩
    rcases e with a | b | d
    · rw [collect]
      split
      · exact ⟨hpass rfl, (ih table).2.cons _⟩
      · rename_i hnew
        have hentries := AttributeTable.entries_add_of_not_mem
          (AttributeTable.find?_eq_none_iff.1 hnew)
        obtain ⟨⟨as, has, hsub⟩, hblocks⟩ := ih (table.add a)
        refine ⟨⟨a :: as, ?_, hsub.cons_cons _⟩, hblocks.cons _⟩
        rw [has, hentries, List.append_assoc, List.singleton_append]
    · exact ⟨hpass rfl, (ih table).2.cons_cons _⟩
    · exact ⟨hpass rfl, (ih table).2.cons _⟩

/-- The ranges of a body that is collected from entries are ranges of the entries. -/
theorem exists_entry_of_mem_itemRanges {es : List Entry} {r : SourceRange}
    (h : r ∈ (collect .empty es).1.itemRanges) : ∃ e ∈ es, e.range? = some r := by
  obtain ⟨⟨as, has, hattributes⟩, hblocks⟩ := exists_sublist_collect .empty es
  rw [Body.itemRanges, has] at h
  rcases List.mem_append.1 h with h | h
  · obtain ⟨a, ha, rfl⟩ := List.mem_map.1 h
    exact ⟨.attribute a, hattributes.mem (List.mem_map_of_mem ha), rfl⟩
  · obtain ⟨b, hb, rfl⟩ := List.mem_map.1 h
    exact ⟨.block b, hblocks.mem (List.mem_map_of_mem hb), rfl⟩

/-- The body that is collected from entries says where it was read, if they do. -/
theorem recorded_collect {file : String} {source : List Char} {lo hi : Nat} {es : List Entry}
    (hspread : Spread lo es hi) (hes : ∀ e ∈ es, e.Recorded file source) :
    (collect .empty es).1.Recorded file source := by
  obtain ⟨⟨as, has, hattributes⟩, hblocks⟩ := exists_sublist_collect .empty es
  have has : (collect .empty es).1.attributes.entries = as := has
  have horder : as.Pairwise fun a a' => a.range.Before a'.range :=
    (List.pairwise_map.1 (hspread.order.sublist hattributes)).imp fun h => h _ rfl _ rfl
  have horder' : (collect .empty es).1.blocks.Pairwise fun b b' => b.range.Before b'.range :=
    (List.pairwise_map.1 (hspread.order.sublist hblocks)).imp fun h => h _ rfl _ rfl
  constructor
  · intro a ha
    rw [has] at ha
    exact hes _ (hattributes.mem (List.mem_map_of_mem ha))
  · exact fun b hb => (hes _ (hblocks.mem (List.mem_map_of_mem hb))).1
  · intro r hr
    obtain ⟨e, he, her⟩ := exists_entry_of_mem_itemRanges hr
    exact (hspread.bounds e he r her).2.1
  · -- an attribute and a block are two of the entries, so one of them stands before the other
    rw [Body.itemRanges, has, List.pairwise_append]
    refine ⟨List.pairwise_map.2 (horder.imp .inl), List.pairwise_map.2 (horder'.imp .inl), ?_⟩
    intro r hr s hs
    obtain ⟨a, ha, rfl⟩ := List.mem_map.1 hr
    obtain ⟨b, hb, rfl⟩ := List.mem_map.1 hs
    have hone := before_or_before hspread.order
      (hattributes.mem (List.mem_map_of_mem ha)) (hblocks.mem (List.mem_map_of_mem hb))
      Entry.noConfusion
    exact hone.imp (fun h => h _ rfl _ rfl) fun h => h _ rfl _ rfl
  · rwa [has]
  · exact horder'

/-- So do the bodies in it. -/
theorem recorded_of_encloses {file : String} {source : List Char} {lo hi : Nat} {es : List Entry}
    (hspread : Spread lo es hi) (hes : ∀ e ∈ es, e.Recorded file source) {inner : Body}
    (h : (collect .empty es).1.Encloses inner) : inner.Recorded file source := by
  rcases h.eq_or_block with rfl | ⟨b, hb, hin⟩
  · exact recorded_collect hspread hes
  · have hmem := (exists_sublist_collect .empty es).2.mem (List.mem_map_of_mem hb)
    exact (hes _ hmem).2 inner hin

/-! ## Tokens in a text -/

/-- Tokens in order begin behind the byte, and each ends before the next one starts. -/
theorem InOrder.pairwise {lo : Nat} {ts : List Located} (h : InOrder lo ts) :
    (∀ t ∈ ts, lo ≤ t.start.byte) ∧ ts.Pairwise fun t u => t.stop.byte ≤ u.start.byte := by
  induction ts generalizing lo with
  | nil => exact ⟨by simp, .nil⟩
  | cons t ts ih =>
    obtain ⟨hstart, hlt, hrest⟩ := h
    obtain ⟨hbound, hpairs⟩ := ih hrest
    refine ⟨List.forall_mem_cons.2 ⟨hstart, fun u hu => ?_⟩, .cons hbound hpairs⟩
    have hu := hbound u hu
    omega

/-- The tokens follow each other from the byte `lo` on, and their ranges mark their texts. -/
structure Standing (o : Origin) (lo : Nat) (ts : List Located) : Prop where
  order : InOrder lo ts
  marks : ∀ t ∈ ts, ∃ text, Spells t.token text ∧ (t.range o.file).Marks o.file o.source text

namespace Standing

variable {o : Origin} {lo : Nat} {ts : List Located} {t : Located}

theorem of_suffix (h : Standing o lo ts) {ts' : List Located} (hsuffix : ts' <:+ ts) :
    Standing o lo ts' :=
  ⟨h.order.of_suffix hsuffix, fun t ht => h.marks t (hsuffix.mem ht)⟩

/-- Behind some tokens the others stand from where the last of them stops. -/
theorem behind {first : Located} {more rest : List Located}
    (h : Standing o lo (first :: (more ++ rest))) :
    Standing o (more.getLast?.getD first).stop.byte rest :=
  ⟨h.order.behind.2.2,
    fun t ht => h.marks t (List.mem_cons_of_mem _ (List.mem_append_right more ht))⟩

/-- The entries of a block stand behind its opening brace. -/
theorem behind_head {opening : Located} {ls inner : List Located}
    (h : Standing o lo (t :: (ls ++ opening :: inner))) :
    t.start.byte < opening.stop.byte ∧ Standing o opening.stop.byte inner := by
  have hsplit : ls ++ opening :: inner = (ls ++ [opening]) ++ inner := by simp
  rw [hsplit] at h
  have hlast : (ls ++ [opening]).getLast?.getD t = opening := by simp
  have horder := h.order.behind
  have hbehind := h.behind
  rw [hlast] at horder hbehind
  exact ⟨horder.2.1, hbehind⟩

/-- A word is marked by its range. -/
theorem marks_word (h : Standing o lo ts) (ht : t ∈ ts) {name : String}
    (hname : t.token = .word name) : (t.range o.file).Marks o.file o.source name.toList := by
  obtain ⟨text, hspells, hmarks⟩ := h.marks t ht
  rw [← hspells.word_or_number (.inl hname), String.toList_ofList]
  exact hmarks

/-- A symbol is marked by its range. -/
theorem marks_symbol (h : Standing o lo ts) (ht : t ∈ ts) {s : Symbol}
    (hs : t.token = .symbol s) : (t.range o.file).Marks o.file o.source s.spelling := by
  obtain ⟨text, hspells, hmarks⟩ := h.marks t ht
  rw [hs] at hspells
  cases hspells
  exact hmarks

/-- A label that is read from a standing token is recorded. -/
theorem recorded_label (h : Standing o lo ts) (ht : t ∈ ts) {l : Label} (hl : Labels o t l) :
    l.Recorded o.file o.source := by
  obtain ⟨text, hspells, hmarks⟩ := h.marks t ht
  obtain ⟨hlabel, hrange⟩ := hl
  refine ⟨text, hrange ▸ hmarks, ?_⟩
  rcases hlabel with hword | hstr
  · exact .inl (hword ▸ hspells)
  · exact .inr (hstr ▸ hspells)

/-- The range of an expression marks its text. -/
theorem marks_expr {first : Located} {more rest : List Located}
    (h : Standing o lo (first :: (more ++ rest))) :
    (o.expr first more).range.Marks o.file o.source (o.expr first more).text.toList := by
  have hlast : more.getLast?.getD first ∈ first :: (more ++ rest) := by
    cases hmore : more.getLast? with
    | none => exact List.mem_cons_self
    | some last =>
      exact List.mem_cons_of_mem _ (List.mem_append_left _ (List.mem_of_getLast? hmore))
  obtain ⟨_, _, hfirst⟩ := h.marks first List.mem_cons_self
  obtain ⟨_, _, hmarks⟩ := h.marks _ hlast
  obtain ⟨-, hforward, -⟩ := h.order.behind
  obtain ⟨whole, hwhole⟩ := hfirst.through hmarks (Nat.le_of_lt hforward)
  have htext : (o.expr first more).text = String.ofList whole := hwhole.slice_eq
  rw [htext, String.toList_ofList]
  exact hwhole

end Standing

/-! ## Readings -/

/-- Labels have the ranges of their tokens. -/
theorem Labels.ranges_eq {o : Origin} {ls : List Located} {labels : List Label}
    (h : List.Forall₂ (Labels o) ls labels) :
    labels.map Label.range = ls.map (Located.range · o.file) := by
  induction h with
  | nil => rfl
  | cons hl _ ih => rw [List.map_cons, List.map_cons, hl.2, ih]

/-- Every label has its token. -/
theorem Labels.exists_of_mem {o : Origin} {ls : List Located} {labels : List Label}
    (h : List.Forall₂ (Labels o) ls labels) {l : Label} (hl : l ∈ labels) :
    ∃ t ∈ ls, Labels o t l := by
  induction h with
  | nil => cases hl
  | cons hfirst _ ih =>
    rcases List.mem_cons.1 hl with rfl | hl
    · exact ⟨_, List.mem_cons_self, hfirst⟩
    · obtain ⟨t, ht, hlabel⟩ := ih hl
      exact ⟨t, List.mem_cons_of_mem _ ht, hlabel⟩

/-- The attribute that is read from a word and an expression says where it was read. -/
theorem Standing.recorded_attribute {o : Origin} {lo : Nat} {t sign first : Located}
    {more after : List Located} {name : String} (ht : t.token = .word name)
    (h : Standing o lo (t :: sign :: first :: (more ++ after))) :
    (o.attribute t name first more).Recorded o.file o.source where
  name := h.marks_word List.mem_cons_self ht
  expr := (h.of_suffix (List.suffix_append [t, sign] _)).marks_expr
  order := by
    obtain ⟨-, -, hsign, hlt, hfirst, -⟩ := h.order
    exact Nat.lt_of_le_of_lt hsign (Nat.lt_of_lt_of_le hlt hfirst)
  range := rfl

/-- The head of a block stands on its type, its labels and its opening brace. -/
theorem Standing.pairwise_head {o : Origin} {lo : Nat} {t opening : Located}
    {ls inner : List Located} {labels : List Label} (hlabels : List.Forall₂ (Labels o) ls labels)
    (h : Standing o lo (t :: (ls ++ opening :: inner))) :
    (t.range o.file :: (labels.map Label.range ++ [opening.range o.file])).Pairwise
      SourceRange.Before := by
  have hhead : (t :: (ls ++ [opening])).Sublist (t :: (ls ++ opening :: inner)) :=
    ((List.Sublist.refl ls).append ((List.nil_sublist inner).cons_cons opening)).cons_cons t
  have hranges : t.range o.file :: (labels.map Label.range ++ [opening.range o.file]) =
      (t :: (ls ++ [opening])).map (Located.range · o.file) := by
    rw [Labels.ranges_eq hlabels, List.map_cons, List.map_append, List.map_singleton]
  rw [hranges, List.pairwise_map]
  exact h.order.pairwise.2.sublist hhead

/-- The block that is read from a head and entries says where it was read, if the entries do. -/
theorem Standing.recorded_block {o : Origin} {lo hi : Nat} {t opening closing : Located}
    {ls inner after : List Located} {blockType : String} {labels : List Label} {es : List Entry}
    (ht : t.token = .word blockType) (hlabels : List.Forall₂ (Labels o) ls labels)
    (hopening : opening.token = .symbol .lbrace) (hclosing : closing.token = .symbol .rbrace)
    (h : Standing o lo (t :: (ls ++ opening :: inner)))
    (hleft : Standing o hi (closing :: after)) (hspread : Spread opening.stop.byte es hi) :
    (o.block t blockType labels opening closing (collect .empty es).1).Recorded o.file
      o.source := by
  have hmem : opening ∈ t :: (ls ++ opening :: inner) := by simp
  -- the entries are spread between the braces, and the ranges of the body are theirs
  have hinside : ∀ r ∈ (collect .empty es).1.itemRanges,
      opening.stop.byte ≤ r.start.byte ∧ r.stop.byte ≤ hi := by
    intro r hr
    obtain ⟨e, he, her⟩ := exists_entry_of_mem_itemRanges hr
    obtain ⟨hstart, -, hstop⟩ := hspread.bounds e he r her
    exact ⟨hstart, hstop⟩
  have hhead := h.behind_head.1
  obtain ⟨hhi, hlt, -⟩ := hleft.order
  constructor
  · exact h.marks_word List.mem_cons_self ht
  · intro l hl
    obtain ⟨u, hu, hlabel⟩ := Labels.exists_of_mem hlabels hl
    exact h.recorded_label (List.mem_cons_of_mem _ (List.mem_append_left _ hu)) hlabel
  · exact h.marks_symbol hmem hopening
  · exact h.pairwise_head hlabels
  · refine ⟨closing.range o.file, hleft.marks_symbol List.mem_cons_self hclosing, rfl, ?_, ?_⟩
    · exact Nat.le_trans hspread.le hhi
    · exact fun r hr => ⟨(hinside r hr).1, Nat.le_trans (hinside r hr).2 hhi⟩
  · intro r hr
    obtain ⟨hstart, hstop⟩ := hinside r hr
    constructor
    · change t.start.byte < r.start.byte
      omega
    · change r.stop.byte < closing.stop.byte
      omega

/-- What is read from the tokens of a text says where it was read, and stands between the place
where the tokens start and the place where those that are left start. -/
theorem Reads.recorded {o : Origin} {ts rest : List Located} {es : List Entry}
    (h : Reads o ts es rest) {lo : Nat} (hts : Standing o lo ts) :
    ∃ hi, Standing o hi rest ∧ Spread lo es hi ∧ ∀ e ∈ es, e.Recorded o.file o.source := by
  induction h generalizing lo with
  | @faults ts rest ds hrest =>
    refine ⟨lo, hts.of_suffix hrest, .faults lo ds, fun e he => ?_⟩
    obtain ⟨d, -, rfl⟩ := List.mem_map.1 he
    trivial
  -- what stands behind an attribute begins where its last token ends
  | @declaration t sign first more after rest name ht _ _ hend =>
    have hexpr := hts.of_suffix (List.suffix_append [t, sign] _)
    have hrecorded := hts.recorded_attribute ht
    obtain ⟨hlo, htype, hsign, hlt, hfirst⟩ := hts.order
    have hbehind := hfirst.behind
    refine ⟨_, hexpr.behind.of_suffix hend.suffix,
      .singleton (r := (o.attribute t name first more).range) rfl hlo ?_, fun e he => ?_⟩
    · change t.start.byte < (more.getLast?.getD first).stop.byte
      omega
    · obtain rfl := List.mem_singleton.1 he
      exact hrecorded
  -- the inner entries are spread between the braces, so the block encloses them
  | @block t opening closing ls inner after rest blockType labels es ht hlabels hopening _ hclosing
      hend ih =>
    obtain ⟨hhead, hinner⟩ := hts.behind_head
    obtain ⟨hi, hleft, hspread, hes⟩ := ih hinner
    have hblock := hts.recorded_block ht hlabels hopening hclosing hleft hspread
    have hbehind : Standing o closing.stop.byte after :=
      ⟨hleft.order.2.2, (hleft.of_suffix (List.suffix_cons closing after)).marks⟩
    refine ⟨_, hbehind.of_suffix hend.suffix,
      .singleton (r := (t.range o.file).through (closing.range o.file)) rfl hts.order.1 ?_,
      fun e he => ?_⟩
    · obtain ⟨hhi, hlt, -⟩ := hleft.order
      have hle := hspread.le
      change t.start.byte < closing.stop.byte
      omega
    · obtain rfl := List.mem_singleton.1 he
      exact ⟨hblock, fun _ => recorded_of_encloses hspread hes⟩
  | append _ _ ih ih' =>
    obtain ⟨mid, hmid, hspread, hes⟩ := ih hts
    obtain ⟨hi, hrest, hspread', hes'⟩ := ih' hmid
    exact ⟨hi, hrest, hspread.append hspread', List.forall_mem_append.2 ⟨hes, hes'⟩⟩

/-! ## Texts -/

/-- Every body in a text that is read, at any depth, says where it was read: the ranges of its
attributes mark their names and their expressions, those of its blocks their types, their labels and
their braces, with what is in a block strictly inside it, and its attributes and its blocks are
apart from each other and in the order of the text. -/
theorem Body.recorded_of_parse {file source : String} {body inner : Body}
    (h : Body.parse file source = .ok body) (hin : body.Encloses inner) :
    inner.Recorded file source.toList := by
  cases htokens : tokens source with
  | error fault => simp [Body.parse, htokens] at h
  | ok stream =>
    obtain ⟨-, rfl⟩ := (Body.parse_eq_ok_iff htokens).1 h
    have hstanding : Standing ⟨file, source.toList, stream.stop⟩ 0 stream.tokens :=
      ⟨inOrder_of_tokens htokens, fun t ht => marks_of_mem_tokens htokens file ht⟩
    obtain ⟨hi, -, hspread, hes⟩ := (reads_entries _ false stream.tokens).recorded hstanding
    exact recorded_of_encloses hspread hes hin

/-- A block with a label, an attribute and a block inside it. -/
def nestedText : String :=
  "x \"l\"\x7b\na=1\ny\x7bb=2\x7d\n\x7d"

/-- The text is read as a block of one label with a block and an attribute inside it. -/
theorem Body.parse_nestedText :
    (Body.parse "/s/a.tm" nestedText).toOption.map (fun body => body.blocks.map fun b =>
        (b.labelTexts, b.blocks.map fun c => c.attributes.names)) =
      some [(["l"], [["b"]])] := by
  decide +kernel

/-- The records of the text, of its block and of the block inside that say where they were read. -/
theorem Body.recorded_nestedText :
    ∃ body outer inner, Body.parse "/s/a.tm" nestedText = .ok body ∧ outer ∈ body.blocks ∧
      inner ∈ outer.blocks ∧ outer.labelTexts = ["l"] ∧ inner.attributes.names = ["b"] ∧
      body.Recorded "/s/a.tm" nestedText.toList ∧
      outer.body.Recorded "/s/a.tm" nestedText.toList ∧
      inner.body.Recorded "/s/a.tm" nestedText.toList := by
  obtain ⟨body, hbody, hfields⟩ := Option.map_eq_some_iff.1 Body.parse_nestedText
  have hparse : Body.parse "/s/a.tm" nestedText = .ok body := by
    cases hread : Body.parse "/s/a.tm" nestedText with
    | error faults => simp [hread, Except.toOption] at hbody
    | ok found => simpa [hread, Except.toOption] using hbody
  obtain ⟨outer, houter, hfields⟩ := List.map_eq_singleton_iff.1 hfields
  obtain ⟨hlabels, hinner⟩ := Prod.mk.inj hfields
  obtain ⟨inner, hblocks, hnames⟩ := List.map_eq_singleton_iff.1 hinner
  have houter : outer ∈ body.blocks := houter ▸ List.mem_singleton_self outer
  have hinner : inner ∈ outer.blocks := hblocks ▸ List.mem_singleton_self inner
  have hself : body.Encloses body := .self
  exact ⟨body, outer, inner, hparse, houter, hinner, hlabels, hnames,
    Body.recorded_of_parse hparse hself, Body.recorded_of_parse hparse (hself.inner houter),
    Body.recorded_of_parse hparse ((hself.inner houter).inner hinner)⟩

end Syntax

end ScopeConfig
