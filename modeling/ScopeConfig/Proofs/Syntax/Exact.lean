import ScopeConfig.Proofs.Syntax.Grammar
import ScopeConfig.Syntax.Entry

/-!
# The parser accepts exactly its grammar

A text whose tokens can be read is a body exactly when its tokens derive items with distinct names
in every body, and the body that is read is the syntax tree of these items. In one direction, items
that derive are read as entries that show them, one after the other. In the other, entries among
which there is no fault were read from a derivation; the recovery from faults has no part in it,
since a reader that recovers has recorded a fault.

## Main statements

* `Derives.reads`: derived items are read.
* `derives_of_entries`: entries without faults were derived.
* `Body.parse_exact`: what the parser accepts, and what it makes of it.
-/

namespace ScopeConfig.Syntax

/-! ## Syntax trees as items -/

/-- An attribute as an item. -/
def Attribute.item (a : Attribute) : Item :=
  .attr a.name a.expr.tokens

mutual

/-- A block as an item. -/
def Block.item : Block → Item
  | ⟨blockType, labels, attributes, blocks, _, _, _⟩ =>
    .block blockType (labels.map Label.text)
      (attributes.entries.map Attribute.item ++ blockItems blocks)

/-- Blocks as items. -/
def blockItems : List Block → List Item
  | [] => []
  | b :: blocks => b.item :: blockItems blocks

end

/-- The items of a body: its attributes, then its blocks. -/
def Body.items (body : Body) : List Item :=
  body.attributes.entries.map Attribute.item ++ blockItems body.blocks

/-- An entry shows an item: it is the attribute, or a block with the syntax tree of the item, in
which no name is declared twice. -/
inductive Shows : Entry → Item → Prop
  | attr (a : Attribute) : Shows (.attribute a) a.item
  | block {b : Block} {items : List Item} (hdistinct : DistinctNames items)
    (hitems : Body.items ⟨b.attributes, b.blocks⟩ = arranged items) :
    Shows (.block b) (.block b.blockType b.labelTexts items)

/-! ## Collecting entries -/

/-- Entries that are collected without a fault hold none. -/
theorem not_mem_fault_of_collect {table : AttributeTable} {es : List Entry}
    (h : (collect table es).2 = []) (d : Diagnostic) : .fault d ∉ es := by
  induction es generalizing table with
  | nil => simp
  | cons e es ih =>
    rcases e with a | b | d'
    · simp only [collect] at h
      split at h
      · cases h
      · simpa using ih h
    · simpa using ih h
    · cases h

/-- Entries that show items are collected without faults when the names are distinct and new, and
then to the syntax tree of the items. -/
theorem collect_of_shows {es : List Entry} {items : List Item} (h : List.Forall₂ Shows es items)
    (table : AttributeTable) :
    ((collect table es).2 = [] ↔ (table.names ++ namesOf items).Nodup) ∧
      ((collect table es).2 = [] →
        (collect table es).1.attributes.entries.map Attribute.item =
            table.entries.map Attribute.item ++ attributesOf items ∧
          blockItems (collect table es).1.blocks = blocksOf items) := by
  induction h generalizing table with
  | nil =>
    simp [collect, AttributeTable.names, table.nodup, blockItems, namesOf, attributesOf, blocksOf]
  | @cons e i es items hshows _ ih =>
    cases hshows with
    | attr a =>
      rw [collect]
      -- a name that is there already is a fault, whatever comes after it
      cases hfind : table.find? a.name with
      | some first =>
        have htaken : a.name ∈ table.names := by
          by_contra hnew
          simp [AttributeTable.find?_eq_none_iff.2 hnew] at hfind
        have hrepeated : ¬(table.names ++ a.name :: namesOf items).Nodup := by
          rw [List.nodup_append]
          exact fun hnodup => hnodup.2.2 _ htaken _ List.mem_cons_self rfl
        simpa [Attribute.item] using hrepeated
      | none =>
        have hentries : (table.add a).entries = table.entries ++ [a] :=
          AttributeTable.entries_add_of_not_mem (AttributeTable.find?_eq_none_iff.1 hfind)
        have hrest := ih (table.add a)
        simpa [AttributeTable.names, hentries, Attribute.item] using hrest
    | @block b inner hdistinct hitems =>
      have hitem : b.item = .block b.blockType b.labelTexts (arranged inner) := by
        rw [← hitems]
        cases b
        rfl
      have hrest := ih table
      simpa [collect, blockItems, hitem] using hrest

/-- Where each entry shows an item, no name is declared twice in the body of a block. -/
theorem distinctNames_of_shows {es : List Entry} {items : List Item}
    (h : List.Forall₂ Shows es items) {blockType : String} {labels : List String}
    {body : List Item} (hmem : .block blockType labels body ∈ items) : DistinctNames body := by
  induction h with
  | nil => cases hmem
  | cons hshows _ ih =>
    rcases List.mem_cons.1 hmem with rfl | hmem
    · cases hshows
      assumption
    · exact ih hmem

/-- Entries that show items make up the syntax tree of the items, unless a name is declared
twice. -/
theorem collect_empty_of_shows {es : List Entry} {items : List Item}
    (h : List.Forall₂ Shows es items) :
    ((collect .empty es).2 = [] ↔ DistinctNames items) ∧
      ((collect .empty es).2 = [] → (collect .empty es).1.items = arranged items) := by
  obtain ⟨hnames, hbody⟩ := collect_of_shows h .empty
  refine ⟨hnames.trans ⟨fun hnodup => ⟨hnodup, fun _ _ _ => distinctNames_of_shows h⟩, ?_⟩,
    fun hok => ?_⟩
  · rintro ⟨hnodup, -⟩
    exact hnodup
  · obtain ⟨hattributes, hblocks⟩ := hbody hok
    rw [Body.items, hattributes, hblocks]
    rfl

/-! ## Single steps -/

/-- A body ends here: at the end of the text, or inside a block at a closing brace. -/
def Closes (inBlock : Bool) (ts : List Located) : Prop :=
  AtClose ts ∧ (inBlock = false → ts = [])

/-- No entries are read where a body ends. -/
theorem entries_of_closes (o : Origin) {inBlock : Bool} {ts : List Located}
    (h : Closes inBlock ts) :
    (entries o inBlock ts).1 = [] ∧ (entries o inBlock ts).2.1 = ts := by
  cases ts with
  | nil => simp [entries]
  | cons t ts =>
    obtain ⟨hclose, hinBlock⟩ := h
    have htoken : t.token = .symbol .rbrace := hclose
    cases inBlock with
    | false => simp at hinBlock
    | true => simp [entries, htoken]

/-- A newline between entries is passed over. -/
theorem entries_newline (o : Origin) (inBlock : Bool) {t : Located} (ts : List Located)
    (ht : t.token = .newline) :
    (entries o inBlock (t :: ts)).1 = (entries o inBlock ts).1 ∧
      (entries o inBlock (t :: ts)).2.1 = (entries o inBlock ts).2.1 := by
  simp [entries, ht]

/-- A name and a sign are read as an attribute, and reading goes on behind it. -/
theorem entries_attr (o : Origin) (inBlock : Bool) {t sign : Located} (ts : List Located)
    {name : String} (ht : t.token = .word name) (hsign : sign.token = .symbol .assign) :
    (entries o inBlock (t :: sign :: ts)).1 = (attributeEntry o t name ts).1 ::
        (entries o inBlock (attributeEntry o t name ts).2.1).1 ∧
      (entries o inBlock (t :: sign :: ts)).2.1 =
        (entries o inBlock (attributeEntry o t name ts).2.1).2.1 := by
  obtain ⟨token, start, stop⟩ := sign
  obtain rfl : token = .symbol .assign := hsign
  rw [entries]
  simp [ht]

/-- A name without a sign is read as a block, and reading goes on behind it. -/
theorem entries_block (o : Origin) (inBlock : Bool) {t : Located} {ts : List Located}
    {blockType : String} (ht : t.token = .word blockType)
    (hts : ∀ sign more, ts = sign :: more → sign.token ≠ .symbol .assign) :
    (entries o inBlock (t :: ts)).1 = (blockEntries o t blockType ts).1 ++
        (entries o inBlock (blockEntries o t blockType ts).2.1).1 ∧
      (entries o inBlock (t :: ts)).2.1 =
        (entries o inBlock (blockEntries o t blockType ts).2.1).2.1 := by
  rw [entries]
  simp only [ht]
  split
  · exact (hts _ _ rfl rfl).elim
  · exact ⟨rfl, rfl⟩

/-- An expression and an end after an equals sign are read as an attribute. -/
theorem attributeEntry_of_isExpr (o : Origin) (t : Located) (name : String)
    {e after rest : List Located} (he : IsExpr e) (hend : Ends after rest) :
    ∃ a : Attribute, (attributeEntry o t name (e ++ after)).1 = .attribute a ∧
      (attributeEntry o t name (e ++ after)).2.1 = rest ∧ a.item = .attr name e := by
  obtain ⟨x, hexpr, rfl⟩ := expression_of_isExpr he ⟨rest, hend⟩ o
  have hending := (entryEnd_eq_ok_iff (o := o)).2 hend
  refine ⟨⟨name, x, t.range o.file, (t.range o.file).through x.range⟩, ?_⟩
  unfold attributeEntry
  simp [hexpr, hending, Attribute.item]

/-- An attribute is read from an expression and an end. -/
theorem isExpr_of_attributeEntry (o : Origin) (t : Located) (name : String) (ts : List Located)
    (hok : ∀ d, (attributeEntry o t name ts).1 ≠ .fault d) :
    ∃ (a : Attribute) (after : List Located), (attributeEntry o t name ts).1 = .attribute a ∧
      a.name = name ∧ IsExpr a.expr.tokens ∧ ts = a.expr.tokens ++ after ∧
      Ends after (attributeEntry o t name ts).2.1 := by
  unfold attributeEntry at hok ⊢
  cases hexpr : (expression o ts).1 with
  | error d => simp [hexpr] at hok
  | ok x =>
    cases hending : (entryEnd o (expression o ts).2).1 with
    | error d => simp [hexpr, hending] at hok
    | ok =>
      obtain ⟨hx, -, hts⟩ := isExpr_of_expression (Prod.ext hexpr rfl)
      have hend := entryEnd_eq_ok_iff.1 (Prod.ext hending rfl)
      simp only [hexpr, hending]
      exact ⟨_, _, rfl, rfl, hx, hts, hend⟩

/-- A head, entries that are collected without faults up to a closing brace, and an end are read as
a block. -/
theorem blockEntries_of_header {o : Origin} {ts inner after rest : List Located}
    {labels : List Label} {opening closing : Located} (t : Located) (blockType : String)
    (hhead : header o ts = (.ok (labels, opening), inner))
    (hrest : (entries o true inner).2.1 = closing :: after)
    (hok : (collect .empty (entries o true inner).1).2 = []) (hend : Ends after rest) :
    (blockEntries o t blockType ts).1 =
        [.block (o.block t blockType labels opening closing
          (collect .empty (entries o true inner).1).1)] ∧
      (blockEntries o t blockType ts).2.1 = rest := by
  obtain ⟨hlabels, rfl⟩ := Prod.ext_iff.1 hhead
  have hending := (entryEnd_eq_ok_iff (o := o)).2 hend
  unfold blockEntries
  cases hleft : (entries o true (header o ts).2).2 with
  | mk left hlength =>
    obtain rfl : left = closing :: after := by rw [← hrest, hleft]
    simp [hlabels, hleft, hending, hok]

/-- A block that is read without faults is read like that. -/
theorem header_of_blockEntries {o : Origin} {t : Located} {blockType : String}
    {ts : List Located} (hok : ∀ d, .fault d ∉ (blockEntries o t blockType ts).1) :
    ∃ labels opening inner closing after, header o ts = (.ok (labels, opening), inner) ∧
      (entries o true inner).2.1 = closing :: after ∧
      (collect .empty (entries o true inner).1).2 = [] ∧
      Ends after (blockEntries o t blockType ts).2.1 ∧
      (blockEntries o t blockType ts).1 =
        [.block (o.block t blockType labels opening closing
          (collect .empty (entries o true inner).1).1)] := by
  unfold blockEntries at hok ⊢
  -- the steps of the reader in turn; each that can fail would leave its fault among the entries
  cases hhead : (header o ts).1 with
  | error d => simp [hhead] at hok
  | ok head =>
    obtain ⟨labels, opening⟩ := head
    cases hleft : (entries o true (header o ts).2).2 with
    | mk left hlength =>
      cases left with
      | nil =>
        have hfault := hok (.malformed (.openBlock blockType) (opening.range o.file))
        simp [hhead, hleft] at hfault
      | cons closing after =>
        cases hending : (entryEnd o after).1 with
        | error d =>
          have hfault := hok d
          simp [hhead, hleft, hending] at hfault
        | ok =>
          have hend := entryEnd_eq_ok_iff.1 (Prod.ext hending rfl)
          have hcollect : (collect .empty (entries o true (header o ts).2).1).2 = [] := by
            refine List.eq_nil_iff_forall_not_mem.2 fun d hd => hok d ?_
            simp [hhead, hleft, hending, hd]
          refine ⟨labels, opening, _, closing, after, Prod.ext hhead rfl, by rw [hleft], hcollect,
            ?_⟩
          simp [hleft, hending, hcollect, hend]

/-! ## Derived items are read -/

/-- No name is declared twice in the body of a block. -/
def DistinctInside (i : Item) : Prop :=
  ∀ blockType labels body, i = .block blockType labels body → DistinctNames body

mutual

/-- A derived item is read as one entry, and reading goes on after it. -/
theorem DerivesItem.reads {i : Item} {ts after : List Located} (o : Origin) :
    DerivesItem i ts after → DistinctInside i → ∃ entry, Shows entry i ∧ ∀ inBlock,
      (entries o inBlock ts).1 = entry :: (entries o inBlock after).1 ∧
        (entries o inBlock ts).2.1 = (entries o inBlock after).2.1
  | @DerivesItem.attr t sign name e ending _ ht hsign he hend, _ => by
    obtain ⟨a, hentry, hrest, hitem⟩ := attributeEntry_of_isExpr o t name he hend
    refine ⟨.attribute a, hitem ▸ .attr a, fun inBlock => ?_⟩
    have hread := entries_attr o inBlock (e ++ ending) ht hsign
    rw [hentry, hrest] at hread
    exact hread
  | @DerivesItem.block t opening closing blockType ls texts items inner ending _ ht hlabels hopening
      hbody hclosing hend, hdistinct => by
    obtain ⟨labels, hhead, rfl⟩ := header_of_labels hlabels hopening inner o
    obtain ⟨hnames, hinside⟩ := hdistinct _ _ _ rfl
    -- the body of the block is read in front of its closing brace
    obtain ⟨hshows, hrest⟩ := Derives.reads o true hbody
      (fun i hi _ _ _ heq => hinside _ _ _ (heq ▸ hi)) ⟨hclosing, by simp⟩
    obtain ⟨hcollect, hitems⟩ := collect_empty_of_shows hshows
    have hok := hcollect.2 ⟨hnames, hinside⟩
    obtain ⟨hentry, hafter⟩ := blockEntries_of_header t blockType hhead hrest hok hend
    have hblock : Shows (.block (o.block t blockType labels opening closing
        (collect .empty (entries o true inner).1).1))
        (.block blockType (labels.map Label.text) items) :=
      .block ⟨hnames, hinside⟩ (hitems hok)
    refine ⟨_, hblock, fun inBlock => ?_⟩
    have hnext : ∀ sign more, ls ++ opening :: inner = sign :: more →
        sign.token ≠ .symbol .assign := fun _ _ heq => ne_assign_of_labels hlabels hopening heq
    have hread := entries_block o inBlock ht hnext
    rw [hentry, hafter] at hread
    exact hread

/-- Derived items are read as entries that show them, up to where the derivation ends. -/
theorem Derives.reads {items : List Item} {ts rest : List Located} (o : Origin) (inBlock : Bool) :
    Derives items ts rest → (∀ i ∈ items, DistinctInside i) → Closes inBlock rest →
      List.Forall₂ Shows (entries o inBlock ts).1 items ∧ (entries o inBlock ts).2.1 = rest
  | .nil, _, hclose => by
    obtain ⟨hentries, hrest⟩ := entries_of_closes o hclose
    rw [hentries]
    exact ⟨.nil, hrest⟩
  | .newline ht h, hdistinct, hclose => by
    obtain ⟨hentries, hrest⟩ := entries_newline o inBlock _ ht
    rw [hentries, hrest]
    exact Derives.reads o inBlock h hdistinct hclose
  | .item hi h, hdistinct, hclose => by
    obtain ⟨entry, hshows, hread⟩ := DerivesItem.reads o hi (hdistinct _ List.mem_cons_self)
    obtain ⟨hentries, hrest⟩ := Derives.reads o inBlock h
      (fun i hmem => hdistinct i (List.mem_cons_of_mem _ hmem)) hclose
    rw [(hread inBlock).1, (hread inBlock).2]
    exact ⟨.cons hshows hentries, hrest⟩

end

/-! ## Entries without faults are derived -/

/-- What is read as a body goes up to where a body can end and, without faults, is derived. -/
structure Exact (o : Origin) (inBlock : Bool) (ts : List Located) : Prop where
  closes : Closes inBlock (entries o inBlock ts).2.1
  derived : (∀ d, .fault d ∉ (entries o inBlock ts).1) → ∃ items,
    Derives items ts (entries o inBlock ts).2.1 ∧ List.Forall₂ Shows (entries o inBlock ts).1 items

/-- What is read as a block without faults is one entry, and is derived. -/
def ExactBlock (o : Origin) (t : Located) (blockType : String) (ts : List Located) : Prop :=
  t.token = .word blockType → (∀ d, .fault d ∉ (blockEntries o t blockType ts).1) →
    ∃ entry i, (blockEntries o t blockType ts).1 = [entry] ∧ Shows entry i ∧
      DerivesItem i (t :: ts) (blockEntries o t blockType ts).2.1

/-- Reading a body is exact where the body ends. -/
theorem exact_of_closes (o : Origin) {inBlock : Bool} {ts : List Located} (h : Closes inBlock ts) :
    Exact o inBlock ts := by
  obtain ⟨hentries, hrest⟩ := entries_of_closes o h
  refine ⟨by rwa [hrest], fun _ => ⟨[], ?_, ?_⟩⟩
  · rw [hrest]
    exact .nil
  · rw [hentries]
    exact .nil

/-- A block without faults is derived, when its body is. -/
theorem exactBlock_of_header {o : Origin} {t : Located} {blockType : String} {ts : List Located}
    (hinner : ∀ head, (header o ts).1 = .ok head → Exact o true (header o ts).2) :
    ExactBlock o t blockType ts := by
  intro ht hok
  obtain ⟨labels, opening, inner, closing, after, hhead, hrest, hcollect, hend, hblock⟩ :=
    header_of_blockEntries hok
  obtain ⟨hlabels, rfl⟩ := Prod.ext_iff.1 hhead
  obtain ⟨hcloses, hderived⟩ := hinner _ hlabels
  obtain ⟨items, hitems, hshows⟩ := hderived (not_mem_fault_of_collect hcollect)
  rw [hrest] at hcloses hitems
  obtain ⟨ls, hts, hls, hopening⟩ := labels_of_header hhead
  obtain ⟨hnames, hbody⟩ := collect_empty_of_shows hshows
  have hshown : Shows (.block (o.block t blockType labels opening closing
      (collect .empty (entries o true (header o ts).2).1).1))
      (.block blockType (labels.map Label.text) items) :=
    .block (hnames.1 hcollect) (hbody hcollect)
  have hderives : DerivesItem (.block blockType (labels.map Label.text) items)
      (t :: (ls ++ opening :: (header o ts).2)) (blockEntries o t blockType ts).2.1 :=
    .block ht hls hopening hitems hcloses.1 hend
  rw [← hts] at hderives
  exact ⟨_, _, hblock, hshown, hderives⟩

/-- Entries and the entries of a block are read together, and so they are derived together. -/
theorem exact_entries_and_blockEntries (o : Origin) :
    (∀ inBlock ts, Exact o inBlock ts) ∧ ∀ t blockType ts, ExactBlock o t blockType ts := by
  apply entries.mutual_induct o (Exact o) (ExactBlock o)
  -- the end of the text
  · intro inBlock
    exact exact_of_closes o ⟨trivial, fun _ => rfl⟩
  -- a newline before an entry
  · intro inBlock t ts ht more rest hmore ih
    obtain ⟨hentries, hrest⟩ := entries_newline o inBlock ts ht
    refine ⟨by rw [hrest]; exact ih.closes, fun hok => ?_⟩
    rw [hentries] at hok ⊢
    rw [hrest]
    obtain ⟨items, hitems, hshows⟩ := ih.derived hok
    exact ⟨items, .newline ht hitems, hshows⟩
  -- an attribute
  · intro inBlock t name ht start stop ts found after hfound hlen more rest hmore ih
    have hsign : (⟨.symbol .assign, start, stop⟩ : Located).token = .symbol .assign := rfl
    obtain ⟨hentries, hrest⟩ := entries_attr o inBlock ts ht hsign
    have hread := isExpr_of_attributeEntry o t name ts
    rw [hfound] at hentries hrest hread
    refine ⟨by rw [hrest]; exact ih.closes, fun hok => ?_⟩
    rw [hentries] at hok ⊢
    rw [hrest]
    simp only [List.mem_cons, not_or, forall_and] at hok
    obtain ⟨a, ending, rfl, rfl, he, rfl, hend⟩ := hread fun d heq => hok.1 d heq.symm
    obtain ⟨items, hitems, hshows⟩ := ih.derived hok.2
    exact ⟨a.item :: items, .item (.attr ht rfl he hend) hitems, .cons (.attr a) hshows⟩
  -- a block
  · intro inBlock t name ht ts hassign found after hfound hlen more rest hmore ihBlock ih
    have hnext : ∀ sign more, ts = sign :: more → sign.token ≠ .symbol .assign := by
      rintro ⟨token, start, stop⟩ more heq rfl
      exact hassign _ _ _ heq
    obtain ⟨hentries, hrest⟩ := entries_block o inBlock ht hnext
    have hread := ihBlock ht
    rw [hfound] at hentries hrest hread
    refine ⟨by rw [hrest]; exact ih.closes, fun hok => ?_⟩
    rw [hentries] at hok ⊢
    rw [hrest]
    simp only [List.mem_append, not_or, forall_and] at hok
    obtain ⟨entry, i, rfl, hentry, hi⟩ := hread hok.1
    obtain ⟨items, hitems, hshows⟩ := ih.derived hok.2
    exact ⟨i :: items, .item hi hitems, .cons hentry hshows⟩
  -- the brace that closes the block around the entries
  · intro inBlock t ts hnewline hword hclose
    rw [Bool.and_eq_true, decide_eq_true_eq] at hclose
    exact exact_of_closes o ⟨hclose.2, by simp [hclose.1]⟩
  -- a token that begins no entry, which is a fault
  · intro inBlock t ts hlen more rest hmore hnewline hword hclose ih
    have hread : (entries o inBlock (t :: ts)).1 =
          .fault (.malformed (.expectedEntry (some t.token)) (t.range o.file)) ::
            (entries o inBlock (recover 0 ts)).1 ∧
        (entries o inBlock (t :: ts)).2.1 = (entries o inBlock (recover 0 ts)).2.1 := by
      simp only [entries, hclose]
      exact ⟨rfl, rfl⟩
    refine ⟨by rw [hread.2]; exact ih.closes, fun hok => ?_⟩
    rw [hread.1] at hok
    exact (hok _ List.mem_cons_self).elim
  -- a block without a proper head; the others differ in how the block ends
  · intro t blockType ts hlen d hhead
    refine exactBlock_of_header fun head hfound => ?_
    simp [hhead] at hfound
  · intro t blockType ts hlen labels opening hhead inner body faults hcollect hrest hinner ih
    exact exactBlock_of_header fun _ _ => ih
  · intro t blockType ts hlen labels opening hhead inner body faults hcollect closing rest hrest
      ending hending hfine hinner ih
    exact exactBlock_of_header fun _ _ => ih
  · intro t blockType ts hlen labels opening hhead inner body faults hcollect closing rest hrest
      ending hending d hfault hinner ih
    exact exactBlock_of_header fun _ _ => ih

/-- Entries without faults were read from a derivation. -/
theorem derives_of_entries {o : Origin} {ts : List Located}
    (hok : ∀ d, .fault d ∉ (entries o false ts).1) :
    ∃ items, Derives items ts [] ∧ List.Forall₂ Shows (entries o false ts).1 items := by
  obtain ⟨hcloses, hderived⟩ := (exact_entries_and_blockEntries o).1 false ts
  obtain ⟨items, hitems, hshows⟩ := hderived hok
  rw [hcloses.2 rfl] at hitems
  exact ⟨items, hitems, hshows⟩

/-! ## Texts -/

/-- A text parses to a body exactly if its tokens are read up to the end and collected without a
fault. -/
theorem Body.parse_eq_ok_iff {file source : String} {stream : TokenStream}
    (h : tokens source = .ok stream) {body : Body} :
    Body.parse file source = .ok body ↔
      let read := (entries ⟨file, source.toList, stream.stop⟩ false stream.tokens).1
      (collect .empty read).2 = [] ∧ (collect .empty read).1 = body := by
  unfold Body.parse
  rw [h]
  dsimp only
  split
  · rename_i hempty
    simp [List.isEmpty_iff.1 hempty]
  · rename_i hne
    simp only [List.isEmpty_iff] at hne
    simp [hne]

/-- A text with readable tokens is a body exactly when its tokens derive items in which no name is
declared twice in one body. The body that is read is then the syntax tree of the only items that the
tokens derive: it has the same attributes and blocks in the order of their declarations, with the
same labels, and every expression has exactly the tokens that it was derived from. -/
theorem Body.parse_exact (file : String) {source : String} {stream : TokenStream}
    (h : tokens source = .ok stream) :
    ((∃ body, Body.parse file source = .ok body) ↔
        ∃ items, Derives items stream.tokens [] ∧ DistinctNames items) ∧
      ∀ body, Body.parse file source = .ok body → ∃ items, Derives items stream.tokens [] ∧
        body.items = arranged items ∧
        ∀ items', Derives items' stream.tokens [] → items' = items := by
  refine ⟨⟨?_, ?_⟩, ?_⟩
  · rintro ⟨body, hparse⟩
    obtain ⟨hok, -⟩ := (Body.parse_eq_ok_iff h).1 hparse
    obtain ⟨items, hitems, hshows⟩ := derives_of_entries (not_mem_fault_of_collect hok)
    exact ⟨items, hitems, (collect_empty_of_shows hshows).1.1 hok⟩
  -- derived items are read without faults, and collected without any as their names are distinct
  · rintro ⟨items, hitems, hdistinct⟩
    have hinside : ∀ i ∈ items, DistinctInside i := by
      obtain ⟨-, hinner⟩ := hdistinct
      exact fun i hi _ _ _ heq => hinner _ _ _ (heq ▸ hi)
    obtain ⟨hshows, -⟩ := Derives.reads ⟨file, source.toList, stream.stop⟩ false hitems hinside
      ⟨trivial, fun _ => rfl⟩
    have hok := (collect_empty_of_shows hshows).1.2 hdistinct
    exact ⟨_, (Body.parse_eq_ok_iff h).2 ⟨hok, rfl⟩⟩
  · intro body hparse
    obtain ⟨hok, rfl⟩ := (Body.parse_eq_ok_iff h).1 hparse
    obtain ⟨items, hitems, hshows⟩ := derives_of_entries (not_mem_fault_of_collect hok)
    refine ⟨items, hitems, (collect_empty_of_shows hshows).2 hok, fun items' hitems' => ?_⟩
    exact (Derives.unique hitems' hitems rfl trivial trivial).1

/-- An attribute whose expression goes over two lines, and a block on one line. -/
def twoLines : String :=
  "a=[\n1]\nb x\x7bc=2\x7d"

/-- The text is read as an attribute and a block of one label with an attribute. -/
theorem Body.parse_twoLines :
    (Body.parse "/s/a.tm" twoLines).toOption.map (fun body => (body.attributes.names,
        body.blocks.map fun b => (b.labelTexts, b.attributes.names))) =
      some (["a"], [(["x"], ["c"])]) := by
  decide +kernel

/-- The text is derived from one attribute and one block with one attribute. -/
theorem Body.parse_exact_twoLines :
    ∃ stream body items, tokens twoLines = .ok stream ∧
      Body.parse "/s/a.tm" twoLines = .ok body ∧ body.attributes.names = ["a"] ∧
      body.blocks.map Block.labelTexts = [["x"]] ∧ Derives items stream.tokens [] ∧
      body.items = arranged items ∧ DistinctNames items := by
  obtain ⟨body, hbody, hfields⟩ := Option.map_eq_some_iff.1 Body.parse_twoLines
  have hparse : Body.parse "/s/a.tm" twoLines = .ok body := by
    cases hread : Body.parse "/s/a.tm" twoLines with
    | error faults => simp [hread, Except.toOption] at hbody
    | ok found => simpa [hread, Except.toOption] using hbody
  cases htokens : tokens twoLines with
  | error fault => simp [Body.parse, htokens] at hparse
  | ok stream =>
    obtain ⟨hiff, htree⟩ := Body.parse_exact "/s/a.tm" htokens
    obtain ⟨items, hitems, harranged, hunique⟩ := htree body hparse
    obtain ⟨items', hitems', hdistinct⟩ := hiff.1 ⟨body, hparse⟩
    obtain rfl := hunique items' hitems'
    simp only [Prod.mk.injEq] at hfields
    have hlabels : body.blocks.map Block.labelTexts = [["x"]] := by
      have hfirst := congrArg (List.map Prod.fst) hfields.2
      simpa [Function.comp_def] using hfirst
    exact ⟨stream, body, items', rfl, hparse, hfields.1, hlabels, hitems, harranged, hdistinct⟩

end ScopeConfig.Syntax
