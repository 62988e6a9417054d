import ScopeConfig.Proofs.Syntax.Pieces

/-!
# The grammar of bodies

A body is made of newlines and items. An item is an attribute, a name with its expression, or a
block, a type with labels and an inner body between braces; it ends at a newline or just before a
closing brace or the end of the text. A derivation relates items to the tokens that they are read
from and to the tokens after them. It is unambiguous: tokens derive at most one list of items, as
far as the next place where a body can end.

## Main statements

* `Derives.unique`: the items that tokens derive are determined.
-/

namespace ScopeConfig.Syntax

/-! ## Items -/

/-- One part of a body: an attribute with the tokens of its expression, or a block with its labels
and the items of its body. -/
inductive Item where
  | attr (name : String) (expr : List Located)
  | block (blockType : String) (labels : List String) (body : List Item)

namespace Item

/-- Whether an item is an attribute. -/
def isAttribute : Item → Bool
  | attr _ _ => true
  | block _ _ _ => false

/-- The name of an attribute. -/
def name? : Item → Option String
  | attr name _ => some name
  | block _ _ _ => none

end Item

/-- The names of the attributes among items, in order. -/
def namesOf (items : List Item) : List String :=
  items.filterMap Item.name?

/-- The attributes of a body have distinct names, and so have those of every body inside it. -/
inductive DistinctNames : List Item → Prop
  | intro {items : List Item} (names : (namesOf items).Nodup)
    (inner : ∀ blockType labels body, .block blockType labels body ∈ items → DistinctNames body) :
    DistinctNames items

/-- The attributes among items, in order. -/
def attributesOf (items : List Item) : List Item :=
  items.filter Item.isAttribute

mutual

/-- An item as a syntax tree has it: in every body inside it, the attributes before the blocks. -/
def Item.arranged : Item → Item
  | .attr name e => .attr name e
  | .block blockType labels body => .block blockType labels (attributesOf body ++ blocksOf body)

/-- The blocks among items, in order, as a syntax tree has them. -/
def blocksOf : List Item → List Item
  | [] => []
  | i :: items => if i.isAttribute then blocksOf items else i.arranged :: blocksOf items

end

/-- Items as a syntax tree has them: the attributes in order, then the blocks in order. -/
def arranged (items : List Item) : List Item :=
  attributesOf items ++ blocksOf items

section Cons

variable (name blockType : String) (e : List Located) (labels : List String)
  (body items : List Item)

@[simp] theorem namesOf_attr : namesOf (.attr name e :: items) = name :: namesOf items := rfl

@[simp] theorem namesOf_block : namesOf (.block blockType labels body :: items) = namesOf items :=
  rfl

@[simp] theorem attributesOf_attr :
    attributesOf (.attr name e :: items) = .attr name e :: attributesOf items := rfl

@[simp] theorem attributesOf_block :
    attributesOf (.block blockType labels body :: items) = attributesOf items := rfl

@[simp] theorem blocksOf_attr : blocksOf (.attr name e :: items) = blocksOf items := by
  simp [blocksOf, Item.isAttribute]

/-- The blocks of items, one of which is a block: that block with its body arranged, and the
others. -/
@[simp] theorem blocksOf_block :
    blocksOf (.block blockType labels body :: items) =
      .block blockType labels (arranged body) :: blocksOf items := by
  simp [blocksOf, Item.isAttribute, Item.arranged, arranged]

end Cons

/-! ## Derivations -/

mutual

/-- The item `i` is read from tokens, and the second list is left. -/
inductive DerivesItem : Item → List Located → List Located → Prop
  | attr {t sign : Located} {name : String} {e after rest : List Located}
    (ht : t.token = .word name) (hsign : sign.token = .symbol .assign) (he : IsExpr e)
    (hend : Ends after rest) : DerivesItem (.attr name e) (t :: sign :: (e ++ after)) rest
  | block {t opening closing : Located} {blockType : String} {ls : List Located}
    {labels : List String} {items : List Item} {inner after rest : List Located}
    (ht : t.token = .word blockType) (hlabels : List.Forall₂ IsLabel ls labels)
    (hopening : opening.token = .symbol .lbrace) (hbody : Derives items inner (closing :: after))
    (hclosing : closing.token = .symbol .rbrace) (hend : Ends after rest) :
    DerivesItem (.block blockType labels items) (t :: (ls ++ opening :: inner)) rest

/-- The items of a body are read from tokens, with newlines between them, and the second list is
left. -/
inductive Derives : List Item → List Located → List Located → Prop
  | nil {ts : List Located} : Derives [] ts ts
  | newline {t : Located} {items : List Item} {ts rest : List Located} (ht : t.token = .newline)
    (h : Derives items ts rest) : Derives items (t :: ts) rest
  | item {i : Item} {items : List Item} {ts after rest : List Located}
    (hi : DerivesItem i ts after) (h : Derives items after rest) : Derives (i :: items) ts rest

end

/-! ## Unambiguity -/

/-- One list of tokens splits in one way into an expression and an end. -/
theorem IsExpr.unique {e e' after after' : List Located} (he : IsExpr e) (he' : IsExpr e')
    (hend : AtEnd after) (hend' : AtEnd after') (h : e ++ after = e' ++ after') :
    e = e' ∧ after = after' := by
  obtain ⟨o⟩ : Nonempty Origin := ⟨⟨"", [], ⟨0, 0, 0⟩⟩⟩
  obtain ⟨x, hx, rfl⟩ := expression_of_isExpr he hend o
  obtain ⟨x', hx', rfl⟩ := expression_of_isExpr he' hend' o
  rw [h, hx'] at hx
  cases hx
  exact ⟨rfl, rfl⟩

/-- The tokens determine the labels and what comes after the opening brace: no label is a brace. -/
theorem labels_unique {ls ls' inner inner' : List Located} {texts texts' : List String}
    {opening opening' : Located} (h : List.Forall₂ IsLabel ls texts)
    (h' : List.Forall₂ IsLabel ls' texts') (hopening : opening.token = .symbol .lbrace)
    (hopening' : opening'.token = .symbol .lbrace)
    (heq : ls ++ opening :: inner = ls' ++ opening' :: inner') :
    texts = texts' ∧ inner = inner' := by
  obtain ⟨o⟩ : Nonempty Origin := ⟨⟨"", [], ⟨0, 0, 0⟩⟩⟩
  obtain ⟨labels, hread, rfl⟩ := header_of_labels h hopening inner o
  obtain ⟨labels', hread', rfl⟩ := header_of_labels h' hopening' inner' o
  rw [heq, hread'] at hread
  cases hread
  exact ⟨rfl, rfl⟩

/-- What stands after the type of a block is no equals sign. -/
theorem ne_assign_of_labels {ls inner more : List Located} {texts : List String}
    {opening sign : Located} (h : List.Forall₂ IsLabel ls texts)
    (hopening : opening.token = .symbol .lbrace) (heq : ls ++ opening :: inner = sign :: more) :
    sign.token ≠ .symbol .assign := by
  cases h with
  | nil =>
    obtain ⟨rfl, -⟩ := List.cons.inj heq
    simp [hopening]
  | cons ht _ =>
    obtain ⟨rfl, -⟩ := List.cons.inj heq
    rcases ht with ht | ht <;> simp [ht]

/-- At these tokens a body can end. -/
def AtClose : List Located → Prop
  | [] => True
  | t :: _ => t.token = .symbol .rbrace

/-- An item begins with a word. -/
theorem DerivesItem.exists_word {i : Item} {ts rest : List Located} (h : DerivesItem i ts rest) :
    ∃ t more name, ts = t :: more ∧ t.token = .word name := by
  cases h with
  | attr ht => exact ⟨_, _, _, rfl, ht⟩
  | block ht => exact ⟨_, _, _, rfl, ht⟩

mutual

/-- The item that tokens derive and the tokens after it are determined: by induction on one of the
derivations, together with the bodies inside it. -/
theorem DerivesItem.unique {i j : Item} {ts ts' rest rest' : List Located} :
    DerivesItem i ts rest → DerivesItem j ts' rest' → ts = ts' → i = j ∧ rest = rest'
  | .attr ht hsign he hend, .attr ht' hsign' he' hend', heq => by
    obtain ⟨rfl, htail⟩ := List.cons.inj heq
    obtain ⟨rfl, hsplit⟩ := List.cons.inj htail
    obtain ⟨rfl, rfl⟩ := he.unique he' ⟨_, hend⟩ ⟨_, hend'⟩ hsplit
    obtain rfl := Token.word.inj (ht.symm.trans ht')
    exact ⟨rfl, hend.unique hend'⟩
  | .attr ht hsign he hend, .block ht' hlabels' hopening' hbody' hclosing' hend', heq =>
    (ne_assign_of_labels hlabels' hopening' (List.cons.inj heq).2.symm hsign).elim
  | .block ht hlabels hopening hbody hclosing hend, .attr ht' hsign' he' hend', heq =>
    (ne_assign_of_labels hlabels hopening (List.cons.inj heq).2 hsign').elim
  | .block ht hlabels hopening hbody hclosing hend,
      .block ht' hlabels' hopening' hbody' hclosing' hend', heq => by
    obtain ⟨rfl, htail⟩ := List.cons.inj heq
    obtain rfl := Token.word.inj (ht.symm.trans ht')
    obtain ⟨rfl, hinner⟩ := labels_unique hlabels hlabels' hopening hopening' htail
    obtain ⟨rfl, hafter⟩ := Derives.unique hbody hbody' hinner hclosing hclosing'
    obtain ⟨rfl, rfl⟩ := List.cons.inj hafter
    exact ⟨rfl, hend.unique hend'⟩

/-- The items of a body and the tokens after it are determined, when the body can end there. -/
theorem Derives.unique {items items' : List Item} {ts ts' rest rest' : List Located} :
    Derives items ts rest → Derives items' ts' rest' → ts = ts' → AtClose rest → AtClose rest' →
      items = items' ∧ rest = rest'
  -- one body ends where the other goes on only if a body can end there, which the next token tells
  | .nil, .nil, heq, _, _ => ⟨rfl, heq⟩
  | .nil, .newline ht' _, heq, hclose, _ => by
    subst heq
    simp [AtClose, ht'] at hclose
  | .nil, .item hi' _, heq, hclose, _ => by
    subst heq
    obtain ⟨t, more, name, rfl, hword⟩ := hi'.exists_word
    simp [AtClose, hword] at hclose
  | .newline ht _, .nil, heq, _, hclose' => by
    subst heq
    simp [AtClose, ht] at hclose'
  | .newline ht h, .newline ht' h', heq, hclose, hclose' =>
    Derives.unique h h' (List.cons.inj heq).2 hclose hclose'
  | .newline ht h, .item hi' _, heq, _, _ => by
    obtain ⟨t, more, name, rfl, hword⟩ := hi'.exists_word
    obtain ⟨rfl, -⟩ := List.cons.inj heq
    simp [ht] at hword
  | .item hi _, .nil, heq, _, hclose' => by
    subst heq
    obtain ⟨t, more, name, rfl, hword⟩ := hi.exists_word
    simp [AtClose, hword] at hclose'
  | .item hi _, .newline ht' _, heq, _, _ => by
    obtain ⟨t, more, name, rfl, hword⟩ := hi.exists_word
    obtain ⟨rfl, -⟩ := List.cons.inj heq
    simp [ht'] at hword
  | .item hi h, .item hi' h', heq, hclose, hclose' => by
    obtain ⟨rfl, hafter⟩ := DerivesItem.unique hi hi' heq
    obtain ⟨rfl, hrest⟩ := Derives.unique h h' hafter hclose hclose'
    exact ⟨rfl, hrest⟩

end

end ScopeConfig.Syntax
