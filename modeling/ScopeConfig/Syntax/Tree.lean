import ScopeConfig.Syntax.Token

/-!
# Attributes and blocks as written

The records that a configuration file is read into: attributes with their expressions left
unevaluated, and blocks with their labels, attributes and inner blocks, each with the ranges it was
read from. The attributes of one body have distinct names, which `AttributeTable` keeps.

A block is identified by its type and its labels; two blocks of one identity are occurrences of the
same thing.
-/

namespace ScopeConfig.Syntax

/-- An expression as it was written: its tokens, its text and where it stands. -/
structure Expr where
  tokens : List Located
  text : String
  range : SourceRange
deriving DecidableEq, Repr

/-- The word, if the whole expression is one word. -/
def Expr.keyword? (e : Expr) : Option String :=
  match e.tokens with
  | [⟨.word text, _, _⟩] => some text
  | _ => none

/-- A name with its expression. -/
structure Attribute where
  name : String
  expr : Expr
  nameRange : SourceRange
  range : SourceRange
deriving DecidableEq, Repr

/-! ## Tables of attributes -/

/-- Attributes in the order in which they were declared, with distinct names. -/
structure AttributeTable where
  entries : List Attribute
  nodup : (entries.map Attribute.name).Nodup
deriving DecidableEq, Repr

namespace AttributeTable

/-- The table without attributes. -/
def empty : AttributeTable := ⟨[], .nil⟩

instance : Inhabited AttributeTable := ⟨empty⟩

/-- The names of the attributes, in order. -/
def names (t : AttributeTable) : List String :=
  t.entries.map Attribute.name

/-- The attribute of this name. -/
def find? (t : AttributeTable) (name : String) : Option Attribute :=
  t.entries.find? (·.name = name)

/-- Whether there is an attribute of this name. -/
def has (t : AttributeTable) (name : String) : Bool :=
  (t.find? name).isSome

/-- The expression of the attribute of this name. -/
def expr? (t : AttributeTable) (name : String) : Option Expr :=
  (t.find? name).map (·.expr)

/-- Adds an attribute at the end, unless its name is taken: the first of a name stays. -/
def add (t : AttributeTable) (a : Attribute) : AttributeTable :=
  if h : a.name ∈ t.names then t
  else
    ⟨t.entries ++ [a], by
      rw [List.map_append, List.nodup_append]
      refine ⟨t.nodup, by simp, ?_⟩
      intro x hx y hy hxy
      simp only [List.map_cons, List.map_nil, List.mem_singleton] at hy
      exact h (hy ▸ hxy ▸ hx)⟩

/-- An attribute of a new name is added at the end. -/
theorem entries_add_of_not_mem {t : AttributeTable} {a : Attribute} (h : a.name ∉ t.names) :
    (t.add a).entries = t.entries ++ [a] := by
  simp [add, h]

/-- A name finds nothing in a table exactly if the table does not have it. -/
theorem find?_eq_none_iff {t : AttributeTable} {name : String} :
    t.find? name = none ↔ name ∉ t.names := by
  simp [find?, names, List.find?_eq_none]

end AttributeTable

/-! ## Blocks -/

/-- What makes two blocks the same thing: the type and the labels in order. -/
structure BlockIdentity where
  blockType : String
  labels : List String
deriving DecidableEq, Repr, Ord

/-- How an identity is shown: the type, then each label quoted. -/
def BlockIdentity.text (i : BlockIdentity) : String :=
  i.labels.foldl (fun shown label => shown ++ " " ++ Text.quote label) i.blockType

/-- Whether `i` comes before `j` or is the same identity: by type, then label by label. -/
def BlockIdentity.le (i j : BlockIdentity) : Bool :=
  (compare i j).isLE

/-- A label of a block and where it stands. -/
structure Label where
  text : String
  range : SourceRange
deriving DecidableEq, Repr

/-- One block as it was written. -/
structure Block where
  blockType : String
  labels : List Label
  attributes : AttributeTable
  blocks : List Block
  range : SourceRange
  typeRange : SourceRange
  braceRange : SourceRange

namespace Block

/-- The texts of the labels. -/
def labelTexts (b : Block) : List String :=
  b.labels.map Label.text

/-- The identity of a block. -/
def identity (b : Block) : BlockIdentity :=
  ⟨b.blockType, b.labelTexts⟩

/-- The head of a block: from its type to its opening brace. -/
def header (b : Block) : SourceRange :=
  b.typeRange.through b.braceRange

/-- From the first label to the last, if there are labels. -/
def labelsRange? (b : Block) : Option SourceRange :=
  match b.labels.head?, b.labels.getLast? with
  | some first, some last => some (first.range.through last.range)
  | _, _ => none

/-- Where a fault of the labels is shown: at the labels, or at the head of a block without any. -/
def labelsOrHeader (b : Block) : SourceRange :=
  b.labelsRange?.getD b.header

end Block

/-- The content of a file, or of a block between its braces. -/
structure Body where
  attributes : AttributeTable
  blocks : List Block

/-- A configuration file that was read. -/
structure SourceFile where
  path : Path
  body : Body

/-- The top-level blocks of one type, in order. -/
def SourceFile.blocksOf (f : SourceFile) (blockType : String) : List Block :=
  f.body.blocks.filter (·.blockType = blockType)

end ScopeConfig.Syntax
