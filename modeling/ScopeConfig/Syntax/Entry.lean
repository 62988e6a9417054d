import ScopeConfig.Syntax.Capture

/-!
# Bodies

A body is read in two steps. First its tokens become a list of entries: attributes, blocks, and the
faults of what could be read as neither, all in the order of the text, the faults inside a block
before the block itself. Then the entries are collected into a body, where an attribute whose name
is taken becomes one more fault at its place in the list.
-/

namespace ScopeConfig.Syntax

/-- What one stretch of a body was read as. -/
inductive Entry where
  | attribute (a : Attribute)
  | block (b : Block)
  | fault (d : Diagnostic)

/-! ## Collecting entries -/

/-- The body that the entries make up after the attributes of `table`, and the faults. -/
def collect (table : AttributeTable) : List Entry → Body × List Diagnostic
  | [] => (⟨table, []⟩, [])
  | .attribute a :: entries =>
    match table.find? a.name with
    | some first =>
      let (body, faults) := collect table entries
      (body, .malformed (.redefined a.name first.nameRange) a.nameRange :: faults)
    | none => collect (table.add a) entries
  | .block b :: entries =>
    let (body, faults) := collect table entries
    ({ body with blocks := b :: body.blocks }, faults)
  | .fault d :: entries =>
    let (body, faults) := collect table entries
    (body, d :: faults)

/-! ## Reading entries -/

/-- Tokens left after some were read from `ts`. -/
abbrev Rest (ts : List Located) := { rest : List Located // rest.length ≤ ts.length }

/-- Reads the attribute whose name is the word `name` at `t` from the token after its equals sign
on. -/
def attributeEntry (o : Origin) (t : Located) (name : String) (ts : List Located) :
    Entry × Rest ts :=
  let outcome := expression o ts
  let ending := entryEnd o outcome.2
  have length : ending.2.length ≤ ts.length :=
    Nat.le_trans (entryEnd_length o outcome.2) (expression_length o ts)
  match outcome.1, ending.1 with
  | .error d, _ =>
    (.fault d, ⟨recover 0 outcome.2,
      Nat.le_trans (recover_length 0 _) (expression_length o ts)⟩)
  | .ok _, .error d =>
    (.fault d, ⟨recover 0 ending.2, Nat.le_trans (recover_length 0 _) length⟩)
  | .ok e, .ok () =>
    let nameRange := t.range o.file
    (.attribute ⟨name, e, nameRange, nameRange.through e.range⟩, ⟨ending.2, length⟩)

/-- The block that was read from the word at `t` to the closing brace. -/
def Origin.block (o : Origin) (t : Located) (blockType : String) (labels : List Label)
    (opening closing : Located) (body : Body) : Block where
  blockType := blockType
  labels := labels
  attributes := body.attributes
  blocks := body.blocks
  range := (t.range o.file).through (closing.range o.file)
  typeRange := t.range o.file
  braceRange := opening.range o.file

mutual

/-- Reads entries to the end of the text or, inside a block, to a closing brace, which is left. -/
def entries (o : Origin) (inBlock : Bool) (ts : List Located) : List Entry × Rest ts :=
  match ts with
  | [] => ([], ⟨[], Nat.le_refl _⟩)
  | t :: ts =>
    match t.token with
    | .newline =>
      let (more, rest) := entries o inBlock ts
      (more, ⟨rest.1, Nat.le_succ_of_le rest.2⟩)
    | .word name =>
      match ts with
      | ⟨.symbol .assign, _, _⟩ :: ts =>
        let (found, after) := attributeEntry o t name ts
        have length : after.1.length ≤ ts.length := after.2
        let (more, rest) := entries o inBlock after.1
        (found :: more,
          ⟨rest.1, Nat.le_succ_of_le (Nat.le_succ_of_le (Nat.le_trans rest.2 length))⟩)
      | ts =>
        let (found, after) := blockEntries o t name ts
        have length : after.1.length ≤ ts.length := after.2
        let (more, rest) := entries o inBlock after.1
        (found ++ more, ⟨rest.1, Nat.le_succ_of_le (Nat.le_trans rest.2 length)⟩)
    | token =>
      if inBlock && token = .symbol .rbrace then ([], ⟨t :: ts, Nat.le_refl _⟩)
      else
        have length : (recover 0 ts).length ≤ ts.length := recover_length 0 ts
        let (more, rest) := entries o inBlock (recover 0 ts)
        (.fault (.malformed (.expectedEntry (some token)) (t.range o.file)) :: more,
          ⟨rest.1, Nat.le_succ_of_le (Nat.le_trans rest.2 length)⟩)
termination_by 2 * ts.length
decreasing_by
  all_goals simp only [List.length_cons]
  all_goals omega

/-- Reads the block whose type is the word `blockType` at `t` from the token after it on: the faults
inside it, then the block itself or what is wrong with it. -/
def blockEntries (o : Origin) (t : Located) (blockType : String) (ts : List Located) :
    List Entry × Rest ts :=
  have length : (header o ts).2.length ≤ ts.length := header_length o ts
  match (header o ts).1 with
  | .error d =>
    ([.fault d], ⟨recover 0 (header o ts).2, Nat.le_trans (recover_length 0 _) length⟩)
  | .ok (labels, opening) =>
    let (inner, rest) := entries o true (header o ts).2
    let (body, faults) := collect .empty inner
    match rest with
    | ⟨[], _⟩ =>
      (faults.map .fault ++ [.fault (.malformed (.openBlock blockType) (opening.range o.file))],
        ⟨[], Nat.zero_le _⟩)
    | ⟨closing :: rest, hrest⟩ =>
      let ending := entryEnd o rest
      have length : ending.2.length ≤ ts.length :=
        Nat.le_trans (entryEnd_length o rest) (Nat.le_trans (Nat.le_of_succ_le hrest) length)
      match ending.1 with
      | .ok () =>
        (faults.map .fault ++ [.block (o.block t blockType labels opening closing body)],
          ⟨ending.2, length⟩)
      | .error d =>
        (faults.map .fault ++ [.fault d],
          ⟨recover 0 ending.2, Nat.le_trans (recover_length 0 _) length⟩)
termination_by 2 * ts.length + 1
decreasing_by all_goals omega

end

/-! ## Files -/

/-- Reads a whole text as a body, or gives every fault. A text with a fault in its tokens has that
fault only. -/
def Body.parse (file source : String) : Except (List Diagnostic) Body :=
  match tokens source with
  | .error f => .error [.malformed f.fault (f.range file)]
  | .ok stream =>
    let (body, faults) :=
      collect .empty (entries ⟨file, source.toList, stream.stop⟩ false stream.tokens).1
    if faults.isEmpty then .ok body else .error faults

/-- Reads the text of the file at a path. -/
def SourceFile.parse (path : Path) (source : String) : Except (List Diagnostic) SourceFile :=
  (Body.parse path.text source).map fun body => ⟨path, body⟩

end ScopeConfig.Syntax
