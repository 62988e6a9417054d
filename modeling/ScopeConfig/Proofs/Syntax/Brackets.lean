import ScopeConfig.Proofs.Glob.Literal
import ScopeConfig.Proofs.Syntax.Attributes
import ScopeConfig.Proofs.Syntax.Exact

/-!
# Brackets by kind

The reader of expressions counts brackets and does not tell their kinds apart. Whether each bracket
is closed by one of its own kind is said here with a stack of the brackets that are open. The count
never falls below zero inside an expression, so a scan of the expression never looks at the
brackets that were open before it, and a scan of a whole text passes through its expressions one by
one: the brackets of the text match by kind exactly when those of every expression do.

## Main statements

* `openAfter_append_of_nested`: an expression is scanned as on its own.
* `Derives.openAfter_iff`: a scan passes through a derivation when its expressions are matched.
* `Body.wellBracketed_iff`: the brackets of a text against those of its attributes.
-/

namespace ScopeConfig.Syntax

/-! ## The brackets that are open -/

/-- The bracket that closes this one. -/
def Symbol.closing? : Symbol → Option Symbol
  | lparen => some rparen
  | lbracket => some rbracket
  | lbrace => some rbrace
  | _ => none

/-- The open brackets after a token, the most recent one first. A closing bracket has to be of the
kind of the most recent one. -/
def Token.openAfter? (stack : List Symbol) : Token → Option (List Symbol)
  | .symbol s =>
    if s.opens then some (s :: stack)
    else if s.closes then
      match stack with
      | [] => none
      | o :: stack => if o.closing? = some s then some stack else none
    else some stack
  | _ => some stack

/-- The open brackets after some tokens, or none when one of them closes a bracket that is not open
or is of another kind. -/
def openAfter (stack : List Symbol) (ts : List Located) : Option (List Symbol) :=
  ts.foldlM (fun stack t => t.token.openAfter? stack) stack

/-- Every closing bracket closes the most recent bracket that is open, which is of its kind, and no
bracket is left open. -/
def WellBracketed (ts : List Located) : Prop :=
  openAfter [] ts = some []

instance (ts : List Located) : Decidable (WellBracketed ts) :=
  inferInstanceAs (Decidable (_ = _))

section Scan

variable {stack stack' : List Symbol} {t : Located} {ts : List Located}

@[simp] theorem openAfter_nil (stack : List Symbol) : openAfter stack [] = some stack := rfl

theorem openAfter_cons (stack : List Symbol) (t : Located) (ts : List Located) :
    openAfter stack (t :: ts) = (t.token.openAfter? stack).bind (openAfter · ts) :=
  List.foldlM_cons

theorem openAfter_append (stack : List Symbol) (ts ts' : List Located) :
    openAfter stack (ts ++ ts') = (openAfter stack ts).bind (openAfter · ts') :=
  List.foldlM_append

/-- A token that is no bracket. -/
theorem openAfter_cons_of_turn (h : t.token.turn = 0) (stack : List Symbol) (ts : List Located) :
    openAfter stack (t :: ts) = openAfter stack ts := by
  have hstep : t.token.openAfter? stack = some stack := by
    unfold Token.turn at h
    unfold Token.openAfter?
    split at h
    · split at h
      · simp at h
      · split at h <;> simp_all
    · simp_all
  rw [openAfter_cons, hstep]
  rfl

/-- The number of open brackets changes by the turn of the token. -/
theorem Token.length_of_openAfter? {token : Token} (h : token.openAfter? stack = some stack') :
    (stack'.length : Int) = stack.length + token.turn := by
  unfold Token.openAfter? at h
  unfold Token.turn
  grind

/-- A token that leaves no fewer than zero brackets open does not look at those further down. -/
theorem Token.openAfter?_append {token : Token} (h : 0 ≤ (stack.length : Int) + token.turn)
    (more : List Symbol) :
    token.openAfter? (stack ++ more) = (token.openAfter? stack).map (· ++ more) := by
  cases token with
  | symbol s =>
    by_cases hopens : s.opens = true
    · simp [Token.openAfter?, hopens]
    · by_cases hcloses : s.closes = true
      · cases stack with
        | nil =>
          -- the count would fall below zero
          simp [Token.turn, hopens, hcloses] at h
        | cons o stack => by_cases hkind : o.closing? = some s <;>
            simp [Token.openAfter?, hopens, hcloses, hkind]
      · simp [Token.openAfter?, hopens, hcloses]
  | _ => rfl

/-- As many brackets are open as the count says. -/
theorem length_of_openAfter (h : openAfter stack ts = some stack') :
    (stack'.length : Int) = stack.length + turns ts := by
  induction ts generalizing stack with
  | nil =>
    obtain rfl := Option.some.inj h
    simp
  | cons t ts ih =>
    rw [openAfter_cons] at h
    obtain ⟨next, hnext, hrest⟩ := Option.bind_eq_some_iff.1 h
    have hlength := ih hrest
    rw [Token.length_of_openAfter? hnext] at hlength
    rw [turns_cons]
    omega

/-- Tokens among which the count never falls below zero do not look at the brackets further down: by
induction on the tokens, with as many brackets open as are counted. -/
theorem openAfter_append_of_nested (h : Nested stack.length ts) (more : List Symbol) :
    openAfter (stack ++ more) ts = (openAfter stack ts).map (· ++ more) := by
  induction ts generalizing stack with
  | nil => rfl
  | cons t ts ih =>
    obtain ⟨-, -, hrest⟩ := nested_cons_iff.1 h
    rw [openAfter_cons, openAfter_cons, Token.openAfter?_append hrest.depth_nonneg]
    cases hnext : t.token.openAfter? stack with
    | none => rfl
    | some next => exact ih (Token.length_of_openAfter? hnext ▸ hrest)

/-- A scan passes through an expression exactly when the expression is well bracketed. -/
theorem openAfter_isExpr {e : List Located} (he : IsExpr e) (rest : List Located) :
    openAfter stack (e ++ rest) = some stack' ↔
      WellBracketed e ∧ openAfter stack rest = some stack' := by
  have hnested : Nested ([] : List Symbol).length e := he.2
  have hscan : openAfter stack e = (openAfter [] e).map (· ++ stack) :=
    openAfter_append_of_nested hnested stack
  rw [openAfter_append, hscan, WellBracketed]
  cases hopen : openAfter [] e with
  | none => simp
  | some left =>
    have hlength := length_of_openAfter hopen
    have hclosed := he.2.closed
    obtain rfl : left = [] := List.eq_nil_of_length_eq_zero (by simp at hlength; omega)
    simp

end Scan

/-! ## Derivations -/

/-- An attribute among the items, or inside one of them at some depth, has this expression. -/
inductive HasExpr : List Item → List Located → Prop
  | own {items : List Item} {name : String} {e : List Located} (h : .attr name e ∈ items) :
    HasExpr items e
  | inner {items body : List Item} {blockType : String} {labels : List String} {e : List Located}
    (h : .block blockType labels body ∈ items) (he : HasExpr body e) : HasExpr items e

/-- Every expression among the items is well bracketed. -/
def AllBracketed (items : List Item) : Prop :=
  ∀ e, HasExpr items e → WellBracketed e

section Items

variable {items body : List Item}

theorem allBracketed_nil : AllBracketed [] := by
  intro e h
  cases h with
  | own h => cases h
  | inner h => cases h

/-- An attribute is well bracketed exactly if its expression is. -/
theorem allBracketed_attr_iff {name : String} {e : List Located} :
    AllBracketed [.attr name e] ↔ WellBracketed e := by
  refine ⟨fun h => h e (.own (.head _)), fun h e' he' => ?_⟩
  cases he' with
  | own hmem =>
    cases List.mem_singleton.1 hmem
    exact h
  | inner hmem => cases List.mem_singleton.1 hmem

/-- A block is well bracketed exactly if its body is. -/
theorem allBracketed_block_iff {blockType : String} {labels : List String} :
    AllBracketed [.block blockType labels body] ↔ AllBracketed body := by
  refine ⟨fun h e he => h e (.inner (.head _) he), fun h e he => ?_⟩
  cases he with
  | own hmem => cases List.mem_singleton.1 hmem
  | inner hmem he =>
    cases List.mem_singleton.1 hmem
    exact h e he

/-- An expression of some items is one of more items. -/
theorem HasExpr.mono {items' : List Item} {e : List Located} (h : HasExpr items e)
    (hsub : items ⊆ items') : HasExpr items' e := by
  cases h with
  | own hmem => exact .own (hsub hmem)
  | inner hmem he => exact .inner (hsub hmem) he

/-- Items are well bracketed exactly if the first one and the rest are. -/
theorem allBracketed_cons_iff (i : Item) (items : List Item) :
    AllBracketed (i :: items) ↔ AllBracketed [i] ∧ AllBracketed items := by
  constructor
  · exact fun h => ⟨fun e he => h e (he.mono (by simp)), fun e he => h e (he.mono (by simp))⟩
  · rintro ⟨hi, hitems⟩ e he
    cases he with
    | own hmem =>
      rcases List.mem_cons.1 hmem with rfl | hmem
      · exact hi e (.own (.head _))
      · exact hitems e (.own hmem)
    | inner hmem he =>
      rcases List.mem_cons.1 hmem with rfl | hmem
      · exact hi e (.inner (.head _) he)
      · exact hitems e (.inner hmem he)

end Items

/-- The end of an entry opens and closes no bracket. -/
theorem openAfter_of_ends {after rest : List Located} (h : Ends after rest)
    (stack : List Symbol) : openAfter stack after = openAfter stack rest := by
  cases h with
  | newline ht => exact openAfter_cons_of_turn (by simp [ht, Token.turn]) stack _
  | brace => rfl
  | text => rfl

/-- Labels open and close no bracket. -/
theorem openAfter_of_labels {ls : List Located} {labels : List String}
    (h : List.Forall₂ IsLabel ls labels) (stack : List Symbol) (rest : List Located) :
    openAfter stack (ls ++ rest) = openAfter stack rest := by
  induction h with
  | nil => rfl
  | cons ht _ ih =>
    rw [List.cons_append, openAfter_cons_of_turn, ih]
    rcases ht with ht | ht <;> simp [ht, Token.turn]

mutual

/-- A scan passes through the tokens of an item exactly when its expressions are well bracketed; the
braces of a block match around its body. -/
theorem DerivesItem.openAfter_iff {i : Item} {ts rest : List Located} :
    DerivesItem i ts rest → ∀ stack stack' : List Symbol,
      openAfter stack ts = some stack' ↔ AllBracketed [i] ∧ openAfter stack rest = some stack'
  | .attr ht hsign he hend, stack, stack' => by
    rw [openAfter_cons_of_turn (by simp [ht, Token.turn]),
      openAfter_cons_of_turn (by simp [hsign, Token.turn, Symbol.opens, Symbol.closes]),
      openAfter_isExpr he, openAfter_of_ends hend, allBracketed_attr_iff]
  | .block ht hlabels hopening hbody hclosing hend, stack, stack' => by
    have hopen : ∀ ts, openAfter stack (_ :: ts) = openAfter (.lbrace :: stack) ts := fun ts => by
      rw [openAfter_cons, hopening]
      rfl
    have hclose : ∀ ts, openAfter (.lbrace :: stack) (_ :: ts) = openAfter stack ts := fun ts => by
      rw [openAfter_cons, hclosing]
      rfl
    rw [openAfter_cons_of_turn (by simp [ht, Token.turn]), openAfter_of_labels hlabels, hopen,
      Derives.openAfter_iff hbody, hclose, openAfter_of_ends hend, allBracketed_block_iff]

/-- A scan passes through the tokens of items exactly when their expressions are well bracketed. -/
theorem Derives.openAfter_iff {items : List Item} {ts rest : List Located} :
    Derives items ts rest → ∀ stack stack' : List Symbol,
      openAfter stack ts = some stack' ↔ AllBracketed items ∧ openAfter stack rest = some stack'
  | .nil, stack, stack' => by simp [allBracketed_nil]
  | .newline ht h, stack, stack' => by
    rw [openAfter_cons_of_turn (by simp [ht, Token.turn]), Derives.openAfter_iff h]
  | @Derives.item i items _ _ _ hi h, stack, stack' => by
    rw [DerivesItem.openAfter_iff hi, Derives.openAfter_iff h, allBracketed_cons_iff i items,
      and_assoc]

end

/-! ## Syntax trees -/

/-- A syntax tree has the attributes of the items that it is arranged from. -/
theorem attr_mem_arranged_iff {items : List Item} {name : String} {e : List Located} :
    .attr name e ∈ arranged items ↔ .attr name e ∈ items := by
  have hblocks : .attr name e ∉ blocksOf items := by
    induction items with
    | nil => simp [blocksOf]
    | cons i items ih => cases i <;> simp [ih]
  simp [arranged, attributesOf, Item.isAttribute, hblocks]

/-- The blocks of a syntax tree are those of the items that it is arranged from, arranged. -/
theorem block_mem_arranged_iff {items body' : List Item} {blockType : String}
    {labels : List String} : .block blockType labels body' ∈ arranged items ↔
      ∃ body, .block blockType labels body ∈ items ∧ arranged body = body' := by
  have hblocks : .block blockType labels body' ∈ blocksOf items ↔
      ∃ body, .block blockType labels body ∈ items ∧ arranged body = body' := by
    induction items with
    | nil => simp [blocksOf]
    | cons i items ih =>
      cases i with
      | attr => simp [ih]
      | block blockType' labels' body =>
        simp only [blocksOf_block, List.mem_cons, Item.block.injEq, ih]
        constructor
        · rintro (⟨rfl, rfl, rfl⟩ | ⟨inner, hmem, rfl⟩)
          · exact ⟨body, .inl ⟨rfl, rfl, rfl⟩, rfl⟩
          · exact ⟨inner, .inr hmem, rfl⟩
        · rintro ⟨inner, ⟨rfl, rfl, rfl⟩ | hmem, rfl⟩
          · exact .inl ⟨rfl, rfl, rfl⟩
          · exact .inr ⟨inner, hmem, rfl⟩
  simp [arranged, attributesOf, Item.isAttribute, hblocks]

/-- Arranging items keeps their expressions. -/
theorem hasExpr_arranged_iff {items : List Item} {e : List Located} :
    HasExpr (arranged items) e ↔ HasExpr items e := by
  constructor
  · intro h
    generalize htree : arranged items = tree at h
    induction h generalizing items with
    | own h => exact .own (attr_mem_arranged_iff.1 (htree ▸ h))
    | inner h _ ih =>
      obtain ⟨body, hbody, harranged⟩ := block_mem_arranged_iff.1 (htree ▸ h)
      exact .inner hbody (ih harranged)
  · intro h
    induction h with
    | own h => exact .own (attr_mem_arranged_iff.2 h)
    | inner h _ ih => exact .inner (block_mem_arranged_iff.2 ⟨_, h, rfl⟩) ih

/-- The items of blocks, block by block. -/
theorem blockItems_eq_map (blocks : List Block) : blockItems blocks = blocks.map Block.item := by
  induction blocks with
  | nil => rfl
  | cons b blocks ih => rw [blockItems, ih, List.map_cons]

/-- The item of a block: its type, its labels and the items of its body. -/
theorem Block.item_eq (b : Block) :
    b.item = .block b.blockType b.labelTexts (Body.items ⟨b.attributes, b.blocks⟩) := by
  cases b
  rfl

/-- The expressions of a syntax tree are those of its attributes at any depth. -/
theorem hasExpr_items_iff {body : Body} {e : List Located} :
    HasExpr body.items e ↔ ∃ a, body.Has a ∧ a.expr.tokens = e := by
  constructor
  · intro h
    -- the items are made a variable for the induction on the expression in them
    generalize htree : body.items = tree at h
    induction h generalizing body with
    | own h =>
      rw [← htree, Body.items, blockItems_eq_map, List.mem_append, List.mem_map,
        List.mem_map] at h
      rcases h with ⟨a, ha, hitem⟩ | ⟨b, -, hitem⟩
      · exact ⟨a, .own ha, (Item.attr.inj hitem).2⟩
      · rw [Block.item_eq] at hitem
        cases hitem
    | inner h _ ih =>
      rw [← htree, Body.items, blockItems_eq_map, List.mem_append, List.mem_map,
        List.mem_map] at h
      rcases h with ⟨a, -, hitem⟩ | ⟨b, hb, hitem⟩
      · cases hitem
      · rw [Block.item_eq] at hitem
        obtain ⟨a, ha, he⟩ := ih (Item.block.inj hitem).2.2
        exact ⟨a, .inner hb ha, he⟩
  · rintro ⟨a, ha, rfl⟩
    induction ha with
    | own h => exact .own (List.mem_append_left _ (List.mem_map.2 ⟨_, h, rfl⟩))
    | @inner body b a hb _ ih =>
      have hmem : b.item ∈ body.items :=
        List.mem_append_right _ (blockItems_eq_map body.blocks ▸ List.mem_map.2 ⟨b, hb, rfl⟩)
      exact .inner (Block.item_eq b ▸ hmem) ih

/-! ## Texts -/

/-- A closing bracket among well bracketed tokens closes the most recent bracket that is open, and
that one is of its kind. -/
theorem WellBracketed.closes {ts before after : List Located} {t : Located} {s : Symbol}
    (h : WellBracketed ts) (hts : ts = before ++ t :: after) (ht : t.token = .symbol s)
    (hs : s.closes = true) :
    ∃ o stack, openAfter [] before = some (o :: stack) ∧ o.closing? = some s := by
  have hopens : s.opens = false := by cases s <;> first | rfl | cases hs
  rw [hts, WellBracketed, openAfter_append] at h
  obtain ⟨stack, hbefore, hrest⟩ := Option.bind_eq_some_iff.1 h
  rw [openAfter_cons, ht] at hrest
  obtain ⟨next, hnext, -⟩ := Option.bind_eq_some_iff.1 hrest
  cases stack with
  | nil => simp [Token.openAfter?, hopens, hs] at hnext
  | cons o stack =>
    refine ⟨o, stack, hbefore, ?_⟩
    by_contra hkind
    simp [Token.openAfter?, hopens, hs, hkind] at hnext

/-- For every text that parses, the brackets in the expression of every attribute at any depth match
by kind exactly when the brackets of the whole text do. Then each closing bracket in an expression,
the brace that closes a block included, closes the most recent bracket that is open in the same
expression, and none is left open. By count alone the brackets of an expression always match. -/
theorem Body.wellBracketed_iff {file source : String} {body : Body}
    (h : Body.parse file source = .ok body) :
    ∃ stream, tokens source = .ok stream ∧
      ((∀ a, body.Has a → WellBracketed a.expr.tokens) ↔ WellBracketed stream.tokens) ∧
      (WellBracketed stream.tokens → ∀ a, body.Has a → ∀ before t after s,
        a.expr.tokens = before ++ t :: after → t.token = .symbol s → s.closes = true →
          ∃ o stack, openAfter [] before = some (o :: stack) ∧ o.closing? = some s) ∧
      ∀ a, body.Has a → IsExpr a.expr.tokens := by
  cases htokens : tokens source with
  | error fault => simp [Body.parse, htokens] at h
  | ok stream =>
    -- the text derives items with the expressions of the body, and outside of them brackets match
    obtain ⟨items, hitems, htree, -⟩ := (Body.parse_exact file htokens).2 body h
    have hexprs : ∀ e, HasExpr items e ↔ ∃ a, body.Has a ∧ a.expr.tokens = e := fun e => by
      rw [← hasExpr_items_iff, htree, hasExpr_arranged_iff]
    have hiff : (∀ a, body.Has a → WellBracketed a.expr.tokens) ↔ WellBracketed stream.tokens := by
      rw [WellBracketed, hitems.openAfter_iff, openAfter_nil, and_iff_left rfl]
      exact ⟨fun hall e he => by
          obtain ⟨a, ha, rfl⟩ := (hexprs e).1 he
          exact hall a ha,
        fun hall a ha => hall _ ((hexprs _).2 ⟨a, ha, rfl⟩)⟩
    refine ⟨stream, rfl, hiff, fun hstream a ha before t after s hsplit => ?_, fun a ha => ?_⟩
    · exact (hiff.2 hstream a ha).closes hsplit
    · obtain ⟨stream', -, hstands⟩ := Body.stands_of_parse h ha
      obtain ⟨_, _, _, first, more, _, -, -, hexpr, heq⟩ := hstands
      rw [heq]
      exact hexpr

/-- Brackets of all three kinds, inside each other and over two lines. -/
def mixedBrackets : String := "a=[(1),\x7bb=\n2\x7d]\nx \x7bc=f(d[0])\x7d"

/-- The text is read with its attribute and its block. -/
theorem body_mixedBrackets :
    (Body.parse "/s/a.tm" mixedBrackets).toOption.map (fun body =>
        (body.attributes.names, body.blocks.map fun b => b.attributes.names)) =
      some (["a"], [["c"]]) := by
  decide +kernel

/-- The tokens of the whole text are well bracketed. -/
theorem wellBracketed_mixedBrackets :
    (tokens mixedBrackets).toOption.map (fun stream => decide (WellBracketed stream.tokens)) =
      some true := by
  decide +kernel

/-- All expressions of the text are well bracketed, since the text is. -/
theorem Body.wellBracketed_iff_mixedBrackets :
    ∃ body, Body.parse "/s/a.tm" mixedBrackets = .ok body ∧ body.attributes.names = ["a"] ∧
      body.blocks.map (fun b => b.attributes.names) = [["c"]] ∧
      ∀ a, body.Has a → WellBracketed a.expr.tokens := by
  obtain ⟨body, hbody, hfields⟩ := Option.map_eq_some_iff.1 body_mixedBrackets
  have hparse : Body.parse "/s/a.tm" mixedBrackets = .ok body := Glob.toOption_eq_some_iff.1 hbody
  obtain ⟨stream, hstream, hiff, -, -⟩ := Body.wellBracketed_iff hparse
  have hmatched := wellBracketed_mixedBrackets
  rw [hstream] at hmatched
  have hwell : WellBracketed stream.tokens := of_decide_eq_true (Option.some.inj hmatched)
  exact ⟨body, hparse, (Prod.mk.inj hfields).1, (Prod.mk.inj hfields).2, hiff.2 hwell⟩

/-- The attribute is read, and its expression is not well bracketed. -/
theorem body_otherKind :
    (Body.parse "/p/cfg.tm" "a = (]\n").toOption.map (fun body =>
        body.attributes.entries.map fun a => (a.name, decide (WellBracketed a.expr.tokens))) =
      some [("a", false)] := by
  decide +kernel

/-- A parenthesis that a square bracket closes is taken for an expression. -/
theorem not_wellBracketed_otherKind :
    ∃ body a, Body.parse "/p/cfg.tm" "a = (]\n" = .ok body ∧ body.Has a ∧ a.name = "a" ∧
      ¬WellBracketed a.expr.tokens := by
  obtain ⟨body, hbody, hfields⟩ := Option.map_eq_some_iff.1 body_otherKind
  obtain ⟨a, hentries, hshown⟩ := List.map_eq_singleton_iff.1 hfields
  obtain ⟨hname, hkind⟩ := Prod.mk.inj hshown
  exact ⟨body, a, Glob.toOption_eq_some_iff.1 hbody, .own (hentries ▸ List.mem_singleton_self a),
    hname, of_decide_eq_false hkind⟩

end ScopeConfig.Syntax
