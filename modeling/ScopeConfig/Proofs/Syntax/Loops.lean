import ScopeConfig.Proofs.Loop.Rounds
import ScopeConfig.Proofs.Syntax.Attributes
import ScopeConfig.Proofs.Syntax.Exact

/-!
# The loops of the readers

The readers are loops over the tokens: the loop of a body, which reads entries, that of a head,
which reads labels, that of an expression, which counts brackets, and that of recovery, which looks
for the end of a broken entry. Here each of them is given round by round. Every round that does not
leave its loop goes over a token at least, so a loop that may go on for one round more than there
are tokens is not cut off, and leaves with what the readers give. This includes the loops of the
bodies inside a body.

## Main statements

* `bodyWithin_eq`: the loops of a body and of the bodies inside it are not cut off.
* `loopsEnd`: every loop of the readers goes on to its end.
-/

namespace ScopeConfig.Syntax

open Round

/-! ## Recovery -/

/-- One token of recovery. -/
def recoverRound : Int × List Located → Round (Int × List Located) (List Located)
  | (_, []) => .leave []
  | (depth, t :: ts) =>
    match t.token with
    | .newline => if depth = 0 then .leave (t :: ts) else .again (depth, ts)
    | .symbol s =>
      if s.opens then .again (depth + 1, ts)
      else if s = .rbrace && depth = 0 then .leave (t :: ts)
      else if s.closes then .again (depth - 1, ts)
      else .again (depth, ts)
    | _ => .again (depth, ts)

/-- A round of the recovery keeps the tokens at which it ends. -/
theorem keeps_recoverRound (s : Int × List Located) :
    (recoverRound s).Keeps Prod.snd (fun s => recover s.1 s.2) s := by
  obtain ⟨depth, ts⟩ := s
  cases ts with
  | nil => rfl
  | cons t ts =>
    have hpass : Passes (t :: ts) ts := .of_suffix List.suffix_rfl
    have hcloses : Symbol.rbrace.closes = true := rfl
    simp only [recoverRound]
    repeat' split
    all_goals simp_all [Keeps, recover]

/-! ## Expressions -/

/-- How far an expression was read: the brackets that are open, how many tokens it took, and those
that are left. -/
structure CaptureState where
  depth : Nat
  count : Nat
  left : List Located

/-- One token of an expression. -/
def captureRound : CaptureState → Round CaptureState (Option Fault × Nat)
  | ⟨depth, count, []⟩ => .leave (if 0 < depth then some .openBracket else none, count)
  | ⟨depth, count, t :: ts⟩ =>
    match t.token with
    | .newline =>
      if depth = 0 then .leave (none, count) else .again ⟨depth, count + 1, ts⟩
    | .symbol s =>
      if s = .rbrace && depth = 0 then .leave (none, count)
      else if s.opens then .again ⟨depth + 1, count + 1, ts⟩
      else if s.closes then
        if depth = 0 then .leave (some (.strayClosing s), count)
        else .again ⟨depth - 1, count + 1, ts⟩
      else .again ⟨depth, count + 1, ts⟩
    | _ => .again ⟨depth, count + 1, ts⟩

/-- What the loop of an expression comes to from a state on. -/
def CaptureState.result (s : CaptureState) : Option Fault × Nat :=
  ((capture s.depth s.left).1, s.count + (capture s.depth s.left).2)

/-- A round of the capture keeps the expression that it ends with. -/
theorem keeps_captureRound (s : CaptureState) :
    (captureRound s).Keeps CaptureState.left CaptureState.result s := by
  obtain ⟨depth, count, ts⟩ := s
  cases ts with
  | nil => cases depth <;> rfl
  | cons t ts =>
    have hpass : Passes (t :: ts) ts := .of_suffix List.suffix_rfl
    have hopens : Symbol.rbrace.opens = false := rfl
    have hcloses : Symbol.rbrace.closes = true := rfl
    have hcount : ∀ taken, count + 1 + taken = count + (taken + 1) := by omega
    simp only [captureRound]
    repeat' split
    all_goals cases depth <;> simp_all [Keeps, CaptureState.result, capture]

/-! ## Labels -/

/-- One label of a head, or its opening brace, after some labels. -/
def labelRound (o : Origin) : List Label × List Located →
    Round (List Label × List Located) (Except Diagnostic (List Label × Located) × List Located)
  | (_, []) => .leave (.error (.malformed (.expectedHeader none) (o.here [])), [])
  | (labels, t :: ts) =>
    match t.token with
    | .str text false => .again (labels ++ [⟨text, t.range o.file⟩], ts)
    | .word text => .again (labels ++ [⟨text, t.range o.file⟩], ts)
    | .str _ true => .leave (.error (.malformed .templateLabel (t.range o.file)), t :: ts)
    | .symbol .lbrace => .leave (.ok (labels, t), ts)
    | token =>
      .leave (.error (.malformed (.expectedHeader (some token)) (t.range o.file)), t :: ts)

/-- What the loop of a head comes to after some labels. -/
def headerAfter (o : Origin) (s : List Label × List Located) :
    Except Diagnostic (List Label × Located) × List Located :=
  ((header o s.2).1.map fun head => (s.1 ++ head.1, head.2), (header o s.2).2)

/-- A round over labels keeps the head of the block that it ends with. -/
theorem keeps_labelRound (o : Origin) (s : List Label × List Located) :
    (labelRound o s).Keeps Prod.snd (headerAfter o) s := by
  obtain ⟨labels, ts⟩ := s
  cases ts with
  | nil => rfl
  | cons t ts =>
    have hpass : Passes (t :: ts) ts := .of_suffix List.suffix_rfl
    have hlabel : ∀ l : Label, (header o ts).1.map (fun head => (labels ++ [l] ++ head.1, head.2)) =
        ((header o ts).1.map fun head => (l :: head.1, head.2)).map fun head =>
          (labels ++ head.1, head.2) := by
      intro l
      cases (header o ts).1 <;> simp [Except.map]
    simp only [labelRound]
    repeat' split
    all_goals simp_all [Keeps, headerAfter, header, Except.map]

/-! ## Bodies -/

/-- The entries of a body, and what is left after them. -/
abbrev Reader := List Located → Option (List Entry × List Located)

/-- What is read as a body. -/
def readBody (o : Origin) (inBlock : Bool) (ts : List Located) : List Entry × List Located :=
  ((entries o inBlock ts).1, (entries o inBlock ts).2.1)

/-- What a block comes to with the entries inside it, from the token after them on. -/
def closeBlock (o : Origin) (t : Located) (blockType : String) (labels : List Label)
    (opening : Located) (es : List Entry) : List Located → List Entry × List Located
  | [] =>
    ((collect .empty es).2.map .fault ++
      [.fault (.malformed (.openBlock blockType) (opening.range o.file))], [])
  | closing :: rest =>
    match entryEnd o rest with
    | (.ok (), rest) =>
      ((collect .empty es).2.map .fault ++
        [.block (o.block t blockType labels opening closing (collect .empty es).1)], rest)
    | (.error d, rest) => ((collect .empty es).2.map .fault ++ [.fault d], recover 0 rest)

/-- Reads the attribute or the block whose first word is at `t` from the token after it on. The body
of a block is read by `inner`. -/
def readItem (o : Origin) (inner : Reader) (t : Located) (name : String) : Reader
  | ⟨.symbol .assign, _, _⟩ :: ts =>
    some ([(attributeEntry o t name ts).1], (attributeEntry o t name ts).2.1)
  | ts =>
    match header o ts with
    | (.error d, rest) => some ([.fault d], recover 0 rest)
    | (.ok (labels, opening), rest) =>
      (inner rest).map fun read => closeBlock o t name labels opening read.1 read.2

/-- One round of the loop of a body, after some entries. It goes over newlines, and leaves where the
body ends, or reads one entry; it leaves with nothing when the body of a block is not read. -/
def bodyRound (o : Origin) (inner : Reader) (inBlock : Bool)
    (s : List Entry × List Located) :
    Round (List Entry × List Located) (Option (List Entry × List Located)) :=
  match s.2.dropWhile (·.token = .newline) with
  | [] => .leave (some (s.1, []))
  | t :: ts =>
    match t.token with
    | .word name =>
      match readItem o inner t name ts with
      | none => .leave none
      | some read => .again (s.1 ++ read.1, read.2)
    | token =>
      if inBlock && token = .symbol .rbrace then .leave (some (s.1, t :: ts))
      else
        .again (s.1 ++ [.fault (.malformed (.expectedEntry (some token)) (t.range o.file))],
          recover 0 ts)

/-- Reads a body with at most `n` rounds in each loop and with blocks less than `n` deep. -/
def bodyWithin (o : Origin) : Nat → Bool → Reader
  | 0, _, _ => none
  | n + 1, inBlock, ts => (loop (bodyRound o (bodyWithin o n true) inBlock) (n + 1) ([], ts)).join

/-! ### Progress -/

/-- Closing a block leaves a suffix of the tokens. -/
theorem suffix_closeBlock (o : Origin) (t : Located) (blockType : String) (labels : List Label)
    (opening : Located) (es : List Entry) (ts : List Located) :
    (closeBlock o t blockType labels opening es ts).2 <:+ ts := by
  unfold closeBlock
  split
  · exact List.suffix_rfl
  · rename_i closing rest
    have hrest := List.suffix_cons closing rest
    have hend := suffix_entryEnd o rest
    split
    · rename_i after heq
      rw [heq] at hend
      exact hend.trans hrest
    · rename_i d after heq
      rw [heq] at hend
      exact (suffix_recover 0 after).trans (hend.trans hrest)

/-- Reading an attribute leaves a suffix of the tokens. -/
theorem suffix_attributeEntry (o : Origin) (t : Located) (name : String) (ts : List Located) :
    (attributeEntry o t name ts).2.1 <:+ ts := by
  have hexpr := suffix_expression o ts
  have hend := (suffix_entryEnd o (expression o ts).2).trans hexpr
  unfold attributeEntry
  dsimp only
  split
  · exact (suffix_recover 0 _).trans hexpr
  · exact (suffix_recover 0 _).trans hend
  · exact hend

/-- What is left after an item is left of what comes after its first word, if what is left of a body
is left of it. -/
theorem suffix_readItem {o : Origin} {inner : Reader} {t : Located} {name : String}
    {ts rest : List Located} {es : List Entry}
    (hinner : ∀ ts es rest, inner ts = some (es, rest) → rest <:+ ts)
    (h : readItem o inner t name ts = some (es, rest)) : rest <:+ ts := by
  unfold readItem at h
  split at h
  · rename_i start stop ts
    obtain ⟨-, rfl⟩ := Prod.mk.inj (Option.some.inj h)
    exact (suffix_attributeEntry o t name ts).trans (List.suffix_cons _ ts)
  · have hhead := suffix_header o ts
    split at h
    · rename_i d after heq
      rw [heq] at hhead
      obtain ⟨-, rfl⟩ := Prod.mk.inj (Option.some.inj h)
      exact (suffix_recover 0 after).trans hhead
    · rename_i labels opening after heq
      rw [heq] at hhead
      obtain ⟨⟨es', left⟩, hread, heq⟩ := Option.map_eq_some_iff.1 h
      have hclose := suffix_closeBlock o t name labels opening es' left
      rw [heq] at hclose
      exact hclose.trans ((hinner _ _ _ hread).trans hhead)

/-- Every round over a body that goes on passes a token, if the reader of inner bodies leaves a
suffix. -/
theorem advances_bodyRound {o : Origin} {inner : Reader}
    (hinner : ∀ ts es rest, inner ts = some (es, rest) → rest <:+ ts) (inBlock : Bool) :
    Advances (bodyRound o inner inBlock) Prod.snd := by
  rintro ⟨es, ts⟩ s' h
  have hnewlines : ts.dropWhile (·.token = .newline) <:+ ts := List.dropWhile_suffix _
  unfold bodyRound at h
  dsimp only at h
  split at h
  · cases h
  · rename_i t more hmore
    rw [hmore] at hnewlines
    obtain ⟨front, rfl⟩ := hnewlines
    -- the newlines and the token after them are passed in any case
    have hpass : ∀ {rest : List Located}, rest <:+ more →
        Passes (front ++ t :: more) rest := by
      rintro rest ⟨passed, rfl⟩
      exact ⟨front ++ t :: passed, by simp, by simp⟩
    split at h
    · split at h
      · cases h
      · rename_i read hread
        obtain rfl := Round.again.inj h
        exact hpass (suffix_readItem hinner hread)
    · split at h
      · cases h
      · obtain rfl := Round.again.inj h
        exact hpass (suffix_recover 0 more)

/-- A body that is left in a round leaves a suffix of the tokens. -/
theorem suffix_of_bodyRound_leave {o : Origin} {inner : Reader} {inBlock : Bool}
    {s read : List Entry × List Located}
    (h : bodyRound o inner inBlock s = .leave (some read)) : read.2 <:+ s.2 := by
  have hnewlines : s.2.dropWhile (·.token = .newline) <:+ s.2 := List.dropWhile_suffix _
  unfold bodyRound at h
  split at h
  · obtain rfl := Option.some.inj (Round.leave.inj h)
    exact List.nil_suffix
  · rename_i t more hmore
    rw [hmore] at hnewlines
    split at h
    · split at h <;> cases h
    · split at h
      · obtain rfl := Option.some.inj (Round.leave.inj h)
        exact hnewlines
      · cases h

/-- What is left after a body is left of its tokens. -/
theorem suffix_bodyWithin {o : Origin} {n : Nat} {inBlock : Bool} {ts rest : List Located}
    {es : List Entry} (h : bodyWithin o n inBlock ts = some (es, rest)) : rest <:+ ts := by
  induction n generalizing inBlock ts es rest with
  | zero => cases h
  | succ n ih =>
    have hadvances : Advances (bodyRound o (bodyWithin o n true) inBlock) Prod.snd :=
      advances_bodyRound (fun _ _ _ => ih) inBlock
    obtain ⟨result, hloop, rfl⟩ := Option.bind_eq_some_iff.1 h
    have hagain : ∀ s s', bodyRound o (bodyWithin o n true) inBlock s = .again s' →
        s.2 <:+ ts → s'.2 <:+ ts :=
      fun s s' hround hs => (hadvances s s' hround).suffix.trans hs
    have hleave : ∀ s result, bodyRound o (bodyWithin o n true) inBlock s = .leave result →
        s.2 <:+ ts → ∀ read, result = some read → read.2 <:+ ts := by
      rintro s result hround hs read rfl
      exact (suffix_of_bodyRound_leave hround).trans hs
    exact loop_induction hagain hleave List.suffix_rfl hloop _ rfl

/-! ### Results -/

/-- A block is closed after the entries inside it. -/
theorem blockEntries_eq_closeBlock {o : Origin} {t opening : Located} {blockType : String}
    {ts inner : List Located} {labels : List Label}
    (h : header o ts = (.ok (labels, opening), inner)) :
    ((blockEntries o t blockType ts).1, (blockEntries o t blockType ts).2.1) =
      closeBlock o t blockType labels opening (readBody o true inner).1
        (readBody o true inner).2 := by
  obtain ⟨hhead, rfl⟩ := Prod.ext_iff.1 h
  unfold blockEntries readBody
  cases hleft : (entries o true (header o ts).2).2 with
  | mk left hlength =>
    cases left with
    | nil => simp [hhead, hleft, closeBlock]
    | cons closing rest =>
      cases hending : entryEnd o rest with
      | mk ending after => cases ending <;> simp [hhead, hleft, closeBlock, hending]

/-- A token that begins no entry is a fault, and reading goes on after the recovery. -/
theorem readBody_other (o : Origin) (inBlock : Bool) {t : Located} (ts : List Located)
    (hnewline : t.token ≠ .newline) (hword : ∀ name, t.token ≠ .word name)
    (hclose : (inBlock && t.token = .symbol .rbrace) = false) :
    readBody o inBlock (t :: ts) =
      (.fault (.malformed (.expectedEntry (some t.token)) (t.range o.file)) ::
        (readBody o inBlock (recover 0 ts)).1, (readBody o inBlock (recover 0 ts)).2) := by
  unfold readBody
  rw [entries]
  split
  · rename_i ht
    exact (hnewline ht).elim
  · rename_i name ht
    exact (hword name ht).elim
  · simp [hclose]

/-- Nothing is read where a body ends. -/
theorem readBody_of_closes (o : Origin) {inBlock : Bool} {ts : List Located}
    (h : Closes inBlock ts) : readBody o inBlock ts = ([], ts) :=
  Prod.ext_iff.2 (entries_of_closes o h)

/-- Nothing is read of no tokens. -/
theorem readBody_nil (o : Origin) (inBlock : Bool) : readBody o inBlock [] = ([], []) :=
  readBody_of_closes o ⟨trivial, fun _ => rfl⟩

/-- Newlines in front of a body are passed over. -/
theorem readBody_dropWhile (o : Origin) (inBlock : Bool) (ts : List Located) :
    readBody o inBlock (ts.dropWhile (·.token = .newline)) = readBody o inBlock ts := by
  induction ts with
  | nil => rfl
  | cons t ts ih =>
    by_cases ht : t.token = .newline
    · rw [List.dropWhile_cons_of_pos (by simpa using ht), ih]
      exact (Prod.ext_iff.2 (entries_newline o inBlock ts ht)).symm
    · rw [List.dropWhile_cons_of_neg (by simpa using ht)]

/-- What is read from a word on is an item and what is read after it, if `inner` reads bodies. -/
theorem exists_readItem {o : Origin} {inner : Reader} {t : Located} {name : String}
    {ts : List Located} (ht : t.token = .word name)
    (hinner : ∀ rest, rest <:+ ts → inner rest = some (readBody o true rest)) :
    ∃ read, readItem o inner t name ts = some read ∧ ∀ inBlock, readBody o inBlock (t :: ts) =
      (read.1 ++ (readBody o inBlock read.2).1, (readBody o inBlock read.2).2) := by
  unfold readItem
  split
  -- an attribute
  · rename_i start stop ts
    exact ⟨_, rfl, fun inBlock => Prod.ext_iff.2 (entries_attr o inBlock ts ht rfl)⟩
  -- a block, with a head that is faulty or not
  · rename_i hassign
    have hts : ∀ sign more, ts = sign :: more → sign.token ≠ .symbol .assign := by
      rintro ⟨token, start, stop⟩ more rfl rfl
      exact hassign start stop more rfl
    have hblock : ∀ inBlock, readBody o inBlock (t :: ts) =
        ((blockEntries o t name ts).1 ++ (readBody o inBlock (blockEntries o t name ts).2.1).1,
          (readBody o inBlock (blockEntries o t name ts).2.1).2) :=
      fun inBlock => Prod.ext_iff.2 (entries_block o inBlock ht hts)
    split
    · rename_i d rest hhead
      have hread : ((blockEntries o t name ts).1, (blockEntries o t name ts).2.1) =
          ([.fault d], recover 0 rest) := by
        obtain ⟨hfault, rfl⟩ := Prod.ext_iff.1 hhead
        unfold blockEntries
        simp [hfault]
      exact ⟨_, congrArg some hread.symm, hblock⟩
    · rename_i labels opening rest hhead
      have hrest := suffix_header o ts
      rw [hhead] at hrest
      rw [hinner rest hrest]
      exact ⟨_, congrArg some (blockEntries_eq_closeBlock hhead).symm, hblock⟩

/-- What the loop of a body comes to after some entries. -/
def bodyAfter (o : Origin) (inBlock : Bool) (s : List Entry × List Located) :
    Option (List Entry × List Located) :=
  some (s.1 ++ (readBody o inBlock s.2).1, (readBody o inBlock s.2).2)

/-- A round over a body keeps what is read of the body, if inner bodies are read by the total
reader. -/
theorem keeps_bodyRound {o : Origin} {inner : Reader} (inBlock : Bool)
    {s : List Entry × List Located}
    (hinner : ∀ ts, ts.length < s.2.length → inner ts = some (readBody o true ts))
    (hadvances : Advances (bodyRound o inner inBlock) Prod.snd) :
    (bodyRound o inner inBlock s).Keeps Prod.snd (bodyAfter o inBlock) s := by
  have hnewlines : s.2.dropWhile (·.token = .newline) <:+ s.2 := List.dropWhile_suffix _
  have hpass := hadvances s
  -- a round drops the newlines first, which the total reader passes over
  have hafter : bodyAfter o inBlock s =
      some (s.1 ++ (readBody o inBlock (s.2.dropWhile (·.token = .newline))).1,
        (readBody o inBlock (s.2.dropWhile (·.token = .newline))).2) := by
    rw [readBody_dropWhile]
    rfl
  unfold bodyRound at hpass ⊢
  cases hmore : s.2.dropWhile (·.token = .newline) with
  | nil =>
    rw [hmore, readBody_nil, List.append_nil] at hafter
    exact hafter.symm
  | cons t ts =>
    rw [hmore] at hafter hnewlines hpass
    dsimp only at hpass ⊢
    have hlength := hnewlines.length_le
    rw [List.length_cons] at hlength
    split
    -- an entry: by exists_readItem the loop reads what the total reader does
    · rename_i name ht
      have hbodies : ∀ rest, rest <:+ ts → inner rest = some (readBody o true rest) :=
        fun rest hrest => hinner rest (Nat.lt_of_le_of_lt hrest.length_le hlength)
      obtain ⟨read, hread, hmore⟩ := exists_readItem ht hbodies
      simp only [ht, hread] at hpass ⊢
      refine ⟨hpass _ rfl, ?_⟩
      rw [hafter, hmore, ← List.append_assoc]
      rfl
    · rename_i hword
      split
      -- the closing brace ends the loop, and the body
      · rename_i hcloses
        simp only [Bool.and_eq_true, decide_eq_true_eq] at hcloses
        have hend : Closes inBlock (t :: ts) := ⟨hcloses.2, by simp [hcloses.1]⟩
        rw [readBody_of_closes o hend, List.append_nil] at hafter
        exact hafter.symm
      -- any other token is a fault
      · rename_i hopen
        have hnewline : t.token ≠ .newline := by
          have hfirst :=
            List.head?_dropWhile_not (fun t : Located => decide (t.token = .newline)) s.2
          rw [hmore] at hfirst
          simpa using hfirst
        simp only [hopen] at hpass
        refine ⟨hpass _ rfl, ?_⟩
        rw [hafter, readBody_other o inBlock ts hnewline hword (Bool.eq_false_iff.2 hopen)]
        simp [bodyAfter]

/-- A body is read as it is within one round more than it has tokens. -/
theorem bodyWithin_eq (o : Origin) (inBlock : Bool) {n : Nat} {ts : List Located}
    (hn : ts.length < n) : bodyWithin o n inBlock ts = some (readBody o inBlock ts) := by
  induction n generalizing inBlock ts with
  | zero => omega
  | succ n ih =>
    have hadvances : Advances (bodyRound o (bodyWithin o n true) inBlock) Prod.snd :=
      advances_bodyRound (fun _ _ _ => suffix_bodyWithin) inBlock
    have hkeeps : ∀ s : List Entry × List Located, s.2.length < n + 1 →
        (bodyRound o (bodyWithin o n true) inBlock s).Keeps Prod.snd (bodyAfter o inBlock) s :=
      fun s hs => keeps_bodyRound inBlock (fun ts hts => ih true (by omega)) hadvances
    have hloop := loop_eq hkeeps (s := ([], ts)) hn
    unfold bodyWithin
    rw [hloop]
    rfl

/-! ## All loops over tokens -/

/-- Every round of the loops over tokens that goes on goes over a token, the loops are left with
what the readers give, and a body that is in no block ends where the text does. -/
structure LoopsEnd (o : Origin) : Prop where
  recovery : Advances recoverRound Prod.snd ∧
    Finishes recoverRound Prod.snd fun s => recover s.1 s.2
  expression : Advances captureRound CaptureState.left ∧
    Finishes captureRound CaptureState.left CaptureState.result
  labels : Advances (labelRound o) Prod.snd ∧ Finishes (labelRound o) Prod.snd (headerAfter o)
  rounds : ∀ inBlock n, Advances (bodyRound o (bodyWithin o n true) inBlock) Prod.snd
  body : ∀ inBlock n ts, ts.length < n → bodyWithin o n inBlock ts = some (readBody o inBlock ts)
  text : ∀ ts, (readBody o false ts).2 = []

/-- All of the loops over tokens end. -/
theorem loopsEnd (o : Origin) : LoopsEnd o where
  recovery := ⟨advances_of_keeps keeps_recoverRound, finishes_of_keeps keeps_recoverRound⟩
  expression := ⟨advances_of_keeps keeps_captureRound, finishes_of_keeps keeps_captureRound⟩
  labels := ⟨advances_of_keeps (keeps_labelRound o), finishes_of_keeps (keeps_labelRound o)⟩
  rounds inBlock _ := advances_bodyRound (fun _ _ _ => suffix_bodyWithin) inBlock
  body inBlock _ _ hn := bodyWithin_eq o inBlock hn
  text ts := ((exact_entries_and_blockEntries o).1 false ts).closes.2 rfl

end ScopeConfig.Syntax
