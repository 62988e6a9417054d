/-!
# Sets of names, and options

A set of texts kept in increasing order without repetition, which is the order it is shown in. The
order of texts is that of their characters by code point.

What a caller sets for loading scopes is such a set: the experiments that are enabled whatever the
configuration itself declares.
-/

namespace ScopeConfig

/-- A set of names, in increasing order. -/
structure NameSet where
  names : List String
  sorted : names.Pairwise (· < ·)
deriving DecidableEq, Repr

namespace NameSet

/-- The set without names. -/
def empty : NameSet := ⟨[], .nil⟩

instance : Inhabited NameSet := ⟨empty⟩

/-- Puts a name at its place in an increasing list that may hold it already. -/
def place (s : String) : List String → List String
  | [] => [s]
  | t :: rest => if s < t then s :: t :: rest else if s = t then t :: rest else t :: place s rest

/-- Placing a name adds it and nothing else. -/
theorem mem_place {s t : String} {names : List String} :
    t ∈ place s names ↔ t = s ∨ t ∈ names := by
  induction names with
  | nil => simp [place]
  | cons u rest ih =>
    simp only [place]
    split
    · simp
    · split
      · rename_i h
        subst h
        simp
      · simp only [List.mem_cons, ih]
        grind

/-- Placing a name keeps a list of names strictly increasing. -/
theorem pairwise_place {s : String} {names : List String} (h : names.Pairwise (· < ·)) :
    (place s names).Pairwise (· < ·) := by
  induction names with
  | nil => simp [place]
  | cons t rest ih =>
    obtain ⟨ht, hrest⟩ := List.pairwise_cons.1 h
    simp only [place]
    split
    · rename_i hst
      refine List.pairwise_cons.2 ⟨?_, h⟩
      intro u hu
      rcases List.mem_cons.1 hu with rfl | hu
      · exact hst
      · exact String.lt_trans hst (ht u hu)
    · split
      · exact h
      · rename_i hlt hne
        refine List.pairwise_cons.2 ⟨?_, ih hrest⟩
        intro u hu
        rcases mem_place.1 hu with rfl | hu
        · refine String.not_le.1 fun hle => hne ?_
          exact String.le_antisymm hle (fun h => hlt h)
        · exact ht u hu

/-- Adds a name. -/
def insert (set : NameSet) (s : String) : NameSet :=
  ⟨place s set.names, pairwise_place set.sorted⟩

/-- The set of the names in a list. -/
def ofList (names : List String) : NameSet :=
  names.foldl insert empty

/-- Whether a name is in the set. -/
def has (set : NameSet) (s : String) : Bool :=
  set.names.contains s

/-- The members after an insertion are the inserted name and the members before. -/
theorem mem_insert {set : NameSet} {s t : String} :
    t ∈ (set.insert s).names ↔ t = s ∨ t ∈ set.names :=
  mem_place

end NameSet

/-! ## Options -/

/-- The experiment that enables scripts. -/
def scriptsExperiment : String := "scripts"

/-- The experiment that enables inputs, outputs and sharing backends. -/
def outputsSharingExperiment : String := "outputs-sharing"

/-- The options of a load. -/
structure Options where
  experiments : NameSet
deriving DecidableEq, Repr, Inhabited

/-- The options with more experiments enabled. -/
def Options.enable (o : Options) (names : List String) : Options :=
  ⟨names.foldl NameSet.insert o.experiments⟩

end ScopeConfig
