import ScopeConfig.Proofs.Syntax.Readings

/-!
# Faults of a text

Whatever the parser reports says that the text is malformed, with a fault and the range of it. No
reader produces an error of another kind, and a text that is refused has at least one.

## Main statements

* `Reads.malformed`: the faults of a body.
* `SourceFile.malformed_of_parse`, `SourceFile.parse_error_ne_nil`: the faults of a file.
-/

namespace ScopeConfig

namespace Diagnostic

/-- An error that says that a text is malformed. -/
def IsMalformed (d : Diagnostic) : Prop :=
  ∃ fault range, d = .malformed fault range

/-- A fault of the syntax is one of a malformed text. -/
theorem IsMalformed.intro (fault : Syntax.Fault) (range : SourceRange) :
    (malformed fault range).IsMalformed :=
  ⟨fault, range, rfl⟩

end Diagnostic

namespace Syntax

/-! ## Entries -/

/-- The faults of a body that is collected from what is read say that the text is malformed. -/
theorem Reads.malformed {o : Origin} {ts rest : List Located} {es : List Entry}
    (h : Reads o ts es rest) (table : AttributeTable) :
    ∀ d ∈ (collect table es).2, d.IsMalformed := by
  intro d hd
  obtain ⟨fault, r, rfl, -⟩ := h.reportedAt_collect table d hd
  exact .intro fault r

/-! ## Files -/

/-- A text that is no body has at least one fault. -/
theorem Body.parse_error_ne_nil {file text : String} {faults : List Diagnostic}
    (h : Body.parse file text = .error faults) : faults ≠ [] := by
  unfold Body.parse at h
  split at h
  · obtain rfl := Except.error.inj h
    simp
  · simp only at h
    split at h
    · cases h
    · rename_i hne
      obtain rfl := Except.error.inj h
      simpa using hne

/-- Every fault of a text that is not parsed says that the text is malformed. -/
theorem Body.malformed_of_parse {file text : String} {faults : List Diagnostic}
    (h : Body.parse file text = .error faults) : ∀ d ∈ faults, d.IsMalformed := by
  unfold Body.parse at h
  split at h
  · obtain rfl := Except.error.inj h
    simp only [List.mem_singleton, forall_eq]
    exact .intro ..
  · dsimp only at h
    split at h
    · cases h
    · obtain rfl := Except.error.inj h
      exact (reads_entries _ false _).malformed .empty

/-- A file is read as its body is. -/
theorem SourceFile.parse_eq_ok_iff {path : Path} {text : String} {f : SourceFile} :
    SourceFile.parse path text = .ok f ↔
      Body.parse path.text text = .ok f.body ∧ f.path = path := by
  obtain ⟨own, body⟩ := f
  unfold SourceFile.parse
  cases Body.parse path.text text <;> simp [Except.map, and_comm, eq_comm]

/-- A file is not parsed exactly if its text is not, with the same faults. -/
theorem SourceFile.parse_eq_error_iff {path : Path} {text : String} {faults : List Diagnostic} :
    SourceFile.parse path text = .error faults ↔ Body.parse path.text text = .error faults := by
  unfold SourceFile.parse
  cases Body.parse path.text text <;> simp [Except.map]

/-- A parsed file has the path that it was parsed under. -/
theorem SourceFile.path_of_parse {path : Path} {text : String} {f : SourceFile}
    (h : SourceFile.parse path text = .ok f) : f.path = path :=
  (SourceFile.parse_eq_ok_iff.1 h).2

/-- A file that is not parsed has a fault. -/
theorem SourceFile.parse_error_ne_nil {path : Path} {text : String} {faults : List Diagnostic}
    (h : SourceFile.parse path text = .error faults) : faults ≠ [] :=
  Body.parse_error_ne_nil (SourceFile.parse_eq_error_iff.1 h)

/-- The faults of a file say that its text is malformed. -/
theorem SourceFile.malformed_of_parse {path : Path} {text : String} {faults : List Diagnostic}
    (h : SourceFile.parse path text = .error faults) : ∀ d ∈ faults, d.IsMalformed :=
  Body.malformed_of_parse (SourceFile.parse_eq_error_iff.1 h)

end Syntax

end ScopeConfig
