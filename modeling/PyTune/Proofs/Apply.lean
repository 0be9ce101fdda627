import PyTune.Method.Apply

/-!
# Applying a method to a source that reads

Every method applies to every source that reads: the edits never fail, since the imports that
the methods add are single import statements. Applying a method to its own output is another
matter: a function whose line starts with a form feed is decorated at its keyword with no
indentation before the decorator, so the output no longer reads.
-/

namespace PyTune

theorem Import.kindOf_ok_of_isSome {text : String} (h : (Import.kindOf text).toOption.isSome) :
    ∃ kind, Import.kindOf text = .ok kind := by
  cases hk : Import.kindOf text with
  | error e => simp [hk, Except.toOption] at h
  | ok kind => exact ⟨kind, rfl⟩

/-- Making sure of an import that reads as one import statement succeeds. -/
theorem Module.ensureImport_ok (m : Module) {text : String} {kind : StmtKind}
    (h : Import.kindOf (Text.trim text) = .ok kind) : ∃ r, m.ensureImport text = .ok r := by
  unfold Module.ensureImport
  dsimp only
  split
  · exact ⟨_, rfl⟩
  · simp only [h, bind, Except.bind, pure, Except.pure]
    exact ⟨_, rfl⟩

/-- The import lines that the methods add each read as one import statement. -/
theorem Method.importLines_read :
    ∀ line ∈ ["from numba import njit", "from functools import lru_cache", "import numpy as np"],
      (Import.kindOf (Text.trim line)).toOption.isSome := by
  decide +kernel

theorem Method.ensureImport_ok (m : Module) (line : String)
    (h : line ∈ ["from numba import njit", "from functools import lru_cache",
      "import numpy as np"]) : ∃ r, m.ensureImport line = .ok r := by
  obtain ⟨kind, hk⟩ := Import.kindOf_ok_of_isSome (Method.importLines_read line h)
  exact m.ensureImport_ok hk

/-- The edits of every method succeed on every module. -/
theorem Method.edit_ok (method : Method) (m : Module) : ∃ r, method.edit m = .ok r := by
  cases method with
  | multiprocessing => exact ⟨_, rfl⟩
  | nativeExtension | cython => exact ⟨_, rfl⟩
  | numba =>
    obtain ⟨⟨m', added⟩, h⟩ :=
      Method.ensureImport_ok (m.addDecorator "njit").1 "from numba import njit" (by simp)
    simp only [Method.edit, Method.decorateAndImport, h, bind, Except.bind, pure, Except.pure]
    exact ⟨_, rfl⟩
  | caching =>
    obtain ⟨⟨m', added⟩, h⟩ :=
      Method.ensureImport_ok (m.addDecorator "lru_cache").1 "from functools import lru_cache" (by simp)
    simp only [Method.edit, Method.decorateAndImport, h, bind, Except.bind, pure, Except.pure]
    exact ⟨_, rfl⟩
  | vectorize =>
    obtain ⟨⟨m', added⟩, h⟩ := Method.ensureImport_ok m "import numpy as np" (by simp)
    simp only [Method.edit, h, bind, Except.bind, pure, Except.pure]
    exact ⟨_, rfl⟩

/-- A source whose only line ends with a lone carriage return reads with line feeds, but the
comment line that marks the output ends with a carriage return and a line feed, the ending of
the printed text's first line. -/
theorem Method.multiprocessing_lone_return :
    Source.lineEnding "x = 1\r" = "\n" ∧
    (Method.apply .multiprocessing "x = 1\r").toOption.map (·.text) =
      some ("# [OPTIMIZATION: Multiprocessing]\r\nx = 1\r\n\ndef main():\n" ++
        "    # Main function of the program\n    pass\n\nif __name__ == '__main__':\n" ++
        "    import multiprocessing\n    p = multiprocessing.Process(target=main)\n" ++
        "    p.start()\n    p.join()\n") := by
  decide +kernel

end PyTune
