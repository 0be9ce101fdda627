import PyTune.Proofs.Reading
import PyTune.Proofs.Imports

/-!
# What a module binds at its top

`Module.binds` looks at top-level statements only. The module name of an import is its source
text (`Tape.DottedText`), so `import a .b` binds `a ` rather than `a` (`Module.binds_spaced_dot`);
`Module.binds_iff` says which statements bind a name.
-/

namespace PyTune

/-! ### Dotted names on the tape -/

namespace Tape

variable {t : Tape}

/-- Lexemes `i` to `j` of the tape are a dotted name: names with a dot between each two. -/
inductive Dotted (t : Tape) : Nat → Nat → Prop
  | name {i : Nat} : ((t.lexemeAt i).token.nameText?).isSome → Dotted t i i
  | more {i j : Nat} : Dotted t i j → (t.lexemeAt (j + 1)).token = .dot →
      ((t.lexemeAt (j + 2)).token.nameText?).isSome → Dotted t i (j + 2)

/-- The source text of a dotted name of the tape, from the start of its first name to the
end of its last. -/
def DottedText (t : Tape) (text : String) : Prop :=
  ∃ i j, t.Dotted i j ∧ text = Span.text ⟨(t.lexemeAt i).span.start, (t.lexemeAt j).span.stop⟩ t.source

end Tape

/-- Every module name of an import is the source text of a dotted name. -/
def StmtKind.DottedImports (t : Tape) : StmtKind → Prop
  | .imports aliases => ∀ a ∈ aliases, t.DottedText a.name
  | _ => True

namespace Grammar

variable {t : Tape} {c c' : Cursor}

/-! ### Reading dotted names -/

theorem Reads.expectName {e : Expectation} {n : String} (h : (expectName e).Reads t c n c') :
    (t.lexemeAt c.index).token.nameText? = some n ∧ c' = c.past (t.lexemeAt c.index) := by
  unfold Grammar.expectName at h
  have h := h.look_bind
  split at h
  next n' named =>
    obtain ⟨_, c₁, hs, h⟩ := h.bind
    obtain ⟨rfl, rfl⟩ := h.pure
    exact ⟨named, hs.skip.1⟩
  next => exact absurd h Reads.not_fail

/-- Past a name, the end of code is where the name ends. -/
theorem past_name {l : Lexeme} (h : l.token.nameText?.isSome) :
    (c.past l).lastEnd = l.span.stop := by
  simp only [Cursor.past, Token.isLayout_of_nameText h, Bool.false_eq_true, if_false]

/-- The rest of a dotted name, from just past its name `j`: what is read on is a dotted name
from the same first name, and the cursor stops just past its last. -/
theorem dottedTail_dotted {i : Nat} : ∀ fuel {j : Nat} (c : Cursor), t.Dotted i j →
    c.index = j + 1 → c.lastEnd = (t.lexemeAt j).span.stop →
    Yields (dottedTail fuel) t c fun _ c' =>
      ∃ j', t.Dotted i j' ∧ c'.lastEnd = (t.lexemeAt j').span.stop
  | 0, _, _, _, _, _ => Yields.exhausted
  | fuel + 1, j, c, dotted, index, stop => by
    rw [dottedTail.eq_2]
    apply Yields.look_bind
    split
    next dot =>
      refine Yields.bind fun _ c₁ h₁ => Yields.bind fun _ c₂ h₂ => ?_
      rw [discard_eq] at h₂
      obtain ⟨_, c₃, hn, h₂⟩ := h₂.bind
      obtain ⟨-, rfl⟩ := h₂.pure
      obtain ⟨named, rfl⟩ := hn.expectName
      have passed : c₁ = c.past (t.lexemeAt c.index) := h₁.skip.1
      have next : c₁.index = j + 2 := by rw [passed, Cursor.past, index]
      rw [next] at named ⊢
      have more : t.Dotted i (j + 2) :=
        .more dotted (by rw [← index]; exact beq_iff_eq.mp dot) (by rw [named]; rfl)
      exact dottedTail_dotted fuel _ more (by simp only [Cursor.past, next]) (past_name (by rw [named]; rfl))
    next => exact Yields.pure ⟨j, dotted, stop⟩

/-- A dotted name reads as its source text. -/
theorem dottedName_dotted : Yields dottedName t c fun name _ => t.DottedText name := by
  unfold dottedName
  apply Yields.look_bind
  refine Yields.bind fun _ c₁ h₁ => ?_
  rw [discard_eq] at h₁
  obtain ⟨_, c₂, hn, h₁⟩ := h₁.bind
  obtain ⟨-, rfl⟩ := h₁.pure
  obtain ⟨named, rfl⟩ := hn.expectName
  have first : t.Dotted c.index c.index := .name (by rw [named]; rfl)
  refine Yields.read_bind (Yields.bind fun _ c₃ h₃ => ?_)
  obtain ⟨j, dotted, stop⟩ :=
    dottedTail_dotted _ _ first rfl (past_name (by rw [named]; rfl)) _ _ h₃
  apply Yields.look_bind
  unfold text
  refine Yields.read_bind (Yields.pure ⟨c.index, j, dotted, ?_⟩)
  rw [stop]

/-- The names of an `import` list are source texts of dotted names. -/
theorem importList_dotted : ∀ n (acc : Array ImportAlias) (c : Cursor),
    (∀ a ∈ acc, t.DottedText a.name) →
    Yields (importList n acc) t c fun r _ => ∀ a ∈ r, t.DottedText a.name
  | 0, _, _, _ => Yields.exhausted
  | n + 1, acc, c, hacc => by
    rw [importList.eq_2]
    refine Yields.bind fun name c₁ h₁ => Yields.bind fun asname c₂ _ => ?_
    have pushed : ∀ a ∈ acc.push ⟨name, asname⟩, t.DottedText a.name :=
      Array.forall_mem_push.2 ⟨dottedName_dotted _ _ h₁, hacc⟩
    dsimp only
    apply Yields.look_bind
    split
    next => exact Yields.pure pushed
    next => exact Yields.bind fun _ c₃ _ => importList_dotted n _ c₃ pushed

theorem importStmt_dotted : Yields importStmt t c fun k _ => k.DottedImports t := by
  rw [importStmt.eq_1]
  refine Yields.bind fun _ c₁ _ => Yields.read_bind (Yields.bind fun r _ h => Yields.pure ?_)
  have names := importList_dotted _ _ c₁ (fun _ m => absurd m (Array.not_mem_empty _)) _ _ h
  exact fun a m => names a (Array.mem_toList_iff.1 m)

/-! ### Statements at the top of a module -/

/-- Reading on from what a first part yields. -/
theorem Yields.bind_of {α β : Type} {Q : α → Cursor → Prop} {P : β → Cursor → Prop}
    {x : Grammar α} {f : α → Grammar β} (hx : Yields x t c Q)
    (h : ∀ a c₁, Q a c₁ → Yields (f a) t c₁ P) : Yields (x >>= f) t c P :=
  Yields.bind fun a c₁ hr => h a c₁ (hx a c₁ hr)

theorem simpleStmt_dotted (n : Nat) :
    Yields (simpleStmt n) t c fun (s : Stmt) _ => s.kind.DottedImports t := fun s c' h =>
  (simpleStmt_kinds (fun _ => importStmt_dotted) (fun _ _ _ _ => trivial) trivial trivial
    (fun _ => trivial) n s c' h).2

/-- Every statement of a line of simple statements has its imports read as dotted names. -/
theorem simpleLine_dotted : ∀ n (acc : Array Stmt) {c r c'}, (simpleLine n acc).Reads t c r c' →
    (∀ s ∈ acc, s.kind.DottedImports t) → ∀ s ∈ r, s.kind.DottedImports t
  | 0, _, _, _, _, h, _ => absurd h Reads.not_exhausted
  | n + 1, acc, c, r, c', h, hacc => by
    rw [simpleLine.eq_2] at h
    obtain ⟨s, c₁, hs, h⟩ := h.bind
    obtain ⟨more, c₂, -, h⟩ := h.bind
    have pushed : ∀ s' ∈ acc.push s, s'.kind.DottedImports t :=
      Array.forall_mem_push.2 ⟨simpleStmt_dotted n s c₁ hs, hacc⟩
    split at h
    · exact simpleLine_dotted n _ h pushed
    · obtain ⟨_, c₃, -, h⟩ := h.bind
      obtain ⟨rfl, rfl⟩ := h.pure
      exact pushed

/-! A definition, a compound statement and a `match` or `case` block are no imports: whichever
way their parts are read, the statement built at the end is of another kind. -/

theorem functionDef_dotted : ∀ n start ds,
    Yields (functionDef n start ds) t c fun (s : Stmt) _ => s.kind.DottedImports t
  | 0, _, _ => by
    rw [functionDef.eq_1]
    exact Yields.exhausted
  | n + 1, _, _ => by
    rw [functionDef.eq_2]
    repeat' first
      | exact Yields.pure trivial
      | exact Yields.fail
      | (refine Yields.bind fun _ _ _ => ?_)
      | split

theorem classDef_dotted : ∀ n start ds,
    Yields (classDef n start ds) t c fun (s : Stmt) _ => s.kind.DottedImports t
  | 0, _, _ => by
    rw [classDef.eq_1]
    exact Yields.exhausted
  | n + 1, _, _ => by
    rw [classDef.eq_2]
    repeat' first
      | exact Yields.pure trivial
      | exact Yields.fail
      | (refine Yields.bind fun _ _ _ => ?_)
      | split

theorem compound_dotted : ∀ n start,
    Yields (compound n start) t c fun (s : Stmt) _ => s.kind.DottedImports t
  | 0, _ => by
    rw [compound.eq_1]
    exact Yields.exhausted
  | n + 1, _ => by
    rw [compound.eq_2]
    repeat' first
      | exact Yields.pure trivial
      | exact Yields.fail
      | (refine Yields.bind fun _ _ _ => ?_)
      | split

theorem softBlock_dotted : ∀ n start,
    Yields (softBlock n start) t c fun (s : Stmt) _ => s.kind.DottedImports t
  | 0, _ => by
    rw [softBlock.eq_1]
    exact Yields.exhausted
  | n + 1, _ => by
    rw [softBlock.eq_2]
    repeat' first
      | exact Yields.pure trivial
      | exact Yields.fail
      | (refine Yields.bind fun _ _ _ => ?_)
      | split

/-- Decorators keep the kind of what they decorate, a function or a class. -/
theorem decorated_dotted : ∀ n start,
    Yields (decorated n start) t c fun (s : Stmt) _ => s.kind.DottedImports t
  | 0, _ => by
    rw [decorated.eq_1]
    exact Yields.exhausted
  | n + 1, _ => by
    rw [decorated.eq_2]
    refine Yields.bind fun _ c₁ _ => Yields.look_bind (Yields.look_bind ?_)
    dsimp only
    have keeps {g : Grammar Stmt} {c₂ : Cursor} {start : Nat}
        (hg : Yields g t c₂ fun (s : Stmt) _ => s.kind.DottedImports t) :
        Yields (g >>= fun s => lastEnd >>= fun e =>
          Pure.pure ({ origin := .source ⟨start, e⟩, kind := s.kind } : Stmt)) t c₂
          fun (s : Stmt) _ => s.kind.DottedImports t :=
      Yields.bind_of hg fun _ _ kind => Yields.look_bind (Yields.pure kind)
    split
    next => exact keeps (functionDef_dotted n _ _)
    next =>
      refine Yields.bind fun _ _ _ => Yields.look_bind ?_
      split
      · exact Yields.bind fun _ _ h => absurd h Reads.not_fail
      · exact keeps (functionDef_dotted n _ _)
    next => exact keeps (classDef_dotted n _ _)
    next => exact Yields.bind fun _ _ h => absurd h Reads.not_fail

/-- Every statement of a line at the top of a module has its imports read as dotted names. -/
theorem stmtLine_dotted : ∀ n (acc : Array Stmt) {c r c'}, (stmtLine n acc).Reads t c r c' →
    (∀ s ∈ acc, s.kind.DottedImports t) → ∀ s ∈ r, s.kind.DottedImports t
  | 0, _, _, _, _, h, _ => by
    rw [stmtLine.eq_1] at h
    exact absurd h Reads.not_exhausted
  | n + 1, acc, c, r, c', h, hacc => by
    rw [stmtLine.eq_2] at h
    have h := h.look_bind.look_bind
    -- each way but a line of simple statements pushes one statement built by a rule above
    have push {g : Grammar Stmt} {c₀ : Cursor}
        (hg : ∀ c₁, Yields g t c₁ fun (s : Stmt) _ => s.kind.DottedImports t)
        (h : (g >>= fun s => (Pure.pure (acc.push s) : Grammar (Array Stmt))).Reads t c₀ r c') :
        ∀ s ∈ r, s.kind.DottedImports t := by
      obtain ⟨s, c₁, hs, h⟩ := h.bind
      obtain ⟨rfl, rfl⟩ := h.pure
      exact Array.forall_mem_push.2 ⟨hg _ s _ hs, hacc⟩
    split at h
    next => exact push (fun _ => decorated_dotted n _) h
    next => exact push (fun _ => functionDef_dotted n _ _) h
    next => exact push (fun _ => classDef_dotted n _ _) h
    next =>
      obtain ⟨_, c₁, -, h⟩ := h.bind
      have h := h.look_bind
      split at h
      next => exact push (fun _ => functionDef_dotted n _ _) h
      next => exact push (fun _ => compound_dotted n _) h
      next => exact push (fun _ => compound_dotted n _) h
      next => exact absurd h Reads.not_fail
    all_goals first
      | exact absurd h Reads.not_fail
      | exact push (fun _ => compound_dotted n _) h
      | (have h := h.look_bind
         split at h
         · exact push (fun _ => softBlock_dotted n _) h
         · exact simpleLine_dotted n acc h hacc)
      | exact simpleLine_dotted n acc h hacc

/-- Every statement at the top of a module has its imports read as dotted names. -/
theorem statements_dotted : ∀ n (acc : Array Stmt) {c r c'},
    (statements n false acc).Reads t c r c' →
    (∀ s ∈ acc, s.kind.DottedImports t) → ∀ s ∈ r, s.kind.DottedImports t
  | 0, _, _, _, _, h, _ => by
    rw [statements.eq_1] at h
    exact absurd h Reads.not_exhausted
  | n + 1, acc, c, r, c', h, hacc => by
    rw [statements.eq_2] at h
    obtain ⟨_, c₁, -, h⟩ := h.moves
    have h := h.look_bind
    split at h
    next =>
      obtain ⟨rfl, rfl⟩ := h.pure
      exact hacc
    next => exact absurd h Reads.not_fail
    next => exact absurd h Reads.not_fail
    next =>
      obtain ⟨acc', c₂, hl, h⟩ := h.bind
      exact statements_dotted n acc' h (stmtLine_dotted n acc hl hacc)

end Grammar

/-- Every module name of an import at the top of a module read from a source is the source
text of a dotted name. -/
theorem Module.parse_dottedImports {src : String} {m : Module} (h : Module.parse src = .ok m) :
    ∀ s ∈ m.body, s.kind.DottedImports (Tape.ofSource src) := by
  unfold Module.parse at h
  dsimp only at h
  split at h
  · next body c adv heq =>
    cases h
    have reads : (Grammar.statements _ false #[]).Reads (Tape.ofSource src) ⟨0, 0⟩ body c :=
      ⟨adv, heq⟩
    intro s mem
    exact Grammar.statements_dotted _ _ reads (fun _ m => absurd m (Array.not_mem_empty _)) s
      (Array.mem_toList_iff.1 mem)
  · cases h

/-! ### Which statements bind a name -/

/-- A statement of kind `k` at the top of a module read from the tape `t` binds `x`: a function
or a class named `x`; an import with the new name `x`, or without a new name of a module whose
source text up to its first dot is `x`; a `from` import that brings in `x` or names something
`x`; or an assignment with `x` among its plain targets. -/
inductive StmtKind.Binds (t : Tape) (x : String) : StmtKind → Prop
  | functionDef {d : Definition} : d.name = x → StmtKind.Binds t x (.functionDef d)
  | classDef {d : Definition} : d.name = x → StmtKind.Binds t x (.classDef d)
  | importAs {aliases : List ImportAlias} {a : ImportAlias} : a ∈ aliases → a.asname = some x →
      StmtKind.Binds t x (.imports aliases)
  | importModule {aliases : List ImportAlias} {a : ImportAlias} : a ∈ aliases →
      a.asname = none → t.DottedText a.name →
      String.ofList (a.name.toList.takeWhile (· != '.')) = x → StmtKind.Binds t x (.imports aliases)
  | importFrom {module : Option String} {names : List ImportAlias} {level : Nat}
      {a : ImportAlias} : a ∈ names → a.asname.getD a.name = x →
      StmtKind.Binds t x (.importFrom module names level)
  | assign {names : List String} : x ∈ names → StmtKind.Binds t x (.assign names)

/-- A statement whose imports are read as dotted names binds what `StmtKind.Binds` says. -/
theorem Module.stmtBinds_iff {t : Tape} {x : String} {s : Stmt} (hk : s.kind.DottedImports t) :
    Module.stmtBinds x s = true ↔ s.kind.Binds t x := by
  obtain ⟨o, k⟩ := s
  cases k with
  | imports aliases =>
    simp only [Module.stmtBinds, List.any_eq_true, beq_iff_eq]
    constructor
    · rintro ⟨a, mem, bound⟩
      -- without a new name, what binds is the module's text up to its first dot
      cases named : a.asname with
      | some y =>
        rw [ImportAlias.boundName, named, Option.getD_some] at bound
        exact .importAs mem (by rw [named, bound])
      | none =>
        rw [ImportAlias.boundName, named, Option.getD_none] at bound
        exact .importModule mem named (hk a mem) bound
    · intro hb
      cases hb with
      | importAs mem named => exact ⟨_, mem, by rw [ImportAlias.boundName, named, Option.getD_some]⟩
      | importModule mem named _ first =>
        exact ⟨_, mem, by rw [ImportAlias.boundName, named, Option.getD_none, first]⟩
  | importFrom module names level =>
    simp only [Module.stmtBinds, List.any_eq_true, beq_iff_eq]
    constructor
    · rintro ⟨a, mem, bound⟩
      exact .importFrom mem bound
    · intro hb
      cases hb with
      | importFrom mem bound => exact ⟨_, mem, bound⟩
  | functionDef d =>
    simp only [Module.stmtBinds, beq_iff_eq]
    exact ⟨.functionDef, fun | .functionDef named => named⟩
  | classDef d =>
    simp only [Module.stmtBinds, beq_iff_eq]
    exact ⟨.classDef, fun | .classDef named => named⟩
  | assign names =>
    simp only [Module.stmtBinds, List.contains_iff_mem]
    exact ⟨.assign, fun | .assign mem => mem⟩
  | compound | docstring | simple =>
    simp only [Module.stmtBinds, Bool.false_eq_true, false_iff]
    intro hb
    cases hb

/-- A module read from a source that fits binds `x` just when a statement at its top binds `x`:
a definition of `x`, an import of `x` or of a module whose source text up to its first dot is
`x`, a `from` import of `x`, or an assignment to `x`. Statements nested in others bind
nothing here. -/
theorem Module.binds_iff {src : String} {m : Module} (_fits : Source.Fits src)
    (h : Module.parse src = .ok m) (x : String) :
    m.binds x = true ↔ ∃ s ∈ m.body, s.kind.Binds (Tape.ofSource src) x := by
  have dotted := Module.parse_dottedImports h
  unfold Module.binds
  rw [List.any_eq_true]
  exact exists_congr fun s => and_congr_right fun mem => Module.stmtBinds_iff (dotted s mem)

/-- The module read from `import a .b` binds the text of its module up to the dot. -/
theorem Module.binds_iff_spaced_dot :
    Source.Fits "import a .b\n" ∧ ∃ m, Module.parse "import a .b\n" = .ok m ∧
      (m.binds "a " = true ↔ ∃ s ∈ m.body, s.kind.Binds (Tape.ofSource "import a .b\n") "a ") := by
  obtain ⟨m, parsed⟩ := exists_parse_of_isSome "import a .b\n" (by decide +kernel)
  have fits : Source.Fits "import a .b\n" := by decide
  exact ⟨fits, m, parsed, Module.binds_iff fits parsed "a "⟩

/-- With white space before the dot, `import a .b` binds `a `, with the space, and not `a`. -/
theorem Module.binds_spaced_dot :
    (Module.parse "import a .b\n").toOption.map (fun m => (m.binds "a", m.binds "a ")) =
      some (false, true) := by
  decide +kernel

end PyTune
