import PyTune.Proofs.Scanning
import PyTune.Proofs.Session

/-!
# Edited modules print as their source with texts written in

A module read from a source lies in it (`Module.parse_placed`), and the edits keep that; so after
every session of calls, printing writes the source with the texts of `Module.chunks` spliced in
(`Module.session_splices`).
-/

namespace PyTune

/-! ### A source that reads -/

namespace Grammar

variable {t : Tape}

/-- The top-level statements are read up to the end of input. -/
theorem statements_ends : ∀ n (acc : Array Stmt) {c : Cursor} {r : Array Stmt} {c' : Cursor},
    (statements n false acc).Reads t c r c' → (t.lexemeAt c'.index).token = .eof
  | 0, _, _, _, _, h => by
    rw [statements.eq_1] at h
    exact absurd h Reads.not_exhausted
  | n + 1, acc, c, r, c', h => by
    rw [statements.eq_2] at h
    obtain ⟨_, c₁, _, h⟩ := h.moves
    have h := h.look_bind
    split at h
    next heof =>
      obtain ⟨rfl, rfl⟩ := h.pure
      exact heof
    next => exact absurd h Reads.not_fail
    next => exact absurd h Reads.not_fail
    next =>
      obtain ⟨acc', c₂, _, h⟩ := h.bind
      exact statements_ends n acc' h

end Grammar

/-- A reading that got to the end of input passed every lexeme before it; since only the last
lexeme ends the input, no lexeme of the source is a lexical fault. -/
theorem Lexeme.scan_noFault {src : String} {c : Cursor} (h : (Tape.ofSource src).Advance ⟨0, 0⟩ c)
    (he : ((Tape.ofSource src).lexemeAt c.index).token = .eof) :
    ∀ l ∈ (Lexeme.scan src).toList, l.token.fault? = none := by
  intro l hl
  obtain ⟨k, hk, rfl⟩ := List.getElem_of_mem hl
  have tape : (Tape.ofSource src).lexemes = Lexeme.scan src := rfl
  have at_k : (Tape.ofSource src).lexemeAt k = (Lexeme.scan src).toList[k] := by
    rw [Tape.lexemeAt_eq, tape, List.getElem?_eq_getElem hk, Option.getD_some]
  by_cases before : k < c.index
  · rw [← at_k]
    exact h.noFault k (Nat.zero_le _) before
  · -- the lexeme at the cursor ends the input, so it is the last one, the one at `k`
    have at_c : (Lexeme.scan src).toList[c.index]? =
        some ((Tape.ofSource src).lexemeAt c.index) := by
      rw [Tape.lexemeAt_eq, tape, List.getElem?_eq_getElem (by omega), Option.getD_some]
    have last : (Lexeme.scan src).toList.length = c.index + 1 :=
      Scanner.lexemes_eof _ _ _ _ at_c he
    have same : k = c.index := by omega
    subst same
    rw [← at_k, he]
    rfl

/-- Statements placed up to an offset within the source are placed as top-level ones. -/
theorem Placed.top_of_stmts {src : String} : ∀ {lo hi : Nat} {body : List Stmt},
    Placed.stmts src lo body hi → hi ≤ src.utf8ByteSize → Placed.top src lo body
  | _, _, [], h, hle => Nat.le_trans h hle
  | _, _, s :: _, ⟨sp, ho, hstart, hstop, hlo, hs, hrest⟩, hle => by
    simp only [Placed.top, ho]
    exact ⟨hstart, hstop, hlo, hs, Placed.top_of_stmts hrest hle⟩

/-- A module read from a source keeps the source, and its statements lie in it in order. -/
theorem Module.parse_placed {src : String} {m : Module} (h : Module.parse src = .ok m) :
    m.source = src ∧ Placed.top src 0 m.body := by
  unfold Module.parse at h
  dsimp only at h
  split at h
  · next body c adv heq =>
    cases h
    have reads : (Grammar.statements _ false #[]).Reads (Tape.ofSource src) ⟨0, 0⟩ body c :=
      ⟨adv, heq⟩
    have ordered := Tape.ordered_ofSource src
      (Lexeme.scan_noFault adv (Grammar.statements_ends _ _ reads))
    have placed := Grammar.statements_placed ordered _ false #[] (Cursor.fits_start _) reads
      (Nat.le_refl 0)
    have fits := (adv.fits ordered (Cursor.fits_start _)).1
    exact ⟨rfl, Placed.top_of_stmts placed fits.boundary.le_size⟩
  · cases h

/-! ### Edits keep the pieces placed -/

section

variable {src : String}

/-- An inserted decorator goes after all the others. -/
theorem Placed.decorators_push (name : String) : ∀ {lo hi : Nat} {ds : List Decorator},
    Placed.decorators src lo ds hi → Placed.decorators src lo (ds ++ [Decorator.inserted name]) hi
  | _, _, [], h => ⟨h, fun _ h => absurd h List.not_mem_nil⟩
  | _, _, d :: _, h => by
    cases ho : d.origin with
    | source sp =>
      simp only [List.cons_append, Placed.decorators, ho] at h ⊢
      exact ⟨h.1, h.2.1, Placed.decorators_push name h.2.2⟩
    | inserted _ =>
      simp only [List.cons_append, Placed.decorators, ho] at h ⊢
      refine ⟨h.1, fun d' hd' => ?_⟩
      rcases List.mem_append.1 hd' with hd' | hd'
      · exact h.2 d' hd'
      · rw [List.mem_singleton.1 hd']
        rfl

theorem Placed.decorators_withDecorator (name : String) {lo hi : Nat} {ds : List Decorator}
    (h : Placed.decorators src lo ds hi) :
    Placed.decorators src lo (Decorate.withDecorator name ds).1 hi := by
  unfold Decorate.withDecorator
  split
  · exact h
  · exact Placed.decorators_push name h

mutual

theorem Placed.stmts_decorate (name : String) : ∀ {lo hi : Nat} (body : List Stmt),
    Placed.stmts src lo body hi → Placed.stmts src lo (Decorate.stmts name body).1 hi
  | _, _, [], h => h
  | _, _, s :: rest, ⟨sp, ho, hstart, hstop, hlo, hs, hrest⟩ =>
    ⟨sp, (Decorate.stmt_origin name s).trans ho, hstart, hstop, hlo,
      Placed.stmt_decorate name s hs, Placed.stmts_decorate name rest hrest⟩

theorem Placed.stmt_decorate (name : String) : ∀ {lo hi : Nat} (s : Stmt),
    Placed.stmt src lo s hi → Placed.stmt src lo (Decorate.stmt name s).1 hi
  | _, _, ⟨_, .functionDef ⟨_, _, _, _, body⟩⟩, ⟨hds, hoff, hbody⟩ =>
    ⟨Placed.decorators_withDecorator name hds, hoff, Placed.suite_decorate name body hbody⟩
  | _, _, ⟨_, .classDef ⟨_, _, _, _, body⟩⟩, ⟨hds, hoff, hbody⟩ =>
    ⟨hds, hoff, Placed.suite_decorate name body hbody⟩
  | _, _, ⟨_, .compound cs⟩, h => Placed.clauses_decorate name cs h
  | _, _, ⟨_, .imports _⟩, h | _, _, ⟨_, .importFrom _ _ _⟩, h | _, _, ⟨_, .docstring⟩, h
  | _, _, ⟨_, .assign _⟩, h | _, _, ⟨_, .simple⟩, h => h

theorem Placed.clauses_decorate (name : String) : ∀ {lo hi : Nat} (cs : List Clause),
    Placed.clauses src lo cs hi → Placed.clauses src lo (Decorate.clauses name cs).1 hi
  | _, _, [], h => h
  | _, _, ⟨_, _, _, body⟩ :: rest, ⟨mid, hbody, hrest⟩ =>
    ⟨mid, Placed.suite_decorate name body hbody, Placed.clauses_decorate name rest hrest⟩

theorem Placed.suite_decorate (name : String) : ∀ {lo hi : Nat} (body : Suite),
    Placed.suite src lo body hi → Placed.suite src lo (Decorate.suite name body).1 hi
  | _, _, .inline body, h => Placed.stmts_decorate name body h
  | _, _, .block _ body, h => Placed.stmts_decorate name body h

end

theorem Placed.top_decorate (name : String) : ∀ {lo : Nat} (body : List Stmt),
    Placed.top src lo body → Placed.top src lo (Decorate.stmts name body).1
  | _, [], h => h
  | _, s :: rest, h => by
    have origin := Decorate.stmt_origin name s
    show Placed.top src _ ((Decorate.stmt name s).1 :: (Decorate.stmts name rest).1)
    cases ho : s.origin with
    | source sp =>
      simp only [Placed.top, ho, origin] at h ⊢
      exact ⟨h.1, h.2.1, h.2.2.1, Placed.stmt_decorate name s h.2.2.2.1,
        Placed.top_decorate name rest h.2.2.2.2⟩
    | inserted _ =>
      simp only [Placed.top, ho, origin] at h ⊢
      exact ⟨h.1, Placed.top_decorate name rest h.2⟩

/-- Inserted statements, each with some text, may go anywhere among the top-level ones. -/
theorem Placed.top_insert {added : List Stmt}
    (hadded : ∀ s ∈ added, ∃ text, s.origin = .inserted text ∧ text ≠ "") :
    ∀ (i : Nat) {lo : Nat} (body : List Stmt), Placed.top src lo body →
      Placed.top src lo (body.take i ++ added ++ body.drop i) := by
  have front : ∀ {lo : Nat} (rest : List Stmt), Placed.top src lo rest →
      Placed.top src lo (added ++ rest) := by
    intro lo rest h
    induction added with
    | nil => exact h
    | cons s more ih =>
      obtain ⟨text, ho, ht⟩ := hadded s List.mem_cons_self
      simp only [List.cons_append, Placed.top, ho]
      exact ⟨ht, ih fun s hs => hadded s (List.mem_cons_of_mem _ hs)⟩
  intro i
  induction i with
  | zero => intro lo body h; exact front body h
  | succ i ih =>
    intro lo body h
    cases body with
    | nil => exact front [] h
    | cons s rest =>
      simp only [List.take_succ_cons, List.drop_succ_cons, List.cons_append, List.append_assoc]
      cases ho : s.origin with
      | source sp =>
        simp only [Placed.top, ho] at h ⊢
        refine ⟨h.1, h.2.1, h.2.2.1, h.2.2.2.1, ?_⟩
        simpa only [List.append_assoc] using ih rest h.2.2.2.2
      | inserted _ =>
        simp only [Placed.top, ho] at h ⊢
        exact ⟨h.1, by simpa only [List.append_assoc] using ih rest h.2⟩

end

/-- Every call keeps the source of a module and its pieces placed in it. -/
theorem Module.placed_perform {m : Module} (h : Placed.top m.source 0 m.body) (c : Call) :
    Placed.top (m.perform c).1.source 0 (m.perform c).1.body := by
  obtain ⟨source, same | ⟨name, decorated⟩ | ⟨i, added, inserted, texts⟩⟩ := m.perform_cases c
  · rw [source, same]
    exact h
  · rw [source, decorated]
    exact Placed.top_decorate name m.body h
  · rw [source, inserted]
    exact Placed.top_insert (fun s hs => (texts s hs).1) i m.body h

/-- What every call keeps holds of the module after every session. -/
theorem Module.session_keeps (I : Module → Prop)
    (keep : ∀ (m : Module) (c : Call), I m → I (m.perform c).1) :
    ∀ {m : Module} (calls : List Call), I m → I (m.session calls).1
  | _, [], h => h
  | m, c :: cs, h => Module.session_keeps I keep cs (keep m c h)

/-- A session keeps the source of the module it edits. -/
theorem Module.source_session (m : Module) (calls : List Call) :
    (m.session calls).1.source = m.source :=
  Module.session_keeps (fun m' => m'.source = m.source)
    (fun m' c h => (m'.perform_cases c).1.trans h) calls rfl

/-! ### Printing an edited module -/

/-- Read a source, edit the module in place by any sequence of calls: printing it gives the
source with exactly the texts of `Module.chunks` written in at their offsets, which rise and
fall between characters, so that no byte of the source is changed, dropped or moved. -/
theorem Module.session_splices {src : String} {m : Module} (h : Module.parse src = .ok m)
    (calls : List Call) :
    Splices src (m.session calls).1.chunks (m.session calls).1.render := by
  obtain ⟨source, placed⟩ := Module.parse_placed h
  have kept := Module.session_keeps (fun m' => Placed.top m'.source 0 m'.body)
    (fun _ c h => Module.placed_perform h c) calls (source ▸ placed)
  have spliced := Module.render_splices kept
  rwa [Module.source_session, source] at spliced

/-- A function decorated, an import made sure of and the guard added, in a module read from a
two-line source. -/
theorem Module.session_splices_function :
    ∃ m, Module.parse "def f():\n    pass\n" = .ok m ∧
      Splices "def f():\n    pass\n"
        (m.session [.addDecorator "njit", .ensureImport "import os", .ensureEntryPoint]).1.chunks
        (m.session [.addDecorator "njit", .ensureImport "import os", .ensureEntryPoint]).1.render := by
  obtain ⟨m, hm⟩ : ∃ m, Module.parse "def f():\n    pass\n" = .ok m := by
    cases hp : Module.parse "def f():\n    pass\n" with
    | error e =>
      have reads : (Module.parse "def f():\n    pass\n").toOption.isSome := by decide +kernel
      simp [hp, Except.toOption] at reads
    | ok m => exact ⟨m, rfl⟩
  exact ⟨m, hm, Module.session_splices hm _⟩

example : ((Module.parse "def f():\n    pass\n").toOption.map fun m =>
    (m.session [.addDecorator "njit", .ensureImport "import os"]).1.chunks) =
    some [⟨0, "import os\n"⟩, ⟨0, "@njit\n"⟩] := by
  decide +kernel

end PyTune
