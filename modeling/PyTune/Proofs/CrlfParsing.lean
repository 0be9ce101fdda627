import PyTune.Proofs.CrlfStatements
import PyTune.Proofs.RelativeImports

/-!
# A source and its CRLF form parse alike

The statement rules read both tapes alike, so a source reads exactly when its CRLF form does,
into trees of one shape (`Module.parse_crlf`); dotted names, kept as source text, agree only up
to line endings.
-/

namespace PyTune

open Text (OffsetsMatch StartsMatch)
open Scanner (LexAlike)

namespace SameShape

theorem stmt_kind {s₁ s₂ : Stmt} (h : SameShape.stmt s₁ s₂) : SameShape.kind s₁.kind s₂.kind := by
  obtain ⟨_, k₁⟩ := s₁
  obtain ⟨_, k₂⟩ := s₂
  exact h

theorem clause_keyword {c₁ c₂ : Clause} (h : SameShape.clause c₁ c₂) : c₂.keyword = c₁.keyword := by
  obtain ⟨_, _, _, _⟩ := c₁
  obtain ⟨_, _, _, _⟩ := c₂
  exact h.1

end SameShape

/-- A keyword that opens a further clause is a word of the source. -/
theorem Token.isWord_of_clauseKeyword? {tok : Token} {k : String}
    (h : tok.clauseKeyword? = some k) : tok.isWord = true := by
  cases tok <;> first | rfl | cases h

namespace Grammar

variable {p : CrlfTapes}

namespace TwinAt

variable {α β γ δ : Type} {tok : Token} {R : α → β → Prop} {S : γ → δ → Prop}

theorem ite {c₁ c₂ : Prop} [Decidable c₁] [Decidable c₂] (hc : c₂ ↔ c₁) {a₁ b₁ : Grammar α}
    {a₂ b₂ : Grammar β} (ha : TwinAt p tok R a₁ a₂) (hb : TwinAt p tok R b₁ b₂) :
    TwinAt p tok R (if c₁ then a₁ else b₁) (if c₂ then a₂ else b₂) := by
  by_cases h : c₁
  · rw [if_pos h, if_pos (hc.2 h)]
    exact ha
  · rw [if_neg h, if_neg (mt hc.1 h)]
    exact hb

/-- Looking at the tapes moves no cursor, so the next token is still `tok`. -/
theorem look_bind {f₁ : Tape → Cursor → α} {f₂ : Tape → Cursor → β} {k₁ : α → Grammar γ}
    {k₂ : β → Grammar δ} (h : ∀ c₁ c₂, p.Alike c₁ c₂ → R (f₁ p.first c₁) (f₂ p.second c₂))
    (hk : ∀ a b, R a b → TwinAt p tok S (k₁ a) (k₂ b)) :
    TwinAt p tok S (Grammar.look f₁ >>= k₁) (Grammar.look f₂ >>= k₂) :=
  fun c₁ c₂ hc ht => Ends.look_bind (hk _ _ (h c₁ c₂ hc) c₁ c₂ hc ht)

end TwinAt

/-! ### Statements -/

theorem simpleStmt_twin (n : Nat) : Twin p SameShape.stmt (simpleStmt n) (simpleStmt n) := by
  cases n with
  | zero => exact Twin.exhausted
  | succ n =>
    rw [simpleStmt.eq_2]
    refine Twin.bind peekStart_twin fun _ _ _ => ?_
    refine Twin.peek_bind (fun _ => rfl) (fun _ => rfl) fun _ => ?_
    extract_lets out₁ return₁ raise₁ assert₁ out₂ return₂ raise₂ assert₂
    -- the statement keeps its kind; where it lies is not compared
    have more : ∀ k₁ k₂, SameShape.kind k₁ k₂ → Twin p SameShape.stmt (out₁ k₁) (out₂ k₂) :=
      fun _ _ shaped => Twin.bind lastEnd_twin fun _ _ _ => Twin.pure shaped
    have simple : Twin p SameShape.stmt (pure .simple >>= out₁) (pure .simple >>= out₂) :=
      Twin.bind (Twin.pure trivial) more
    split
    · exact Twin.bind importStmt_twin more
    · exact Twin.bind fromImportStmt_twin more
    · exact Twin.fail_bind
    · exact Twin.fail_bind
    · exact Twin.fail_bind
    · exact Twin.fail_bind
    · exact Twin.skip_bind simple
    · exact Twin.skip_bind simple
    · exact Twin.skip_bind simple
    · have after : ∀ r, Twin p SameShape.stmt (return₁ r) (return₂ r) := fun _ => simple
      refine Twin.skip_bind (Twin.bind_eq startsExpression_twin fun _ => ?_)
      exact Twin.ite Iff.rfl (Twin.bind_eq (Twin.discard (starExpressions_twin n)) after) (after ())
    · have after : ∀ r, Twin p SameShape.stmt (raise₁ r) (raise₂ r) := fun _ => simple
      refine Twin.skip_bind (Twin.bind_eq startsExpression_twin fun _ => ?_)
      refine Twin.ite Iff.rfl ?_ (after ())
      refine Twin.bind_eq (expression_twin n) fun _ => ?_
      refine Twin.peek_bind (fun _ => rfl) (fun _ => rfl) fun _ => ?_
      exact Twin.ite Iff.rfl (Twin.skip_bind (Twin.bind_eq (expression_twin n) after)) (after ())
    · refine Twin.skip_bind (Twin.read_bind ?_)
      rw [p.size_eq]
      exact Twin.bind_eq (nameList_twin _) fun _ => simple
    · refine Twin.skip_bind (Twin.read_bind ?_)
      rw [p.size_eq]
      exact Twin.bind_eq (nameList_twin _) fun _ => simple
    · exact Twin.skip_bind (Twin.bind_eq (targetList_twin n) fun _ => simple)
    · have after : ∀ r, Twin p SameShape.stmt (assert₁ r) (assert₂ r) := fun _ => simple
      refine Twin.skip_bind (Twin.bind_eq (expression_twin n) fun _ => ?_)
      refine Twin.peek_bind (fun _ => rfl) (fun _ => rfl) fun _ => ?_
      exact Twin.ite Iff.rfl (Twin.skip_bind (Twin.bind_eq (expression_twin n) after)) (after ())
    · refine Twin.bind_eq secondIsName_twin fun _ => ?_
      exact Twin.ite Iff.rfl (Twin.bind_eq (typeAlias_twin n) fun _ => simple)
        (Twin.bind (expressionStmt_twin n) more)
    · -- a statement of string literals alone is a docstring on both tapes
      refine Twin.bind_eq position_twin fun i => ?_
      refine Twin.bind (expressionStmt_twin n) fun k₁ k₂ shaped => ?_
      refine Twin.bind (consumedSince_twin i) fun ls₁ ls₂ alike => ?_
      rw [all_isStr_crlf alike]
      refine Twin.bind (Twin.pure ?_) more
      split
      · trivial
      · exact shaped
    · exact Twin.bind (expressionStmt_twin n) more

theorem simpleLine_twin : ∀ n (acc₁ acc₂ : Array Stmt), SameShape.stmts acc₁.toList acc₂.toList →
    Twin p (fun r₁ r₂ : Array Stmt => SameShape.stmts r₁.toList r₂.toList)
      (simpleLine n acc₁) (simpleLine n acc₂)
  | 0, _, _, _ => Twin.exhausted
  | n + 1, acc₁, acc₂, hacc => by
    rw [simpleLine.eq_2, simpleLine.eq_2]
    refine Twin.bind (simpleStmt_twin n) fun s₁ s₂ shaped => ?_
    have pushed := SameShape.stmts_push hacc shaped
    refine Twin.bind_eq eatSemicolon_twin fun _ => ?_
    exact Twin.ite Iff.rfl (simpleLine_twin n _ _ pushed)
      (Twin.bind_eq endLine_twin fun _ => Twin.pure pushed)

/-! ### Blocks and compound statements, by induction on the depth bound they share -/

mutual

theorem statements_twin : ∀ n inBlock (acc₁ acc₂ : Array Stmt),
    SameShape.stmts acc₁.toList acc₂.toList →
    Twin p (fun r₁ r₂ : Array Stmt => SameShape.stmts r₁.toList r₂.toList)
      (statements n inBlock acc₁) (statements n inBlock acc₂)
  | 0, _, _, _, _ => by
    rw [statements.eq_1, statements.eq_1]
    exact Twin.exhausted
  | n + 1, inBlock, acc₁, acc₂, hacc => by
    rw [statements.eq_2, statements.eq_2]
    refine Twin.bind_eq skipNewlines_twin fun _ => ?_
    refine Twin.peek_bind (fun _ => rfl) (fun _ => rfl) fun _ => ?_
    split
    · exact Twin.pure hacc
    · exact Twin.ite Iff.rfl (Twin.skip_bind (Twin.pure hacc)) Twin.fail
    · exact Twin.fail
    · exact Twin.bind (stmtLine_twin n acc₁ acc₂ hacc) fun r₁ r₂ lines =>
        statements_twin n inBlock r₁ r₂ lines
termination_by structural n => n

theorem stmtLine_twin : ∀ n (acc₁ acc₂ : Array Stmt), SameShape.stmts acc₁.toList acc₂.toList →
    Twin p (fun r₁ r₂ : Array Stmt => SameShape.stmts r₁.toList r₂.toList)
      (stmtLine n acc₁) (stmtLine n acc₂)
  | 0, _, _, _ => by
    rw [stmtLine.eq_1, stmtLine.eq_1]
    exact Twin.exhausted
  | n + 1, acc₁, acc₂, hacc => by
    rw [stmtLine.eq_2, stmtLine.eq_2]
    refine Twin.bind peekStart_twin fun a₁ a₂ _ => ?_
    have push : ∀ {g₁ g₂ : Grammar Stmt}, Twin p SameShape.stmt g₁ g₂ →
        Twin p (fun r₁ r₂ : Array Stmt => SameShape.stmts r₁.toList r₂.toList)
          (g₁ >>= fun s => pure (acc₁.push s)) (g₂ >>= fun s => pure (acc₂.push s)) :=
      fun h => Twin.bind h fun _ _ shaped => Twin.pure (SameShape.stmts_push hacc shaped)
    have headed : ∀ {tok : Token}, tok.isWord = true →
        TwinAt p tok (fun r₁ r₂ : Array Stmt => SameShape.stmts r₁.toList r₂.toList)
          (compound n a₁ >>= fun s => pure (acc₁.push s))
          (compound n a₂ >>= fun s => pure (acc₂.push s)) :=
      fun hw => TwinAt.bind (compound_twin n a₁ a₂ _ hw) fun _ _ shaped =>
        Twin.pure (SameShape.stmts_push hacc shaped)
    -- `match` and `case` open a block by the tokens after them, which the two tapes share
    have soft : ∀ {tok : Token}, tok.isWord = true →
        TwinAt p tok (fun r₁ r₂ : Array Stmt => SameShape.stmts r₁.toList r₂.toList)
          (upcoming >>= fun ts => if opensBlock (ts.drop 1) = true then
            softBlock n a₁ >>= fun s => pure (acc₁.push s) else simpleLine n acc₁)
          (upcoming >>= fun ts => if opensBlock (ts.drop 1) = true then
            softBlock n a₂ >>= fun s => pure (acc₂.push s) else simpleLine n acc₂) := by
      intro tok hw
      refine TwinAt.look_bind (R := fun ts₁ ts₂ => ts₂ = ts₁.map Token.crlf)
        (fun _ _ hc => by rw [hc.index]; exact p.rests _) fun ts₁ ts₂ ahead => ?_
      rw [ahead, ← List.map_drop, opensBlock_crlf]
      exact TwinAt.ite Iff.rfl (TwinAt.bind (softBlock_twin n a₁ a₂ tok hw) fun _ _ shaped =>
        Twin.pure (SameShape.stmts_push hacc shaped))
        (TwinAt.of_twin (simpleLine_twin n acc₁ acc₂ hacc))
    refine Twin.peek_bind_at (fun _ => rfl) (fun _ => rfl) fun _ => ?_
    split
    · exact TwinAt.of_twin (push (decorated_twin n a₁ a₂))
    · exact TwinAt.of_twin (push (functionDef_twin n a₁ a₂ [] [] .nil))
    · exact TwinAt.of_twin (push (classDef_twin n a₁ a₂ [] [] .nil))
    · refine TwinAt.of_twin (Twin.skip_bind (Twin.peek_bind_at (fun _ => rfl) (fun _ => rfl)
        fun _ => ?_))
      split
      · exact TwinAt.of_twin (push (functionDef_twin n a₁ a₂ [] [] .nil))
      · exact headed rfl
      · exact headed rfl
      · exact TwinAt.of_twin Twin.fail
    · exact headed rfl
    · exact headed rfl
    · exact headed rfl
    · exact headed rfl
    · exact headed rfl
    · exact soft rfl
    · exact soft rfl
    · exact TwinAt.of_twin Twin.fail
    · exact TwinAt.of_twin Twin.fail
    · exact TwinAt.of_twin Twin.fail
    · exact TwinAt.of_twin Twin.fail
    · exact TwinAt.of_twin (simpleLine_twin n acc₁ acc₂ hacc)
termination_by structural n => n

theorem suite_twin : ∀ n owner, Twin p SameShape.suite (suite n owner) (suite n owner)
  | 0, _ => by
    rw [suite.eq_1]
    exact Twin.exhausted
  | n + 1, owner => by
    rw [suite.eq_2]
    extract_lets block header
    have opened : ∀ r, Twin p SameShape.suite (block r) (block r) := fun _ =>
      Twin.skip_bind (Twin.read_bind (Twin.bind peekStart_twin fun _ _ _ =>
        Twin.bind (statements_twin n true #[] #[] trivial) fun _ _ shaped => Twin.pure shaped))
    have after : ∀ r, Twin p SameShape.suite (header r) (header r) := fun _ =>
      Twin.skip_bind (Twin.peek_bind (fun _ => rfl) (fun _ => rfl) fun _ =>
        Twin.ite Iff.rfl (Twin.bind_eq Twin.fail opened) (opened ()))
    refine Twin.bind_eq (expect_twin rfl _) fun _ => ?_
    refine Twin.peek_bind (fun _ => rfl) (fun _ => rfl) fun _ => ?_
    split
    · exact after ()
    all_goals first
      | exact Twin.fail_bind
      | exact Twin.bind (simpleLine_twin n #[] #[] trivial) fun _ _ shaped => Twin.pure shaped
termination_by structural n => n

theorem decoratorList_twin : ∀ n (acc₁ acc₂ : Array Decorator),
    List.Forall₂ Decorator.CrlfAlike acc₁.toList acc₂.toList →
    Twin p (List.Forall₂ Decorator.CrlfAlike) (decoratorList n acc₁) (decoratorList n acc₂)
  | 0, _, _, _ => by
    rw [decoratorList.eq_1, decoratorList.eq_1]
    exact Twin.exhausted
  | n + 1, acc₁, acc₂, hacc => by
    rw [decoratorList.eq_2, decoratorList.eq_2]
    refine Twin.peek_bind (fun _ => rfl) (fun _ => rfl) fun _ => ?_
    refine Twin.ite Iff.rfl (Twin.pure hacc) ?_
    refine Twin.bind bump_twin fun _ _ _ => ?_
    refine Twin.bind_eq position_twin fun i => ?_
    refine Twin.bind_eq (namedExpression_twin n) fun _ => ?_
    refine Twin.bind (consumedSince_twin i) fun ls₁ ls₂ alike => ?_
    refine Twin.bind_eq endLine_twin fun _ => ?_
    refine Twin.bind lastEnd_twin fun _ _ _ => Twin.read_bind ?_
    rw [p.source_first, p.source_second]
    refine Twin.bind_eq skipNewlines_twin fun _ => decoratorList_twin n _ _ ?_
    rw [Array.toList_push, Array.toList_push]
    exact List.rel_append hacc (.cons (DecoratorShape.ofLexemes_crlf alike) .nil)
termination_by structural n => n

theorem decorated_twin : ∀ n a₁ a₂, Twin p SameShape.stmt (decorated n a₁) (decorated n a₂)
  | 0, _, _ => by
    rw [decorated.eq_1, decorated.eq_1]
    exact Twin.exhausted
  | n + 1, a₁, a₂ => by
    rw [decorated.eq_2, decorated.eq_2]
    refine Twin.bind (decoratorList_twin n #[] #[] .nil) fun ds₁ ds₂ decorators => ?_
    refine Twin.bind peekStart_twin fun b₁ b₂ _ => ?_
    refine Twin.peek_bind (fun _ => rfl) (fun _ => rfl) fun _ => ?_
    extract_lets framed₁ defn₁ framed₂ defn₂
    have more : ∀ s₁ s₂, SameShape.stmt s₁ s₂ → Twin p SameShape.stmt (framed₁ s₁) (framed₂ s₂) :=
      fun _ _ shaped => Twin.bind lastEnd_twin fun _ _ _ => Twin.pure (SameShape.stmt_kind shaped)
    have defn : ∀ r, Twin p SameShape.stmt (defn₁ r) (defn₂ r) := fun _ =>
      Twin.bind (functionDef_twin n b₁ b₂ ds₁ ds₂ decorators) more
    split
    · exact defn ()
    · exact Twin.skip_bind (Twin.peek_bind (fun _ => rfl) (fun _ => rfl) fun _ =>
        Twin.ite Iff.rfl (Twin.bind_eq Twin.fail defn) (defn ()))
    · exact Twin.bind (classDef_twin n b₁ b₂ ds₁ ds₂ decorators) more
    · exact Twin.fail_bind
termination_by structural n => n

theorem functionDef_twin : ∀ n a₁ a₂ (ds₁ ds₂ : List Decorator),
    List.Forall₂ Decorator.CrlfAlike ds₁ ds₂ →
    Twin p SameShape.stmt (functionDef n a₁ ds₁) (functionDef n a₂ ds₂)
  | 0, _, _, _, _, _ => by
    rw [functionDef.eq_1, functionDef.eq_1]
    exact Twin.exhausted
  | n + 1, a₁, a₂, ds₁, ds₂, hds => by
    rw [functionDef.eq_2, functionDef.eq_2]
    refine Twin.skip_bind (Twin.bind_eq (expectName_twin _) fun name => ?_)
    refine Twin.peek_bind (fun _ => rfl) (fun _ => rfl) fun _ => ?_
    extract_lets result₁ signature₁ result₂ signature₂
    have body : ∀ r, Twin p SameShape.stmt (result₁ r) (result₂ r) := fun _ =>
      Twin.bind (suite_twin n _) fun _ _ bodies =>
        Twin.read_bind (Twin.bind lastEnd_twin fun _ _ _ => Twin.pure ⟨rfl, hds, bodies⟩)
    have signature : ∀ r, Twin p SameShape.stmt (signature₁ r) (signature₂ r) := fun _ =>
      Twin.bind_eq (expect_twin rfl _) fun _ => Twin.bind_eq (parameters_twin n _ _ rfl) fun _ =>
        Twin.bind_eq (expect_twin rfl _) fun _ =>
          Twin.peek_bind (fun _ => rfl) (fun _ => rfl) fun _ =>
            Twin.ite Iff.rfl (Twin.skip_bind (Twin.bind_eq (expression_twin n) body)) (body ())
    exact Twin.ite Iff.rfl (Twin.bind_eq (typeParams_twin n) signature) (signature ())
termination_by structural n => n

theorem classDef_twin : ∀ n a₁ a₂ (ds₁ ds₂ : List Decorator),
    List.Forall₂ Decorator.CrlfAlike ds₁ ds₂ →
    Twin p SameShape.stmt (classDef n a₁ ds₁) (classDef n a₂ ds₂)
  | 0, _, _, _, _, _ => by
    rw [classDef.eq_1, classDef.eq_1]
    exact Twin.exhausted
  | n + 1, a₁, a₂, ds₁, ds₂, hds => by
    rw [classDef.eq_2, classDef.eq_2]
    refine Twin.skip_bind (Twin.bind_eq (expectName_twin _) fun name => ?_)
    refine Twin.peek_bind (fun _ => rfl) (fun _ => rfl) fun _ => ?_
    extract_lets result₁ bases₁ result₂ bases₂
    have body : ∀ r, Twin p SameShape.stmt (result₁ r) (result₂ r) := fun _ =>
      Twin.bind (suite_twin n _) fun _ _ bodies =>
        Twin.read_bind (Twin.bind lastEnd_twin fun _ _ _ => Twin.pure ⟨rfl, hds, bodies⟩)
    have bases : ∀ r, Twin p SameShape.stmt (bases₁ r) (bases₂ r) := fun _ =>
      Twin.peek_bind (fun _ => rfl) (fun _ => rfl) fun _ =>
        Twin.ite Iff.rfl (Twin.skip_bind (Twin.bind_eq (callArguments_twin n) fun _ =>
          Twin.bind_eq (expect_twin rfl _) body)) (body ())
    exact Twin.ite Iff.rfl (Twin.bind_eq (typeParams_twin n) bases) (bases ())
termination_by structural n => n

theorem compound_twin : ∀ n a₁ a₂ tok, tok.isWord = true →
    TwinAt p tok SameShape.stmt (compound n a₁) (compound n a₂)
  | 0, _, _, _, _ => by
    rw [compound.eq_1, compound.eq_1]
    exact TwinAt.of_twin Twin.exhausted
  | n + 1, a₁, a₂, tok, hw => by
    rw [compound.eq_2, compound.eq_2]
    refine TwinAt.bind (clause_twin n tok hw) fun c₁ c₂ first => ?_
    rw [SameShape.clause_keyword first]
    refine Twin.bind (moreClauses_twin n _ _ #[c₁] #[c₂] ⟨first, trivial⟩) fun cs₁ cs₂ clauses => ?_
    extract_lets framed₁ framed₂
    -- a `try` needs a handler among its clauses: their keywords are the same on both tapes
    have handlers : (cs₂.any fun c => c.keyword == "except" || c.keyword == "finally") =
        (cs₁.any fun c => c.keyword == "except" || c.keyword == "finally") := by
      have any_keywords : ∀ cs : Array Clause,
          (cs.any fun c => c.keyword == "except" || c.keyword == "finally") =
            ((cs.toList.map Clause.keyword).any fun k => k == "except" || k == "finally") := by
        intro cs
        rw [List.any_map, Array.any_toList]
        rfl
      rw [any_keywords, any_keywords, SameShape.clauses_keywords clauses]
    rw [handlers]
    have more : ∀ r, Twin p SameShape.stmt (framed₁ r) (framed₂ r) := fun _ =>
      Twin.bind lastEnd_twin fun _ _ _ => Twin.pure clauses
    exact Twin.ite Iff.rfl (Twin.bind_eq Twin.fail more) (more ())
termination_by structural n => n

theorem moreClauses_twin : ∀ n first last (acc₁ acc₂ : Array Clause),
    SameShape.clauses acc₁.toList acc₂.toList →
    Twin p (fun r₁ r₂ : Array Clause => SameShape.clauses r₁.toList r₂.toList)
      (moreClauses n first last acc₁) (moreClauses n first last acc₂)
  | 0, _, _, _, _, _ => by
    rw [moreClauses.eq_1, moreClauses.eq_1]
    exact Twin.exhausted
  | n + 1, first, last, acc₁, acc₂, hacc => by
    rw [moreClauses.eq_2, moreClauses.eq_2]
    refine Twin.peek_bind_at (fun _ => rfl) (fun _ => rfl) fun tok => ?_
    split
    · next clauseKw =>
      refine TwinAt.ite Iff.rfl ?_ (TwinAt.of_twin (Twin.pure hacc))
      refine TwinAt.bind (clause_twin n tok (Token.isWord_of_clauseKeyword? clauseKw))
        fun c₁ c₂ more => ?_
      rw [SameShape.clause_keyword more]
      exact moreClauses_twin n first _ _ _ (SameShape.clauses_push hacc more)
    · exact TwinAt.of_twin (Twin.pure hacc)
termination_by structural n => n

theorem clause_twin : ∀ n tok, tok.isWord = true →
    TwinAt p tok SameShape.clause (clause n) (clause n)
  | 0, _, _ => by
    rw [clause.eq_1]
    exact TwinAt.of_twin Twin.exhausted
  | n + 1, tok, hw => by
    rw [clause.eq_2]
    refine TwinAt.bind (bump_word hw) fun l₁ l₂ same => ?_
    refine Twin.read_bind ?_
    rw [p.source_second, p.source_first, same]
    refine Twin.bind_eq position_twin fun i => ?_
    extract_lets header
    -- the header's names are words of the source, the same on both tapes
    have rest : ∀ r, Twin p SameShape.clause (header r) (header r) := by
      intro r
      refine Twin.read_bind (Twin.bind (consumedSince_twin i) fun ls₁ ls₂ alike => ?_)
      rw [p.source_first, p.source_second]
      have names := headerWords_crlf alike
      generalize headerWords (Text.crlf p.src) ls₂ = w₂ at names ⊢
      generalize headerWords p.src ls₁ = w₁ at names ⊢
      obtain ⟨names₁, strings₁⟩ := w₁
      obtain ⟨names₂, strings₂⟩ := w₂
      exact Twin.bind (suite_twin n _) fun _ _ bodies => Twin.pure ⟨rfl, names, bodies⟩
    split
    · exact Twin.bind_eq (namedExpression_twin n) rest
    · exact Twin.bind_eq (namedExpression_twin n) rest
    · exact Twin.bind_eq (namedExpression_twin n) rest
    · exact Twin.bind_eq (targetList_twin n) fun _ => Twin.bind_eq (expect_twin rfl _) fun _ =>
        Twin.bind_eq (Twin.discard (starExpressions_twin n)) rest
    · exact Twin.bind_eq (withItems_twin n) rest
    · exact Twin.bind_eq (exceptHeader_twin n) rest
    · exact rest ()
termination_by structural n => n

theorem softBlock_twin : ∀ n a₁ a₂ tok, tok.isWord = true →
    TwinAt p tok SameShape.stmt (softBlock n a₁) (softBlock n a₂)
  | 0, _, _, _, _ => by
    rw [softBlock.eq_1, softBlock.eq_1]
    exact TwinAt.of_twin Twin.exhausted
  | n + 1, a₁, a₂, tok, hw => by
    rw [softBlock.eq_2, softBlock.eq_2]
    refine TwinAt.bind (bump_word hw) fun l₁ l₂ same => ?_
    refine Twin.read_bind ?_
    rw [p.source_second, p.source_first, same]
    refine Twin.bind_eq position_twin fun i => ?_
    extract_lets header₁ header₂
    have rest : ∀ r, Twin p SameShape.stmt (header₁ r) (header₂ r) := by
      intro r
      refine Twin.read_bind (Twin.bind (consumedSince_twin i) fun ls₁ ls₂ alike => ?_)
      rw [p.source_first, p.source_second]
      have names := headerWords_crlf alike
      generalize headerWords (Text.crlf p.src) ls₂ = w₂ at names ⊢
      generalize headerWords p.src ls₁ = w₁ at names ⊢
      obtain ⟨names₁, strings₁⟩ := w₁
      obtain ⟨names₂, strings₂⟩ := w₂
      exact Twin.bind (suite_twin n _) fun _ _ bodies => Twin.bind lastEnd_twin fun _ _ _ =>
        Twin.pure ⟨⟨rfl, names, bodies⟩, trivial⟩
    refine Twin.ite Iff.rfl (Twin.bind_eq (starNamedExpressions_twin n) rest) (Twin.read_bind ?_)
    rw [p.size_eq]
    exact Twin.bind_eq (skipPattern_twin _ 0 0) rest
termination_by structural n => n

end

end Grammar

/-- A source and its CRLF form read alike: one reads exactly when the other does, into trees of
one shape, as long as no string literal in single quotes runs on over a line end and the CRLF
form, the longer of the two, fits. -/
theorem Module.parse_crlf (src : String) (_fits : Source.Fits (Text.crlf src))
    (hq : ∀ l ∈ (Lexeme.scan src).toList, l.token.continuesQuote = false) :
    ((∃ m₁, Module.parse src = .ok m₁) ↔ (∃ m₂, Module.parse (Text.crlf src) = .ok m₂)) ∧
    ∀ m₁ m₂, Module.parse src = .ok m₁ → Module.parse (Text.crlf src) = .ok m₂ →
      SameShape.stmts m₁.body m₂.body := by
  let p := CrlfTapes.ofSource src hq
  have fuel : (Tape.ofSource (Text.crlf src)).lexemes.size = (Tape.ofSource src).lexemes.size :=
    p.size_eq
  have ends : Grammar.Ends p (fun r₁ r₂ : Array Stmt => SameShape.stmts r₁.toList r₂.toList)
      (Grammar.statements (32 * ((Tape.ofSource src).lexemes.size + 2)) false #[]
        (Tape.ofSource src) ⟨0, 0⟩)
      (Grammar.statements (32 * ((Tape.ofSource src).lexemes.size + 2)) false #[]
        (Tape.ofSource (Text.crlf src)) ⟨0, 0⟩) :=
    Grammar.statements_twin _ false #[] #[] trivial ⟨0, 0⟩ ⟨0, 0⟩ (CrlfTapes.Alike.start p)
  unfold Module.parse
  dsimp only
  rw [fuel]
  revert ends
  generalize Grammar.statements (32 * ((Tape.ofSource src).lexemes.size + 2)) false #[]
    (Tape.ofSource src) ⟨0, 0⟩ = r₁
  generalize Grammar.statements (32 * ((Tape.ofSource src).lexemes.size + 2)) false #[]
    (Tape.ofSource (Text.crlf src)) ⟨0, 0⟩ = r₂
  intro ends
  rcases r₁ with e₁ | ⟨⟨body₁, c₁⟩, h₁⟩ <;> rcases r₂ with e₂ | ⟨⟨body₂, c₂⟩, h₂⟩
  · refine ⟨⟨?_, ?_⟩, ?_⟩
    · rintro ⟨_, stuck⟩
      cases stuck
    · rintro ⟨_, stuck⟩
      cases stuck
    · intro _ _ stuck
      cases stuck
  · exact ends.elim
  · exact ends.elim
  · refine ⟨⟨fun _ => ⟨_, rfl⟩, fun _ => ⟨_, rfl⟩⟩, ?_⟩
    rintro m₁ m₂ ⟨⟩ ⟨⟩
    exact ends.1

/-- A decorator whose dotted name runs over a backslash continuation, on a function whose body
is a string literal in triple quotes over two lines. -/
theorem Module.parse_crlf_continued :
    Source.Fits (Text.crlf "@a.\\\nb\ndef f(): '''x\ny'''\n") ∧
    (∀ l ∈ (Lexeme.scan "@a.\\\nb\ndef f(): '''x\ny'''\n").toList,
      l.token.continuesQuote = false) ∧
    ((∃ m₁, Module.parse "@a.\\\nb\ndef f(): '''x\ny'''\n" = .ok m₁) ↔
      (∃ m₂, Module.parse (Text.crlf "@a.\\\nb\ndef f(): '''x\ny'''\n") = .ok m₂)) ∧
    ∀ m₁ m₂, Module.parse "@a.\\\nb\ndef f(): '''x\ny'''\n" = .ok m₁ →
      Module.parse (Text.crlf "@a.\\\nb\ndef f(): '''x\ny'''\n") = .ok m₂ →
        SameShape.stmts m₁.body m₂.body := by
  have hq : ∀ l ∈ (Lexeme.scan "@a.\\\nb\ndef f(): '''x\ny'''\n").toList,
      l.token.continuesQuote = false := by
    decide +kernel
  have fits : Source.Fits (Text.crlf "@a.\\\nb\ndef f(): '''x\ny'''\n") := by decide +kernel
  exact ⟨fits, hq, Module.parse_crlf _ fits hq⟩

/-- The two ways a source and its CRLF form read apart. The module of a `from` import that runs
over a backslash continuation is its source text, so it keeps the carriage return; and a string
literal in single quotes carried onto the next line by a backslash reads in the source but is
unterminated in the CRLF form, whose backslash escapes the carriage return. -/
theorem Module.parse_crlf_differs :
    (Module.parse "from a.\\\nb import c\n").toOption.map (·.body.map (·.kind.fromImport?)) =
      some [some (some "a.\\\nb", 0)] ∧
    (Module.parse (Text.crlf "from a.\\\nb import c\n")).toOption.map
        (·.body.map (·.kind.fromImport?)) = some [some (some "a.\\\r\nb", 0)] ∧
    (Module.parse "x = 'a\\\nb'\n").toOption.isSome = true ∧
    (Module.parse (Text.crlf "x = 'a\\\nb'\n")).toOption.isSome = false := by
  decide +kernel

end PyTune
