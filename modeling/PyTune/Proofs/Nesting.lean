import PyTune.Proofs.Tiling

/-!
# What an expression reads

An expression is read within one logical line, and its brackets nest. `Tape.Nests t i j a b`
says the lexemes from `i` to `j` take the reading of `Lexeme.exprScan` from the brackets `a` to
`b`; every reader of expressions reads lexemes that nest (`expression_nests`).
-/

namespace PyTune

namespace Token

/-- A token that an expression reads as it is, wherever it stands: no layout, no lexical fault,
no bracket, no colon and no lambda. -/
def Plain (tok : Token) : Prop :=
  tok.isLayout = false ∧ tok.fault? = none ∧ tok.opening? = none ∧ tok.closing? = none ∧
    tok ≠ .colon ∧ tok ≠ .keyword .lambda

instance : DecidablePred Plain := fun _ => inferInstanceAs (Decidable (_ ∧ _))

theorem Plain.of_nameText {tok : Token} (h : tok.nameText?.isSome = true) : tok.Plain := by
  cases tok with
  | name => exact ⟨rfl, rfl, rfl, rfl, Token.noConfusion, Token.noConfusion⟩
  | keyword k =>
    cases k <;> simp_all [nameText?, Keyword.isSoft] <;> decide
  | _ => simp [nameText?] at h

theorem plain_of_isUnary {tok : Token} (h : Grammar.isUnary tok = true) : tok.Plain := by
  cases tok with
  | op => exact ⟨rfl, rfl, rfl, rfl, Token.noConfusion, Token.noConfusion⟩
  | _ => simp [Grammar.isUnary] at h

theorem plain_of_beq {tok other : Token} (h : (tok == other) = true) (ho : other.Plain) :
    tok.Plain := by
  rw [beq_iff_eq.1 h]
  exact ho

theorem plain_of_eq {tok other : Token} (h : tok = other) (ho : other.Plain) : tok.Plain := by
  rw [h]
  exact ho

theorem plain_op (o : String) : (Token.op o).Plain :=
  ⟨rfl, rfl, rfl, rfl, Token.noConfusion, Token.noConfusion⟩

theorem plain_of_not_bne {tok other : Token} (h : ¬ (tok != other) = true) (ho : other.Plain) :
    tok.Plain := by
  simp only [bne_iff_ne, ne_eq, Decidable.not_not] at h
  rw [h]
  exact ho

end Token

namespace Lexeme

/-- One lexeme of an expression, read with the brackets open before it (innermost first, each
with where it opens) and the number of lambdas outside brackets whose colon has not come: the
brackets and lambdas after it, or none where the expression cannot go on. -/
def exprStep (stack : List (Char × Nat)) (lambdas : Nat) (l : Lexeme) :
    Option (List (Char × Nat) × Nat) :=
  if l.token.isLayout || l.token.fault?.isSome then none
  else if stack.isEmpty && l.token == .colon then
    if lambdas == 0 then none else some (stack, lambdas - 1)
  else if stack.isEmpty && l.token == .keyword .lambda then some (stack, lambdas + 1)
  else (nestStep stack l).map (·, lambdas)

/-- Lexemes read one after another as by `exprStep`. -/
def exprScan : List (Char × Nat) → Nat → List Lexeme → Option (List (Char × Nat) × Nat)
  | stack, lambdas, [] => some (stack, lambdas)
  | stack, lambdas, l :: ls => (exprStep stack lambdas l).bind fun r => exprScan r.1 r.2 ls

variable {stack : List (Char × Nat)} {lambdas : Nat} {l : Lexeme}

theorem exprScan_append (xs ys : List Lexeme) (stack : List (Char × Nat)) (lambdas : Nat) :
    exprScan stack lambdas (xs ++ ys) =
      (exprScan stack lambdas xs).bind fun r => exprScan r.1 r.2 ys := by
  induction xs generalizing stack lambdas with
  | nil => rfl
  | cons x xs ih =>
    simp only [List.cons_append, exprScan]
    cases exprStep stack lambdas x with
    | none => rfl
    | some r => exact ih r.1 r.2

theorem exprStep_plain (h : l.token.Plain) : exprStep stack lambdas l = some (stack, lambdas) := by
  obtain ⟨layout, fault, opening, closing, colon, lambda⟩ := h
  simp [exprStep, layout, fault, colon, lambda, nestStep_plain opening closing]

theorem exprStep_colon (hc : l.token = .colon) (hs : stack ≠ []) :
    exprStep stack lambdas l = some (stack, lambdas) := by
  have plain : nestStep stack l = some stack := nestStep_plain (by rw [hc]; rfl) (by rw [hc]; rfl)
  simp [exprStep, hc, hs, plain, Token.isLayout, Token.fault?]

theorem exprStep_colon_top (hc : l.token = .colon) (hl : 0 < lambdas) :
    exprStep [] lambdas l = some ([], lambdas - 1) := by
  simp [exprStep, hc, Nat.pos_iff_ne_zero.1 hl, Token.isLayout, Token.fault?]

theorem exprStep_lambda (hk : l.token = .keyword .lambda) (hs : stack ≠ []) :
    exprStep stack lambdas l = some (stack, lambdas) := by
  have plain : nestStep stack l = some stack := nestStep_plain (by rw [hk]; rfl) (by rw [hk]; rfl)
  simp [exprStep, hk, hs, plain, Token.isLayout, Token.fault?]

theorem exprStep_lambda_top (hk : l.token = .keyword .lambda) :
    exprStep [] lambdas l = some ([], lambdas + 1) := by
  simp [exprStep, hk, Token.isLayout, Token.fault?]

theorem exprStep_opening {o : Char} (ho : l.token.opening? = some o) :
    exprStep stack lambdas l = some ((o, l.span.start) :: stack, lambdas) := by
  have layout := Token.isLayout_of_opening ho
  have fault := Token.fault?_of_opening ho
  have colon : l.token ≠ .colon := fun e => by rw [e] at ho; cases ho
  have lambda : l.token ≠ .keyword .lambda := fun e => by rw [e] at ho; cases ho
  simp [exprStep, layout, fault, colon, lambda, nestStep_opening ho]

theorem exprStep_closing {o : Char} {p : Nat} (hc : l.token.closing? = some o) :
    exprStep ((o, p) :: stack) lambdas l = some (stack, lambdas) := by
  have layout := Token.isLayout_of_closing hc
  have fault := Token.fault?_of_closing hc
  simp [exprStep, layout, fault, nestStep_closing (Token.opening?_of_closing hc) hc]

theorem exprStep_layout (h : l.token.isLayout = true) : exprStep stack lambdas l = none := by
  simp [exprStep, h]

/-- Where an expression's reading goes on, its brackets nest as the scanner's do. -/
theorem exprStep_nest {r : List (Char × Nat) × Nat} (h : exprStep stack lambdas l = some r) :
    nestStep stack l = some r.1 := by
  unfold exprStep at h
  split at h
  · cases h
  split at h
  · split at h
    · cases h
    · cases h
      obtain ⟨-, colon⟩ := Bool.and_eq_true_iff.1 ‹_›
      exact nestStep_plain (by rw [beq_iff_eq.1 colon]; rfl) (by rw [beq_iff_eq.1 colon]; rfl)
  split at h
  · cases h
    obtain ⟨-, lambda⟩ := Bool.and_eq_true_iff.1 ‹_›
    exact nestStep_plain (by rw [beq_iff_eq.1 lambda]; rfl) (by rw [beq_iff_eq.1 lambda]; rfl)
  · obtain ⟨s, hs, rfl⟩ := Option.map_eq_some_iff.1 h
    exact hs

theorem exprScan_nest : ∀ {ls : List Lexeme} {stack : List (Char × Nat)} {lambdas : Nat}
    {r : List (Char × Nat) × Nat}, exprScan stack lambdas ls = some r → nest stack ls = some r.1 := by
  intro ls
  induction ls with
  | nil =>
    intro stack lambdas r h
    cases h
    rfl
  | cons x xs ih =>
    intro stack lambdas r h
    simp only [exprScan] at h
    obtain ⟨r₁, h₁, h⟩ := Option.bind_eq_some_iff.1 h
    simp only [nest, List.foldlM_cons, exprStep_nest h₁]
    exact ih h

/-- An expression's reading passes no layout token. -/
theorem exprScan_not_layout : ∀ {ls : List Lexeme} {stack : List (Char × Nat)} {lambdas : Nat}
    {r : List (Char × Nat) × Nat}, exprScan stack lambdas ls = some r →
      ∀ x ∈ ls, x.token.isLayout = false := by
  intro ls
  induction ls with
  | nil =>
    intro _ _ _ _ x hx
    cases hx
  | cons y ys ih =>
    intro stack lambdas r h x hx
    simp only [exprScan] at h
    obtain ⟨r₁, h₁, h⟩ := Option.bind_eq_some_iff.1 h
    rcases List.mem_cons.1 hx with rfl | hx
    · cases layout : x.token.isLayout
      · rfl
      · rw [exprStep_layout layout] at h₁
        cases h₁
    · exact ih h x hx

end Lexeme

/-! ### Runs of lexemes on a tape -/

namespace Tape

variable (t : Tape)

/-- The lexemes from `i` up to, not including, `j`. -/
def between (i j : Nat) : List Lexeme :=
  (List.range' i (j - i)).map t.lexemeAt

/-- The lexemes from `i` up to `j` take an expression's reading from the brackets `a`, above
any others, to the brackets `b`, whatever the lambdas waiting, which they leave as they were. -/
def Nests (i j : Nat) (a b : List (Char × Nat)) : Prop :=
  ∀ σ lambdas, Lexeme.exprScan (a ++ σ) lambdas (t.between i j) = some (b ++ σ, lambdas)

variable {t} {i j k : Nat} {a b d : List (Char × Nat)}

theorem between_self (i : Nat) : t.between i i = [] := by
  simp [between]

theorem between_succ (i : Nat) : t.between i (i + 1) = [t.lexemeAt i] := by
  simp [between]

theorem between_append (hij : i ≤ j) (hjk : j ≤ k) :
    t.between i k = t.between i j ++ t.between j k := by
  unfold between
  rw [← List.map_append]
  congr 1
  have split : k - i = (j - i) + (k - j) := by omega
  rw [split, ← List.range'_append_1]
  congr 2
  omega

namespace Nests

theorem refl (i : Nat) (a : List (Char × Nat)) : t.Nests i i a a := by
  intro σ lambdas
  rw [between_self]
  rfl

theorem trans (hij : i ≤ j) (hjk : j ≤ k) (h₁ : t.Nests i j a b) (h₂ : t.Nests j k b d) :
    t.Nests i k a d := by
  intro σ lambdas
  rw [between_append hij hjk, Lexeme.exprScan_append, h₁ σ lambdas]
  exact h₂ σ lambdas

/-- Brackets open below the run stay open under it. -/
theorem frame (h : t.Nests i j a b) (m : List (Char × Nat)) : t.Nests i j (a ++ m) (b ++ m) := by
  intro σ lambdas
  simpa only [List.append_assoc] using h (m ++ σ) lambdas

/-- One lexeme. -/
theorem single (h : ∀ σ lambdas, Lexeme.exprStep (a ++ σ) lambdas (t.lexemeAt i) =
    some (b ++ σ, lambdas)) : t.Nests i (i + 1) a b := by
  intro σ lambdas
  rw [between_succ]
  simp only [Lexeme.exprScan, h σ lambdas]
  rfl

theorem plain (h : (t.lexemeAt i).token.Plain) : t.Nests i (i + 1) a a :=
  single fun _ _ => Lexeme.exprStep_plain h

/-- A lambda: its parameters, the colon that ends them, and its body. -/
theorem lambda (hl : (t.lexemeAt i).token = .keyword .lambda) (hij : i + 1 ≤ j)
    (params : t.Nests (i + 1) j [] []) (hc : (t.lexemeAt j).token = .colon) (hjk : j + 1 ≤ k)
    (body : t.Nests (j + 1) k [] []) : t.Nests i k [] [] := by
  intro σ lambdas
  have whole : t.between i k = [t.lexemeAt i] ++ (t.between (i + 1) j ++ ([t.lexemeAt j] ++
      t.between (j + 1) k)) := by
    rw [← between_succ, ← between_succ, ← between_append (Nat.le_succ j) hjk,
      ← between_append hij (by omega), ← between_append (Nat.le_succ i) (by omega)]
  rw [whole]
  simp only [List.nil_append, Lexeme.exprScan_append]
  -- outside brackets the lambda waits for its colon; inside, both are read as they are
  cases σ with
  | nil =>
    simp only [Lexeme.exprScan, Lexeme.exprStep_lambda_top hl, Option.bind_some]
    rw [show ([] : List (Char × Nat)) = [] ++ [] from rfl, params [] (lambdas + 1)]
    simp only [List.append_nil, Option.bind_some, Lexeme.exprStep_colon_top hc (Nat.succ_pos _)]
    exact body [] lambdas
  | cons e σ =>
    simp only [Lexeme.exprScan, Lexeme.exprStep_lambda hl (List.cons_ne_nil _ _),
      Option.bind_some]
    rw [show e :: σ = [] ++ e :: σ from rfl, params (e :: σ) lambdas]
    simp only [List.nil_append, Option.bind_some, Lexeme.exprStep_colon hc (List.cons_ne_nil _ _)]
    exact body (e :: σ) lambdas

/-- Lexemes that an expression reads hold no layout. -/
theorem not_layout (h : t.Nests i j a b) {k : Nat} (lo : i ≤ k) (hi : k < j) :
    (t.lexemeAt k).token.isLayout = false := by
  apply Lexeme.exprScan_not_layout (h [] 0)
  simp only [between, List.mem_map, List.mem_range']
  exact ⟨k, ⟨k - i, by omega, by omega⟩, rfl⟩

/-- Lexemes that an expression reads nest their brackets, as the scanner's do. -/
theorem nest (h : t.Nests i j [] []) : Lexeme.nest [] (t.between i j) = some [] :=
  Lexeme.exprScan_nest (h [] 0)

end Nests

end Tape

namespace Grammar

variable {α β : Type} {t : Tape} {c c' : Cursor} {a b d : List (Char × Nat)}

theorem Reads.expect {tok : Token} {e : Expectation} {u : Unit} (h : (expect tok e).Reads t c u c') :
    (t.lexemeAt c.index).token = tok ∧ c' = c.past (t.lexemeAt c.index) := by
  unfold Grammar.expect at h
  have h := h.look_bind
  split at h
  · next same =>
    obtain ⟨rfl, -⟩ := h.skip
    exact ⟨beq_iff_eq.1 same, rfl⟩
  · exact absurd h Reads.not_fail

/-- Every reading of `g` from `c` takes an expression's reading from the brackets `a` to the
brackets `b`. -/
def Nests (g : Grammar α) (t : Tape) (c : Cursor) (a b : List (Char × Nat)) : Prop :=
  ∀ r c', g.Reads t c r c' → t.Nests c.index c'.index a b

namespace Nests

theorem of_not_reads {g : Grammar α} (h : ∀ {r c'}, ¬ g.Reads t c r c') : Nests g t c a b :=
  fun _ _ hr => absurd hr h

theorem fail {f : GrammarFault} : Nests (Grammar.fail f : Grammar α) t c a b :=
  of_not_reads Reads.not_fail

theorem exhausted : Nests (Grammar.exhausted : Grammar α) t c a b :=
  of_not_reads Reads.not_fail

theorem pure {x : α} : Nests (Pure.pure x : Grammar α) t c a a := by
  intro r c' h
  obtain ⟨-, rfl⟩ := h.pure
  exact Tape.Nests.refl _ a

theorem look_bind {f : Tape → Cursor → α} {k : α → Grammar β} (h : Nests (k (f t c)) t c a b) :
    Nests (Grammar.look f >>= k) t c a b :=
  fun _ _ hr => h _ _ hr.look_bind

theorem read_bind {k : Tape → Grammar β} (h : Nests (k t) t c a b) : Nests (read >>= k) t c a b :=
  look_bind h

/-- A reading in two parts, the second going on from the brackets the first leaves. -/
theorem bind {x : Grammar α} {k : α → Grammar β} (hx : Nests x t c a b)
    (hk : ∀ r c₁, Nests (k r) t c₁ b d) : Nests (x >>= k) t c a d := by
  intro r c' h
  obtain ⟨r₁, c₁, h₁, h₂⟩ := h.bind
  exact Tape.Nests.trans h₁.advance.index_le h₂.advance.index_le (hx r₁ c₁ h₁) (hk r₁ c₁ r c' h₂)

theorem fail_bind {f : GrammarFault} {k : α → Grammar β} : Nests (Grammar.fail f >>= k) t c a b :=
  of_not_reads fun h => Reads.fail_bind h

theorem map {x : Grammar α} {f : α → β} (hx : Nests x t c a b) : Nests (f <$> x) t c a b :=
  bind hx fun _ _ => pure

theorem discard {x : Grammar α} (hx : Nests x t c a b) : Nests (Functor.discard x) t c a b := by
  rw [discard_eq]
  exact bind hx fun _ _ => pure

/-- Brackets open below the reading stay open under it. -/
theorem frame {g : Grammar α} (h : Nests g t c a b) (m : List (Char × Nat)) :
    Nests g t c (a ++ m) (b ++ m) :=
  fun r c' hr => (h r c' hr).frame m

/-- A reading that nests, inside a bracket. -/
theorem inside {g : Grammar α} (h : Nests g t c [] []) (e : Char × Nat) : Nests g t c [e] [e] :=
  h.frame [e]

theorem skip (h : ∀ σ lambdas, Lexeme.exprStep (a ++ σ) lambdas (t.lexemeAt c.index) =
    some (b ++ σ, lambdas)) : Nests Grammar.skip t c a b := by
  intro u c' hr
  obtain ⟨rfl, -⟩ := hr.skip
  exact Tape.Nests.single h

theorem skip_plain (h : (t.lexemeAt c.index).token.Plain) : Nests Grammar.skip t c a a :=
  skip fun _ _ => Lexeme.exprStep_plain h

theorem skip_bind {k : Unit → Grammar α} (hs : Nests Grammar.skip t c a b)
    (hk : ∀ c₁, Nests (k ()) t c₁ b d) : Nests (Grammar.skip >>= k) t c a d :=
  bind hs fun _ c₁ => hk c₁

/-- An opening bracket, open from where it stands. -/
theorem skip_opening {o : Char} (ho : (t.lexemeAt c.index).token.opening? = some o) :
    Nests Grammar.skip t c a ((o, (t.lexemeAt c.index).span.start) :: a) :=
  skip fun _ _ => Lexeme.exprStep_opening ho

/-- A colon inside brackets. -/
theorem skip_colon (hc : (t.lexemeAt c.index).token = .colon) (ha : a ≠ []) :
    Nests Grammar.skip t c a a := by
  refine skip fun σ _ => Lexeme.exprStep_colon hc ?_
  cases a with
  | nil => exact absurd rfl ha
  | cons => exact List.cons_ne_nil _ _

theorem text_bind {x y : Nat} {k : String → Grammar β}
    (h : Nests (k (Span.text ⟨x, y⟩ t.source)) t c a b) : Nests (text x y >>= k) t c a b := by
  intro r c' hr
  obtain ⟨s, c₁, ht, hk⟩ := hr.bind
  unfold text at ht
  obtain ⟨rfl, rfl⟩ := ht.read_bind.pure
  exact h r c' hk

end Nests

/-! ### Moving the cursor -/

theorem expect_plain {tok : Token} {e : Expectation} (h : tok.Plain) :
    Nests (expect tok e) t c a a := by
  unfold expect
  apply Nests.look_bind
  split
  next same => exact Nests.skip_plain (Token.plain_of_beq same h)
  next => exact Nests.fail

theorem expect_closing {tok : Token} {e : Expectation} {o : Char} {p : Nat}
    (hc : tok.closing? = some o) : Nests (expect tok e) t c ((o, p) :: a) a := by
  unfold expect
  apply Nests.look_bind
  split
  next same =>
    exact Nests.skip fun _ _ => Lexeme.exprStep_closing (by rw [beq_iff_eq.1 same]; exact hc)
  next => exact Nests.fail

theorem expect_colon {e : Expectation} (ha : a ≠ []) : Nests (expect .colon e) t c a a := by
  unfold expect
  apply Nests.look_bind
  split
  next same => exact Nests.skip_colon (beq_iff_eq.1 same) ha
  next => exact Nests.fail

theorem expectName_nests {e : Expectation} : Nests (expectName e) t c a a := by
  unfold expectName
  apply Nests.look_bind
  split
  next n named =>
    exact Nests.skip_bind (Nests.skip_plain (Token.Plain.of_nameText (by rw [named]; rfl)))
      fun _ => Nests.pure
  next => exact Nests.fail

theorem skipWhile_nests {p : Token → Bool} (hp : ∀ tok, p tok = true → tok.Plain)
    (fuel : Nat) : ∀ c, Nests (skipWhile p fuel) t c a a := by
  induction fuel with
  | zero => exact fun _ => Nests.pure
  | succ fuel ih =>
    intro c
    rw [skipWhile.eq_2]
    apply Nests.look_bind
    split
    next holds => exact Nests.skip_bind (Nests.skip_plain (hp _ holds)) ih
    next => exact Nests.pure

theorem startsExpression_nests : Nests startsExpression t c a a := by
  unfold startsExpression
  exact Nests.look_bind Nests.pure

theorem comprehensionFollows_nests : Nests comprehensionFollows t c a a := by
  unfold comprehensionFollows
  exact Nests.look_bind Nests.pure

/-! ### Expressions -/

mutual

theorem starExpressions_nests : ∀ n c, Nests (starExpressions n) t c [] []
  | 0, _ => Nests.exhausted
  | n + 1, c => by
    rw [starExpressions.eq_2]
    exact starExpressionsFrom_nests n [] c
termination_by structural n => n

theorem starExpressionsFrom_nests : ∀ n (acc : List Span) c,
    Nests (starExpressionsFrom n acc) t c [] []
  | 0, _, _ => Nests.exhausted
  | n + 1, acc, c => by
    rw [starExpressionsFrom.eq_2]
    apply Nests.look_bind
    apply Nests.look_bind
    extract_lets jp
    have more : ∀ r c₁, Nests (jp r) t c₁ [] [] := by
      intro r c₁
      simp only [jp]
      apply Nests.look_bind
      apply Nests.look_bind
      split
      next => exact Nests.pure
      next comma =>
        refine Nests.skip_bind (Nests.skip_plain (Token.plain_of_not_bne comma (by decide)))
          fun c₂ => ?_
        refine Nests.bind startsExpression_nests fun b c₃ => ?_
        split
        next => exact Nests.pure
        next => exact starExpressionsFrom_nests n _ c₃
    split
    next star =>
      exact Nests.skip_bind (Nests.skip_plain (Token.plain_of_beq star (by decide))) fun c₁ =>
        Nests.bind (comparison_nests n c₁) more
    next => exact Nests.bind (expression_nests n c) more
termination_by structural n => n

theorem starNamedExpressions_nests : ∀ n c, Nests (starNamedExpressions n) t c [] []
  | 0, _ => Nests.exhausted
  | n + 1, c => by
    rw [starNamedExpressions.eq_2]
    refine Nests.bind (starNamedItem_nests n c) fun _ c₁ => ?_
    apply Nests.look_bind
    split
    next => exact Nests.pure
    next comma =>
      refine Nests.skip_bind (Nests.skip_plain (Token.plain_of_not_bne comma (by decide)))
        fun c₂ => ?_
      refine Nests.bind startsExpression_nests fun b c₃ => ?_
      split
      next => exact Nests.pure
      next => exact starNamedExpressions_nests n c₃
termination_by structural n => n

theorem starNamedItem_nests : ∀ n c, Nests (starNamedItem n) t c [] []
  | 0, _ => Nests.exhausted
  | n + 1, c => by
    rw [starNamedItem.eq_2]
    apply Nests.look_bind
    split
    next star =>
      exact Nests.skip_bind (Nests.skip_plain (Token.plain_of_beq star (by decide))) fun c₁ =>
        comparison_nests n c₁
    next => exact namedExpression_nests n c
termination_by structural n => n

theorem targetList_nests : ∀ n c, Nests (targetList n) t c [] []
  | 0, _ => Nests.exhausted
  | n + 1, c => by
    rw [targetList.eq_2]
    apply Nests.look_bind
    extract_lets jp
    have target : ∀ r c₁, Nests (jp r) t c₁ [] [] := by
      intro r c₁
      simp only [jp]
      refine Nests.bind (primary_nests n c₁) fun _ c₂ => ?_
      apply Nests.look_bind
      split
      next => exact Nests.pure
      next comma =>
        refine Nests.skip_bind (Nests.skip_plain (Token.plain_of_not_bne comma (by decide)))
          fun c₃ => ?_
        refine Nests.bind startsExpression_nests fun b c₄ => ?_
        split
        next => exact Nests.pure
        next => exact targetList_nests n c₄
    split
    next star => exact Nests.bind (Nests.skip_plain (Token.plain_of_beq star (by decide))) target
    next => exact target () c
termination_by structural n => n

theorem namedExpression_nests : ∀ n c, Nests (namedExpression n) t c [] []
  | 0, _ => Nests.exhausted
  | n + 1, c => by
    rw [namedExpression.eq_2]
    apply Nests.look_bind
    refine Nests.bind (expression_nests n c) fun _ c₁ => ?_
    apply Nests.look_bind
    split
    next walrus =>
      apply Nests.look_bind
      apply Nests.text_bind
      extract_lets jp
      split
      next => exact Nests.fail_bind
      next =>
        simp only [jp]
        exact Nests.skip_bind (Nests.skip_plain (Token.plain_of_beq walrus (by decide))) fun c₂ =>
          expression_nests n c₂
    next => exact Nests.pure
termination_by structural n => n

theorem expression_nests : ∀ n c, Nests (expression n) t c [] []
  | 0, _ => Nests.exhausted
  | n + 1, c => by
    rw [expression.eq_2]
    apply Nests.look_bind
    split
    next lambda =>
      intro r c' h
      obtain ⟨_, c₁, h₁, h⟩ := h.bind
      obtain ⟨rfl, -⟩ := h₁.skip
      obtain ⟨_, c₂, h₂, h⟩ := h.bind
      obtain ⟨_, c₃, h₃, h⟩ := h.bind
      obtain ⟨colon, rfl⟩ := h₃.expect
      exact Tape.Nests.lambda (beq_iff_eq.1 lambda) h₂.advance.index_le
        (parameters_nests n _ false _ [] Bool.noConfusion _ _ h₂) colon h.advance.index_le
        (expression_nests n _ _ _ h)
    next =>
      refine Nests.bind (disjunction_nests n c) fun _ c₁ => ?_
      apply Nests.look_bind
      split
      next cond =>
        refine Nests.skip_bind (Nests.skip_plain (Token.plain_of_beq cond (by decide))) fun c₂ => ?_
        refine Nests.bind (disjunction_nests n c₂) fun _ c₃ => ?_
        exact Nests.bind (expect_plain (by decide)) fun _ c₄ => expression_nests n c₄
      next => exact Nests.pure
termination_by structural n => n

theorem disjunction_nests : ∀ n c, Nests (disjunction n) t c [] []
  | 0, _ => Nests.exhausted
  | n + 1, c => by
    rw [disjunction.eq_2]
    exact Nests.bind (inversion_nests n c) fun _ c₁ => disjunctionRest_nests n c₁
termination_by structural n => n

theorem disjunctionRest_nests : ∀ n c, Nests (disjunctionRest n) t c [] []
  | 0, _ => Nests.exhausted
  | n + 1, c => by
    rw [disjunctionRest.eq_2]
    apply Nests.look_bind
    split
    next op =>
      have plain : (t.lexemeAt c.index).token.Plain := by
        rcases Bool.or_eq_true_iff.1 op with op | op
        · exact Token.plain_of_beq op (by decide)
        · exact Token.plain_of_beq op (by decide)
      refine Nests.skip_bind (Nests.skip_plain plain) fun c₁ => ?_
      exact Nests.bind (inversion_nests n c₁) fun _ c₂ => disjunctionRest_nests n c₂
    next => exact Nests.pure
termination_by structural n => n

theorem inversion_nests : ∀ n c, Nests (inversion n) t c [] []
  | 0, _ => Nests.exhausted
  | n + 1, c => by
    rw [inversion.eq_2]
    apply Nests.look_bind
    split
    next negated =>
      exact Nests.skip_bind (Nests.skip_plain (Token.plain_of_beq negated (by decide))) fun c₁ =>
        inversion_nests n c₁
    next => exact comparison_nests n c
termination_by structural n => n

theorem comparison_nests : ∀ n c, Nests (comparison n) t c [] []
  | 0, _ => Nests.exhausted
  | n + 1, c => by
    rw [comparison.eq_2]
    exact Nests.bind (factor_nests n c) fun _ c₁ => comparisonRest_nests n c₁
termination_by structural n => n

theorem comparisonRest_nests : ∀ n c, Nests (comparisonRest n) t c [] []
  | 0, _ => Nests.exhausted
  | n + 1, c => by
    rw [comparisonRest.eq_2]
    apply Nests.look_bind
    extract_lets jp
    have operand : ∀ r c₁, Nests (jp r) t c₁ [] [] := by
      intro r c₁
      simp only [jp]
      exact Nests.bind (factor_nests n c₁) fun _ c₂ => comparisonRest_nests n c₂
    split
    next op => exact Nests.bind (Nests.skip_plain (Token.plain_of_eq op (by decide))) operand
    next op => exact Nests.bind (Nests.skip_plain (Token.plain_of_eq op (by decide))) operand
    next op => exact Nests.bind (Nests.skip_plain (Token.plain_of_eq op (by decide))) operand
    next op => exact Nests.bind (Nests.skip_plain (Token.plain_of_eq op (by decide))) operand
    next o op =>
      split
      next => exact Nests.pure
      next => exact Nests.bind (Nests.skip_plain (Token.plain_of_eq op (Token.plain_op o))) operand
    next is =>
      refine Nests.skip_bind (Nests.skip_plain (Token.plain_of_eq is (by decide))) fun c₁ => ?_
      apply Nests.look_bind
      split
      next negated =>
        exact Nests.bind (Nests.skip_plain (Token.plain_of_beq negated (by decide))) operand
      next => exact operand () c₁
    next negated =>
      refine Nests.skip_bind (Nests.skip_plain (Token.plain_of_eq negated (by decide))) fun c₁ => ?_
      exact Nests.bind (expect_plain (by decide)) operand
    next => exact Nests.pure
termination_by structural n => n

theorem factor_nests : ∀ n c, Nests (factor n) t c [] []
  | 0, _ => Nests.exhausted
  | n + 1, c => by
    rw [factor.eq_2]
    apply Nests.look_bind
    split
    next unary =>
      exact Nests.skip_bind (Nests.skip_plain (Token.plain_of_isUnary unary)) fun c₁ =>
        factor_nests n c₁
    next =>
      apply Nests.look_bind
      extract_lets jp
      have operand : ∀ r c₁, Nests (jp r) t c₁ [] [] := by
        intro r c₁
        simp only [jp]
        exact primary_nests n c₁
      split
      next await =>
        exact Nests.bind (Nests.skip_plain (Token.plain_of_beq await (by decide))) operand
      next => exact operand () c
termination_by structural n => n

theorem primary_nests : ∀ n c, Nests (primary n) t c [] []
  | 0, _ => Nests.exhausted
  | n + 1, c => by
    rw [primary.eq_2]
    exact Nests.bind (atom_nests n c) fun _ c₁ => primaryRest_nests n c₁
termination_by structural n => n

theorem primaryRest_nests : ∀ n c, Nests (primaryRest n) t c [] []
  | 0, _ => Nests.exhausted
  | n + 1, c => by
    rw [primaryRest.eq_2]
    apply Nests.look_bind
    extract_lets jp
    have rest : ∀ r c₁, Nests (jp r) t c₁ [] [] := by
      intro r c₁
      simp only [jp]
      exact primaryRest_nests n c₁
    split
    next dot =>
      refine Nests.skip_bind (Nests.skip_plain (Token.plain_of_eq dot (by decide))) fun c₁ => ?_
      exact Nests.bind (Nests.discard expectName_nests) rest
    next call =>
      refine Nests.skip_bind (Nests.skip_opening (by rw [call]; rfl)) fun c₁ => ?_
      refine Nests.bind (callArguments_nests n c₁ _) fun _ c₂ => ?_
      exact Nests.bind (expect_closing rfl) rest
    next subscripted =>
      refine Nests.skip_bind (Nests.skip_opening (by rw [subscripted]; rfl)) fun c₁ => ?_
      refine Nests.bind (subscript_nests n c₁ _) fun _ c₂ => ?_
      exact Nests.bind (expect_closing rfl) rest
    next => exact Nests.pure
termination_by structural n => n

theorem atom_nests : ∀ n c, Nests (atom n) t c [] []
  | 0, _ => Nests.exhausted
  | n + 1, c => by
    rw [atom.eq_2]
    apply Nests.look_bind
    have strings : ∀ tok : Token, (tok.isStr || tok matches .fstr _) = true → tok.Plain := by
      intro tok h
      cases tok <;> first
        | exact ⟨rfl, rfl, rfl, rfl, Token.noConfusion, Token.noConfusion⟩
        | simp [Token.isStr] at h
    split
    next => exact Nests.read_bind (skipWhile_nests strings _ c)
    next => exact Nests.read_bind (skipWhile_nests strings _ c)
    next literal => exact Nests.skip_plain (Token.plain_of_eq literal (by decide))
    next literal => exact Nests.skip_plain (Token.plain_of_eq literal (by decide))
    next literal => exact Nests.skip_plain (Token.plain_of_eq literal (by decide))
    next literal => exact Nests.skip_plain (Token.plain_of_eq literal (by decide))
    next literal => exact Nests.skip_plain (Token.plain_of_eq literal (by decide))
    next opening =>
      refine Nests.skip_bind (Nests.skip_opening (by rw [opening]; rfl)) fun c₁ => ?_
      apply Nests.look_bind
      extract_lets jp
      have close : ∀ r c₂, Nests (jp r) t c₂ [('(', (t.lexemeAt c.index).span.start)] [] := by
        intro r c₂
        simp only [jp]
        exact expect_closing rfl
      split
      next => exact close () c₁
      next yield =>
        exact Nests.bind ((yieldExpr_nests n c₁ (Token.plain_of_eq yield (by decide))).inside _)
          close
      next => exact Nests.bind (sequenceBody_nests n _ c₁ _) close
    next opening =>
      refine Nests.skip_bind (Nests.skip_opening (by rw [opening]; rfl)) fun c₁ => ?_
      apply Nests.look_bind
      extract_lets jp
      have close : ∀ r c₂, Nests (jp r) t c₂ [('[', (t.lexemeAt c.index).span.start)] [] := by
        intro r c₂
        simp only [jp]
        exact expect_closing rfl
      split
      next => exact Nests.bind (sequenceBody_nests n _ c₁ _) close
      next => exact close () c₁
    next opening =>
      refine Nests.skip_bind (Nests.skip_opening (by rw [opening]; rfl)) fun c₁ => ?_
      apply Nests.look_bind
      extract_lets jp
      have close : ∀ r c₂, Nests (jp r) t c₂ [('{', (t.lexemeAt c.index).span.start)] [] := by
        intro r c₂
        simp only [jp]
        exact expect_closing rfl
      split
      next => exact Nests.bind (braceBody_nests n c₁ _) close
      next => exact close () c₁
    next =>
      split
      next named => exact Nests.skip_plain (Token.Plain.of_nameText named)
      next => exact Nests.fail
termination_by structural n => n

theorem sequenceBody_nests : ∀ n close c e, Nests (sequenceBody n close) t c [e] [e]
  | 0, _, _, _ => Nests.exhausted
  | n + 1, close, c, e => by
    rw [sequenceBody.eq_2]
    refine Nests.bind ((starNamedItem_nests n c).inside e) fun _ c₁ => ?_
    refine Nests.bind comprehensionFollows_nests fun b c₂ => ?_
    split
    next => exact (comprehension_nests n c₂).inside e
    next => exact restOfList_nests n close _ c₂ e
termination_by structural n => n

theorem braceBody_nests : ∀ n c e, Nests (braceBody n) t c [e] [e]
  | 0, _, _ => Nests.exhausted
  | n + 1, c, e => by
    rw [braceBody.eq_2]
    apply Nests.look_bind
    extract_lets jp
    have items : ∀ isDict c₁, Nests (jp isDict) t c₁ [e] [e] := by
      intro isDict c₁
      simp only [jp]
      refine Nests.bind comprehensionFollows_nests fun b c₂ => ?_
      split
      next => exact (comprehension_nests n c₂).inside e
      next => exact restOfList_nests n _ _ c₂ e
    split
    next mapping =>
      refine Nests.skip_bind (Nests.skip_plain (Token.plain_of_eq mapping (by decide))) fun c₁ => ?_
      exact Nests.bind ((comparison_nests n c₁).inside e) fun _ c₂ => Nests.bind Nests.pure items
    next =>
      exact Nests.bind ((starNamedItem_nests n c).inside e) fun _ c₁ => Nests.bind Nests.pure items
    next =>
      refine Nests.bind ((namedExpression_nests n c).inside e) fun _ c₁ => ?_
      apply Nests.look_bind
      split
      next colon =>
        refine Nests.skip_bind (Nests.skip_colon (beq_iff_eq.1 colon) (List.cons_ne_nil _ _))
          fun c₂ => ?_
        exact Nests.bind ((expression_nests n c₂).inside e) fun _ c₃ => Nests.bind Nests.pure items
      next => exact Nests.bind Nests.pure items
termination_by structural n => n

theorem dictItem_nests : ∀ n c e, Nests (dictItem n) t c [e] [e]
  | 0, _, _ => Nests.exhausted
  | n + 1, c, e => by
    rw [dictItem.eq_2]
    apply Nests.look_bind
    split
    next mapping =>
      exact Nests.skip_bind (Nests.skip_plain (Token.plain_of_beq mapping (by decide))) fun c₁ =>
        (comparison_nests n c₁).inside e
    next =>
      refine Nests.bind ((expression_nests n c).inside e) fun _ c₁ => ?_
      exact Nests.bind (expect_colon (List.cons_ne_nil _ _)) fun _ c₂ =>
        (expression_nests n c₂).inside e
termination_by structural n => n

theorem restOfList_nests : ∀ n close item c e, Nests (restOfList n close item) t c [e] [e]
  | 0, _, _, _, _ => Nests.exhausted
  | n + 1, close, item, c, e => by
    rw [restOfList.eq_2]
    apply Nests.look_bind
    split
    next => exact Nests.pure
    next comma =>
      refine Nests.skip_bind (Nests.skip_plain (Token.plain_of_not_bne comma (by decide)))
        fun c₁ => ?_
      apply Nests.look_bind
      split
      next => exact Nests.pure
      next =>
        extract_lets jp
        have rest : ∀ r c₂, Nests (jp r) t c₂ [e] [e] := by
          intro r c₂
          simp only [jp]
          exact restOfList_nests n close item c₂ e
        cases item
        · exact Nests.bind ((starNamedItem_nests n c₁).inside e) rest
        · exact Nests.bind (dictItem_nests n c₁ e) rest
termination_by structural n => n

theorem comprehension_nests : ∀ n c, Nests (comprehension n) t c [] []
  | 0, _ => Nests.exhausted
  | n + 1, c => by
    rw [comprehension.eq_2]
    refine Nests.bind comprehensionFollows_nests fun b c₁ => ?_
    split
    next => exact Nests.pure
    next =>
      apply Nests.look_bind
      extract_lets jp
      have clause : ∀ r c₂, Nests (jp r) t c₂ [] [] := by
        intro r c₂
        simp only [jp]
        refine Nests.bind (expect_plain (by decide)) fun _ c₃ => ?_
        refine Nests.bind (targetList_nests n c₃) fun _ c₄ => ?_
        refine Nests.bind (expect_plain (by decide)) fun _ c₅ => ?_
        refine Nests.bind (disjunction_nests n c₅) fun _ c₆ => ?_
        exact Nests.bind (conditions_nests n c₆) fun _ c₇ => comprehension_nests n c₇
      split
      next async =>
        exact Nests.bind (Nests.skip_plain (Token.plain_of_beq async (by decide))) clause
      next => exact clause () c₁
termination_by structural n => n

theorem conditions_nests : ∀ n c, Nests (conditions n) t c [] []
  | 0, _ => Nests.exhausted
  | n + 1, c => by
    rw [conditions.eq_2]
    apply Nests.look_bind
    split
    next cond =>
      refine Nests.skip_bind (Nests.skip_plain (Token.plain_of_beq cond (by decide))) fun c₁ => ?_
      exact Nests.bind (disjunction_nests n c₁) fun _ c₂ => conditions_nests n c₂
    next => exact Nests.pure
termination_by structural n => n

theorem callArguments_nests : ∀ n c e, Nests (callArguments n) t c [e] [e]
  | 0, _, _ => Nests.exhausted
  | n + 1, c, e => by
    rw [callArguments.eq_2]
    exact callArgumentsFrom_nests n true c e
termination_by structural n => n

theorem callArgumentsFrom_nests : ∀ n first c e, Nests (callArgumentsFrom n first) t c [e] [e]
  | 0, _, _, _ => Nests.exhausted
  | n + 1, first, c, e => by
    rw [callArgumentsFrom.eq_2]
    apply Nests.look_bind
    split
    next => exact Nests.pure
    next =>
      apply Nests.look_bind
      extract_lets jp value
      have more : ∀ r c₁, Nests (jp r) t c₁ [e] [e] := by
        intro r c₁
        simp only [jp]
        apply Nests.look_bind
        split
        next => exact Nests.pure
        next comma =>
          exact Nests.skip_bind (Nests.skip_plain (Token.plain_of_not_bne comma (by decide)))
            fun c₂ => callArgumentsFrom_nests n false c₂ e
      split
      next star =>
        exact Nests.skip_bind (Nests.skip_plain (Token.plain_of_eq star (by decide))) fun c₁ =>
          Nests.bind ((expression_nests n c₁).inside e) more
      next star =>
        exact Nests.skip_bind (Nests.skip_plain (Token.plain_of_eq star (by decide))) fun c₁ =>
          Nests.bind ((expression_nests n c₁).inside e) more
      next =>
        apply Nests.look_bind
        refine Nests.bind ((namedExpression_nests n c).inside e) fun _ c₁ => ?_
        apply Nests.look_bind
        split
        next keyword =>
          apply Nests.look_bind
          apply Nests.text_bind
          split
          next => exact Nests.fail_bind
          next =>
            simp only [value]
            exact Nests.skip_bind (Nests.skip_plain (Token.plain_of_beq keyword (by decide)))
              fun c₂ => Nests.bind ((expression_nests n c₂).inside e) more
        next =>
          refine Nests.bind comprehensionFollows_nests fun b c₂ => ?_
          split
          next =>
            exact Nests.bind ((comprehension_nests n c₂).inside e) fun _ _ => Nests.pure
          next => exact more () c₂
termination_by structural n => n

theorem subscript_nests : ∀ n c e, Nests (subscript n) t c [e] [e]
  | 0, _, _ => Nests.exhausted
  | n + 1, c, e => by
    rw [subscript.eq_2]
    refine Nests.bind (sliceItem_nests n c e) fun _ c₁ => ?_
    apply Nests.look_bind
    split
    next => exact Nests.pure
    next comma =>
      refine Nests.skip_bind (Nests.skip_plain (Token.plain_of_not_bne comma (by decide)))
        fun c₂ => ?_
      apply Nests.look_bind
      split
      next => exact Nests.pure
      next => exact subscript_nests n c₂ e
termination_by structural n => n

theorem sliceItem_nests : ∀ n c e, Nests (sliceItem n) t c [e] [e]
  | 0, _, _ => Nests.exhausted
  | n + 1, c, e => by
    rw [sliceItem.eq_2]
    apply Nests.look_bind
    split
    next star =>
      exact Nests.skip_bind (Nests.skip_plain (Token.plain_of_beq star (by decide))) fun c₁ =>
        (comparison_nests n c₁).inside e
    next =>
      apply Nests.look_bind
      extract_lets jp
      have bounds : ∀ r c₁, Nests (jp r) t c₁ [e] [e] := by
        intro r c₁
        simp only [jp]
        exact Nests.bind (sliceBound_nests n c₁ e) fun _ c₂ => sliceBound_nests n c₂ e
      split
      next => exact Nests.bind ((namedExpression_nests n c).inside e) bounds
      next => exact bounds () c
termination_by structural n => n

theorem sliceBound_nests : ∀ n c e, Nests (sliceBound n) t c [e] [e]
  | 0, _, _ => Nests.exhausted
  | n + 1, c, e => by
    rw [sliceBound.eq_2]
    apply Nests.look_bind
    split
    next colon =>
      refine Nests.skip_bind (Nests.skip_colon (beq_iff_eq.1 colon) (List.cons_ne_nil _ _))
        fun c₁ => ?_
      refine Nests.bind startsExpression_nests fun b c₂ => ?_
      split
      next => exact (expression_nests n c₂).inside e
      next => exact Nests.pure
    next => exact Nests.pure
termination_by structural n => n

/-- `yield` and what follows it, from a `yield` that the caller has seen. -/
theorem yieldExpr_nests : ∀ n c, (t.lexemeAt c.index).token.Plain → Nests (yieldExpr n) t c [] []
  | 0, _, _ => Nests.exhausted
  | n + 1, c, plain => by
    rw [yieldExpr.eq_2]
    refine Nests.skip_bind (Nests.skip_plain plain) fun c₁ => ?_
    apply Nests.look_bind
    split
    next source =>
      exact Nests.skip_bind (Nests.skip_plain (Token.plain_of_beq source (by decide))) fun c₂ =>
        expression_nests n c₂
    next =>
      refine Nests.bind startsExpression_nests fun b c₂ => ?_
      split
      next => exact Nests.discard (starExpressions_nests n c₂)
      next => exact Nests.pure
termination_by structural n => n

/-- Parameters nest; annotated ones, whose annotations follow colons, inside brackets. -/
theorem parameters_nests : ∀ n close annotated c (a : List (Char × Nat)),
    (annotated = true → a ≠ []) → Nests (parameters n close annotated) t c a a
  | 0, _, _, _, _, _ => Nests.exhausted
  | n + 1, close, annotated, c, a, ha => by
    rw [parameters.eq_2]
    apply Nests.look_bind
    split
    next => exact Nests.pure
    next =>
      apply Nests.look_bind
      extract_lets jp
      have more : ∀ r c₁, Nests (jp r) t c₁ a a := by
        intro r c₁
        simp only [jp]
        apply Nests.look_bind
        split
        next => exact Nests.pure
        next comma =>
          exact Nests.skip_bind (Nests.skip_plain (Token.plain_of_not_bne comma (by decide)))
            fun c₂ => parameters_nests n close annotated c₂ a ha
      split
      next slash => exact Nests.bind (Nests.skip_plain (Token.plain_of_eq slash (by decide))) more
      next star =>
        refine Nests.skip_bind (Nests.skip_plain (Token.plain_of_eq star (by decide))) fun c₁ => ?_
        apply Nests.look_bind
        split
        next => exact Nests.bind (parameter_nests n annotated false c₁ a ha) more
        next => exact more () c₁
      next star =>
        exact Nests.skip_bind (Nests.skip_plain (Token.plain_of_eq star (by decide))) fun c₁ =>
          Nests.bind (parameter_nests n annotated false c₁ a ha) more
      next => exact Nests.bind (parameter_nests n annotated true c a ha) more
termination_by structural n => n

theorem parameter_nests : ∀ n annotated default c (a : List (Char × Nat)),
    (annotated = true → a ≠ []) → Nests (parameter n annotated default) t c a a
  | 0, _, _, _, _, _ => Nests.exhausted
  | n + 1, annotated, default, c, a, ha => by
    rw [parameter.eq_2]
    refine Nests.bind (Nests.discard expectName_nests) fun _ c₁ => ?_
    apply Nests.look_bind
    extract_lets jp₁ jp₂
    have withDefault : ∀ r c₂, Nests (jp₁ r) t c₂ a a := by
      intro r c₂
      simp only [jp₁]
      apply Nests.look_bind
      split
      next eq =>
        exact Nests.skip_bind
          (Nests.skip_plain (Token.plain_of_beq (Bool.and_eq_true_iff.1 eq).2 (by decide)))
          fun c₃ => (expression_nests n c₃).frame a
      next => exact Nests.pure
    have annotation : ∀ r c₂, Nests (jp₂ r) t c₂ a a := by
      intro r c₂
      simp only [jp₂]
      exact Nests.bind ((expression_nests n c₂).frame a) withDefault
    split
    next colon =>
      -- an annotation's colon stands inside the parameters' brackets
      obtain ⟨annotated, colon⟩ := Bool.and_eq_true_iff.1 colon
      refine Nests.skip_bind (Nests.skip_colon (beq_iff_eq.1 colon) (ha annotated)) fun c₂ => ?_
      apply Nests.look_bind
      split
      next star =>
        exact Nests.bind (Nests.skip_plain (Token.plain_of_beq star (by decide))) annotation
      next => exact annotation () c₂
    next => exact withDefault () c₁
termination_by structural n => n

theorem typeParamList_nests : ∀ n c e, Nests (typeParamList n) t c [e] [e]
  | 0, _, _ => Nests.exhausted
  | n + 1, c, e => by
    rw [typeParamList.eq_2]
    apply Nests.look_bind
    extract_lets jp₁ jp₂ jp₃ jp₄
    have more : ∀ r c₁, Nests (jp₁ r) t c₁ [e] [e] := by
      intro r c₁
      simp only [jp₁]
      apply Nests.look_bind
      split
      next => exact Nests.pure
      next comma =>
        refine Nests.skip_bind (Nests.skip_plain (Token.plain_of_not_bne comma (by decide)))
          fun c₂ => ?_
        apply Nests.look_bind
        split
        next => exact Nests.pure
        next => exact typeParamList_nests n c₂ e
    have bound : ∀ r c₁, Nests (jp₂ r) t c₁ [e] [e] := by
      intro r c₁
      simp only [jp₂]
      exact Nests.bind ((expression_nests n c₁).inside e) more
    have withDefault : ∀ r c₁, Nests (jp₃ r) t c₁ [e] [e] := by
      intro r c₁
      simp only [jp₃]
      apply Nests.look_bind
      split
      next eq =>
        refine Nests.skip_bind (Nests.skip_plain (Token.plain_of_beq eq (by decide))) fun c₂ => ?_
        apply Nests.look_bind
        split
        next star => exact Nests.bind (Nests.skip_plain (Token.plain_of_beq star (by decide))) bound
        next => exact bound () c₂
      next => exact more () c₁
    have param : ∀ r c₁, Nests (jp₄ r) t c₁ [e] [e] := by
      intro r c₁
      simp only [jp₄]
      refine Nests.bind (Nests.discard expectName_nests) fun _ c₂ => ?_
      apply Nests.look_bind
      split
      next colon =>
        exact Nests.skip_bind (Nests.skip_colon (beq_iff_eq.1 colon) (List.cons_ne_nil _ _))
          fun c₃ => Nests.bind ((expression_nests n c₃).inside e) withDefault
      next => exact withDefault () c₂
    split
    next star =>
      have plain : (t.lexemeAt c.index).token.Plain := by
        rcases Bool.or_eq_true_iff.1 star with star | star
        · exact Token.plain_of_beq star (by decide)
        · exact Token.plain_of_beq star (by decide)
      exact Nests.bind (Nests.skip_plain plain) param
    next => exact param () c
termination_by structural n => n

theorem withItemList_nests : ∀ n parenthesized c, Nests (withItemList n parenthesized) t c [] []
  | 0, _, _ => Nests.exhausted
  | n + 1, parenthesized, c => by
    rw [withItemList.eq_2]
    refine Nests.bind (expression_nests n c) fun _ c₁ => ?_
    apply Nests.look_bind
    extract_lets jp₁ jp₂
    have more : ∀ r c₂, Nests (jp₁ r) t c₂ [] [] := by
      intro r c₂
      simp only [jp₁]
      apply Nests.look_bind
      split
      next => exact Nests.pure
      next comma =>
        refine Nests.skip_bind (Nests.skip_plain (Token.plain_of_not_bne comma (by decide)))
          fun c₃ => ?_
        apply Nests.look_bind
        split
        next => exact Nests.pure
        next => exact withItemList_nests n parenthesized c₃
    have target : ∀ r c₂, Nests (jp₂ r) t c₂ [] [] := by
      intro r c₂
      simp only [jp₂]
      exact Nests.bind (primary_nests n c₂) more
    split
    next as =>
      refine Nests.skip_bind (Nests.skip_plain (Token.plain_of_beq as (by decide))) fun c₂ => ?_
      apply Nests.look_bind
      split
      next => exact Nests.fail_bind
      next => exact target () c₂
    next => exact more () c₁
termination_by structural n => n

theorem moreExpressions_nests : ∀ n c, Nests (moreExpressions n) t c [] []
  | 0, _ => Nests.exhausted
  | n + 1, c => by
    rw [moreExpressions.eq_2]
    apply Nests.look_bind
    split
    next comma =>
      refine Nests.skip_bind (Nests.skip_plain (Token.plain_of_beq comma (by decide))) fun c₁ => ?_
      exact Nests.bind (expression_nests n c₁) fun _ c₂ => moreExpressions_nests n c₂
    next => exact Nests.pure
termination_by structural n => n

end

end Grammar

end PyTune
