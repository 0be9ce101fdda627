import PyTune.Proofs.CrlfExpressions

/-!
# A source and its CRLF form read into trees of one shape

The statement rules read the two tapes alike (`Grammar.Twin`, `Grammar.TwinAt` for keywords),
by induction on their shared depth bound, into trees of one shape (`SameShape`); offsets, indents
and the values of header strings are not compared.
-/

namespace PyTune

open Text (OffsetsMatch StartsMatch)
open Scanner (LexAlike)

/-! ### Trees of one shape -/

/-- Two names of an import alike: the imported names alike up to line endings, the same new
name. -/
def ImportAlias.CrlfAlike (a₁ a₂ : ImportAlias) : Prop :=
  Text.CrlfAlike a₁.name a₂.name ∧ a₂.asname = a₁.asname

/-- Two decorator shapes alike: the same kind, with dotted names alike up to line endings. -/
def DecoratorShape.CrlfAlike : DecoratorShape → DecoratorShape → Prop
  | .name a, .name b => Text.CrlfAlike a b
  | .call a, .call b => Text.CrlfAlike a b
  | .other, .other => True
  | _, _ => False

/-- Two decorators alike: shapes alike, wherever they come from. -/
def Decorator.CrlfAlike (d₁ d₂ : Decorator) : Prop :=
  DecoratorShape.CrlfAlike d₁.shape d₂.shape

mutual

/-- Statements of one shape, one for one. -/
def SameShape.stmts : List Stmt → List Stmt → Prop
  | [], [] => True
  | s₁ :: r₁, s₂ :: r₂ => SameShape.stmt s₁ s₂ ∧ SameShape.stmts r₁ r₂
  | _, _ => False
termination_by structural a _ => a

/-- Two statements of one shape, wherever they come from. -/
def SameShape.stmt : Stmt → Stmt → Prop
  | ⟨_, k₁⟩, ⟨_, k₂⟩ => SameShape.kind k₁ k₂
termination_by structural a _ => a

/-- Two kinds of statement of one shape: the same kind, with the same names, levels and new
names, dotted names alike up to line endings, and what they hold of one shape. -/
def SameShape.kind : StmtKind → StmtKind → Prop
  | .imports as₁, .imports as₂ => List.Forall₂ ImportAlias.CrlfAlike as₁ as₂
  | .importFrom m₁ ns₁ l₁, .importFrom m₂ ns₂ l₂ =>
    Option.Rel Text.CrlfAlike m₁ m₂ ∧ ns₂ = ns₁ ∧ l₂ = l₁
  | .functionDef d₁, .functionDef d₂ => SameShape.definition d₁ d₂
  | .classDef d₁, .classDef d₂ => SameShape.definition d₁ d₂
  | .compound cs₁, .compound cs₂ => SameShape.clauses cs₁ cs₂
  | .docstring, .docstring => True
  | .assign ns₁, .assign ns₂ => ns₂ = ns₁
  | .simple, .simple => True
  | _, _ => False
termination_by structural a _ => a

/-- Two definitions of one shape: the same name, decorators alike and bodies of one shape,
whatever their indents and offsets. -/
def SameShape.definition : Definition → Definition → Prop
  | ⟨n₁, ds₁, _, _, b₁⟩, ⟨n₂, ds₂, _, _, b₂⟩ =>
    n₂ = n₁ ∧ List.Forall₂ Decorator.CrlfAlike ds₁ ds₂ ∧ SameShape.suite b₁ b₂
termination_by structural a _ => a

/-- Clauses of one shape, one for one. -/
def SameShape.clauses : List Clause → List Clause → Prop
  | [], [] => True
  | c₁ :: r₁, c₂ :: r₂ => SameShape.clause c₁ c₂ ∧ SameShape.clauses r₁ r₂
  | _, _ => False
termination_by structural a _ => a

/-- Two clauses of one shape: the same keyword and header names and bodies of one shape,
whatever the values of their header strings. -/
def SameShape.clause : Clause → Clause → Prop
  | ⟨k₁, n₁, _, b₁⟩, ⟨k₂, n₂, _, b₂⟩ => k₂ = k₁ ∧ n₂ = n₁ ∧ SameShape.suite b₁ b₂
termination_by structural a _ => a

/-- Two bodies of one shape: both on the header's line, or both blocks, whatever their
indents. -/
def SameShape.suite : Suite → Suite → Prop
  | .inline b₁, .inline b₂ => SameShape.stmts b₁ b₂
  | .block _ b₁, .block _ b₂ => SameShape.stmts b₁ b₂
  | _, _ => False
termination_by structural a _ => a

end

namespace SameShape

theorem stmts_append : ∀ {xs₁ xs₂ ys₁ ys₂ : List Stmt}, SameShape.stmts xs₁ xs₂ →
    SameShape.stmts ys₁ ys₂ → SameShape.stmts (xs₁ ++ ys₁) (xs₂ ++ ys₂)
  | [], [], _, _, _, hy => hy
  | _ :: _, _ :: _, _, _, ⟨hs, hr⟩, hy => ⟨hs, stmts_append hr hy⟩
  | [], _ :: _, _, _, stuck, _ => stuck.elim
  | _ :: _, [], _, _, stuck, _ => stuck.elim

theorem stmts_push {acc₁ acc₂ : Array Stmt} {s₁ s₂ : Stmt}
    (hacc : SameShape.stmts acc₁.toList acc₂.toList) (hs : SameShape.stmt s₁ s₂) :
    SameShape.stmts (acc₁.push s₁).toList (acc₂.push s₂).toList := by
  rw [Array.toList_push, Array.toList_push]
  exact stmts_append hacc ⟨hs, trivial⟩

theorem clauses_append : ∀ {xs₁ xs₂ ys₁ ys₂ : List Clause}, SameShape.clauses xs₁ xs₂ →
    SameShape.clauses ys₁ ys₂ → SameShape.clauses (xs₁ ++ ys₁) (xs₂ ++ ys₂)
  | [], [], _, _, _, hy => hy
  | _ :: _, _ :: _, _, _, ⟨hc, hr⟩, hy => ⟨hc, clauses_append hr hy⟩
  | [], _ :: _, _, _, stuck, _ => stuck.elim
  | _ :: _, [], _, _, stuck, _ => stuck.elim

theorem clauses_push {acc₁ acc₂ : Array Clause} {c₁ c₂ : Clause}
    (hacc : SameShape.clauses acc₁.toList acc₂.toList) (hc : SameShape.clause c₁ c₂) :
    SameShape.clauses (acc₁.push c₁).toList (acc₂.push c₂).toList := by
  rw [Array.toList_push, Array.toList_push]
  exact clauses_append hacc ⟨hc, trivial⟩

/-- Clauses of one shape have the same keywords. -/
theorem clauses_keywords : ∀ {cs₁ cs₂ : List Clause}, SameShape.clauses cs₁ cs₂ →
    cs₂.map Clause.keyword = cs₁.map Clause.keyword
  | [], [], _ => rfl
  | ⟨_, _, _, _⟩ :: _, ⟨_, _, _, _⟩ :: _, ⟨⟨same, _⟩, rest⟩ => by
    rw [List.map_cons, List.map_cons, same, clauses_keywords rest]
  | [], _ :: _, stuck => stuck.elim
  | _ :: _, [], stuck => stuck.elim

end SameShape

/-! ### What a header or a decorator keeps -/

namespace Token

/-- A token that stands for a name is no fault and no layout. -/
theorem plain_of_nameText {tok : Token} (h : tok.nameText?.isSome = true) :
    tok.fault? = none ∧ tok.isLayout = false := by
  cases tok <;> first | exact ⟨rfl, rfl⟩ | cases h

end Token

section Lexemes

variable {src : String} {ls₁ ls₂ : List Lexeme}

theorem dottedPrefix_crlf (h : List.Forall₂ (LexAlike src) ls₁ ls₂) (wantName : Bool) :
    dottedPrefix ls₂ wantName = dottedPrefix ls₁ wantName := by
  induction h generalizing wantName with
  | nil => rfl
  | cons alike _ ih =>
    cases wantName <;>
      simp only [dottedPrefix, alike.token, Token.nameText?_crlf,
        Token.crlf_beq _ (show Token.dot.isString = false from rfl), ih]

/-- The lexemes of a dotted prefix are names and dots: none is a fault or layout. -/
theorem dottedPrefix_plain : ∀ (ls : List Lexeme) (wantName : Bool) (k : Nat),
    k < dottedPrefix ls wantName →
      ∃ l, ls[k]? = some l ∧ l.token.fault? = none ∧ l.token.isLayout = false
  | [], _, _, h => absurd h (Nat.not_lt_zero _)
  | l :: ls, true, k, h => by
    unfold dottedPrefix at h
    split at h
    · next name =>
      cases k with
      | zero => exact ⟨l, rfl, Token.plain_of_nameText name⟩
      | succ k => exact dottedPrefix_plain ls false k (by omega)
    · exact absurd h (Nat.not_lt_zero _)
  | l :: ls, false, k, h => by
    unfold dottedPrefix at h
    split at h
    · next dot =>
      cases k with
      | zero =>
        refine ⟨l, rfl, ?_⟩
        rw [beq_iff_eq.mp dot]
        exact ⟨rfl, rfl⟩
      | succ k => exact dottedPrefix_plain ls true k (by omega)
    · exact absurd h (Nat.not_lt_zero _)

theorem closesAtEnd_crlf (h : List.Forall₂ (LexAlike src) ls₁ ls₂) (depth : Nat) :
    closesAtEnd ls₂ depth = closesAtEnd ls₁ depth := by
  induction h generalizing depth with
  | nil => rfl
  | @cons _ _ r₁ r₂ alike rest ih =>
    have empty : r₂.isEmpty = r₁.isEmpty := by cases rest <;> rfl
    simp only [closesAtEnd, alike.token, Token.isOpening_crlf, Token.isClosing_crlf, ih, empty]

/-- The lexemes at one index of lists that match one for one are alike, or both missing. -/
theorem getElem?_rel {k : Nat} (h : List.Forall₂ (LexAlike src) ls₁ ls₂) :
    Option.Rel (LexAlike src) ls₁[k]? ls₂[k]? := by
  induction h generalizing k with
  | nil => exact Option.Rel.none
  | cons alike _ ih =>
    cases k with
    | zero => exact Option.Rel.some alike
    | succ k => exact ih

/-- A decorator's shape is read alike from lexemes that match one for one. -/
theorem DecoratorShape.ofLexemes_crlf (h : List.Forall₂ (LexAlike src) ls₁ ls₂) :
    DecoratorShape.CrlfAlike (DecoratorShape.ofLexemes src ls₁)
      (DecoratorShape.ofLexemes (Text.crlf src) ls₂) := by
  unfold DecoratorShape.ofLexemes
  rw [dottedPrefix_crlf h]
  dsimp only
  generalize hn : (if dottedPrefix ls₁ true % 2 == 0 then dottedPrefix ls₁ true - 1
    else dottedPrefix ls₁ true) = n
  have within : n ≠ 0 → n - 1 < dottedPrefix ls₁ true := by
    intro nonzero
    split at hn <;> omega
  have heads : Option.Rel (LexAlike src) ls₁.head? ls₂.head? := by
    rw [List.head?_eq_getElem?, List.head?_eq_getElem?]
    exact getElem?_rel h
  have lasts : Option.Rel (LexAlike src) ls₁[n - 1]? ls₂[n - 1]? := getElem?_rel h
  have plain : n ≠ 0 → ∀ l, ls₁[n - 1]? = some l →
      l.token.fault? = none ∧ l.token.isLayout = false := by
    intro nonzero l hl
    obtain ⟨l', hl', fault, layout⟩ := dottedPrefix_plain ls₁ true (n - 1) (within nonzero)
    rw [hl] at hl'
    cases hl'
    exact ⟨fault, layout⟩
  have rests := List.forall₂_drop n h
  revert plain heads lasts
  generalize ls₁.head? = head₁
  generalize ls₂.head? = head₂
  generalize ls₁[n - 1]? = last₁
  generalize ls₂[n - 1]? = last₂
  intro heads lasts plain
  cases heads with
  | none => trivial
  | some first =>
  cases lasts with
  | none => trivial
  | some last =>
  by_cases nonzero : n = 0
  · simp only [nonzero, beq_self_eq_true, if_true]
    trivial
  · have ends := plain nonzero _ rfl
    have dotted := Text.crlf_text first.start (last.stop ends.1 ends.2)
    simp only [beq_iff_eq, nonzero, if_false]
    revert rests
    generalize ls₁.drop n = rest₁
    generalize ls₂.drop n = rest₂
    rintro (_ | ⟨next, more⟩)
    · exact dotted.symm
    · dsimp only
      rw [next.token, Token.crlf_beq _ (show Token.lParen.isString = false from rfl),
        closesAtEnd_crlf (List.Forall₂.cons next more)]
      split
      · exact dotted.symm
      · trivial

/-- A header's names are read alike from lexemes that match one for one: each is a word. -/
theorem headerWords_crlf (h : List.Forall₂ (LexAlike src) ls₁ ls₂) :
    (headerWords (Text.crlf src) ls₂).1 = (headerWords src ls₁).1 := by
  unfold headerWords
  refine (List.forall₂_eq_eq_eq ▸ List.rel_filterMap (fun l₁ l₂ alike => ?_) h).symm
  rw [alike.token, Token.isStr_crlf, Token.nameText?_crlf]
  split
  · exact Option.Rel.none
  · cases hname : l₁.token.nameText? with
    | none => exact Option.Rel.none
    | some _ =>
      have word := Token.isWord_of_nameText (by rw [hname]; rfl)
      exact Option.Rel.some (alike.text word).symm

/-- Whether lexemes are all string literals does not depend on line endings. -/
theorem all_isStr_crlf (h : List.Forall₂ (LexAlike src) ls₁ ls₂) :
    ls₂.all (·.token.isStr) = ls₁.all (·.token.isStr) := by
  induction h with
  | nil => rfl
  | cons alike _ ih => simp only [List.all_cons, alike.token, Token.isStr_crlf, ih]

end Lexemes

/-! ### Simple statements -/

namespace Grammar

variable {p : CrlfTapes}

theorem importedNames_twin : ∀ n parens (acc : Array ImportAlias),
    Twin p Eq (importedNames n parens acc) (importedNames n parens acc)
  | 0, _, _ => Twin.exhausted
  | n + 1, parens, acc => by
    rw [importedNames.eq_2]
    refine Twin.peek_bind (fun _ => rfl) (fun _ => rfl) fun _ => ?_
    split
    · exact Twin.pure rfl
    · refine Twin.bind_eq (expectName_twin _) fun name => ?_
      refine Twin.bind_eq asName_twin fun asname => ?_
      refine Twin.peek_bind (fun _ => rfl) (fun _ => rfl) fun _ => ?_
      split
      · exact Twin.pure rfl
      · exact Twin.skip_bind (importedNames_twin n parens _)

theorem importList_twin : ∀ n (acc₁ acc₂ : Array ImportAlias),
    List.Forall₂ ImportAlias.CrlfAlike acc₁.toList acc₂.toList →
    Twin p (fun r₁ r₂ : Array ImportAlias => List.Forall₂ ImportAlias.CrlfAlike r₁.toList r₂.toList)
      (importList n acc₁) (importList n acc₂)
  | 0, _, _, _ => Twin.exhausted
  | n + 1, acc₁, acc₂, hacc => by
    rw [importList.eq_2, importList.eq_2]
    refine Twin.bind dottedName_twin fun name₁ name₂ alike => ?_
    refine Twin.bind_eq asName_twin fun asname => ?_
    have pushed : List.Forall₂ ImportAlias.CrlfAlike (acc₁.push ⟨name₁, asname⟩).toList
        (acc₂.push ⟨name₂, asname⟩).toList := by
      rw [Array.toList_push, Array.toList_push]
      exact List.rel_append hacc (.cons ⟨alike, rfl⟩ .nil)
    refine Twin.peek_bind (fun _ => rfl) (fun _ => rfl) fun _ => ?_
    split
    · exact Twin.pure pushed
    · exact Twin.skip_bind (importList_twin n _ _ pushed)

theorem relativeLevel_twin :
    ∀ n level, Twin p Eq (relativeLevel n level) (relativeLevel n level) := by
  intro n
  induction n with
  | zero => exact fun _ => Twin.exhausted
  | succ n ih =>
    intro level
    rw [relativeLevel.eq_2]
    refine Twin.peek_bind (fun _ => rfl) (fun _ => rfl) fun _ => ?_
    split
    · exact Twin.skip_bind (ih _)
    · exact Twin.skip_bind (ih _)
    · exact Twin.pure rfl

theorem importStmt_twin : Twin p SameShape.kind importStmt importStmt := by
  unfold importStmt
  refine Twin.skip_bind (Twin.read_bind ?_)
  rw [p.size_eq]
  refine Twin.bind (importList_twin _ #[] #[] .nil) fun r₁ r₂ aliases => Twin.pure ?_
  simp only [SameShape.kind]
  exact aliases

theorem fromImportStmt_twin : Twin p SameShape.kind fromImportStmt fromImportStmt := by
  unfold fromImportStmt
  refine Twin.skip_bind (Twin.read_bind ?_)
  rw [p.size_eq]
  refine Twin.bind_eq (relativeLevel_twin _ 0) fun level => ?_
  refine Twin.peek_bind (fun _ => rfl) (fun _ => rfl) fun _ => ?_
  extract_lets jp
  have more : ∀ m₁ m₂, Option.Rel Text.CrlfAlike m₁ m₂ → Twin p SameShape.kind (jp m₁) (jp m₂) := by
    intro m₁ m₂ modules
    have shaped : ∀ names, SameShape.kind (.importFrom m₁ names level) (.importFrom m₂ names level) :=
      fun _ => by simpa only [SameShape.kind, and_true] using modules
    have none_eq : m₂.isNone = m₁.isNone := by cases modules <;> rfl
    simp only [jp, none_eq]
    split
    · exact Twin.fail_bind
    · refine Twin.bind_eq (expect_twin rfl _) fun _ => ?_
      refine Twin.peek_bind (fun _ => rfl) (fun _ => rfl) fun _ => ?_
      split
      · exact Twin.skip_bind (Twin.pure (shaped []))
      · refine Twin.peek_bind (fun _ => rfl) (fun _ => rfl) fun _ => ?_
        split
        · exact Twin.skip_bind (Twin.bind_eq (importedNames_twin _ _ _) fun _ =>
            Twin.bind_eq (expect_twin rfl _) fun _ => Twin.pure (shaped _))
        · exact Twin.bind_eq (importedNames_twin _ _ _) fun _ => Twin.pure (shaped _)
  split
  · exact Twin.bind (Twin.map dottedName_twin fun _ _ alike => Option.Rel.some alike) more
  · exact Twin.bind (Twin.pure .none) more

theorem skipPattern_twin : ∀ n depth lambdas,
    Twin p Eq (skipPattern n depth lambdas) (skipPattern n depth lambdas)
  | 0, _, _ => Twin.exhausted
  | n + 1, depth, lambdas => by
    rw [skipPattern.eq_2]
    refine Twin.peek_bind (fun _ => rfl) (fun _ => rfl) fun _ => ?_
    split
    · exact Twin.pure rfl
    · extract_lets jp
      have more : ∀ r, Twin p Eq (jp r) (jp r) := fun _ =>
        Twin.skip_bind (skipPattern_twin n _ _)
      split
      all_goals first
        | exact Twin.fail_bind
        | exact more ()

theorem assignedValue_twin (n : Nat) :
    Twin p (List.Forall₂ (Span.Crlf p.src)) (assignedValue n) (assignedValue n) := by
  cases n with
  | zero => exact Twin.exhausted
  | succ n =>
    rw [assignedValue.eq_2]
    refine Twin.peek_bind (fun _ => rfl) (fun _ => rfl) fun _ => ?_
    split
    · exact Twin.bind_eq (yieldExpr_twin n) fun _ => Twin.pure .nil
    · exact starExpressions_twin n

theorem assignChain_twin : ∀ n names,
    Twin p SameShape.kind (assignChain n names) (assignChain n names)
  | 0, _ => Twin.exhausted
  | n + 1, names => by
    rw [assignChain.eq_2]
    refine Twin.peek_bind (fun _ => rfl) (fun _ => rfl) fun _ => ?_
    split
    · exact Twin.pure (rfl : names = names)
    · refine Twin.skip_bind (Twin.bind (assignedValue_twin n) fun v₁ v₂ values => ?_)
      refine Twin.read_bind ?_
      rw [p.source_first, p.source_second]
      refine Twin.peek_bind (fun _ => rfl) (fun _ => rfl) fun _ => ?_
      rw [boundNames_crlf values]
      exact assignChain_twin n _

theorem expressionStmt_twin (n : Nat) :
    Twin p SameShape.kind (expressionStmt n) (expressionStmt n) := by
  cases n with
  | zero => exact Twin.exhausted
  | succ n =>
    rw [expressionStmt.eq_2]
    refine Twin.bind (assignedValue_twin n) fun first₁ first₂ firsts => ?_
    have length : first₂.length = first₁.length := firsts.length_eq.symm
    refine Twin.peek_bind (fun _ => rfl) (fun _ => rfl) fun _ => ?_
    split
    · refine Twin.read_bind ?_
      rw [p.source_first, p.source_second, boundNames_crlf firsts]
      exact assignChain_twin n _
    · rw [length]
      extract_lets jp
      have more : Twin p SameShape.kind (jp ()) (jp ()) := by
        simp only [jp]
        exact Twin.skip_bind (Twin.bind_eq (Twin.discard (assignedValue_twin n)) fun _ =>
          Twin.pure trivial)
      split
      · exact Twin.fail_bind
      · exact more
    · rw [length]
      extract_lets jp₁ jp₂
      have more : Twin p SameShape.kind (jp₁ ()) (jp₂ ()) := by
        simp only [jp₁, jp₂]
        refine Twin.skip_bind (Twin.bind_eq (expression_twin n) fun _ => ?_)
        refine Twin.peek_bind (fun _ => rfl) (fun _ => rfl) fun _ => ?_
        split
        · exact Twin.pure trivial
        · refine Twin.skip_bind (Twin.bind_eq (Twin.discard (assignedValue_twin n)) fun _ => ?_)
          refine Twin.read_bind (Twin.pure ?_)
          rw [p.source_first, p.source_second, boundNames_crlf firsts]
          rfl
      split
      · exact Twin.fail_bind
      · exact more
    · exact Twin.pure trivial

theorem typeAlias_twin (n : Nat) : Twin p Eq (typeAlias n) (typeAlias n) := by
  cases n with
  | zero => exact Twin.exhausted
  | succ n =>
    rw [typeAlias.eq_2]
    refine Twin.skip_bind (Twin.bind_eq (Twin.discard (expectName_twin _)) fun _ => ?_)
    refine Twin.peek_bind (fun _ => rfl) (fun _ => rfl) fun _ => ?_
    extract_lets jp
    have more : ∀ r, Twin p Eq (jp r) (jp r) := fun _ =>
      Twin.bind_eq (expect_twin rfl _) fun _ => expression_twin n
    split
    · exact Twin.bind_eq (typeParams_twin n) more
    · exact more ()

theorem nameList_twin (n : Nat) : Twin p Eq (nameList n) (nameList n) := by
  induction n with
  | zero => exact Twin.exhausted
  | succ n more =>
    rw [nameList.eq_2]
    refine Twin.bind_eq (Twin.discard (expectName_twin _)) fun _ => ?_
    refine Twin.peek_bind (fun _ => rfl) (fun _ => rfl) fun _ => ?_
    split
    · exact Twin.skip_bind more
    · exact Twin.pure rfl

end Grammar

end PyTune
