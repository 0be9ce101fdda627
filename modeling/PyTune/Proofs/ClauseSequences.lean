import PyTune.Proofs.StatementCases
import PyTune.Proofs.Definitions
import PyTune.Proofs.Spelling

/-!
# The clause sequences of compound statements

The keyword sequences that `continuesWith` admits are the words of `ClauseWords`
(`ClauseWords.of_continues`), and every compound statement read from a source has one
(`Module.compounds_admissible`).
-/

namespace PyTune

/-- The word `w` when `present`, nothing otherwise. -/
def optionalWord (present : Bool) (w : String) : List String :=
  if present then [w] else []

/-- The clause keywords of a compound statement that a header keyword begins, in order:
`if elif* else?`, `for else?`, `while else?`, `with`, and
`try (except+ else? finally? | finally)`. -/
inductive ClauseWords : List String → Prop
  | conditional (elifs : Nat) (orElse : Bool) :
      ClauseWords ("if" :: List.replicate elifs "elif" ++ optionalWord orElse "else")
  | loop (kw : String) (loops : kw = "for" ∨ kw = "while") (orElse : Bool) :
      ClauseWords (kw :: optionalWord orElse "else")
  | context : ClauseWords ["with"]
  | handled (handlers : Nat) (orElse final : Bool) :
      ClauseWords ("try" :: List.replicate (handlers + 1) "except" ++ optionalWord orElse "else" ++
        optionalWord final "finally")
  | cleanup : ClauseWords ["try", "finally"]

/-- The clauses of a compound statement as the grammar allows them: their keywords form a word
of `ClauseWords`, or they are a single `match` or `case` clause. -/
def Clause.Admissible (cls : List Clause) : Prop :=
  ClauseWords (cls.map (·.keyword)) ∨
    ∃ cl, cls = [cl] ∧ (cl.keyword = "match" ∨ cl.keyword = "case")

/-! ### The continuation rule -/

theorem continuesWith_if {last next : String} :
    continuesWith "if" last next = true ↔
      (last = "if" ∨ last = "elif") ∧ (next = "elif" ∨ next = "else") := by
  simp [continuesWith]

theorem continuesWith_loop {first last next : String} (loops : first = "for" ∨ first = "while") :
    continuesWith first last next = true ↔ (last = "for" ∨ last = "while") ∧ next = "else" := by
  rcases loops with rfl | rfl <;> simp [continuesWith]

theorem continuesWith_with {last next : String} : continuesWith "with" last next = false := by
  simp [continuesWith]

theorem continuesWith_try {last next : String} :
    continuesWith "try" last next = true ↔
      (last = "try" ∨ last = "except") ∧ (next = "except" ∨ next = "finally") ∨
        last = "except" ∧ next = "else" ∨ last = "else" ∧ next = "finally" := by
  simp [continuesWith, or_assoc]

/-- Nothing follows a `finally` clause. -/
theorem continuesWith_finally {first next : String} : continuesWith first "finally" next = false := by
  simp [continuesWith]

/-- Nothing follows the `else` of an `if`, a `for` or a `while`. -/
theorem continuesWith_else {first next : String} (other : first ≠ "try") :
    continuesWith first "else" next = false := by
  simp [continuesWith, other]

/-- Each keyword of `ks` may follow the one before it, the first of them `last`, in a compound
statement that `first` begins. -/
def Continues (first last : String) (ks : List String) : Prop :=
  List.IsChain (fun a b => continuesWith first a b = true) (last :: ks)

namespace Continues

variable {first last next : String} {ks : List String}

theorem cons : Continues first last (next :: ks) ↔
    continuesWith first last next = true ∧ Continues first next ks :=
  List.isChain_cons_cons

/-- After a clause that nothing may follow, nothing follows. -/
theorem eq_nil (ends : ∀ next, continuesWith first last next = false)
    (h : Continues first last ks) : ks = [] := by
  cases ks with
  | nil => rfl
  | cons next ks =>
    have follows := (cons.1 h).1
    rw [ends next] at follows
    cases follows

end Continues

/-- After `if` or `elif`, an `if` takes `elif` clauses and then at most one `else`. -/
theorem conditional_tail {ks : List String} :
    ∀ {last : String}, (last = "if" ∨ last = "elif") → Continues "if" last ks →
      ∃ elifs orElse, ks = List.replicate elifs "elif" ++ optionalWord orElse "else" := by
  induction ks with
  | nil => exact fun _ _ => ⟨0, false, rfl⟩
  | cons next ks ih =>
    intro last _ h
    obtain ⟨follows, rest⟩ := Continues.cons.1 h
    rcases (continuesWith_if.1 follows).2 with rfl | rfl
    · obtain ⟨elifs, orElse, rfl⟩ := ih (.inr rfl) rest
      exact ⟨elifs + 1, orElse, rfl⟩
    · rw [rest.eq_nil fun _ => continuesWith_else (by decide)]
      exact ⟨0, true, rfl⟩

/-- After an `except`, a `try` takes more `except` clauses, then at most one `else`, then at
most one `finally`. -/
theorem handler_tail {ks : List String} :
    Continues "try" "except" ks → ∃ handlers orElse final,
      ks = List.replicate handlers "except" ++ optionalWord orElse "else" ++
        optionalWord final "finally" := by
  induction ks with
  | nil => exact fun _ => ⟨0, false, false, rfl⟩
  | cons next ks ih =>
    intro h
    obtain ⟨follows, rest⟩ := Continues.cons.1 h
    rcases continuesWith_try.1 follows with ⟨-, rfl | rfl⟩ | ⟨-, rfl⟩ | ⟨last, -⟩
    · obtain ⟨handlers, orElse, final, rfl⟩ := ih rest
      exact ⟨handlers + 1, orElse, final, rfl⟩
    · exact ⟨0, false, true, by rw [rest.eq_nil fun _ => continuesWith_finally]; rfl⟩
    · -- after `else`, at most a `finally`
      cases ks with
      | nil => exact ⟨0, true, false, rfl⟩
      | cons k ks =>
        obtain ⟨follows', rest'⟩ := Continues.cons.1 rest
        rcases continuesWith_try.1 follows' with ⟨last, -⟩ | ⟨last, -⟩ | ⟨-, rfl⟩
        · rcases last with last | last <;> exact absurd last (by decide)
        · exact absurd last (by decide)
        · exact ⟨0, true, true, by rw [rest'.eq_nil fun _ => continuesWith_finally]; rfl⟩
    · exact absurd last (by decide)

/-- A `for` or a `while` takes at most one `else`. -/
theorem loop_words {first : String} {ks : List String} (loops : first = "for" ∨ first = "while")
    (chain : Continues first first ks) : ClauseWords (first :: ks) := by
  cases ks with
  | nil => exact .loop first loops false
  | cons next ks =>
    obtain ⟨follows, rest⟩ := Continues.cons.1 chain
    obtain ⟨-, rfl⟩ := (continuesWith_loop loops).1 follows
    have other : first ≠ "try" := by rcases loops with rfl | rfl <;> decide
    rw [rest.eq_nil fun _ => continuesWith_else other]
    exact .loop first loops true

/-- The clause keywords that may follow a header keyword, with an `except` or a `finally` for
a `try`, form a word of `ClauseWords`. -/
theorem ClauseWords.of_continues {first : String} {ks : List String}
    (header : first = "if" ∨ first = "for" ∨ first = "while" ∨ first = "with" ∨ first = "try")
    (chain : Continues first first ks)
    (handled : first = "try" → "except" ∈ ks ∨ "finally" ∈ ks) : ClauseWords (first :: ks) := by
  rcases header with rfl | rfl | rfl | rfl | rfl
  · obtain ⟨elifs, orElse, rfl⟩ := conditional_tail (.inl rfl) chain
    exact .conditional elifs orElse
  · exact loop_words (.inl rfl) chain
  · exact loop_words (.inr rfl) chain
  · rw [chain.eq_nil fun _ => continuesWith_with]
    exact .context
  · -- a `try` goes on with an `except` or a `finally`
    cases ks with
    | nil => simp at handled
    | cons next ks =>
      obtain ⟨follows, rest⟩ := Continues.cons.1 chain
      rcases continuesWith_try.1 follows with ⟨-, rfl | rfl⟩ | ⟨last, -⟩ | ⟨last, -⟩
      · obtain ⟨handlers, orElse, final, rfl⟩ := handler_tail rest
        exact .handled handlers orElse final
      · rw [rest.eq_nil fun _ => continuesWith_finally]
        exact .cleanup
      · exact absurd last (by decide)
      · exact absurd last (by decide)

/-! ### Compound statements at every depth -/

mutual

/-- The clauses of the compound statements among some statements, at every depth, in source
order. -/
def Compounds.stmts : List Stmt → List (List Clause)
  | [] => []
  | s :: rest => Compounds.stmt s ++ Compounds.stmts rest

def Compounds.stmt : Stmt → List (List Clause)
  | ⟨_, .functionDef ⟨_, _, _, _, body⟩⟩ => Compounds.suite body
  | ⟨_, .classDef ⟨_, _, _, _, body⟩⟩ => Compounds.suite body
  | ⟨_, .compound cls⟩ => cls :: Compounds.clauses cls
  | _ => []

def Compounds.clauses : List Clause → List (List Clause)
  | [] => []
  | ⟨_, _, _, body⟩ :: cls => Compounds.suite body ++ Compounds.clauses cls

def Compounds.suite : Suite → List (List Clause)
  | .inline body => Compounds.stmts body
  | .block _ body => Compounds.stmts body

end

/-- The clauses of every compound statement of a module, at every depth, in source order. -/
def Module.compounds (m : Module) : List (List Clause) :=
  Compounds.stmts m.body

namespace Compounds

/-- Every compound statement among `xs` has its clauses as the grammar allows. -/
def Admissible (xs : List (List Clause)) : Prop :=
  ∀ cls ∈ xs, Clause.Admissible cls

theorem stmts_append (xs ys : List Stmt) :
    Compounds.stmts (xs ++ ys) = Compounds.stmts xs ++ Compounds.stmts ys := by
  induction xs with
  | nil => rfl
  | cons s xs ih => rw [List.cons_append, Compounds.stmts, Compounds.stmts, ih, List.append_assoc]

theorem clauses_append (xs ys : List Clause) :
    Compounds.clauses (xs ++ ys) = Compounds.clauses xs ++ Compounds.clauses ys := by
  induction xs with
  | nil => rfl
  | cons cl xs ih =>
    obtain ⟨k, names, strings, body⟩ := cl
    rw [List.cons_append, Compounds.clauses, Compounds.clauses, ih, List.append_assoc]

theorem clauses_cons (cl : Clause) (cls : List Clause) :
    Compounds.clauses (cl :: cls) = Compounds.suite cl.body ++ Compounds.clauses cls := by
  obtain ⟨k, names, strings, body⟩ := cl
  rfl

theorem stmt_leaf {s : Stmt} (hk : s.kind.Leaf) : Compounds.stmt s = [] := by
  obtain ⟨o, k⟩ := s
  cases k <;> first | exact hk.elim | rfl

theorem stmt_reorigin (s : Stmt) (o : Origin) :
    Compounds.stmt { s with origin := o } = Compounds.stmt s := by
  obtain ⟨o', k⟩ := s
  cases k with
  | functionDef d | classDef d =>
    obtain ⟨_, _, _, _, _⟩ := d
    rfl
  | _ => rfl

theorem stmts_of_leaves {xs : List Stmt} (leaves : ∀ s ∈ xs, s.kind.Leaf) :
    Compounds.stmts xs = [] := by
  induction xs with
  | nil => rfl
  | cons s xs ih =>
    rw [Compounds.stmts, stmt_leaf (leaves s List.mem_cons_self),
      ih fun s' m => leaves s' (List.mem_cons_of_mem _ m)]
    rfl

theorem stmt_functionDef {s : Stmt} {d : Definition} (h : s.kind = .functionDef d) :
    Compounds.stmt s = Compounds.suite d.body := by
  obtain ⟨o, k⟩ := s
  obtain rfl := h
  obtain ⟨_, _, _, _, _⟩ := d
  rfl

theorem stmt_classDef {s : Stmt} {d : Definition} (h : s.kind = .classDef d) :
    Compounds.stmt s = Compounds.suite d.body := by
  obtain ⟨o, k⟩ := s
  obtain rfl := h
  obtain ⟨_, _, _, _, _⟩ := d
  rfl

theorem push {acc : Array Stmt} {s : Stmt} (hacc : Admissible (Compounds.stmts acc.toList))
    (hs : Admissible (Compounds.stmt s)) : Admissible (Compounds.stmts (acc.push s).toList) := by
  rw [Array.toList_push, stmts_append, Compounds.stmts, Compounds.stmts, List.append_nil]
  intro cls m
  rcases List.mem_append.1 m with m | m
  · exact hacc cls m
  · exact hs cls m

theorem clauses_push {acc : Array Clause} {cl : Clause}
    (hacc : Admissible (Compounds.clauses acc.toList)) (hb : Admissible (Compounds.suite cl.body)) :
    Admissible (Compounds.clauses (acc.push cl).toList) := by
  rw [Array.toList_push, clauses_append, clauses_cons, Compounds.clauses, List.append_nil]
  intro cls m
  rcases List.mem_append.1 m with m | m
  · exact hacc cls m
  · exact hb cls m

theorem nil : Admissible [] :=
  fun _ m => absurd m List.not_mem_nil

end Compounds

/-- Every keyword lexeme of the tape spans its spelling, as those of a source without lexical
faults do (`Tape.spelled_ofSource`). The walks over statements need nothing more of a tape. -/
def Tape.SpellsKeywords (t : Tape) : Prop :=
  ∀ i kw, (t.lexemeAt i).token = .keyword kw → (t.lexemeAt i).span.text t.source = kw.spelling

namespace Grammar

variable {t : Tape}

theorem simpleLine_admissible {n : Nat} {acc : Array Stmt} {c r c'}
    (h : (simpleLine n acc).Reads t c r c') (hacc : Compounds.Admissible (Compounds.stmts acc.toList)) :
    Compounds.Admissible (Compounds.stmts r.toList) := by
  obtain ⟨new, split, leaves, -⟩ := simpleLine_leaves n acc h
  rw [split, Compounds.stmts_append, Compounds.stmts_of_leaves leaves, List.append_nil]
  exact hacc

section Walk

variable (hsp : t.SpellsKeywords)

include hsp in
/-- Further clauses are named by keywords that may each follow the one before. -/
theorem moreClauses_continues : ∀ n first last (acc : Array Clause) {c r c'},
    (moreClauses n first last acc).Reads t c r c' →
      ∃ more, r.toList = acc.toList ++ more ∧ Continues first last (more.map (·.keyword))
  | 0, _, _, _, _, _, _, h => by
    rw [moreClauses.eq_1] at h
    exact absurd h Reads.not_exhausted
  | n + 1, first, last, acc, c, r, c', h => by
    rcases h.moreClauses_cases with ⟨rfl, -, -⟩ | ⟨next, cl, c₁, keyword, follows, hcl, h⟩
    · exact ⟨[], (List.append_nil _).symm, List.isChain_singleton _⟩
    · obtain ⟨more, split, chain⟩ := moreClauses_continues n first cl.keyword _ h
      obtain ⟨k, tok, spelled⟩ := Token.clauseKeyword?_eq_some keyword
      have named : cl.keyword = next := by rw [hcl.clause_keyword, hsp _ k tok, spelled]
      refine ⟨cl :: more, by rw [split, Array.toList_push, List.append_assoc]; rfl, ?_⟩
      rw [List.map_cons, Continues.cons, named]
      exact ⟨follows, named ▸ chain⟩

include hsp in
/-- The clauses that a header keyword begins form a word of `ClauseWords`. -/
theorem compound_words {n start : Nat} {c c' : Cursor} {s : Stmt} {kw : String}
    (h : (compound (n + 1) start).Reads t c s c') (header : (t.lexemeAt c.index).token.header? = some kw) :
    ∃ first c₁ cls, (clause n).Reads t c first c₁ ∧
      (moreClauses n first.keyword first.keyword #[first]).Reads t c₁ cls c' ∧
      s = ⟨.source ⟨start, c'.lastEnd⟩, .compound cls.toList⟩ ∧
      ClauseWords (cls.toList.map (·.keyword)) := by
  obtain ⟨first, c₁, cls, hcl, hm, handled, rfl⟩ := h.compound_cases
  obtain ⟨more, split, chain⟩ := moreClauses_continues hsp n _ _ _ hm
  obtain ⟨k, tok, spelled⟩ := Token.header?_eq_some header
  have named : first.keyword = kw := by rw [hcl.clause_keyword, hsp _ k tok, spelled]
  refine ⟨first, c₁, cls, hcl, hm, rfl, ?_⟩
  rw [split]
  show ClauseWords (first.keyword :: more.map (·.keyword))
  refine ClauseWords.of_continues (by rw [named]; exact Token.header?_cases header) chain
    fun isTry => ?_
  obtain ⟨cl, mem, handler⟩ := handled isTry
  have mem' : cl = first ∨ cl ∈ more := by simpa [split] using mem
  rcases mem' with rfl | mem'
  · rw [isTry] at handler
    rcases handler with handler | handler <;> exact absurd handler (by decide)
  · rcases handler with handler | handler
    · exact .inl (List.mem_map.2 ⟨cl, mem', handler⟩)
    · exact .inr (List.mem_map.2 ⟨cl, mem', handler⟩)

mutual

theorem statements_admissible (hsp : t.SpellsKeywords) : ∀ n inBlock (acc : Array Stmt) {c r c'},
    (statements n inBlock acc).Reads t c r c' →
      Compounds.Admissible (Compounds.stmts acc.toList) →
        Compounds.Admissible (Compounds.stmts r.toList)
  | 0, _, _, _, _, _, h, _ => by
    rw [statements.eq_1] at h
    exact absurd h Reads.not_exhausted
  | n + 1, inBlock, acc, c, r, c', h, hacc => by
    obtain ⟨c₁, -, cases⟩ := h.statements_cases
    rcases cases with ⟨-, rfl, -⟩ | ⟨-, -, rfl, -⟩ | ⟨-, acc', c₂, hl, h⟩
    · exact hacc
    · exact hacc
    · exact statements_admissible hsp n inBlock acc' h (stmtLine_admissible hsp n acc hl hacc)
termination_by structural n => n

theorem stmtLine_admissible (hsp : t.SpellsKeywords) : ∀ n (acc : Array Stmt) {c r c'},
    (stmtLine n acc).Reads t c r c' →
      Compounds.Admissible (Compounds.stmts acc.toList) →
        Compounds.Admissible (Compounds.stmts r.toList)
  | 0, _, _, _, _, h, _ => by
    rw [stmtLine.eq_1] at h
    exact absurd h Reads.not_exhausted
  | n + 1, acc, c, r, c', h, hacc => by
    cases h.stmtLine_cases with
    | decorated s _ pushed hd =>
      rw [pushed]
      exact Compounds.push hacc (decorated_admissible hsp n hd)
    | functionDef s _ pushed hd =>
      rw [pushed]
      exact Compounds.push hacc (functionDef_admissible hsp n hd)
    | classDef s _ pushed hd =>
      rw [pushed]
      exact Compounds.push hacc (classDef_admissible hsp n hd)
    | asyncDef s _ _ pushed hd =>
      rw [pushed]
      exact Compounds.push hacc (functionDef_admissible hsp n hd)
    | asyncCompound s _ kw pushed hd =>
      rw [pushed]
      have header : (t.lexemeAt (c.index + 1)).token.header?.isSome := by
        rcases kw with kw | kw <;> rw [kw] <;> rfl
      obtain ⟨kw', header'⟩ := Option.isSome_iff_exists.1 header
      exact Compounds.push hacc (compound_admissible hsp n hd header')
    | compound s kw header pushed hd =>
      rw [pushed]
      exact Compounds.push hacc (compound_admissible hsp n hd header)
    | softBlock s soft pushed hd =>
      rw [pushed]
      exact Compounds.push hacc (softBlock_admissible hsp n hd soft)
    | simple _ _ _ hl => exact simpleLine_admissible hl hacc
termination_by structural n => n

theorem suite_admissible (hsp : t.SpellsKeywords) : ∀ n (owner : BlockOwner) {c body c'},
    (suite n owner).Reads t c body c' → Compounds.Admissible (Compounds.suite body)
  | 0, _, _, _, _, h => by
    rw [suite.eq_1] at h
    exact absurd h Reads.not_exhausted
  | n + 1, owner, c, body, c', h => by
    obtain ⟨-, ⟨stmts, rfl, hl⟩ | ⟨-, -, c₃, indent, stmts, -, rfl, hst⟩⟩ := h.suite_cases
    · exact simpleLine_admissible hl Compounds.nil
    · exact statements_admissible hsp n true #[] hst Compounds.nil
termination_by structural n => n

theorem decorated_admissible (hsp : t.SpellsKeywords) : ∀ n {start : Nat} {c s c'},
    (decorated n start).Reads t c s c' → Compounds.Admissible (Compounds.stmt s)
  | 0, _, _, _, _, h => by
    rw [decorated.eq_1] at h
    exact absurd h Reads.not_exhausted
  | n + 1, start, c, s, c', h => by
    obtain ⟨ds, c₁, s₀, -, rfl, read⟩ := h.decorated_cases
    rw [Compounds.stmt_reorigin]
    rcases read with ⟨-, hf⟩ | ⟨-, -, hf⟩ | ⟨-, hf⟩
    · exact functionDef_admissible hsp n hf
    · exact functionDef_admissible hsp n hf
    · exact classDef_admissible hsp n hf
termination_by structural n => n

theorem functionDef_admissible (hsp : t.SpellsKeywords) : ∀ n {start : Nat} {ds : List Decorator} {c s c'},
    (functionDef n start ds).Reads t c s c' → Compounds.Admissible (Compounds.stmt s)
  | 0, _, _, _, _, _, h => by
    rw [functionDef.eq_1] at h
    exact absurd h Reads.not_exhausted
  | n + 1, start, ds, c, s, c', h => by
    obtain ⟨c₁, d, -, -, hsu, kind⟩ := h.functionDef_cases
    rw [Compounds.stmt_functionDef kind]
    exact suite_admissible hsp n _ hsu
termination_by structural n => n

theorem classDef_admissible (hsp : t.SpellsKeywords) : ∀ n {start : Nat} {ds : List Decorator} {c s c'},
    (classDef n start ds).Reads t c s c' → Compounds.Admissible (Compounds.stmt s)
  | 0, _, _, _, _, _, h => by
    rw [classDef.eq_1] at h
    exact absurd h Reads.not_exhausted
  | n + 1, start, ds, c, s, c', h => by
    obtain ⟨c₁, d, -, -, hsu, kind⟩ := h.classDef_cases
    rw [Compounds.stmt_classDef kind]
    exact suite_admissible hsp n _ hsu
termination_by structural n => n

theorem compound_admissible (hsp : t.SpellsKeywords) : ∀ n {start : Nat} {c s c'} {kw : String},
    (compound n start).Reads t c s c' → (t.lexemeAt c.index).token.header? = some kw →
      Compounds.Admissible (Compounds.stmt s)
  | 0, _, _, _, _, _, h, _ => by
    rw [compound.eq_1] at h
    exact absurd h Reads.not_exhausted
  | n + 1, start, c, s, c', kw, h, header => by
    obtain ⟨first, c₁, cls, hcl, hm, rfl, words⟩ := compound_words hsp h header
    intro cl' m
    rcases List.mem_cons.1 m with rfl | m
    · exact .inl words
    · have none : Compounds.Admissible (Compounds.clauses (#[] : Array Clause).toList) :=
        Compounds.nil
      exact moreClauses_admissible hsp n _ _ #[first] hm
        (Compounds.clauses_push none (clause_admissible hsp n hcl)) cl' m
termination_by structural n => n

theorem moreClauses_admissible (hsp : t.SpellsKeywords) : ∀ n first last (acc : Array Clause) {c r c'},
    (moreClauses n first last acc).Reads t c r c' →
      Compounds.Admissible (Compounds.clauses acc.toList) →
        Compounds.Admissible (Compounds.clauses r.toList)
  | 0, _, _, _, _, _, _, h, _ => by
    rw [moreClauses.eq_1] at h
    exact absurd h Reads.not_exhausted
  | n + 1, first, last, acc, c, r, c', h, hacc => by
    rcases h.moreClauses_cases with ⟨rfl, -, -⟩ | ⟨next, cl, c₁, -, -, hcl, h⟩
    · exact hacc
    · exact moreClauses_admissible hsp n first _ _ h
        (Compounds.clauses_push hacc (clause_admissible hsp n hcl))
termination_by structural n => n

theorem clause_admissible (hsp : t.SpellsKeywords) : ∀ n {c cl c'},
    (clause n).Reads t c cl c' → Compounds.Admissible (Compounds.suite cl.body)
  | 0, _, _, _, h => by
    rw [clause.eq_1] at h
    exact absurd h Reads.not_exhausted
  | n + 1, c, cl, c', h => by
    obtain ⟨c₁, -, -, -, hsu⟩ := h.clause_cases
    exact suite_admissible hsp n _ hsu
termination_by structural n => n

theorem softBlock_admissible (hsp : t.SpellsKeywords) : ∀ n {start : Nat} {c s c'},
    (softBlock n start).Reads t c s c' →
      ((t.lexemeAt c.index).token = .keyword .match ∨ (t.lexemeAt c.index).token = .keyword .case) →
        Compounds.Admissible (Compounds.stmt s)
  | 0, _, _, _, _, h, _ => by
    rw [softBlock.eq_1] at h
    exact absurd h Reads.not_exhausted
  | n + 1, start, c, s, c', h, soft => by
    obtain ⟨c₁, cl, -, -, named, hsu, rfl⟩ := h.softBlock_cases
    intro cl' m
    rcases List.mem_cons.1 m with rfl | m
    · -- one clause, named by `match` or `case`
      refine .inr ⟨cl, rfl, ?_⟩
      rcases soft with soft | soft
      · exact .inl (named.trans (hsp _ _ soft))
      · exact .inr (named.trans (hsp _ _ soft))
    · rw [Compounds.clauses_cons, Compounds.clauses, List.append_nil] at m
      exact suite_admissible hsp n _ hsu cl' m
termination_by structural n => n

end

end Walk

end Grammar

/-- Every compound statement of a module read from a source, at every depth, has its clauses as
the grammar allows: a word of `ClauseWords` after a header keyword, or one `match` or `case`
clause. -/
theorem Module.compounds_admissible {src : String} {m : Module} (h : Module.parse src = .ok m) :
    Compounds.Admissible m.compounds := by
  have hsp : (Tape.ofSource src).SpellsKeywords :=
    fun i kw hk => Tape.spelled_ofSource (Module.parse_noFault h) i (k := kw) hk
  unfold Module.parse at h
  dsimp only at h
  split at h
  · next body c adv heq =>
    cases h
    exact Grammar.statements_admissible hsp _ false #[] ⟨adv, heq⟩ Compounds.nil
  · cases h

end PyTune
