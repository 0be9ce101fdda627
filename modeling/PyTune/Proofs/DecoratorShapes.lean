import PyTune.Proofs.Nesting

/-!
# The shapes of decorators

A decorator is a dotted name, a call of one, or anything else, as the lexemes after its `@` say
(`DecoratorShape.ofLexemes_name`, `DecoratorShape.ofLexemes_call`); the classifier's one bracket
depth is right because those lexemes nest (`Lexeme.closesAtEnd_iff`).
-/

namespace PyTune

namespace Token

theorem isOpening_eq (t : Token) : t.isOpening = t.opening?.isSome := by
  cases t <;> rfl

theorem isClosing_eq (t : Token) : t.isClosing = t.closing?.isSome := by
  cases t <;> rfl

theorem closing?_eq_paren {t : Token} : t.closing? = some '(' ↔ t = .rParen := by
  cases t <;> simp [closing?]

end Token

namespace Lexeme

/-- Names joined by dots, as in `a`, `a.b` and `a.b.c`; the soft keywords count as names. -/
inductive Dotted : List Lexeme → Prop
  | name {l : Lexeme} (h : l.token.nameText?.isSome = true) : Dotted [l]
  | dot {l d : Lexeme} {ls : List Lexeme} (h : l.token.nameText?.isSome = true)
      (hd : d.token = .dot) (more : Dotted ls) : Dotted (l :: d :: ls)

/-- The source text from the start of the first of some lexemes to the end of the last. -/
def textOf (src : String) (ls : List Lexeme) : String :=
  match ls.head?, ls.getLast? with
  | some first, some last => Span.text ⟨first.span.start, last.span.stop⟩ src
  | _, _ => ""

theorem nest_cons (stack : List (Char × Nat)) (l : Lexeme) (ls : List Lexeme) :
    nest stack (l :: ls) = (nestStep stack l).bind (nest · ls) :=
  rfl

theorem nest_append (stack : List (Char × Nat)) (ls ls' : List Lexeme) :
    nest stack (ls ++ ls') = (nest stack ls).bind (nest · ls') := by
  unfold nest
  rw [List.foldlM_append]
  rfl

namespace Dotted

theorem ne_nil {ls : List Lexeme} (h : Dotted ls) : ls ≠ [] := by
  cases h <;> exact List.cons_ne_nil _ _

theorem length_odd {ls : List Lexeme} (h : Dotted ls) : ls.length % 2 = 1 := by
  induction h with
  | name => rfl
  | dot _ _ _ ih =>
    rw [List.length_cons, List.length_cons]
    omega

/-- Names and dots open and close no bracket. -/
theorem nest {ls : List Lexeme} (h : Dotted ls) (stack : List (Char × Nat)) :
    nest stack ls = some stack := by
  induction h with
  | @name l hl =>
    have plain := Token.Plain.of_nameText hl
    rw [nest_cons, nestStep_plain plain.2.2.1 plain.2.2.2.1]
    rfl
  | @dot l d ls hl hd _ ih =>
    have plain := Token.Plain.of_nameText hl
    rw [nest_cons, nestStep_plain plain.2.2.1 plain.2.2.2.1, Option.bind_some, nest_cons,
      nestStep_plain (by rw [hd]; rfl) (by rw [hd]; rfl), Option.bind_some, ih]

/-- A dotted name followed by anything but a dot is the whole alternating prefix. -/
theorem dottedPrefix_append {ds : List Lexeme} (h : Dotted ds) (rest : List Lexeme)
    (hr : ∀ x ∈ rest.head?, x.token ≠ .dot) : dottedPrefix (ds ++ rest) true = ds.length := by
  induction h with
  | @name l hl =>
    have stops : dottedPrefix rest false = 0 := by
      cases rest with
      | nil => rfl
      | cons x _ =>
        unfold dottedPrefix
        rw [if_neg (by simpa using hr x rfl)]
    simp [dottedPrefix, hl, stops]
  | @dot l d ls hl hd _ ih =>
    simp [dottedPrefix, hl, hd, ih]

end Dotted

/-- The lexemes up to an odd count within the alternating prefix are a dotted name. -/
theorem dotted_take (k : Nat) : ∀ ls : List Lexeme, 2 * k + 1 ≤ dottedPrefix ls true →
    Dotted (ls.take (2 * k + 1)) := by
  induction k with
  | zero =>
    rintro (_ | ⟨l, ls⟩) h
    · simp [dottedPrefix] at h
    · unfold dottedPrefix at h
      split at h
      · next name => exact .name name
      · omega
  | succ k ih =>
    rintro (_ | ⟨l, _ | ⟨d, ls⟩⟩) h
    · simp [dottedPrefix] at h
    · simp only [dottedPrefix] at h
      split at h <;> omega
    · unfold dottedPrefix at h
      split at h
      · next name =>
        unfold dottedPrefix at h
        split at h
        · next dot => exact .dot name (beq_iff_eq.1 dot) (ih ls (by omega))
        · omega
      · omega

/-- Where the alternating prefix has an odd length it ends on a name, and no dot follows it. -/
theorem dottedPrefix_odd (k : Nat) : ∀ ls : List Lexeme, dottedPrefix ls true = 2 * k + 1 →
    ∀ x ∈ (ls.drop (2 * k + 1)).head?, x.token ≠ .dot := by
  induction k with
  | zero =>
    rintro (_ | ⟨l, _ | ⟨x, ls⟩⟩) h
    · simp [dottedPrefix] at h
    · simp
    · intro y hy
      simp only [Nat.mul_zero, Nat.zero_add, List.drop_succ_cons, List.drop_zero,
        List.head?_cons, Option.mem_def, Option.some.injEq] at hy
      subst hy
      intro dot
      simp only [dottedPrefix, dot, BEq.rfl, if_true] at h
      split at h <;> omega
  | succ k ih =>
    rintro (_ | ⟨l, _ | ⟨d, ls⟩⟩) h
    · simp [dottedPrefix] at h
    · simp only [dottedPrefix] at h
      split at h <;> omega
    · unfold dottedPrefix at h
      split at h
      · unfold dottedPrefix at h
        split at h
        · exact ih ls (by omega)
        · omega
      · omega

/-- Where the alternating prefix has a nonzero even length it ends on a dot. -/
theorem dottedPrefix_even (k : Nat) : ∀ ls : List Lexeme, dottedPrefix ls true = 2 * k + 2 →
    ∃ x, ls[2 * k + 1]? = some x ∧ x.token = .dot := by
  induction k with
  | zero =>
    rintro (_ | ⟨l, _ | ⟨d, ls⟩⟩) h
    · simp [dottedPrefix] at h
    · simp only [dottedPrefix] at h
      split at h <;> omega
    · unfold dottedPrefix at h
      split at h
      · unfold dottedPrefix at h
        split at h
        · next dot => exact ⟨d, rfl, beq_iff_eq.1 dot⟩
        · omega
      · omega
  | succ k ih =>
    rintro (_ | ⟨l, _ | ⟨d, ls⟩⟩) h
    · simp [dottedPrefix] at h
    · simp only [dottedPrefix] at h
      split at h <;> omega
    · unfold dottedPrefix at h
      split at h
      · unfold dottedPrefix at h
        split at h
        · exact ih ls (by omega)
        · omega
      · omega

/-- The lexemes end in a bracket that closes `o`, and the ones before it close all the brackets
of `stack` and open none that stays open. -/
def ClosesLast (stack : List (Char × Nat)) (o : Char) (xs : List Lexeme) : Prop :=
  ∃ inner last, xs = inner ++ [last] ∧ nest stack inner = some [] ∧ last.token.closing? = some o

/-- The lexemes are the dotted name `ds`, then an opening parenthesis, lexemes whose brackets
nest, and the closing parenthesis that matches the opening one. -/
def DottedCall (ds ls : List Lexeme) : Prop :=
  Dotted ds ∧ ∃ lp inner rp, ls = ds ++ lp :: (inner ++ [rp]) ∧ lp.token = .lParen ∧
    rp.token = .rParen ∧ nest [] inner = some []

theorem closesLast_cons {stack : List (Char × Nat)} {o : Char} {x : Lexeme} {xs : List Lexeme} :
    ClosesLast stack o (x :: xs) ↔ (xs = [] ∧ stack = [] ∧ x.token.closing? = some o) ∨
      ∃ after, nestStep stack x = some after ∧ ClosesLast after o xs := by
  constructor
  · rintro ⟨_ | ⟨y, inner⟩, last, split, hn, hc⟩
    · -- `x` is the closing bracket itself
      simp only [List.nil_append, List.cons.injEq] at split
      obtain ⟨rfl, rfl⟩ := split
      cases hn
      exact .inl ⟨rfl, rfl, hc⟩
    · simp only [List.cons_append, List.cons.injEq] at split
      obtain ⟨rfl, rfl⟩ := split
      rw [nest_cons] at hn
      obtain ⟨after, step, rest⟩ := Option.bind_eq_some_iff.1 hn
      exact .inr ⟨after, step, inner, last, rfl, rest, hc⟩
  · rintro (⟨rfl, rfl, hc⟩ | ⟨after, step, inner, last, rfl, hn, hc⟩)
    · exact ⟨[], x, rfl, rfl, hc⟩
    · refine ⟨x :: inner, last, rfl, ?_, hc⟩
      rw [nest_cons, step, Option.bind_some, hn]

/-- On lexemes that close the brackets open before them, the scan with one depth for every kind
of bracket finds the end of the outermost open bracket where the bracket that matches it is. -/
theorem closesAtEnd_iff (xs : List Lexeme) : ∀ (stack : List (Char × Nat)) (e : Char × Nat),
    nest (stack ++ [e]) xs = some [] →
      (closesAtEnd xs (stack.length + 1) = true ↔ ClosesLast stack e.1 xs) := by
  induction xs with
  | nil =>
    intro stack e h
    cases stack <;> cases h
  | cons x xs ih =>
    intro stack e h
    rw [nest_cons] at h
    rw [closesLast_cons]
    cases ho : x.token.opening? with
    | some o =>
      have hc := Token.closing?_of_opening ho
      rw [nestStep_opening ho, Option.bind_some] at h
      rw [closesAtEnd, Token.isOpening_eq, ho, Option.isSome_some, if_pos rfl,
        ← List.length_cons, ih _ e h, nestStep_opening ho, hc]
      simp
    | none =>
    cases hc : x.token.closing? with
    | some c =>
      rw [closesAtEnd, Token.isOpening_eq, ho, Token.isClosing_eq, hc]
      simp only [Option.isSome_none, Option.isSome_some, Bool.false_eq_true, if_false, if_true,
        Nat.add_sub_cancel]
      cases stack with
      | nil =>
        obtain ⟨o, p⟩ := e
        by_cases same : o = c
        · subst same
          simp only [List.nil_append, nestStep_closing ho hc, Option.bind_some] at h
          simp [nestStep, ho, hc, List.isEmpty_iff]
        · simp [nestStep, ho, hc, same] at h
      | cons s stack =>
        obtain ⟨o, p⟩ := s
        by_cases same : o = c
        · subst same
          simp only [List.cons_append, nestStep_closing ho hc, Option.bind_some] at h
          simp only [List.length_cons, Nat.add_one_ne_zero, beq_iff_eq, if_false,
            ih stack e h, nestStep_closing ho hc]
          simp
        · simp [nestStep, ho, hc, same] at h
    | none =>
      have step : ∀ st, nestStep st x = some st := fun _ => nestStep_plain ho hc
      rw [step, Option.bind_some] at h
      rw [closesAtEnd, Token.isOpening_eq, ho, Token.isClosing_eq, hc]
      simp only [Option.isSome_none, Bool.false_eq_true, if_false, ih stack e h, step]
      simp

end Lexeme

namespace DecoratorShape

open Lexeme

/-- The shape of a decorator whose lexemes are the dotted name `dotted` and then `rest`, where
`rest` does not start with a dot. -/
def afterDotted (dotted : String) : List Lexeme → DecoratorShape
  | [] => .name dotted
  | rest@(l :: _) => if l.token == .lParen && closesAtEnd rest 0 then .call dotted else .other

/-- Past a dotted name that no dot follows, the shape depends on the lexemes after it alone. -/
theorem ofLexemes_append (src : String) {ds rest : List Lexeme} (hd : Dotted ds)
    (hr : ∀ x ∈ rest.head?, x.token ≠ .dot) :
    ofLexemes src (ds ++ rest) = afterDotted (textOf src ds) rest := by
  obtain ⟨first, hf⟩ : ∃ first, ds.head? = some first :=
    Option.ne_none_iff_exists'.1 (by simpa using hd.ne_nil)
  obtain ⟨last, hl⟩ : ∃ last, ds.getLast? = some last :=
    Option.ne_none_iff_exists'.1 (by simpa using hd.ne_nil)
  have odd := hd.length_odd
  have text : textOf src ds = Span.text ⟨first.span.start, last.span.stop⟩ src := by
    unfold textOf
    rw [hf, hl]
  unfold ofLexemes
  rw [hd.dottedPrefix_append rest hr]
  have n : (if ds.length % 2 == 0 then ds.length - 1 else ds.length) = ds.length := by
    simp [odd]
  simp only [n]
  rw [List.head?_append, hf, Option.some_or, List.getElem?_append_left (by omega),
    ← List.getLast?_eq_getElem?, hl, List.drop_left, text]
  have nonzero : (ds.length == 0) = false := by simp [hd.ne_nil]
  simp only [nonzero, Bool.false_eq_true, if_false]
  cases rest <;> rfl

/-- Lexemes that are neither a dotted name nor start with one of odd length: no dot follows the
longest alternating prefix only when its length is odd. -/
theorem ofLexemes_other_or (src : String) (ls : List Lexeme) :
    ofLexemes src ls = .other ∨
      ∃ ds rest, ls = ds ++ rest ∧ Dotted ds ∧ ∀ x ∈ rest.head?, x.token ≠ .dot := by
  obtain ⟨k, even | odd⟩ := Nat.even_or_odd' (dottedPrefix ls true)
  · left
    unfold ofLexemes
    rw [even]
    cases k with
    | zero =>
      simp only [Nat.mul_zero, Nat.zero_mod, BEq.rfl, if_true, Nat.zero_sub]
      split <;> rfl
    | succ k =>
      -- the prefix ends on a dot, which the shape then sees after the name
      obtain ⟨x, hx, dot⟩ := dottedPrefix_even k ls (by rw [even]; ring)
      have n : (if 2 * (k + 1) % 2 == 0 then 2 * (k + 1) - 1 else 2 * (k + 1)) = 2 * k + 1 := by
        simp only [Nat.mul_mod_right, BEq.rfl, if_true]
        omega
      simp only [n, Nat.add_sub_cancel]
      split
      · obtain ⟨bound, rfl⟩ := List.getElem?_eq_some_iff.1 hx
        have drop : ls.drop (2 * k + 1) = ls[2 * k + 1] :: ls.drop (2 * k + 2) :=
          List.drop_eq_getElem_cons bound
        simp only [Nat.add_one_ne_zero, beq_iff_eq, if_false, drop, dot]
        rfl
      · rfl
  · right
    exact ⟨ls.take (2 * k + 1), ls.drop (2 * k + 1), (List.take_append_drop _ _).symm,
      dotted_take k ls (by omega), dottedPrefix_odd k ls odd⟩

/-- The shape is a dotted name exactly when the lexemes are one, with the text they span. -/
theorem ofLexemes_name (src : String) (ls : List Lexeme) (x : String) :
    ofLexemes src ls = .name x ↔ Dotted ls ∧ x = textOf src ls := by
  constructor
  · intro h
    rcases ofLexemes_other_or src ls with other | ⟨ds, rest, rfl, hd, hr⟩
    · rw [other] at h
      cases h
    · rw [ofLexemes_append src hd hr] at h
      cases rest with
      | nil =>
        simp only [afterDotted, DecoratorShape.name.injEq] at h
        rw [List.append_nil]
        exact ⟨hd, h.symm⟩
      | cons l more =>
        simp only [afterDotted] at h
        split at h <;> cases h
  · rintro ⟨hd, rfl⟩
    have shape := ofLexemes_append src hd
      (show ∀ x ∈ ([] : List Lexeme).head?, x.token ≠ .dot by simp)
    rw [List.append_nil] at shape
    rw [shape]
    rfl

/-- After a dotted name, the scan for the parenthesis that closes at the end finds it where the
parenthesis that matches the opening one is the last lexeme, when the brackets nest. -/
theorem closesAtEnd_paren {ds inner : List Lexeme} {lp : Lexeme} (hd : Dotted ds)
    (hp : lp.token = .lParen) (hb : nest [] (ds ++ lp :: inner) = some []) :
    closesAtEnd (lp :: inner) 0 = true ↔ ClosesLast [] '(' inner := by
  rw [nest_append, hd.nest, Option.bind_some, nest_cons, nestStep_opening (by rw [hp]; rfl),
    Option.bind_some] at hb
  rw [closesAtEnd, if_pos (by rw [hp]; rfl)]
  exact closesAtEnd_iff inner [] ('(', lp.span.start) hb

/-- On lexemes whose brackets nest, the shape is a call exactly when a dotted name is followed by
an opening parenthesis whose matching closing one is the last lexeme; the text is the name's. -/
theorem ofLexemes_call (src : String) {ls : List Lexeme} (hb : nest [] ls = some [])
    (x : String) : ofLexemes src ls = .call x ↔ ∃ ds, DottedCall ds ls ∧ x = textOf src ds := by
  constructor
  · intro h
    rcases ofLexemes_other_or src ls with other | ⟨ds, rest, rfl, hd, hr⟩
    · rw [other] at h
      cases h
    · rw [ofLexemes_append src hd hr] at h
      cases rest with
      | nil => cases h
      | cons lp inner =>
        simp only [afterDotted] at h
        split at h
        · next opens =>
          simp only [Bool.and_eq_true, beq_iff_eq] at opens
          simp only [DecoratorShape.call.injEq] at h
          obtain ⟨inner, rp, rfl, hn, hc⟩ := (closesAtEnd_paren hd opens.1 hb).1 opens.2
          exact ⟨ds, ⟨hd, lp, inner, rp, rfl, opens.1, Token.closing?_eq_paren.1 hc, hn⟩, h.symm⟩
        · cases h
  · rintro ⟨ds, ⟨hd, lp, inner, rp, rfl, hp, hr, hn⟩, rfl⟩
    have closes : ClosesLast [] '(' (inner ++ [rp]) :=
      ⟨inner, rp, rfl, hn, Token.closing?_eq_paren.2 hr⟩
    rw [ofLexemes_append src hd (by simp [hp])]
    simp [afterDotted, hp, (closesAtEnd_paren hd hp hb).2 closes]

/-- On lexemes whose brackets nest, the shape is neither a dotted name nor a call exactly when
the lexemes are neither. -/
theorem ofLexemes_other (src : String) {ls : List Lexeme} (hb : nest [] ls = some []) :
    ofLexemes src ls = .other ↔ ¬ Dotted ls ∧ ∀ ds, ¬ DottedCall ds ls := by
  constructor
  · intro other
    refine ⟨fun hd => ?_, fun ds hc => ?_⟩
    · have named := (ofLexemes_name src ls _).2 ⟨hd, rfl⟩
      rw [other] at named
      cases named
    · have called := (ofLexemes_call src hb _).2 ⟨ds, hc, rfl⟩
      rw [other] at called
      cases called
  · rintro ⟨notName, notCall⟩
    cases hs : ofLexemes src ls with
    | name x => exact absurd ((ofLexemes_name src ls x).1 hs).1 notName
    | call x =>
      obtain ⟨ds, hc, -⟩ := (ofLexemes_call src hb x).1 hs
      exact absurd hc (notCall ds)
    | other => rfl

end DecoratorShape

/-! ### A decorator on the tape -/

namespace Tape

variable {t : Tape} {i j : Nat} {a b : List (Char × Nat)}

theorem between_eq_extract (t : Tape) (hj : j ≤ t.lexemes.size) :
    t.between i j = (t.lexemes.extract i j).toList := by
  apply List.ext_getElem
  · simp only [between, List.length_map, List.length_range', Array.length_toList,
      Array.size_extract]
    omega
  · intro n _ h₂
    simp only [Array.length_toList, Array.size_extract] at h₂
    simp only [between, List.getElem_map, List.getElem_range', Nat.one_mul,
      Array.getElem_toList, Array.getElem_extract, lexemeAt]
    rw [Array.getElem?_eq_getElem (by omega), Option.getD_some]

/-- The lexemes of code that reading passed from `i` to `j` are those an expression read
there: all of them, since it reads no layout. -/
theorem Nests.consumed (h : t.Nests i j a b) (hij : i ≤ j) :
    (t.lexemes.extract i j).toList.filter (fun l => !l.token.isLayout) = t.between i j := by
  rcases Nat.eq_or_lt_of_le hij with rfl | lt
  · simp [between_self]
  -- the last lexeme read is no layout, so no end of input, so within the tape's lexemes
  have last := h.not_layout (k := j - 1) (by omega) (by omega)
  have within := lexemeAt_lt_size (t := t) (i := j - 1) (by
    intro eof
    rw [eof] at last
    cases last)
  rw [← between_eq_extract t (by omega), List.filter_eq_self]
  intro l hl
  simp only [between, List.mem_map, List.mem_range'] at hl
  obtain ⟨k, ⟨m, hm, rfl⟩, rfl⟩ := hl
  rw [h.not_layout (by omega) (by omega)]
  rfl

/-- The decorator `d` was read from the tape: an `@` at lexeme `i`, where `d` starts, then the
lexemes of an expression up to lexeme `j`, which ends the line; the shape of `d` is read from
those lexemes. -/
structure DecoratorAt (t : Tape) (d : Decorator) (i j : Nat) : Prop where
  sign : (t.lexemeAt i).token = .atSign
  starts : ∃ stop, d.origin = .source ⟨(t.lexemeAt i).span.start, stop⟩
  lt : i < j
  nests : t.Nests (i + 1) j [] []
  ends : (t.lexemeAt j).token.isLayout = true
  shape : d.shape = DecoratorShape.ofLexemes t.source (t.between (i + 1) j)

end Tape

namespace Grammar

variable {t : Tape} {c c' : Cursor}

/-- A line ends at a line end, at a dedent or at the end of input. -/
theorem Reads.endLine_layout {u : Unit} (h : endLine.Reads t c u c') :
    (t.lexemeAt c.index).token.isLayout = true := by
  unfold endLine at h
  have h := h.look_bind
  split at h
  next heq => rw [heq]; rfl
  next heq => rw [heq]; rfl
  next heq => rw [heq]; rfl
  next => exact absurd h Reads.not_fail

/-- Every decorator that a list of them reads was read from the tape where it stands. -/
theorem decoratorList_at :
    ∀ n (acc : Array Decorator) {c ds c'}, (decoratorList n acc).Reads t c ds c' →
      (∀ d ∈ acc.toList, ∃ i j, t.DecoratorAt d i j) → ∀ d ∈ ds, ∃ i j, t.DecoratorAt d i j
  | 0, _, _, _, _, h, _ => absurd h Reads.not_exhausted
  | n + 1, acc, c, ds, c', h, hacc => by
    rw [decoratorList.eq_2] at h
    have h := h.look_bind
    split at h
    · obtain ⟨rfl, rfl⟩ := h.pure
      exact hacc
    · next isSign =>
      obtain ⟨sign, c₁, hs, h⟩ := h.bind
      obtain ⟨rfl, rfl, -⟩ := hs.bump
      have h := h.look_bind
      obtain ⟨_, c₂, he, h⟩ := h.bind
      have h := h.look_bind
      obtain ⟨_, c₃, hl, h⟩ := h.bind
      have h := h.look_bind.read_bind
      obtain ⟨_, c₄, -, h⟩ := h.moves
      refine decoratorList_at n _ h ?_
      intro d m
      rw [Array.toList_push] at m
      rcases List.mem_append.1 m with m | m
      · exact hacc d m
      · rw [List.mem_singleton.1 m]
        have nests := namedExpression_nests n _ _ _ he
        have within : c.index + 1 ≤ c₂.index := he.advance.index_le
        refine ⟨c.index, c₂.index, ⟨?_, ⟨_, rfl⟩, by omega, nests, hl.endLine_layout, ?_⟩⟩
        · simpa using isSign
        · exact congrArg (DecoratorShape.ofLexemes t.source) (nests.consumed within)

end Grammar

/-! ### Every decorator of a module -/

mutual

/-- The decorators of the functions and classes among some statements, at every depth. -/
def Decorators.stmts : List Stmt → List Decorator
  | [] => []
  | s :: rest => Decorators.stmt s ++ Decorators.stmts rest

def Decorators.stmt : Stmt → List Decorator
  | ⟨_, .functionDef ⟨_, ds, _, _, body⟩⟩ => ds ++ Decorators.suite body
  | ⟨_, .classDef ⟨_, ds, _, _, body⟩⟩ => ds ++ Decorators.suite body
  | ⟨_, .compound cs⟩ => Decorators.clauses cs
  | _ => []

def Decorators.clauses : List Clause → List Decorator
  | [] => []
  | ⟨_, _, _, body⟩ :: cs => Decorators.suite body ++ Decorators.clauses cs

def Decorators.suite : Suite → List Decorator
  | .inline body => Decorators.stmts body
  | .block _ body => Decorators.stmts body

end

/-- The decorators of every function and class of a module, at every depth, in source order. -/
def Module.decorators (m : Module) : List Decorator :=
  Decorators.stmts m.body

namespace Decorators

theorem stmts_append (xs ys : List Stmt) :
    Decorators.stmts (xs ++ ys) = Decorators.stmts xs ++ Decorators.stmts ys := by
  induction xs with
  | nil => rfl
  | cons s xs ih => rw [List.cons_append, Decorators.stmts, Decorators.stmts, ih, List.append_assoc]

theorem clauses_append (xs ys : List Clause) :
    Decorators.clauses (xs ++ ys) = Decorators.clauses xs ++ Decorators.clauses ys := by
  induction xs with
  | nil => rfl
  | cons cl xs ih =>
    obtain ⟨k, names, strings, body⟩ := cl
    rw [List.cons_append, Decorators.clauses, Decorators.clauses, ih, List.append_assoc]

theorem stmt_leaf {s : Stmt} (hk : s.kind.Leaf) : Decorators.stmt s = [] := by
  obtain ⟨o, k⟩ := s
  cases k <;> first | exact hk.elim | rfl

theorem stmt_reorigin (s : Stmt) (o : Origin) :
    Decorators.stmt { s with origin := o } = Decorators.stmt s := by
  obtain ⟨o', k⟩ := s
  cases k with
  | functionDef d | classDef d =>
    obtain ⟨_, _, _, _, _⟩ := d
    rfl
  | _ => rfl

variable {P : Decorator → Prop}

theorem push {acc : Array Stmt} {s : Stmt} (hacc : ∀ d ∈ Decorators.stmts acc.toList, P d)
    (hs : ∀ d ∈ Decorators.stmt s, P d) : ∀ d ∈ Decorators.stmts (acc.push s).toList, P d := by
  rw [Array.toList_push, stmts_append]
  intro d m
  rcases List.mem_append.1 m with m | m
  · exact hacc d m
  · rw [Decorators.stmts, Decorators.stmts, List.append_nil] at m
    exact hs d m

theorem clauses_push {acc : Array Clause} {cl : Clause}
    (hacc : ∀ d ∈ Decorators.clauses acc.toList, P d) (hb : ∀ d ∈ Decorators.suite cl.body, P d) :
    ∀ d ∈ Decorators.clauses (acc.push cl).toList, P d := by
  rw [Array.toList_push, clauses_append]
  obtain ⟨k, names, strings, body⟩ := cl
  intro d m
  rcases List.mem_append.1 m with m | m
  · exact hacc d m
  · rw [Decorators.clauses, Decorators.clauses, List.append_nil] at m
    exact hb d m

end Decorators

namespace Grammar

variable {t : Tape} {P : Decorator → Prop}

/-- A line of simple statements holds no definition, so no decorator. -/
theorem simpleLine_decorators :
    ∀ n (acc : Array Stmt) {c r c'}, (simpleLine n acc).Reads t c r c' →
      (∀ d ∈ Decorators.stmts acc.toList, P d) → ∀ d ∈ Decorators.stmts r.toList, P d
  | 0, _, _, _, _, h, _ => absurd h Reads.not_exhausted
  | n + 1, acc, c, r, c', h, hacc => by
    rw [simpleLine.eq_2] at h
    obtain ⟨s, c₁, hs, h⟩ := h.bind
    obtain ⟨more, c₂, -, h⟩ := h.bind
    obtain ⟨-, leaf⟩ := simpleStmt_yields n s c₁ hs
    have pushed := Decorators.push hacc (by rw [Decorators.stmt_leaf leaf]; simp)
    split at h
    · exact simpleLine_decorators n _ h pushed
    · obtain ⟨_, c₃, -, h⟩ := h.bind
      obtain ⟨rfl, rfl⟩ := h.pure
      exact pushed

/- The walk over the statement rules: whatever holds of every decorator that a list of them
reads holds of every decorator in the tree. -/

mutual

theorem statements_decorators
    (hP : ∀ n {c ds c'}, (decoratorList n #[]).Reads t c ds c' → ∀ d ∈ ds, P d) :
    ∀ n inBlock (acc : Array Stmt) {c r c'}, (statements n inBlock acc).Reads t c r c' →
      (∀ d ∈ Decorators.stmts acc.toList, P d) → ∀ d ∈ Decorators.stmts r.toList, P d
  | 0, _, _, _, _, _, h, _ => by
    rw [statements.eq_1] at h
    exact absurd h Reads.not_exhausted
  | n + 1, inBlock, acc, c, r, c', h, hacc => by
    rw [statements.eq_2] at h
    obtain ⟨_, c₁, -, h⟩ := h.moves
    have h := h.look_bind
    split at h
    next =>
      obtain ⟨rfl, rfl⟩ := h.pure
      exact hacc
    next =>
      split at h
      · obtain ⟨_, c₂, -, h⟩ := h.moves
        obtain ⟨rfl, rfl⟩ := h.pure
        exact hacc
      · exact absurd h Reads.not_fail
    next => exact absurd h Reads.not_fail
    next =>
      obtain ⟨acc', c₂, hl, h⟩ := h.bind
      exact statements_decorators hP n inBlock acc' h (stmtLine_decorators hP n acc hl hacc)
termination_by structural n => n

theorem stmtLine_decorators
    (hP : ∀ n {c ds c'}, (decoratorList n #[]).Reads t c ds c' → ∀ d ∈ ds, P d) :
    ∀ n (acc : Array Stmt) {c r c'}, (stmtLine n acc).Reads t c r c' →
      (∀ d ∈ Decorators.stmts acc.toList, P d) → ∀ d ∈ Decorators.stmts r.toList, P d
  | 0, _, _, _, _, h, _ => by
    rw [stmtLine.eq_1] at h
    exact absurd h Reads.not_exhausted
  | n + 1, acc, c, r, c', h, hacc => by
    rw [stmtLine.eq_2] at h
    have h := h.look_bind.look_bind
    have none : ∀ d ∈ ([] : List Decorator), P d := fun _ m => absurd m List.not_mem_nil
    split at h
    next =>
      obtain ⟨s, c₁, hd, h⟩ := h.bind
      obtain ⟨rfl, rfl⟩ := h.pure
      exact Decorators.push hacc (decorated_decorators hP n hd)
    next =>
      obtain ⟨s, c₁, hd, h⟩ := h.bind
      obtain ⟨rfl, rfl⟩ := h.pure
      exact Decorators.push hacc (functionDef_decorators hP n hd none)
    next =>
      obtain ⟨s, c₁, hd, h⟩ := h.bind
      obtain ⟨rfl, rfl⟩ := h.pure
      exact Decorators.push hacc (classDef_decorators hP n hd none)
    next =>
      obtain ⟨_, c₁, -, h⟩ := h.bind
      have h := h.look_bind
      split at h
      next =>
        obtain ⟨s, c₂, hd, h⟩ := h.bind
        obtain ⟨rfl, rfl⟩ := h.pure
        exact Decorators.push hacc (functionDef_decorators hP n hd none)
      next =>
        obtain ⟨s, c₂, hd, h⟩ := h.bind
        obtain ⟨rfl, rfl⟩ := h.pure
        exact Decorators.push hacc (compound_decorators hP n hd)
      next =>
        obtain ⟨s, c₂, hd, h⟩ := h.bind
        obtain ⟨rfl, rfl⟩ := h.pure
        exact Decorators.push hacc (compound_decorators hP n hd)
      next => exact absurd h Reads.not_fail
    all_goals first
      | exact absurd h Reads.not_fail
      | (obtain ⟨s, c₁, hd, h⟩ := h.bind
         obtain ⟨rfl, rfl⟩ := h.pure
         exact Decorators.push hacc (compound_decorators hP n hd))
      | (have h := h.look_bind
         split at h
         · obtain ⟨s, c₁, hd, h⟩ := h.bind
           obtain ⟨rfl, rfl⟩ := h.pure
           exact Decorators.push hacc (softBlock_decorators hP n hd)
         · exact simpleLine_decorators n acc h hacc)
      | exact simpleLine_decorators n acc h hacc
termination_by structural n => n

theorem suite_decorators
    (hP : ∀ n {c ds c'}, (decoratorList n #[]).Reads t c ds c' → ∀ d ∈ ds, P d) :
    ∀ n owner {c body c'}, (suite n owner).Reads t c body c' →
      ∀ d ∈ Decorators.suite body, P d
  | 0, _, _, _, _, h => by
    rw [suite.eq_1] at h
    exact absurd h Reads.not_exhausted
  | n + 1, owner, c, body, c', h => by
    rw [suite.eq_2] at h
    extract_lets block jp at h
    obtain ⟨_, c₁, -, h⟩ := h.moves
    have h := h.look_bind
    split at h
    next =>
      simp only [jp] at h
      obtain ⟨_, c₂, -, h⟩ := h.moves
      have h := h.look_bind
      obtain ⟨c₃, h⟩ : ∃ c₃, (block ()).Reads t c₃ body c' := by
        split at h
        · exact (Reads.fail_bind h).elim
        · exact ⟨_, h⟩
      simp only [block] at h
      obtain ⟨_, c₄, -, h⟩ := h.moves
      have h := h.read_bind.look_bind
      obtain ⟨stmts, c₅, hst, h⟩ := h.bind
      obtain ⟨rfl, rfl⟩ := h.pure
      exact statements_decorators hP n true #[] hst fun _ m => absurd m List.not_mem_nil
    all_goals first
      | exact (Reads.fail_bind h).elim
      | skip
    obtain ⟨line, c₂, hl, h⟩ := h.bind
    obtain ⟨rfl, rfl⟩ := h.pure
    exact simpleLine_decorators n #[] hl fun _ m => absurd m List.not_mem_nil
termination_by structural n => n

theorem decorated_decorators
    (hP : ∀ n {c ds c'}, (decoratorList n #[]).Reads t c ds c' → ∀ d ∈ ds, P d) :
    ∀ n {start c s c'}, (decorated n start).Reads t c s c' → ∀ d ∈ Decorators.stmt s, P d
  | 0, _, _, _, _, h => by
    rw [decorated.eq_1] at h
    exact absurd h Reads.not_exhausted
  | n + 1, start, c, s, c', h => by
    rw [decorated.eq_2] at h
    extract_lets finish at h
    obtain ⟨ds, c₁, hdl, h⟩ := h.bind
    have listed := hP n hdl
    have h := h.look_bind.look_bind
    obtain ⟨s₀, c₂, read₀, h⟩ :
        ∃ s₀ c₂, (∀ d ∈ Decorators.stmt s₀, P d) ∧ (finish s₀).Reads t c₂ s c' := by
      split at h
      next =>
        obtain ⟨s₀, c₂, hf, h⟩ := h.bind
        exact ⟨s₀, c₂, functionDef_decorators hP n hf listed, h⟩
      next =>
        obtain ⟨_, c₂, -, h⟩ := h.bind
        have h := h.look_bind
        extract_lets afterAsync at h
        split at h
        · exact (Reads.fail_bind h).elim
        · simp only [afterAsync] at h
          obtain ⟨s₀, c₃, hf, h⟩ := h.bind
          exact ⟨s₀, c₃, functionDef_decorators hP n hf listed, h⟩
      next =>
        obtain ⟨s₀, c₂, hf, h⟩ := h.bind
        exact ⟨s₀, c₂, classDef_decorators hP n hf listed, h⟩
      next => exact (Reads.fail_bind h).elim
    simp only [finish] at h
    have h := h.look_bind
    obtain ⟨rfl, rfl⟩ := h.pure
    rw [Decorators.stmt_reorigin]
    exact read₀
termination_by structural n => n

theorem functionDef_decorators
    (hP : ∀ n {c ds c'}, (decoratorList n #[]).Reads t c ds c' → ∀ d ∈ ds, P d) :
    ∀ n {start ds c s c'}, (functionDef n start ds).Reads t c s c' → (∀ d ∈ ds, P d) →
      ∀ d ∈ Decorators.stmt s, P d
  | 0, _, _, _, _, _, h, _ => by
    rw [functionDef.eq_1] at h
    exact absurd h Reads.not_exhausted
  | n + 1, start, ds, c, s, c', h, hds => by
    rw [functionDef.eq_2] at h
    obtain ⟨_, c₁, -, h⟩ := h.bind
    obtain ⟨_, c₂, -, h⟩ := h.moves
    have h := h.look_bind
    extract_lets rest₂ rest₁ at h
    obtain ⟨c₃, -, h⟩ : ∃ c₃, t.Advance c₂ c₃ ∧ (rest₁ ()).Reads t c₃ s c' := by
      split at h
      · exact h.jump
      · exact ⟨_, .refl _ _, h⟩
    simp only [rest₁] at h
    obtain ⟨_, c₄, -, h⟩ := h.moves
    obtain ⟨_, c₅, -, h⟩ := h.moves
    obtain ⟨_, c₆, -, h⟩ := h.moves
    have h := h.look_bind
    obtain ⟨c₇, -, h⟩ : ∃ c₇, t.Advance c₆ c₇ ∧ (rest₂ ()).Reads t c₇ s c' := by
      split at h
      · exact h.jump₂
      · exact ⟨_, .refl _ _, h⟩
    simp only [rest₂] at h
    obtain ⟨body, c₈, hsu, h⟩ := h.bind
    have h := h.read_bind.look_bind
    obtain ⟨rfl, rfl⟩ := h.pure
    intro d m
    rcases List.mem_append.1 m with m | m
    · exact hds d m
    · exact suite_decorators hP n _ hsu d m
termination_by structural n => n

theorem classDef_decorators
    (hP : ∀ n {c ds c'}, (decoratorList n #[]).Reads t c ds c' → ∀ d ∈ ds, P d) :
    ∀ n {start ds c s c'}, (classDef n start ds).Reads t c s c' → (∀ d ∈ ds, P d) →
      ∀ d ∈ Decorators.stmt s, P d
  | 0, _, _, _, _, _, h, _ => by
    rw [classDef.eq_1] at h
    exact absurd h Reads.not_exhausted
  | n + 1, start, ds, c, s, c', h, hds => by
    rw [classDef.eq_2] at h
    obtain ⟨_, c₁, -, h⟩ := h.bind
    obtain ⟨_, c₂, -, h⟩ := h.moves
    have h := h.look_bind
    extract_lets rest₂ rest₁ at h
    obtain ⟨c₃, -, h⟩ : ∃ c₃, t.Advance c₂ c₃ ∧ (rest₁ ()).Reads t c₃ s c' := by
      split at h
      · exact h.jump
      · exact ⟨_, .refl _ _, h⟩
    simp only [rest₁] at h
    have h := h.look_bind
    obtain ⟨c₄, -, h⟩ : ∃ c₄, t.Advance c₃ c₄ ∧ (rest₂ ()).Reads t c₄ s c' := by
      split at h
      · exact h.jump₃
      · exact ⟨_, .refl _ _, h⟩
    simp only [rest₂] at h
    obtain ⟨body, c₅, hsu, h⟩ := h.bind
    have h := h.read_bind.look_bind
    obtain ⟨rfl, rfl⟩ := h.pure
    intro d m
    rcases List.mem_append.1 m with m | m
    · exact hds d m
    · exact suite_decorators hP n _ hsu d m
termination_by structural n => n

theorem compound_decorators
    (hP : ∀ n {c ds c'}, (decoratorList n #[]).Reads t c ds c' → ∀ d ∈ ds, P d) :
    ∀ n {start c s c'}, (compound n start).Reads t c s c' → ∀ d ∈ Decorators.stmt s, P d
  | 0, _, _, _, _, h => by
    rw [compound.eq_1] at h
    exact absurd h Reads.not_exhausted
  | n + 1, start, c, s, c', h => by
    rw [compound.eq_2] at h
    obtain ⟨first, c₁, hcl, h⟩ := h.bind
    obtain ⟨cls, c₂, hm, h⟩ := h.bind
    have clauses := moreClauses_decorators hP n _ _ _ hm
      (Decorators.clauses_push
        (show ∀ d ∈ Decorators.clauses (#[] : Array Clause).toList, P d from
          fun _ m => absurd m List.not_mem_nil) (clause_decorators hP n hcl))
    extract_lets jp at h
    obtain ⟨c₃, h⟩ : ∃ c₃, (jp ()).Reads t c₃ s c' := by
      split at h
      · exact (Reads.fail_bind h).elim
      · exact ⟨_, h⟩
    simp only [jp] at h
    have h := h.look_bind
    obtain ⟨rfl, rfl⟩ := h.pure
    exact clauses
termination_by structural n => n

theorem moreClauses_decorators
    (hP : ∀ n {c ds c'}, (decoratorList n #[]).Reads t c ds c' → ∀ d ∈ ds, P d) :
    ∀ n first last (acc : Array Clause) {c r c'}, (moreClauses n first last acc).Reads t c r c' →
      (∀ d ∈ Decorators.clauses acc.toList, P d) → ∀ d ∈ Decorators.clauses r.toList, P d
  | 0, _, _, _, _, _, _, h, _ => by
    rw [moreClauses.eq_1] at h
    exact absurd h Reads.not_exhausted
  | n + 1, first, last, acc, c, r, c', h, hacc => by
    rw [moreClauses.eq_2] at h
    have h := h.look_bind
    split at h
    next keyword heq =>
      split at h
      · obtain ⟨cl, c₁, hcl, h⟩ := h.bind
        exact moreClauses_decorators hP n first _ _ h
          (Decorators.clauses_push hacc (clause_decorators hP n hcl))
      · obtain ⟨rfl, rfl⟩ := h.pure
        exact hacc
    next =>
      obtain ⟨rfl, rfl⟩ := h.pure
      exact hacc
termination_by structural n => n

theorem clause_decorators
    (hP : ∀ n {c ds c'}, (decoratorList n #[]).Reads t c ds c' → ∀ d ∈ ds, P d) :
    ∀ n {c cl c'}, (clause n).Reads t c cl c' → ∀ d ∈ Decorators.suite cl.body, P d
  | 0, _, _, _, h => by
    rw [clause.eq_1] at h
    exact absurd h Reads.not_exhausted
  | n + 1, c, cl, c', h => by
    rw [clause.eq_2] at h
    obtain ⟨kw, c₁, -, h⟩ := h.bind
    have h := h.read_bind.look_bind
    extract_lets jp at h
    obtain ⟨c₂, -, h⟩ : ∃ c₂, t.Advance c₁ c₂ ∧ (jp ()).Reads t c₂ cl c' := by
      split at h
      all_goals first | exact h.jump | exact h.jump₃ | exact ⟨_, .refl _ _, h⟩
    simp only [jp] at h
    have h := h.read_bind.look_bind
    obtain ⟨body, c₃, hsu, h⟩ := h.bind
    obtain ⟨rfl, rfl⟩ := h.pure
    exact suite_decorators hP n _ hsu
termination_by structural n => n

theorem softBlock_decorators
    (hP : ∀ n {c ds c'}, (decoratorList n #[]).Reads t c ds c' → ∀ d ∈ ds, P d) :
    ∀ n {start c s c'}, (softBlock n start).Reads t c s c' → ∀ d ∈ Decorators.stmt s, P d
  | 0, _, _, _, _, h => by
    rw [softBlock.eq_1] at h
    exact absurd h Reads.not_exhausted
  | n + 1, start, c, s, c', h => by
    rw [softBlock.eq_2] at h
    obtain ⟨kw, c₁, -, h⟩ := h.bind
    have h := h.read_bind.look_bind
    extract_lets jp at h
    obtain ⟨c₂, -, h⟩ : ∃ c₂, t.Advance c₁ c₂ ∧ (jp ()).Reads t c₂ s c' := by
      split at h
      · exact h.jump
      · exact h.read_bind.jump
    simp only [jp] at h
    have h := h.read_bind.look_bind
    obtain ⟨body, c₃, hsu, h⟩ := h.bind
    have h := h.look_bind
    obtain ⟨rfl, rfl⟩ := h.pure
    intro d m
    rw [Decorators.stmt, Decorators.clauses, Decorators.clauses, List.append_nil] at m
    exact suite_decorators hP n _ hsu d m
termination_by structural n => n

end

end Grammar

/-- Every decorator of a module read from a source was read from the source's tape where it
stands. -/
theorem Module.decorators_at {src : String} {m : Module} (h : Module.parse src = .ok m) :
    ∀ d ∈ m.decorators, ∃ i j, (Tape.ofSource src).DecoratorAt d i j := by
  unfold Module.parse at h
  dsimp only at h
  split at h
  · next body c adv heq =>
    cases h
    exact Grammar.statements_decorators
      (fun n _ _ _ hd => Grammar.decoratorList_at n #[] hd fun _ m => absurd m List.not_mem_nil)
      _ false #[] ⟨adv, heq⟩ fun _ m => absurd m List.not_mem_nil
  · cases h

/-- The last lexeme of a source ends its input. -/
theorem Lexeme.scan_last (src : String) :
    ∃ l, (Lexeme.scan src)[(Lexeme.scan src).size - 1]? = some l ∧ l.token = .eof := by
  obtain ⟨e, he, eof⟩ := Lexeme.scan_ends src
  obtain ⟨k, bound, rfl⟩ := List.getElem_of_mem he
  have last : (Lexeme.scan src).toList.length = k + 1 :=
    Scanner.lexemes_eof _ _ k _ (List.getElem?_eq_getElem bound) eof
  rw [Array.length_toList] at last
  refine ⟨_, ?_, eof⟩
  rw [last, Nat.add_sub_cancel, ← Array.getElem?_toList, List.getElem?_eq_getElem bound]

/-- The line end after a decorator's expression is one of the source's lexemes: the end of
input is the last of them, and the expression reads no layout before it. -/
theorem Tape.DecoratorAt.lt_size {src : String} {d : Decorator} {i j : Nat}
    (h : (Tape.ofSource src).DecoratorAt d i j) : j < (Lexeme.scan src).size := by
  obtain ⟨l, hl, eof⟩ := Lexeme.scan_last src
  have at_last := Tape.lexemeAt_ofSource hl
  have sign_in : i < (Lexeme.scan src).size :=
    Tape.lexemeAt_lt_size (by rw [h.sign]; decide)
  have not_last : i ≠ (Lexeme.scan src).size - 1 := by
    intro same
    have sign := h.sign
    rw [same, at_last, eof] at sign
    cases sign
  by_contra past
  have layout := h.nests.not_layout (k := (Lexeme.scan src).size - 1) (by omega) (by omega)
  rw [at_last, eof] at layout
  cases layout

/-- Every decorator of a module read from a source that fits has the shape that the lexemes of
the expression after its `@` give, up to the end of its line: a dotted name exactly when those
lexemes are one, with the text they span, and a call exactly when they are a dotted name, an
opening parenthesis and the closing one that matches it last, with the dotted name's text. The
soft keywords count as names. -/
theorem Module.decorator_shapes {src : String} {m : Module} (_fits : Source.Fits src)
    (h : Module.parse src = .ok m) :
    ∀ d ∈ m.decorators, ∃ i j sign ls, (Lexeme.scan src)[i]? = some sign ∧
      sign.token = .atSign ∧ (∃ stop, d.origin = .source ⟨sign.span.start, stop⟩) ∧
      i < j ∧ ls = ((Lexeme.scan src).extract (i + 1) j).toList ∧
      (∃ last, (Lexeme.scan src)[j]? = some last ∧ last.token.isLayout = true) ∧
      (∀ l ∈ ls, l.token.isLayout = false) ∧ Lexeme.nest [] ls = some [] ∧
      (∀ x, d.shape = .name x ↔ Lexeme.Dotted ls ∧ x = Lexeme.textOf src ls) ∧
      (∀ x, d.shape = .call x ↔ ∃ ds, Lexeme.DottedCall ds ls ∧ x = Lexeme.textOf src ds) ∧
      (d.shape = .other ↔ ¬ Lexeme.Dotted ls ∧ ∀ ds, ¬ Lexeme.DottedCall ds ls) := by
  intro d hd
  obtain ⟨i, j, at_d⟩ := Module.decorators_at h d hd
  have bound := at_d.lt_size
  have lexemes : (Tape.ofSource src).between (i + 1) j =
      ((Lexeme.scan src).extract (i + 1) j).toList :=
    Tape.between_eq_extract _ (by rw [Tape.lexemes_ofSource]; omega)
  have balanced := at_d.nests.nest
  have shape : d.shape = DecoratorShape.ofLexemes src ((Tape.ofSource src).between (i + 1) j) :=
    at_d.shape
  refine ⟨i, j, _, _, Tape.getElem?_ofSource (by have := at_d.lt; omega), at_d.sign, at_d.starts,
    at_d.lt, lexemes, ⟨_, Tape.getElem?_ofSource bound, at_d.ends⟩, ?_, balanced,
    fun x => shape ▸ DecoratorShape.ofLexemes_name src _ x,
    fun x => shape ▸ DecoratorShape.ofLexemes_call src balanced x,
    shape ▸ DecoratorShape.ofLexemes_other src balanced⟩
  intro l hl
  simp only [Tape.between, List.mem_map, List.mem_range'] at hl
  obtain ⟨k, ⟨n, hn, rfl⟩, rfl⟩ := hl
  exact at_d.nests.not_layout (by omega) (by omega)

/-- A function decorated with a call of a dotted name reads, and its one decorator is that
call. -/
theorem Module.decorator_shapes_dotted_call :
    Source.Fits "@a.b(x)\ndef f(): pass\n" ∧ ∃ m, Module.parse "@a.b(x)\ndef f(): pass\n" = .ok m ∧ m.decorators.map (·.shape) = [.call "a.b"] ∧
      ∀ d ∈ m.decorators, ∃ i j sign ls, (Lexeme.scan "@a.b(x)\ndef f(): pass\n")[i]? = some sign ∧
        sign.token = .atSign ∧ (∃ stop, d.origin = .source ⟨sign.span.start, stop⟩) ∧
        i < j ∧ ls = ((Lexeme.scan "@a.b(x)\ndef f(): pass\n").extract (i + 1) j).toList ∧
        (∃ last, (Lexeme.scan "@a.b(x)\ndef f(): pass\n")[j]? = some last ∧ last.token.isLayout = true) ∧
        (∀ l ∈ ls, l.token.isLayout = false) ∧ Lexeme.nest [] ls = some [] ∧
        (∀ x, d.shape = .name x ↔ Lexeme.Dotted ls ∧ x = Lexeme.textOf "@a.b(x)\ndef f(): pass\n" ls) ∧
        (∀ x, d.shape = .call x ↔ ∃ ds, Lexeme.DottedCall ds ls ∧ x = Lexeme.textOf "@a.b(x)\ndef f(): pass\n" ds) ∧
        (d.shape = .other ↔ ¬ Lexeme.Dotted ls ∧ ∀ ds, ¬ Lexeme.DottedCall ds ls) := by
  have shapes : (Module.parse "@a.b(x)\ndef f(): pass\n").toOption.map (fun m => m.decorators.map (·.shape)) =
      some [.call "a.b"] := by
    decide +kernel
  cases parsed : Module.parse "@a.b(x)\ndef f(): pass\n" with
  | error e =>
    rw [parsed] at shapes
    cases shapes
  | ok m =>
    rw [parsed] at shapes
    have fits : Source.Fits "@a.b(x)\ndef f(): pass\n" := by decide
    exact ⟨fits, m, rfl, Option.some.inj shapes, Module.decorator_shapes fits parsed⟩

end PyTune
