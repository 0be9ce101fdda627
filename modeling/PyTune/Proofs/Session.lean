import Mathlib
import PyTune.Edit.Session

/-!
# What a session of edits keeps

A module edited in place answers each call from what the earlier calls left in it; a guard
stays, imports and decorators are added at most once, and the statement count grows by what
the answers report (`Module.session_answers`).
-/

namespace PyTune

theorem Text.trim_trim (s : String) : Text.trim (Text.trim s) = Text.trim s := by
  simp only [Text.trim, Text.trimStart, Text.trimEnd, String.toList_ofList]
  generalize hu : s.toList.dropWhile Text.isWhiteSpace = u
  have head : u.dropWhile Text.isWhiteSpace = u := by
    rw [← hu]
    exact List.dropWhile_idempotent _ _
  -- trimming the end keeps a prefix of `u`, whose first character is no white space
  have hp : (u.reverse.dropWhile Text.isWhiteSpace).reverse <+: u := List.rdropWhile_prefix _ _
  have kept : ((u.reverse.dropWhile Text.isWhiteSpace).reverse).dropWhile Text.isWhiteSpace =
      (u.reverse.dropWhile Text.isWhiteSpace).reverse := by
    rw [List.dropWhile_eq_self_iff] at head ⊢
    intro hl
    have hu0 : 0 < u.length := Nat.lt_of_lt_of_le hl hp.length_le
    rw [hp.getElem hl]
    exact head hu0
  rw [kept]
  exact congrArg String.ofList (List.rdropWhile_idempotent (p := Text.isWhiteSpace) (l := u))

/-! ### What decorating keeps -/

namespace Decorate

variable (name : String)

theorem stmts_fst (body : List Stmt) : (stmts name body).1 = body.map fun s => (stmt name s).1 := by
  induction body with
  | nil => rfl
  | cons s rest ih => simp [stmts, ih]

theorem stmts_snd (body : List Stmt) :
    (stmts name body).2 = (body.map fun s => (stmt name s).2).sum := by
  induction body with
  | nil => rfl
  | cons s rest ih => simp [stmts, ih]

theorem stmt_origin (s : Stmt) : (stmt name s).1.origin = s.origin := by
  rcases s with ⟨o, _ | _ | ⟨_, _, _, _, _⟩ | ⟨_, _, _, _, _⟩ | _ | _ | _ | _⟩ <;> rfl

theorem isGuard_stmt (s : Stmt) : EntryPoint.isGuard (stmt name s).1 = EntryPoint.isGuard s := by
  rcases s with ⟨o, _ | _ | ⟨_, _, _, _, _⟩ | ⟨_, _, _, _, _⟩ | ⟨_ | ⟨⟨_, _, _, _⟩, _⟩⟩ | _ | _ | _⟩ <;>
    rfl

theorem withDecorator_applies (ds : List Decorator) :
    ((withDecorator name ds).1.any (·.isNamed name)) = true := by
  unfold withDecorator
  split
  · assumption
  · simp [Decorator.isNamed, Decorator.inserted]

theorem withDecorator_of_applies {ds : List Decorator} (h : ds.any (·.isNamed name) = true) :
    withDecorator name ds = (ds, 0) := by
  simp [withDecorator, h]

mutual

/-- Decorating twice with one name decorates nothing the second time. -/
theorem stmts_again : ∀ body : List Stmt, (stmts name (stmts name body).1).2 = 0
  | [] => rfl
  | s :: rest => by
    simp only [stmts, stmt_again s, stmts_again rest]

theorem stmt_again : ∀ s : Stmt, (stmt name (stmt name s).1).2 = 0
  | ⟨o, .functionDef ⟨n, ds, indent, offset, body⟩⟩ => by
    have named := withDecorator_applies name ds
    rcases hw : withDecorator name ds with ⟨ds', a⟩
    rw [hw] at named
    simp only [stmt, hw, withDecorator_of_applies name named, suite_again body]
  | ⟨o, .classDef ⟨n, ds, indent, offset, body⟩⟩ => by
    simp only [stmt, suite_again body]
  | ⟨o, .compound cs⟩ => by
    simp only [stmt, clauses_again cs]
  | ⟨_, .imports _⟩ | ⟨_, .importFrom _ _ _⟩ | ⟨_, .docstring⟩ | ⟨_, .assign _⟩
  | ⟨_, .simple⟩ => rfl

theorem clauses_again : ∀ cs : List Clause, (clauses name (clauses name cs).1).2 = 0
  | [] => rfl
  | ⟨k, ns, ss, body⟩ :: rest => by
    simp only [clauses, suite_again body, clauses_again rest]

theorem suite_again : ∀ body : Suite, (suite name (suite name body).1).2 = 0
  | .inline body => by simp only [suite, stmts_again body]
  | .block indent body => by simp only [suite, stmts_again body]

end

theorem withDecorator_other_le (other : String) (ds : List Decorator) :
    (withDecorator name (withDecorator other ds).1).2 ≤ (withDecorator name ds).2 := by
  by_cases h : ds.any (·.isNamed name) = true
  · have kept : ((withDecorator other ds).1.any (·.isNamed name)) = true := by
      unfold withDecorator
      split
      · exact h
      · simp only [List.any_append, h, Bool.true_or]
    simp [withDecorator_of_applies name kept, withDecorator_of_applies name h]
  · have once : (withDecorator name ds).2 = 1 := by simp [withDecorator, h]
    have most : ∀ ds', (withDecorator name ds').2 ≤ 1 := fun ds' => by
      unfold withDecorator
      split <;> simp
    rw [once]
    exact most _

mutual

/-- Decorating with another name first leaves no more functions to decorate. -/
theorem stmts_other_le (other : String) :
    ∀ body : List Stmt, (stmts name (stmts other body).1).2 ≤ (stmts name body).2
  | [] => Nat.le_refl _
  | s :: rest => by
    simp only [stmts]
    exact Nat.add_le_add (stmt_other_le other s) (stmts_other_le other rest)

theorem stmt_other_le (other : String) :
    ∀ s : Stmt, (stmt name (stmt other s).1).2 ≤ (stmt name s).2
  | ⟨o, .functionDef ⟨n, ds, indent, offset, body⟩⟩ => by
    have le := withDecorator_other_le name other ds
    rcases hw : withDecorator other ds with ⟨ds', a⟩
    rw [hw] at le
    simp only [stmt, hw]
    exact Nat.add_le_add le (suite_other_le other body)
  | ⟨o, .classDef ⟨n, ds, indent, offset, body⟩⟩ => by
    simp only [stmt]
    exact suite_other_le other body
  | ⟨o, .compound cs⟩ => by
    simp only [stmt]
    exact clauses_other_le other cs
  | ⟨_, .imports _⟩ | ⟨_, .importFrom _ _ _⟩ | ⟨_, .docstring⟩ | ⟨_, .assign _⟩
  | ⟨_, .simple⟩ => Nat.le_refl _

theorem clauses_other_le (other : String) :
    ∀ cs : List Clause, (clauses name (clauses other cs).1).2 ≤ (clauses name cs).2
  | [] => Nat.le_refl _
  | ⟨k, ns, ss, body⟩ :: rest => by
    simp only [clauses]
    exact Nat.add_le_add (suite_other_le other body) (clauses_other_le other rest)

theorem suite_other_le (other : String) :
    ∀ body : Suite, (suite name (suite other body).1).2 ≤ (suite name body).2
  | .inline body => by simpa only [suite] using stmts_other_le other body
  | .block indent body => by simpa only [suite] using stmts_other_le other body

end

end Decorate

/-! ### The statements that edits insert -/

theorem Import.kindOf_eq_ok {text : String} {kind : StmtKind} (h : Import.kindOf text = .ok kind) :
    (∃ aliases, kind = .imports aliases) ∨ ∃ module names level, kind = .importFrom module names level := by
  unfold Import.kindOf at h
  split at h
  · cases h
  · split at h
    · split at h
      · rename_i aliases hk
        cases h
        exact .inl ⟨aliases, hk⟩
      · rename_i module names level hk
        cases h
        exact .inr ⟨module, names, level, hk⟩
      · cases h
    · cases h

/-- The import goes in among the statements, or after the last. -/
theorem Import.insertionIndex_le (body : List Stmt) : Import.insertionIndex body ≤ body.length := by
  have within : ∀ k ≤ body.length,
      k + ((body.drop k).takeWhile Import.isFutureImport).length ≤ body.length := by
    intro k hk
    have taken := List.IsPrefix.length_le
      ( List.takeWhile_prefix Import.isFutureImport : (body.drop k).takeWhile _ <+: body.drop k)
    rw [List.length_drop] at taken
    omega
  unfold Import.insertionIndex
  apply within
  split
  · split <;> simp
  · simp

/-- A text that reads as one import statement is not empty. -/
theorem Import.ne_empty_of_kindOf {text : String} {kind : StmtKind} (h : Import.kindOf text = .ok kind) :
    text ≠ "" := by
  rintro rfl
  have nothing : (Import.kindOf "").toOption = none := by decide +kernel
  rw [h] at nothing
  cases nothing

/-- A statement that an edit inserts holds no function: decorating it decorates nothing. -/
theorem Decorate.stmt_import {o : Origin} {kind : StmtKind} {text : String}
    (h : Import.kindOf text = .ok kind) (name : String) : (Decorate.stmt name ⟨o, kind⟩).2 = 0 := by
  rcases Import.kindOf_eq_ok h with ⟨_, rfl⟩ | ⟨_, _, _, rfl⟩ <;> rfl

/-! ### What each call keeps -/

namespace Module

theorem addDecorator_eq (m : Module) (name : String) :
    m.addDecorator name =
      ({ m with body := m.body.map fun s => (Decorate.stmt name s).1 },
        (m.body.map fun s => (Decorate.stmt name s).2).sum) := by
  rw [← Decorate.stmts_fst, ← Decorate.stmts_snd]
  rfl

/-- Making sure of an import either finds a statement that reads the same and changes nothing,
or reads the text as one import statement and inserts it. -/
theorem ensureImport_eq_ok {m m' : Module} {text : String} {added : Bool}
    (h : m.ensureImport text = .ok (m', added)) :
    (m.body.any (fun s => m.stmtText s == Text.trim text) = true ∧ m' = m ∧ added = false) ∨
    (∃ kind, Import.kindOf (Text.trim text) = .ok kind ∧ added = true ∧
      m' = { m with body := m.body.take (Import.insertionIndex m.body) ++
        ⟨.inserted (Text.trim text), kind⟩ :: m.body.drop (Import.insertionIndex m.body) }) := by
  unfold ensureImport at h
  dsimp only at h
  split at h
  · rename_i hany
    cases h
    exact .inl ⟨hany, rfl, rfl⟩
  · cases hk : Import.kindOf (Text.trim text) with
    | error e => simp [hk, bind, Except.bind] at h
    | ok kind =>
      simp only [hk, bind, Except.bind, pure, Except.pure, Except.ok.injEq, Prod.mk.injEq] at h
      obtain ⟨rfl, rfl⟩ := h
      exact .inr ⟨kind, rfl, rfl, rfl⟩

theorem hasEntryPoint_addDecorator (m : Module) (name : String) :
    (m.addDecorator name).1.hasEntryPoint = m.hasEntryPoint := by
  simp [addDecorator_eq, hasEntryPoint, List.any_map, Function.comp_def, Decorate.isGuard_stmt]

theorem hasEntryPoint_ensureEntryPoint (m : Module) : m.ensureEntryPoint.1.hasEntryPoint = true := by
  unfold ensureEntryPoint
  split
  · assumption
  · have guard : EntryPoint.isGuard EntryPoint.guardStmt = true := rfl
    simp [hasEntryPoint, List.any_append, guard]

theorem ensureEntryPoint_of_hasEntryPoint {m : Module} (h : m.hasEntryPoint = true) :
    m.ensureEntryPoint = (m, .alreadyPresent) := by
  simp [ensureEntryPoint, h]

theorem ensureImport_of_reads {m : Module} {text : String}
    (h : m.body.any (fun s => m.stmtText s == Text.trim text) = true) :
    m.ensureImport text = .ok (m, false) := by
  simp [ensureImport, h, pure, Except.pure]

theorem perform_addDecorator (m : Module) (name : String) :
    m.perform (.addDecorator name) =
      ((m.addDecorator name).1, .decorated (m.addDecorator name).2) := rfl

theorem perform_ensureImport (m : Module) (text : String) :
    m.perform (.ensureImport text) =
      match m.ensureImport text with
      | .ok (m', added) => (m', .imported (.ok added))
      | .error e => (m, .imported (.error e)) := rfl

theorem perform_ensureEntryPoint (m : Module) :
    m.perform .ensureEntryPoint = (m.ensureEntryPoint.1, .guard m.ensureEntryPoint.2) := rfl

/-- A call's module: the same source, and either the same statements, the statements decorated,
or the statements with inserted ones, each with some text, that hold no function. -/
theorem perform_cases (m : Module) (c : Call) :
    (m.perform c).1.source = m.source ∧
    ((m.perform c).1.body = m.body ∨
      (∃ name, (m.perform c).1.body = (Decorate.stmts name m.body).1) ∨
      ∃ i added, (m.perform c).1.body = m.body.take i ++ added ++ m.body.drop i ∧
        ∀ s ∈ added, (∃ text, s.origin = .inserted text ∧ text ≠ "") ∧
          ∀ name, (Decorate.stmt name s).2 = 0) := by
  cases c with
  | addDecorator name => exact ⟨rfl, .inr (.inl ⟨name, rfl⟩)⟩
  | ensureImport text =>
    rw [perform_ensureImport]
    split
    · rename_i m' added hm
      rcases ensureImport_eq_ok hm with ⟨-, rfl, -⟩ | ⟨kind, hk, -, rfl⟩
      · exact ⟨rfl, .inl rfl⟩
      · refine ⟨rfl, .inr (.inr ⟨Import.insertionIndex m.body, [⟨.inserted (Text.trim text), kind⟩],
          by simp, ?_⟩)⟩
        simp only [List.mem_singleton, forall_eq]
        exact ⟨⟨_, rfl, Import.ne_empty_of_kindOf hk⟩, Decorate.stmt_import hk⟩
    · exact ⟨rfl, .inl rfl⟩
  | ensureEntryPoint =>
    rw [perform_ensureEntryPoint]
    unfold ensureEntryPoint
    split
    · exact ⟨rfl, .inl rfl⟩
    · refine ⟨rfl, .inr (.inr ⟨m.body.length,
        (if !m.binds "main" then [⟨.inserted EntryPoint.stubMain, .simple⟩] else []) ++
          [EntryPoint.guardStmt], by simp, ?_⟩)⟩
      intro s hs
      simp only [List.mem_append, List.mem_singleton] at hs
      rcases hs with hs | rfl
      · split at hs
        · simp only [List.mem_singleton] at hs
          subst hs
          exact ⟨⟨_, rfl, by decide⟩, fun _ => rfl⟩
        · cases hs
      · exact ⟨⟨_, rfl, by decide⟩, fun _ => rfl⟩
  | hasEntryPoint | binds _ | count => exact ⟨rfl, .inl rfl⟩

theorem any_insert {p : Stmt → Bool} {body : List Stmt} (h : body.any p = true) (i : Nat)
    (added : List Stmt) : (body.take i ++ added ++ body.drop i).any p = true := by
  rw [← List.take_append_drop i body] at h
  simp only [List.any_append, Bool.or_eq_true] at h ⊢
  tauto

/-- Every call keeps the entry-point guard. -/
theorem hasEntryPoint_perform {m : Module} (h : m.hasEntryPoint = true) (c : Call) :
    (m.perform c).1.hasEntryPoint = true := by
  obtain ⟨-, same | ⟨name, decorated⟩ | ⟨i, added, inserted, -⟩⟩ := perform_cases m c
  · simpa [hasEntryPoint, same] using h
  · simpa [hasEntryPoint, decorated, Decorate.stmts_fst, List.any_map, Function.comp_def,
      Decorate.isGuard_stmt] using h
  · simpa [hasEntryPoint, inserted] using any_insert h i added

/-- Every call keeps a top-level statement that reads `text`. -/
theorem reads_perform {m : Module} {text : String}
    (h : m.body.any (fun s => m.stmtText s == text) = true) (c : Call) :
    (m.perform c).1.body.any (fun s => (m.perform c).1.stmtText s == text) = true := by
  obtain ⟨source, same | ⟨name, decorated⟩ | ⟨i, added, inserted, -⟩⟩ := perform_cases m c
  · simpa [stmtText, source, same] using h
  · have text_of : ∀ s, (m.perform c).1.stmtText (Decorate.stmt name s).1 = m.stmtText s := by
      intro s
      simp only [stmtText, Decorate.stmt_origin, source]
    simpa [decorated, Decorate.stmts_fst, List.any_map, Function.comp_def, text_of] using h
  · simpa [stmtText, source, inserted] using any_insert h i added

/-- Every call keeps a module in which decorating with `name` decorates nothing. -/
theorem decorated_perform {m : Module} {name : String} (h : (Decorate.stmts name m.body).2 = 0)
    (c : Call) : (Decorate.stmts name (m.perform c).1.body).2 = 0 := by
  obtain ⟨-, same | ⟨other, decorated⟩ | ⟨i, added, inserted, bare⟩⟩ := perform_cases m c
  · rw [same, h]
  · rw [decorated]
    exact Nat.le_zero.mp (h ▸ Decorate.stmts_other_le name other m.body)
  · have none : (added.map fun s => (Decorate.stmt name s).2).sum = 0 := by
      simp only [List.sum_eq_zero_iff_forall_eq_nat, List.mem_map]
      rintro _ ⟨s, hs, rfl⟩
      exact (bare s hs).2 name
    rw [Decorate.stmts_snd] at h ⊢
    rw [inserted, List.map_append, List.map_append, List.sum_append, List.sum_append, none]
    rw [← List.take_append_drop i m.body, List.map_append, List.sum_append] at h
    omega

end Module

/-! ### Reading a session's answers -/

namespace Answer

/-- The outcome of making sure of the guard. -/
def outcome? : Answer → Option GuardOutcome
  | .guard g => some g
  | _ => none

/-- The answer to asking for the guard. -/
def present? : Answer → Option Bool
  | .guarded b => some b
  | _ => none

/-- The call added an import. -/
def addedImport : Answer → Bool
  | .imported (.ok true) => true
  | _ => false

/-- The call added a guard. -/
def addedGuard : Answer → Bool
  | .guard (.added _) => true
  | _ => false

/-- The call added a stub `main` before the guard. -/
def addedStub : Answer → Bool
  | .guard (.added true) => true
  | _ => false

end Answer

namespace Call

/-- The trimmed text of an import that a call added. -/
def importAdded? : Call × Answer → Option String
  | (.ensureImport text, .imported (.ok true)) => some (Text.trim text)
  | _ => none

/-- The name a call decorated with, and how many functions it decorated. -/
def decoration? : Call × Answer → Option (String × Nat)
  | (.addDecorator name, .decorated n) => some (name, n)
  | _ => none

end Call

namespace Module

theorem session_cons (m : Module) (c : Call) (cs : List Call) :
    (m.session (c :: cs)).2 = (c, (m.perform c).2) :: ((m.perform c).1.session cs).2 := rfl

/-- What a module has and every call keeps bounds every answer of a session from it. -/
theorem session_forall {I : Module → Prop} {P : Call × Answer → Prop}
    (keep : ∀ (m : Module) (c : Call), I m → I (m.perform c).1)
    (answer : ∀ (m : Module) (c : Call), I m → P (c, (m.perform c).2)) :
    ∀ {m : Module} (calls : List Call), I m → ∀ e ∈ (m.session calls).2, P e
  | _, [], _ => by simp [session]
  | m, c :: cs, h => by
    rw [session_cons]
    intro e he
    rcases List.mem_cons.mp he with rfl | he
    · exact answer m c h
    · exact session_forall keep answer cs (keep m c h) e he

/-- A relation holds from every answer of a session to every later one when it holds from each
call's answer to all the answers of the session that follows it. -/
theorem session_pairwise {R : Call × Answer → Call × Answer → Prop}
    (later : ∀ (m : Module) (c : Call) (cs : List Call),
      ∀ e ∈ ((m.perform c).1.session cs).2, R (c, (m.perform c).2) e) :
    ∀ (m : Module) (calls : List Call), (m.session calls).2.Pairwise R
  | _, [] => .nil
  | m, c :: cs => by
    rw [session_cons]
    exact List.Pairwise.cons (later m c cs) (session_pairwise later _ cs)

/-! #### The guard -/

theorem perform_of_outcome {m : Module} {c : Call} {g : GuardOutcome}
    (h : (m.perform c).2.outcome? = some g) :
    c = .ensureEntryPoint ∧ (m.perform c).1 = m.ensureEntryPoint.1 := by
  cases c with
  | ensureEntryPoint => exact ⟨rfl, rfl⟩
  | ensureImport text =>
    rw [perform_ensureImport] at h
    split at h <;> cases h
  | addDecorator | hasEntryPoint | binds | count => cases h

theorem outcome_of_hasEntryPoint {m : Module} (h : m.hasEntryPoint = true) (c : Call) :
    ∀ g, (m.perform c).2.outcome? = some g → g = .alreadyPresent := by
  intro g hg
  obtain ⟨rfl, -⟩ := perform_of_outcome hg
  rw [perform_ensureEntryPoint, ensureEntryPoint_of_hasEntryPoint h] at hg
  exact (Option.some.inj hg).symm

theorem present_of_hasEntryPoint {m : Module} (h : m.hasEntryPoint = true) (c : Call) :
    ∀ b, (m.perform c).2.present? = some b → b = true := by
  intro b hb
  cases c with
  | hasEntryPoint =>
    simp only [perform, Answer.present?, Option.some.injEq] at hb
    exact hb ▸ h
  | ensureImport text =>
    rw [perform_ensureImport] at hb
    split at hb <;> cases hb
  | addDecorator | ensureEntryPoint | binds | count => cases hb

/-- After a guard is made sure of, every later call to make sure of it finds it there. -/
theorem outcomes_after_first (m : Module) (calls : List Call) :
    ((m.session calls).2.filterMap (·.2.outcome?)).Pairwise (fun _ later => later = .alreadyPresent) := by
  rw [List.pairwise_filterMap]
  apply session_pairwise
  intro m c cs e he g _ g' hg'
  obtain ⟨-, after⟩ := perform_of_outcome (Option.mem_def.mp ‹g ∈ _›)
  have present : (m.perform c).1.hasEntryPoint = true := after ▸ hasEntryPoint_ensureEntryPoint m
  exact session_forall (I := fun m => m.hasEntryPoint = true)
    (P := fun e => ∀ g, e.2.outcome? = some g → g = .alreadyPresent)
    (fun _ c h => hasEntryPoint_perform h c) (fun _ c h => outcome_of_hasEntryPoint h c) cs present
    e he g' hg'

/-- Once asking for the guard answers yes, every later asking does. -/
theorem present_stays (m : Module) (calls : List Call) :
    ((m.session calls).2.filterMap (·.2.present?)).Pairwise (fun a b => a = true → b = true) := by
  rw [List.pairwise_filterMap]
  apply session_pairwise
  intro m c cs e he a ha b hb yes
  subst yes
  have present : (m.perform c).1.hasEntryPoint = true := by
    cases c with
    | hasEntryPoint =>
      simp only [perform, Answer.present?, Option.some.injEq] at ha ⊢
      exact ha
    | ensureImport text =>
      rw [perform_ensureImport] at ha
      split at ha <;> cases ha
    | addDecorator | ensureEntryPoint | binds | count => cases ha
  exact session_forall (I := fun m => m.hasEntryPoint = true)
    (P := fun e => ∀ b, e.2.present? = some b → b = true)
    (fun _ c h => hasEntryPoint_perform h c) (fun _ c h => present_of_hasEntryPoint h c) cs present
    e he b hb

/-- At most one call adds a guard. -/
theorem guard_added_once {outcomes : List GuardOutcome}
    (h : outcomes.Pairwise (fun _ later => later = .alreadyPresent)) :
    outcomes.countP (· != .alreadyPresent) ≤ 1 := by
  cases outcomes with
  | nil => simp
  | cons g rest =>
    have later : rest.countP (· != .alreadyPresent) = 0 := by
      rw [List.countP_eq_zero]
      intro g' hg'
      simp [(List.pairwise_cons.mp h).1 g' hg']
    rw [List.countP_cons, later]
    split <;> omega

theorem Answer.addedGuard_eq (a : Answer) :
    a.addedGuard = (a.outcome?.map (· != .alreadyPresent)).getD false := by
  cases a with
  | guard g => cases g <;> rfl
  | decorated | imported | guarded | bound | count => rfl

theorem Answer.addedGuard_of_addedStub {a : Answer} (h : a.addedStub = true) :
    a.addedGuard = true := by
  cases a with
  | guard g =>
    cases g with
    | added => rfl
    | alreadyPresent => cases h
  | decorated | imported | guarded | bound | count => cases h

/-- When every outcome after the first finds the guard there, at most one guard is added, and
at most one stub with it. -/
theorem guards_added_le {trace : List (Call × Answer)}
    (h : (trace.filterMap (·.2.outcome?)).Pairwise (fun _ later => later = .alreadyPresent)) :
    trace.countP (·.2.addedStub) ≤ trace.countP (·.2.addedGuard) ∧
      trace.countP (·.2.addedGuard) ≤ 1 := by
  have stubs : trace.countP (·.2.addedStub) ≤ trace.countP (·.2.addedGuard) :=
    List.countP_mono_left fun _ _ => Answer.addedGuard_of_addedStub
  have guards : trace.countP (·.2.addedGuard) =
      (trace.filterMap (·.2.outcome?)).countP (· != .alreadyPresent) := by
    rw [List.countP_filterMap]
    simp only [Answer.addedGuard_eq]
  exact ⟨stubs, guards ▸ guard_added_once h⟩

/-! #### Imports -/

theorem reads_of_importAdded {m : Module} {c : Call} {w : String}
    (h : Call.importAdded? (c, (m.perform c).2) = some w) :
    (m.perform c).1.body.any (fun s => (m.perform c).1.stmtText s == w) = true := by
  cases c with
  | ensureImport text =>
    cases hr : m.ensureImport text with
    | ok r =>
      obtain ⟨m', added⟩ := r
      simp only [perform_ensureImport, hr] at h ⊢
      rcases ensureImport_eq_ok hr with ⟨-, -, rfl⟩ | ⟨kind, -, rfl, rfl⟩
      · simp [Call.importAdded?] at h
      · simp only [Call.importAdded?, Option.some.injEq] at h
        subst h
        rw [List.any_eq_true]
        exact ⟨⟨.inserted (Text.trim text), kind⟩, by simp, by simp [stmtText, Text.trim_trim]⟩
    | error e => simp [perform_ensureImport, hr, Call.importAdded?] at h
  | addDecorator | ensureEntryPoint | hasEntryPoint | binds | count =>
    simp [Call.importAdded?] at h

theorem importAdded_of_reads {m : Module} {w : String}
    (h : m.body.any (fun s => m.stmtText s == w) = true) (c : Call) :
    Call.importAdded? (c, (m.perform c).2) ≠ some w := by
  cases c with
  | ensureImport text =>
    by_cases hw : Text.trim text = w
    · subst hw
      simp [perform_ensureImport, ensureImport_of_reads h, Call.importAdded?]
    · cases hr : m.ensureImport text with
      | ok r =>
        obtain ⟨m', added⟩ := r
        cases added <;> simp [perform_ensureImport, hr, Call.importAdded?, hw]
      | error e => simp [perform_ensureImport, hr, Call.importAdded?]
  | addDecorator | ensureEntryPoint | hasEntryPoint | binds | count =>
    simp [Call.importAdded?]

/-- A trimmed import text is added at most once. -/
theorem importsAdded_nodup (m : Module) (calls : List Call) :
    ((m.session calls).2.filterMap Call.importAdded?).Nodup := by
  unfold List.Nodup
  rw [List.pairwise_filterMap]
  apply session_pairwise
  intro m c cs e he w hw w' hw' same
  subst same
  exact session_forall (I := fun m => m.body.any (fun s => m.stmtText s == w) = true)
    (P := fun e => Call.importAdded? e ≠ some w)
    (fun _ c h => reads_perform h c) (fun _ c h => importAdded_of_reads h c) cs
    (reads_of_importAdded hw) e he hw'

/-! #### Decorators -/

theorem decorated_of_decoration {m : Module} {c : Call} {name : String} {n : Nat}
    (h : Call.decoration? (c, (m.perform c).2) = some (name, n)) :
    (Decorate.stmts name (m.perform c).1.body).2 = 0 := by
  cases c with
  | addDecorator other =>
    simp only [perform_addDecorator, Call.decoration?, Option.some.injEq, Prod.mk.injEq] at h
    obtain ⟨rfl, -⟩ := h
    exact Decorate.stmts_again other m.body
  | ensureImport text =>
    rw [perform_ensureImport] at h
    split at h <;> cases h
  | ensureEntryPoint | hasEntryPoint | binds | count => cases h

theorem decoration_of_decorated {m : Module} {name : String}
    (h : (Decorate.stmts name m.body).2 = 0) (c : Call) :
    ∀ n, Call.decoration? (c, (m.perform c).2) = some (name, n) → n = 0 := by
  intro n hn
  cases c with
  | addDecorator other =>
    simp only [perform_addDecorator, Call.decoration?, Option.some.injEq, Prod.mk.injEq] at hn
    obtain ⟨rfl, rfl⟩ := hn
    exact h
  | ensureImport text =>
    rw [perform_ensureImport] at hn
    split at hn <;> cases hn
  | ensureEntryPoint | hasEntryPoint | binds | count => cases hn

/-- A call that adds a decorator already added earlier decorates nothing. -/
theorem decorations_again (m : Module) (calls : List Call) :
    ((m.session calls).2.filterMap Call.decoration?).Pairwise (fun a b => a.1 = b.1 → b.2 = 0) := by
  rw [List.pairwise_filterMap]
  apply session_pairwise
  intro m c cs e he ⟨name, n⟩ ha ⟨name', n'⟩ hb same
  simp only at same
  subst same
  exact session_forall (I := fun m => (Decorate.stmts name m.body).2 = 0)
    (P := fun e => ∀ n, Call.decoration? e = some (name, n) → n = 0)
    (fun _ c h => decorated_perform h c) (fun _ c h => decoration_of_decorated h c) cs
    (decorated_of_decoration ha) e he n' hb

/-! #### The number of statements -/

/-- A call adds one statement for an import, one for a guard and one more for a stub. -/
theorem length_perform (m : Module) (c : Call) :
    (m.perform c).1.body.length = m.body.length + (if (m.perform c).2.addedImport then 1 else 0) +
      (if (m.perform c).2.addedGuard then 1 else 0) + (if (m.perform c).2.addedStub then 1 else 0) := by
  cases c with
  | addDecorator name => simp [perform_addDecorator, addDecorator_eq, Answer.addedImport,
      Answer.addedGuard, Answer.addedStub]
  | ensureImport text =>
    cases hr : m.ensureImport text with
    | ok r =>
      obtain ⟨m', added⟩ := r
      rcases ensureImport_eq_ok hr with ⟨-, rfl, rfl⟩ | ⟨kind, -, rfl, rfl⟩
      · simp [perform_ensureImport, hr, Answer.addedImport, Answer.addedGuard, Answer.addedStub]
      · have at_most := Import.insertionIndex_le m.body
        simp [perform_ensureImport, hr, Answer.addedImport, Answer.addedGuard, Answer.addedStub]
        omega
    | error e => simp [perform_ensureImport, hr, Answer.addedImport, Answer.addedGuard,
        Answer.addedStub]
  | ensureEntryPoint =>
    rw [perform_ensureEntryPoint]
    unfold ensureEntryPoint
    split
    · simp [Answer.addedImport, Answer.addedGuard, Answer.addedStub]
    · cases m.binds "main" <;> simp [Answer.addedImport, Answer.addedGuard, Answer.addedStub]
  | hasEntryPoint | binds | count => simp [perform, Answer.addedImport, Answer.addedGuard,
      Answer.addedStub]

/-- Counting the statements gives the statements at the start and those that answers report
added before. -/
theorem count_answer (m : Module) (calls : List Call) :
    ∀ (pre : List (Call × Answer)) (a : Answer) (post : List (Call × Answer)),
      (m.session calls).2 = pre ++ (.count, a) :: post →
      a = .count (m.body.length + pre.countP (·.2.addedImport) + pre.countP (·.2.addedGuard) +
        pre.countP (·.2.addedStub)) := by
  induction calls generalizing m with
  | nil => intro pre a post h; simp [session] at h
  | cons c cs ih =>
    intro pre a post h
    rw [session_cons] at h
    cases pre with
    | nil =>
      simp only [List.nil_append, List.cons.injEq, Prod.mk.injEq] at h
      obtain ⟨⟨rfl, rfl⟩, -⟩ := h
      simp [perform]
    | cons e pre =>
      simp only [List.cons_append, List.cons.injEq] at h
      obtain ⟨rfl, h⟩ := h
      rw [ih _ pre a post h, length_perform]
      simp only [List.countP_cons]
      congr 1
      omega

/-! ### Every session -/

/-- What the answers of a session from a module of `n` top-level statements agree on. -/
structure SessionAnswers (n : Nat) (trace : List (Call × Answer)) : Prop where
  /-- Every call to make sure of the guard after the first finds it there. -/
  guard_found : (trace.filterMap (·.2.outcome?)).Pairwise (fun _ later => later = .alreadyPresent)
  /-- So at most one guard is added, and at most one stub with it. -/
  guard_added : trace.countP (·.2.addedGuard) ≤ 1 ∧ trace.countP (·.2.addedStub) ≤ 1
  /-- Once asking for the guard answers yes, every later asking does. -/
  guarded_stays : (trace.filterMap (·.2.present?)).Pairwise (fun a b => a = true → b = true)
  /-- No trimmed import text is added twice. -/
  import_once : (trace.filterMap Call.importAdded?).Nodup
  /-- Adding a decorator a second time decorates nothing. -/
  decorate_once : (trace.filterMap Call.decoration?).Pairwise (fun a b => a.1 = b.1 → b.2 = 0)
  /-- Counting gives the first statements and those that the answers before report added. -/
  count : ∀ pre a post, trace = pre ++ (.count, a) :: post →
    a = .count (n + pre.countP (·.2.addedImport) + pre.countP (·.2.addedGuard) +
      pre.countP (·.2.addedStub))

/-- The answers of every session on a module agree with one another and with its statements. -/
theorem session_answers (m : Module) (calls : List Call) :
    SessionAnswers m.body.length (m.session calls).2 := by
  have found := outcomes_after_first m calls
  obtain ⟨stubs, guards⟩ := guards_added_le found
  exact {
    guard_found := found
    guard_added := ⟨guards, Nat.le_trans stubs guards⟩
    guarded_stays := present_stays m calls
    import_once := importsAdded_nodup m calls
    decorate_once := decorations_again m calls
    count := count_answer m calls }

end Module

end PyTune
