import PyTune.Proofs.Imports

/-!
# Independent edits commute

Adding a decorator changes only decorator lists, which the other edits never read, and an import
that binds no `main` leaves the bindings the guard looks at as they were
(`Module.independent_edits_commute`).
-/

namespace PyTune

/-- Two calls commute on a module: in either order they leave the same module, and each call
answers the same. -/
def Module.Commute (m : Module) (a b : Call) : Prop :=
  (m.session [a, b]).1 = (m.session [b, a]).1 ∧ (m.session [a, b]).2 = (m.session [b, a]).2.reverse

/-! ### What decorating leaves alone -/

namespace Decorate

variable (name : String)

theorem isFutureImport_stmt (s : Stmt) :
    Import.isFutureImport (stmt name s).1 = Import.isFutureImport s := by
  rcases s with ⟨o, _ | _ | ⟨_, _, _, _, _⟩ | ⟨_, _, _, _, _⟩ | _ | _ | _ | _⟩ <;> rfl

theorem docstring_stmt (s : Stmt) : (stmt name s).1.kind = .docstring ↔ s.kind = .docstring := by
  rcases s with ⟨o, _ | _ | ⟨_, _, _, _, _⟩ | ⟨_, _, _, _, _⟩ | _ | _ | _ | _⟩ <;> simp [stmt]

theorem stmtBinds_stmt (x : String) (s : Stmt) :
    Module.stmtBinds x (stmt name s).1 = Module.stmtBinds x s := by
  rcases s with ⟨o, _ | _ | ⟨_, _, _, _, _⟩ | ⟨_, _, _, _, _⟩ | _ | _ | _ | _⟩ <;> rfl

/-- An import statement holds no function: decorating leaves it as it is. -/
theorem stmt_of_isImport {s : Stmt} (h : s.kind.isImport = true) : stmt name s = (s, 0) := by
  rcases s with ⟨o, _ | _ | ⟨_, _, _, _, _⟩ | ⟨_, _, _, _, _⟩ | _ | _ | _ | _⟩ <;>
    first | rfl | cases h

theorem stmt_stub : stmt name ⟨.inserted EntryPoint.stubMain, .simple⟩ =
    (⟨.inserted EntryPoint.stubMain, .simple⟩, 0) := rfl

theorem stmt_guard : stmt name EntryPoint.guardStmt = (EntryPoint.guardStmt, 0) := rfl

end Decorate

/-! ### Where an import goes, again -/

namespace Import

theorem isImport_of_kindOf {w : String} {kind : StmtKind} (h : kindOf w = .ok kind) :
    kind.isImport = true := by
  obtain ⟨aliases, rfl⟩ | ⟨module, names, level, rfl⟩ := kindOf_eq_ok h <;> rfl

/-- Statements that keep their kind as far as the insertion point goes leave it where it was. -/
theorem insertionIndex_map {f : Stmt → Stmt}
    (future : ∀ s, isFutureImport (f s) = isFutureImport s)
    (doc : ∀ s, (f s).kind = .docstring ↔ s.kind = .docstring) (body : List Stmt) :
    insertionIndex (body.map f) = insertionIndex body := by
  have run : ∀ xs : List Stmt, ((xs.map f).takeWhile isFutureImport).length =
      (xs.takeWhile isFutureImport).length := by
    intro xs
    rw [List.takeWhile_map, List.length_map]
    congr 2
    funext s
    exact future s
  cases body with
  | nil => rfl
  | cons s rest =>
    by_cases hd : s.kind = .docstring
    · rw [List.map_cons, insertionIndex_docstring ((doc s).mpr hd), insertionIndex_docstring hd,
        run rest]
    · have first : ∀ d ∈ (s :: rest).head?, d.kind ≠ .docstring := by simpa using hd
      have first' : ∀ d ∈ ((s :: rest).map f).head?, d.kind ≠ .docstring := by
        simpa [doc] using hd
      rw [insertionIndex_of_opens first, insertionIndex_of_opens first', run]

/-- A run taken while a test holds stops before a list that opens with a failure. -/
theorem takeWhile_append_stop {p : Stmt → Bool} {ys : List Stmt} (h : ∀ y ∈ ys.head?, p y = false)
    (xs : List Stmt) : (xs ++ ys).takeWhile p = xs.takeWhile p := by
  induction xs with
  | nil =>
    cases ys with
    | nil => rfl
    | cons y _ => simp [h y rfl]
  | cons x xs ih => simp only [List.cons_append, List.takeWhile_cons, ih]

/-- Statements added at the end, the first of which is neither a docstring nor a future import,
leave the insertion point where it was. -/
theorem insertionIndex_append (body : List Stmt) {added : List Stmt}
    (h : ∀ s ∈ added.head?, s.kind ≠ .docstring ∧ isFutureImport s = false) :
    insertionIndex (body ++ added) = insertionIndex body := by
  have stop : ∀ s ∈ added.head?, isFutureImport s = false := fun s hs => (h s hs).2
  cases body with
  | nil =>
    have first : ∀ d ∈ added.head?, d.kind ≠ .docstring := fun s hs => (h s hs).1
    have none := takeWhile_append_stop stop []
    rw [List.nil_append, List.takeWhile_nil] at none
    rw [List.nil_append, insertionIndex_of_opens first, none]
    rfl
  | cons s rest =>
    by_cases hd : s.kind = .docstring
    · rw [List.cons_append, insertionIndex_docstring hd, insertionIndex_docstring hd,
        takeWhile_append_stop stop]
    · have first : ∀ d ∈ (s :: rest).head?, d.kind ≠ .docstring := by simpa using hd
      rw [insertionIndex_of_opens first, insertionIndex_of_opens (by simpa using hd),
        takeWhile_append_stop stop]

end Import

namespace EntryPoint

/-- What making sure of the guard adds when the module has none. -/
def added (stub : Bool) : List Stmt :=
  (if stub then [⟨.inserted stubMain, .simple⟩] else []) ++ [guardStmt]

theorem added_head : ∀ stub, ∀ s ∈ (added stub).head?,
    s.kind ≠ .docstring ∧ Import.isFutureImport s = false := by
  intro stub s hs
  cases stub <;> simp only [added, if_true, List.singleton_append, List.head?_cons,
    Option.mem_some_iff, Bool.false_eq_true, if_false, List.nil_append] at hs <;>
    subst hs <;> exact ⟨nofun, rfl⟩

/-- Neither the stub nor the guard reads as one import statement. -/
theorem kindOf_stub_guard : (Import.kindOf (Text.trim stubMain)).toOption = none ∧
    (Import.kindOf (Text.trim guard)).toOption = none := by
  decide +kernel

/-- No statement that making sure of the guard adds reads as an import text. -/
theorem added_texts {w : String} {kind : StmtKind} (h : Import.kindOf w = .ok kind) (stub : Bool)
    (src : String) :
    (added stub).any (fun s => Module.stmtText ⟨src, []⟩ s == w) = false := by
  have differs : ∀ text, (Import.kindOf (Text.trim text)).toOption = none → Text.trim text ≠ w := by
    rintro text none rfl
    rw [h] at none
    cases none
  have stub_differs := differs stubMain kindOf_stub_guard.1
  have guard_differs := differs guard kindOf_stub_guard.2
  cases stub <;> simp [added, guardStmt, Module.stmtText, stub_differs, guard_differs]

theorem added_bare (name : String) (stub : Bool) : ∀ s ∈ added stub, Decorate.stmt name s = (s, 0) := by
  intro s hs
  cases stub <;> simp only [added, if_true, List.singleton_append, Bool.false_eq_true, if_false,
    List.nil_append, List.mem_cons, List.not_mem_nil, or_false] at hs <;>
    rcases hs with rfl | rfl <;> rfl

theorem isGuard_of_isImport {s : Stmt} (h : s.kind.isImport = true) : isGuard s = false := by
  rcases s with ⟨o, _ | _ | ⟨_, _, _, _, _⟩ | ⟨_, _, _, _, _⟩ | _ | _ | _ | _⟩ <;>
    first | rfl | cases h

end EntryPoint

namespace Module

theorem ensureEntryPoint_eq (m : Module) :
    m.ensureEntryPoint = if m.hasEntryPoint then (m, .alreadyPresent)
      else ({ m with body := m.body ++ EntryPoint.added (!m.binds "main") },
        .added (!m.binds "main")) := rfl

/-- The module that adding a decorator leaves. -/
theorem addDecorator_fst (m : Module) (name : String) :
    (m.addDecorator name).1 = { m with body := m.body.map fun s => (Decorate.stmt name s).1 } := by
  rw [addDecorator_eq]

@[simp] theorem source_addDecorator (m : Module) (name : String) :
    (m.addDecorator name).1.source = m.source := by
  rw [addDecorator_fst]

theorem stmtText_addDecorator (m : Module) (name : String) (s : Stmt) :
    (m.addDecorator name).1.stmtText (Decorate.stmt name s).1 = m.stmtText s := by
  simp [addDecorator_fst, stmtText, Decorate.stmt_origin]

theorem binds_addDecorator (m : Module) (name x : String) :
    (m.addDecorator name).1.binds x = m.binds x := by
  simp [addDecorator_fst, binds, List.any_map, Function.comp_def, Decorate.stmtBinds_stmt]

/-- Statements that decorating leaves as they are, inserted into the body, change neither what
decorating does to the rest nor how many functions it decorates. -/
theorem addDecorator_insert (m : Module) (name : String) (i : Nat) (added : List Stmt)
    (bare : ∀ s ∈ added, Decorate.stmt name s = (s, 0)) :
    ({ m with body := m.body.take i ++ added ++ m.body.drop i }.addDecorator name) =
      ({ m with body := (m.addDecorator name).1.body.take i ++ added ++
          (m.addDecorator name).1.body.drop i }, (m.addDecorator name).2) := by
  have kept : added.map (fun s => (Decorate.stmt name s).1) = added := by
    conv_rhs => rw [← List.map_id added]
    exact List.map_congr_left fun s hs => by rw [bare s hs]; rfl
  have none : (added.map fun s => (Decorate.stmt name s).2).sum = 0 := by
    simp only [List.sum_eq_zero_iff_forall_eq_nat, List.mem_map]
    rintro _ ⟨s, hs, rfl⟩
    rw [bare s hs]
  have whole : (m.body.map fun s => (Decorate.stmt name s).2).sum =
      ((m.body.take i).map fun s => (Decorate.stmt name s).2).sum +
        ((m.body.drop i).map fun s => (Decorate.stmt name s).2).sum := by
    rw [← List.sum_append, ← List.map_append, List.take_append_drop]
  rw [addDecorator_eq, addDecorator_eq]
  simp only [List.map_append, List.sum_append, kept, none, List.map_take, List.map_drop, whole,
    Nat.add_zero]

/-! ### Decorating and making sure of an import -/

/-- Making sure of an import after decorating finds what it finds before, and inserts what it
inserts before, into the decorated statements. -/
theorem ensureImport_addDecorator (m : Module) (name text : String) :
    (m.addDecorator name).1.ensureImport text =
      (m.ensureImport text).map fun r => ((r.1.addDecorator name).1, r.2) := by
  have texts : (m.addDecorator name).1.body.any
      (fun s => (m.addDecorator name).1.stmtText s == Text.trim text) =
      m.body.any (fun s => m.stmtText s == Text.trim text) := by
    conv_lhs => rw [addDecorator_fst]
    simp only [List.any_map, Function.comp_def]
    simp only [← addDecorator_fst, stmtText_addDecorator]
  have index : Import.insertionIndex (m.addDecorator name).1.body = Import.insertionIndex m.body := by
    rw [addDecorator_fst]
    exact Import.insertionIndex_map (Decorate.isFutureImport_stmt name) (Decorate.docstring_stmt name)
      m.body
  by_cases found : m.body.any (fun s => m.stmtText s == Text.trim text) = true
  · rw [ensureImport_of_reads found, ensureImport_of_reads (texts ▸ found)]
    rfl
  · cases hk : Import.kindOf (Text.trim text) with
    | error e =>
      simp [ensureImport, texts, found, hk, bind, Except.bind, Except.map]
    | ok kind =>
      have bare : Decorate.stmt name ⟨.inserted (Text.trim text), kind⟩ =
          (⟨.inserted (Text.trim text), kind⟩, 0) :=
        Decorate.stmt_of_isImport name (Import.isImport_of_kindOf hk)
      have inserted := addDecorator_insert m name (Import.insertionIndex m.body)
        [⟨.inserted (Text.trim text), kind⟩] (by simpa using bare)
      simp only [List.append_assoc, List.singleton_append] at inserted
      simp [ensureImport, texts, found, hk, index, bind, Except.bind, pure, Except.pure,
        Except.map, inserted]

/-- After making sure of an import, decorating decorates as many functions as before. -/
theorem addDecorator_ensureImport {m m' : Module} {text : String} {added : Bool}
    (h : m.ensureImport text = .ok (m', added)) (name : String) :
    (m'.addDecorator name).2 = (m.addDecorator name).2 := by
  rcases ensureImport_eq_ok h with ⟨-, rfl, -⟩ | ⟨kind, hk, -, rfl⟩
  · rfl
  · have bare : Decorate.stmt name ⟨.inserted (Text.trim text), kind⟩ =
        (⟨.inserted (Text.trim text), kind⟩, 0) :=
      Decorate.stmt_of_isImport name (Import.isImport_of_kindOf hk)
    have inserted := addDecorator_insert m name (Import.insertionIndex m.body)
      [⟨.inserted (Text.trim text), kind⟩] (by simpa using bare)
    simp only [List.append_assoc, List.singleton_append] at inserted
    rw [inserted]

/-- Statements that decorating leaves as they are, added at the end, change neither what
decorating does to the rest nor how many functions it decorates. -/
theorem addDecorator_append (m : Module) (name : String) (added : List Stmt)
    (bare : ∀ s ∈ added, Decorate.stmt name s = (s, 0)) :
    ({ m with body := m.body ++ added }.addDecorator name) =
      ({ m with body := (m.addDecorator name).1.body ++ added }, (m.addDecorator name).2) := by
  have inserted := addDecorator_insert m name m.body.length added bare
  have same : (m.addDecorator name).1.body.length = m.body.length := by simp [addDecorator_fst]
  rw [List.take_length, List.drop_length, List.append_nil, ← same, List.take_length,
    List.drop_length, List.append_nil] at inserted
  exact inserted

theorem any_insert_eq (p : Stmt → Bool) (body : List Stmt) (i : Nat) (s : Stmt) :
    (body.take i ++ s :: body.drop i).any p = (body.any p || p s) := by
  conv_rhs => rw [← List.take_append_drop i body]
  simp only [List.any_append, List.any_cons]
  cases body.take i |>.any p <;> cases p s <;> simp

/-! ### Decorating and making sure of the guard -/

/-- Making sure of the guard after decorating finds what it finds before, and adds what it adds
before, after the decorated statements. -/
theorem ensureEntryPoint_addDecorator (m : Module) (name : String) :
    (m.addDecorator name).1.ensureEntryPoint =
      ((m.ensureEntryPoint.1.addDecorator name).1, m.ensureEntryPoint.2) := by
  rw [ensureEntryPoint_eq, ensureEntryPoint_eq, hasEntryPoint_addDecorator, binds_addDecorator]
  by_cases present : m.hasEntryPoint = true
  · simp only [present, if_true]
  · simp only [present, Bool.false_eq_true, if_false,
      addDecorator_append m name _ (EntryPoint.added_bare name _)]
    rw [addDecorator_fst]

/-- After making sure of the guard, decorating decorates as many functions as before. -/
theorem addDecorator_ensureEntryPoint (m : Module) (name : String) :
    (m.ensureEntryPoint.1.addDecorator name).2 = (m.addDecorator name).2 := by
  rw [ensureEntryPoint_eq]
  by_cases present : m.hasEntryPoint = true
  · simp only [present, if_true]
  · simp only [present, Bool.false_eq_true, if_false,
      addDecorator_append m name _ (EntryPoint.added_bare name _)]

/-! ### Making sure of an import and of the guard -/

section

variable {m : Module} {text : String} {kind : StmtKind}

/-- Making sure of the guard after an import that does not bind `main` finds what it finds
before. -/
theorem ensureEntryPoint_ensureImport {m' : Module} {added : Bool}
    (hk : Import.kindOf (Text.trim text) = .ok kind)
    (main : stmtBinds "main" ⟨.inserted (Text.trim text), kind⟩ = false)
    (h : m.ensureImport text = .ok (m', added)) :
    m'.ensureEntryPoint.2 = m.ensureEntryPoint.2 ∧
      m.ensureEntryPoint.1.ensureImport text = .ok (m'.ensureEntryPoint.1, added) := by
  rcases ensureImport_eq_ok h with ⟨found, rfl, rfl⟩ | ⟨kind', hk', rfl, rfl⟩
  · refine ⟨rfl, ensureImport_of_reads ?_⟩
    rw [ensureEntryPoint_eq]
    split
    · exact found
    · simpa [List.any_append, stmtText] using Or.inl found
  · rw [hk] at hk'
    cases hk'
    have guard : EntryPoint.isGuard ⟨.inserted (Text.trim text), kind⟩ = false :=
      EntryPoint.isGuard_of_isImport (Import.isImport_of_kindOf hk)
    have present : ({ m with body := m.body.take (Import.insertionIndex m.body) ++
        ⟨.inserted (Text.trim text), kind⟩ :: m.body.drop (Import.insertionIndex m.body) } :
          Module).hasEntryPoint = m.hasEntryPoint := by
      simp only [hasEntryPoint, any_insert_eq, guard, Bool.or_false]
    have bound : ({ m with body := m.body.take (Import.insertionIndex m.body) ++
        ⟨.inserted (Text.trim text), kind⟩ :: m.body.drop (Import.insertionIndex m.body) } :
          Module).binds "main" = m.binds "main" := by
      simp only [binds, any_insert_eq, main, Bool.or_false]
    have absent : m.body.any (fun s => m.stmtText s == Text.trim text) = false := by
      cases found : m.body.any (fun s => m.stmtText s == Text.trim text) with
      | false => rfl
      | true =>
        rw [ensureImport_of_reads found] at h
        simp at h
    refine ⟨by rw [ensureEntryPoint_eq, ensureEntryPoint_eq, present, bound]; split <;> rfl, ?_⟩
    rw [ensureEntryPoint_eq, ensureEntryPoint_eq, present, bound]
    by_cases has : m.hasEntryPoint = true
    · simp only [has, if_true]
      exact ensureImport_of_absent absent hk
    · simp only [has, Bool.false_eq_true, if_false]
      have none : (m.body ++ EntryPoint.added (!m.binds "main")).any
          (fun s => m.stmtText s == Text.trim text) = false := by
        rw [List.any_append, absent, Bool.false_or]
        exact EntryPoint.added_texts hk _ m.source
      have within := Import.insertionIndex_le m.body
      rw [ensureImport_of_absent (m := { m with body := m.body ++ EntryPoint.added (!m.binds "main") })
          none hk, Import.insertionIndex_append m.body (EntryPoint.added_head _),
        List.take_append_of_le_length within, List.drop_append_of_le_length within]
      simp

end

/-! ### In either order -/

theorem session_pair (m : Module) (a b : Call) :
    m.session [a, b] = (((m.perform a).1.perform b).1,
      [(a, (m.perform a).2), (b, ((m.perform a).1.perform b).2)]) := rfl

/-- Two calls commute when both orders leave the same module and each call answers alike. -/
theorem commute_of_perform {m : Module} {a b : Call}
    (module : ((m.perform a).1.perform b).1 = ((m.perform b).1.perform a).1)
    (first : ((m.perform b).1.perform a).2 = (m.perform a).2)
    (second : ((m.perform a).1.perform b).2 = (m.perform b).2) : m.Commute a b := by
  refine ⟨by rw [session_pair, session_pair, module], ?_⟩
  rw [session_pair, session_pair, first, second]
  rfl

theorem addDecorator_ensureImport_commute (m : Module) (name text : String) :
    m.Commute (.addDecorator name) (.ensureImport text) := by
  cases h : m.ensureImport text with
  | error e =>
    refine commute_of_perform ?_ ?_ ?_ <;>
      simp [perform_addDecorator, perform_ensureImport, ensureImport_addDecorator, h, Except.map]
  | ok r =>
    obtain ⟨m', added⟩ := r
    refine commute_of_perform ?_ ?_ ?_ <;>
      simp [perform_addDecorator, perform_ensureImport, ensureImport_addDecorator, h, Except.map,
        addDecorator_ensureImport h]

theorem addDecorator_ensureEntryPoint_commute (m : Module) (name : String) :
    m.Commute (.addDecorator name) .ensureEntryPoint := by
  refine commute_of_perform ?_ ?_ ?_ <;>
    simp [perform_addDecorator, perform_ensureEntryPoint, ensureEntryPoint_addDecorator,
      addDecorator_ensureEntryPoint]

theorem ensureImport_ensureEntryPoint_commute (m : Module) {text : String} {kind : StmtKind}
    (hk : Import.kindOf (Text.trim text) = .ok kind)
    (main : stmtBinds "main" ⟨.inserted (Text.trim text), kind⟩ = false) :
    m.Commute (.ensureImport text) .ensureEntryPoint := by
  obtain ⟨r, h⟩ : ∃ r, m.ensureImport text = .ok r := by
    cases found : m.body.any (fun s => m.stmtText s == Text.trim text) with
    | true => exact ⟨_, ensureImport_of_reads found⟩
    | false => exact ⟨_, ensureImport_of_absent found hk⟩
  obtain ⟨m', added⟩ := r
  obtain ⟨outcome, after⟩ := ensureEntryPoint_ensureImport hk main h
  refine commute_of_perform ?_ ?_ ?_ <;>
    simp [perform_ensureImport, perform_ensureEntryPoint, h, after, outcome]

/-- Adding a decorator commutes with making sure of an import and with making sure of the
guard; making sure of an import commutes with making sure of the guard when the import text
reads as one import statement that does not bind `main`. -/
theorem independent_edits_commute (m : Module) (name text : String) :
    m.Commute (.addDecorator name) (.ensureImport text) ∧
    m.Commute (.addDecorator name) .ensureEntryPoint ∧
    ∀ single s, Module.parse (Text.trim text) = .ok single → single.body = [s] →
      s.kind.isImport = true → single.binds "main" = false →
      m.Commute (.ensureImport text) .ensureEntryPoint := by
  refine ⟨addDecorator_ensureImport_commute m name text,
    addDecorator_ensureEntryPoint_commute m name, ?_⟩
  intro single s parsed one imports unbound
  -- what a statement binds depends on its kind only
  have main : stmtBinds "main" ⟨.inserted (Text.trim text), s.kind⟩ = false := by
    change stmtBinds "main" s = false
    simpa [binds, one] using unbound
  exact ensureImport_ensureEntryPoint_commute m (Import.kindOf_of_single parsed one imports) main

/-- On a module without a guard, `import numpy as np` and the guard commute. -/
theorem independent_edits_commute_numpy :
    ∃ m single s, Module.parse "x = 1\n" = .ok m ∧ Module.parse "import numpy as np" = .ok single ∧
      single.body = [s] ∧ s.kind.isImport = true ∧ single.binds "main" = false ∧
      m.Commute (.ensureImport "import numpy as np") .ensureEntryPoint := by
  obtain ⟨m, parsed⟩ := exists_parse_of_isSome "x = 1\n" (by decide +kernel)
  obtain ⟨single, imported⟩ := exists_parse_of_isSome "import numpy as np" (by decide +kernel)
  have shape : single.body.length = 1 ∧ single.body.all (·.kind.isImport) = true ∧
      single.binds "main" = false := by
    have computed : (Module.parse "import numpy as np").toOption.map
        (fun m => (m.body.length, m.body.all (·.kind.isImport), m.binds "main")) =
          some (1, true, false) := by
      decide +kernel
    simpa [imported, Except.toOption] using computed
  obtain ⟨s, one⟩ := List.length_eq_one_iff.mp shape.1
  have imports : s.kind.isImport = true := by simpa [one] using shape.2.1
  have trimmed : Text.trim "import numpy as np" = "import numpy as np" := by decide +kernel
  exact ⟨m, single, s, parsed, imported, one, imports, shape.2.2,
    (independent_edits_commute m "" "import numpy as np").2.2 single s (trimmed ▸ imported)
      one imports shape.2.2⟩

end Module

end PyTune
