import PyTune.Grammar.Expression

/-!
# Statements

`Module.parse` reads a source into its statements. Definitions, compound statements with
their clauses, imports, assignments and docstrings get their own kind; every other simple
statement is only checked. A statement's span runs from its first to its last lexeme of code.
-/

namespace PyTune.Grammar

/-- The lexemes `import` names and `import`s from, comma-separated, with optional `as`;
in parentheses, a comma may end them. -/
def importedNames : Nat → Bool → Array ImportAlias → Grammar (Array ImportAlias)
  | 0, _, _ => exhausted
  | n + 1, parens, acc => do
    if parens && (← peek) == .rParen && !acc.isEmpty then return acc
    let name ← expectName .importedName
    let acc := acc.push ⟨name, ← asName⟩
    if (← peek) != .comma then return acc
    skip
    importedNames n parens acc

/-- `import a.b as c, d`, after `import`. -/
def importList : Nat → Array ImportAlias → Grammar (Array ImportAlias)
  | 0, _ => exhausted
  | n + 1, acc => do
    let name ← dottedName
    let acc := acc.push ⟨name, ← asName⟩
    if (← peek) != .comma then return acc
    skip
    importList n acc

/-- The level of a relative import: one for each `.`, three for each `...`. -/
def relativeLevel : Nat → Nat → Grammar Nat
  | 0, _ => exhausted
  | n + 1, level => do
    match (← peek) with
    | .dot =>
      skip
      relativeLevel n (level + 1)
    | .ellipsis =>
      skip
      relativeLevel n (level + 3)
    | _ => return level

/-- `import ...` -/
def importStmt : Grammar StmtKind := do
  skip
  return .imports (← importList (← read).lexemes.size #[]).toList

/-- `from ... import ...` -/
def fromImportStmt : Grammar StmtKind := do
  skip
  let size := (← read).lexemes.size
  let level ← relativeLevel size 0
  let module ← if (← peek).nameText?.isSome then some <$> dottedName else pure none
  if module.isNone && level == 0 then fail .invalidSyntax
  expect (.keyword .import) .importKeyword
  if (← peek) == .star then
    skip
    return .importFrom module [] level
  let parens := (← peek) == .lParen
  if parens then skip
  let names ← importedNames size parens #[]
  if parens then expect .rParen .closeParen
  return .importFrom module names.toList level

/-- Consumes a `case` pattern up to its colon. -/
def skipPattern : Nat → Nat → Nat → Grammar Unit
  | 0, _, _ => exhausted
  | n + 1, depth, lambdas => do
    let t ← peek
    if t == .colon && depth == 0 && lambdas == 0 then return
    match t with
    | .newline | .semicolon | .eof | .dedent => fail (.expected .colon)
    | _ => pure ()
    let (depth, lambdas) := match t with
      | .colon => if depth == 0 then (depth, lambdas - 1) else (depth, lambdas)
      | .keyword .lambda => if depth == 0 then (depth, lambdas + 1) else (depth, lambdas)
      | t =>
        if t.isOpening then (depth + 1, lambdas)
        else if t.isClosing then (depth - 1, lambdas)
        else (depth, lambdas)
    skip
    skipPattern n depth lambdas

/-- The right-hand side of `=`: a yield expression (no targets), or an expression list. -/
def assignedValue : Nat → Grammar (List Span)
  | 0 => exhausted
  | n + 1 => do
    if (← peek) == .keyword .yield then
      yieldExpr n
      return []
    starExpressions n

/-- Further `= value` parts of an assignment; the names bound so far are `names`. Every value
but the last is a target too. -/
def assignChain : Nat → List String → Grammar StmtKind
  | 0, _ => exhausted
  | n + 1, names => do
    if (← peek) != .eq then return .assign names
    skip
    let value ← assignedValue n
    let src := (← read).source
    let names := if (← peek) == .eq then names ++ boundNames src value else names
    assignChain n names

/-- An expression statement, an assignment, an augmented or an annotated assignment. -/
def expressionStmt : Nat → Grammar StmtKind
  | 0 => exhausted
  | n + 1 => do
    let first ← assignedValue n
    match (← peek) with
    | .eq => assignChain n (boundNames (← read).source first)
    | .augAssign =>
      if first.length != 1 then fail .augmentedTarget
      skip
      discard (assignedValue n)
      return .simple
    | .colon =>
      if first.length != 1 then fail .annotatedTargets
      skip
      expression n
      if (← peek) != .eq then return .simple
      skip
      discard (assignedValue n)
      return .assign (boundNames (← read).source first)
    | _ => return .simple

/-- `type Name[T] = value`, from `type`. -/
def typeAlias : Nat → Grammar Unit
  | 0 => exhausted
  | n + 1 => do
    skip
    discard (expectName .aliasName)
    if (← peek) == .lBracket then typeParams n
    expect .eq .equals
    expression n

/-- Names separated by commas, after `global` or `nonlocal`. -/
def nameList : Nat → Grammar Unit
  | 0 => exhausted
  | n + 1 => do
    discard (expectName .name)
    if (← peek) == .comma then
      skip
      nameList n

/-- One simple statement. -/
def simpleStmt : Nat → Grammar Stmt
  | 0 => exhausted
  | n + 1 => do
    let start ← peekStart
    let kind ← match (← peek) with
      | .keyword .import => importStmt
      | .keyword .from => fromImportStmt
      | .semicolon | .newline | .eof | .dedent => fail .invalidSyntax
      | .keyword .pass | .keyword .break | .keyword .continue => do
        skip
        pure .simple
      | .keyword .return => do
        skip
        if (← startsExpression) then discard (starExpressions n)
        pure .simple
      | .keyword .raise => do
        skip
        if (← startsExpression) then
          expression n
          if (← peek) == .keyword .from then
            skip
            expression n
        pure .simple
      | .keyword .global | .keyword .nonlocal => do
        skip
        nameList (← read).lexemes.size
        pure .simple
      | .keyword .del => do
        skip
        targetList n
        pure .simple
      | .keyword .assert => do
        skip
        expression n
        if (← peek) == .comma then
          skip
          expression n
        pure .simple
      | .name "type" => do
        if (← secondIsName) then
          typeAlias n
          pure .simple
        else expressionStmt n
      | .str _ => do
        let i ← position
        let kind ← expressionStmt n
        let ls ← consumedSince i
        pure (if ls.all (·.token.isStr) then .docstring else kind)
      | _ => expressionStmt n
    return ⟨.source ⟨start, ← lastEnd⟩, kind⟩

/-- Simple statements separated by semicolons, then the end of the line. -/
def simpleLine : Nat → Array Stmt → Grammar (Array Stmt)
  | 0, _ => exhausted
  | n + 1, acc => do
    let acc := acc.push (← simpleStmt n)
    if (← eatSemicolon) then simpleLine n acc
    else
      endLine
      return acc

mutual

/-- Statements up to a dedent (in a block) or the end of input; gives them after those in
`acc`. -/
def statements : Nat → Bool → Array Stmt → Grammar (Array Stmt)
  | 0, _, _ => exhausted
  | n + 1, inBlock, acc => do
    skipNewlines
    match (← peek) with
    | .eof => return acc
    | .dedent =>
      if inBlock then
        skip
        return acc
      else fail .unexpectedIndent
    | .indent => fail .unexpectedIndent
    | _ => statements n inBlock (← stmtLine n acc)

/-- One logical line: a compound statement, or simple statements. -/
def stmtLine : Nat → Array Stmt → Grammar (Array Stmt)
  | 0, _ => exhausted
  | n + 1, acc => do
    let start ← peekStart
    match (← peek) with
    | .atSign => return acc.push (← decorated n start)
    | .keyword .defn => return acc.push (← functionDef n start [])
    | .keyword .class => return acc.push (← classDef n start [])
    | .keyword .async =>
      skip
      match (← peek) with
      | .keyword .defn => return acc.push (← functionDef n start [])
      | .keyword .for | .keyword .with => return acc.push (← compound n start)
      | _ => fail .invalidSyntax
    | .keyword .if | .keyword .for | .keyword .while | .keyword .with | .keyword .try =>
      return acc.push (← compound n start)
    | .keyword .match | .keyword .case =>
      if opensBlock ((← upcoming).drop 1) then return acc.push (← softBlock n start)
      else simpleLine n acc
    | .keyword .elif | .keyword .else | .keyword .except | .keyword .finally =>
      fail .invalidSyntax
    | _ => simpleLine n acc

/-- A colon, then simple statements on the line or an indented block. -/
def suite : Nat → BlockOwner → Grammar Suite
  | 0, _ => exhausted
  | n + 1, owner => do
    expect .colon .colon
    match (← peek) with
    | .newline => pure ()
    | .eof | .dedent => fail (.indentedBlock owner)
    | .atSign | .keyword .defn | .keyword .class | .keyword .if | .keyword .for
    | .keyword .while | .keyword .with | .keyword .try | .keyword .async =>
      fail .invalidSyntax
    | _ => return .inline (← simpleLine n #[]).toList
    skip
    if (← peek) != .indent then fail (.indentedBlock owner)
    skip
    let indent := Source.indentBefore (← read).source (← peekStart)
    return .block indent (← statements n true #[]).toList

/-- Decorators, then the function or class they decorate. -/
def decorated : Nat → Nat → Grammar Stmt
  | 0, _ => exhausted
  | n + 1, start => do
    let decorators ← decoratorList n #[]
    let defStart ← peekStart
    let s ← match (← peek) with
      | .keyword .defn => functionDef n defStart decorators
      | .keyword .async => do
        skip
        if (← peek) != .keyword .defn then fail .invalidSyntax
        functionDef n defStart decorators
      | .keyword .class => classDef n defStart decorators
      | _ => fail (.expected .definition)
    return { s with origin := .source ⟨start, ← lastEnd⟩ }

/-- `@expression` lines, each followed by any blank lines. -/
def decoratorList : Nat → Array Decorator → Grammar (List Decorator)
  | 0, _ => exhausted
  | n + 1, acc => do
    if (← peek) != .atSign then return acc.toList
    let sign ← bump
    let i ← position
    namedExpression n
    let ls ← consumedSince i
    endLine
    let d : Decorator :=
      { origin := .source ⟨sign.span.start, ← lastEnd⟩,
        shape := DecoratorShape.ofLexemes (← read).source ls }
    skipNewlines
    decoratorList n (acc.push d)

/-- `def name[T](parameters) -> result: body`, from `def`; `start` is the offset of `def` or of
the `async` before it. -/
def functionDef : Nat → Nat → List Decorator → Grammar Stmt
  | 0, _, _ => exhausted
  | n + 1, start, decorators => do
    skip
    let name ← expectName .functionName
    if (← peek) == .lBracket then typeParams n
    expect .lParen .openParen
    parameters n .rParen true
    expect .rParen .closeParen
    if (← peek) == .arrow then
      skip
      expression n
    let body ← suite n .functionDef
    let indent := Source.indentBefore (← read).source start
    return ⟨.source ⟨start, ← lastEnd⟩,
      .functionDef { name, decorators, indent, offset := start, body }⟩

/-- `class Name[T](bases): body`, from `class`. -/
def classDef : Nat → Nat → List Decorator → Grammar Stmt
  | 0, _, _ => exhausted
  | n + 1, start, decorators => do
    skip
    let name ← expectName .className
    if (← peek) == .lBracket then typeParams n
    if (← peek) == .lParen then
      skip
      callArguments n
      expect .rParen .closeParen
    let body ← suite n .classDef
    let indent := Source.indentBefore (← read).source start
    return ⟨.source ⟨start, ← lastEnd⟩,
      .classDef { name, decorators, indent, offset := start, body }⟩

/-- `if`, `for`, `while`, `with` or `try` with the clauses that may follow it. -/
def compound : Nat → Nat → Grammar Stmt
  | 0, _ => exhausted
  | n + 1, start => do
    let first ← clause n
    let clauses ← moreClauses n first.keyword first.keyword #[first]
    if first.keyword == "try" &&
        !clauses.any (fun c => c.keyword == "except" || c.keyword == "finally") then
      fail (.expected .handler)
    return ⟨.source ⟨start, ← lastEnd⟩, .compound clauses.toList⟩

/-- Further clauses, as long as the next keyword may follow the clauses so far. -/
def moreClauses : Nat → String → String → Array Clause → Grammar (Array Clause)
  | 0, _, _, _ => exhausted
  | n + 1, first, last, acc => do
    match (← peek).clauseKeyword? with
    | some next =>
      if continuesWith first last next then
        let c ← clause n
        moreClauses n first c.keyword (acc.push c)
      else return acc
    | none => return acc

/-- One clause: its keyword, its header and its body. -/
def clause : Nat → Grammar Clause
  | 0 => exhausted
  | n + 1 => do
    let kw ← bump
    let keyword := kw.span.text (← read).source
    let i ← position
    match keyword with
    | "if" | "elif" | "while" => namedExpression n
    | "for" =>
      targetList n
      expect (.keyword .in) .inKeyword
      discard (starExpressions n)
    | "with" => withItems n
    | "except" => exceptHeader n
    | _ => pure ()
    let (names, strings) := headerWords (← read).source (← consumedSince i)
    let body ← suite n (.statement keyword)
    return { keyword, names, strings, body }

/-- `match subject:` or `case pattern:` with its body. -/
def softBlock : Nat → Nat → Grammar Stmt
  | 0, _ => exhausted
  | n + 1, start => do
    let kw ← bump
    let keyword := kw.span.text (← read).source
    let i ← position
    if keyword == "match" then starNamedExpressions n
    else skipPattern (← read).lexemes.size 0 0
    let (names, strings) := headerWords (← read).source (← consumedSince i)
    let body ← suite n (.statement keyword)
    return ⟨.source ⟨start, ← lastEnd⟩, .compound [{ keyword, names, strings, body }]⟩

end

end PyTune.Grammar

namespace PyTune

/-- The statements of a source, or the first syntax error in it. Reading follows nesting to a
depth of `32` for each lexeme, which no source of that many lexemes reaches. -/
def Module.parse (src : String) : Except ParseError Module :=
  let tape := Tape.ofSource src
  let fuel := 32 * (tape.lexemes.size + 2)
  match Grammar.statements fuel false #[] tape ⟨0, 0⟩ with
  | .ok ⟨(body, _), _⟩ => .ok { source := src, body := body.toList }
  | .error ⟨h, _⟩ => .error (ParseError.atOffset src h.fault h.offset)

end PyTune
