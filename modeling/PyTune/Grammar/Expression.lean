import PyTune.Grammar.Cursor

/-!
# Expressions

Expressions are checked, not built: each rule consumes the lexemes of one expression and stops
at the first lexeme that cannot continue it. All binary operators take the same operands, so
precedence plays no part. The rules call each other through a depth bound `fuel`, which each
call lowers by one; `Module.parse` gives a bound that no input of its size reaches.
-/

namespace PyTune.Grammar

/-- The items that a list in brackets holds after its first one. -/
inductive ListItem where
  /-- An expression, starred or named. -/
  | starNamed
  /-- A `key: value` pair or a `**mapping`. -/
  | dict

/-- A unary operator. -/
def isUnary : Token → Bool
  | .op o => o == "+" || o == "-" || o == "~"
  | _ => false

/-- The next tokens start a comprehension. -/
def comprehensionFollows : Grammar Bool := do
  let t ← peek
  return t == .keyword .for || t == .keyword .async

mutual

/-- `a`, `*a, b`, `a, b,`: an expression list as on either side of `=`; gives the span of each
item. -/
def starExpressions : Nat → Grammar (List Span)
  | 0 => exhausted
  | n + 1 => starExpressionsFrom n []

/-- The items of an expression list, after those in `acc` (latest first). -/
def starExpressionsFrom : Nat → List Span → Grammar (List Span)
  | 0, _ => exhausted
  | n + 1, acc => do
    let start ← peekStart
    if (← peek) == .star then
      skip
      comparison n
    else
      expression n
    let acc := ⟨start, ← lastEnd⟩ :: acc
    if (← peek) != .comma then return acc.reverse
    skip
    if !(← startsExpression) then return acc.reverse
    starExpressionsFrom n acc

/-- Like `starExpressions`, where items may be assignment expressions. -/
def starNamedExpressions : Nat → Grammar Unit
  | 0 => exhausted
  | n + 1 => do
    starNamedItem n
    if (← peek) != .comma then return
    skip
    if !(← startsExpression) then return
    starNamedExpressions n

/-- `*operand` or an assignment expression. -/
def starNamedItem : Nat → Grammar Unit
  | 0 => exhausted
  | n + 1 => do
    if (← peek) == .star then
      skip
      comparison n
    else
      namedExpression n

/-- The targets of `for`, `del`, `as` and comprehensions. -/
def targetList : Nat → Grammar Unit
  | 0 => exhausted
  | n + 1 => do
    if (← peek) == .star then skip
    primary n
    if (← peek) != .comma then return
    skip
    if !(← startsExpression) then return
    targetList n

/-- An expression, or `name := expression`. -/
def namedExpression : Nat → Grammar Unit
  | 0 => exhausted
  | n + 1 => do
    let start ← peekStart
    expression n
    if (← peek) == .walrus then
      if !Text.isIdentifier (← text start (← lastEnd)) then fail .walrusTarget
      skip
      expression n

/-- A lambda, or operands with an optional `if ... else ...`. -/
def expression : Nat → Grammar Unit
  | 0 => exhausted
  | n + 1 => do
    if (← peek) == .keyword .lambda then
      skip
      parameters n .colon false
      expect .colon .colon
      expression n
    else
      disjunction n
      if (← peek) == .keyword .if then
        skip
        disjunction n
        expect (.keyword .else) .elseAfterIf
        expression n

/-- Operands joined by `and` and `or`. -/
def disjunction : Nat → Grammar Unit
  | 0 => exhausted
  | n + 1 => do
    inversion n
    disjunctionRest n

/-- Further `and` or `or` operands. -/
def disjunctionRest : Nat → Grammar Unit
  | 0 => exhausted
  | n + 1 => do
    let t ← peek
    if t == .keyword .and || t == .keyword .or then
      skip
      inversion n
      disjunctionRest n

/-- Any number of `not`, then an operand. -/
def inversion : Nat → Grammar Unit
  | 0 => exhausted
  | n + 1 => do
    if (← peek) == .keyword .not then
      skip
      inversion n
    else
      comparison n

/-- Operands joined by arithmetic, bitwise and comparison operators. -/
def comparison : Nat → Grammar Unit
  | 0 => exhausted
  | n + 1 => do
    factor n
    comparisonRest n

/-- Further operators and their operands. -/
def comparisonRest : Nat → Grammar Unit
  | 0 => exhausted
  | n + 1 => do
    match (← peek) with
    | .star | .dblStar | .atSign | .keyword .in => skip
    | .op o => if o == "~" then return else skip
    | .keyword .is =>
      skip
      if (← peek) == .keyword .not then skip
    | .keyword .not =>
      skip
      expect (.keyword .in) .inAfterNot
    | _ => return
    factor n
    comparisonRest n

/-- Unary operators, an optional `await`, then a primary. -/
def factor : Nat → Grammar Unit
  | 0 => exhausted
  | n + 1 => do
    if isUnary (← peek) then
      skip
      factor n
    else
      if (← peek) == .keyword .await then skip
      primary n

/-- An atom followed by attributes, calls and subscripts. -/
def primary : Nat → Grammar Unit
  | 0 => exhausted
  | n + 1 => do
    atom n
    primaryRest n

/-- Attributes, calls and subscripts after an atom. -/
def primaryRest : Nat → Grammar Unit
  | 0 => exhausted
  | n + 1 => do
    match (← peek) with
    | .dot =>
      skip
      discard (expectName .attributeName)
    | .lParen =>
      skip
      callArguments n
      expect .rParen .closeParen
    | .lBracket =>
      skip
      subscript n
      expect .rBracket .closeBracket
    | _ => return
    primaryRest n

/-- A literal, a name, or a bracketed form. -/
def atom : Nat → Grammar Unit
  | 0 => exhausted
  | n + 1 => do
    match (← peek) with
    | .str _ | .fstr _ => skipWhile (fun t => t.isStr || t matches .fstr _) (← read).lexemes.size
    | .number | .ellipsis | .keyword .True | .keyword .False | .keyword .None => skip
    | .lParen =>
      skip
      match (← peek) with
      | .rParen => pure ()
      | .keyword .yield => yieldExpr n
      | _ => sequenceBody n .rParen
      expect .rParen .closeParen
    | .lBracket =>
      skip
      if (← peek) != .rBracket then sequenceBody n .rBracket
      expect .rBracket .closeBracket
    | .lBrace =>
      skip
      if (← peek) != .rBrace then braceBody n
      expect .rBrace .closeBrace
    | t => if t.nameText?.isSome then skip else fail .invalidSyntax

/-- The inside of a tuple, list or generator: a comprehension or a list of items. -/
def sequenceBody : Nat → Token → Grammar Unit
  | 0, _ => exhausted
  | n + 1, close => do
    starNamedItem n
    if (← comprehensionFollows) then comprehension n
    else restOfList n close .starNamed

/-- The inside of a dictionary or set display. -/
def braceBody : Nat → Grammar Unit
  | 0 => exhausted
  | n + 1 => do
    let isDict ← match (← peek) with
      | .dblStar => do
        skip
        comparison n
        pure true
      | .star => do
        starNamedItem n
        pure false
      | _ => do
        namedExpression n
        if (← peek) == .colon then
          skip
          expression n
          pure true
        else pure false
    if (← comprehensionFollows) then comprehension n
    else restOfList n .rBrace (if isDict then .dict else .starNamed)

/-- `key: value` or `**mapping`. -/
def dictItem : Nat → Grammar Unit
  | 0 => exhausted
  | n + 1 => do
    if (← peek) == .dblStar then
      skip
      comparison n
    else
      expression n
      expect .colon .colon
      expression n

/-- `, item` repeated, with an optional comma before `close`. -/
def restOfList : Nat → Token → ListItem → Grammar Unit
  | 0, _, _ => exhausted
  | n + 1, close, item => do
    if (← peek) != .comma then return
    skip
    if (← peek) == close then return
    match item with
    | .starNamed => starNamedItem n
    | .dict => dictItem n
    restOfList n close item

/-- `[async] for targets in iterable` with any number of `if condition`, repeated. -/
def comprehension : Nat → Grammar Unit
  | 0 => exhausted
  | n + 1 => do
    if !(← comprehensionFollows) then return
    if (← peek) == .keyword .async then skip
    expect (.keyword .for) .forKeyword
    targetList n
    expect (.keyword .in) .inKeyword
    disjunction n
    conditions n
    comprehension n

/-- `if condition`, repeated. -/
def conditions : Nat → Grammar Unit
  | 0 => exhausted
  | n + 1 => do
    if (← peek) == .keyword .if then
      skip
      disjunction n
      conditions n

/-- The arguments of a call, up to its closing parenthesis. -/
def callArguments : Nat → Grammar Unit
  | 0 => exhausted
  | n + 1 => callArgumentsFrom n true

/-- Arguments of a call; `first` when none has been read. A generator without its own
parentheses may only stand as the first argument, and ends the arguments. -/
def callArgumentsFrom : Nat → Bool → Grammar Unit
  | 0, _ => exhausted
  | n + 1, first => do
    if (← peek) == .rParen then return
    match (← peek) with
    | .star | .dblStar =>
      skip
      expression n
    | _ =>
      let start ← peekStart
      namedExpression n
      if (← peek) == .eq then
        if !Text.isIdentifier (← text start (← lastEnd)) then fail .keywordTarget
        skip
        expression n
      else if first && (← comprehensionFollows) then
        comprehension n
        return
    if (← peek) != .comma then return
    skip
    callArgumentsFrom n false

/-- The items of a subscript, with an optional comma before `]`. -/
def subscript : Nat → Grammar Unit
  | 0 => exhausted
  | n + 1 => do
    sliceItem n
    if (← peek) != .comma then return
    skip
    if (← peek) == .rBracket then return
    subscript n

/-- `x`, `*xs`, or `lower:upper:step` with every part optional. -/
def sliceItem : Nat → Grammar Unit
  | 0 => exhausted
  | n + 1 => do
    if (← peek) == .star then
      skip
      comparison n
    else
      if (← peek) != .colon then namedExpression n
      sliceBound n
      sliceBound n

/-- `:` and an optional bound, if a colon comes next. -/
def sliceBound : Nat → Grammar Unit
  | 0 => exhausted
  | n + 1 => do
    if (← peek) == .colon then
      skip
      if (← startsExpression) then expression n

/-- `yield`, `yield from expression` or `yield expressions`. -/
def yieldExpr : Nat → Grammar Unit
  | 0 => exhausted
  | n + 1 => do
    skip
    if (← peek) == .keyword .from then
      skip
      expression n
    else if (← startsExpression) then
      discard (starExpressions n)

/-- The parameters of a function (`annotated`) or of a lambda, up to `close`. -/
def parameters : Nat → Token → Bool → Grammar Unit
  | 0, _, _ => exhausted
  | n + 1, close, annotated => do
    if (← peek) == close then return
    match (← peek) with
    | .op "/" => skip
    | .star =>
      skip
      if (← peek).nameText?.isSome then parameter n annotated false
    | .dblStar =>
      skip
      parameter n annotated false
    | _ => parameter n annotated true
    if (← peek) != .comma then return
    skip
    parameters n close annotated

/-- A parameter name, its annotation if `annotated`, and its default if `default`. -/
def parameter : Nat → Bool → Bool → Grammar Unit
  | 0, _, _ => exhausted
  | n + 1, annotated, default => do
    discard (expectName .parameterName)
    if annotated && (← peek) == .colon then
      skip
      if (← peek) == .star then skip
      expression n
    if default && (← peek) == .eq then
      skip
      expression n

/-- `[T, *Ts, **P, U: bound = default]` after a definition's or alias's name. -/
def typeParams : Nat → Grammar Unit
  | 0 => exhausted
  | n + 1 => do
    skip
    typeParamList n
    expect .rBracket .closeBracket

/-- The type parameters inside the brackets. -/
def typeParamList : Nat → Grammar Unit
  | 0 => exhausted
  | n + 1 => do
    let t ← peek
    if t == .star || t == .dblStar then skip
    discard (expectName .typeParameterName)
    if (← peek) == .colon then
      skip
      expression n
    if (← peek) == .eq then
      skip
      if (← peek) == .star then skip
      expression n
    if (← peek) != .comma then return
    skip
    if (← peek) == .rBracket then return
    typeParamList n

/-- The items of `with`, in parentheses when they form a parenthesized list. -/
def withItems : Nat → Grammar Unit
  | 0 => exhausted
  | n + 1 => do
    let parenthesized := (← peek) == .lParen && withItemsGroup (← upcoming) 0 false
    if parenthesized then skip
    withItemList n parenthesized
    if parenthesized then expect .rParen .closeParen

/-- `expression [as target]`, separated by commas. -/
def withItemList : Nat → Bool → Grammar Unit
  | 0, _ => exhausted
  | n + 1, parenthesized => do
    expression n
    if (← peek) == .keyword .as then
      skip
      if (← peek) == .star then fail .invalidSyntax
      primary n
    if (← peek) != .comma then return
    skip
    if parenthesized && (← peek) == .rParen then return
    withItemList n parenthesized

/-- `except`, `except E`, `except A, B as e`, `except* E`. -/
def exceptHeader : Nat → Grammar Unit
  | 0 => exhausted
  | n + 1 => do
    if (← peek) == .star then skip
    if !(← startsExpression) then return
    expression n
    moreExpressions n
    if (← peek) == .keyword .as then
      skip
      discard (expectName .nameAfterAs)

/-- `, expression`, repeated. -/
def moreExpressions : Nat → Grammar Unit
  | 0 => exhausted
  | n + 1 => do
    if (← peek) == .comma then
      skip
      expression n
      moreExpressions n

end

end PyTune.Grammar
