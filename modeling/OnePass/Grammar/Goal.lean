import OnePass.Grammar.Action

/-!
# The grammar

A program is read from left to right against a stack of goals, each a phrase still to come or an
action still to perform. `predict` is the grammar: it says, from the goal on top and the next
token, which goals take its place, which steps are performed on the way, and whether the token is
read. One token decides, except for a lone `void` between parentheses, where the token after it
does.

    program      → #begin_program declaration* #end_program
    declaration  → type NAME ( ; | [ NUM ] ; | ( parameters ) block )
    parameters   → void | parameter (, parameter)*
    parameter    → type NAME ([ ])?
    block        → { local* statement* }
    local        → type NAME ( ; | [ NUM ] ; )
    statement    → ; | block | break ; | return expression? ; | expression ;
                 | if ( expression ) statement (else statement)?
                 | repeat statement until ( expression )
    expression   → place = expression | sum ((< | ==) sum)?
    sum          → product ((+ | -) product)*
    product      → factor (* factor)*
    factor       → ( expression ) | NUM | place | NAME ( arguments )
    place        → NAME ([ expression ])?
    arguments    → (expression (, expression)*)?

An assignment and a sum may begin with the same place; what follows the place tells them apart. -/

namespace OnePass

/-- A phrase still to be read, or a step still to be performed. -/
inductive Goal where
  /-- A symbol, at which some actions are performed. -/
  | expect (lexeme : String) (actions : List Action)
  /-- A step to perform. -/
  | perform (step : Step)
  /-- An action to perform at the token that comes next. -/
  | performHere (action : Action)
  /-- The declarations of a program, to its end. -/
  | declarations
  | typeName
  /-- The name in a declaration of a program. -/
  | globalName
  | globalRest (name : Token)
  | arraySize (name : Token)
  | parameters
  | parameterName
  | parameterRest (name : Token)
  | moreParameters
  /-- The declarations of a block. -/
  | locals
  | localName
  | localRest (name : Token)
  /-- The statements of a block, up to its closing brace. -/
  | statements
  | statement
  | elsePart
  | untilWord
  /-- What follows `return`. -/
  | returnRest (word : Token)
  | expression
  /-- What follows a name at the start of an expression. -/
  | nameRest (name : Token)
  /-- What follows a place at the start of an expression. -/
  | placeRest
  | factor
  /-- What follows a name that cannot be assigned to. -/
  | factorRest (name : Token)
  | products
  | sums
  | comparison
  /-- The end of an expression that cannot be assigned to. -/
  | noAssign
  | arguments
  | moreArguments
  deriving DecidableEq, Repr

/-- What a parse looks for where it finds something else. -/
inductive Expected where
  | symbol (lexeme : String)
  | typeSpecifier | identifier | parameterName | arraySize
  | globalRest | localRest | untilWord | expression | assignable
  deriving DecidableEq, Repr

/-- The words for what is looked for. -/
def Expected.text : Expected → String
  | .symbol lexeme => s!"'{lexeme}'"
  | .typeSpecifier => "type specifier"
  | .identifier => "identifier"
  | .parameterName => "parameter name"
  | .arraySize => "array size"
  | .globalRest => "';', '[' or '('"
  | .localRest => "';' or '['"
  | .untilWord => "'until'"
  | .expression => "expression"
  | .assignable => "an assignable expression before '='"

/-- What to do about a goal. -/
inductive Move where
  /-- Nothing can: something else has to come next. -/
  | fail (expected : Expected)
  /-- Perform some steps and put some goals in its place. -/
  | expand (steps : List Step) (goals : List Goal)
  /-- The same, and read the next token. -/
  | shift (steps : List Step) (goals : List Goal)
  deriving DecidableEq, Repr

/-- The goals for the rest of an expression after its first factor. -/
def operatorGoals : List Goal := [.products, .sums, .comparison, .noAssign]

/-- The goals for the arguments of a call and what follows them. -/
def callGoals (name : Token) : List Goal :=
  [.arguments, .expect ")" [], .perform ⟨.call, name⟩]

/-- The goals for an index and what follows it. -/
def indexGoals (name : Token) : List Goal :=
  [.expression, .expect "]" [], .perform ⟨.indexArray, name⟩]

/-- The goals for the inside of a block and its closing brace. -/
def blockGoals (actions : List Action) : List Goal :=
  [.locals, .statements, .expect "\x7d" actions]

/-- The goals for a parameter. -/
def parameterGoals : List Goal := [.typeName, .parameterName, .moreParameters]

/-- The goals for an argument. -/
def argumentGoals : List Goal := [.expression, .performHere .incrementArgCount, .moreArguments]

/-- The move for a goal, given the next token and the one after it (none at the end). Actions
    performed where a token is missing get the stop mark. -/
def predict (stop : Token) (next after : Option Token) (goal : Goal) : Move :=
  let here := next.getD stop
  let symbol (lexeme : String) : Bool := next.any (·.isSymbol lexeme)
  let keyword (lexeme : String) : Bool := next.any (·.isKeyword lexeme)
  let kind (k : TokenKind) : Bool := next.any (·.kind == k)
  let isType : Bool := keyword "int" || keyword "void"
  match goal with
  | .expect lexeme actions =>
    if symbol lexeme then .shift (actions.map (⟨·, here⟩)) [] else .fail (.symbol lexeme)
  | .perform step => .expand [step] []
  | .performHere action => .expand [⟨action, here⟩] []
  | .declarations =>
    if next.isNone then .expand [] [] else .expand [] [.typeName, .globalName, .declarations]
  | .typeName => if isType then .shift [⟨.pushType, here⟩] [] else .fail .typeSpecifier
  | .globalName =>
    if kind .id then .shift [⟨.pushName, here⟩] [.globalRest here] else .fail .identifier
  | .globalRest name =>
    if symbol ";" then .shift [⟨.declareVariable, name⟩] []
    else if symbol "[" then .shift [] [.arraySize name]
    else if symbol "(" then
      .shift [⟨.declareFunction, name⟩]
        ([.parameters, .expect ")" [], .perform ⟨.beginFunction, name⟩, .expect "\x7b" [.scopeUp]]
          ++ blockGoals [.scopeDown, .endFunction])
    else .fail .globalRest
  | .arraySize name =>
    if kind .num then
      .shift [⟨.pushNumber, here⟩] [.expect "]" [], .expect ";" [], .perform ⟨.declareArray, name⟩]
    else .fail .arraySize
  | .parameters =>
    if keyword "void" && after.any (·.isSymbol ")") then .shift [] []
    else .expand [] parameterGoals
  | .parameterName =>
    if kind .id then .shift [⟨.pushName, here⟩] [.parameterRest here] else .fail .parameterName
  | .parameterRest name =>
    if symbol "[" then .shift [] [.expect "]" [], .perform ⟨.addArrayParameter, name⟩]
    else .expand [⟨.addParameter, name⟩] []
  | .moreParameters => if symbol "," then .shift [] parameterGoals else .expand [] []
  | .locals => if isType then .expand [] [.typeName, .localName, .locals] else .expand [] []
  | .localName =>
    if kind .id then .shift [⟨.pushName, here⟩] [.localRest here] else .fail .identifier
  | .localRest name =>
    if symbol ";" then .shift [⟨.declareVariable, name⟩] []
    else if symbol "[" then .shift [] [.arraySize name]
    else .fail .localRest
  | .statements =>
    if symbol "\x7d" then .expand [] []
    else if next.isNone then .fail (.symbol "\x7d")
    else .expand [] [.statement, .statements]
  | .statement =>
    if symbol ";" then .shift [] []
    else if symbol "\x7b" then .shift [⟨.scopeUp, here⟩] (blockGoals [.scopeDown])
    else if keyword "break" then .shift [] [.expect ";" [], .perform ⟨.registerBreak, here⟩]
    else if keyword "if" then
      .shift []
        [.expect "(" [], .expression, .expect ")" [.reserveJumpSlot], .statement, .elsePart]
    else if keyword "repeat" then
      .shift [⟨.pushBreakScope, here⟩, ⟨.labelHere, here⟩]
        [.statement, .untilWord, .expect "(" [], .expression,
         .expect ")" [.jumpBackIfFalse, .closeBreakScope]]
    else if keyword "return" then .shift [] [.returnRest here]
    else .expand [] [.expression, .expect ";" [.popExpression]]
  | .elsePart =>
    if keyword "else" then
      .shift [⟨.emitCondJumpAndReserveNext, here⟩] [.statement, .performHere .patchJumpToHere]
    else .expand [⟨.patchCondJumpToHere, here⟩] []
  | .untilWord => if keyword "until" then .shift [] [] else .fail .untilWord
  | .returnRest word =>
    if symbol ";" then .shift [⟨.markReturn, word⟩] []
    else
      .expand []
        [.expression, .perform ⟨.storeReturnValue, word⟩, .expect ";" [],
         .perform ⟨.markReturn, word⟩]
  | .expression =>
    if symbol "(" then .shift [] ([.expression, .expect ")" []] ++ operatorGoals)
    else if kind .num then .shift [⟨.pushNumber, here⟩] operatorGoals
    else if kind .id then .shift [⟨.pushIdentifier, here⟩] [.nameRest here]
    else .fail .expression
  | .nameRest name =>
    if symbol "[" then .shift [] (indexGoals name ++ [.placeRest])
    else if symbol "(" then .shift [⟨.pushArgCount, here⟩] (callGoals name ++ operatorGoals)
    else .expand [] [.placeRest]
  | .placeRest =>
    if symbol "=" then .shift [] [.expression, .perform ⟨.assign, here⟩]
    else .expand [] operatorGoals
  | .factor =>
    if symbol "(" then .shift [] [.expression, .expect ")" []]
    else if kind .num then .shift [⟨.pushNumber, here⟩] []
    else if kind .id then .shift [⟨.pushIdentifier, here⟩] [.factorRest here]
    else .fail .expression
  | .factorRest name =>
    if symbol "[" then .shift [] (indexGoals name)
    else if symbol "(" then .shift [⟨.pushArgCount, here⟩] (callGoals name)
    else .expand [] []
  | .products =>
    if symbol "*" then
      .shift [⟨.pushOperator, here⟩] [.factor, .perform ⟨.computeBinary, here⟩, .products]
    else .expand [] []
  | .sums =>
    if symbol "+" || symbol "-" then
      .shift [⟨.pushOperator, here⟩] [.factor, .products, .perform ⟨.computeBinary, here⟩, .sums]
    else .expand [] []
  | .comparison =>
    if symbol "<" || symbol "==" then
      .shift [⟨.pushOperator, here⟩] [.factor, .products, .sums, .perform ⟨.computeBinary, here⟩]
    else .expand [] []
  | .noAssign => if symbol "=" then .fail .assignable else .expand [] []
  | .arguments => if symbol ")" then .expand [] [] else .expand [] argumentGoals
  | .moreArguments => if symbol "," then .shift [] argumentGoals else .expand [] []

/-! ### Moves that read nothing come to an end -/

/-- A goal may be met without reading a token. -/
def Goal.nullable : Goal → Bool
  | .perform _ | .performHere _ | .declarations | .parameterRest _ | .moreParameters | .locals
  | .statements | .elsePart | .nameRest _ | .placeRest | .factorRest _ | .products | .sums
  | .comparison | .noAssign | .arguments | .moreArguments => true
  | _ => false

/-- A bound on the moves made for a goal before one of them reads a token. -/
def Goal.rank : Goal → Nat
  | .expect _ _ | .typeName | .globalName | .globalRest _ | .arraySize _ | .parameterName
  | .localName | .localRest _ | .untilWord | .expression | .factor => 0
  | .statements => 2
  | .placeRest => 5
  | .nameRest _ => 6
  | _ => 1

/-- A bound on the moves made for some goals before one of them reads a token. -/
def potential : List Goal → Nat
  | [] => 0
  | goal :: goals => goal.rank + if goal.nullable then potential goals else 0

/-- A move that reads nothing lowers the potential. -/
theorem potential_lt_of_expand {stop : Token} {next after : Option Token} {goal : Goal}
    {steps : List Step} {new : List Goal} (h : predict stop next after goal = .expand steps new)
    (goals : List Goal) : potential (new ++ goals) < potential (goal :: goals) := by
  cases goal <;> simp only [predict] at h <;> (repeat' split at h) <;>
    simp only [Move.expand.injEq, reduceCtorEq] at h <;> obtain ⟨-, rfl⟩ := h <;>
    simp [potential, Goal.rank, Goal.nullable, parameterGoals, argumentGoals, operatorGoals] <;>
    omega

/-- At the end of the text no move reads a token. -/
theorem predict_end_ne_shift {stop : Token} {after : Option Token} {goal : Goal}
    {steps : List Step} {new : List Goal} :
    predict stop none after goal ≠ .shift steps new := by
  cases goal <;> simp [predict]

end OnePass
