/-
**Programs as tokens.**

A tree is written down by the grammar. Operators bind by levels and group to the left, so an operand is
enclosed in parentheses exactly where it binds looser than its place asks:

* `Level.strength`, `Expr.strength`: how tightly a level and an expression bind;
* `Expr.tokens`, `Stmt.tokens`, `Program.tokens`: trees as tokens;
* `Expr.bare`, `Stmt.bare`, `Program.bare`: trees without numbers and places;
* `Block.printable`: statements that stay apart when written in a row;
* `Token.grip`: how tightly a token takes hold of the expression before it;
* `Expr.opens`, `Stmt.opens`: the first token of an expression and of a statement.
-/

import ScopedScript.Ast.Parse

namespace ScopedScript

/-! ### How tightly expressions bind -/

/-- How tightly a level binds. -/
def Level.strength : Level → Nat
  | .or => 0
  | .and => 1
  | .not => 2
  | .equality => 3
  | .comparison => 4
  | .sum => 5
  | .product => 6
  | .sign => 7

/-- The level of a binary operator. -/
def BinaryOp.level : BinaryOp → Level
  | .or => .or
  | .and => .and
  | .eq | .notEq => .equality
  | .lt | .le | .gt | .ge => .comparison
  | .add | .sub => .sum
  | .mul | .div | .mod => .product

/-- The token of a binary operator. -/
def BinaryOp.token : BinaryOp → Token
  | .or => .keyword .or_
  | .and => .keyword .and_
  | .eq => .mark .equal
  | .notEq => .mark .notEqual
  | .lt => .mark .less
  | .le => .mark .lessEqual
  | .gt => .mark .greater
  | .ge => .mark .greaterEqual
  | .add => .mark .plus
  | .sub => .mark .minus
  | .mul => .mark .star
  | .div => .mark .slash
  | .mod => .mark .percent

/-- The level of a unary operator. -/
def UnaryOp.level : UnaryOp → Level
  | .not => .not
  | .neg => .sign

/-- The token of a unary operator. -/
def UnaryOp.token : UnaryOp → Token
  | .not => .keyword .not_
  | .neg => .mark .minus

/-- How tightly a subscript binds, and all that has no operator of its own. -/
def subscriptStrength : Nat := 8

/-- How tightly an expression binds. -/
def Expr.strength : Expr → Nat
  | .binary _ op _ _ => op.level.strength
  | .unary _ op _ => op.level.strength
  | _ => subscriptStrength

/-! ### Expressions as tokens -/

/-- An operand in its place: in parentheses if it binds looser than the place asks. -/
def operand (asked strength : Nat) (tokens : List Token) : List Token :=
  if strength < asked then .mark .leftParen :: (tokens ++ [.mark .rightParen]) else tokens

/-- The further members of a list, each behind a comma. -/
def further (members : List (List Token)) : List Token := members.flatMap (.mark .comma :: ·)

/-- The members of a list with commas between them. -/
def listed : List (List Token) → List Token
  | [] => []
  | first :: rest => first ++ further rest

theorem further_cons (first : List Token) (rest : List (List Token)) :
    further (first :: rest) = .mark .comma :: listed (first :: rest) := rfl

/-- Behind a member of a list comes a comma or what closes the list. -/
theorem further_next (members : List (List Token)) (close : Token) (after : List Token) :
    ∃ next more, further members ++ close :: after = next :: more ∧
      (next = .mark .comma ∨ next = close) := by
  cases members with
  | nil => exact ⟨close, after, rfl, .inr rfl⟩
  | cons first rest => exact ⟨.mark .comma, _, rfl, .inl rfl⟩

mutual

/-- The tokens of an expression. -/
def Expr.tokens : Expr → List Token
  | .int _ value => [.int value]
  | .bool _ value => [.keyword (if value then .true_ else .false_)]
  | .text _ value => [.text value]
  | .none _ => [.keyword .none_]
  | .name _ name => [.name name]
  | .binary _ op left right =>
    -- operators of one level group to the left
    operand op.level.strength left.strength left.tokens ++
      op.token :: operand (op.level.strength + 1) right.strength right.tokens
  | .unary _ op inner => op.token :: operand op.level.strength inner.strength inner.tokens
  | .index _ base index =>
    operand subscriptStrength base.strength base.tokens ++
      .mark .leftBracket :: (index.tokens ++ [.mark .rightBracket])
  | .array _ items => .mark .leftBracket :: (listed (exprsTokens items) ++ [.mark .rightBracket])
  | .sized _ size =>
    .mark .leftBracket :: .mark .colon :: (size.tokens ++ [.mark .rightBracket])
  | .map _ entries => .mark .leftBrace :: (listed (entriesTokens entries) ++ [.mark .rightBrace])
  | .comprehension _ element binder source filter =>
    .mark .leftBracket :: (element.tokens ++ .keyword .for_ :: .name binder.name :: .keyword .in_ ::
      (source.tokens ++ (filterTokens filter ++ [.mark .rightBracket])))
  | .call _ callee args =>
    .name callee.name :: .mark .leftParen :: (listed (exprsTokens args) ++ [.mark .rightParen])

def exprsTokens : List Expr → List (List Token)
  | [] => []
  | first :: rest => first.tokens :: exprsTokens rest

def entriesTokens : List (Expr × Expr) → List (List Token)
  | [] => []
  | (key, value) :: rest => (key.tokens ++ .mark .colon :: value.tokens) :: entriesTokens rest

def filterTokens : Option Expr → List Token
  | none => []
  | some condition => .keyword .if_ :: condition.tokens

end

/-- The tokens of an expression where a place asks for a strength. -/
def Expr.within (asked : Nat) (expr : Expr) : List Token := operand asked expr.strength expr.tokens

/-! ### Statements as tokens -/

/-- A target as the expression that it looks like. -/
def Target.expr : Target → Expr
  | .name ident => .name ⟨ident.id, ident.position⟩ ident.name
  | .element tag base index => .index tag base index

/-- The tokens of a value that may be absent. -/
def valueTokens : Option Expr → List Token
  | none => []
  | some value => value.tokens

mutual

/-- The tokens of a statement. -/
def Stmt.tokens : Stmt → List Token
  | .expr value => value.tokens
  | .assign _ target value false => target.expr.tokens ++ .mark .assign :: value.tokens
  | .assign _ target value true =>
    .keyword .final :: (target.expr.tokens ++ .mark .assign :: value.tokens)
  | .cond _ condition body branches =>
    .keyword .if_ :: (condition.tokens ++ .mark .colon ::
      (body.tokens ++ (branchesTokens branches ++ [.keyword .end_])))
  | .loop _ condition body =>
    .keyword .while_ :: (condition.tokens ++ .mark .colon :: (body.tokens ++ [.keyword .end_]))
  | .each _ binder source body =>
    .keyword .for_ :: .name binder.name :: .keyword .in_ ::
      (source.tokens ++ .mark .colon :: (body.tokens ++ [.keyword .end_]))
  | .define _ name params body =>
    .keyword .def_ :: .name name.name :: .mark .leftParen ::
      (listed (params.map fun param => [.name param.name]) ++
        .mark .rightParen :: .mark .colon :: (body.tokens ++ [.keyword .end_]))
  | .ret _ value => .keyword .return_ :: valueTokens value

def Block.tokens : Block → List Token
  | .mk _ stmts => stmtsTokens stmts

def stmtsTokens : List Stmt → List Token
  | [] => []
  | first :: rest => first.tokens ++ stmtsTokens rest

def branchesTokens : List Branch → List Token
  | [] => []
  | .mk _ (some condition) body :: rest =>
    .keyword .elsif :: (condition.tokens ++ .mark .colon :: (body.tokens ++ branchesTokens rest))
  | .mk _ none body :: rest =>
    .keyword .else_ :: .mark .colon :: (body.tokens ++ branchesTokens rest)

end

/-- The tokens of a program, without the end of the text. -/
def Program.tokens (program : Program) : List Token := program.body.tokens

/-! ### Trees without numbers and places -/

/-- A name without its number and place. -/
def Ident.bare (ident : Ident) : Ident := ⟨0, ident.name, default⟩

mutual

/-- An expression without numbers and places. -/
def Expr.bare : Expr → Expr
  | .int _ value => .int default value
  | .bool _ value => .bool default value
  | .text _ value => .text default value
  | .none _ => .none default
  | .name _ name => .name default name
  | .binary _ op left right => .binary default op left.bare right.bare
  | .unary _ op inner => .unary default op inner.bare
  | .index _ base index => .index default base.bare index.bare
  | .array _ items => .array default (exprsBare items)
  | .sized _ size => .sized default size.bare
  | .map _ entries => .map default (entriesBare entries)
  | .comprehension _ element binder source filter =>
    .comprehension default element.bare binder.bare source.bare (optionBare filter)
  | .call _ callee args => .call default callee.bare (exprsBare args)

def exprsBare : List Expr → List Expr
  | [] => []
  | first :: rest => first.bare :: exprsBare rest

def entriesBare : List (Expr × Expr) → List (Expr × Expr)
  | [] => []
  | (key, value) :: rest => (key.bare, value.bare) :: entriesBare rest

def optionBare : Option Expr → Option Expr
  | none => none
  | some expr => some expr.bare

end

/-- A target without numbers and places. -/
def Target.bare : Target → Target
  | .name ident => .name ident.bare
  | .element _ base index => .element default base.bare index.bare

mutual

/-- A statement without numbers and places. -/
def Stmt.bare : Stmt → Stmt
  | .expr value => .expr value.bare
  | .assign _ target value final => .assign default target.bare value.bare final
  | .cond _ condition body branches =>
    .cond default condition.bare body.bare (branchesBare branches)
  | .loop _ condition body => .loop default condition.bare body.bare
  | .each _ binder source body => .each default binder.bare source.bare body.bare
  | .define _ name params body => .define default name.bare (params.map Ident.bare) body.bare
  | .ret _ value => .ret default (optionBare value)

def Block.bare : Block → Block
  | .mk _ stmts => .mk default (stmtsBare stmts)

def stmtsBare : List Stmt → List Stmt
  | [] => []
  | first :: rest => first.bare :: stmtsBare rest

def branchesBare : List Branch → List Branch
  | [] => []
  | .mk _ condition body :: rest =>
    .mk default (optionBare condition) body.bare :: branchesBare rest

end

/-- A program without numbers and places. -/
def Program.bare (program : Program) : Program := ⟨0, program.body.bare⟩

/-! ### Statements that stay apart -/

/-- Tokens that would go on with an expression before them, though a statement can begin with them. -/
def Token.goesOn : Token → Bool
  | .mark .leftParen | .mark .leftBracket | .mark .minus => true
  | _ => false

/-- A statement that begins with a parenthesis, a bracket or a minus sign. -/
def Stmt.goesOn (stmt : Stmt) : Bool := stmt.tokens.head?.any Token.goesOn

/-- A statement that begins as an expression does. -/
def Stmt.startsExpr (stmt : Stmt) : Bool := stmt.tokens.head?.any Token.startsExpr

/-- `return` without a value. -/
def Stmt.isBareReturn : Stmt → Bool
  | .ret _ none => true
  | _ => false

/-- Whether a target is a name. -/
def Target.isName : Target → Bool
  | .name _ => true
  | .element _ _ _ => false

mutual

/-- Only names are final in a statement, and the statements inside it stay apart. -/
def Stmt.printable : Stmt → Bool
  | .expr _ | .ret _ _ => true
  | .assign _ target _ final => !final || target.isName
  | .cond _ _ body branches => body.printable && branchesPrintable branches
  | .loop _ _ body | .each _ _ _ body | .define _ _ _ body => body.printable

def Block.printable : Block → Bool
  | .mk _ stmts => stmtsPrintable stmts

/-- No statement begins with a token that goes on with the one before, and none that begins as an
expression does stands right behind a `return` without a value. -/
def stmtsPrintable : List Stmt → Bool
  | [] => true
  | first :: rest =>
    first.printable && !first.goesOn && !(first.isBareReturn && rest.head?.any Stmt.startsExpr) &&
      stmtsPrintable rest

def branchesPrintable : List Branch → Bool
  | [] => true
  | .mk _ _ body :: rest => body.printable && branchesPrintable rest

end

/-! ### What comes behind an expression -/

/-- How tightly a token takes hold of the expression before it: one more than the strength of the
operator or subscript that it begins, and nothing if it cannot go on with an expression. -/
def Token.grip : Token → Nat
  | .keyword .or_ => 1
  | .keyword .and_ => 2
  | .mark .equal | .mark .notEqual => 4
  | .mark .less | .mark .lessEqual | .mark .greater | .mark .greaterEqual => 5
  | .mark .plus | .mark .minus => 6
  | .mark .star | .mark .slash | .mark .percent => 7
  | .mark .leftBracket => 9
  | .mark .leftParen => 10
  | _ => 0

theorem Level.strength_tighter {grade : Level} (inner : grade ≠ .sign) :
    grade.tighter.strength = grade.strength + 1 := by
  cases grade with
  | sign => exact absurd rfl inner
  | _ => rfl

theorem Level.strength_le (grade : Level) : grade.strength ≤ Level.sign.strength := by
  cases grade <;> decide

theorem Level.strength_injective {grade grade' : Level} (same : grade.strength = grade'.strength) :
    grade = grade' := by
  revert same
  cases grade <;> cases grade' <;> decide

theorem BinaryOp.grip_token (op : BinaryOp) : op.token.grip = op.level.strength + 1 := by
  cases op <;> rfl

theorem BinaryOp.operator?_token (op : BinaryOp) : op.level.operator? op.token = some op := by
  cases op <;> rfl

theorem BinaryOp.level_ne_not (op : BinaryOp) : op.level ≠ .not := by
  cases op <;> decide

theorem BinaryOp.level_ne_sign (op : BinaryOp) : op.level ≠ .sign := by
  cases op <;> decide

/-- The operators of a level grip one more than the level binds. -/
theorem Level.grip_of_operator? {grade : Level} {token : Token} {op : BinaryOp}
    (found : grade.operator? token = some op) : token.grip = grade.strength + 1 := by
  unfold Level.operator? at found
  split at found
  any_goals rfl
  cases found

/-- What comes behind an expression does not take hold of it at a strength. -/
def Stops (asked : Nat) (after : List Token) : Prop := ∀ next ∈ after.head?, next.grip ≤ asked

theorem Stops.mono {asked asked' : Nat} {after : List Token} (stops : Stops asked after)
    (less : asked ≤ asked') : Stops asked' after :=
  fun next first => Nat.le_trans (stops next first) less

theorem Stops.cons {asked : Nat} {next : Token} (after : List Token) (loose : next.grip ≤ asked) :
    Stops asked (next :: after) := by
  intro found first
  cases first
  exact loose

/-! ### How expressions and statements begin -/

/-- Tokens begin as an expression that binds this tightly can. -/
structure Opens (strength : Nat) (tokens : List Token) : Prop where
  starts : ∃ first rest, tokens = first :: rest ∧ first.startsExpr = true
  of_not : tokens.head? = some (.keyword .not_) → strength ≤ Level.not.strength
  of_minus : tokens.head? = some (.mark .minus) → strength ≤ Level.sign.strength

namespace Opens

variable {asked strength : Nat} {tokens : List Token}

theorem mono (opens : Opens strength tokens) (less : asked ≤ strength) : Opens asked tokens where
  starts := opens.starts
  of_not first := Nat.le_trans less (opens.of_not first)
  of_minus first := Nat.le_trans less (opens.of_minus first)

theorem append (opens : Opens strength tokens) (more : List Token) :
    Opens strength (tokens ++ more) := by
  obtain ⟨first, rest, rfl, starts⟩ := opens.starts
  exact ⟨⟨first, rest ++ more, rfl, starts⟩, opens.of_not, opens.of_minus⟩

/-- A first token that is neither `not` nor a minus sign. -/
theorem of_first {first : Token} {rest : List Token} (starts : first.startsExpr = true)
    (positive : first ≠ .keyword .not_) (unsigned : first ≠ .mark .minus) :
    Opens strength (first :: rest) where
  starts := ⟨first, rest, rfl, starts⟩
  of_not same := absurd (Option.some.inj same) positive
  of_minus same := absurd (Option.some.inj same) unsigned

/-- In its place an operand begins as tightly as asked. -/
theorem operand (opens : Opens strength tokens) : Opens asked (operand asked strength tokens) := by
  unfold ScopedScript.operand
  split
  · exact of_first rfl (by decide) (by decide)
  · exact opens.mono (by omega)

theorem length_pos (opens : Opens strength tokens) : 0 < tokens.length := by
  obtain ⟨first, rest, rfl, -⟩ := opens.starts
  exact Nat.succ_pos _

end Opens

/-- **An expression begins with a token that can open one,** and with a sign only if it binds no
tighter than the sign. -/
theorem Expr.opens (expr : Expr) : Opens expr.strength expr.tokens := by
  cases expr with
  | binary tag op left right => exact (left.opens.operand).append _
  | unary tag op inner =>
    cases op with
    | not => exact ⟨⟨_, _, rfl, rfl⟩, fun _ => Nat.le_refl _, nofun⟩
    | neg => exact ⟨⟨_, _, rfl, rfl⟩, nofun, fun _ => Nat.le_refl _⟩
  | index tag base index => exact (base.opens.operand).append _
  | bool tag value => cases value <;> exact .of_first rfl (by decide) (by decide)
  | _ => exact .of_first rfl nofun nofun

/-- A token that can begin a statement. -/
def Token.startsStmt (token : Token) : Bool := token.opensStatement || token.startsExpr

/-- **A statement begins with a word of its own or as an expression does.** -/
theorem Stmt.opens (stmt : Stmt) :
    ∃ first rest, stmt.tokens = first :: rest ∧ first.startsStmt = true := by
  have expression : ∀ (expr : Expr) (more : List Token),
      ∃ first rest, expr.tokens ++ more = first :: rest ∧ first.startsStmt = true := by
    intro expr more
    obtain ⟨first, rest, same, starts⟩ := expr.opens.starts
    exact ⟨first, rest ++ more, by rw [same]; rfl, by rw [Token.startsStmt, starts, Bool.or_true]⟩
  cases stmt with
  | expr value => simpa [Stmt.tokens] using expression value []
  | assign tag target value final =>
    cases final with
    | false => exact expression target.expr _
    | true => exact ⟨_, _, rfl, rfl⟩
  | _ => exact ⟨_, _, rfl, rfl⟩

/-- A token that begins a statement and does not go on with the one before. -/
theorem Token.grip_of_startsStmt {token : Token} (starts : token.startsStmt = true)
    (apart : token.goesOn = false) :
    token.grip = 0 ∧ token ≠ .mark .assign ∧ token.endsBlock = false := by
  cases token with
  | keyword word | mark word =>
    revert starts apart
    cases word <;> decide
  | eof => cases starts
  | _ => exact ⟨rfl, nofun, rfl⟩

end ScopedScript
