/-
**From tokens to a tree.**

Reading is by recursive descent over a `Cursor`: the tokens still to read and the next free node
number. Every function takes a bound on the depth of the descent; `Program.parse` gives one that the
length of the text never exhausts. The grammar is written once for all kinds of steps that can descend,
and `Parse` is the kind that programs are read with.

* `Descends`: what steps have to offer, among it what becomes of one whose depth is used up;
* `Level`: the levels of binding, from `or` (loosest) to the sign (tightest);
* `Parse.level`: an expression of a level, left-associative where the level has operators;
* `Parse.stmt`, `Parse.block`: statements;
* `Program.parse`: the whole program, or the mistakes in it. After a mistake reading goes on at the
  next word that opens a statement.
-/

import ScopedScript.Ast
import ScopedScript.Diagnostic

namespace ScopedScript

/-! ### The cursor -/

/-- The tokens still to read and the next free node number. -/
structure Cursor where
  rest : List Lexeme
  nextId : NodeId
deriving DecidableEq, Repr

namespace Cursor

/-- The token to read next; there is always one, since the last token is never passed. -/
def current (cursor : Cursor) : Lexeme := cursor.rest.headD ⟨.eof, .start⟩

/-- Passes a token, unless it is the last one. -/
def pass : List Lexeme → List Lexeme
  | _ :: second :: rest => second :: rest
  | rest => rest

def advance (cursor : Cursor) : Cursor := { cursor with rest := pass cursor.rest }

/-- Skips to the next word that opens a statement, or to the end. -/
def skip : List Lexeme → List Lexeme
  | [] => []
  | [last] => [last]
  | lexeme :: rest =>
    if lexeme.token = .eof || lexeme.token.opensStatement then lexeme :: rest else skip rest

def recover (cursor : Cursor) : Cursor := { cursor with rest := skip cursor.rest }

end Cursor

/-- Steps that can read by descent: they take the lexeme to read next, pass it, take a node number
that was not used before, make a mistake, and end if their depth is used up. -/
class Descends (step : Type → Type) where
  lexeme : step Lexeme
  advance : step Unit
  freshId : step NodeId
  raise {α : Type} : Diagnostic → step α
  /-- The depth is used up where something was wanted. -/
  exhausted {α : Type} : (Token → Problem) → step α

/-- A reading step: it moves the cursor and gives a result or a mistake. -/
abbrev Parse := EStateM Diagnostic Cursor

/-- Where the depth is used up, there is a mistake like any other. -/
instance : Descends Parse where
  lexeme := do return (← get).current
  advance := modify Cursor.advance
  freshId := modifyGet fun cursor => (cursor.nextId, { cursor with nextId := cursor.nextId + 1 })
  raise := throw
  exhausted wanted := do
    let found := (← get).current
    throw ⟨wanted found.token, found.position⟩

namespace Parse

export Descends (lexeme advance freshId raise exhausted)

variable {step : Type → Type} [Monad step] [Descends step]

def token : step Token := do return (← lexeme).token

def position : step Position := do return (← lexeme).position

def freshTag (position : Position) : step Tag := do return ⟨← freshId, position⟩

/-- A mistake at the token to read next. -/
def mistake {α : Type} (problem : Token → Problem) : step α := do
  raise ⟨problem (← token), ← position⟩

/-- Passes the token if it is next, and says whether it was. -/
def accept (wanted : Token) : step Bool := do
  if (← token) = wanted then
    advance
    return true
  return false

def expect (wanted : Token) : step Unit := do
  if (← token) = wanted then advance else mistake (.expectedToken wanted)

def ident : step Ident := do
  let place ← position
  match ← token with
  | .name name =>
    advance
    return ⟨← freshId, name, place⟩
  | _ => mistake .expectedName

end Parse

/-! ### Levels of binding -/

inductive Level where
  | or | and | not | equality | comparison | sum | product | sign
deriving DecidableEq, Repr

namespace Level

/-- The next tighter level; nothing that has operators binds tighter than the sign. -/
def tighter : Level → Level
  | .or => .and
  | .and => .not
  | .not => .equality
  | .equality => .comparison
  | .comparison => .sum
  | .sum => .product
  | .product => .sign
  | .sign => .sign

/-- The binary operator of this level that a token stands for. -/
def operator? : Level → Token → Option BinaryOp
  | .or, .keyword .or_ => some .or
  | .and, .keyword .and_ => some .and
  | .equality, .mark .equal => some .eq
  | .equality, .mark .notEqual => some .notEq
  | .comparison, .mark .less => some .lt
  | .comparison, .mark .lessEqual => some .le
  | .comparison, .mark .greater => some .gt
  | .comparison, .mark .greaterEqual => some .ge
  | .sum, .mark .plus => some .add
  | .sum, .mark .minus => some .sub
  | .product, .mark .star => some .mul
  | .product, .mark .slash => some .div
  | .product, .mark .percent => some .mod
  | _, _ => none

end Level

namespace Parse

variable {step : Type → Type} [Monad step] [Descends step]

/-! ### Expressions -/

mutual

def level : Nat → Level → step Expr
  | 0, _ => exhausted .expectedExpr
  | depth + 1, .not => do
    let place ← position
    if ← accept (.keyword .not_) then
      let operand ← level depth .not
      return .unary (← freshTag place) .not operand
    level depth .equality
  | depth + 1, .sign => do
    let place ← position
    if ← accept (.mark .minus) then
      let operand ← level depth .sign
      return .unary (← freshTag place) .neg operand
    let base ← primary depth
    subscripts depth base
  | depth + 1, grade => do
    let left ← level depth grade.tighter
    chain depth grade left

/-- The operators of a level that follow an operand, grouped to the left. -/
def chain : Nat → Level → Expr → step Expr
  | 0, _, _ => exhausted .expectedExpr
  | depth + 1, grade, left => do
    match grade.operator? (← token) with
    | none => return left
    | some op =>
      advance
      let right ← level depth grade.tighter
      chain depth grade (.binary (← freshTag left.position) op left right)

def subscripts : Nat → Expr → step Expr
  | 0, _ => exhausted .expectedExpr
  | depth + 1, base => do
    if ← accept (.mark .leftBracket) then
      let index ← level depth .or
      expect (.mark .rightBracket)
      subscripts depth (.index (← freshTag base.position) base index)
    else return base

/-- A literal, a name, a call, or an expression in parentheses. -/
def primary : Nat → step Expr
  | 0 => exhausted .expectedExpr
  | depth + 1 => do
    let place ← position
    match ← token with
    | .int value => do advance; return .int (← freshTag place) value
    | .text value => do advance; return .text (← freshTag place) value
    | .keyword .true_ => do advance; return .bool (← freshTag place) true
    | .keyword .false_ => do advance; return .bool (← freshTag place) false
    | .keyword .none_ => do advance; return .none (← freshTag place)
    | .mark .leftParen => do
      advance
      let inner ← level depth .or
      expect (.mark .rightParen)
      return inner
    | .mark .leftBracket => do
      advance
      array depth place
    | .mark .leftBrace => do
      advance
      let found ← entries depth
      expect (.mark .rightBrace)
      return .map (← freshTag place) found
    | .name _ => do
      let callee ← ident
      if ← accept (.mark .leftParen) then
        let args ← arguments depth
        expect (.mark .rightParen)
        return .call (← freshTag callee.position) callee args
      return .name ⟨callee.id, callee.position⟩ callee.name
    | _ => mistake .expectedExpr

/-- What follows an opening bracket: items, a size, or a comprehension. -/
def array : Nat → Position → step Expr
  | 0, _ => exhausted .expectedExpr
  | depth + 1, place => do
    if ← accept (.mark .rightBracket) then
      return .array (← freshTag place) []
    if ← accept (.mark .colon) then
      let size ← level depth .or
      expect (.mark .rightBracket)
      return .sized (← freshTag place) size
    let first ← level depth .or
    if ← accept (.keyword .for_) then
      let binder ← ident
      expect (.keyword .in_)
      let source ← level depth .or
      let filter ← (do
        if ← accept (.keyword .if_) then return some (← level depth .or)
        return none : step (Option Expr))
      expect (.mark .rightBracket)
      return .comprehension (← freshTag place) first binder source filter
    let others ← items depth
    expect (.mark .rightBracket)
    return .array (← freshTag place) (first :: others)

/-- The further items of an array literal; a comma may close the list. -/
def items : Nat → step (List Expr)
  | 0 => exhausted .expectedExpr
  | depth + 1 => do
    if ← accept (.mark .comma) then
      if (← token) = .mark .rightBracket then return []
      let item ← level depth .or
      return item :: (← items depth)
    return []

/-- The entries of a map literal; a comma may close the list. -/
def entries : Nat → step (List (Expr × Expr))
  | 0 => exhausted .expectedExpr
  | depth + 1 => do
    if (← token) = .mark .rightBrace || (← token) = .eof then return []
    let key ← level depth .or
    expect (.mark .colon)
    let value ← level depth .or
    if ← accept (.mark .comma) then
      return (key, value) :: (← entries depth)
    return [(key, value)]

/-- The arguments of a call; a comma may close the list. -/
def arguments : Nat → step (List Expr)
  | 0 => exhausted .expectedExpr
  | depth + 1 => do
    if (← token) = .mark .rightParen || (← token) = .eof then return []
    let argument ← level depth .or
    if ← accept (.mark .comma) then
      return argument :: (← arguments depth)
    return [argument]

end

def expr (depth : Nat) : step Expr := level depth .or

/-! ### Statements -/

/-- The parameters of a definition; a comma may close the list. -/
def parameters : Nat → step (List Ident)
  | 0 => exhausted .expectedName
  | depth + 1 => do
    if (← token) = .mark .rightParen || (← token) = .eof then return []
    let parameter ← ident
    if ← accept (.mark .comma) then
      return parameter :: (← parameters depth)
    return [parameter]

/-- The target that an expression before an equals sign names. -/
def target : Expr → step Target
  | .name tag name => return .name ⟨tag.id, name, tag.position⟩
  | .index tag base index => return .element tag base index
  | _ => mistake fun _ => .badTarget

/-- `return`, with a value if an expression can start behind it. -/
def returnStmt (depth : Nat) : step Stmt := do
  let place ← position
  expect (.keyword .return_)
  if (← token).startsExpr then return .ret place (some (← expr depth))
  return .ret place none

def finalStmt (depth : Nat) : step Stmt := do
  let place ← position
  expect (.keyword .final)
  let name ← ident
  expect (.mark .assign)
  let value ← expr depth
  return .assign (← freshTag place) (.name name) value true

/-- An assignment if an equals sign follows the expression, else the expression. -/
def assignOrExpr (depth : Nat) : step Stmt := do
  let place ← position
  let left ← expr depth
  if (← token) = .mark .assign then
    let goal ← target left
    advance
    let value ← expr depth
    return .assign (← freshTag place) goal value false
  return .expr left

mutual

def stmt : Nat → step Stmt
  | 0 => exhausted .expectedExpr
  | depth + 1 => do
    let place ← position
    match ← token with
    | .keyword .def_ => do
      advance
      let id ← freshId
      let name ← ident
      expect (.mark .leftParen)
      let params ← parameters depth
      expect (.mark .rightParen)
      expect (.mark .colon)
      let body ← block depth
      expect (.keyword .end_)
      return .define ⟨id, place⟩ name params body
    | .keyword .if_ => do
      advance
      let condition ← expr depth
      expect (.mark .colon)
      let body ← block depth
      let others ← branches depth
      expect (.keyword .end_)
      return .cond place condition body others
    | .keyword .while_ => do
      advance
      let condition ← expr depth
      expect (.mark .colon)
      let body ← block depth
      expect (.keyword .end_)
      return .loop place condition body
    | .keyword .for_ => do
      advance
      let id ← freshId
      let binder ← ident
      expect (.keyword .in_)
      let source ← expr depth
      expect (.mark .colon)
      let body ← block depth
      expect (.keyword .end_)
      return .each ⟨id, place⟩ binder source body
    | .keyword .return_ => returnStmt depth
    | .keyword .final => finalStmt depth
    | _ => assignOrExpr depth

/-- A block: statements up to a token that closes it. -/
def block : Nat → step Block
  | 0 => exhausted .expectedExpr
  | depth + 1 => do
    let id ← freshId
    let place ← position
    return .mk ⟨id, place⟩ (← stmts depth)

/-- Statements up to a token that closes the list. -/
def stmts : Nat → step (List Stmt)
  | 0 => exhausted .expectedExpr
  | depth + 1 => do
    if (← token).endsBlock then return []
    let first ← stmt depth
    return first :: (← stmts depth)

/-- The `elsif` and `else` clauses, in any order. -/
def branches : Nat → step (List Branch)
  | 0 => exhausted .expectedExpr
  | depth + 1 => do
    let place ← position
    match ← token with
    | .keyword .elsif => do
      advance
      let condition ← expr depth
      expect (.mark .colon)
      let body ← block depth
      return .mk place (some condition) body :: (← branches depth)
    | .keyword .else_ => do
      advance
      expect (.mark .colon)
      let body ← block depth
      return .mk place none body :: (← branches depth)
    | _ => return []

end

/-- The statements of a program and the mistakes in it, each in order. After a mistake, and if a
statement took no token, at least one token is passed. -/
def topLevel (depth : Nat) : Nat → Cursor → List Stmt × List Diagnostic
  | 0, _ => ([], [])
  | count + 1, cursor =>
    if cursor.current.token = .eof then ([], [])
    else
      let progress (next : Cursor) : Cursor :=
        if next.rest.length = cursor.rest.length then next.advance else next
      match (stmt depth : Parse Stmt).run cursor with
      | .ok first next =>
        let (rest, mistakes) := topLevel depth count (progress next)
        (first :: rest, mistakes)
      | .error diagnostic next =>
        let (rest, mistakes) := topLevel depth count (progress next.recover)
        (rest, diagnostic :: mistakes)

end Parse

/-- How deep the descent into a text of this many tokens can go. -/
def Program.parseDepth (count : Nat) : Nat := 16 * (count + 1)

/-- The tree of a token list, or the mistakes in it. -/
def Program.parse (lexemes : List Lexeme) : Except (List Diagnostic) Program :=
  let start : Cursor := ⟨lexemes, 2⟩
  let (stmts, mistakes) :=
    Parse.topLevel (parseDepth lexemes.length) lexemes.length start
  if mistakes.isEmpty then .ok ⟨0, .mk ⟨1, start.current.position⟩ stmts⟩ else .error mistakes

end ScopedScript
