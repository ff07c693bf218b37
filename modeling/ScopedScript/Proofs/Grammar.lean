/-
**The grammar of the language.**

```
program    := stmt*
stmt       := "def" NAME "(" params ")" ":" block "end"
            | "if" expr ":" block (("elsif" expr | "else") ":" block)* "end"
            | "while" expr ":" block "end"
            | "for" NAME "in" expr ":" block "end"
            | "return" [expr] | "final" NAME "=" expr | lvalue "=" expr | expr
lvalue     := NAME | postfix "[" expr "]" | "(" lvalue ")"
block      := stmt*
or         := and | or "or" and                  and        := not | and "and" not
not        := equality | "not" not               equality   := comparison | equality ("==" | …) comparison
comparison := sum | comparison ("<" | …) sum     sum        := product | sum ("+" | "-") product
product    := sign | product ("*" | …) sign      sign       := postfix | "-" sign
postfix    := primary | postfix "[" expr "]"
primary    := INT | TEXT | "True" | "False" | "None" | NAME | NAME "(" args ")" | "(" expr ")"
            | "[" items "]" | "[" ":" expr "]" | "[" expr "for" NAME "in" expr ["if" expr] "]"
            | "{" entries "}"
```

A comma may close each list of parameters, arguments, items and entries. A phrase is a relation between
the lexemes from its first one on, the lexemes that it leaves, and the tree that it gives; what it
covers stands between the two. The tree has the places of the lexemes and any numbers.

* `Grammar.Expression`: an expression of a level;
* `Grammar.Lvalue`, `Grammar.Statement`, `Grammar.Body`: what can be assigned to, statements, blocks;
* `Grammar.Expression.lvalue`: an expression that names a target can be assigned to.
-/

import ScopedScript.Proofs.Printing

namespace ScopedScript

namespace Grammar

/-- A name. -/
inductive Name : List Lexeme → List Lexeme → Ident → Prop
  | mk {name : String} {rest : List Lexeme} {place : Position} {id : NodeId} :
      Name (⟨.name name, place⟩ :: rest) rest ⟨id, name, place⟩

/-- Members with commas between them and perhaps one behind the last. -/
inductive Listed {α : Type} (member : List Lexeme → List Lexeme → α → Prop) :
    List Lexeme → List Lexeme → List α → Prop
  | nil {rest : List Lexeme} : Listed member rest rest []
  | last {input rest : List Lexeme} {item : α} : member input rest item →
      Listed member input rest [item]
  | cons {input more rest : List Lexeme} {comma : Position} {item : α} {items : List α} :
      member input (⟨.mark .comma, comma⟩ :: more) item → Listed member more rest items →
      Listed member input rest (item :: items)

/-! ### Expressions -/

mutual

/-- An expression of a level. A binary operator has its own level on the left and the next tighter one
on the right. -/
inductive Expression : Level → List Lexeme → List Lexeme → Expr → Prop
  | tighter {grade : Level} {input rest : List Lexeme} {expr : Expr} : grade ≠ .sign →
      Expression grade.tighter input rest expr → Expression grade input rest expr
  | binary {op : BinaryOp} {input more rest : List Lexeme} {place : Position} {id : NodeId}
      {left right : Expr} :
      Expression op.level input (⟨op.token, place⟩ :: more) left →
      Expression op.level.tighter more rest right →
      Expression op.level input rest (.binary ⟨id, left.position⟩ op left right)
  | unary {op : UnaryOp} {more rest : List Lexeme} {place : Position} {id : NodeId}
      {operand : Expr} :
      Expression op.level more rest operand →
      Expression op.level (⟨op.token, place⟩ :: more) rest (.unary ⟨id, place⟩ op operand)
  | plain {input rest : List Lexeme} {expr : Expr} :
      Subscripted input rest expr → Expression .sign input rest expr

/-- A primary expression with any number of subscripts behind it. -/
inductive Subscripted : List Lexeme → List Lexeme → Expr → Prop
  | primary {input rest : List Lexeme} {expr : Expr} :
      Primary input rest expr → Subscripted input rest expr
  | index {input more rest : List Lexeme} {opened closed : Position} {id : NodeId}
      {base index : Expr} :
      Subscripted input (⟨.mark .leftBracket, opened⟩ :: more) base →
      Expression .or more (⟨.mark .rightBracket, closed⟩ :: rest) index →
      Subscripted input rest (.index ⟨id, base.position⟩ base index)

/-- A literal, a name, a call, or an expression in parentheses. -/
inductive Primary : List Lexeme → List Lexeme → Expr → Prop
  | int {rest : List Lexeme} {place : Position} {id : NodeId} {value : Int64} :
      Primary (⟨.int value, place⟩ :: rest) rest (.int ⟨id, place⟩ value)
  | text {rest : List Lexeme} {place : Position} {id : NodeId} {value : String} :
      Primary (⟨.text value, place⟩ :: rest) rest (.text ⟨id, place⟩ value)
  | yes {rest : List Lexeme} {place : Position} {id : NodeId} :
      Primary (⟨.keyword .true_, place⟩ :: rest) rest (.bool ⟨id, place⟩ true)
  | no {rest : List Lexeme} {place : Position} {id : NodeId} :
      Primary (⟨.keyword .false_, place⟩ :: rest) rest (.bool ⟨id, place⟩ false)
  | none {rest : List Lexeme} {place : Position} {id : NodeId} :
      Primary (⟨.keyword .none_, place⟩ :: rest) rest (.none ⟨id, place⟩)
  | name {input rest : List Lexeme} {name : Ident} : Name input rest name →
      Primary input rest (.name ⟨name.id, name.position⟩ name.name)
  | call {input more rest : List Lexeme} {opened closed : Position} {id : NodeId}
      {callee : Ident} {args : List Expr} :
      Name input (⟨.mark .leftParen, opened⟩ :: more) callee →
      Listed (Expression .or) more (⟨.mark .rightParen, closed⟩ :: rest) args →
      Primary input rest (.call ⟨id, callee.position⟩ callee args)
  | parens {more rest : List Lexeme} {opened closed : Position} {expr : Expr} :
      Expression .or more (⟨.mark .rightParen, closed⟩ :: rest) expr →
      Primary (⟨.mark .leftParen, opened⟩ :: more) rest expr
  | array {more rest : List Lexeme} {place closed : Position} {id : NodeId} {items : List Expr} :
      Listed (Expression .or) more (⟨.mark .rightBracket, closed⟩ :: rest) items →
      Primary (⟨.mark .leftBracket, place⟩ :: more) rest (.array ⟨id, place⟩ items)
  | sized {more rest : List Lexeme} {place colon closed : Position} {id : NodeId} {size : Expr} :
      Expression .or more (⟨.mark .rightBracket, closed⟩ :: rest) size →
      Primary (⟨.mark .leftBracket, place⟩ :: ⟨.mark .colon, colon⟩ :: more) rest
        (.sized ⟨id, place⟩ size)
  | comprehension {more named over_ rest : List Lexeme} {place for_ in_ closed : Position}
      {id : NodeId} {element source : Expr} {binder : Ident} :
      Expression .or more (⟨.keyword .for_, for_⟩ :: named) element →
      Name named (⟨.keyword .in_, in_⟩ :: over_) binder →
      Expression .or over_ (⟨.mark .rightBracket, closed⟩ :: rest) source →
      Primary (⟨.mark .leftBracket, place⟩ :: more) rest
        (.comprehension ⟨id, place⟩ element binder source Option.none)
  | filtered {more named over_ test rest : List Lexeme} {place for_ in_ if_ closed : Position}
      {id : NodeId} {element source filter : Expr} {binder : Ident} :
      Expression .or more (⟨.keyword .for_, for_⟩ :: named) element →
      Name named (⟨.keyword .in_, in_⟩ :: over_) binder →
      Expression .or over_ (⟨.keyword .if_, if_⟩ :: test) source →
      Expression .or test (⟨.mark .rightBracket, closed⟩ :: rest) filter →
      Primary (⟨.mark .leftBracket, place⟩ :: more) rest
        (.comprehension ⟨id, place⟩ element binder source (some filter))
  | map {more rest : List Lexeme} {place closed : Position} {id : NodeId}
      {entries : List (Expr × Expr)} :
      Listed Entry more (⟨.mark .rightBrace, closed⟩ :: rest) entries →
      Primary (⟨.mark .leftBrace, place⟩ :: more) rest (.map ⟨id, place⟩ entries)

/-- A key and a value with a colon between them. -/
inductive Entry : List Lexeme → List Lexeme → Expr × Expr → Prop
  | mk {input more rest : List Lexeme} {colon : Position} {key value : Expr} :
      Expression .or input (⟨.mark .colon, colon⟩ :: more) key →
      Expression .or more rest value →
      Entry input rest (key, value)

end

/-! ### Statements -/

/-- What can be assigned to: a name or an element, perhaps in parentheses. -/
inductive Lvalue : List Lexeme → List Lexeme → Target → Prop
  | name {input rest : List Lexeme} {name : Ident} : Name input rest name →
      Lvalue input rest (.name name)
  | element {input more rest : List Lexeme} {opened closed : Position} {id : NodeId}
      {base index : Expr} :
      Subscripted input (⟨.mark .leftBracket, opened⟩ :: more) base →
      Expression .or more (⟨.mark .rightBracket, closed⟩ :: rest) index →
      Lvalue input rest (.element ⟨id, base.position⟩ base index)
  | parens {more rest : List Lexeme} {opened closed : Position} {goal : Target} :
      Lvalue more (⟨.mark .rightParen, closed⟩ :: rest) goal →
      Lvalue (⟨.mark .leftParen, opened⟩ :: more) rest goal

mutual

/-- A statement. It stands at its first lexeme. -/
inductive Statement : List Lexeme → List Lexeme → Stmt → Prop
  | define {named list body rest : List Lexeme} {place opened closed colon end_ : Position}
      {id : NodeId} {name : Ident} {params : List Ident} {block : Block} :
      Name named (⟨.mark .leftParen, opened⟩ :: list) name →
      Listed Name list (⟨.mark .rightParen, closed⟩ :: ⟨.mark .colon, colon⟩ :: body) params →
      Body body (⟨.keyword .end_, end_⟩ :: rest) block →
      Statement (⟨.keyword .def_, place⟩ :: named) rest (.define ⟨id, place⟩ name params block)
  | cond {test body others rest : List Lexeme} {place colon end_ : Position} {condition : Expr}
      {block : Block} {branches : List Branch} :
      Expression .or test (⟨.mark .colon, colon⟩ :: body) condition →
      Body body others block →
      Clauses others (⟨.keyword .end_, end_⟩ :: rest) branches →
      Statement (⟨.keyword .if_, place⟩ :: test) rest (.cond place condition block branches)
  | loop {test body rest : List Lexeme} {place colon end_ : Position} {condition : Expr}
      {block : Block} :
      Expression .or test (⟨.mark .colon, colon⟩ :: body) condition →
      Body body (⟨.keyword .end_, end_⟩ :: rest) block →
      Statement (⟨.keyword .while_, place⟩ :: test) rest (.loop place condition block)
  | each {named over_ body rest : List Lexeme} {place in_ colon end_ : Position} {id : NodeId}
      {binder : Ident} {source : Expr} {block : Block} :
      Name named (⟨.keyword .in_, in_⟩ :: over_) binder →
      Expression .or over_ (⟨.mark .colon, colon⟩ :: body) source →
      Body body (⟨.keyword .end_, end_⟩ :: rest) block →
      Statement (⟨.keyword .for_, place⟩ :: named) rest (.each ⟨id, place⟩ binder source block)
  | ret {rest : List Lexeme} {place : Position} :
      Statement (⟨.keyword .return_, place⟩ :: rest) rest (.ret place none)
  | give {more rest : List Lexeme} {place : Position} {value : Expr} :
      Expression .or more rest value →
      Statement (⟨.keyword .return_, place⟩ :: more) rest (.ret place (some value))
  | final {named more rest : List Lexeme} {place equals : Position} {id : NodeId} {name : Ident}
      {value : Expr} :
      Name named (⟨.mark .assign, equals⟩ :: more) name →
      Expression .or more rest value →
      Statement (⟨.keyword .final, place⟩ :: named) rest
        (.assign ⟨id, place⟩ (.name name) value true)
  | assign {first : Lexeme} {input more rest : List Lexeme} {equals : Position} {id : NodeId}
      {goal : Target} {value : Expr} :
      Lvalue (first :: input) (⟨.mark .assign, equals⟩ :: more) goal →
      Expression .or more rest value →
      Statement (first :: input) rest (.assign ⟨id, first.position⟩ goal value false)
  | expr {input rest : List Lexeme} {value : Expr} :
      Expression .or input rest value → Statement input rest (.expr value)

/-- A block stands at its first lexeme, or at the one that follows it if it is empty. -/
inductive Body : List Lexeme → List Lexeme → Block → Prop
  | mk {first : Lexeme} {input rest : List Lexeme} {id : NodeId} {stmts : List Stmt} :
      Statements (first :: input) rest stmts →
      Body (first :: input) rest (.mk ⟨id, first.position⟩ stmts)

/-- Statements in a row. -/
inductive Statements : List Lexeme → List Lexeme → List Stmt → Prop
  | nil {rest : List Lexeme} : Statements rest rest []
  | cons {input more rest : List Lexeme} {first : Stmt} {others : List Stmt} :
      Statement input more first → Statements more rest others →
      Statements input rest (first :: others)

/-- The clauses of a conditional, in any order. -/
inductive Clauses : List Lexeme → List Lexeme → List Branch → Prop
  | nil {rest : List Lexeme} : Clauses rest rest []
  | elsif {test body more rest : List Lexeme} {place colon : Position} {condition : Expr}
      {block : Block} {others : List Branch} :
      Expression .or test (⟨.mark .colon, colon⟩ :: body) condition →
      Body body more block → Clauses more rest others →
      Clauses (⟨.keyword .elsif, place⟩ :: test) rest (.mk place (some condition) block :: others)
  | otherwise {body more rest : List Lexeme} {place colon : Position} {block : Block}
      {others : List Branch} :
      Body body more block → Clauses more rest others →
      Clauses (⟨.keyword .else_, place⟩ :: ⟨.mark .colon, colon⟩ :: body) rest
        (.mk place none block :: others)

end

/-! ### What can be assigned to -/

/-- **An expression that names a target is one that can be assigned to**, in as many parentheses as it
stands in. -/
theorem Expression.lvalue {grade : Level} {input rest : List Lexeme} {expr : Expr}
    (derived : Expression grade input rest expr) :
    ∀ goal : Target, goal.expr = expr → Lvalue input rest goal := by
  -- only levels without an operator, names, subscripts and parentheses give such an expression
  refine @Expression.rec
    (fun _ input rest expr _ => ∀ goal : Target, goal.expr = expr → Lvalue input rest goal)
    (fun input rest expr _ => ∀ goal : Target, goal.expr = expr → Lvalue input rest goal)
    (fun input rest expr _ => ∀ goal : Target, goal.expr = expr → Lvalue input rest goal)
    (fun _ _ _ _ => True) (fun _ _ _ _ => True) (fun _ _ _ _ => True)
    ?tighter ?_ ?_ ?plain ?primary ?index ?_ ?_ ?_ ?_ ?_ ?name ?_ ?parens ?_ ?_ ?_ ?_ ?_
    (fun _ _ _ _ => trivial) trivial (fun _ _ => trivial) (fun _ _ _ _ => trivial) trivial
    (fun _ _ => trivial) (fun _ _ _ _ => trivial) _ _ _ _ derived
  case tighter => exact fun _ _ inner => inner
  case plain => exact fun _ inner => inner
  case primary => exact fun _ inner => inner
  case index =>
    intro input more rest opened closed id base index first second _ _ goal same
    cases goal with
    | name => cases same
    | element tag =>
      cases same
      exact .element first second
  case name =>
    intro input rest name named goal same
    cases goal with
    | name =>
      cases named
      cases same
      exact .name .mk
    | element => cases same
  case parens => exact fun _ inner goal same => .parens (inner goal same)
  all_goals
    intros
    rename_i goal same
    cases goal <;> cases same

end Grammar

end ScopedScript
