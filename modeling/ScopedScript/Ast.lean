/-
**Programs as trees.**

Every node that later passes speak of carries a `Tag`: its number and its place. Numbers are handed
out while a program is read; nothing here asks that they differ, since trees may also be built by
hand.

* `Expr`, `Stmt`, `Block`, `Program`: the tree;
* `Expr.tag`, `Block.id`: the identity of a node.
-/

import ScopedScript.Operator
import ScopedScript.Position

namespace ScopedScript

/-- The number of a node, one of 32 bits in a program of up to `2 ^ 32` nodes. -/
abbrev NodeId := Nat

structure Tag where
  id : NodeId
  position : Position
deriving DecidableEq, Repr, Inhabited

structure Ident where
  id : NodeId
  name : String
  position : Position
deriving DecidableEq, Repr, Inhabited

inductive Expr where
  | int (tag : Tag) (value : Int64)
  | bool (tag : Tag) (value : Bool)
  | text (tag : Tag) (value : String)
  | none (tag : Tag)
  | name (tag : Tag) (name : String)
  | binary (tag : Tag) (op : BinaryOp) (left right : Expr)
  | unary (tag : Tag) (op : UnaryOp) (operand : Expr)
  | index (tag : Tag) (base index : Expr)
  /-- `[a, b, c]` -/
  | array (tag : Tag) (items : List Expr)
  /-- `[:n]`, that many slots of `None` -/
  | sized (tag : Tag) (size : Expr)
  /-- A map literal, its entries in order. -/
  | map (tag : Tag) (entries : List (Expr × Expr))
  /-- `[element for binder in source if filter]` -/
  | comprehension (tag : Tag) (element : Expr) (binder : Ident) (source : Expr)
      (filter : Option Expr)
  | call (tag : Tag) (callee : Ident) (args : List Expr)
deriving Repr, Inhabited

def Expr.tag : Expr → Tag
  | .int tag _ | .bool tag _ | .text tag _ | .none tag | .name tag _ | .binary tag _ _ _
  | .unary tag _ _ | .index tag _ _ | .array tag _ | .sized tag _ | .map tag _
  | .comprehension tag _ _ _ _ | .call tag _ _ => tag

def Expr.id (expr : Expr) : NodeId := expr.tag.id

def Expr.position (expr : Expr) : Position := expr.tag.position

def Expr.line (expr : Expr) : Nat := expr.tag.position.line

/-- What an assignment stores into. -/
inductive Target where
  | name (ident : Ident)
  | element (tag : Tag) (base index : Expr)
deriving Repr, Inhabited

mutual

inductive Stmt where
  | expr (value : Expr)
  | assign (tag : Tag) (target : Target) (value : Expr) (final : Bool)
  | cond (position : Position) (condition : Expr) (body : Block) (branches : List Branch)
  | loop (position : Position) (condition : Expr) (body : Block)
  | each (tag : Tag) (binder : Ident) (source : Expr) (body : Block)
  | define (tag : Tag) (name : Ident) (params : List Ident) (body : Block)
  | ret (position : Position) (value : Option Expr)

/-- A statement list with a scope of its own. -/
inductive Block where
  | mk (tag : Tag) (stmts : List Stmt)

/-- An `elsif` clause, or an `else` clause if it has no condition. -/
inductive Branch where
  | mk (position : Position) (condition : Option Expr) (body : Block)

end

namespace Block

def tag : Block → Tag
  | .mk tag _ => tag

def id (block : Block) : NodeId := block.tag.id

def stmts : Block → List Stmt
  | .mk _ stmts => stmts

end Block

instance : Inhabited Block := ⟨.mk default []⟩

instance : Inhabited Stmt := ⟨.expr default⟩

/-- A whole program: its own number and its statements. -/
structure Program where
  id : NodeId
  body : Block
deriving Inhabited

/-- A function definition, for those who call it. -/
structure Function where
  id : NodeId
  name : Ident
  params : List Ident
  body : Block
deriving Inhabited

end ScopedScript
