/-
**Configurations of the machine.**

A program is run by a machine that keeps what is left to do as data. A configuration says what is
done now, what waits for its value, and what the run has made so far:

* `Control`: what is done now;
* `Pending`: work that waits for the value of an expression, a statement or a block;
* `Store`: the frames, the number of calls in progress, the value being returned, the world, the
  references that a step gives up, in order, and the orders of the frames that are left;
* `Config.values`: every value that a configuration refers to.
-/

import ScopedScript.Analysis
import ScopedScript.Builtin.Call
import ScopedScript.Frames
import ScopedScript.Value.Operation
import ScopedScript.World.Release

namespace ScopedScript

/-- What the machine does now. -/
inductive Control where
  | eval (expr : Expr)
  | exec (stmt : Stmt)
  /-- Starts a block in a frame of its own. -/
  | enter (block : Block)
  /-- Hands a value to the work that waits for it. -/
  | resume (value : Value)
  /-- Ends all work that waits, after a failure. -/
  | unwind (fault : Fault)

/-- What a comprehension computes from each item. -/
structure Collector where
  element : Expr
  binder : Ident
  filter : Option Expr

/-- Work that waits for a value. -/
inductive Pending where
  /-- The left operand comes first. -/
  | left (op : BinaryOp) (line : Nat) (right : Expr)
  | right (op : BinaryOp) (line : Nat) (left : Value)
  /-- The left operand of `and` or `or`, which can decide alone. -/
  | first (op : BinaryOp) (line : Nat) (right : Expr)
  | second (op : BinaryOp) (line : Nat)
  | unary (op : UnaryOp) (line : Nat)
  | base (line : Nat) (index : Expr)
  | index (line : Nat) (base : Value)
  | items (before : Array Value) (rest : List Expr)
  | size (line : Nat)
  | key (line : Nat) (before : Std.TreeMap Key Value) (value : Expr) (rest : List (Expr × Expr))
  | entry (key : Key) (before : Std.TreeMap Key Value) (rest : List (Expr × Expr))
  | source (tag : Tag) (collector : Collector)
  | filter (line : Nat) (collector : Collector) (rest : List Value) (before : Array Value)
  | element (collector : Collector) (rest : List Value) (before : Array Value)
  | args (callee : Ident) (line : Nat) (before : Array Value) (rest : List Expr)
  | call
  | assign (name : Ident) (line : Nat)
  | storeValue (line : Nat) (base index : Expr)
  | storeBase (line : Nat) (value : Value) (index : Expr)
  | storeIndex (line : Nat) (value base : Value)
  | branch (line : Nat) (body : Block) (branches : List Branch)
  | discard
  | loopTest (condition : Expr) (body : Block)
  | loopBody (condition : Expr) (body : Block)
  | eachSource (tag : Tag) (binder : Ident) (body : Block)
  | eachBody (binder : Ident) (body : Block) (rest : List Value)
  | ret
  /-- A statement of a block; `last` is the value of the statement before it. -/
  | block (last : Value) (rest : List Stmt)

namespace Pending

/-- The values that pending work holds, in the order in which it gives them up when it is ended. -/
def values : Pending → List Value
  | .right _ _ value | .index _ value => [value]
  | .items before _ | .args _ _ before _ => before.toList
  | .key _ before _ _ | .entry _ before _ => before.values
  | .filter _ _ rest before | .element _ rest before => rest ++ before.toList
  | .storeBase _ value _ => [value]
  | .storeIndex _ value container => [container, value]
  | .eachBody _ _ rest => rest
  | .block last _ => [last]
  | _ => []

/-- Whether pending work runs in a frame of its own. -/
def ownsFrame : Pending → Bool
  | .filter .. | .element .. | .call | .eachBody .. | .block .. => true
  | _ => false

def isCall : Pending → Bool
  | .call => true
  | _ => false

end Pending

structure Store where
  frames : Frames
  /-- How many calls of functions of the program are in progress. -/
  depth : Nat
  /-- The value that a `return` gives, until the call has ended. -/
  returning : Option Value
  world : World
  /-- The references given up and not yet dealt with, in order. -/
  gone : List Value
  orders : Orders

namespace Store

/-- Gives up values; only references matter. -/
def drop (store : Store) (values : List Value) : Store :=
  { store with gone := store.gone ++ values.filter Value.isReference }

def current (store : Store) : Nat := store.frames.newest

/-- Enters a new frame of a scope inside a frame. -/
def push (store : Store) (parent : Nat) (scope : ScopeId) : Store :=
  { store with frames := store.frames.child parent scope }

/-- Leaves the frame in use and gives up what its names stood for. -/
def pop (store : Store) : Store :=
  let values := arrange store.orders.next (store.frames.valuesIn store.current)
  { store with frames := store.frames.pop, orders := store.orders.rest }.drop values

/-- What the frames give up at the end of a run. -/
def remains (store : Store) : List Value := arrange store.orders.next store.frames.values

/-- Binds a name in a frame and gives up what it stood for. -/
def bind (store : Store) (frame : Nat) (name : String) (value : Value) : Store :=
  let old := store.frames.get? frame name
  { store with frames := store.frames.set frame name value }.drop old.toList

def bindHere (store : Store) (name : String) (value : Value) : Store :=
  store.bind store.current name value

def act {α : Type} (store : Store) (action : Action α) : Except Cause α × Store :=
  match store with
  | ⟨frames, depth, returning, world, gone, orders⟩ =>
    match action world with
    | .ok value world => (.ok value, ⟨frames, depth, returning, world, gone, orders⟩)
    | .error cause world => (.error cause, ⟨frames, depth, returning, world, gone, orders⟩)

end Store

/-- A configuration: what is done now, what waits, and what was made. -/
structure Config where
  control : Control
  pending : List Pending
  store : Store

namespace Config

def held : Control → List Value
  | .resume value => [value]
  | _ => []

def values (config : Config) : List Value :=
  held config.control ++ config.store.returning.toList ++ config.pending.flatMap Pending.values ++
    config.store.frames.values

end Config

end ScopedScript
