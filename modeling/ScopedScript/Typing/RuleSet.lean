/-
**Settling attributes by rules.**

An attribute is the type of a node or of a declaration. A rule names the attributes it reads and, if
it writes one, the attribute it writes. A rule fires once all its inputs are settled; inputs that
failed make its output fail without a word, so that one mistake is reported once:

* `RuleSet.set`, `RuleSet.fail`, `RuleSet.rule`, `RuleSet.check`: what can be registered; the first
  value of an attribute stays;
* `Solver.fire`: the effect of one rule;
* `RuleSet.solve`: fires, in the order in which they become ready, all rules that ever do, and
  reports those that never do.
-/

import Std.Data.TreeMap
import ScopedScript.Scope.Tree

namespace ScopedScript

/-- What a rule reads or writes: the type of a node or of a declaration. -/
inductive Attribute where
  | node (id : NodeId)
  | decl (id : DeclId)
deriving DecidableEq, Repr

structure AttributeTable (α : Type) where
  nodes : Std.TreeMap NodeId α
  decls : Std.TreeMap DeclId α

namespace AttributeTable

variable {α : Type}

def empty : AttributeTable α := ⟨∅, ∅⟩

def get? (table : AttributeTable α) : Attribute → Option α
  | .node id => table.nodes[id]?
  | .decl id => table.decls[id]?

def contains (table : AttributeTable α) : Attribute → Bool
  | .node id => table.nodes.contains id
  | .decl id => table.decls.contains id

/-- Gives an attribute an entry, in place of the one it had. -/
def insert (table : AttributeTable α) (key : Attribute) (entry : α) : AttributeTable α :=
  match key with
  | .node id => { table with nodes := table.nodes.insert id entry }
  | .decl id => { table with decls := table.decls.insert id entry }

end AttributeTable

/-- The settled state of an attribute. -/
inductive Slot where
  | ready (ty : Ty)
  | failed
deriving DecidableEq, Repr

/-- A rule: what it reads, what it writes, where it stands, and how it computes. -/
structure Rule (ε : Type) where
  deps : List Attribute
  output : Option Attribute
  position : Position
  compute : List Ty → Except ε Ty

/-- The settled attributes and the rules registered so far. -/
structure RuleSet (ε : Type) where
  slots : AttributeTable Slot
  rules : Array (Rule ε)

namespace RuleSet

variable {ε : Type}

def empty : RuleSet ε := ⟨.empty, #[]⟩

/-- Settles an attribute, unless it is settled already. -/
def settle (set : RuleSet ε) (key : Attribute) (slot : Slot) : RuleSet ε :=
  if set.slots.contains key then set
  else { set with slots := set.slots.insert key slot }

/-- Settles an attribute whose type needs no inputs. -/
def set (set : RuleSet ε) (key : Attribute) (ty : Ty) : RuleSet ε :=
  set.settle key (.ready ty)

def fail (set : RuleSet ε) (key : Attribute) : RuleSet ε := set.settle key .failed

def rule (set : RuleSet ε) (rule : Rule ε) : RuleSet ε := { set with rules := set.rules.push rule }

/-- Registers a rule that only looks at its inputs. -/
def check (set : RuleSet ε) (deps : List Attribute) (position : Position)
    (test : List Ty → Except ε Unit) : RuleSet ε :=
  set.rule ⟨deps, none, position, fun types => do test types; return .unknown⟩

end RuleSet

/-- The work of settling: the attributes settled so far, how many inputs each rule still waits for,
which rules wait for an attribute, and the rules that are ready, those that fired first. -/
structure Solver (ε : Type) where
  slots : AttributeTable Slot
  missing : Array Nat
  waiters : AttributeTable (List Nat)
  agenda : Array Nat
  fired : Nat
  errors : Array ε

namespace Solver

variable {ε : Type}

/-- The rules that wait for an attribute, in order of registration. -/
def waitersOf (solver : Solver ε) (key : Attribute) : List Nat :=
  (solver.waiters.get? key).getD []

/-- Makes a rule wait for each of its inputs that is not settled, or puts it on the agenda. -/
def enroll (solver : Solver ε) (index : Nat) (rule : Rule ε) : Solver ε :=
  let open_ := rule.deps.filter fun dep => !solver.slots.contains dep
  { solver with
    missing := solver.missing.push open_.length
    waiters := open_.foldl
      (fun waiters dep => waiters.insert dep ((waiters.get? dep).getD [] ++ [index]))
      solver.waiters
    agenda := if open_.isEmpty then solver.agenda.push index else solver.agenda }

/-- Everything enrolled, nothing fired. -/
def start (set : RuleSet ε) : Solver ε :=
  set.rules.toList.zipIdx.foldl (fun solver entry => solver.enroll entry.2 entry.1)
    ⟨set.slots, #[], .empty, #[], 0, #[]⟩

/-- The types of the inputs of a rule, if all of them are settled and none failed. -/
def inputs? (slots : AttributeTable Slot) : List Attribute → Option (List Ty)
  | [] => some []
  | dep :: rest =>
    match slots.get? dep with
    | some (.ready ty) => (inputs? slots rest).map (ty :: ·)
    | _ => none

/-- One input of a waiting rule is settled; the last one puts the rule on the agenda. -/
def wake (solver : Solver ε) (index : Nat) : Solver ε :=
  let left := solver.missing.getD index 0 - 1
  { solver with
    missing := solver.missing.setIfInBounds index left
    agenda := if left = 0 then solver.agenda.push index else solver.agenda }

/-- Settles the output of a rule, unless it is settled, and wakes what waits for it. -/
def deliver (solver : Solver ε) (output : Option Attribute) (slot : Slot) : Solver ε :=
  match output with
  | none => solver
  | some key =>
    if solver.slots.contains key then solver
    else
      (solver.waitersOf key).foldl wake
        { solver with slots := solver.slots.insert key slot }

/-- Fires a rule: a failed input fails the output in silence, a failed computation is reported. -/
def fire (solver : Solver ε) (rule : Rule ε) : Solver ε :=
  let solver := { solver with fired := solver.fired + 1 }
  match inputs? solver.slots rule.deps with
  | none => solver.deliver rule.output .failed
  | some types =>
    match rule.compute types with
    | .ok ty => solver.deliver rule.output (.ready ty)
    | .error error =>
      { solver with errors := solver.errors.push error }.deliver rule.output .failed

/-- Fires the rules of the agenda, at most `bound` of them. -/
def run (rules : Array (Rule ε)) : Nat → Solver ε → Solver ε
  | 0, solver => solver
  | bound + 1, solver =>
    match solver.agenda[solver.fired]?.bind (rules[·]?) with
    | none => solver
    | some rule => run rules bound (solver.fire rule)

/-- The rules that never became ready, in order of registration. -/
def stuck (solver : Solver ε) (rules : Array (Rule ε)) : List (Rule ε) :=
  (rules.toList.zip solver.missing.toList).filterMap fun entry =>
    if entry.2 = 0 then none else some entry.1

end Solver

/-- Settled attributes and what was reported on the way. -/
structure Solution (ε : Type) where
  slots : AttributeTable Slot
  errors : List ε

namespace Solution

variable {ε : Type}

/-- The type of an attribute; a failed one has none. -/
def get? (solution : Solution ε) (key : Attribute) : Option Ty :=
  match solution.slots.get? key with
  | some (.ready ty) => some ty
  | _ => none

def readyTy? : Slot → Option Ty
  | .ready ty => some ty
  | .failed => none

def nodeTypes (solution : Solution ε) : Std.TreeMap NodeId Ty :=
  solution.slots.nodes.filterMap fun _ slot => readyTy? slot

def declTypes (solution : Solution ε) : Std.TreeMap DeclId Ty :=
  solution.slots.decls.filterMap fun _ slot => readyTy? slot

end Solution

/-- Fires all rules that ever become ready. `unsettled` words the report on a rule that never
does, from its place. Every rule fires at most once, so their number bounds the work. -/
def RuleSet.solve {ε : Type} (set : RuleSet ε) (unsettled : Position → ε) : Solution ε :=
  let final := Solver.run set.rules set.rules.size (.start set)
  { slots := final.slots
    errors := final.errors.toList
      ++ (final.stuck set.rules).map fun rule => unsettled rule.position }

end ScopedScript
