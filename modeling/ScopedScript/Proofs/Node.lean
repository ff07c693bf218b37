/-
**The nodes of a program.**

Expressions, statements and blocks are the nodes of a program. A node has parts, and resolution
reaches each of them after certain steps of its own:

* `Node.stretches`: a node as steps of its own and parts, in order;
* `Node.parts`: the parts of a node, each with the steps taken before it;
* `Node.induction`: what holds of a node whenever it holds of its parts holds of all nodes;
* `Node.Within`: a node inside a node, with all steps between their beginnings;
* `Node.steps_of_part`, `Node.Within.steps`: the steps of a part are among the steps of the whole;
* `Node.ids`: the numbers of a node and of everything inside it;
* `Node.Within.unique`: where these numbers differ, a number belongs to one node at one place;
* `Node.ownSteps`, `Node.step_within`, `Node.takenBy_of_mem`: every step of resolution is a step of
  one node, and says what kind of node that is.
-/

import Mathlib.Data.List.Flatten
import Mathlib.Data.List.Nodup
import Mathlib.Data.List.Pairwise
import ScopedScript.Scope.Steps

set_option linter.unusedSectionVars false

namespace ScopedScript

/-! ### Numbers -/

mutual

/-- The numbers of an expression, its own first. -/
def Expr.ids : Expr → List NodeId
  | .int tag _ | .bool tag _ | .text tag _ | .none tag | .name tag _ => [tag.id]
  | .binary tag _ left right => tag.id :: (left.ids ++ right.ids)
  | .unary tag _ operand => tag.id :: operand.ids
  | .index tag base index => tag.id :: (base.ids ++ index.ids)
  | .array tag items => tag.id :: exprsIds items
  | .sized tag size => tag.id :: size.ids
  | .map tag entries => tag.id :: entriesIds entries
  | .comprehension tag element binder source filter =>
    tag.id :: binder.id :: (source.ids ++ (optionIds filter ++ element.ids))
  | .call tag callee args => tag.id :: callee.id :: exprsIds args

def exprsIds : List Expr → List NodeId
  | [] => []
  | first :: rest => first.ids ++ exprsIds rest

def entriesIds : List (Expr × Expr) → List NodeId
  | [] => []
  | (key, value) :: rest => key.ids ++ (value.ids ++ entriesIds rest)

def optionIds : Option Expr → List NodeId
  | none => []
  | some expr => expr.ids

end

/-- The number of a target: that of its name, or of the element. -/
def Target.id : Target → NodeId
  | .name ident => ident.id
  | .element tag _ _ => tag.id

/-- The numbers inside a target. -/
def Target.inner : Target → List NodeId
  | .name _ => []
  | .element _ base index => base.ids ++ index.ids

mutual

/-- The numbers of a statement, its own first. -/
def Stmt.ids : Stmt → List NodeId
  | .expr value => value.ids
  | .assign tag target value _ => tag.id :: target.id :: (value.ids ++ target.inner)
  | .cond _ condition body branches => condition.ids ++ (body.ids ++ branchesIds branches)
  | .loop _ condition body => condition.ids ++ body.ids
  | .each tag binder source body => tag.id :: binder.id :: (source.ids ++ body.ids)
  | .define tag name params body => tag.id :: name.id :: (params.map Ident.id ++ body.ids)
  | .ret _ value => optionIds value

def Block.ids : Block → List NodeId
  | .mk tag stmts => tag.id :: stmtsIds stmts

def stmtsIds : List Stmt → List NodeId
  | [] => []
  | first :: rest => first.ids ++ stmtsIds rest

def branchesIds : List Branch → List NodeId
  | [] => []
  | .mk _ condition body :: rest => optionIds condition ++ (body.ids ++ branchesIds rest)

end

/-- All numbers of a program. -/
def Program.ids (program : Program) : List NodeId := program.id :: program.body.ids

/-! ### Nodes and their parts -/

/-- What can be visited and what can be run: an expression, a statement or a block. -/
inductive Node where
  | expr (expr : Expr)
  | stmt (stmt : Stmt)
  | block (block : Block)

/-- The steps that open the scope of a comprehension. -/
def comprehensionOpening (tag : Tag) (binder : Ident) : List ScopeStep :=
  [.enter .comprehension tag.id, .declare binder (.comprehensionVariable tag.id)]

/-- The steps that open the scope of a loop. -/
def loopOpening (tag : Tag) (binder : Ident) : List ScopeStep :=
  [.enter .loop tag.id, .declare binder (.loopVariable tag.id)]

/-- The steps that declare a function and open its scope. -/
def functionOpening (tag : Tag) (name : Ident) (params : List Ident) : List ScopeStep :=
  [.define name tag.id params.length, .enter .function tag.id] ++ paramSteps params

namespace Node

/-- The steps of a node. -/
def scopeSteps : Node → List ScopeStep
  | .expr e => e.scopeSteps
  | .stmt s => s.scopeSteps
  | .block b => b.scopeSteps

/-- The numbers of a node and of everything inside it. -/
def ids : Node → List NodeId
  | .expr e => e.ids
  | .stmt s => s.ids
  | .block b => b.ids

/-- The numbers that a node has of its own. -/
def own : Node → List NodeId
  | .expr (.comprehension tag _ binder _ _) => [tag.id, binder.id]
  | .expr (.call tag callee _) => [tag.id, callee.id]
  | .expr e => [e.id]
  | .stmt (.assign tag target _ _) => [tag.id, target.id]
  | .stmt (.each tag binder _ _) => [tag.id, binder.id]
  | .stmt (.define tag name params _) => tag.id :: name.id :: params.map Ident.id
  | .stmt _ => []
  | .block b => [b.id]

end Node

/-! ### Stretches of nodes -/

/-- A stretch of a node: steps of its own, or a part. -/
inductive Stretch where
  | own (steps : List ScopeStep)
  | part (node : Node)

namespace Stretch

/-- The steps of a stretch. -/
def steps : Stretch → List ScopeStep
  | .own steps => steps
  | .part node => node.scopeSteps

/-- The steps that a node takes for itself. -/
def ownSteps : Stretch → List ScopeStep
  | .own steps => steps
  | .part _ => []

/-- What the part has, if a stretch is a part. -/
def of {α : Type} (all : Node → List α) : Stretch → List α
  | .own _ => []
  | .part node => all node

/-- Expressions in a row. -/
def exprs (items : List Expr) : List Stretch := items.map fun item => .part (.expr item)

/-- The keys and values of map entries. -/
def entries (pairs : List (Expr × Expr)) : List Stretch :=
  pairs.flatMap fun pair => exprs [pair.1, pair.2]

/-- Statements in a row. -/
def stmts (items : List Stmt) : List Stretch := items.map fun item => .part (.stmt item)

/-- The conditions and blocks of clauses. -/
def branches (clauses : List Branch) : List Stretch :=
  clauses.flatMap fun | .mk _ condition body => exprs condition.toList ++ [.part (.block body)]

/-- The parts in a row of stretches that stands behind the steps `before`. -/
def parts (before : List ScopeStep) : List Stretch → List (List ScopeStep × Node)
  | [] => []
  | .own steps :: rest => parts (before ++ steps) rest
  | .part node :: rest => (before, node) :: parts (before ++ node.scopeSteps) rest

end Stretch

namespace Node

/-- The stretches of a node in order. -/
def stretches : Node → List Stretch
  | .expr (.int _ _) | .expr (.bool _ _) | .expr (.text _ _) | .expr (.none _) => []
  | .expr (.name tag name) => [.own [.use ⟨tag.id, name, tag.position⟩]]
  | .expr (.binary _ _ left right) | .expr (.index _ left right) => Stretch.exprs [left, right]
  | .expr (.unary _ _ operand) | .expr (.sized _ operand) => Stretch.exprs [operand]
  | .expr (.array _ items) => Stretch.exprs items
  | .expr (.map _ entries) => Stretch.entries entries
  | .expr (.comprehension tag element binder source filter) =>
    .part (.expr source) :: .own (comprehensionOpening tag binder) ::
      (Stretch.exprs filter.toList ++ [.part (.expr element), .own [.leave]])
  | .expr (.call _ callee args) => .own [.use callee] :: Stretch.exprs args
  | .stmt (.expr value) => Stretch.exprs [value]
  | .stmt (.assign tag (.name ident) value final) =>
    [.part (.expr value), .own [.assign ident tag.id final]]
  | .stmt (.assign _ (.element _ base index) value _) => Stretch.exprs [value, base, index]
  | .stmt (.cond _ condition body branches) =>
    .part (.expr condition) :: .part (.block body) :: Stretch.branches branches
  | .stmt (.loop _ condition body) => [.part (.expr condition), .part (.block body)]
  | .stmt (.each tag binder source body) =>
    [.part (.expr source), .own (loopOpening tag binder), .part (.block body), .own [.leave]]
  | .stmt (.define tag name params body) =>
    [.own (functionOpening tag name params), .part (.block body), .own [.leave]]
  | .stmt (.ret _ value) => Stretch.exprs value.toList
  | .block (.mk tag stmts) => .own [.enter .block tag.id] :: (Stretch.stmts stmts ++ [.own [.leave]])

/-- The parts of a node, each with the steps that come before it. -/
def parts (node : Node) : List (List ScopeStep × Node) := Stretch.parts [] node.stretches

end Node

/-! ### Rows of stretches -/

theorem stmtsSteps_append (first second : List Stmt) :
    stmtsSteps (first ++ second) = stmtsSteps first ++ stmtsSteps second := by
  induction first with
  | nil => rfl
  | cons stmt rest ih => simp only [List.cons_append, stmtsSteps, ih, List.append_assoc]

/-- What the parts in a row have, one after the other. -/
def gathered {α : Type} (all : Node → List α) (parts : List (List ScopeStep × Node)) : List α :=
  parts.flatMap fun entry => all entry.2

namespace Stretch

variable {α : Type} {all : Node → List α} {each : Stretch → List α}
variable {before : List ScopeStep} {row : List Stretch} {entry : List ScopeStep × Node}

theorem gathered_parts (before : List ScopeStep) (row : List Stretch) :
    gathered all (parts before row) = row.flatMap (of all) := by
  induction row generalizing before with
  | nil => rfl
  | cons first rest ih =>
    cases first with
    | own => exact ih _
    | part => exact congrArg (_ ++ ·) (ih _)

/-- A part of a row stands behind the steps of all before it. -/
theorem mem_parts (done : List Stretch) (node : Node) (rest : List Stretch) :
    (before ++ done.flatMap steps, node) ∈ parts before (done ++ .part node :: rest) := by
  induction done generalizing before with
  | nil =>
    rw [List.flatMap_nil, List.append_nil]
    exact List.mem_cons_self
  | cons first done ih =>
    rw [List.flatMap_cons, ← List.append_assoc]
    cases first with
    | own => exact ih
    | part => exact List.mem_cons_of_mem _ ih

theorem part_mem (listed : entry ∈ parts before row) : .part entry.2 ∈ row := by
  induction row generalizing before with
  | nil => cases listed
  | cons first rest ih =>
    cases first with
    | own => exact List.mem_cons_of_mem _ (ih listed)
    | part =>
      rcases List.mem_cons.mp listed with rfl | listed
      · exact List.mem_cons_self
      · exact List.mem_cons_of_mem _ (ih listed)

theorem exists_part {node : Node} (listed : .part node ∈ row) : ∃ offset, (offset, node) ∈ parts before row := by
  obtain ⟨done, rest, rfl⟩ := List.append_of_mem listed
  exact ⟨_, mem_parts done node rest⟩

/-- The steps of a part are among those of the row. -/
theorem steps_isPrefix (listed : entry ∈ parts before row) :
    entry.1 ++ entry.2.scopeSteps <+: before ++ row.flatMap steps := by
  induction row generalizing before with
  | nil => cases listed
  | cons first rest ih =>
    rw [List.flatMap_cons, ← List.append_assoc]
    cases first with
    | own => exact ih listed
    | part =>
      rcases List.mem_cons.mp listed with rfl | listed
      · exact List.prefix_append _ _
      · exact ih listed

/-- The steps of a row are those of its own and those of its parts, in some order. -/
theorem steps_perm (row : List Stretch) :
    (row.flatMap steps).Perm (row.flatMap ownSteps ++ row.flatMap (of Node.scopeSteps)) := by
  induction row with
  | nil => exact .nil
  | cons first rest ih =>
    cases first with
    | own own =>
      have whole := ih.append_left own
      rwa [← List.append_assoc] at whole
    | part node => exact (ih.append_left node.scopeSteps).trans (List.perm_append_comm_assoc _ _ _)

theorem flatMap_exprs {all : List Expr → List α} (nil : all [] = [])
    (cons : ∀ first rest, all (first :: rest) = each (.part (.expr first)) ++ all rest) (items : List Expr) :
    (exprs items).flatMap each = all items := by
  induction items with
  | nil => exact nil.symm
  | cons first rest ih => exact (congrArg (_ ++ ·) ih).trans (cons first rest).symm

theorem flatMap_entries {all : List (Expr × Expr) → List α} (nil : all [] = [])
    (cons : ∀ key value rest, all ((key, value) :: rest) =
      each (.part (.expr key)) ++ (each (.part (.expr value)) ++ all rest)) (pairs : List (Expr × Expr)) :
    (entries pairs).flatMap each = all pairs := by
  induction pairs with
  | nil => exact nil.symm
  | cons first rest ih =>
    rw [cons, ← ih]
    rfl

theorem flatMap_stmts {all : List Stmt → List α} (nil : all [] = [])
    (cons : ∀ first rest, all (first :: rest) = each (.part (.stmt first)) ++ all rest) (items : List Stmt) :
    (stmts items).flatMap each = all items := by
  induction items with
  | nil => exact nil.symm
  | cons first rest ih => exact (congrArg (_ ++ ·) ih).trans (cons first rest).symm

theorem flatMap_branches {all : List Branch → List α} (nil : all [] = [])
    (cons : ∀ position condition body rest, all (.mk position condition body :: rest) =
      (exprs condition.toList).flatMap each ++ (each (.part (.block body)) ++ all rest))
    (clauses : List Branch) : (branches clauses).flatMap each = all clauses := by
  induction clauses with
  | nil => exact nil.symm
  | cons first rest ih =>
    obtain ⟨position, condition, body⟩ := first
    rw [cons, ← ih]
    simp [branches]

@[simp] theorem steps_exprs (items : List Expr) : (exprs items).flatMap steps = exprsSteps items :=
  flatMap_exprs rfl (fun _ _ => rfl) items

@[simp] theorem steps_entries (pairs : List (Expr × Expr)) : (entries pairs).flatMap steps = entriesSteps pairs :=
  flatMap_entries rfl (fun _ _ _ => List.append_assoc ..) pairs

@[simp] theorem steps_option (option : Option Expr) : exprsSteps option.toList = optionSteps option := by
  cases option <;> simp [exprsSteps, optionSteps]

@[simp] theorem steps_stmts (items : List Stmt) : (stmts items).flatMap steps = stmtsSteps items :=
  flatMap_stmts rfl (fun _ _ => rfl) items

@[simp] theorem steps_branches (clauses : List Branch) : (branches clauses).flatMap steps = branchesSteps clauses :=
  flatMap_branches rfl (fun _ _ _ _ => by simp [branchesSteps, steps, Node.scopeSteps]) clauses

end Stretch

namespace Node

variable {node part : Node} {before offset : List ScopeStep}

/-! ### Induction over parts -/

/-- A part is smaller than the node. -/
theorem sizeOf_lt (listed : .part part ∈ node.stretches) : sizeOf part < sizeOf node := by
  have inside {α : Type} [SizeOf α] {item : α} {items : List α} : item ∈ items → sizeOf item < sizeOf items :=
    List.sizeOf_lt_of_mem
  cases node with
  | expr e =>
    cases e <;> simp [stretches, Stretch.exprs, Stretch.entries] at listed ⊢ <;>
      grind [expr.sizeOf_spec, Option.some.sizeOf_spec, Prod.mk.sizeOf_spec]
  | stmt s =>
    cases s with
    | assign tag target =>
      cases target <;> simp [stretches, Stretch.exprs] at listed ⊢ <;> grind [expr.sizeOf_spec]
    | _ =>
      simp [stretches, Stretch.exprs, Stretch.branches] at listed ⊢
      grind [expr.sizeOf_spec, block.sizeOf_spec, Option.some.sizeOf_spec, Branch.mk.sizeOf_spec]
  | block b =>
    cases b
    simp [stretches, Stretch.stmts] at listed ⊢
    grind [stmt.sizeOf_spec]

/-- What holds of a node whenever it holds of its parts holds of all nodes. -/
theorem induction {motive : Node → Prop}
    (step : ∀ node : Node, (∀ entry ∈ node.parts, motive entry.2) → motive node) (node : Node) : motive node :=
  step node fun entry listed =>
    have := sizeOf_lt (Stretch.part_mem listed)
    induction step entry.2
termination_by sizeOf node

/-! ### The steps of parts -/

/-- The steps of a node are those of its stretches. -/
theorem scopeSteps_eq (node : Node) : node.scopeSteps = node.stretches.flatMap Stretch.steps := by
  cases node with
  | expr e =>
    cases e <;>
      simp [scopeSteps, stretches, Expr.scopeSteps, Stretch.steps, comprehensionOpening, exprsSteps]
  | stmt s =>
    cases s with
    | assign tag target =>
      cases target <;> simp [scopeSteps, stretches, Stmt.scopeSteps, assignSteps, Stretch.steps, exprsSteps]
    | _ =>
      simp [scopeSteps, stretches, Stmt.scopeSteps, Stretch.steps, loopOpening, functionOpening, exprsSteps]
  | block b =>
    cases b
    simp [scopeSteps, stretches, Block.scopeSteps, Stretch.steps]

/-- The steps of a part are among the steps of the node, behind those that come before it. -/
theorem steps_of_part (member : (offset, part) ∈ node.parts) :
    offset ++ part.scopeSteps <+: node.scopeSteps :=
  node.scopeSteps_eq ▸ Stretch.steps_isPrefix member

/-! ### The numbers of parts -/

@[simp] theorem ids_exprs (items : List Expr) : (Stretch.exprs items).flatMap (Stretch.of ids) = exprsIds items :=
  Stretch.flatMap_exprs rfl (fun _ _ => rfl) items

@[simp] theorem ids_entries (pairs : List (Expr × Expr)) :
    (Stretch.entries pairs).flatMap (Stretch.of ids) = entriesIds pairs :=
  Stretch.flatMap_entries rfl (fun _ _ _ => rfl) pairs

@[simp] theorem ids_option (option : Option Expr) : exprsIds option.toList = optionIds option := by
  cases option <;> simp [exprsIds, optionIds]

@[simp] theorem ids_stmts (items : List Stmt) : (Stretch.stmts items).flatMap (Stretch.of ids) = stmtsIds items :=
  Stretch.flatMap_stmts rfl (fun _ _ => rfl) items

@[simp] theorem ids_branches (clauses : List Branch) :
    (Stretch.branches clauses).flatMap (Stretch.of ids) = branchesIds clauses :=
  Stretch.flatMap_branches rfl (fun _ _ _ _ => by simp [branchesIds, Stretch.of, ids]) clauses

theorem ids_eq (node : Node) : node.ids = node.own ++ gathered ids node.parts := by
  rw [parts, Stretch.gathered_parts]
  cases node with
  | expr e => cases e <;> simp [ids, own, stretches, Expr.ids, Expr.id, Expr.tag, Stretch.of, exprsIds]
  | stmt s =>
    cases s with
    | assign tag target =>
      cases target <;> simp [ids, own, stretches, Stmt.ids, Target.inner, Stretch.of, exprsIds]
    | _ => simp [ids, own, stretches, Stmt.ids, Stretch.of, exprsIds]
  | block b =>
    cases b
    simp [ids, own, stretches, Block.ids, Block.id, Block.tag, Stretch.of]

theorem mem_gathered_ids {id : NodeId} (member : (offset, part) ∈ node.parts)
    (inside : id ∈ part.ids) : id ∈ gathered ids node.parts :=
  List.mem_flatMap.mpr ⟨(offset, part), member, inside⟩

theorem ids_of_part (member : (offset, part) ∈ node.parts) : part.ids ⊆ node.ids := by
  intro id inside
  rw [ids_eq]
  exact List.mem_append_right _ (mem_gathered_ids member inside)

theorem own_subset (node : Node) : node.own ⊆ node.ids := by
  intro id inside
  rw [ids_eq]
  exact List.mem_append_left _ inside

/-! ### The own steps of nodes -/

/-- The steps that a node takes for itself. -/
def ownSteps : Node → List ScopeStep
  | .expr (.name tag name) => [.use ⟨tag.id, name, tag.position⟩]
  | .expr (.comprehension tag _ binder _ _) => comprehensionOpening tag binder ++ [.leave]
  | .expr (.call _ callee _) => [.use callee]
  | .expr _ => []
  | .stmt (.assign tag (.name ident) _ final) => [.assign ident tag.id final]
  | .stmt (.each tag binder _ _) => loopOpening tag binder ++ [.leave]
  | .stmt (.define tag name params _) => functionOpening tag name params ++ [.leave]
  | .stmt _ => []
  | .block b => [.enter .block b.id, .leave]

theorem ownSteps_eq (node : Node) : node.ownSteps = node.stretches.flatMap Stretch.ownSteps := by
  cases node with
  | expr e =>
    cases e <;>
      simp [ownSteps, stretches, Stretch.exprs, Stretch.entries, Stretch.ownSteps, List.flatMap_map,
        List.flatMap_assoc]
  | stmt s =>
    cases s with
    | assign tag target => cases target <;> simp [ownSteps, stretches, Stretch.exprs, Stretch.ownSteps]
    | cond _ _ _ branches =>
      have rows : (Stretch.branches branches).flatMap Stretch.ownSteps = [] :=
        @Stretch.flatMap_branches _ _ (fun _ => []) rfl (fun _ condition _ _ => by cases condition <;> rfl) branches
      simp [ownSteps, stretches, Stretch.ownSteps, rows]
    | _ => simp [ownSteps, stretches, Stretch.exprs, Stretch.ownSteps, List.flatMap_map]
  | block b =>
    cases b
    simp [ownSteps, stretches, Stretch.stmts, Stretch.ownSteps, Block.id, Block.tag, List.flatMap_map]

/-- The steps of a node are its own and those of its parts, in some order. -/
theorem scopeSteps_perm (node : Node) :
    node.scopeSteps.Perm (node.ownSteps ++ gathered scopeSteps node.parts) := by
  rw [scopeSteps_eq, ownSteps_eq, parts, Stretch.gathered_parts]
  exact Stretch.steps_perm node.stretches

/-! ### Nodes inside nodes -/

/-- A node inside a node, and the steps between their beginnings. -/
inductive Within : Node → List ScopeStep → Node → Prop
  | self (node : Node) : Within node [] node
  | part {node middle inner : Node} {offset rest : List ScopeStep} :
    (offset, middle) ∈ node.parts → Within middle rest inner → Within node (offset ++ rest) inner

namespace Within

variable {outer inner : Node} {rest : List ScopeStep}

theorem tail {part : Node} (within : Within outer rest inner)
    (member : (offset, part) ∈ inner.parts) : Within outer (rest ++ offset) part := by
  induction within with
  | self node =>
    have single := Within.part member (.self part)
    rwa [List.append_nil] at single
  | part first _ ih =>
    rw [List.append_assoc]
    exact .part first (ih member)

/-- The steps of an inner node are among those of the outer one. -/
theorem steps (within : Within outer rest inner) :
    ∃ after, outer.scopeSteps = rest ++ inner.scopeSteps ++ after := by
  induction within with
  | self node => exact ⟨[], by simp⟩
  | part first _ ih =>
    obtain ⟨after, inside⟩ := ih
    obtain ⟨more, around⟩ := steps_of_part first
    exact ⟨after ++ more, by rw [← around, inside]; simp⟩

theorem steps_isPrefix (within : Within outer rest inner) :
    rest ++ inner.scopeSteps <+: outer.scopeSteps := by
  obtain ⟨after, whole⟩ := within.steps
  exact ⟨after, whole.symm⟩

theorem use_isPrefix {tag : Tag} {callee : Ident} {args : List Expr}
    (within : Within outer rest (.expr (.call tag callee args))) :
    rest ++ [.use callee] <+: outer.scopeSteps :=
  ((List.prefix_append_right_inj rest).mpr ⟨_, rfl⟩).trans within.steps_isPrefix

theorem assign_isPrefix {tag : Tag} {name : Ident} {value : Expr} {final : Bool}
    (within : Within outer rest (.stmt (.assign tag (.name name) value final))) :
    rest ++ value.scopeSteps ++ [.assign name tag.id final] <+: outer.scopeSteps := by
  have whole := within.steps_isPrefix
  rwa [scopeSteps, Stmt.scopeSteps, assignSteps, ← List.append_assoc] at whole

theorem ids (within : Within outer rest inner) : inner.ids ⊆ outer.ids := by
  induction within with
  | self node => exact fun _ inside => inside
  | part first _ ih => exact fun _ inside => ids_of_part first (ih inside)

/-- **A number belongs to one node at one place**, where all numbers differ. -/
theorem unique {other : Node} {rest' : List ScopeStep} {id : NodeId}
    (distinct : outer.ids.Nodup) (within : Within outer rest inner)
    (within' : Within outer rest' other) (mine : id ∈ inner.own) (yours : id ∈ other.own) :
    rest = rest' ∧ inner = other := by
  induction within generalizing rest' with
  | self node =>
    cases within' with
    | self _ => exact ⟨rfl, rfl⟩
    | part first within' =>
      -- a number of the node itself is not a number of one of its parts
      rw [ids_eq, List.nodup_append] at distinct
      exact absurd rfl (distinct.2.2 id mine id
        (mem_gathered_ids first (within'.ids (own_subset _ yours))))
  | @part node middle inner offset rest first within ih =>
    rw [ids_eq, List.nodup_append] at distinct
    obtain ⟨_, ofParts, apart⟩ := distinct
    have here : id ∈ middle.ids := within.ids (own_subset _ mine)
    cases within' with
    | self _ => exact absurd rfl (apart id yours id (mem_gathered_ids first here))
    | @part _ middle' _ offset' rest' first' within' =>
      have there : id ∈ middle'.ids := within'.ids (own_subset _ yours)
      rw [gathered, List.nodup_flatMap] at ofParts
      -- two parts that share a number are one part
      have same : (offset, middle) = (offset', middle') := by
        by_contra different
        have symmetric : Std.Symm (Function.onFun List.Disjoint
            fun entry : List ScopeStep × Node => entry.2.ids) :=
          ⟨fun _ _ apart _ mine yours => apart yours mine⟩
        exact ofParts.2.forall first first' different here there
      obtain ⟨rfl, rfl⟩ := Prod.mk.inj same
      obtain ⟨rfl, rfl⟩ := ih (ofParts.1 _ first) within' mine
      exact ⟨rfl, rfl⟩

end Within

/-- What belongs to a node, or else to its parts, belongs to a node inside. -/
theorem exists_within {α : Type} {all own : Node → List α} {item : α}
    (split : ∀ node, item ∈ all node →
      item ∈ own node ∨ item ∈ gathered all node.parts)
    (member : item ∈ all node) : ∃ place inner, node.Within place inner ∧ item ∈ own inner := by
  induction node using Node.induction with
  | step node ih =>
    rcases split node member with mine | parts
    · exact ⟨[], node, .self node, mine⟩
    · obtain ⟨⟨offset, part⟩, inside, member⟩ := List.mem_flatMap.mp parts
      obtain ⟨place, inner, within, mine⟩ := ih _ inside member
      exact ⟨offset ++ place, inner, .part inside within, mine⟩

/-! ### Steps and the nodes that take them -/

variable {step : ScopeStep}

/-- Every step belongs to a node inside. -/
theorem step_within (member : step ∈ node.scopeSteps) :
    ∃ place inner, node.Within place inner ∧ step ∈ inner.ownSteps :=
  exists_within (fun node taken => List.mem_append.mp (node.scopeSteps_perm.mem_iff.mp taken)) member

/-- The name that a node reads or calls. -/
def use? : Node → Option Ident
  | .expr (.name tag name) => some ⟨tag.id, name, tag.position⟩
  | .expr (.call _ callee _) => some callee
  | _ => none

end Node

/-- What a step says about the node that takes it. -/
def ScopeStep.TakenBy : ScopeStep → Node → Prop
  | .use name, node => node.use? = some name
  | .assign name id final, node =>
    ∃ tag value, node = .stmt (.assign tag (.name name) value final) ∧ tag.id = id
  | .define name id arity, node =>
    ∃ tag params body, node = .stmt (.define tag name params body) ∧ tag.id = id ∧
      params.length = arity
  | .declare _ kind, _ => ∃ owner, kind = .comprehensionVariable owner ∨ kind = .loopVariable owner
  | .parameter _ _, node => ∃ tag name params body, node = .stmt (.define tag name params body)
  | .enter _ _, _ | .leave, _ => True

theorem Node.takenBy_of_mem {node : Node} {step : ScopeStep} (mine : step ∈ node.ownSteps) :
    step.TakenBy node := by
  cases node with
  | expr e =>
    cases e with
    | name | call =>
      obtain rfl := List.mem_singleton.mp mine
      rfl
    | comprehension tag element binder source filter =>
      rcases List.mem_cons.mp mine with rfl | mine
      · trivial
      · rcases List.mem_pair.mp mine with rfl | rfl
        · exact ⟨tag.id, .inl rfl⟩
        · trivial
    | _ => cases mine
  | stmt s =>
    cases s with
    | assign tag target value final =>
      cases target with
      | name ident =>
        obtain rfl := List.mem_singleton.mp mine
        exact ⟨tag, value, rfl, rfl⟩
      | element => cases mine
    | each tag binder source body =>
      rcases List.mem_cons.mp mine with rfl | mine
      · trivial
      · rcases List.mem_pair.mp mine with rfl | rfl
        · exact ⟨tag.id, .inr rfl⟩
        · trivial
    | define tag name params body =>
      rcases List.mem_cons.mp mine with rfl | mine
      · exact ⟨tag, params, body, rfl, rfl, rfl⟩
      · rcases List.mem_append.mp mine with mine | mine
        · rcases List.mem_cons.mp mine with rfl | mine
          · trivial
          · obtain ⟨index, inside, rfl⟩ := List.mem_mapIdx.mp mine
            exact ⟨tag, name, params, body, rfl⟩
        · obtain rfl := List.mem_singleton.mp mine
          trivial
    | _ => cases mine
  | block b =>
    rcases List.mem_pair.mp mine with rfl | rfl
    · trivial
    · trivial

end ScopedScript
