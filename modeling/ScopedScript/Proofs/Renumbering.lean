/-
**Programs with other numbers.**

The nodes of a program can be given other numbers without touching anything else of it. Whatever walks
over a program commutes with that:

* `Program.renumber`: the program with the number `f id` in place of every `id`;
* `Program.renumber_congr`: only the values of `f` at the numbers of the program matter, so that
  `Program.spread` can make every `f` that keeps them apart one that keeps all numbers apart;
* `Node.scopeSteps_renumber`, `Node.functions_renumber`, `Block.misplaced_renumber`: the steps of
  resolution, the functions and the structural problems of a program with other numbers.
-/

import ScopedScript.Proofs.Functions

namespace ScopedScript

/-! ### Trees -/

section Trees

variable (f : NodeId → NodeId)

/-- The same place with another number. -/
def Tag.renumber (tag : Tag) : Tag := ⟨f tag.id, tag.position⟩

/-- The same name with another number. -/
def Ident.renumber (ident : Ident) : Ident := ⟨f ident.id, ident.name, ident.position⟩

mutual

/-- The same expression with other numbers. -/
def Expr.renumber : Expr → Expr
  | .int tag value => .int (tag.renumber f) value
  | .bool tag value => .bool (tag.renumber f) value
  | .text tag value => .text (tag.renumber f) value
  | .none tag => .none (tag.renumber f)
  | .name tag name => .name (tag.renumber f) name
  | .binary tag op left right => .binary (tag.renumber f) op left.renumber right.renumber
  | .unary tag op operand => .unary (tag.renumber f) op operand.renumber
  | .index tag base index => .index (tag.renumber f) base.renumber index.renumber
  | .array tag items => .array (tag.renumber f) (exprsRenumber items)
  | .sized tag size => .sized (tag.renumber f) size.renumber
  | .map tag entries => .map (tag.renumber f) (entriesRenumber entries)
  | .comprehension tag element binder source filter =>
    .comprehension (tag.renumber f) element.renumber (binder.renumber f) source.renumber
      (optionRenumber filter)
  | .call tag callee args => .call (tag.renumber f) (callee.renumber f) (exprsRenumber args)

def exprsRenumber : List Expr → List Expr
  | [] => []
  | first :: rest => first.renumber :: exprsRenumber rest

def entriesRenumber : List (Expr × Expr) → List (Expr × Expr)
  | [] => []
  | (key, value) :: rest => (key.renumber, value.renumber) :: entriesRenumber rest

def optionRenumber : Option Expr → Option Expr
  | none => none
  | some expr => some expr.renumber

end

/-- The same target with other numbers. -/
def Target.renumber : Target → Target
  | .name ident => .name (ident.renumber f)
  | .element tag base index => .element (tag.renumber f) (base.renumber f) (index.renumber f)

mutual

/-- The same statement with other numbers. -/
def Stmt.renumber : Stmt → Stmt
  | .expr value => .expr (value.renumber f)
  | .assign tag target value final =>
    .assign (tag.renumber f) (target.renumber f) (value.renumber f) final
  | .cond position condition body branches =>
    .cond position (condition.renumber f) body.renumber (branchesRenumber branches)
  | .loop position condition body => .loop position (condition.renumber f) body.renumber
  | .each tag binder source body =>
    .each (tag.renumber f) (binder.renumber f) (source.renumber f) body.renumber
  | .define tag name params body =>
    .define (tag.renumber f) (name.renumber f) (params.map (Ident.renumber f)) body.renumber
  | .ret position value => .ret position (optionRenumber f value)

def Block.renumber : Block → Block
  | .mk tag stmts => .mk (tag.renumber f) (stmtsRenumber stmts)

def stmtsRenumber : List Stmt → List Stmt
  | [] => []
  | first :: rest => first.renumber :: stmtsRenumber rest

def branchesRenumber : List Branch → List Branch
  | [] => []
  | .mk position condition body :: rest =>
    .mk position (optionRenumber f condition) body.renumber :: branchesRenumber rest

end

/-- The same clause with other numbers. -/
def Branch.renumber : Branch → Branch
  | .mk position condition body => .mk position (optionRenumber f condition) (body.renumber f)

/-- The same program with other numbers. -/
def Program.renumber (program : Program) : Program := ⟨f program.id, program.body.renumber f⟩

/-- The same function with other numbers. -/
def Function.renumber (function : Function) : Function :=
  ⟨f function.id, function.name.renumber f, function.params.map (Ident.renumber f),
    function.body.renumber f⟩

/-- The same node with other numbers. -/
def Node.renumber : Node → Node
  | .expr e => .expr (e.renumber f)
  | .stmt s => .stmt (s.renumber f)
  | .block b => .block (b.renumber f)

variable {f}

@[simp] theorem Expr.tag_renumber (expr : Expr) : (expr.renumber f).tag = expr.tag.renumber f := by
  cases expr <;> rfl

@[simp] theorem Expr.position_renumber (expr : Expr) :
    (expr.renumber f).position = expr.position := by
  rw [position, tag_renumber]
  rfl

@[simp] theorem Expr.line_renumber (expr : Expr) : (expr.renumber f).line = expr.line := by
  rw [line, tag_renumber]
  rfl

@[simp] theorem Block.id_renumber (block : Block) : (block.renumber f).id = f block.id := by
  cases block
  rfl

@[simp] theorem Block.stmts_renumber (block : Block) :
    (block.renumber f).stmts = stmtsRenumber f block.stmts := by
  cases block
  rfl

theorem exprsRenumber_eq (items : List Expr) :
    exprsRenumber f items = items.map (Expr.renumber f) := by
  induction items with
  | nil => rfl
  | cons first rest ih => exact congrArg (_ :: ·) ih

theorem entriesRenumber_eq (entries : List (Expr × Expr)) :
    entriesRenumber f entries = entries.map (Prod.map (Expr.renumber f) (Expr.renumber f)) := by
  induction entries with
  | nil => rfl
  | cons first rest ih => exact congrArg (_ :: ·) ih

theorem stmtsRenumber_eq (stmts : List Stmt) : stmtsRenumber f stmts = stmts.map (Stmt.renumber f) := by
  induction stmts with
  | nil => rfl
  | cons first rest ih => exact congrArg (_ :: ·) ih

theorem branchesRenumber_eq (branches : List Branch) :
    branchesRenumber f branches = branches.map (Branch.renumber f) := by
  induction branches with
  | nil => rfl
  | cons first rest ih =>
    cases first
    exact congrArg (_ :: ·) ih

theorem optionRenumber_eq (option : Option Expr) :
    optionRenumber f option = option.map (Expr.renumber f) := by
  cases option <;> rfl

end Trees

/-! ### Only the numbers of the program matter -/

section Congruence

variable {f g : NodeId → NodeId}

/-- Nodes with the same numbers in place of their own, and in place of those of their parts, are the same. -/
theorem Node.renumber_congr (node : Node) (same : ∀ id ∈ node.ids, f id = g id) :
    node.renumber f = node.renumber g := by
  induction node using Node.induction with
  | step node ih =>
    have own : ∀ id ∈ node.own, f id = g id := fun id inside => same id (node.own_subset inside)
    have parts (part : Node) (inside : .part part ∈ node.stretches) : part.renumber f = part.renumber g := by
      obtain ⟨offset, listed⟩ := Stretch.exists_part inside
      exact ih _ listed fun id number => same id (ids_of_part listed number)
    have exprs (expr : Expr) (inside : .part (.expr expr) ∈ node.stretches) : expr.renumber f = expr.renumber g :=
      Node.expr.inj (parts (.expr expr) inside)
    have stmts (stmt : Stmt) (inside : .part (.stmt stmt) ∈ node.stretches) : stmt.renumber f = stmt.renumber g :=
      Node.stmt.inj (parts (.stmt stmt) inside)
    have blocks (block : Block) (inside : .part (.block block) ∈ node.stretches) :
        block.renumber f = block.renumber g :=
      Node.block.inj (parts (.block block) inside)
    clear ih same parts
    cases node with
    | expr e =>
      clear stmts blocks
      cases e <;> simp [Node.own, Expr.id, Expr.tag] at own <;>
        simp [Node.stretches, Stretch.exprs, Stretch.entries] at exprs <;>
        simp [Node.renumber, Expr.renumber, Tag.renumber, Ident.renumber, exprsRenumber_eq, entriesRenumber_eq,
          optionRenumber_eq] <;> grind [cases Option]
    | stmt s =>
      cases s with
      | assign tag target =>
        cases target <;> simp [Node.own, Target.id] at own <;>
        simp [Node.stretches, Stretch.exprs] at exprs <;>
        simp [Node.renumber, Stmt.renumber, Target.renumber, Tag.renumber, Ident.renumber] <;> grind
      | cond position condition body branches =>
        have clauses : branches.map (Branch.renumber f) = branches.map (Branch.renumber g) := by
          refine List.map_congr_left fun clause inside => ?_
          obtain ⟨place, test, block⟩ := clause
          have row {stretch : Stretch} (listed : stretch ∈ Stretch.exprs test.toList ++ [.part (.block block)]) :
              stretch ∈ (Node.stmt (.cond position condition body branches)).stretches :=
            List.mem_cons_of_mem _ (List.mem_cons_of_mem _ (List.mem_flatMap.mpr ⟨_, inside, listed⟩))
          rw [Branch.renumber, Branch.renumber, blocks block (row (List.mem_append_right _ List.mem_cons_self))]
          cases test with
          | none => rfl
          | some test => rw [optionRenumber, optionRenumber, exprs test (row List.mem_cons_self)]
        simp [Node.stretches] at exprs blocks
        simp [Node.renumber, Stmt.renumber, branchesRenumber_eq, clauses]
        grind
      | _ =>
        simp [Node.own] at own
        simp [Node.stretches, Stretch.exprs] at exprs blocks
        simp [Node.renumber, Stmt.renumber, Tag.renumber, Ident.renumber, optionRenumber_eq]
        grind [cases Option]
    | block b =>
      obtain ⟨tag, rest⟩ := b
      simp [Node.own, Block.id, Block.tag] at own
      simp [Node.stretches, Stretch.stmts] at stmts
      simp [Node.renumber, Block.renumber, Tag.renumber, stmtsRenumber_eq]
      grind

theorem Program.renumber_congr (program : Program) (same : ∀ id ∈ program.ids, f id = g id) :
    program.renumber f = program.renumber g := by
  rw [Program.ids, List.forall_mem_cons] at same
  simp only [Program.renumber, same.1, Node.block.inj ((Node.block program.body).renumber_congr same.2)]

/-- Numbers that do not belong to the program are moved beyond `bound`. -/
def Program.spread (program : Program) (f : NodeId → NodeId) (bound id : NodeId) : NodeId :=
  if id ∈ program.ids then f id else id + bound

theorem Program.spread_of_mem {program : Program} {bound id : NodeId} (member : id ∈ program.ids) :
    program.spread f bound id = f id :=
  if_pos member

theorem Program.renumber_spread (program : Program) (bound : NodeId) :
    program.renumber (program.spread f bound) = program.renumber f :=
  program.renumber_congr fun _ => spread_of_mem

/-- What keeps the numbers of a program apart keeps all numbers apart after spreading. -/
theorem Program.spread_injective {program : Program} {bound : NodeId}
    (apart : ∀ a ∈ program.ids, ∀ b ∈ program.ids, f a = f b → a = b)
    (below : ∀ id ∈ program.ids, f id < bound) (a b : NodeId)
    (same : program.spread f bound a = program.spread f bound b) : a = b := by
  unfold Program.spread at same
  by_cases first : a ∈ program.ids <;> by_cases second : b ∈ program.ids
  · rw [if_pos first, if_pos second] at same
    exact apart a first b second same
  · rw [if_pos first, if_neg second] at same
    exact absurd same (Nat.ne_of_lt (Nat.lt_add_left b (below a first)))
  · rw [if_neg first, if_pos second] at same
    exact absurd same.symm (Nat.ne_of_lt (Nat.lt_add_left a (below b second)))
  · rw [if_neg first, if_neg second] at same
    exact Nat.add_right_cancel same

end Congruence

/-! ### Walks over the tree -/

section Walks

variable (f : NodeId → NodeId)

/-- The same kind of declaration with another node. -/
def DeclKind.renumber : DeclKind → DeclKind
  | .assigned final node rebound => .assigned final (f node) rebound
  | .function node arity => .function (f node) arity
  | .loopVariable node => .loopVariable (f node)
  | .comprehensionVariable node => .comprehensionVariable (f node)
  | .parameter index => .parameter index
  | .builtin kind => .builtin kind

/-- The same step of resolution with other numbers. -/
def ScopeStep.renumber : ScopeStep → ScopeStep
  | .enter kind owner => .enter kind (f owner)
  | .leave => .leave
  | .use name => .use (name.renumber f)
  | .declare name kind => .declare (name.renumber f) (kind.renumber f)
  | .parameter name index => .parameter (name.renumber f) index
  | .define name node arity => .define (name.renumber f) (f node) arity
  | .assign name node final => .assign (name.renumber f) (f node) final

theorem paramSteps_renumber (params : List Ident) :
    paramSteps (params.map (Ident.renumber f)) = (paramSteps params).map (ScopeStep.renumber f) := by
  refine List.ext_getElem? fun index => ?_
  simp only [paramSteps, List.getElem?_mapIdx, List.getElem?_map, Option.map_map]
  rfl

/-- The same stretch with other numbers. -/
def Stretch.renumber : Stretch → Stretch
  | .own steps => .own (steps.map (ScopeStep.renumber f))
  | .part node => .part (node.renumber f)

theorem Stretch.exprs_renumber (items : List Expr) :
    exprs (exprsRenumber f items) = (exprs items).map (Stretch.renumber f) := by
  induction items with
  | nil => rfl
  | cons first rest ih => exact congrArg (_ :: ·) ih

theorem Node.stretches_renumber (node : Node) :
    (node.renumber f).stretches = node.stretches.map (Stretch.renumber f) := by
  cases node with
  | expr e =>
    cases e with
    | array tag items => exact Stretch.exprs_renumber f items
    | call tag callee args => exact congrArg (_ :: ·) (Stretch.exprs_renumber f args)
    | map tag entries =>
      induction entries with
      | nil => rfl
      | cons first rest ih => exact congrArg (_ :: _ :: ·) ih
    | comprehension tag element binder source filter => cases filter <;> rfl
    | _ => rfl
  | stmt s =>
    cases s with
    | assign tag target => cases target <;> rfl
    | cond position condition body branches =>
      refine congrArg (_ :: _ :: ·) ?_
      induction branches with
      | nil => rfl
      | cons first rest ih =>
        obtain ⟨place, test, block⟩ := first
        cases test with
        | none => exact congrArg (_ :: ·) ih
        | some => exact congrArg (_ :: _ :: ·) ih
    | define tag name params body =>
      have opening : functionOpening (tag.renumber f) (name.renumber f) (params.map (Ident.renumber f)) =
          (functionOpening tag name params).map (ScopeStep.renumber f) := by
        rw [functionOpening, functionOpening, paramSteps_renumber, List.length_map, List.map_append]
        rfl
      exact congrArg (Stretch.own · :: _) opening
    | ret position value => cases value <;> rfl
    | _ => rfl
  | block b =>
    obtain ⟨tag, stmts⟩ := b
    have row : Stretch.stmts (stmtsRenumber f stmts) = (Stretch.stmts stmts).map (Stretch.renumber f) := by
      rw [stmtsRenumber_eq, Stretch.stmts, Stretch.stmts, List.map_map, List.map_map]
      rfl
    rw [Node.renumber, Block.renumber, Node.stretches, Node.stretches, row, List.map_cons, List.map_append]
    rfl

/-- The steps of a node with other numbers. -/
theorem Node.scopeSteps_renumber (node : Node) :
    (node.renumber f).scopeSteps = node.scopeSteps.map (ScopeStep.renumber f) := by
  induction node using Node.induction with
  | step node ih =>
    rw [scopeSteps_eq, scopeSteps_eq, stretches_renumber, List.flatMap_map, List.map_flatMap]
    refine List.flatMap_congr fun stretch inside => ?_
    cases stretch with
    | own => rfl
    | part part =>
      obtain ⟨offset, listed⟩ := Stretch.exists_part inside
      exact ih _ listed

theorem Node.functions_renumber (node : Node) :
    (node.renumber f).functions = node.functions.map (Function.renumber f) := by
  induction node using Node.induction with
  | step node ih =>
    have own : (node.renumber f).ownFunctions = node.ownFunctions.map (Function.renumber f) := by
      cases node with
      | stmt s => cases s <;> rfl
      | _ => rfl
    rw [functions_stretches, functions_stretches, stretches_renumber, own, List.map_append, List.flatMap_map,
      List.map_flatMap]
    refine congrArg (_ ++ ·) (List.flatMap_congr fun stretch inside => ?_)
    cases stretch with
    | own => rfl
    | part part =>
      obtain ⟨offset, listed⟩ := Stretch.exists_part inside
      exact ih _ listed

theorem clauseProblems_renumber (seen : Bool) (branches : List Branch) :
    clauseProblems seen (branchesRenumber f branches) = clauseProblems seen branches := by
  induction branches generalizing seen with
  | nil => rfl
  | cons first rest ih =>
    obtain ⟨position, condition, body⟩ := first
    simp only [branchesRenumber, clauseProblems, optionRenumber_eq, Option.isSome_map,
      Option.isNone_map, ih]

mutual

theorem Stmt.misplaced_renumber (inside : Bool) : (stmt : Stmt) →
    (stmt.renumber f).misplaced inside = stmt.misplaced inside
  | .cond _ _ body branches => by
    simp only [Stmt.renumber, Stmt.misplaced, clauseProblems_renumber, body.misplaced_renumber inside,
      branchesMisplaced_renumber inside branches]
  | .define _ _ _ body => body.misplaced_renumber true
  | .loop _ _ body | .each _ _ _ body => body.misplaced_renumber inside
  | .expr _ | .assign _ _ _ _ | .ret _ _ => rfl

theorem Block.misplaced_renumber (inside : Bool) : (block : Block) →
    (block.renumber f).misplaced inside = block.misplaced inside
  | .mk _ stmts => stmtsMisplaced_renumber inside stmts

theorem stmtsMisplaced_renumber (inside : Bool) : (stmts : List Stmt) →
    stmtsMisplaced inside (stmtsRenumber f stmts) = stmtsMisplaced inside stmts
  | [] => rfl
  | first :: rest => by
    simp only [stmtsRenumber, stmtsMisplaced, first.misplaced_renumber inside,
      stmtsMisplaced_renumber inside rest]

theorem branchesMisplaced_renumber (inside : Bool) : (branches : List Branch) →
    branchesMisplaced inside (branchesRenumber f branches) = branchesMisplaced inside branches
  | [] => rfl
  | .mk _ _ body :: rest => by
    simp only [branchesRenumber, branchesMisplaced, body.misplaced_renumber inside,
      branchesMisplaced_renumber inside rest]

end

end Walks

end ScopedScript
