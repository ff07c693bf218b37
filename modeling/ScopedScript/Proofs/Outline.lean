/-
**Scopes lie as the program does.**

Blocks, functions, loops and comprehensions open scopes, each inside the scope of what lies around it
in the program:

* `Program.openings`: all that opens a scope in a program, and in the scope of which node;
* `ScopeTree.outline`: the same as a tree of scopes has it;
* `Resolver.Lays`: steps that add to the outline and lead back to the scope they began in;
* `Program.scopes_nest`: **the tree of a program has its openings, and lists in each scope the
  declarations made there.**
-/

import ScopedScript.Proofs.Indices

namespace ScopedScript

/-! ### What opens scopes -/

/-- What opens a scope: its kind, its node, and the node that opened the scope around it. -/
structure Opening where
  kind : ScopeKind
  node : NodeId
  home : Option NodeId
deriving DecidableEq, Repr

mutual

/-- What opens scopes in an expression that lies in the scope of the node `home`. The source of a
comprehension lies outside the scope of the comprehension. -/
def Expr.openings (home : NodeId) : Expr → List Opening
  | .int _ _ | .bool _ _ | .text _ _ | .none _ | .name _ _ => []
  | .binary _ _ left right | .index _ left right => left.openings home ++ right.openings home
  | .unary _ _ operand | .sized _ operand => operand.openings home
  | .array _ items | .call _ _ items => exprsOpenings home items
  | .map _ entries => entriesOpenings home entries
  | .comprehension tag element _ source filter =>
    source.openings home ++ ⟨.comprehension, tag.id, some home⟩ ::
      (optionOpenings tag.id filter ++ element.openings tag.id)

def exprsOpenings (home : NodeId) : List Expr → List Opening
  | [] => []
  | first :: rest => first.openings home ++ exprsOpenings home rest

def entriesOpenings (home : NodeId) : List (Expr × Expr) → List Opening
  | [] => []
  | (key, value) :: rest => key.openings home ++ value.openings home ++ entriesOpenings home rest

def optionOpenings (home : NodeId) : Option Expr → List Opening
  | none => []
  | some expr => expr.openings home

end

/-- What opens scopes in the target of an assignment. -/
def Target.openings (home : NodeId) : Target → List Opening
  | .name _ => []
  | .element _ base index => base.openings home ++ index.openings home

mutual

/-- What opens scopes in a statement that lies in the scope of the node `home`. The source of a loop
lies outside the scope of its variable, and conditions lie outside the blocks they govern. -/
def Stmt.openings (home : NodeId) : Stmt → List Opening
  | .expr value => value.openings home
  | .assign _ target value _ => value.openings home ++ target.openings home
  | .cond _ condition body branches =>
    condition.openings home ++ body.openings home ++ branchesOpenings home branches
  | .loop _ condition body => condition.openings home ++ body.openings home
  | .each tag _ source body =>
    source.openings home ++ ⟨.loop, tag.id, some home⟩ :: body.openings tag.id
  | .define tag _ _ body => ⟨.function, tag.id, some home⟩ :: body.openings tag.id
  | .ret _ value => optionOpenings home value

def Block.openings (home : NodeId) : Block → List Opening
  | .mk tag stmts => ⟨.block, tag.id, some home⟩ :: stmtsOpenings tag.id stmts

def stmtsOpenings (home : NodeId) : List Stmt → List Opening
  | [] => []
  | first :: rest => first.openings home ++ stmtsOpenings home rest

def branchesOpenings (home : NodeId) : List Branch → List Opening
  | [] => []
  | .mk _ condition body :: rest =>
    optionOpenings home condition ++ body.openings home ++ branchesOpenings home rest

end

/-- What opens scopes in a program: the program itself, and the rest in the order of the text. -/
def Program.openings (program : Program) : List Opening :=
  ⟨.root, program.id, none⟩ :: program.body.openings program.id

/-! ### The outline of a tree -/

namespace ScopeTree

variable {tree : ScopeTree} {scope : ScopeId} {entry : Scope}

/-- The node that opened a scope. -/
def owner? (tree : ScopeTree) (scope : ScopeId) : Option NodeId := tree.scopes[scope]?.map Scope.owner

/-- What opened a scope, in the scope of which node. -/
def opening (tree : ScopeTree) (entry : Scope) : Opening :=
  ⟨entry.kind, entry.owner, entry.parent.bind tree.owner?⟩

/-- What opened the scopes, in order. -/
def outline (tree : ScopeTree) : List Opening := tree.scopes.toList.map tree.opening

theorem outline_getElem? : tree.outline[scope]? = tree.scopes[scope]?.map tree.opening := by
  rw [outline, List.getElem?_map, Array.getElem?_toList]

theorem length_outline : tree.outline.length = tree.scopes.size := by
  rw [outline, List.length_map, Array.length_toList]

theorem owner?_eq : tree.owner? scope = tree.outline[scope]?.map Opening.node := by
  rw [outline_getElem?, Option.map_map]
  rfl

theorem outline_push (formed : tree.Formed) {parent : ScopeId} (inside : parent < tree.scopes.size)
    (kind : ScopeKind) (owner : NodeId) : (tree.push kind parent owner).2.outline =
      tree.outline ++ [⟨kind, owner, tree.owner? parent⟩] := by
  have kept : ∀ scope < tree.scopes.size,
      (tree.push kind parent owner).2.owner? scope = tree.owner? scope :=
    fun scope inside => congrArg (Option.map Scope.owner) (scopes_push_old inside)
  have shape : (tree.push kind parent owner).2.scopes.toList =
      tree.scopes.toList ++ [⟨kind, some parent, owner, [], #[]⟩] := Array.toList_push
  rw [outline, shape, List.map_append, outline]
  congr 1
  · refine List.map_congr_left fun entry member => ?_
    obtain ⟨scope, found⟩ := Array.getElem?_of_mem (Array.mem_toList_iff.mp member)
    rw [opening, opening]
    cases up : entry.parent with
    | none => rfl
    | some above =>
      have below := Nat.lt_trans (formed.parent_lt found up) (Formed.lt_size found)
      rw [Option.bind_some, Option.bind_some, kept above below]
  · rw [List.map_singleton, opening, Option.bind_some, kept parent inside]

theorem outline_declare {name : String} {kind : DeclKind} {position : Position} :
    (tree.declare scope name kind position).2.outline = tree.outline := by
  have kept : (tree.declare scope name kind position).2.owner? = tree.owner? := by
    funext other
    rw [owner?, owner?, scopes_declare]
    split
    · rw [Option.map_map]
      rfl
    · rfl
  refine List.ext_getElem? fun other => ?_
  rw [outline_getElem?, outline_getElem?, scopes_declare]
  split
  · rw [Option.map_map]
    refine congrArg (Option.map · _) (funext fun entry => ?_)
    rw [Function.comp_apply, opening, opening, kept]
    rfl
  · refine congrArg (Option.map · _) (funext fun entry => ?_)
    rw [opening, opening, kept]

/-- If every scope is noted for its node, a scope lies inside the one that is noted for the node
around it in the outline. -/
theorem Formed.parent_eq (formed : tree.Formed) (found : tree.scopes[scope]? = some entry)
    (noted : ∀ {scope node}, tree.owner? scope = some node → tree.scopeOf? node = some scope) :
    entry.parent = (tree.opening entry).home.bind tree.scopeOf? := by
  rw [opening]
  cases up : entry.parent with
  | none => rfl
  | some parent =>
    have below := Nat.lt_trans (formed.parent_lt found up) (Formed.lt_size found)
    have owner : tree.owner? parent = some (tree.scopes[parent]).owner := by
      rw [owner?, Array.getElem?_eq_getElem below, Option.map_some]
    rw [Option.bind_some, owner, Option.bind_some, noted owner]

/-! ### The declarations of a scope -/

theorem Built.mem_declarations (built : tree.Built) (found : tree.scopes[scope]? = some entry)
    (id : DeclId) : id ∈ entry.declarations ↔
      ∃ decl, tree.decls[id]? = some decl ∧ decl.scope = scope := by
  rw [← Array.mem_toList_iff, built.recorded found, List.mem_reverse, List.mem_map]
  constructor
  · rintro ⟨⟨name, id⟩, listed, rfl⟩
    obtain ⟨decl, stored, -, inside⟩ := built.formed.listed found listed
    exact ⟨decl, stored, inside⟩
  · rintro ⟨decl, stored, rfl⟩
    obtain ⟨entry', found', listed⟩ := built.lists stored
    cases found.symm.trans found'
    exact ⟨_, listed, rfl⟩

theorem Built.declarations_increase (built : tree.Built)
    (found : tree.scopes[scope]? = some entry) : entry.declarations.toList.Pairwise (· < ·) := by
  rw [built.recorded found, List.pairwise_reverse, List.pairwise_map]
  exact built.formed.latest found

/-- The table of names holds the last declaration of each name. -/
theorem Built.get?_eq (built : tree.Built) (found : tree.scopes[scope]? = some entry)
    (name : String) : entry.get? name = (entry.declarations.toList.filter fun id =>
      decide (tree.decls[id]?.map Decl.name = some name)).getLast? := by
  rw [built.recorded found, List.filter_reverse, List.getLast?_reverse, Scope.get?]
  have listed := fun named => @Formed.listed _ built.formed scope entry (Prod.fst named) named.2 found
  generalize entry.names = names at listed
  induction names with
  | nil => rfl
  | cons first rest ih =>
    obtain ⟨decl, stored, same, -⟩ := listed first List.mem_cons_self
    have further := ih fun named member => listed named (List.mem_cons_of_mem _ member)
    obtain ⟨other, id⟩ := first
    rw [List.lookup_cons, List.map_cons, List.filter_cons, stored, Option.map_some, same, further]
    by_cases here : name = other
    · simp [here]
    · rw [beq_false_of_ne here, if_neg (by simpa using Ne.symm here)]

end ScopeTree

/-! ### Steps that lay out scopes -/

/-- Whether a step stays in its scope. -/
def ScopeStep.isPlain : ScopeStep → Bool
  | .enter _ _ | .leave => false
  | _ => true

namespace Resolver

variable {policy : Redeclaration} {resolver : Resolver} {steps first second : List ScopeStep}
  {opened opened' : NodeId → List Opening}

theorem outline_plain {step : ScopeStep} (plain : step.isPlain = true) :
    (resolver.take policy step).current = resolver.current ∧
      (resolver.take policy step).tree.outline = resolver.tree.outline := by
  have took := took policy resolver step
  generalize resolver.take policy step = later at took
  cases took with
  | enter | leave => cases plain
  | bound | deferred | refused | assigned => exact ⟨rfl, rfl⟩
  | declared | repeated => exact ⟨rfl, ScopeTree.outline_declare⟩

/-- Steps that lead back to the scope they began in, and open these scopes in that of a node. -/
def Lays (policy : Redeclaration) (steps : List ScopeStep) (opened : NodeId → List Opening) : Prop :=
  ∀ ⦃resolver : Resolver⦄ ⦃home : NodeId⦄, resolver.Formed →
    resolver.tree.owner? resolver.current = some home →
    (resolver.follow policy steps).current = resolver.current ∧
      (resolver.follow policy steps).tree.outline = resolver.tree.outline ++ opened home

namespace Lays

theorem plain (steps : List ScopeStep) (plain : steps.all ScopeStep.isPlain = true) :
    Lays policy steps fun _ => [] := by
  intro resolver _ _ _
  rw [List.append_nil]
  clear * - plain
  induction steps generalizing resolver with
  | nil => exact ⟨rfl, rfl⟩
  | cons step rest ih =>
    obtain ⟨here, there⟩ := Bool.and_eq_true_iff.mp plain
    obtain ⟨current, outline⟩ := @outline_plain policy resolver step here
    rw [follow_cons, ← current, ← outline]
    exact @ih there _

theorem append (before : Lays policy first opened) (after : Lays policy second opened') :
    Lays policy (first ++ second) fun home => opened home ++ opened' home := by
  intro resolver home formed here
  obtain ⟨current, outline⟩ := before formed here
  have there : (resolver.follow policy first).tree.owner? resolver.current = some home := by
    rw [ScopeTree.owner?_eq] at here ⊢
    obtain ⟨opening, found, -⟩ := Option.map_eq_some_iff.mp here
    rw [outline, List.getElem?_append_left (List.getElem?_eq_some_iff.mp found).1, here]
  rw [← current] at there
  obtain ⟨current', outline'⟩ := after (formed.follow first) there
  rw [follow_append, current', current, outline', outline, List.append_assoc]
  exact ⟨rfl, rfl⟩

theorem enclosed (inner : Lays policy steps opened) (kind : ScopeKind) (owner : NodeId) :
    Lays policy (.enter kind owner :: (steps ++ [.leave])) fun home =>
      ⟨kind, owner, some home⟩ :: opened owner := by
  intro resolver home formed here
  have pushed : (resolver.enter kind owner).tree.outline =
      resolver.tree.outline ++ [⟨kind, owner, some home⟩] :=
    (ScopeTree.outline_push formed.tree formed.current kind owner).trans (by rw [here])
  have inside : (resolver.enter kind owner).tree.owner? (resolver.enter kind owner).current =
      some owner := congrArg (Option.map Scope.owner) ScopeTree.scopes_push_new
  obtain ⟨current, outline⟩ := inner formed.enter inside
  have grows : (resolver.enter kind owner).tree.Grows
      ((resolver.enter kind owner).follow policy steps).tree := grows_follow steps
  obtain ⟨entry, found, older⟩ := grows.scopes ScopeTree.scopes_push_new
  have back : ((resolver.enter kind owner).follow policy steps).leave.current =
      resolver.current := by
    rw [leave, current]
    show (Option.bind (_[resolver.tree.scopes.size]?) Scope.parent).getD _ = _
    rw [found, Option.bind_some, older.parent, Option.getD_some]
  rw [follow_cons, follow_append]
  refine ⟨back, ?_⟩
  show ((resolver.enter kind owner).follow policy steps).tree.outline = _
  rw [outline, pushed, List.append_assoc, List.singleton_append]

end Lays

end Resolver

open Resolver

variable {policy : Redeclaration}

mutual

theorem Expr.lays : ∀ expr : Expr, Lays policy expr.scopeSteps fun home => expr.openings home
  | .int _ _ | .bool _ _ | .text _ _ | .none _ | .name _ _ => .plain _ rfl
  | .binary _ _ left right | .index _ left right => left.lays.append right.lays
  | .unary _ _ operand | .sized _ operand => operand.lays
  | .array _ items => exprs_lays items
  | .map _ entries => entries_lays entries
  | .comprehension tag element binder source filter => by
    have inner := (Lays.plain [.declare binder (.comprehensionVariable tag.id)] rfl).append
      ((option_lays filter).append element.lays)
    have whole := source.lays.append (inner.enclosed .comprehension tag.id)
    simpa [Expr.scopeSteps, Expr.openings] using whole
  | .call _ callee args => (Lays.plain [.use callee] rfl).append (exprs_lays args)

theorem exprs_lays : ∀ exprs, Lays policy (exprsSteps exprs) fun home => exprsOpenings home exprs
  | [] => .plain _ rfl
  | first :: rest => first.lays.append (exprs_lays rest)

theorem entries_lays :
    ∀ entries, Lays policy (entriesSteps entries) fun home => entriesOpenings home entries
  | [] => .plain _ rfl
  | (key, value) :: rest => (key.lays.append value.lays).append (entries_lays rest)

theorem option_lays :
    ∀ option, Lays policy (optionSteps option) fun home => optionOpenings home option
  | none => .plain _ rfl
  | some expr => expr.lays

end

mutual

theorem Stmt.lays : ∀ stmt : Stmt, Lays policy stmt.scopeSteps fun home => stmt.openings home
  | .expr value => value.lays
  | .assign _ (.name _) value _ => value.lays.append (.plain _ rfl)
  | .assign _ (.element _ base index) value _ => value.lays.append (base.lays.append index.lays)
  | .cond _ condition body branches =>
    (condition.lays.append body.lays).append (branches_lays branches)
  | .loop _ condition body => condition.lays.append body.lays
  | .each tag binder source body => by
    have inner := (Lays.plain [.declare binder (.loopVariable tag.id)] rfl).append body.lays
    have whole := source.lays.append (inner.enclosed .loop tag.id)
    simpa [Stmt.scopeSteps, Stmt.openings] using whole
  | .define tag name params body => by
    have plain : (paramSteps params).all ScopeStep.isPlain = true := by
      refine List.all_eq_true.mpr fun step member => ?_
      obtain ⟨index, inside, rfl⟩ := List.mem_mapIdx.mp member
      rfl
    have inner := ((Lays.plain _ plain).append body.lays).enclosed .function tag.id
    have whole := (Lays.plain [.define name tag.id params.length] rfl).append inner
    simpa [Stmt.scopeSteps, Stmt.openings] using whole
  | .ret _ value => option_lays value

theorem Block.lays : ∀ block : Block, Lays policy block.scopeSteps fun home => block.openings home
  | .mk tag stmts => (stmts_lays stmts).enclosed .block tag.id

theorem stmts_lays : ∀ stmts, Lays policy (stmtsSteps stmts) fun home => stmtsOpenings home stmts
  | [] => .plain _ rfl
  | first :: rest => first.lays.append (stmts_lays rest)

theorem branches_lays :
    ∀ branches, Lays policy (branchesSteps branches) fun home => branchesOpenings home branches
  | [] => .plain _ rfl
  | .mk _ condition body :: rest =>
    ((option_lays condition).append body.lays).append (branches_lays rest)

end

/-! ### Programs -/

namespace Program

theorem outline_initial (owner : NodeId) :
    (Resolver.initial owner).tree.outline = [⟨.root, owner, none⟩] ∧
      (Resolver.initial owner).tree.scopeOf? owner = some ScopeTree.root := by
  have kept : ∀ (entries : List Export) (tree : ScopeTree), ∀ last, last = entries.foldl
      (fun tree entry =>
        (tree.declare ScopeTree.root entry.name (.builtin entry.kind) .nowhere).2) tree →
      last.outline = tree.outline ∧ last.owners = tree.owners := by
    intro entries
    induction entries with
    | nil => exact fun tree last same => same ▸ ⟨rfl, rfl⟩
    | cons entry rest ih =>
      intro tree last same
      obtain ⟨outline, owners⟩ := ih _ last same
      exact ⟨outline.trans ScopeTree.outline_declare, owners⟩
  obtain ⟨outline, owners⟩ := kept Export.standard (.new owner) _ rfl
  refine ⟨outline, (congrArg (fun owners => owners[owner]?) owners).trans ?_⟩
  exact Std.TreeMap.getElem?_insert_self

variable {program : Program} {steps : List ScopeStep} {scope : ScopeId} {node : NodeId}

/-- If the ids of a program differ, every scope is the one that is noted for its node. -/
theorem scopeOf?_owner (distinct : program.ids.Nodup) (within : steps <+: program.scopeSteps)
    (owned : (program.before policy steps).tree.owner? scope = some node) :
    (program.resolve policy).tree.scopeOf? node = some scope := by
  induction steps using List.reverseRecOn with
  | nil =>
    obtain ⟨outline, root⟩ := outline_initial program.id
    rw [ScopeTree.owner?_eq, before, follow_nil, outline] at owned
    obtain ⟨rfl, rfl⟩ : scope = ScopeTree.root ∧ node = program.id := by
      rcases scope with _ | scope
      · exact ⟨rfl, (Option.some.inj owned).symm⟩
      · cases owned
    have later : program.id ∉ program.scopeSteps.flatMap ScopeStep.noted := by
      have counted : _ ≤ program.body.ids.count program.id :=
        (Node.block program.body).counted frugal_noted program.id
      rw [List.count_eq_zero_of_not_mem (List.nodup_cons.mp distinct).1] at counted
      exact List.not_mem_of_count_eq_zero (Nat.le_zero.mp counted)
    exact (follow_kept later).2.trans root
  | append_singleton steps step ih =>
    have earlier := ih ((List.prefix_append _ _).trans within)
    rw [ScopeTree.owner?_eq] at owned earlier
    rw [before_concat] at owned
    cases step with
    | enter kind owner =>
      have formed := program.formed_before policy steps
      change ((ScopeTree.push _ _ _ _).2.outline[scope]?).map _ = _ at owned
      rw [ScopeTree.outline_push formed.tree formed.current, List.getElem?_append] at owned
      split at owned
      · exact earlier owned
      · obtain ⟨opening, found, rfl⟩ := Option.map_eq_some_iff.mp owned
        obtain ⟨last, rfl⟩ := List.getElem?_eq_some_iff.mp found
        rename_i beyond
        rw [ScopeTree.length_outline] at beyond last
        obtain rfl : scope = (program.before policy steps).tree.scopes.size :=
          Nat.le_antisymm (Nat.le_of_sub_eq_zero (Nat.lt_one_iff.mp last)) (Nat.not_lt.mp beyond)
        rw [List.getElem_singleton, (noted distinct within (List.mem_singleton.mpr rfl)).2]
        exact Std.TreeMap.getElem?_insert_self
    | leave => exact earlier owned
    | _ =>
      rw [(outline_plain rfl).2] at owned
      exact earlier owned

/-- **Scopes lie as the program does.** If the ids of a program differ, its scopes are, one for one and
in order, what opens a scope in it: each is of that kind, is found for that node, and is inside the
scope of the node that lies around it. Each declaration is listed by its own scope only; a scope lists
its declarations in the order of their numbers, and its table of names has the last of each name. -/
theorem scopes_nest {program : Program} (policy : Redeclaration) (distinct : program.ids.Nodup) :
    let tree := (program.resolve policy).tree
    tree.scopes.size = program.openings.length ∧
    (∀ scope opening, program.openings[scope]? = some opening →
      ∃ entry, tree.scopes[scope]? = some entry ∧ entry.kind = opening.kind ∧
        entry.owner = opening.node ∧ tree.scopeOf? opening.node = some scope ∧
        entry.parent = opening.home.bind tree.scopeOf?) ∧
    (∀ node scope, tree.scopeOf? node = some scope →
      ∃ opening ∈ program.openings, opening.node = node) ∧
    (∀ (id : DeclId) decl, tree.decls[id]? = some decl → decl.scope < tree.scopes.size) ∧
    ∀ (scope : ScopeId) entry, tree.scopes[scope]? = some entry →
      (∀ id, id ∈ entry.declarations ↔ ∃ decl, tree.decls[id]? = some decl ∧ decl.scope = scope) ∧
      entry.declarations.toList.Pairwise (· < ·) ∧
      ∀ name, entry.get? name = (entry.declarations.toList.filter fun id =>
        decide (tree.decls[id]?.map Decl.name = some name)).getLast? := by
  intro tree
  have built : tree.Built := program.built_before policy program.scopeSteps
  have outline : tree.outline = program.openings := by
    obtain ⟨outline, -⟩ := outline_initial program.id
    have owned : (initial program.id).tree.owner? (initial program.id).current =
        some program.id := by
      rw [ScopeTree.owner?_eq, outline]
      rfl
    have laid := @Block.lays policy program.body _ _ (formed_initial program.id) owned
    rw [outline] at laid
    exact laid.2
  have noted : ∀ {scope node}, tree.owner? scope = some node → tree.scopeOf? node = some scope :=
    fun owned => scopeOf?_owner distinct (List.prefix_refl _) owned
  rw [← outline]
  refine ⟨ScopeTree.length_outline.symm, fun scope opening here => ?_, fun node scope noted => ?_,
    fun id decl stored => built.indexed.decls stored,
    fun scope entry found => ⟨built.mem_declarations found, built.declarations_increase found,
      built.get?_eq found⟩⟩
  · rw [ScopeTree.outline_getElem?] at here
    obtain ⟨entry, found, rfl⟩ := Option.map_eq_some_iff.mp here
    exact ⟨entry, found, rfl, rfl, noted (by rw [ScopeTree.owner?, found]; rfl),
      built.formed.parent_eq found noted⟩
  · obtain ⟨entry, found, rfl⟩ := built.owned noted
    have there : tree.outline[scope]? = some (tree.opening entry) := by
      rw [ScopeTree.outline_getElem?, found, Option.map_some]
    exact ⟨_, List.mem_of_getElem? there, rfl⟩

/-- `for x in [y for y in []]: end` -/
def swept : Program :=
  ⟨0, .mk ⟨1, .start⟩ [.each ⟨2, .start⟩ ⟨3, "x", .start⟩ (.comprehension ⟨4, .start⟩
    (.name ⟨5, .start⟩ "y") ⟨6, "y", .start⟩ (.array ⟨7, .start⟩ []) none) (.mk ⟨8, .start⟩ [])]⟩

theorem scopes_nest_swept : swept.ids.Nodup ∧ ∃ entry,
    (swept.resolve .refuse).tree.scopes[4]? = some entry ∧ entry.kind = .block ∧
      entry.parent = some 3 ∧ (swept.resolve .refuse).tree.kind? 3 = some .loop := by
  have distinct : swept.ids.Nodup := by decide
  obtain ⟨-, opens, -⟩ := scopes_nest .refuse distinct
  obtain ⟨body, found, kind, -, -, parent⟩ := opens 4 ⟨.block, 8, some 2⟩ rfl
  obtain ⟨loop, found', kind', -, noted, -⟩ := opens 3 ⟨.loop, 2, some 1⟩ rfl
  refine ⟨distinct, body, found, kind, parent.trans noted, ?_⟩
  rw [ScopeTree.kind?, found', Option.map_some, kind']

end Program

end ScopedScript
