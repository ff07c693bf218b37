/-
**Types where less is known.**

A variable that an inner block assigns again has no type in particular. To note this of more
variables than the program asks for makes types less definite, but nothing wrong:

* `RuleSet.Loosens`, `RuleSet.Loosens.types_looser`: a rule set with more attributes registered as
  unknown, and without the rules that wrote them, still reports nothing and settles looser types;
* `Program.writer_unique`: an attribute is written by one registration of a program;
* `ScopeTree.reboundAll`, `Scoping.Loosens`: variables noted as assigned further in, and what they
  register;
* `Script.check_reboundAll`: **the types of a program only get looser.**
-/

import ScopedScript.Proofs.Annotation
import ScopedScript.Proofs.OrderIndependence

namespace ScopedScript

variable {ε : Type} {kind newer : DeclKind} {node : Node}

/-! ### Looser rule sets -/

/-- The types in one table are looser than those in another at an attribute that both settle. -/
def AttributeTable.LooserAt (loose strict : AttributeTable Slot) (key : Attribute) : Prop :=
  ∃ ty old, loose.get? key = some (.ready ty) ∧ strict.get? key = some (.ready old) ∧ ty.Looser old

theorem AttributeTable.LooserAt.inputs {loose strict : AttributeTable Slot} {deps : List Attribute}
    (looser : ∀ dep ∈ deps, loose.LooserAt strict dep) :
    ∃ types olds, deps.mapM loose.ty? = some types ∧ deps.mapM strict.ty? = some olds ∧
      List.Forall₂ Ty.Looser types olds := by
  induction deps with
  | nil => exact ⟨[], [], rfl, rfl, .nil⟩
  | cons dep rest ih =>
    obtain ⟨ty, old, found, found', first⟩ := looser dep List.mem_cons_self
    obtain ⟨types, olds, inputs, inputs', others⟩ :=
      ih fun other member => looser other (List.mem_cons_of_mem _ member)
    refine ⟨ty :: types, old :: olds, ?_, ?_, .cons first others⟩
    · rw [List.mapM_cons, inputs, AttributeTable.ty?, found]
      rfl
    · rw [List.mapM_cons, inputs', AttributeTable.ty?, found']
      rfl

namespace RuleSet

/-- More attributes are registered as unknown, and the rules that wrote them may be gone. In the
stricter set one rule writes an attribute, and all rules are typing rules. -/
structure Loosens (strict loose : RuleSet Diagnostic) : Prop where
  rules : ∀ rule ∈ loose.rules.toList, rule ∈ strict.rules.toList
  standing : ∀ rule ∈ strict.rules.toList, rule ∈ loose.rules.toList ∨
    ∃ key, rule.output = some key ∧ loose.slots.get? key = some (.ready .unknown)
  slots : strict.slots.Kept loose.slots
  given : ∀ key slot, loose.slots.get? key = some slot →
    strict.slots.get? key = some slot ∨ slot = .ready .unknown ∧ strict.Derives key
  once : ∀ one ∈ strict.rules.toList, ∀ two ∈ strict.rules.toList, ∀ key,
    one.output = some key → two.output = some key → one = two
  forms : ∀ rule ∈ strict.rules.toList, Typing.Form rule.compute

namespace Loosens

variable {strict loose : RuleSet Diagnostic} {report : Position → Diagnostic} {key : Attribute}
  (loosens : Loosens strict loose)
variable {set : RuleSet Diagnostic}

include loosens

theorem derives_iff : loose.Derives key ↔ strict.Derives key := by
  constructor
  · intro derives
    induction derives with
    | given settled =>
      obtain ⟨slot, found⟩ := AttributeTable.contains_iff.mp settled
      rcases loosens.given _ slot found with registered | ⟨-, derives⟩
      · exact .given (AttributeTable.contains_iff.mpr ⟨slot, registered⟩)
      · exact derives
    | rule member output _ ih => exact .rule (loosens.rules _ member) output ih
  · intro derives
    induction derives with
    | given settled =>
      obtain ⟨slot, found⟩ := AttributeTable.contains_iff.mp settled
      exact .given (AttributeTable.contains_iff.mpr ⟨slot, loosens.slots found⟩)
    | rule member output _ ih =>
      rcases loosens.standing _ member with stands | ⟨key', output', unknown⟩
      · exact .rule stands output ih
      · cases output.symm.trans output'
        exact .given (AttributeTable.contains_iff.mpr ⟨_, unknown⟩)

omit loosens in
theorem exists_slot (derives : set.Derives key) : ∃ slot, set.final.slots.get? key = some slot := by
  rwa [← settled_iff_derives, AttributeTable.contains_iff] at derives

/-- A rule makes looser types of looser inputs. -/
theorem outcome {rule : Rule Diagnostic} {old : Ty} (member : rule ∈ strict.rules.toList)
    (inputs : ∀ dep ∈ rule.deps, loose.final.slots.LooserAt strict.final.slots dep)
    (computed : rule.outcome strict.final.slots = .ready old) :
    ∃ ty, rule.outcome loose.final.slots = .ready ty ∧
      rule.complaint loose.final.slots = none ∧ ty.Looser old := by
  obtain ⟨types, olds, read, read', related⟩ := AttributeTable.LooserAt.inputs inputs
  unfold Rule.outcome at computed
  rw [read'] at computed
  cases verdict : rule.compute olds with
  | error error => simp [verdict] at computed
  | ok result =>
    simp only [verdict, Slot.ready.injEq] at computed
    subst computed
    have relaxes := (loosens.forms rule member).relaxes related
    rw [verdict] at relaxes
    cases relaxes with
    | @accepted _ ty accepted looser =>
      refine ⟨ty, ?_, ?_, looser⟩
      · simp only [Rule.outcome, read, accepted]
      · simp only [Rule.complaint, read, accepted]

/-- **The looser set settles looser types**, where nothing fails in the stricter one. -/
theorem settled (fine : ∀ key, strict.final.slots.get? key ≠ some .failed)
    (derives : strict.Derives key) : loose.final.slots.LooserAt strict.final.slots key := by
  -- along the derivation: the rule that wrote the attribute is gone, or computes from looser inputs
  induction derives with
  | @given key settled =>
    obtain ⟨slot, found⟩ := AttributeTable.contains_iff.mp settled
    cases slot with
    | failed => exact absurd (strict.kept_final found) (fine key)
    | ready ty =>
      exact ⟨ty, ty, loose.kept_final (loosens.slots found), strict.kept_final found, .refl ty⟩
  | @rule key rule member output inputs ih =>
    have derives : strict.Derives key := .rule member output inputs
    obtain ⟨slot, found⟩ := exists_slot derives
    obtain ⟨slot', found'⟩ := exists_slot (loosens.derives_iff.mpr derives)
    cases slot with
    | failed => exact absurd found (fine key)
    | ready old =>
      rcases loose.sourced_final found' with given | ⟨index, -, writer, here, writes, made⟩
      · rcases loosens.given key slot' given with registered | ⟨rfl, -⟩
        · cases found.symm.trans (strict.kept_final registered)
          exact ⟨old, old, found', found, .refl old⟩
        · exact ⟨.unknown, old, found', found, .inr rfl⟩
      · have listed := loosens.rules writer
          (Array.mem_toList_iff.mpr (Array.mem_of_getElem? here))
        obtain rfl := loosens.once writer listed rule member key writes output
        rcases strict.sourced_final found with given | ⟨index', -, other, here', writes', made'⟩
        · exact ⟨old, old, loose.kept_final (loosens.slots given), found, .refl old⟩
        · obtain rfl := loosens.once other
            (Array.mem_toList_iff.mpr (Array.mem_of_getElem? here')) writer listed key writes' writes
          obtain ⟨ty, made'', -, looser⟩ := loosens.outcome listed ih made'
          exact ⟨ty, old, by rw [found', ← made, made''], found, looser⟩

omit loosens in
/-- A report without problems is about rules with settled inputs that do not complain. -/
theorem of_quiet :
    (set.solve report).errors = [] ↔ ∀ rule ∈ set.rules.toList,
      (∀ dep ∈ rule.deps, set.Derives dep) ∧ rule.complaint set.final.slots = none := by
  have same : (set.solve report).errors = [] ↔
      (set.rules.toList.filterMap fun rule => rule.verdict set.final.slots report) = [] :=
    ⟨fun quiet => (quiet ▸ set.errors_perm report).nil_eq.symm,
      fun quiet => (quiet ▸ set.errors_perm report).eq_nil⟩
  rw [same, List.filterMap_eq_nil_iff]
  refine forall₂_congr fun rule _ => ?_
  rw [← forall₂_congr fun dep _ => set.settled_iff_derives dep, ← Solver.unsettled_eq_zero]
  unfold Rule.verdict
  by_cases settled : rule.unsettled set.final.slots = 0
  · rw [if_pos settled]
    exact (and_iff_right settled).symm
  · rw [if_neg settled]
    exact ⟨nofun, fun both => absurd both.1 settled⟩

/-- **Where the stricter set reports nothing, neither does the looser one.** -/
theorem errors_eq_nil (fine : ∀ key, strict.final.slots.get? key ≠ some .failed)
    (quiet : (strict.solve report).errors = []) : (loose.solve report).errors = [] := by
  rw [of_quiet] at quiet ⊢
  intro rule member
  obtain ⟨derives, silent⟩ := quiet rule (loosens.rules rule member)
  have inputs : ∀ dep ∈ rule.deps, loose.final.slots.LooserAt strict.final.slots dep :=
    fun dep read => loosens.settled fine (derives dep read)
  obtain ⟨old, computed⟩ : ∃ old, rule.outcome strict.final.slots = .ready old := by
    obtain ⟨-, olds, -, read, -⟩ := AttributeTable.LooserAt.inputs inputs
    unfold Rule.complaint at silent
    unfold Rule.outcome
    rw [read] at silent ⊢
    cases verdict : rule.compute olds with
    | ok old => exact ⟨old, by simp only [verdict]⟩
    | error error => simp [verdict] at silent
  obtain ⟨-, -, silent', -⟩ := loosens.outcome (loosens.rules rule member) inputs computed
  exact ⟨fun dep read => loosens.derives_iff.mpr (derives dep read), silent'⟩

/-- Every type of the looser set is looser, and what has no type there has none in the stricter. -/
theorem types_looser (fine : ∀ key, strict.final.slots.get? key ≠ some .failed) (key : Attribute) :
    Option.Rel Ty.Looser (loose.final.slots.ty? key) (strict.final.slots.ty? key) := by
  by_cases derives : strict.Derives key
  · obtain ⟨ty, old, found, found', looser⟩ := loosens.settled fine derives
    rw [AttributeTable.ty?, AttributeTable.ty?, found, found']
    exact .some looser
  · have underived : ¬ loose.Derives key := fun other => derives (loosens.derives_iff.mp other)
    rw [← settled_iff_derives, AttributeTable.contains_eq, Option.not_isSome_iff_eq_none]
      at derives underived
    rw [AttributeTable.ty?, AttributeTable.ty?, derives, underived]
    exact .none

end Loosens

end RuleSet

/-! ### One writer for each attribute -/

namespace Node

theorem Within.nodup_own {outer inner : Node} {place : List ScopeStep} (distinct : outer.ids.Nodup)
    (within : outer.Within place inner) : inner.own.Nodup := by
  induction within with
  | self node =>
    rw [ids_eq, List.nodup_append] at distinct
    exact distinct.1
  | part first _ ih =>
    rw [ids_eq, List.nodup_append, gathered, List.nodup_flatMap] at distinct
    exact ih (distinct.2.1.1 _ first)

/-- A node writes an attribute once. -/
theorem registered_once (scoping : Scoping) (distinct : node.own.Nodup) :
    ((node.registered scoping).filterMap Registration.writes?).Nodup := by
  cases node with
  | expr e =>
    show ((registeredExpr scoping e).filterMap Registration.writes?).Nodup
    rw [registeredExpr_writes]
    exact List.nodup_singleton _
  | block b => exact List.nodup_nil
  | stmt s =>
    cases s with
    | expr | ret | loop | each => exact List.nodup_nil
    | define tag => exact List.nodup_singleton _
    | cond position condition body branches =>
      show ((branchChecks branches).filterMap Registration.writes?).Nodup
      rw [branchChecks_writes]
      exact List.nodup_nil
    | assign tag target value final =>
      cases target with
      | element slot base index =>
        have apart : tag.id ≠ slot.id := by simpa [own, Target.id] using distinct
        show [Attribute.node tag.id, .node slot.id].Nodup
        simpa using apart
      | name ident =>
        show (Attribute.node tag.id ::
          (nameTargetRegistrations scoping tag value ident).filterMap Registration.writes?).Nodup
        unfold nameTargetRegistrations
        split
        · split
          · split
            · exact List.nodup_cons.mpr ⟨by simp [Registration.writes?, Registration.copy],
                List.nodup_singleton _⟩
            · exact List.nodup_singleton _
          · exact List.nodup_singleton _
        · exact List.nodup_singleton _

end Node

theorem Registration.writes?_ofSlot (key : Attribute) (slot : Slot) :
    (ofSlot key slot).writes? = some key := by
  cases slot <;> rfl

namespace Program

variable {program : Program} {scoping : Scoping} {key : Attribute}
variable {registration : Registration}

/-- A declaration with a seed is not written by a node. -/
theorem unseeded {id : DeclId} {decl : Decl} {ty : Ty}
    (member : registration ∈ node.registered scoping)
    (writes : registration.writes? = some (.decl id)) (stored : scoping.tree.decls[id]? = some decl) :
    decl.kind.seed? ≠ some ty := by
  rcases Node.registered_writes member writes with
    ⟨_, -, same⟩ | ⟨tag, ident, value, final, id', decl', declFinal, -, same, -, found, kind⟩
  · cases same
  · cases same
    obtain ⟨-, -, -, stored'⟩ := Scoping.declOf?_eq_some.mp found
    cases stored.symm.trans stored'
    rw [kind]
    exact nofun

/-- **An attribute is written by one registration.** -/
theorem writer_unique (distinct : program.ids.Nodup) {one two : Registration}
    (first : one ∈ program.registrations scoping) (second : two ∈ program.registrations scoping)
    (writes : one.writes? = some key) (writes' : two.writes? = some key) : one = two := by
  have body : (Node.block program.body).ids.Nodup := (List.nodup_cons.mp distinct).2
  rcases mem_registrations.mp first with seed | ⟨place, inner, within, registered⟩
  · obtain ⟨id, decl, ty, stored, seeded, rfl⟩ := mem_seeds.mp seed
    cases writes
    rcases mem_registrations.mp second with seed' | ⟨place', inner', within', registered'⟩
    · obtain ⟨id', decl', ty', stored', seeded', rfl⟩ := mem_seeds.mp seed'
      cases writes'
      cases stored.symm.trans stored'
      cases seeded.symm.trans seeded'
      rfl
    · exact absurd seeded (unseeded registered' writes' stored)
  · rcases mem_registrations.mp second with seed' | ⟨place', inner', within', registered'⟩
    · obtain ⟨id', decl', ty', stored', seeded', rfl⟩ := mem_seeds.mp seed'
      cases writes'
      exact absurd seeded' (unseeded registered writes stored')
    · -- the attribute leads to a number, and a number belongs to one node
      have same : inner = inner' := by
        rcases Node.registered_writes registered writes with
          ⟨id, mine, rfl⟩ | ⟨tag, ident, value, final, id, decl, declFinal, rfl, rfl, -, found, kind⟩
        · rcases Node.registered_writes registered' writes' with
            ⟨id', yours, same⟩ | ⟨_, _, _, _, _, _, _, -, same, -⟩
          · cases same
            exact (within.unique body within' mine yours).2
          · cases same
        · rcases Node.registered_writes registered' writes' with
            ⟨_, -, same⟩ | ⟨tag', ident', value', final', id', decl', declFinal', rfl, same, -,
              found', kind'⟩
          · cases same
          · cases same
            obtain ⟨-, -, -, stored⟩ := Scoping.declOf?_eq_some.mp found
            obtain ⟨-, -, -, stored'⟩ := Scoping.declOf?_eq_some.mp found'
            cases stored.symm.trans stored'
            have numbers : tag.id = tag'.id := (DeclKind.assigned.inj (kind.symm.trans kind')).2.1
            exact (within.unique body within' List.mem_cons_self
              (numbers ▸ List.mem_cons_self)).2
      subst same
      exact RuleSet.eq_of_nodup_filterMap
        (Node.registered_once scoping (within.nodup_own body)) registered registered' writes writes'

/-- What is settled from the beginning is what is registered as settled. -/
theorem slots_eq_some (distinct : program.ids.Nodup) {slot : Slot} :
    (program.rules scoping).slots.get? key = some slot ↔
      .ofSlot key slot ∈ program.registrations scoping := by
  refine ⟨listed_of_slots, fun member => ?_⟩
  obtain ⟨slot', found⟩ := AttributeTable.contains_iff.mp (contains_of_listed member)
  have same := writer_unique distinct member (listed_of_slots found) (Registration.writes?_ofSlot key slot)
    (Registration.writes?_ofSlot key slot')
  rw [found]
  cases slot <;> cases slot' <;> cases same <;> rfl

end Program

/-! ### Variables that are assigned further in -/

/-- The same names, with more variables noted as assigned further in. -/
structure Scoping.Loosens (strict loose : Scoping) : Prop where
  resolutions : loose.resolutions = strict.resolutions
  grows : strict.tree.Grows loose.tree
  size : loose.tree.decls.size = strict.tree.decls.size

theorem DeclKind.Older.callable? (older : kind.Older newer) :
    Scoping.callable? newer = Scoping.callable? kind := by
  cases older <;> rfl

/-- A seed stays, and a new one is unknown. -/
theorem DeclKind.Older.seed? (older : kind.Older newer) :
    newer.seed? = kind.seed? ∨ kind.seed? = none ∧ newer.seed? = some .unknown := by
  cases older with
  | same => exact .inl rfl
  | rebound final node before =>
    cases before with
    | false => exact .inr ⟨rfl, rfl⟩
    | true => exact .inl rfl

namespace Scoping.Loosens

variable {strict loose : Scoping} {registration : Registration} (loosens : strict.Loosens loose)
variable {program : Program}

include loosens

theorem declOf? (node : NodeId) :
    strict.declOf? node = none ∧ loose.declOf? node = none ∨
      ∃ id decl decl', strict.declOf? node = some (id, decl) ∧
        loose.declOf? node = some (id, decl') ∧ decl.Older decl' := by
  unfold Scoping.declOf?
  rw [loosens.resolutions]
  cases strict.resolutions[node]? with
  | none => exact .inl ⟨rfl, rfl⟩
  | some resolution =>
    rw [Option.bind_some, Option.bind_some]
    cases stored : strict.tree.decls[resolution.decl]? with
    | none =>
      rw [Array.getElem?_eq_none_iff, ← loosens.size] at stored
      exact .inl ⟨rfl, by rw [Array.getElem?_eq_none_iff.mpr stored, Option.map_none]⟩
    | some decl =>
      obtain ⟨decl', stored', older⟩ := loosens.grows.decls stored
      exact .inr ⟨resolution.decl, decl, decl', rfl, by rw [stored', Option.map_some], older⟩

theorem registered_expr (expr : Expr) :
    (Node.expr expr).registered loose = (Node.expr expr).registered strict := by
  cases expr with
  | name tag name =>
    simp only [Node.registered, Node.registeredExpr, nameRegistration, loosens.resolutions]
  | call tag callee args =>
    show loose.callRegistrations tag callee args = strict.callRegistrations tag callee args
    unfold callRegistrations
    rcases loosens.declOf? callee.id with
      ⟨missing, missing'⟩ | ⟨id, decl, decl', found, found', older⟩
    · rw [missing, missing']
    · rw [found, found']
      simp only [older.kind.callable?]
  | _ => rfl

/-- A node registers what it did, apart from the type of a variable that is now unknown. -/
theorem registered (node : Node) : node.registered loose = node.registered strict ∨
    ∃ rule id, node.registered strict = node.registered loose ++ [.rule rule] ∧
      rule.output = some (.decl id) ∧ .set (.decl id) .unknown ∈ seeds loose.tree := by
  cases node with
  | expr e => exact .inl (loosens.registered_expr e)
  | block b => exact .inl rfl
  | stmt s =>
    cases s with
    | assign tag target value final =>
      cases target with
      | element => exact .inl rfl
      | name ident =>
        simp only [Node.registered, Node.registeredStmt, nameTargetRegistrations]
        rcases loosens.declOf? ident.id with
          ⟨missing, missing'⟩ | ⟨id, decl, decl', found, found', older⟩
        · exact .inl (by rw [missing, missing'])
        obtain ⟨-, -, -, stored⟩ := declOf?_eq_some.mp found'
        have kinds := older.kind
        rw [found, found']
        simp only
        generalize decl.kind = kind, noted : decl'.kind = newer at kinds
        cases kinds with
        | same => exact .inl rfl
        | rebound final node before =>
          cases before with
          | true => exact .inl rfl
          | false =>
            by_cases here : node = tag.id
            · exact .inr ⟨_, id, congrArg (List.cons _) (if_pos here), rfl, Program.mem_seeds.mpr
                ⟨id, decl', .unknown, stored, by rw [noted]; rfl, rfl⟩⟩
            · exact .inl (congrArg (List.cons _) (if_neg here)).symm
    | _ => exact .inl rfl

theorem seeds_of_strict (member : registration ∈ seeds strict.tree) :
    registration ∈ seeds loose.tree := by
  obtain ⟨id, decl, ty, stored, seed, rfl⟩ := Program.mem_seeds.mp member
  obtain ⟨decl', stored', older⟩ := loosens.grows.decls stored
  refine Program.mem_seeds.mpr ⟨id, decl', ty, stored', ?_, rfl⟩
  rcases older.kind.seed? with same | ⟨missing, -⟩
  · exact same.trans seed
  · cases missing.symm.trans seed

theorem seeds_of_loose (member : registration ∈ seeds loose.tree) :
    registration ∈ seeds strict.tree ∨
      ∃ id < strict.tree.decls.size, registration = .set (.decl id) .unknown := by
  obtain ⟨id, decl', ty, stored', seed, rfl⟩ := Program.mem_seeds.mp member
  have inside : id < strict.tree.decls.size :=
    loosens.size ▸ (Array.getElem?_eq_some_iff.mp stored').1
  have stored : strict.tree.decls[id]? = some strict.tree.decls[id] := Array.getElem?_eq_getElem inside
  obtain ⟨other, here, older⟩ := loosens.grows.decls stored
  cases here.symm.trans stored'
  rcases older.kind.seed? with same | ⟨-, unknown⟩
  · exact .inl (Program.mem_seeds.mpr ⟨id, _, ty, stored, same.symm.trans seed, rfl⟩)
  · cases unknown.symm.trans seed
    exact .inr ⟨id, inside, rfl⟩

/-- Nothing new is registered, apart from variables that are now unknown. -/
theorem mem_of_loose (member : registration ∈ program.registrations loose) :
    registration ∈ program.registrations strict ∨
      ∃ id < strict.tree.decls.size, registration = .set (.decl id) .unknown := by
  rcases Program.mem_registrations.mp member with seed | ⟨place, inner, within, registered⟩
  · exact (loosens.seeds_of_loose seed).imp_left (List.mem_append_left _)
  · refine .inl (List.mem_append_right _ (within.registered ?_))
    rcases loosens.registered inner with same | ⟨_, _, same, -⟩
    · exact same ▸ registered
    · exact same ▸ List.mem_append_left _ registered

/-- What was registered still is, apart from rules for variables that are now unknown. -/
theorem mem_of_strict (member : registration ∈ program.registrations strict) :
    registration ∈ program.registrations loose ∨ ∃ rule id, registration = .rule rule ∧
      rule.output = some (.decl id) ∧ .set (.decl id) .unknown ∈ program.registrations loose := by
  rcases Program.mem_registrations.mp member with seed | ⟨place, inner, within, registered⟩
  · exact .inl (List.mem_append_left _ (loosens.seeds_of_strict seed))
  · have stands (member : registration ∈ inner.registered loose) :
        registration ∈ program.registrations loose := List.mem_append_right _ (within.registered member)
    rcases loosens.registered inner with same | ⟨rule, id, same, output, seed⟩
    · exact .inl (stands (same ▸ registered))
    · rw [same] at registered
      refine (List.mem_append.mp registered).imp stands fun last => ?_
      exact ⟨rule, id, List.mem_singleton.mp last, output, List.mem_append_left _ seed⟩

end Scoping.Loosens

namespace Program

variable {program : Program} {policy : Redeclaration} {loose : Scoping}

/-- **Rules with more variables assigned further in are looser.** -/
theorem loosens_rules (distinct : program.ids.Nodup)
    (loosens : (program.resolve policy).Loosens loose) :
    (program.rules (program.resolve policy)).Loosens (program.rules loose) where
  rules rule member := by
    rcases loosens.mem_of_loose (mem_rules.mp member) with listed | ⟨id, -, same⟩
    · exact mem_rules.mpr listed
    · cases same
  standing rule member := by
    rcases loosens.mem_of_strict (mem_rules.mp member) with listed | ⟨_, id, same, output, unknown⟩
    · exact .inl (mem_rules.mpr listed)
    · cases same
      exact .inr ⟨.decl id, output, (slots_eq_some distinct).mpr unknown⟩
  slots key slot found := by
    rcases loosens.mem_of_strict ((slots_eq_some distinct).mp found) with
      listed | ⟨_, id, same, -⟩
    · exact (slots_eq_some distinct).mpr listed
    · cases slot <;> cases same
  given key slot found := by
    rcases loosens.mem_of_loose ((slots_eq_some distinct).mp found) with listed | ⟨id, inside, same⟩
    · exact .inl ((slots_eq_some distinct).mpr listed)
    · cases slot <;> cases same
      exact .inr ⟨rfl, known distinct (List.prefix_refl _) id inside⟩
  once one first two second key writes writes' :=
    Registration.rule.inj
      (writer_unique distinct (mem_rules.mp first) (mem_rules.mp second) writes writes')
  forms rule member := by
    obtain ⟨place, inner, -, registered⟩ :=
      registration_within (mem_rules.mp member) fun _ _ same => nomatch same
    exact (Node.registers registered).form

/-- **With more variables assigned further in, a program without problems stays without problems, and
its types get looser.** -/
theorem Accepted.check_loosens (accepted : program.Accepted policy)
    (quiet : (program.check (program.resolve policy)).errors = [])
    (loosens : (program.resolve policy).Loosens loose) :
    (program.check loose).errors = [] ∧ ∀ key, Option.Rel Ty.Looser
      ((program.check loose).slots.ty? key) ((program.types policy).ty? key) := by
  have rules := loosens_rules accepted.distinct loosens
  obtain ⟨noProblem, noError⟩ := List.append_eq_nil_iff.mp quiet
  have clean : ∀ key, (program.rules (program.resolve policy)).slots.get? key ≠ some .failed :=
    fun key failed => accepted.no_fail quiet ((slots_eq_some accepted.distinct).mp failed)
  have fine := RuleSet.solve_unfailed _ _ clean noError
  refine ⟨List.append_eq_nil_iff.mpr ⟨?_, rules.errors_eq_nil fine noError⟩, rules.types_looser fine⟩
  refine List.filterMap_eq_nil_iff.mpr fun registration member => ?_
  rcases loosens.mem_of_loose member with listed | ⟨id, -, rfl⟩
  · exact List.filterMap_eq_nil_iff.mp noProblem registration listed
  · rfl

end Program

/-- Notes of variables that an inner block assigns them again. -/
def ScopeTree.reboundAll (tree : ScopeTree) (chosen : List DeclId) : ScopeTree :=
  chosen.foldl ScopeTree.markRebound tree

theorem ScopeTree.reboundAll_grows (tree : ScopeTree) (chosen : List DeclId) :
    tree.Grows (tree.reboundAll chosen) ∧
      (tree.reboundAll chosen).decls.size = tree.decls.size := by
  induction chosen generalizing tree with
  | nil => exact ⟨.refl tree, rfl⟩
  | cons first rest ih =>
    obtain ⟨grows, size⟩ := ih (tree.markRebound first)
    exact ⟨grows_markRebound.trans grows, size.trans Array.size_modify⟩

/-- A chosen variable is noted as assigned further in. -/
theorem ScopeTree.reboundAll_kind {tree : ScopeTree} {chosen : List DeclId} {id : DeclId}
    {final before : Bool} {node : NodeId} (member : id ∈ chosen)
    (kind : tree.decls[id]?.map Decl.kind = some (.assigned final node before)) :
    ∃ decl, (tree.reboundAll chosen).decls[id]? = some decl ∧ decl.kind = .assigned final node true := by
  induction chosen generalizing tree before with
  | nil => cases member
  | cons first rest ih =>
    obtain ⟨decl, stored, kind⟩ := Option.map_eq_some_iff.mp kind
    by_cases here : id = first
    · subst here
      obtain ⟨last, stored', older⟩ := ((tree.markRebound id).reboundAll_grows rest).1.decls
        (decls_markRebound stored)
      refine ⟨last, stored', ?_⟩
      have kinds := older.kind
      simp only [kind, DeclKind.rebound] at kinds
      generalize last.kind = after at kinds
      cases kinds <;> rfl
    · have grows : tree.Grows (tree.markRebound first) := grows_markRebound
      obtain ⟨marked, stored', older⟩ := grows.decls stored
      obtain ⟨after, kind'⟩ := DeclKind.Older.assigned (kind ▸ older.kind)
      exact ih ((List.mem_cons.mp member).resolve_left here)
        (by rw [stored', Option.map_some, kind'])

namespace Script

variable {source : String} {options : Options} {script : Script}

/-- **Type checking is monotone in what is unknown.** In a text without problems, note of any
variables that an inner block assigns them again, and check the types again: there is still no
problem, every node and declaration has its type or `unknown`, and the variables have `unknown`. -/
theorem check_reboundAll (compiled : Script.compile source options = .ok script)
    (chosen : List DeclId) :
    let again := script.program.check
      ⟨script.analysis.tree.reboundAll chosen, script.analysis.resolutions, []⟩
    again.errors = [] ∧
    (∀ id : NodeId, Option.Rel Ty.Looser again.nodeTypes[id]? script.analysis.types[id]?) ∧
    (∀ id : DeclId, Option.Rel Ty.Looser again.declTypes[id]? script.analysis.declTypes[id]?) ∧
    ∀ id ∈ chosen, ∀ final node before,
      script.analysis.tree.decls[id]?.map Decl.kind = some (.assigned final node before) →
        again.declTypes[id]? = some .unknown := by
  intro again
  obtain ⟨distinct, analyzed, -⟩ := of_compile compiled
  obtain ⟨clean, tree, resolutions, types, declTypes⟩ := Program.of_analyze analyzed
  have quiet := Program.quiet_of_analyze analyzed
  have accepted : script.program.Accepted options.redeclaration := ⟨distinct, clean⟩
  obtain ⟨grows, size⟩ := script.analysis.tree.reboundAll_grows chosen
  have loosens : (script.program.resolve options.redeclaration).Loosens
      ⟨script.analysis.tree.reboundAll chosen, script.analysis.resolutions, []⟩ :=
    ⟨resolutions, tree ▸ grows, tree ▸ size⟩
  obtain ⟨silent, looser⟩ := accepted.check_loosens quiet loosens
  refine ⟨silent, fun id => ?_, fun id => ?_, fun id member final node before kind => ?_⟩
  · rw [types, Solution.nodeTypes_eq_ty?, Solution.nodeTypes_eq_ty?]
    exact looser (.node id)
  · rw [declTypes, Solution.declTypes_eq_ty?, Solution.declTypes_eq_ty?]
    exact looser (.decl id)
  · obtain ⟨decl, stored, kind⟩ := ScopeTree.reboundAll_kind member kind
    have settled : (script.program.rules ⟨script.analysis.tree.reboundAll chosen,
        script.analysis.resolutions, []⟩).slots.get? (.decl id) = some (.ready .unknown) :=
      (Program.slots_eq_some distinct).mpr (List.mem_append_left _
        (Program.mem_seeds.mpr ⟨id, decl, .unknown, stored, by rw [kind]; rfl, rfl⟩))
    rw [Solution.declTypes_eq_ty?]
    exact AttributeTable.ty?_eq_some.mpr (RuleSet.kept_final _ settled)

/-- The variable that holds an array has no type in particular then, and there is no problem. -/
theorem check_reboundAll_summing : ∃ script, Script.compile Program.summing {} = .ok script ∧
    script.analysis.declTypes[17]? = some .array ∧
    let again := script.program.check
      ⟨script.analysis.tree.reboundAll [17], script.analysis.resolutions, []⟩
    again.errors = [] ∧ again.declTypes[17]? = some .unknown := by
  refine exists_compiled (fun script => script.analysis.declTypes[17]? = some .array &&
    script.analysis.tree.decls[17]?.map Decl.kind = some (.assigned false 14 false))
    (by decide +kernel) fun script compiled found => ?_
  simp only [Bool.and_eq_true, decide_eq_true_eq] at found
  obtain ⟨silent, -, -, unknown⟩ := check_reboundAll compiled [17]
  exact ⟨found.1, silent, unknown 17 List.mem_cons_self _ _ _ found.2⟩

end Script

end ScopedScript
