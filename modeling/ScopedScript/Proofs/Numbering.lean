/-
**A program that was read has different numbers everywhere.**

Reading hands out node numbers in order and puts each of them into the tree once, whether it is drawn
before the parts of a node or after them:

* `Numbered`: all numbers of a range, each once;
* `Parse.Numbers`: a reading step keeps the numbers in use a range, given those that it builds on;
* `Parse.exprNumbers`, `Parse.stmtNumbers`: expressions and statements;
* `Program.parse_numbered`: the numbers of a program that was read are a range from zero on;
* `Program.parse_ids_range`: so each number below the number of nodes belongs to one node.
-/

import Mathlib.Data.List.Perm.Basic
import ScopedScript.Ast.Parse
import ScopedScript.Proofs.Node

namespace ScopedScript

/-- The numbers from `low` on and below `high`, each once and in any order. -/
structure Numbered (low high : NodeId) (ids : List NodeId) : Prop where
  ordered : low ≤ high
  range : ids.Perm (List.range' low (high - low))

namespace Numbered

variable {low high : NodeId} {ids other : List NodeId}

theorem nodup (numbered : Numbered low high ids) : ids.Nodup :=
  numbered.range.nodup_iff.mpr List.nodup_range'

theorem perm (numbered : Numbered low high ids) (same : other.Perm ids) : Numbered low high other where
  ordered := numbered.ordered
  range := same.trans numbered.range

/-- It only matters how often each number occurs. -/
theorem recount (numbered : Numbered low high ids) (same : ∀ id, other.count id = ids.count id) :
    Numbered low high other :=
  numbered.perm (List.perm_iff_count.mpr same)

theorem fresh (numbered : Numbered low high ids) : Numbered low (high + 1) (high :: ids) where
  ordered := Nat.le_succ_of_le numbered.ordered
  range := by
    have last : low + 1 * (high - low) = high := by
      rw [Nat.one_mul, Nat.add_sub_cancel' numbered.ordered]
    rw [Nat.succ_sub numbered.ordered, List.range'_concat, last]
    exact (numbered.range.cons high).trans (List.perm_append_singleton high _).symm

/-- Nothing is in use before the first number is handed out. -/
theorem nil (low : NodeId) : Numbered low low [] where
  ordered := Nat.le_refl low
  range := by
    rw [Nat.sub_self]
    exact .nil

end Numbered

namespace Parse

variable {α β : Type} {given : List NodeId}

/-- A reading step keeps the numbers in use a range: those `given` to it and any others `held`. What it
gives has the numbers given and the ones handed out meanwhile. -/
def Numbers (given : List NodeId) (parse : Parse α) (ids : α → List NodeId) : Prop :=
  ∀ ⦃low held cursor result next⦄, Numbered low cursor.nextId (given ++ held) →
    parse cursor = .ok result next → Numbered low next.nextId (ids result ++ held)

/-- A reading step that hands out no numbers. -/
def Quiet (parse : Parse α) : Prop :=
  ∀ ⦃cursor result next⦄, parse cursor = .ok result next → next.nextId = cursor.nextId

/-! ### Rules -/

variable {ids : β → List NodeId}

theorem bind_ok {first : Parse α} {second : α → Parse β} {cursor next : Cursor} {result : β}
    (parsed : (first >>= second) cursor = .ok result next) :
    ∃ middle between, first cursor = .ok middle between ∧
      second middle between = .ok result next := by
  cases ran : first cursor with
  | ok middle between =>
    refine ⟨middle, between, rfl, ?_⟩
    simpa only [bind, EStateM.bind, ran] using parsed
  | error cause between => simp [bind, EStateM.bind, ran] at parsed

theorem Numbers.bind {first : Parse α} {second : α → Parse β} {middle : α → List NodeId}
    (here : Numbers given first middle)
    (there : ∀ result, Numbers (middle result) (second result) ids) :
    Numbers given (first >>= second) ids := by
  intro low held cursor result next numbered parsed
  obtain ⟨between, cursor', ran, rest⟩ := bind_ok parsed
  exact there between (here numbered ran) rest

theorem Numbers.after {first : Parse α} {second : α → Parse β}
    (quiet : Quiet first) (there : ∀ result, Numbers given (second result) ids) :
    Numbers given (first >>= second) ids := by
  have here : Numbers given first fun _ => given := fun _ _ _ _ _ numbered parsed => by
    rwa [quiet parsed]
  exact here.bind there

theorem Numbers.part {first : Parse α} {second : α → Parse β} {middle : α → List NodeId}
    (here : Numbers [] first middle)
    (there : ∀ result, Numbers (middle result ++ given) (second result) ids) :
    Numbers given (first >>= second) ids := by
  have framed : Numbers given first fun result => middle result ++ given :=
    fun _ _ _ _ _ numbered parsed => by
      rw [List.append_assoc]
      exact here numbered parsed
  exact framed.bind there

theorem Numbers.fresh {second : NodeId → Parse β}
    (there : ∀ id, Numbers (id :: given) (second id) ids) :
    Numbers given (freshId >>= second) ids := by
  have here : Numbers given freshId fun id => id :: given := by
    intro low held cursor id next numbered parsed
    cases parsed
    exact numbered.fresh
  exact here.bind there

theorem Numbers.tag {place : Position} {second : Tag → Parse β}
    (there : ∀ tag, Numbers (tag.id :: given) (second tag) ids) :
    Numbers given (freshTag place >>= second) ids := by
  have here : Numbers given (freshTag place) fun tag => tag.id :: given := by
    intro low held cursor tag next numbered parsed
    cases parsed
    exact numbered.fresh
  exact here.bind there

variable {ids : α → List NodeId}

theorem Numbers.done {result : α} (same : ids result = given) :
    Numbers given (pure result) ids := by
  intro low held cursor _ next numbered parsed
  cases parsed
  rwa [same]

theorem Numbers.reorder {other : List NodeId} {parse : Parse α}
    (here : Numbers other parse ids) (same : ∀ id, other.count id = given.count id) :
    Numbers given parse ids := by
  intro low held cursor result next numbered parsed
  have reordered := (List.perm_iff_count.mpr same).append_right held
  exact here (numbered.perm reordered) parsed

attribute [grind =] Expr.ids exprsIds entriesIds optionIds Stmt.ids Block.ids stmtsIds branchesIds
  Target.id Target.inner

/-- The end: each number occurs in the result as often as it was given. -/
theorem Numbers.give {result : α} (same : ∀ id, (ids result).count id = given.count id) :
    Numbers given (pure result) ids :=
  (Numbers.done rfl).reorder same

theorem Numbers.mistake {problem : Token → Problem} :
    Numbers given (mistake problem) ids := by
  intro low held cursor result next _ parsed
  cases parsed

theorem Numbers.choice {wanted : Prop} [Decidable wanted] {first second : Parse α}
    (here : Numbers given first ids) (there : Numbers given second ids) :
    Numbers given (if wanted then first else second) ids := by
  split
  · exact here
  · exact there

theorem quiet_token : Quiet token := by
  intro cursor result next parsed
  cases parsed
  rfl

theorem quiet_position : Quiet position := by
  intro cursor result next parsed
  cases parsed
  rfl

theorem quiet_advance : Quiet advance := by
  intro cursor result next parsed
  cases parsed
  rfl

theorem quiet_accept (wanted : Token) : Quiet (accept wanted) := by
  intro cursor result next parsed
  by_cases found : cursor.current.token = wanted
  · have moved : (accept wanted : Parse Bool) cursor = .ok true cursor.advance :=
      congrFun (if_pos found) cursor
    rw [moved] at parsed
    cases parsed
    rfl
  · have stayed : (accept wanted : Parse Bool) cursor = .ok false cursor :=
      congrFun (if_neg found) cursor
    rw [stayed] at parsed
    cases parsed
    rfl

theorem quiet_expect (wanted : Token) : Quiet (expect wanted) := by
  intro cursor result next parsed
  obtain ⟨found, between, ran, rest⟩ := bind_ok parsed
  have same := quiet_token ran
  split at rest
  · rw [quiet_advance rest, same]
  · cases rest

theorem numbers_ident : Numbers [] ident fun name => [name.id] := by
  refine .after quiet_position fun place => .after quiet_token fun found => ?_
  split
  · exact .after quiet_advance fun _ => .fresh fun id => .done rfl
  · exact .mistake

/-! ### Expressions -/

/-- What reading expressions does with numbers, down to a depth. -/
structure ExprNumbers (depth : Nat) : Prop where
  level (grade : Level) : Numbers [] (level depth grade) Expr.ids
  chain (grade : Level) (left : Expr) : Numbers left.ids (chain depth grade left) Expr.ids
  subscripts (base : Expr) : Numbers base.ids (subscripts depth base) Expr.ids
  primary : Numbers [] (primary depth) Expr.ids
  array (place : Position) : Numbers [] (array depth place) Expr.ids
  items : Numbers [] (items depth) exprsIds
  entries : Numbers [] (entries depth) entriesIds
  arguments : Numbers [] (arguments depth) exprsIds

section

variable {depth : Nat} (below : ExprNumbers depth)

include below

theorem numbers_level (grade : Level) : Numbers [] (level (depth + 1) grade) Expr.ids := by
  cases grade with
  | not =>
    rw [level]
    refine .after quiet_position fun place => .after (quiet_accept _) fun found => .choice ?_ ?_
    · exact .part (below.level _) fun operand => .tag fun tag => .give (by grind)
    · exact below.level _
  | sign =>
    rw [level]
    refine .after quiet_position fun place => .after (quiet_accept _) fun found => .choice ?_ ?_
    · exact .part (below.level _) fun operand => .tag fun tag => .give (by grind)
    · exact below.primary.bind fun base => below.subscripts base
  | _ =>
    rw [level]
    · exact (below.level _).bind fun left => below.chain _ left
    all_goals simp

theorem numbers_chain (grade : Level) (left : Expr) :
    Numbers left.ids (chain (depth + 1) grade left) Expr.ids := by
  rw [chain]
  refine .after quiet_token fun found => ?_
  split
  · exact .done rfl
  · refine .after quiet_advance fun _ => .part (below.level _) fun right => .tag fun tag => ?_
    exact (below.chain grade _).reorder (by grind)

theorem numbers_subscripts (base : Expr) :
    Numbers base.ids (subscripts (depth + 1) base) Expr.ids := by
  rw [subscripts]
  refine .after (quiet_accept _) fun found => .choice ?_ (.done rfl)
  refine .part (below.level _) fun index => .after (quiet_expect _) fun _ => .tag fun tag => ?_
  exact (below.subscripts _).reorder (by grind)

theorem numbers_primary : Numbers [] (primary (depth + 1)) Expr.ids := by
  refine .after quiet_position fun place => .after quiet_token fun found => ?_
  cases found with
  | int | text =>
    exact .after quiet_advance fun _ => .tag fun tag => .done rfl
  | name =>
    refine .part numbers_ident fun callee => .after (quiet_accept _) fun found => .choice ?_ ?_
    · refine .part below.arguments fun args => .after (quiet_expect _) fun _ => ?_
      exact .tag fun tag => .give (by grind)
    · exact .done rfl
  | keyword word =>
    cases word with
    | true_ | false_ | none_ =>
      exact .after quiet_advance fun _ => .tag fun tag => .done rfl
    | _ => exact .mistake
  | mark sign =>
    cases sign with
    | leftParen =>
      -- an expression in parentheses is the expression
      refine .after quiet_advance fun _ => (below.level _).bind fun inner => ?_
      exact .after (quiet_expect _) fun _ => .done rfl
    | leftBracket => exact .after quiet_advance fun _ => below.array place
    | leftBrace =>
      refine .after quiet_advance fun _ => .part below.entries fun found => ?_
      exact .after (quiet_expect _) fun _ => .tag fun tag => .give (by grind)
    | _ => exact .mistake
  | eof => exact .mistake

theorem numbers_array (place : Position) : Numbers [] (array (depth + 1) place) Expr.ids := by
  rw [array]
  refine .after (quiet_accept _) fun found => .choice ?_ ?_
  · exact .tag fun tag => .done rfl
  refine .after (quiet_accept _) fun found => .choice ?_ ?_
  · refine .part (below.level _) fun size => .after (quiet_expect _) fun _ => ?_
    exact .tag fun tag => .give (by grind)
  refine .part (below.level _) fun first => .after (quiet_accept _) fun found => .choice ?_ ?_
  · refine .part numbers_ident fun binder => .after (quiet_expect _) fun _ => ?_
    refine .part (below.level _) fun source => ?_
    have clause : Numbers [] (do
        if ← accept (.keyword .if_) then return some (← level depth .or)
        return none) optionIds := by
      refine .after (quiet_accept _) fun found => .choice ?_ (.done rfl)
      exact (below.level _).bind fun condition => .done rfl
    exact .part clause fun filter => .after (quiet_expect _) fun _ => .tag fun tag => .give (by grind)
  · refine .part below.items fun others => .after (quiet_expect _) fun _ => ?_
    exact .tag fun tag => .give (by grind)

theorem numbers_items : Numbers [] (items (depth + 1)) exprsIds := by
  rw [items]
  refine .after (quiet_accept _) fun found => .choice ?_ (.done rfl)
  refine .after quiet_token fun found => .choice (.done rfl) ?_
  exact .part (below.level _) fun item => .part below.items fun rest => .give (by grind)

theorem numbers_entries : Numbers [] (entries (depth + 1)) entriesIds := by
  rw [entries]
  refine .after quiet_token fun found => .after quiet_token fun found => .choice ?_ ?_
  · exact .done rfl
  refine .part (below.level _) fun key => .after (quiet_expect _) fun _ => ?_
  refine .part (below.level _) fun value => .after (quiet_accept _) fun found => .choice ?_ ?_
  · exact .part below.entries fun rest => .give (by grind)
  · exact .give (by grind)

theorem numbers_arguments : Numbers [] (arguments (depth + 1)) exprsIds := by
  rw [arguments]
  refine .after quiet_token fun found => .after quiet_token fun found => .choice ?_ ?_
  · exact .done rfl
  refine .part (below.level _) fun argument => .after (quiet_accept _) fun found => .choice ?_ ?_
  · exact .part below.arguments fun rest => .give (by grind)
  · exact .done rfl

end

/-- **Reading an expression keeps all numbers different.** -/
theorem exprNumbers (depth : Nat) : ExprNumbers depth := by
  induction depth with
  | zero =>
    exact
      { level := fun _ => by rw [level]; exact .mistake
        chain := fun _ _ => by rw [chain]; exact .mistake
        subscripts := fun _ => by rw [subscripts]; exact .mistake
        primary := .mistake
        array := fun _ => by rw [array]; exact .mistake
        items := by rw [items]; exact .mistake
        entries := by rw [entries]; exact .mistake
        arguments := by rw [arguments]; exact .mistake }
  | succ depth below =>
    exact
      { level := numbers_level below
        chain := numbers_chain below
        subscripts := numbers_subscripts below
        primary := numbers_primary below
        array := numbers_array below
        items := numbers_items below
        entries := numbers_entries below
        arguments := numbers_arguments below }

theorem numbers_expr (depth : Nat) : Numbers [] (expr depth) Expr.ids := (exprNumbers depth).level .or

/-! ### Statements -/

theorem numbers_parameters (depth : Nat) : Numbers [] (parameters depth) (List.map Ident.id) := by
  induction depth with
  | zero => exact .mistake
  | succ depth ih =>
    rw [parameters]
    refine .after quiet_token fun found => .after quiet_token fun found => .choice ?_ ?_
    · exact .done rfl
    refine .part numbers_ident fun parameter => .after (quiet_accept _) fun found => .choice ?_ ?_
    · exact .part ih fun rest => .give (by grind)
    · exact .done rfl

/-- An expression that becomes a target gives its number to it. -/
theorem numbers_target (left : Expr) :
    Numbers left.ids (target left) fun goal => goal.id :: goal.inner := by
  cases left with
  | name | index => exact .done rfl
  | _ => exact .mistake

theorem numbers_returnStmt (depth : Nat) : Numbers [] (returnStmt depth) Stmt.ids := by
  rw [returnStmt]
  refine .after quiet_position fun place => .after (quiet_expect _) fun _ => ?_
  refine .after quiet_token fun found => .choice ?_ (.done rfl)
  exact (numbers_expr depth).bind fun value => .done rfl

theorem numbers_finalStmt (depth : Nat) : Numbers [] (finalStmt depth) Stmt.ids := by
  rw [finalStmt]
  refine .after quiet_position fun place => .after (quiet_expect _) fun _ => ?_
  refine .part numbers_ident fun name => .after (quiet_expect _) fun _ => ?_
  exact .part (numbers_expr depth) fun value => .tag fun tag => .give (by grind)

theorem numbers_assignOrExpr (depth : Nat) : Numbers [] (assignOrExpr depth) Stmt.ids := by
  rw [assignOrExpr]
  refine .after quiet_position fun place => (numbers_expr depth).bind fun left => ?_
  refine .after quiet_token fun found => .choice ?_ (.done rfl)
  refine (numbers_target left).bind fun goal => .after quiet_advance fun _ => ?_
  exact .part (numbers_expr depth) fun value => .tag fun tag => .give (by grind)

/-- What reading statements does with numbers, down to a depth. -/
structure StmtNumbers (depth : Nat) : Prop where
  stmt : Numbers [] (stmt depth) Stmt.ids
  block : Numbers [] (block depth) Block.ids
  stmts : Numbers [] (stmts depth) stmtsIds
  branches : Numbers [] (branches depth) branchesIds

section

variable {depth : Nat} (below : StmtNumbers depth)

include below

theorem numbers_stmt : Numbers [] (stmt (depth + 1)) Stmt.ids := by
  rw [stmt]
  refine .after quiet_position fun place => .after quiet_token fun found => ?_
  split
  · refine .after quiet_advance fun _ => .fresh fun node => .part numbers_ident fun name => ?_
    refine .after (quiet_expect _) fun _ => .part (numbers_parameters depth) fun params => ?_
    refine .after (quiet_expect _) fun _ => .after (quiet_expect _) fun _ => ?_
    exact .part below.block fun body => .after (quiet_expect _) fun _ => .give (by grind)
  · refine .after quiet_advance fun _ => .part (numbers_expr depth) fun condition => ?_
    refine .after (quiet_expect _) fun _ => .part below.block fun body => ?_
    exact .part below.branches fun others => .after (quiet_expect _) fun _ => .give (by grind)
  · refine .after quiet_advance fun _ => .part (numbers_expr depth) fun condition => ?_
    refine .after (quiet_expect _) fun _ => .part below.block fun body => ?_
    exact .after (quiet_expect _) fun _ => .give (by grind)
  · refine .after quiet_advance fun _ => .fresh fun node => .part numbers_ident fun binder => ?_
    refine .after (quiet_expect _) fun _ => .part (numbers_expr depth) fun source => ?_
    refine .after (quiet_expect _) fun _ => .part below.block fun body => ?_
    exact .after (quiet_expect _) fun _ => .give (by grind)
  · exact numbers_returnStmt depth
  · exact numbers_finalStmt depth
  · exact numbers_assignOrExpr depth

theorem numbers_block : Numbers [] (block (depth + 1)) Block.ids := by
  rw [block]
  refine .fresh fun node => .after quiet_position fun place => ?_
  exact .part below.stmts fun found => .give (by grind)

theorem numbers_stmts : Numbers [] (stmts (depth + 1)) stmtsIds := by
  rw [stmts]
  refine .after quiet_token fun found => .choice (.done rfl) ?_
  exact .part below.stmt fun first => .part below.stmts fun rest => .give (by grind)

theorem numbers_branches : Numbers [] (branches (depth + 1)) branchesIds := by
  rw [branches]
  refine .after quiet_position fun place => .after quiet_token fun found => ?_
  split
  · refine .after quiet_advance fun _ => .part (numbers_expr depth) fun condition => ?_
    refine .after (quiet_expect _) fun _ => .part below.block fun body => ?_
    exact .part below.branches fun rest => .give (by grind)
  · refine .after quiet_advance fun _ => .after (quiet_expect _) fun _ => ?_
    exact .part below.block fun body => .part below.branches fun rest => .give (by grind)
  · exact .done rfl

end

/-- **Reading a statement keeps all numbers different.** -/
theorem stmtNumbers (depth : Nat) : StmtNumbers depth := by
  induction depth with
  | zero =>
    exact
      { stmt := by rw [stmt]; exact .mistake
        block := by rw [block]; exact .mistake
        stmts := by rw [stmts]; exact .mistake
        branches := by rw [branches]; exact .mistake }
  | succ depth below =>
    exact
      { stmt := numbers_stmt below
        block := numbers_block below
        stmts := numbers_stmts below
        branches := numbers_branches below }

/-! ### Programs -/

/-- The statements of a program keep all numbers different, if there is no mistake. -/
theorem topLevel_numbered (depth : Nat) {count low : Nat} {cursor : Cursor} {held : List NodeId}
    (numbered : Numbered low cursor.nextId held) (fine : (topLevel depth count cursor).2 = []) :
    ∃ high, Numbered low high (stmtsIds (topLevel depth count cursor).1 ++ held) := by
  induction count generalizing cursor held with
  | zero => exact ⟨_, numbered⟩
  | succ count ih =>
    rw [topLevel] at fine ⊢
    by_cases ended : cursor.current.token = .eof
    · rw [if_pos ended]
      exact ⟨_, numbered⟩
    rw [if_neg ended] at fine ⊢
    cases parsed : (stmt depth : Parse Stmt).run cursor with
    | error diagnostic next => simp [parsed] at fine
    | ok first next =>
      simp only [parsed] at fine ⊢
      have kept : Numbered low next.nextId (first.ids ++ held) :=
        (stmtNumbers depth).stmt numbered parsed
      have moved : Numbered low
          (if next.rest.length = cursor.rest.length then next.advance else next).nextId
          (first.ids ++ held) := by
        split
        · exact kept
        · exact kept
      obtain ⟨high, all⟩ := ih moved fine
      refine ⟨high, all.recount fun id => ?_⟩
      simp only [stmtsIds, List.count_append]
      omega

end Parse

variable {lexemes : List Lexeme} {program : Program}

/-- **The numbers of a program that was read are a range from zero on.** The program and its block are
numbered before everything in them. -/
theorem Program.parse_numbered (parsed : Program.parse lexemes = .ok program) :
    ∃ high, Numbered 0 high program.ids := by
  unfold Program.parse at parsed
  by_cases fine : (Parse.topLevel (parseDepth lexemes.length) lexemes.length ⟨lexemes, 2⟩).2 = []
  · have outer : Numbered 0 (Cursor.mk lexemes 2).nextId [1, 0] := (Numbered.nil 0).fresh.fresh
    obtain ⟨high, numbered⟩ := Parse.topLevel_numbered (parseDepth lexemes.length) outer fine
    simp only [fine, List.isEmpty_nil, if_true, Except.ok.injEq] at parsed
    refine ⟨high, numbered.recount fun id => ?_⟩
    rw [← parsed]
    simp only [Program.ids, Block.ids, List.count_cons, List.count_append, List.count_nil]
    omega
  · simp [fine] at parsed

/-- All numbers of a program that was read differ. -/
theorem Program.parse_ids_nodup (parsed : Program.parse lexemes = .ok program) : program.ids.Nodup := by
  obtain ⟨high, numbered⟩ := Program.parse_numbered parsed
  exact numbered.nodup

/-- **The nodes of a program that was read are numbered from zero on without gaps**: no two of them have
the same number, be they program, blocks, definitions, loops, assignments, targets, names or
expressions, and the numbers in use are those below the number of nodes. Up to `2 ^ 32` nodes they also
differ as numbers of 32 bits. -/
theorem Program.parse_ids_range (parsed : Program.parse lexemes = .ok program) :
    program.ids.Nodup ∧ (∀ id, id ∈ program.ids ↔ id < program.ids.length) ∧
      (program.ids.length ≤ UInt32.size → (program.ids.map UInt32.ofNat).Nodup) := by
  obtain ⟨high, numbered⟩ := Program.parse_numbered parsed
  have length : program.ids.length = high := by
    rw [numbered.range.length_eq, List.length_range', Nat.sub_zero]
  have below : ∀ id, id ∈ program.ids ↔ id < program.ids.length := by
    intro id
    rw [numbered.range.mem_iff, length, List.mem_range'_1]
    simp
  refine ⟨numbered.nodup, below, fun few => numbered.nodup.map_on fun id listed id' listed' same => ?_⟩
  have small {id : NodeId} (listed : id ∈ program.ids) : id < UInt32.size :=
    Nat.lt_of_lt_of_le ((below id).mp listed) few
  rwa [← UInt32.toNat_inj, UInt32.toNat_ofNat_of_lt' (small listed),
    UInt32.toNat_ofNat_of_lt' (small listed')] at same

theorem Program.exists_parsed (test : Program → Bool)
    (passes : (Program.parse lexemes).toOption.any test = true) :
    ∃ program, Program.parse lexemes = .ok program ∧ test program = true := by
  cases parsed : Program.parse lexemes with
  | error =>
    rw [parsed] at passes
    cases passes
  | ok program =>
    rw [parsed] at passes
    exact ⟨program, rfl, passes⟩

/-- A function that stores into its parameter, and a loop over what a call of it gives. -/
def storingTokens : List Token :=
  [.keyword .def_, .name "f", .mark .leftParen, .name "x", .mark .rightParen, .mark .colon,
    .name "x", .mark .leftBracket, .int 0, .mark .rightBracket, .mark .assign, .name "x",
    .keyword .end_,
    .keyword .for_, .name "i", .keyword .in_, .name "f", .mark .leftParen, .mark .leftBracket,
    .mark .colon, .int 2, .mark .rightBracket, .mark .rightParen, .mark .colon, .keyword .end_,
    .eof]

theorem Program.parse_ids_range_storing :
    ∃ program, Program.parse (storingTokens.map (⟨·, .start⟩)) = .ok program ∧
      program.ids.Nodup ∧ (∀ id, id ∈ program.ids ↔ id < program.ids.length) ∧
      (program.ids.map UInt32.ofNat).Nodup := by
  obtain ⟨program, parsed, few⟩ := @Program.exists_parsed (storingTokens.map (⟨·, .start⟩))
    (fun program => program.ids.length ≤ UInt32.size) (by decide +kernel)
  obtain ⟨distinct, below, words⟩ := Program.parse_ids_range parsed
  exact ⟨program, parsed, distinct, below, words (of_decide_eq_true few)⟩

end ScopedScript
