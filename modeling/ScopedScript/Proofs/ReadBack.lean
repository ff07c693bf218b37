/-
**Reading undoes writing.**

A program is written as tokens and read again. The tree that comes back is the one that was written,
with other numbers and places:

* `Parse.EndsStmt`: what comes behind a statement does not go on with it;
* `Parse.readsStmt`, `Parse.readsStmts`: statements, blocks and clauses are read as they were written;
* `Parse.topLevel_stmts`: so are the statements of a program, without a mistake;
* `Program.parse_tokens`: **reading undoes writing.**
-/

import ScopedScript.Proofs.Reading

namespace ScopedScript

namespace Parse

variable {after : List Token} {depth : Nat} {tag : Tag} {position : Position} {body : Block}
variable {first : Stmt} {rest written : List Stmt} {tokens : List Token} {goal : Target}
  {value condition : Expr} {params : List Ident}

/-! ### What comes behind a statement -/

/-- What comes behind a statement does not go on with it. -/
structure EndsStmt (stmt : Stmt) (after : List Token) : Prop where
  stops : Stops 0 after
  unassigned : ∀ next ∈ after.head?, next ≠ .mark .assign
  valueless : stmt.isBareReturn = true → ∀ next ∈ after.head?, next.startsExpr = false

/-- What comes behind a block closes it. -/
def EndsBlock (after : List Token) : Prop := ∀ next ∈ after.head?, next.endsBlock = true

theorem EndsBlock.cons {next : Token} (ends : next.endsBlock = true) :
    EndsBlock (next :: after) := by
  intro found same
  cases same
  exact ends

/-- A token that closes a block does not go on with a statement. -/
theorem EndsBlock.stmt {stmt : Stmt} (ends : EndsBlock after) : EndsStmt stmt after := by
  have closes : ∀ next : Token, next.endsBlock = true →
      next.grip ≤ 0 ∧ next ≠ .mark .assign ∧ next.startsExpr = false := by
    intro next
    cases next with
    | keyword word => cases word <;> decide
    | eof => decide
    | _ => exact nofun
  exact ⟨fun next first => (closes next (ends next first)).1,
    fun next first => (closes next (ends next first)).2.1,
    fun _ next first => (closes next (ends next first)).2.2⟩

/-- Statements in a row do not go on with one another. -/
theorem endsStmt_of_row (printable : stmtsPrintable (first :: rest) = true) (ends : EndsBlock after) :
    EndsStmt first (stmtsTokens rest ++ after) := by
  cases rest with
  | nil => exact ends.stmt
  | cons second rest =>
    obtain ⟨next, more, tokens, starts⟩ := second.opens
    simp only [stmtsPrintable, Bool.and_eq_true, Bool.not_eq_true', Stmt.goesOn, Stmt.startsExpr,
      tokens, List.head?_cons, Option.any_some, Bool.and_eq_false_iff] at printable
    obtain ⟨⟨-, valued⟩, ⟨⟨-, apart⟩, -⟩, -⟩ := printable
    obtain ⟨loose, unassigned, -⟩ := Token.grip_of_startsStmt starts apart
    rw [stmtsTokens, tokens]
    refine ⟨.cons _ (Nat.le_of_eq loose), ?_, ?_⟩
    · intro found same
      cases same
      exact unassigned
    · intro bare found same
      cases same
      exact valued.resolve_left (by rw [bare]; decide)

/-! ### Simple statements -/

/-- A statement that begins as an expression does is an assignment or an expression. -/
theorem reads_stmt_of_expr {strength : Nat} {tokens' : List Token} {good : Stmt → Prop}
    (opens : Opens strength tokens)
    (here : Reads (assignOrExpr depth) (tokens ++ tokens') after good) :
    Reads (stmt (depth + 1)) (tokens ++ tokens') after good := by
  obtain ⟨first, rest, rfl, starts⟩ := opens.starts
  rw [stmt]
  refine .place fun place => .look rfl ?_
  -- the words that open other statements do not begin an expression
  split
  any_goals cases starts
  exact here

theorem reads_target {β : Type} {left : Expr} {second : Target → Parse β} {good : β → Prop}
    (same : left.bare = goal.expr.bare)
    (there : ∀ found : Target, found.bare = goal.bare → Reads (second found) tokens after good) :
    Reads (target left >>= second) tokens after good := by
  cases goal with
  | name ident =>
    cases left with
    | name tag name =>
      refine there _ ?_
      simp only [Expr.bare, Target.expr, Expr.name.injEq, true_and] at same
      simp [Target.bare, Ident.bare, same]
    | _ => simp [Expr.bare, Target.expr] at same
  | element tag base index =>
    cases left with
    | index tag' base' index' =>
      refine there _ ?_
      simp only [Expr.bare, Target.expr, Expr.index.injEq, true_and] at same
      simp [Target.bare, same]
    | _ => simp [Expr.bare, Target.expr] at same

/-- A statement is read as it was written. -/
def ReadsStmt (written : Stmt) : Prop :=
  ∀ depth after, 16 * written.tokens.length + 8 ≤ depth → EndsStmt written after →
    Reads (stmt (depth + 1)) written.tokens after fun found => found.bare = written.bare

theorem readsStmt_expr (value : Expr) : ReadsStmt (.expr value) := by
  intro depth after enough ends
  refine .behind fun next more behind => ?_
  subst behind
  have here : Reads (assignOrExpr depth) (value.tokens ++ []) (next :: more)
      fun found => found.bare = (Stmt.expr value).bare := by
    rw [List.append_nil, assignOrExpr]
    refine .place fun place => ((readsBack value).whole depth _ enough ends.stops).last
      fun found same => .look rfl (.fails (ends.unassigned next rfl) (.done ?_))
    simp [Stmt.bare, same]
  have whole := reads_stmt_of_expr value.opens here
  rwa [List.append_nil] at whole

theorem readsStmt_assign : ReadsStmt (.assign tag goal value false) := by
  intro depth after enough ends
  simp only [Stmt.tokens, List.length_append, List.length_cons] at enough
  refine reads_stmt_of_expr goal.expr.opens ?_
  rw [assignOrExpr]
  refine .place fun place => ((readsBack goal.expr).whole depth _ (by omega)
    (.cons _ (by decide))).bind fun left same => ?_
  refine .look rfl (.holds rfl (reads_target same fun found same => .pass ?_))
  refine ((readsBack value).whole depth _ (by omega) ends.stops).last
    fun found same => .tag fun tag' => .done ?_
  simp [Stmt.bare, *]

theorem readsStmt_final {ident : Ident} : ReadsStmt (.assign tag (.name ident) value true) := by
  intro depth after enough ends
  have tokens : Stmt.tokens (.assign tag (.name ident) value true) =
    .keyword .final :: .name ident.name :: .mark .assign :: value.tokens := rfl
  rw [tokens] at enough ⊢
  simp only [List.length_cons] at enough
  rw [stmt]
  refine .place fun place => .look rfl ?_
  refine .place fun place => .expect (.name fun found called => .expect ?_)
  refine ((readsBack value).whole depth _ (by omega) ends.stops).last
    fun found' same => .tag fun tag' => .done ?_
  simp [Stmt.bare, Target.bare, Ident.bare, called, same]

theorem readsStmt_ret {value : Option Expr} : ReadsStmt (.ret position value) := by
  intro depth after enough ends
  refine .behind fun next more behind => ?_
  subst behind
  rw [stmt]
  cases value with
  | none =>
    refine .place fun place => .look rfl (.place fun place => .expect (.look rfl ?_))
    exact .fails (by simp [ends.valueless rfl next rfl]) (.done rfl)
  | some value =>
    simp only [Stmt.tokens, valueTokens, List.length_cons] at enough
    obtain ⟨first, rest, tokens, starts⟩ := value.opens.starts
    refine .place fun place => .look rfl (.place fun place => .expect ?_)
    refine .look (by rw [valueTokens, tokens]; rfl) (.holds starts ?_)
    refine ((readsBack value).whole depth _ (by omega) ends.stops).last
      fun found same => .done ?_
    simp [Stmt.bare, optionBare, same]

/-! ### Rows of statements -/

/-- A block is read as it was written. -/
def ReadsBlock (written : Block) : Prop :=
  ∀ depth after, 16 * written.tokens.length + 11 ≤ depth → EndsBlock after →
    Reads (block depth) written.tokens after fun found => found.bare = written.bare

/-- Statements in a row are read as they were written. -/
def ReadsStmts (written : List Stmt) : Prop :=
  ∀ depth after, 16 * (stmtsTokens written).length + 10 ≤ depth → EndsBlock after →
    Reads (stmts depth) (stmtsTokens written) after fun found => stmtsBare found = stmtsBare written

/-- Clauses in a row are read as they were written. -/
def ReadsBranches (written : List Branch) : Prop :=
  ∀ depth after, 16 * (branchesTokens written).length + 1 ≤ depth →
    Reads (branches depth) (branchesTokens written) (.keyword .end_ :: after)
      fun found => branchesBare found = branchesBare written

theorem readsStmts_nil : ReadsStmts [] := by
  intro depth after enough ends
  refine .behind fun next more behind => ?_
  subst behind
  obtain ⟨depth, rfl⟩ : ∃ less, depth = less + 1 := ⟨depth - 1, by omega⟩
  rw [stmts]
  exact .look rfl (.holds (ends next rfl) (.done rfl))

theorem readsStmts_cons (printable : stmtsPrintable (first :: rest) = true) (here : ReadsStmt first)
    (there : ReadsStmts rest) : ReadsStmts (first :: rest) := by
  intro depth after enough ends
  obtain ⟨next, more, tokens, starts⟩ := first.opens
  have inside : next.endsBlock = false := by
    simp only [stmtsPrintable, Bool.and_eq_true, Bool.not_eq_true', Stmt.goesOn, tokens,
      List.head?_cons, Option.any_some] at printable
    exact (Token.grip_of_startsStmt starts printable.1.1.2).2.2
  have long := congrArg List.length tokens
  simp only [List.length_cons] at long
  simp only [stmtsTokens, List.length_append] at enough
  obtain ⟨depth, rfl⟩ : ∃ less, depth = less + 2 := ⟨depth - 2, by omega⟩
  rw [stmts]
  refine .look (by rw [stmtsTokens, tokens]; rfl) (.fails (by simp [inside]) ?_)
  refine (here depth _ (by omega) (endsStmt_of_row printable ends)).bind fun found same => ?_
  refine (there (depth + 1) after (by omega) ends).last fun found' same' => .done ?_
  rw [stmtsBare, stmtsBare, same, same']

theorem readsBlock (here : ReadsStmts written) : ReadsBlock (.mk tag written) := by
  intro depth after enough ends
  rw [Block.tokens] at enough
  obtain ⟨depth, rfl⟩ : ∃ less, depth = less + 1 := ⟨depth - 1, by omega⟩
  rw [block]
  refine .fresh fun id => .place fun place => ?_
  refine (here depth after (by omega) ends).last fun found same => .done ?_
  rw [Block.bare, Block.bare, same]

/-- Clauses or `end` come behind a block of a conditional. -/
theorem endsBlock_of_branches (written : List Branch) (after : List Token) :
    EndsBlock (branchesTokens written ++ .keyword .end_ :: after) := by
  cases written with
  | nil => exact .cons rfl
  | cons first rest =>
    obtain ⟨position, condition, body⟩ := first
    cases condition with
    | none => exact .cons rfl
    | some condition => exact .cons rfl

theorem readsBranches_nil : ReadsBranches [] := by
  intro depth after enough
  obtain ⟨depth, rfl⟩ : ∃ less, depth = less + 1 := ⟨depth - 1, by omega⟩
  rw [branches]
  exact .place fun place => .look rfl (.done rfl)

theorem readsBranches_cons {condition : Option Expr} {rest : List Branch} (here : ReadsBlock body)
    (there : ReadsBranches rest) : ReadsBranches (.mk position condition body :: rest) := by
  intro depth after enough
  have ends := endsBlock_of_branches rest after
  obtain ⟨depth, rfl⟩ : ∃ less, depth = less + 1 := ⟨depth - 1, by omega⟩
  rw [branches]
  cases condition with
  | none =>
    simp only [branchesTokens, List.length_cons, List.length_append] at enough
    refine .place fun place => .look rfl (.pass (.expect ?_))
    refine (here depth _ (by omega) ends).bind fun found same => ?_
    refine (there depth after (by omega)).last fun found' same' => .done ?_
    rw [branchesBare, branchesBare, same, same', optionBare]
  | some condition =>
    simp only [branchesTokens, List.length_cons, List.length_append] at enough
    refine .place fun place => .look rfl (.pass ?_)
    refine ((readsBack condition).whole depth _ (by omega)
      (.cons _ (by decide))).bind fun asked same => .expect ?_
    refine (here depth _ (by omega) ends).bind fun found same' => ?_
    refine (there depth after (by omega)).last fun found' same'' => .done ?_
    simp only [branchesBare, optionBare, same, same', same'']

/-! ### Compound statements -/

theorem reads_parameters (after : List Token)
    (enough : 16 * (listed (params.map fun param => [Token.name param.name])).length + 9 ≤ depth) :
    Reads (parameters depth) (listed (params.map fun param => [.name param.name]))
      (.mark .rightParen :: after) fun found => found.map Ident.bare = params.map Ident.bare := by
  refine reads_listed Ident.bare (fun param => [.name param.name]) parameters_succ rfl (by decide)
    (fun param inside => ⟨?_, fun depth after _ _ => ?_⟩) after enough
  · exact ⟨_, _, rfl, nofun, nofun⟩
  · exact (Reads.ident param.name).mono fun found called => by rw [Ident.bare, called, Ident.bare]

theorem readsStmt_cond {others : List Branch} (here : ReadsBlock body)
    (there : ReadsBranches others) : ReadsStmt (.cond position condition body others) := by
  intro depth after enough ends
  simp only [Stmt.tokens, List.length_cons, List.length_append] at enough
  rw [stmt]
  refine .place fun place => .look rfl (.pass ?_)
  refine ((readsBack condition).whole depth _ (by omega)
    (.cons _ (by decide))).bind fun asked same => .expect ?_
  have closed : EndsBlock (branchesTokens others ++ [.keyword .end_] ++ after) := by
    rw [List.append_assoc]
    exact endsBlock_of_branches others after
  refine (here depth _ (by omega) closed).bind fun found same' => ?_
  refine (there depth _ (by omega)).bind fun found' same'' => .expect (.done ?_)
  simp only [Stmt.bare, same, same', same'']

theorem readsStmt_loop (here : ReadsBlock body) : ReadsStmt (.loop position condition body) := by
  intro depth after enough ends
  simp only [Stmt.tokens, List.length_cons, List.length_append] at enough
  rw [stmt]
  refine .place fun place => .look rfl (.pass ?_)
  refine ((readsBack condition).whole depth _ (by omega)
    (.cons _ (by decide))).bind fun asked same => .expect ?_
  refine (here depth _ (by omega) (.cons rfl)).bind fun found same' => .expect (.done ?_)
  simp only [Stmt.bare, same, same']

theorem readsStmt_each {binder : Ident} {source : Expr} (here : ReadsBlock body) :
    ReadsStmt (.each tag binder source body) := by
  intro depth after enough ends
  simp only [Stmt.tokens, List.length_cons, List.length_append] at enough
  rw [stmt]
  refine .place fun place => .look rfl (.pass (.fresh fun id => .name fun ident called => ?_))
  refine .expect (((readsBack source).whole depth _ (by omega)
    (.cons _ (by decide))).bind fun asked same => .expect ?_)
  refine (here depth _ (by omega) (.cons rfl)).bind fun found same' => .expect (.done ?_)
  simp only [Stmt.bare, Ident.bare, called, same, same']

theorem readsStmt_define {name : Ident} (here : ReadsBlock body) :
    ReadsStmt (.define tag name params body) := by
  intro depth after enough ends
  simp only [Stmt.tokens, List.length_cons, List.length_append] at enough
  rw [stmt]
  refine .place fun place => .look rfl (.pass (.fresh fun id => .name fun ident called => ?_))
  refine .expect ((reads_parameters _ (show _ ≤ depth by omega)).bind fun found same => ?_)
  refine .expect (.expect ?_)
  refine (here depth _ (by omega) (.cons rfl)).bind fun found' same' => .expect (.done ?_)
  rw [Stmt.bare, Stmt.bare, same, same']
  simp [Ident.bare, called]

/-! ### All statements -/

mutual

/-- **Every statement is read as it was written.** -/
theorem readsStmt (written : Stmt) (printable : written.printable = true) : ReadsStmt written := by
  cases written with
  | expr value => exact readsStmt_expr value
  | assign tag goal value final =>
    cases final with
    | false => exact readsStmt_assign
    | true =>
      cases goal with
      | name ident => exact readsStmt_final
      | element => cases printable
  | cond position condition body others =>
    have inner := Bool.and_eq_true_iff.mp printable
    exact readsStmt_cond (readsBlock_all body inner.1) (readsBranches others inner.2)
  | loop position condition body => exact readsStmt_loop (readsBlock_all body printable)
  | each tag binder source body => exact readsStmt_each (readsBlock_all body printable)
  | define tag name params body => exact readsStmt_define (readsBlock_all body printable)
  | ret => exact readsStmt_ret

theorem readsBlock_all (written : Block) (printable : written.printable = true) :
    ReadsBlock written := by
  cases written with
  | mk tag stmts => exact readsBlock (readsStmts stmts printable)

theorem readsStmts (written : List Stmt) (printable : stmtsPrintable written = true) :
    ReadsStmts written := by
  cases written with
  | nil => exact readsStmts_nil
  | cons first rest =>
    have inner := Bool.and_eq_true_iff.mp printable
    have outer := Bool.and_eq_true_iff.mp (Bool.and_eq_true_iff.mp inner.1).1
    exact readsStmts_cons printable (readsStmt first outer.1) (readsStmts rest inner.2)

theorem readsBranches (written : List Branch) (printable : branchesPrintable written = true) :
    ReadsBranches written := by
  cases written with
  | nil => exact readsBranches_nil
  | cons first rest =>
    cases first with
    | mk position condition body =>
      have inner := Bool.and_eq_true_iff.mp printable
      exact readsBranches_cons (readsBlock_all body inner.1) (readsBranches rest inner.2)

end

/-! ### Programs -/

theorem length_le_stmtsTokens (written : List Stmt) :
    written.length ≤ (stmtsTokens written).length := by
  induction written with
  | nil => exact Nat.le_refl _
  | cons first rest ih =>
    obtain ⟨next, more, tokens, -⟩ := first.opens
    rw [stmtsTokens, tokens, List.length_append, List.length_cons, List.length_cons]
    omega

/-- **The statements of a program are read as they were written,** without a mistake. -/
theorem topLevel_stmts (count : Nat) {cursor : Cursor} (printable : stmtsPrintable written = true)
    (ahead : cursor.rest.map Lexeme.token = stmtsTokens written ++ [.eof])
    (enough : 16 * (stmtsTokens written).length + 9 ≤ depth) (many : written.length < count) :
    ∃ found, topLevel depth count cursor = (found, []) ∧ stmtsBare found = stmtsBare written := by
  induction written generalizing count cursor with
  | nil =>
    obtain ⟨count, rfl⟩ : ∃ less, count = less + 1 := ⟨count - 1, by omega⟩
    refine ⟨[], ?_, rfl⟩
    rw [topLevel, if_pos (Cursor.current_token ahead)]
  | cons first rest ih =>
    obtain ⟨count, rfl⟩ : ∃ less, count = less + 1 := ⟨count - 1, by omega⟩
    obtain ⟨depth, rfl⟩ : ∃ less, depth = less + 1 := ⟨depth - 1, by omega⟩
    have inner := Bool.and_eq_true_iff.mp printable
    have outer := Bool.and_eq_true_iff.mp (Bool.and_eq_true_iff.mp inner.1).1
    obtain ⟨start, more, tokens, starts⟩ := first.opens
    have long := congrArg List.length tokens
    simp only [List.length_cons] at long
    rw [stmtsTokens, List.append_assoc] at ahead
    simp only [stmtsTokens, List.length_append] at enough
    rw [List.length_cons] at many
    obtain ⟨found, next, ran, ahead', same⟩ := readsStmt first outer.1 depth _ (by omega)
      (endsStmt_of_row printable (.cons rfl)) cursor ahead (by simp)
    obtain ⟨others, ran', same'⟩ := ih count inner.2 ahead' (by omega) (by omega)
    have unended : cursor.current.token ≠ .eof := by
      rw [Cursor.current_token (ahead.trans (by rw [tokens]; rfl))]
      rintro rfl
      cases starts
    have moved : next.rest.length ≠ cursor.rest.length := by
      have before := congrArg List.length ahead
      have behind := congrArg List.length ahead'
      simp only [List.length_map, List.length_append] at before behind
      omega
    refine ⟨found :: others, ?_, by rw [stmtsBare, stmtsBare, same, same']⟩
    rw [topLevel, if_neg unended]
    simp only [EStateM.run, ran, if_neg moved, ran']

end Parse

/-- **Reading undoes writing.** The tokens of a program whose statements stay apart, at any places and
with the end of the text behind them, are read without a mistake, and what is read is the program but
for numbers and places. -/
theorem Program.parse_tokens (program : Program) (lexemes : List Lexeme)
    (printable : program.body.printable = true)
    (written : lexemes.map Lexeme.token = program.tokens ++ [.eof]) :
    ∃ found, Program.parse lexemes = .ok found ∧ found.bare = program.bare := by
  obtain ⟨id, tag, stmts⟩ := program
  have count := congrArg List.length written
  simp only [Program.tokens, Block.tokens, List.length_map, List.length_append, List.length_cons,
    List.length_nil] at count
  have few := Parse.length_le_stmtsTokens stmts
  have enough : 16 * (stmtsTokens stmts).length + 9 ≤ Program.parseDepth lexemes.length := by
    rw [Program.parseDepth]
    omega
  have ahead : (Cursor.mk lexemes 2).rest.map Lexeme.token = stmtsTokens stmts ++ [.eof] := written
  obtain ⟨found, ran, same⟩ :=
    Parse.topLevel_stmts lexemes.length printable ahead enough (by omega)
  refine ⟨_, by simp only [Program.parse, ran]; rfl, ?_⟩
  simp only [Program.bare, Block.bare, same]

/-- A program with operators of all levels and a clause behind `else`:

    def f(a, b):
      if a and not b == None or b: return
      else: x[0][a - (b - 1)] = -(a * b)
      elsif a < 1: final y = {"k": [:3], (-1)[2]: []}
      end
    end
    for i in [n for n in f(1, 2) if n != 0]:
      while True: end
      return f(i, i + 1)
    end
-/
def Program.sampler : Program :=
  let named (name : String) : Ident := ⟨0, name, default⟩
  let use (name : String) : Expr := .name default name
  let number (value : Int64) : Expr := .int default value
  let decision : Expr := .binary default .or (.binary default .and (use "a")
    (.unary default .not (.binary default .eq (use "b") (.none default)))) (use "b")
  let element : Target := .element default (.index default (use "x") (number 0))
    (.binary default .sub (use "a") (.binary default .sub (use "b") (number 1)))
  let product : Expr := .unary default .neg (.binary default .mul (use "a") (use "b"))
  let table : Expr := .map default [(.text default "k", .sized default (number 3)),
    (.index default (.unary default .neg (number 1)) (number 2), .array default [])]
  let source : Expr := .comprehension default (use "n") (named "n")
    (.call default (named "f") [number 1, number 2])
    (some (.binary default .notEq (use "n") (number 0)))
  ⟨0, .mk default [
    .define default (named "f") [named "a", named "b"] (.mk default [
      .cond default decision (.mk default [.ret default none]) [
        .mk default none (.mk default [.assign default element product false]),
        .mk default (some (.binary default .lt (use "a") (number 1)))
          (.mk default [.assign default (.name (named "y")) table true])]]),
    .each default (named "i") source (.mk default [
      .loop default (.bool default true) (.mk default []),
      .ret default (some (.call default (named "f")
        [use "i", .binary default .add (use "i") (number 1)]))])]⟩

theorem Program.parse_tokens_sampler : sampler.body.printable = true ∧
    ∃ found, Program.parse ((sampler.tokens ++ [Token.eof]).map (Lexeme.mk · .start)) = .ok found ∧
      found.bare = sampler.bare :=
  ⟨by decide +kernel, parse_tokens sampler _ (by decide +kernel) (by decide +kernel)⟩

end ScopedScript
