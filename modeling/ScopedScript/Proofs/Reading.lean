/-
**Expressions are read as they were written.**

A reading step passes the tokens of an expression and stops where nothing takes hold of it. Operands are
read one level tighter than their operator, and what groups to the left is read from its first operand
on, with the operators behind it still to come:

* `Parse.Reads`: a reading step passes tokens and gives a result, whatever numbers and places it meets;
* `Parse.ReadsAs`, `Parse.ReadsChain`, `Parse.ReadsBase`: tokens are read as an expression at a level,
  before further operators of the level, and before further subscripts;
* `Parse.ReadsAs.climbs`: what is read at a level is read at all looser ones;
* `Parse.readsBack`: **every expression is read as it was written**, in every place.
-/

import ScopedScript.Proofs.Printing

namespace ScopedScript

namespace Cursor

variable {cursor : Cursor} {token : Token} {more : List Token}

theorem current_token (ahead : cursor.rest.map Lexeme.token = token :: more) :
    cursor.current.token = token := by
  obtain ⟨lexeme, rest, same, here, -⟩ := List.map_eq_cons_iff.mp ahead
  rw [current, same]
  exact here

theorem advance_tokens (ahead : cursor.rest.map Lexeme.token = token :: more) (further : more ≠ []) :
    cursor.advance.rest.map Lexeme.token = more := by
  obtain ⟨lexeme, rest, same, -, others⟩ := List.map_eq_cons_iff.mp ahead
  cases rest with
  | nil => exact absurd others.symm further
  | cons second rest =>
    rw [advance, same]
    exact others

end Cursor

namespace Parse

/-! ### Passing tokens -/

/-- A reading step passes `tokens` where `after` comes behind them, and gives a good result. -/
def Reads {α : Type} (parse : Parse α) (tokens after : List Token) (good : α → Prop) : Prop :=
  ∀ cursor : Cursor, cursor.rest.map Lexeme.token = tokens ++ after → after ≠ [] →
    ∃ result next, parse cursor = .ok result next ∧ next.rest.map Lexeme.token = after ∧ good result

namespace Reads

variable {α β : Type} {tokens tokens' after : List Token} {middle : α → Prop} {good : β → Prop}

theorem bind {first : Parse α} {second : α → Parse β}
    (here : Reads first tokens (tokens' ++ after) middle)
    (there : ∀ result, middle result → Reads (second result) tokens' after good) :
    Reads (first >>= second) (tokens ++ tokens') after good := by
  intro cursor ahead more
  obtain ⟨result, between, ran, ahead', fits⟩ :=
    here cursor (by rw [ahead, List.append_assoc]) (by simp [more])
  obtain ⟨result', next, ran', ahead'', fits'⟩ := there result fits between ahead' more
  refine ⟨result', next, ?_, ahead'', fits'⟩
  simp only [Bind.bind, EStateM.bind, ran]
  exact ran'

/-- A last step that passes tokens, before those that pass none. -/
theorem last {first : Parse α} {second : α → Parse β} (here : Reads first tokens after middle)
    (there : ∀ result, middle result → Reads (second result) [] after good) :
    Reads (first >>= second) tokens after good := by
  have both : Reads (first >>= second) (tokens ++ []) after good := .bind here there
  rwa [List.append_nil] at both

theorem mono {parse : Parse β} {good' : β → Prop} (here : Reads parse tokens after good)
    (weaker : ∀ result, good result → good' result) : Reads parse tokens after good' := by
  intro cursor ahead further
  obtain ⟨result, next, ran, ahead', fits⟩ := here cursor ahead further
  exact ⟨result, next, ran, ahead', weaker result fits⟩

/-- There is always a token behind those passed. -/
theorem behind {parse : Parse β}
    (here : ∀ next more, after = next :: more → Reads parse tokens after good) :
    Reads parse tokens after good := by
  intro cursor ahead further
  obtain ⟨next, more, rfl⟩ := List.exists_cons_of_ne_nil further
  exact here next more rfl cursor ahead further

theorem done {result : β} (fits : good result) : Reads (pure result) [] after good :=
  fun cursor ahead _ => ⟨result, cursor, rfl, ahead, fits⟩

theorem place {second : Position → Parse β}
    (there : ∀ place, Reads (second place) tokens after good) :
    Reads (position >>= second) tokens after good :=
  fun cursor => there cursor.current.position cursor

theorem fresh {second : NodeId → Parse β} (there : ∀ id, Reads (second id) tokens after good) :
    Reads (freshId >>= second) tokens after good :=
  fun cursor ahead => there cursor.nextId ⟨cursor.rest, cursor.nextId + 1⟩ ahead

theorem tag {place : Position} {second : Tag → Parse β}
    (there : ∀ tag, Reads (second tag) tokens after good) :
    Reads (freshTag place >>= second) tokens after good :=
  fun cursor ahead =>
    there ⟨cursor.nextId, place⟩ ⟨cursor.rest, cursor.nextId + 1⟩ ahead

/-- A look at the next token. -/
theorem look {next : Token} {more : List Token} {second : Token → Parse β}
    (first : tokens ++ after = next :: more) (there : Reads (second next) tokens after good) :
    Reads (token >>= second) tokens after good := by
  intro cursor ahead further
  have here : (token >>= second) cursor = second cursor.current.token cursor := rfl
  rw [here, Cursor.current_token (ahead.trans first)]
  exact there cursor ahead further

/-- A first step that passes the next token. -/
theorem passing {next : Token} {first : Parse α} {result : α} {second : α → Parse β}
    (passes : ∀ cursor, cursor.current.token = next → first cursor = .ok result cursor.advance)
    (there : Reads (second result) tokens after good) :
    Reads (first >>= second) (next :: tokens) after good := by
  intro cursor ahead further
  have here : (first >>= second) cursor = second result cursor.advance := by
    simp only [Bind.bind, EStateM.bind, passes cursor (Cursor.current_token ahead)]
  rw [here]
  exact there cursor.advance (Cursor.advance_tokens ahead (by simp [further])) further

theorem pass {next : Token} {second : Unit → Parse β}
    (there : Reads (second ()) tokens after good) :
    Reads (advance >>= second) (next :: tokens) after good :=
  .passing (fun _ _ => rfl) there

theorem expect {next : Token} {second : Unit → Parse β}
    (there : Reads (second ()) tokens after good) :
    Reads (Parse.expect next >>= second) (next :: tokens) after good :=
  .passing (fun cursor found => congrFun (if_pos found) cursor) there

theorem accept {next : Token} {first second : Parse β} (there : Reads first tokens after good) :
    Reads (Parse.accept next >>= fun found => if found = true then first else second)
      (next :: tokens) after good :=
  .passing (fun cursor found => congrFun (if_pos found) cursor) there

theorem refuse {next wanted : Token} {more : List Token} {first second : Parse β}
    (other : tokens ++ after = next :: more) (differs : next ≠ wanted)
    (there : Reads second tokens after good) :
    Reads (Parse.accept wanted >>= fun found => if found = true then first else second)
      tokens after good := by
  intro cursor ahead further
  have here : (Parse.accept wanted >>= fun found => if found = true then first else second) cursor =
      second cursor := by
    have stayed : (Parse.accept wanted : Parse Bool) cursor = .ok false cursor :=
      congrFun (if_neg (Cursor.current_token (ahead.trans other) ▸ differs)) cursor
    simp [Bind.bind, EStateM.bind, stayed]
  rw [here]
  exact there cursor ahead further

/-- An expression is next, which does not begin with the token. -/
theorem refuse_expr {strength : Nat} {wanted : Token} {first second : Parse β}
    (opens : Opens strength tokens) (other : wanted.startsExpr = false)
    (there : Reads second (tokens ++ tokens') after good) :
    Reads (Parse.accept wanted >>= fun found => if found = true then first else second)
      (tokens ++ tokens') after good := by
  obtain ⟨next, more, rfl, starts⟩ := opens.starts
  refine .refuse rfl ?_ there
  rintro rfl
  rw [other] at starts
  cases starts

theorem holds {wanted : Prop} [Decidable wanted] {first second : Parse β} (true : wanted)
    (there : Reads first tokens after good) :
    Reads (if wanted then first else second) tokens after good := by
  rwa [if_pos true]

theorem fails {wanted : Prop} [Decidable wanted] {first second : Parse β} (false : ¬ wanted)
    (there : Reads second tokens after good) :
    Reads (if wanted then first else second) tokens after good := by
  rwa [if_neg false]

theorem ident (name : String) : Reads Parse.ident [.name name] after fun found => found.name = name :=
  .place fun _ => .look rfl (.pass (.fresh fun _ => .done rfl))

theorem name {name : String} {second : Ident → Parse β}
    (there : ∀ ident : Ident, ident.name = name → Reads (second ident) tokens after good) :
    Reads (Parse.ident >>= second) (.name name :: tokens) after good :=
  (Reads.ident name).bind there

end Reads

/-! ### Levels -/

/-- Tokens are read as an expression of a level. -/
def ReadsAs (grade : Level) (tokens : List Token) (expr : Expr) : Prop :=
  ∀ depth after, 16 * tokens.length + 8 ≤ depth + grade.strength → Stops grade.strength after →
    Reads (level depth grade) tokens after fun found => found.bare = expr.bare

/-- Tokens are read as an operand before further operators of a level. -/
def ReadsChain (grade : Level) (tokens : List Token) (expr : Expr) : Prop :=
  ∀ depth more after good, 16 * (tokens.length + more.length) + 8 ≤ depth + grade.strength →
    Stops (grade.strength + 1) (more ++ after) →
    (∀ depth' left, left.bare = expr.bare → 16 * more.length + 1 ≤ depth' →
      Reads (chain depth' grade left) more after good) →
    Reads (level depth grade) (tokens ++ more) after good

/-- Tokens are read as the base of further subscripts. -/
def ReadsBase (tokens : List Token) (expr : Expr) : Prop :=
  ∀ depth more after good, 16 * (tokens.length + more.length) ≤ depth →
    Stops (subscriptStrength + 1) (more ++ after) →
    (∀ depth' base, base.bare = expr.bare → 16 * more.length + 1 ≤ depth' →
      Reads (subscripts depth' base) more after good) →
    Reads (primary depth >>= subscripts depth) (tokens ++ more) after good

/-- Tokens are read as a literal, a name, a call, or an expression in parentheses. -/
def ReadsPrimary (tokens : List Token) (expr : Expr) : Prop :=
  ∀ depth after, 16 * tokens.length ≤ depth → Stops (subscriptStrength + 1) after →
    Reads (primary depth) tokens after fun found => found.bare = expr.bare

section Levels

variable {grade : Level} {tokens after : List Token} {expr : Expr} {depth : Nat}

/-- A chain ends where no operator of its level comes. -/
theorem reads_chain_end {left : Expr} (some : 1 ≤ depth) (stops : Stops grade.strength after) :
    Reads (chain depth grade left) [] after fun found => found.bare = left.bare := by
  refine .behind fun next more behind => ?_
  subst behind
  obtain ⟨depth, rfl⟩ : ∃ less, depth = less + 1 := ⟨depth - 1, by omega⟩
  have ends : grade.operator? next = none := by
    cases found : grade.operator? next with
    | none => rfl
    | some op =>
      have grips := Level.grip_of_operator? found
      have loose := stops next rfl
      omega
  rw [chain]
  refine .look rfl ?_
  rw [ends]
  exact .done rfl

/-- Subscripts end where no bracket comes. -/
theorem reads_subscripts_end {base : Expr} (some : 1 ≤ depth)
    (stops : Stops subscriptStrength after) :
    Reads (subscripts depth base) [] after fun found => found.bare = base.bare := by
  refine .behind fun next more behind => ?_
  subst behind
  obtain ⟨depth, rfl⟩ : ∃ less, depth = less + 1 := ⟨depth - 1, by omega⟩
  have other : next ≠ .mark .leftBracket := by
    rintro rfl
    exact absurd (stops _ rfl) (by decide)
  rw [subscripts]
  exact .refuse rfl other (.done rfl)

/-- Where a level has operators, an operand of the next tighter level comes first. -/
theorem level_chain {step : Type → Type} [Monad step] [Descends step] (negates : grade ≠ .not)
    (inner : grade ≠ .sign) :
    (level (depth + 1) grade : step Expr) = level depth grade.tighter >>= chain depth grade := by
  cases grade with
  | not => exact absurd rfl negates
  | sign => exact absurd rfl inner
  | _ => rfl

/-- An operand of the next tighter level may have operators behind it. -/
theorem ReadsAs.chain (here : ReadsAs grade.tighter tokens expr) (negates : grade ≠ .not)
    (inner : grade ≠ .sign) : ReadsChain grade tokens expr := by
  intro depth more after good enough stops there
  have tighter := Level.strength_tighter inner
  have least : grade.tighter.strength ≤ 7 := grade.tighter.strength_le
  obtain ⟨depth, rfl⟩ : ∃ less, depth = less + 1 := ⟨depth - 1, by omega⟩
  rw [level_chain negates inner]
  refine (here depth _ (by omega) (by rwa [tighter])).bind fun left same => ?_
  exact there depth left same (by omega)

/-- No operators may come behind an operand. -/
theorem ReadsChain.reads (here : ReadsChain grade tokens expr) : ReadsAs grade tokens expr := by
  intro depth after enough stops
  have alone := here depth [] after (fun found => found.bare = expr.bare) (by simpa using enough)
    (stops.mono (Nat.le_succ _)) fun depth' left same some =>
      (reads_chain_end some stops).mono fun found same' => same'.trans same
  rwa [List.append_nil] at alone

/-- What is read at a level is read at the next looser one. -/
theorem ReadsAs.climb (here : ReadsAs grade.tighter tokens expr)
    (opens : Opens (grade.strength + 1) tokens) (inner : grade ≠ .sign) :
    ReadsAs grade tokens expr := by
  by_cases negates : grade = .not
  · subst negates
    intro depth after enough stops
    obtain ⟨depth, rfl⟩ : ∃ less, depth = less + 1 :=
      ⟨depth - 1, by simp only [Level.strength] at enough; omega⟩
    obtain ⟨first, rest, rfl, -⟩ := opens.starts
    have positive : first ≠ .keyword .not_ := by
      rintro rfl
      exact absurd (opens.of_not rfl) (by decide)
    rw [level]
    refine .place fun place => .refuse rfl positive ?_
    exact here depth after (by simp only [Level.strength, Level.tighter] at *; omega)
      (stops.mono (by decide))
  · exact (here.chain negates inner).reads

/-- What is read at a level is read at all looser ones. -/
theorem ReadsAs.climbs {looser : Level} (here : ReadsAs grade tokens expr)
    (opens : Opens grade.strength tokens) (less : looser.strength ≤ grade.strength) :
    ReadsAs looser tokens expr := by
  induction gap : grade.strength - looser.strength generalizing looser with
  | zero =>
    obtain rfl := Level.strength_injective (show looser.strength = grade.strength by omega)
    exact here
  | succ gap ih =>
    have least := grade.strength_le
    have inner : looser ≠ .sign := by
      rintro rfl
      omega
    have tighter := Level.strength_tighter inner
    exact (ih (by omega) (by omega)).climb (opens.mono (by omega)) inner

theorem ReadsAs.parens (here : ReadsAs .or tokens expr) :
    ReadsPrimary (.mark .leftParen :: (tokens ++ [.mark .rightParen])) expr := by
  intro depth after enough stops
  simp only [List.length_cons, List.length_append, List.length_nil] at enough
  obtain ⟨depth, rfl⟩ : ∃ less, depth = less + 1 := ⟨depth - 1, by omega⟩
  refine .place fun place => .look rfl (.pass ?_)
  refine (here depth _ (by simp only [Level.strength]; omega) (.cons _ (by decide))).bind
    fun inner same => ?_
  exact .expect (.done same)

/-- A literal, a name, a call or parentheses may have subscripts behind them. -/
theorem ReadsPrimary.base (here : ReadsPrimary tokens expr) (long : 0 < tokens.length) :
    ReadsBase tokens expr := by
  intro depth more after good enough stops there
  refine (here depth _ (by omega) stops).bind fun base same => ?_
  exact there depth base same (by omega)

/-- No subscripts may come behind a base. -/
theorem ReadsBase.reads (here : ReadsBase tokens expr) (opens : Opens subscriptStrength tokens) :
    ReadsAs .sign tokens expr := by
  intro depth after enough stops
  obtain ⟨depth, rfl⟩ : ∃ less, depth = less + 1 :=
    ⟨depth - 1, by simp only [Level.strength] at enough; omega⟩
  obtain ⟨first, rest, rfl, -⟩ := opens.starts
  have unsigned : first ≠ .mark .minus := by
    rintro rfl
    exact absurd (opens.of_minus rfl) (by decide)
  rw [level]
  refine .place fun place => .refuse rfl unsigned ?_
  have alone := here depth [] after (fun found => found.bare = expr.bare)
    (by simp only [Level.strength, List.length_cons, List.length_nil] at *; omega)
    (stops.mono (by decide)) fun depth' base same some =>
      (reads_subscripts_end some (stops.mono (by decide))).mono fun found same' => same'.trans same
  rwa [List.append_nil] at alone

end Levels

/-! ### Expressions in every place -/

/-- An expression is read as it was written, in every place. -/
structure ReadsBack (expr : Expr) : Prop where
  level (grade : Level) : ReadsAs grade (expr.within grade.strength) expr
  chain (op : BinaryOp) : ReadsChain op.level (expr.within op.level.strength) expr
  base : ReadsBase (expr.within subscriptStrength) expr

namespace ReadsBack

variable {expr : Expr}

/-- An expression that is read wherever it needs no parentheses is read in every place. -/
theorem of_open (here : ∀ grade : Level, grade.strength ≤ expr.strength →
      ReadsAs grade expr.tokens expr)
    (chained : ∀ op : BinaryOp, expr.strength = op.level.strength →
      ReadsChain op.level expr.tokens expr)
    (base : expr.strength = subscriptStrength → ReadsBase expr.tokens expr)
    (most : expr.strength ≤ subscriptStrength) : ReadsBack expr := by
  have opens : ∀ strength, Opens strength
      (.mark .leftParen :: (expr.tokens ++ [.mark .rightParen])) :=
    fun strength => .of_first rfl (by decide) (by decide)
  have enclosed := (here .or (Nat.zero_le _)).parens.base (opens 0).length_pos
  have graded : ∀ grade : Level,
      ReadsAs grade (.mark .leftParen :: (expr.tokens ++ [.mark .rightParen])) expr :=
    fun grade => (enclosed.reads (opens _)).climbs (opens _) grade.strength_le
  refine ⟨fun grade => ?_, fun op => ?_, ?_⟩
  · rw [Expr.within, operand]
    split
    · exact graded grade
    · exact here grade (by omega)
  · have tighter := Level.strength_tighter op.level_ne_sign
    rw [Expr.within, operand]
    split
    · exact (graded _).chain op.level_ne_not op.level_ne_sign
    · by_cases same : expr.strength = op.level.strength
      · exact chained op same
      · exact (here _ (by omega)).chain op.level_ne_not op.level_ne_sign
  · rw [Expr.within, operand]
    split
    · exact enclosed
    · exact base (by omega)

theorem of_base (tight : expr.strength = subscriptStrength) (base : ReadsBase expr.tokens expr) :
    ReadsBack expr := by
  have opens := expr.opens
  rw [tight] at opens
  refine of_open (fun grade _ => ?_) (fun op same => ?_) (fun _ => base) (Nat.le_of_eq tight)
  · exact (base.reads opens).climbs (opens.mono (by decide)) grade.strength_le
  · have least : op.level.strength ≤ 7 := op.level.strength_le
    rw [← same, tight] at least
    exact absurd least (by decide)

theorem of_primary (tight : expr.strength = subscriptStrength)
    (here : ∀ depth after, 16 * expr.tokens.length ≤ depth + 1 →
      Stops (subscriptStrength + 1) after →
      Reads (primary (depth + 1)) expr.tokens after fun found => found.bare = expr.bare) :
    ReadsBack expr := by
  have long := expr.opens.length_pos
  have reads : ReadsPrimary expr.tokens expr := by
    intro depth after enough stops
    obtain ⟨depth, rfl⟩ : ∃ less, depth = less + 1 := ⟨depth - 1, by omega⟩
    exact here depth after enough stops
  exact of_base tight (reads.base long)

theorem of_level {grade : Level} (same : expr.strength = grade.strength)
    (here : ReadsAs grade expr.tokens expr)
    (chained : ∀ op : BinaryOp, op.level = grade → ReadsChain grade expr.tokens expr) :
    ReadsBack expr := by
  have opens := expr.opens
  rw [same] at opens
  have least : grade.strength ≤ 7 := grade.strength_le
  refine of_open (fun looser less => ?_) (fun op same' => ?_) (fun tight => ?_)
    (by rw [same]; exact Nat.le_succ_of_le least)
  · exact here.climbs opens (by omega)
  · obtain rfl := Level.strength_injective (same.symm.trans same')
    exact chained op rfl
  · rw [same] at tight
    rw [tight] at least
    exact absurd least (by decide)

/-- A whole expression needs no parentheses. -/
theorem whole (back : ReadsBack expr) (depth : Nat) (after : List Token)
    (enough : 16 * expr.tokens.length + 8 ≤ depth) (stops : Stops 0 after) :
    Reads (Parse.level depth .or) expr.tokens after fun found => found.bare = expr.bare :=
  back.level .or depth after enough stops

end ReadsBack

/-! ### Operators and subscripts -/

theorem readsBack_binary {tag : Tag} {op : BinaryOp} {left right : Expr} (first : ReadsBack left)
    (second : ReadsBack right) : ReadsBack (.binary tag op left right) := by
  have tighter := Level.strength_tighter op.level_ne_sign
  have least : op.level.tighter.strength ≤ 7 := op.level.tighter.strength_le
  have chained : ReadsChain op.level (Expr.tokens (.binary tag op left right))
      (.binary tag op left right) := by
    intro depth more after good enough stops there
    have tokens : Expr.tokens (.binary tag op left right) ++ more =
        left.within op.level.strength ++
          op.token :: (right.within op.level.tighter.strength ++ more) := by
      simp [Expr.tokens, Expr.within, tighter]
    have long := congrArg List.length tokens
    simp only [List.length_append, List.length_cons] at long
    rw [tokens]
    -- the first operand is read with this operator among those behind it
    refine first.chain op depth _ after good
      (by simp only [List.length_append, List.length_cons]; omega)
      (.cons _ (Nat.le_of_eq op.grip_token)) fun depth' found same some => ?_
    simp only [List.length_append, List.length_cons] at some
    obtain ⟨depth', rfl⟩ : ∃ less, depth' = less + 1 := ⟨depth' - 1, by omega⟩
    rw [chain]
    refine .look rfl ?_
    rw [op.operator?_token]
    refine .pass ((second.level _ depth' _ (by omega) (by rwa [tighter])).bind fun found' same' => ?_)
    exact .tag fun tag' => there depth' _ (by simp [Expr.bare, same, same']) (by omega)
  exact .of_level rfl chained.reads fun op' same => chained

/-- A level with a unary operator reads the operator first, if it is there. -/
theorem level_unary (op : UnaryOp) (depth : Nat) : ∃ other : Parse Expr,
    level (depth + 1) op.level = position >>= fun place => accept op.token >>= fun found =>
      if found = true then
        level depth op.level >>= fun inner => freshTag place >>= fun tag => pure (.unary tag op inner)
      else other := by
  cases op with
  | not => exact ⟨_, rfl⟩
  | neg => exact ⟨_, rfl⟩

theorem readsBack_unary {tag : Tag} {op : UnaryOp} {inner : Expr} (back : ReadsBack inner) :
    ReadsBack (.unary tag op inner) := by
  have unary : ∀ other : BinaryOp, other.level ≠ op.level := by
    intro other
    cases op with
    | not => exact other.level_ne_not
    | neg => exact other.level_ne_sign
  have here : ReadsAs op.level (Expr.tokens (.unary tag op inner)) (.unary tag op inner) := by
    intro depth after enough stops
    have least : op.level.strength ≤ 7 := op.level.strength_le
    simp only [Expr.tokens, List.length_cons] at enough
    obtain ⟨depth, rfl⟩ : ∃ less, depth = less + 1 := ⟨depth - 1, by omega⟩
    obtain ⟨other, equation⟩ := level_unary op depth
    rw [equation]
    refine .place fun place => .accept ?_
    refine (back.level op.level depth after (by rw [Expr.within]; omega) stops).last
      fun found same => .tag fun tag' => .done (by simp [Expr.bare, same])
  exact .of_level rfl here fun other same => absurd same (unary other)

theorem readsBack_index {tag : Tag} {base index : Expr} (first : ReadsBack base)
    (second : ReadsBack index) : ReadsBack (.index tag base index) := by
  refine .of_base rfl ?_
  intro depth more after good enough stops there
  have tokens : Expr.tokens (.index tag base index) ++ more = base.within subscriptStrength ++
      .mark .leftBracket :: (index.tokens ++ .mark .rightBracket :: more) := by
    simp [Expr.tokens, Expr.within]
  have long := congrArg List.length tokens
  simp only [List.length_append, List.length_cons] at long
  rw [tokens]
  refine first.base depth _ after good (by simp only [List.length_append, List.length_cons]; omega)
    (.cons _ (by decide)) fun depth' found same some => ?_
  simp only [List.length_append, List.length_cons] at some
  obtain ⟨depth', rfl⟩ : ∃ less, depth' = less + 1 := ⟨depth' - 1, by omega⟩
  rw [subscripts]
  refine .accept ((second.whole depth' _ (by omega) (.cons _ (by decide))).bind
    fun found' same' => .expect (.tag fun tag' => ?_))
  exact there depth' _ (by simp [Expr.bare, same, same']) (by omega)

/-! ### Lists -/

theorem exprsTokens_eq (exprs : List Expr) : exprsTokens exprs = exprs.map Expr.tokens := by
  induction exprs with
  | nil => rfl
  | cons first rest ih => rw [exprsTokens, ih, List.map_cons]

theorem exprsBare_eq (exprs : List Expr) : exprsBare exprs = exprs.map Expr.bare := by
  induction exprs with
  | nil => rfl
  | cons first rest ih => rw [exprsBare, ih, List.map_cons]

/-- The tokens of a map entry. -/
def entryTokens (entry : Expr × Expr) : List Token :=
  entry.1.tokens ++ .mark .colon :: entry.2.tokens

/-- A map entry without numbers and places. -/
def entryBare (entry : Expr × Expr) : Expr × Expr := (entry.1.bare, entry.2.bare)

theorem entriesTokens_eq (entries : List (Expr × Expr)) :
    entriesTokens entries = entries.map entryTokens := by
  induction entries with
  | nil => rfl
  | cons first rest ih => rw [entriesTokens, ih, List.map_cons, entryTokens]

theorem entriesBare_eq (entries : List (Expr × Expr)) :
    entriesBare entries = entries.map entryBare := by
  induction entries with
  | nil => rfl
  | cons first rest ih => rw [entriesBare, ih, List.map_cons, entryBare]

/-- One more member of a list in brackets of some kind; a comma may close the list. -/
def member {α : Type} (close : Token) (one : Parse α) (others : Parse (List α)) :
    Parse (List α) := do
  if (← token) = close || (← token) = .eof then return []
  let found ← one
  if ← accept (.mark .comma) then
    return found :: (← others)
  return [found]

theorem arguments_succ (depth : Nat) : arguments (depth + 1) =
    member (.mark .rightParen) (level depth .or) (arguments depth) := rfl

theorem parameters_succ (depth : Nat) : parameters (depth + 1) =
    member (.mark .rightParen) ident (parameters depth) := rfl

/-- A map entry. -/
def entry (depth : Nat) : Parse (Expr × Expr) := do
  let key ← level depth .or
  expect (.mark .colon)
  let value ← level depth .or
  return (key, value)

theorem entries_succ (depth : Nat) : entries (depth + 1) =
    member (.mark .rightBrace) (entry depth) (entries depth) := by
  rw [entries, member, entry]
  simp only [bind_assoc, pure_bind]

/-- How a member of a list begins. -/
def Begins (close : Token) (tokens : List Token) : Prop :=
  ∃ first rest, tokens = first :: rest ∧ first ≠ close ∧ first ≠ .eof

theorem Begins.of_opens {strength : Nat} {close : Token} {tokens : List Token}
    (opens : Opens strength tokens) (other : close.startsExpr = false) : Begins close tokens := by
  obtain ⟨first, rest, rfl, starts⟩ := opens.starts
  refine ⟨first, rest, rfl, ?_, ?_⟩
  · rintro rfl
    rw [other] at starts
    cases starts
  · rintro rfl
    cases starts

/-- **Lists are read member by member,** up to the bracket that closes them. -/
theorem reads_listed {α : Type} (bare : α → α) (written : α → List Token) {close : Token}
    {one : Nat → Parse α} {rows : Nat → Parse (List α)}
    (equation : ∀ depth, rows (depth + 1) = member close (one depth) (rows depth))
    (loose : close.grip = 0) (distinct : close ≠ .mark .comma) {items : List α}
    (members : ∀ item ∈ items, Begins close (written item) ∧
      ∀ depth after, 16 * (written item).length + 8 ≤ depth → Stops 0 after →
        Reads (one depth) (written item) after fun found => bare found = bare item)
    {depth : Nat} (after : List Token)
    (enough : 16 * (listed (items.map written)).length + 9 ≤ depth) :
    Reads (rows depth) (listed (items.map written)) (close :: after)
      fun found => found.map bare = items.map bare := by
  induction items generalizing depth with
  | nil =>
    obtain ⟨depth, rfl⟩ : ∃ less, depth = less + 1 := ⟨depth - 1, by omega⟩
    rw [equation, member]
    exact .look rfl (.look rfl (.holds (by simp) (.done rfl)))
  | cons item items ih =>
    obtain ⟨depth, rfl⟩ : ∃ less, depth = less + 1 := ⟨depth - 1, by omega⟩
    obtain ⟨⟨first, rest, begins, apart, inside⟩, here⟩ := members item List.mem_cons_self
    have tokens : listed ((item :: items).map written) =
      written item ++ further (items.map written) := rfl
    have next : listed ((item :: items).map written) ++ close :: after =
        first :: (rest ++ further (items.map written) ++ close :: after) := by
      rw [tokens, begins]
      rfl
    rw [tokens, List.length_append] at enough
    rw [equation, member]
    refine .look next (.look next (.fails (by simp [apart, inside]) ?_))
    rw [tokens]
    cases items with
    | nil =>
      refine (here depth _ (by omega) (.cons _ (Nat.le_of_eq loose))).bind fun found same => ?_
      exact .refuse rfl distinct (.done (by simp [same]))
    | cons second items =>
      rw [List.map_cons, further_cons, ← List.map_cons, List.length_cons] at enough
      rw [List.map_cons, further_cons, ← List.map_cons]
      refine (here depth _ (by omega) (.cons _ (by decide))).bind fun found same => .accept ?_
      have others := ih (fun item inside => members item (List.mem_cons_of_mem _ inside))
        (show _ ≤ depth by omega)
      exact others.last fun found' same' => .done (by rw [List.map_cons, same, same']; rfl)

theorem reads_arguments {args : List Expr} (back : ∀ arg ∈ args, ReadsBack arg) {depth : Nat}
    (after : List Token) (enough : 16 * (listed (exprsTokens args)).length + 9 ≤ depth) :
    Reads (arguments depth) (listed (exprsTokens args)) (.mark .rightParen :: after)
      fun found => exprsBare found = exprsBare args := by
  rw [exprsTokens_eq] at enough ⊢
  simp only [exprsBare_eq]
  refine reads_listed Expr.bare Expr.tokens arguments_succ rfl (by decide)
    (fun arg inside => ⟨?_, ?_⟩) after enough
  · exact .of_opens arg.opens rfl
  · exact fun depth after enough stops => (back arg inside).whole depth after enough stops

theorem reads_entries {pairs : List (Expr × Expr)}
    (back : ∀ pair ∈ pairs, ReadsBack pair.1 ∧ ReadsBack pair.2) {depth : Nat}
    (after : List Token) (enough : 16 * (listed (entriesTokens pairs)).length + 9 ≤ depth) :
    Reads (entries depth) (listed (entriesTokens pairs)) (.mark .rightBrace :: after)
      fun found => entriesBare found = entriesBare pairs := by
  rw [entriesTokens_eq] at enough ⊢
  simp only [entriesBare_eq]
  refine reads_listed entryBare entryTokens entries_succ rfl (by decide)
    (fun pair inside => ⟨?_, ?_⟩) after enough
  · exact .of_opens (pair.1.opens.append _) rfl
  · intro depth after enough stops
    obtain ⟨first, second⟩ := back pair inside
    simp only [entryTokens, List.length_append, List.length_cons] at enough
    refine (first.whole depth _ (by omega) (.cons _ (by decide))).bind fun key same => .expect ?_
    refine (second.whole depth _ (by omega) stops).last fun value same' => .done ?_
    simp [entryBare, same, same']

theorem reads_items {items : List Expr} (back : ∀ item ∈ items, ReadsBack item) {depth : Nat}
    (after : List Token) (enough : 16 * (further (exprsTokens items)).length + 1 ≤ depth) :
    Reads (Parse.items depth) (further (exprsTokens items)) (.mark .rightBracket :: after)
      fun found => exprsBare found = exprsBare items := by
  induction items generalizing depth with
  | nil =>
    obtain ⟨depth, rfl⟩ : ∃ less, depth = less + 1 := ⟨depth - 1, by omega⟩
    rw [Parse.items]
    exact .refuse rfl (by decide) (.done rfl)
  | cons item items ih =>
    obtain ⟨depth, rfl⟩ : ∃ less, depth = less + 1 := ⟨depth - 1, by omega⟩
    have tokens : further (exprsTokens (item :: items)) =
      .mark .comma :: (item.tokens ++ further (exprsTokens items)) := rfl
    rw [tokens] at enough ⊢
    simp only [List.length_append, List.length_cons] at enough
    obtain ⟨first, rest, begins, starts⟩ := item.opens.starts
    rw [Parse.items]
    refine .accept (.look (by rw [begins]; rfl) (.fails (by rintro rfl; cases starts) ?_))
    obtain ⟨next, more, behind, known⟩ :=
      further_next (exprsTokens items) (.mark .rightBracket) after
    have stops : Stops 0 (next :: more) := .cons _ (by rcases known with rfl | rfl <;> decide)
    rw [← behind] at stops
    refine ((back item List.mem_cons_self).whole depth _ (by omega) stops).bind
      fun found same => ?_
    have others := ih (fun item inside => back item (List.mem_cons_of_mem _ inside))
      (show _ ≤ depth by omega)
    exact others.last fun found' same' => .done (by rw [exprsBare, same, same', exprsBare])

theorem reads_filter {filter : Option Expr} (back : ∀ condition ∈ filter, ReadsBack condition)
    {depth : Nat} (after : List Token) (enough : 16 * (filterTokens filter).length + 8 ≤ depth) :
    Reads (do
      if ← accept (.keyword .if_) then return some (← level depth .or)
      return none) (filterTokens filter) (.mark .rightBracket :: after)
      fun found => optionBare found = optionBare filter := by
  cases filter with
  | none => exact .refuse rfl (by decide) (.done rfl)
  | some condition =>
    simp only [filterTokens, List.length_cons] at enough
    refine .accept (((back condition rfl).whole depth _ (by omega) (.cons _ (by decide))).last
      fun found same => .done ?_)
    simp [optionBare, same]

/-! ### Literals, calls and comprehensions -/

theorem readsBack_name (tag : Tag) (name : String) : ReadsBack (.name tag name) := by
  refine .of_primary rfl fun depth after enough stops => .behind fun next more behind => ?_
  subst behind
  have uncalled : next ≠ .mark .leftParen := by
    rintro rfl
    exact absurd (stops _ rfl) (by decide)
  refine .place fun place => .look rfl (.name fun ident same => .refuse rfl uncalled (.done ?_))
  simp [Expr.bare, same]

theorem readsBack_call {tag : Tag} {callee : Ident} {args : List Expr}
    (back : ∀ arg ∈ args, ReadsBack arg) : ReadsBack (.call tag callee args) := by
  refine .of_primary rfl fun depth after enough stops => ?_
  simp only [Expr.tokens, List.length_append, List.length_cons, List.length_nil] at enough
  refine .place fun place => .look rfl (.name fun ident same => .accept ?_)
  refine (reads_arguments back _ (show _ ≤ depth by omega)).bind fun found same' => ?_
  exact .expect (.tag fun tag' => .done (by simp [Expr.bare, Ident.bare, same, same']))

theorem readsBack_map {tag : Tag} {pairs : List (Expr × Expr)}
    (back : ∀ pair ∈ pairs, ReadsBack pair.1 ∧ ReadsBack pair.2) : ReadsBack (.map tag pairs) := by
  refine .of_primary rfl fun depth after enough stops => ?_
  simp only [Expr.tokens, List.length_append, List.length_cons, List.length_nil] at enough
  refine .place fun place => .look rfl (.pass ?_)
  refine (reads_entries back _ (show _ ≤ depth by omega)).bind fun found same => ?_
  exact .expect (.tag fun tag' => .done (by simp [Expr.bare, same]))

theorem readsBack_array {tag : Tag} {items : List Expr} (back : ∀ item ∈ items, ReadsBack item) :
    ReadsBack (.array tag items) := by
  refine .of_primary rfl fun depth after enough stops => ?_
  simp only [Expr.tokens, List.length_append, List.length_cons, List.length_nil] at enough
  obtain ⟨depth, rfl⟩ : ∃ less, depth = less + 1 := ⟨depth - 1, by omega⟩
  refine .place fun place => .look rfl (.pass ?_)
  rw [array]
  cases items with
  | nil => exact .accept (.tag fun tag' => .done rfl)
  | cons first rest =>
    have tokens : listed (exprsTokens (first :: rest)) ++ [.mark .rightBracket] =
        first.tokens ++ (further (exprsTokens rest) ++ [.mark .rightBracket]) := by
      simp [exprsTokens, listed]
    have long := congrArg List.length tokens
    simp only [List.length_append, List.length_cons, List.length_nil] at long
    obtain ⟨next, more, behind, known⟩ :=
      further_next (exprsTokens rest) (.mark .rightBracket) after
    have split : further (exprsTokens rest) ++ [.mark .rightBracket] ++ after = next :: more := by
      rw [List.append_assoc]
      exact behind
    have stops' : Stops 0 (next :: more) := .cons _ (by rcases known with rfl | rfl <;> decide)
    rw [← split] at stops'
    rw [tokens]
    refine .refuse_expr first.opens rfl (.refuse_expr first.opens rfl ?_)
    refine ((back first List.mem_cons_self).whole depth _ (by omega) stops').bind
      fun found same => ?_
    refine .refuse split (by rcases known with rfl | rfl <;> decide) ?_
    refine (reads_items (fun item inside => back item (List.mem_cons_of_mem _ inside)) _
      (show _ ≤ depth by omega)).bind fun others same' => ?_
    exact .expect (.tag fun tag' => .done (by simp [Expr.bare, exprsBare, same, same']))

theorem readsBack_sized {tag : Tag} {size : Expr} (back : ReadsBack size) :
    ReadsBack (.sized tag size) := by
  refine .of_primary rfl fun depth after enough stops => ?_
  simp only [Expr.tokens, List.length_append, List.length_cons, List.length_nil] at enough
  obtain ⟨depth, rfl⟩ : ∃ less, depth = less + 1 := ⟨depth - 1, by omega⟩
  refine .place fun place => .look rfl (.pass ?_)
  rw [array]
  refine .refuse rfl (by decide) (.accept ?_)
  refine (back.whole depth _ (by omega) (.cons _ (by decide))).bind
    fun found same => .expect (.tag fun tag' => .done ?_)
  simp [Expr.bare, same]

theorem readsBack_comprehension {tag : Tag} {element source : Expr} {binder : Ident}
    {filter : Option Expr} (first : ReadsBack element) (second : ReadsBack source)
    (third : ∀ condition ∈ filter, ReadsBack condition) :
    ReadsBack (.comprehension tag element binder source filter) := by
  refine .of_primary rfl fun depth after enough stops => ?_
  simp only [Expr.tokens, List.length_append, List.length_cons, List.length_nil] at enough
  obtain ⟨depth, rfl⟩ : ∃ less, depth = less + 1 := ⟨depth - 1, by omega⟩
  refine .place fun place => .look rfl (.pass ?_)
  rw [array]
  refine .refuse_expr element.opens rfl (.refuse_expr element.opens rfl ?_)
  refine (first.whole depth _ (by omega) (.cons _ (by decide))).bind
    fun found same => .accept (.name fun ident called => .expect ?_)
  have stops' : Stops 0 (filterTokens filter ++ [.mark .rightBracket] ++ after) := by
    cases filter with
    | none => exact .cons _ (by decide)
    | some condition => exact .cons _ (by decide)
  refine (second.whole depth _ (by omega) stops').bind fun found' same' => ?_
  refine (reads_filter third _ (by omega)).bind fun found'' same'' => .expect ?_
  exact .tag fun tag' => .done (by simp [Expr.bare, Ident.bare, same, same', same'', called])

/-! ### All expressions -/

mutual

/-- **Every expression is read as it was written.** -/
theorem readsBack (expr : Expr) : ReadsBack expr := by
  cases expr with
  | int | text | none =>
    exact .of_primary rfl fun depth after _ _ =>
      .place fun place => .look rfl (.pass (.tag fun tag => .done rfl))
  | bool _ value =>
    cases value <;> exact .of_primary rfl fun depth after _ _ =>
      .place fun place => .look rfl (.pass (.tag fun tag => .done rfl))
  | name tag name => exact readsBack_name tag name
  | binary tag op left right => exact readsBack_binary (readsBack left) (readsBack right)
  | unary tag op inner => exact readsBack_unary (readsBack inner)
  | index tag base index => exact readsBack_index (readsBack base) (readsBack index)
  | array tag items => exact readsBack_array (readsBack_all items)
  | sized tag size => exact readsBack_sized (readsBack size)
  | map tag pairs => exact readsBack_map (readsBack_pairs pairs)
  | comprehension tag element binder source filter =>
    exact readsBack_comprehension (readsBack element) (readsBack source) (readsBack_option filter)
  | call tag callee args => exact readsBack_call (readsBack_all args)

theorem readsBack_all (exprs : List Expr) : ∀ expr ∈ exprs, ReadsBack expr := by
  cases exprs with
  | nil => exact nofun
  | cons first rest => exact List.forall_mem_cons.mpr ⟨readsBack first, readsBack_all rest⟩

theorem readsBack_pairs (pairs : List (Expr × Expr)) :
    ∀ pair ∈ pairs, ReadsBack pair.1 ∧ ReadsBack pair.2 := by
  cases pairs with
  | nil => exact nofun
  | cons first rest =>
    cases first with
    | mk key value =>
      exact List.forall_mem_cons.mpr ⟨⟨readsBack key, readsBack value⟩, readsBack_pairs rest⟩

theorem readsBack_option (option : Option Expr) : ∀ expr ∈ option, ReadsBack expr := by
  cases option with
  | none => exact nofun
  | some expr =>
    intro found same
    cases same
    exact readsBack expr

end

end Parse

end ScopedScript
