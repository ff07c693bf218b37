/-
**Reading is never cut short, and what it passes is a phrase of the grammar.**

Where the descent runs out of depth, reading makes a mistake like any other, and at the last lexeme it
stays. The descent of this module does neither: a step gives nothing if the depth is exhausted, or if it
looks for a lexeme where none is left. On lexemes up to the end of the text this never happens, from the
depth on that a text is read with, and where a step gives a result it has passed a phrase:

* `Descent`: a reading step that tells when it is cut short, so that the grammar of `Parse` can be read
  with such steps as well, and `Descent.topLevel` goes on from statement to statement with them;
* `Blames`: a mistake is about a lexeme; `Parse.Ended`: the end of the text is the last lexeme and no
  other;
* `Parse.Agrees`: a reading step ends as the step of the descent does, further on in the input and with
  a good result, or with a mistake; there is a rule for each way to build one;
* `Parse.exprAgrees`, `Parse.stmtAgrees`: expressions and statements, by induction on the depth.
-/

import ScopedScript.Proofs.Grammar
import ScopedScript.Proofs.Reading

namespace ScopedScript

/-! ### The descent -/

/-- A reading step that moves the cursor and gives a result or a mistake, or nothing: if the depth is
exhausted, or if no lexeme is left where one is looked for. -/
abbrev Descent := ExceptT Diagnostic (StateT Cursor Option)

/-- The lexeme to read next has to be there, and the last one is passed like the others. -/
instance : Descends Descent where
  lexeme := ExceptT.mk fun cursor => cursor.rest.head?.map fun first => (.ok first, cursor)
  advance := modify fun cursor => { cursor with rest := cursor.rest.tail }
  freshId := modifyGet fun cursor => (cursor.nextId, { cursor with nextId := cursor.nextId + 1 })
  raise := throw
  exhausted _ := ExceptT.mk fun _ => none

namespace Descent

open Parse (token advance stmt)

/-- Skips to the next word that opens a statement, or to the end of the text. -/
def recover : Nat → Descent Unit
  | 0 => ExceptT.mk fun _ => none
  | count + 1 => do
    if (← token) = .eof || (← token).opensStatement then return ()
    advance
    recover count

/-- The statements of a program and the mistakes in it, each in order. After a mistake, and if a
statement took no lexeme, at least one lexeme is passed. -/
def topLevel (depth : Nat) : Nat → Cursor → Option (List Stmt × List Diagnostic)
  | 0, _ => none
  | count + 1, cursor => do
    let first ← cursor.rest.head?
    if first.token = .eof then return ([], [])
    let progress (next : Cursor) : Cursor :=
      if next.rest.length = cursor.rest.length then { next with rest := next.rest.tail } else next
    match ← (stmt depth : Descent Stmt) cursor with
    | (.ok first, next) =>
      let (rest, mistakes) ← topLevel depth count (progress next)
      return (first :: rest, mistakes)
    | (.error diagnostic, next) =>
      let (_, next) ← recover depth next
      let (rest, mistakes) ← topLevel depth count (progress next)
      return (rest, diagnostic :: mistakes)

end Descent

/-- The tree of a token list, or the mistakes in it. There is nothing if the descent goes deeper than
`bound`, if a loop takes more rounds, or if a lexeme is looked for behind the last one. -/
def Program.parse? (bound : Nat) (lexemes : List Lexeme) :
    Option (Except (List Diagnostic) Program) := do
  let first ← lexemes.head?
  let (stmts, mistakes) ← Descent.topLevel bound bound ⟨lexemes, 2⟩
  return if mistakes.isEmpty then .ok ⟨0, .mk ⟨1, first.position⟩ stmts⟩ else .error mistakes

namespace Descent

variable {α β : Type} {here : Descent α} {there : α → Descent β} {cursor next : Cursor}

theorem bind_ok {result : α} (ran : here cursor = some (.ok result, next)) :
    (here >>= there) cursor = there result next := by
  have chained : (here >>= there) cursor =
      (here cursor).bind fun outcome => ExceptT.bindCont there outcome.1 outcome.2 := rfl
  rw [chained, ran]
  rfl

theorem bind_error {diagnostic : Diagnostic} (ran : here cursor = some (.error diagnostic, next)) :
    (here >>= there) cursor = some (.error diagnostic, next) := by
  have chained : (here >>= there) cursor =
      (here cursor).bind fun outcome => ExceptT.bindCont there outcome.1 outcome.2 := rfl
  rw [chained, ran]
  rfl

end Descent

/-! ### Mistakes -/

/-- A problem with a token in the place where it stands. -/
def Problem.Concerns : Problem → Token → Prop
  | .expectedName found, token | .expectedExpr found, token | .expectedToken _ found, token =>
    found = token
  | .badTarget, token => token = .mark .assign
  | _, _ => False

/-- A mistake is about a lexeme and stands at its place. -/
structure Blames (lexeme : Lexeme) (diagnostic : Diagnostic) : Prop where
  place : diagnostic.position = lexeme.position
  concerns : diagnostic.problem.Concerns lexeme.token

namespace Parse

variable {last : Lexeme} {more : List Lexeme}

/-! ### The end of the text -/

/-- Lexemes up to `last`, which is the end of the text, and none before it is. -/
inductive Ended (last : Lexeme) : List Lexeme → Prop
  | last : last.token = .eof → Ended last [last]
  | cons {first : Lexeme} {rest : List Lexeme} : first.token ≠ .eof → Ended last rest →
      Ended last (first :: rest)

theorem Ended.append {front : List Lexeme} (ended : last.token = .eof)
    (only : ∀ lexeme ∈ front, lexeme.token ≠ .eof) : Ended last (front ++ [last]) := by
  induction front with
  | nil => exact .last ended
  | cons first rest ih =>
    exact .cons (only first (.head _)) (ih fun lexeme inside => only lexeme (.tail _ inside))

theorem Ended.exists_cons {input : List Lexeme} (ended : Ended last input) :
    ∃ first rest, input = first :: rest := by
  cases ended with
  | last => exact ⟨_, _, rfl⟩
  | cons => exact ⟨_, _, rfl⟩

/-- Where the end of the text is next, nothing else is left. -/
theorem Ended.eq_last {first : Lexeme} {rest : List Lexeme} (ended : Ended last (first :: rest))
    (here : first.token = .eof) : first :: rest = [last] := by
  cases ended with
  | last => rfl
  | cons inner _ => exact absurd here inner

theorem Ended.pass {first : Lexeme} {rest : List Lexeme} (ended : Ended last (first :: rest))
    (inner : first.token ≠ .eof) : Ended last rest ∧ Cursor.pass (first :: rest) = rest := by
  cases ended with
  | last ended => exact absurd ended inner
  | cons _ ended =>
    obtain ⟨second, more, rfl⟩ := ended.exists_cons
    exact ⟨ended, rfl⟩

/-! ### Agreement -/

/-- A result as the descent gives it. -/
def outcome {α : Type} : EStateM.Result Diagnostic Cursor α → Except Diagnostic α × Cursor
  | .ok result next => (.ok result, next)
  | .error diagnostic next => (.error diagnostic, next)

/-- Where a reading step from `input` on may end: at least `least` lexemes further on if it succeeds,
with what it leaves and gives being good, and at least `quiet` further on with a mistake, which is about
the lexeme to read next. -/
inductive Ends {α : Type} (last : Lexeme) (input : List Lexeme) (quiet least : Nat)
    (good : List Lexeme → α → Prop) : EStateM.Result Diagnostic Cursor α → Prop
  | ok {result : α} {next : Cursor} : Ended last next.rest → next.rest <:+ input →
      next.rest.length + least ≤ input.length → good next.rest result →
      Ends last input quiet least good (.ok result next)
  | error {diagnostic : Diagnostic} {next : Cursor} : Ended last next.rest → next.rest <:+ input →
      next.rest.length + quiet ≤ input.length → Blames next.current diagnostic →
      Ends last input quiet least good (.error diagnostic next)

/-- From `input` on, the descent ends as the reading step does. -/
def Agrees {α : Type} (last : Lexeme) (descent : Descent α) (parse : Parse α) (input : List Lexeme)
    (quiet least : Nat) (good : List Lexeme → α → Prop) : Prop :=
  Ended last input → ∀ id, descent ⟨input, id⟩ = some (outcome (parse ⟨input, id⟩)) ∧
    Ends last input quiet least good (parse ⟨input, id⟩)

section Binds

variable {α β : Type} {here : Parse α} {there : α → Parse β} {cursor next : Cursor}

theorem bind_of_ok {result : α} (ran : here cursor = .ok result next) :
    (here >>= there) cursor = there result next := by
  simp only [Bind.bind, EStateM.bind, ran]

theorem bind_of_error {diagnostic : Diagnostic} (ran : here cursor = .error diagnostic next) :
    (here >>= there) cursor = .error diagnostic next := by
  simp only [Bind.bind, EStateM.bind, ran]

end Binds

variable {last : Lexeme}

section Rules

variable {α β : Type} {first : Lexeme} {input rest more : List Lexeme}
  {quiet least quiet' least' passed : Nat} {good better : List Lexeme → α → Prop}

/-- A step that ends further on from `rest`, seen from an input before it. -/
theorem Ends.before {result : EStateM.Result Diagnostic Cursor α}
    (ends : Ends last rest quiet' least' good result) (behind : rest <:+ input)
    (far : rest.length + passed ≤ input.length) (later : quiet ≤ quiet' + passed)
    (further : least ≤ least' + passed) : Ends last input quiet least good result := by
  cases ends with
  | ok ended behind' far' fits => exact .ok ended (behind'.trans behind) (by omega) fits
  | error ended behind' far' blames => exact .error ended (behind'.trans behind) (by omega) blames

namespace Agrees

theorem mono {descent : Descent α} {parse : Parse α}
    (agrees : Agrees last descent parse input quiet' least better) (later : quiet ≤ quiet')
    (weaker : ∀ rest result, better rest result → good rest result) :
    Agrees last descent parse input quiet least good := by
  intro ended id
  obtain ⟨same, ends⟩ := agrees ended id
  refine ⟨same, ?_⟩
  generalize parse ⟨input, id⟩ = result at ends
  cases ends with
  | ok ended behind far fits => exact .ok ended behind far (weaker _ _ fits)
  | error ended behind far blames => exact .error ended behind (by omega) blames

theorem bind {descent : Descent α} {parse : Parse α} {descent' : α → Descent β}
    {parse' : α → Parse β} {best : List Lexeme → β → Prop}
    (before : Agrees last descent parse input quiet passed good)
    (after : ∀ rest result, rest.length + passed ≤ input.length → good rest result →
      Agrees last (descent' result) (parse' result) rest (quiet - passed) (least - passed) best) :
    Agrees last (descent >>= descent') (parse >>= parse') input quiet least best := by
  intro ended id
  obtain ⟨same, ends⟩ := before ended id
  cases ran : parse ⟨input, id⟩ with
  | ok result next =>
    rw [ran] at same ends
    rw [Descent.bind_ok same, bind_of_ok ran]
    cases ends with
    | ok ended' behind far fits =>
      obtain ⟨same', ends'⟩ := after next.rest result far fits ended' next.nextId
      exact ⟨same', ends'.before behind far (by omega) (by omega)⟩
  | error diagnostic next =>
    rw [ran] at same ends
    rw [Descent.bind_error same, bind_of_error ran]
    cases ends with
    | error ended' behind far blames => exact ⟨rfl, .error ended' behind far blames⟩

theorem meets {descent : Descent α} {parse : Parse α}
    (there : ∀ first more, input = first :: more →
      Agrees last descent parse (first :: more) quiet least good) :
    Agrees last descent parse input quiet least good := by
  intro ended
  obtain ⟨first, more, rfl⟩ := ended.exists_cons
  exact there first more rfl ended

theorem done {result : α} (fits : good input result) :
    Agrees last (pure result) (pure result) input quiet 0 good :=
  fun ended _ => ⟨rfl, .ok ended List.suffix_rfl (Nat.le_refl _) fits⟩

theorem mistake {problem : Token → Problem}
    (concerns : (problem first.token).Concerns first.token) :
    Agrees last (Parse.mistake problem) (Parse.mistake problem) (first :: more) 0 least good :=
  fun ended _ => ⟨rfl, .error ended List.suffix_rfl (Nat.le_refl _) ⟨rfl, concerns⟩⟩

theorem place {descent : Position → Descent α} {parse : Position → Parse α}
    (after : Agrees last (descent first.position) (parse first.position) (first :: more)
      quiet least good) :
    Agrees last (position >>= descent) (position >>= parse) (first :: more) quiet least good :=
  after

theorem look {descent : Token → Descent α} {parse : Token → Parse α}
    (after : Agrees last (descent first.token) (parse first.token) (first :: more)
      quiet least good) :
    Agrees last (token >>= descent) (token >>= parse) (first :: more) quiet least good :=
  after

theorem fresh {descent : NodeId → Descent α} {parse : NodeId → Parse α}
    (after : ∀ id, Agrees last (descent id) (parse id) input quiet least good) :
    Agrees last (freshId >>= descent) (freshId >>= parse) input quiet least good :=
  fun ended id => after id ended (id + 1)

theorem tag {place : Position} {descent : Tag → Descent α} {parse : Tag → Parse α}
    (after : ∀ id, Agrees last (descent ⟨id, place⟩) (parse ⟨id, place⟩) input quiet least good) :
    Agrees last (freshTag place >>= descent) (freshTag place >>= parse) input
      quiet least good :=
  fun ended id => after id ended (id + 1)

theorem pass {descent : Unit → Descent α} {parse : Unit → Parse α} (inner : first.token ≠ .eof)
    (after : more.length + 1 ≤ (first :: more).length →
      Agrees last (descent ()) (parse ()) more (quiet - 1) (least - 1) good) :
    Agrees last (advance >>= descent) (advance >>= parse) (first :: more)
      quiet least good := by
  intro ended id
  obtain ⟨ended', moved⟩ := ended.pass inner
  have passed : (advance >>= parse) ⟨first :: more, id⟩ =
      parse () ⟨Cursor.pass (first :: more), id⟩ := rfl
  rw [passed, moved]
  obtain ⟨same, ends⟩ := after (Nat.le_refl _) ended' id
  exact ⟨same, ends.before (List.suffix_cons first more) (Nat.le_refl _) (by omega) (by omega)⟩

theorem choice {wanted : Prop} [Decidable wanted] {yes no : Descent α} {yes' no' : Parse α}
    (holds : wanted → Agrees last yes yes' input quiet least good)
    (fails : ¬ wanted → Agrees last no no' input quiet least good) :
    Agrees last (if wanted then yes else no) (if wanted then yes' else no') input
      quiet least good := by
  by_cases here : wanted
  · rw [if_pos here, if_pos here]
    exact holds here
  · rw [if_neg here, if_neg here]
    exact fails here

theorem expect_next {descent : Unit → Descent α} {parse : Unit → Parse α} (inner : first.token ≠ .eof)
    (after : more.length + 1 ≤ (first :: more).length →
      Agrees last (descent ()) (parse ()) more (quiet - 1) (least - 1) good) :
    Agrees last (Parse.expect first.token >>= descent) (Parse.expect first.token >>= parse)
      (first :: more) quiet least good := by
  intro ended id
  have passed : (Parse.expect first.token : Descent Unit) ⟨first :: more, id⟩ =
      some (.ok (), ⟨more, id⟩) :=
    congrFun (if_pos rfl) _
  have passed' : (Parse.expect first.token : Parse Unit) ⟨first :: more, id⟩ =
      .ok () ⟨Cursor.pass (first :: more), id⟩ :=
    congrFun (if_pos rfl) _
  rw [Descent.bind_ok passed, bind_of_ok passed']
  exact pass inner after ended id

theorem expect {wanted : Token} {descent : Unit → Descent α} {parse : Unit → Parse α}
    (inner : wanted ≠ .eof)
    (after : ∀ place more, input = ⟨wanted, place⟩ :: more → more.length + 1 ≤ input.length →
      Agrees last (descent ()) (parse ()) more 0 (least - 1) good) :
    Agrees last (Parse.expect wanted >>= descent) (Parse.expect wanted >>= parse) input
      0 least good := by
  refine .meets fun next more same => ?_
  subst same
  by_cases found : next.token = wanted
  · subst found
    exact .expect_next inner (after next.position more rfl)
  · have refused : Agrees last (Parse.expect wanted) (Parse.expect wanted) (next :: more) 0
        ((next :: more).length + 1) fun _ _ => True :=
      .look (.choice (fun here => absurd here found) fun _ => .mistake rfl)
    -- a mistake gives no result, so what it passes may be taken to be all lexemes and one more
    exact refused.bind fun rest _ far => absurd far (by omega)

/-- The token is next and is passed, or another one is. -/
theorem accept {wanted : Token} {yes no : Descent α} {yes' no' : Parse α} (inner : wanted ≠ .eof)
    (found : ∀ place more, input = ⟨wanted, place⟩ :: more → more.length + 1 ≤ input.length →
      Agrees last yes yes' more (quiet - 1) (least - 1) good)
    (other : Agrees last no no' input quiet least good) :
    Agrees last (Parse.accept wanted >>= fun found => if found = true then yes else no)
      (Parse.accept wanted >>= fun found => if found = true then yes' else no') input
      quiet least good := by
  refine .meets fun next more same => ?_
  subst same
  intro ended id
  by_cases here : next.token = wanted
  · subst here
    have passed : (Parse.accept next.token : Descent Bool) ⟨next :: more, id⟩ =
        some (.ok true, ⟨more, id⟩) :=
      congrFun (if_pos rfl) _
    have passed' : (Parse.accept next.token : Parse Bool) ⟨next :: more, id⟩ =
        .ok true ⟨Cursor.pass (next :: more), id⟩ :=
      congrFun (if_pos rfl) _
    rw [Descent.bind_ok passed, bind_of_ok passed']
    have moved : Agrees last (advance >>= fun _ => yes) (advance >>= fun _ => yes')
        (next :: more) quiet least good := .pass inner (found next.position more rfl)
    exact moved ended id
  · have stayed : (Parse.accept wanted : Descent Bool) ⟨next :: more, id⟩ =
        some (.ok false, ⟨next :: more, id⟩) :=
      congrFun (if_neg here) _
    have stayed' : (Parse.accept wanted : Parse Bool) ⟨next :: more, id⟩ =
        .ok false ⟨next :: more, id⟩ :=
      congrFun (if_neg here) _
    rw [Descent.bind_ok stayed, bind_of_ok stayed']
    exact other ended id

theorem ident : Agrees last Parse.ident Parse.ident input 0 1 (Grammar.Name input) := by
  refine .meets fun next more same => .place (.look ?_)
  subst same
  obtain ⟨found, place⟩ := next
  cases found with
  | name => exact .pass (by simp) fun _ => .fresh fun id => .done .mk
  | _ => exact .mistake rfl

end Agrees

end Rules

/-! ### Expressions -/

theorem operator?_eq_some {grade : Level} {found : Token} {op : BinaryOp}
    (here : grade.operator? found = some op) : op.level = grade ∧ op.token = found := by
  revert here
  fun_cases Level.operator? grade found <;> rintro ⟨⟩ <;> exact ⟨rfl, rfl⟩

/-- Reading expressions down to a depth agrees with the descent to that depth or `extra` more, if the
input is no longer than the depth allows. What is read behind a phrase goes on from it. -/
structure ExprAgrees (last : Lexeme) (extra depth : Nat) : Prop where
  level (grade : Level) (input : List Lexeme)
    (deep : 16 * input.length + 9 ≤ depth + grade.strength) :
    Agrees last (level (extra + depth) grade) (level depth grade) input 0 1
      (Grammar.Expression grade input)
  chain {left : Expr} {start input : List Lexeme} (grade : Level)
    (before : Grammar.Expression grade start input left) (deep : 16 * input.length + 10 ≤ depth) :
    Agrees last (chain (extra + depth) grade left) (chain depth grade left) input 0 0
      (Grammar.Expression grade start)
  subscripts {base : Expr} {start input : List Lexeme}
    (before : Grammar.Subscripted start input base) (deep : 16 * input.length + 10 ≤ depth) :
    Agrees last (subscripts (extra + depth) base) (subscripts depth base) input 0 0
      (Grammar.Subscripted start)
  primary (input : List Lexeme) (deep : 16 * input.length + 1 ≤ depth) :
    Agrees last (primary (extra + depth)) (primary depth) input 0 1 (Grammar.Primary input)
  array (place : Position) (input : List Lexeme) (deep : 16 * input.length + 10 ≤ depth) :
    Agrees last (array (extra + depth) place) (array depth place) input 0 0
      (Grammar.Primary (⟨.mark .leftBracket, place⟩ :: input))
  items {item : Expr} {start input : List Lexeme} (before : Grammar.Expression .or start input item)
    (deep : 16 * input.length + 10 ≤ depth) :
    Agrees last (items (extra + depth)) (items depth) input 0 0
      fun rest others => Grammar.Listed (Grammar.Expression .or) start rest (item :: others)
  entries (input : List Lexeme) (deep : 16 * input.length + 10 ≤ depth) :
    Agrees last (entries (extra + depth)) (entries depth) input 0 0
      (Grammar.Listed Grammar.Entry input)
  arguments (input : List Lexeme) (deep : 16 * input.length + 10 ≤ depth) :
    Agrees last (arguments (extra + depth)) (arguments depth) input 0 0
      (Grammar.Listed (Grammar.Expression .or) input)

variable {extra depth : Nat} {input : List Lexeme}

theorem ExprAgrees.expr (below : ExprAgrees last extra depth) (input : List Lexeme)
    (deep : 16 * input.length + 9 ≤ depth) :
    Agrees last (Parse.level (extra + depth) .or) (Parse.level depth .or) input 0 1
      (Grammar.Expression .or input) :=
  below.level .or input deep

section

variable (below : ExprAgrees last extra depth)
variable {start : List Lexeme}

include below

/-- A unary operator with an operand of its own level, or what the level has otherwise. -/
theorem agrees_unary (op : UnaryOp) {other : Descent Expr} {other' : Parse Expr}
    (deep : 16 * input.length ≤ depth)
    (otherwise : Agrees last other other' input 0 1 (Grammar.Expression op.level input)) :
    Agrees last (position >>= fun place => Parse.accept op.token >>= fun found =>
        if found = true then level (extra + depth) op.level >>= fun inner =>
          freshTag place >>= fun tag => pure (.unary tag op inner)
        else other)
      (position >>= fun place => accept op.token >>= fun found =>
        if found = true then level depth op.level >>= fun inner =>
          freshTag place >>= fun tag => pure (.unary tag op inner)
        else other') input 0 1 (Grammar.Expression op.level input) := by
  refine .meets fun first more same => .place ?_
  subst same
  refine .accept (by cases op <;> simp [UnaryOp.token]) (fun place behind same shorter => ?_) otherwise
  cases same
  refine .bind (below.level op.level more (by omega)) fun rest operand _ derived => .tag fun id => ?_
  exact .done (.unary derived)

theorem agrees_level (grade : Level) (input : List Lexeme)
    (deep : 16 * input.length + 9 ≤ depth + 1 + grade.strength) :
    Agrees last (level (extra + depth + 1) grade) (level (depth + 1) grade) input 0 1
      (Grammar.Expression grade input) := by
  by_cases negates : grade = .not
  · subst negates
    have deep : 16 * input.length + 9 ≤ depth + 1 + 2 := deep
    refine agrees_unary below .not (by omega) ((below.level .equality input ?_).mono
      (Nat.le_refl 0) fun rest expr derived => .tighter (by decide) derived)
    change _ ≤ depth + 3
    omega
  by_cases inner : grade = .sign
  · subst inner
    have deep : 16 * input.length + 9 ≤ depth + 1 + 7 := deep
    refine agrees_unary below .neg (by omega)
      (.bind (below.primary input (by omega)) fun rest base shorter derived => ?_)
    exact (below.subscripts (.primary derived) (by omega)).mono (Nat.le_refl 0)
      fun rest expr derived => .plain derived
  rw [level_chain negates inner, level_chain negates inner]
  have tighter := Level.strength_tighter inner
  have most : grade.tighter.strength ≤ 7 := grade.tighter.strength_le
  refine .bind (below.level grade.tighter input (by omega)) fun rest left shorter derived => ?_
  exact below.chain grade (.tighter inner derived) (by omega)

theorem agrees_chain {left : Expr} (grade : Level)
    (before : Grammar.Expression grade start input left) (deep : 16 * input.length + 10 ≤ depth + 1) :
    Agrees last (chain (extra + depth + 1) grade left) (chain (depth + 1) grade left)
      input 0 0 (Grammar.Expression grade start) := by
  rw [chain, chain]
  refine .meets fun first more same => .look ?_
  subst same
  cases found : grade.operator? first.token with
  | none => exact .done before
  | some op =>
    obtain ⟨rfl, token⟩ := operator?_eq_some found
    obtain ⟨_, place⟩ := first
    subst token
    refine .pass (by cases op <;> simp [BinaryOp.token]) fun shorter => ?_
    refine .bind (below.level op.level.tighter more (by omega))
      fun rest right shorter' derived => .tag fun id => ?_
    exact below.chain op.level (.binary before derived) (by omega)

theorem agrees_subscripts {base : Expr} (before : Grammar.Subscripted start input base)
    (deep : 16 * input.length + 10 ≤ depth + 1) :
    Agrees last (subscripts (extra + depth + 1) base) (subscripts (depth + 1) base)
      input 0 0 (Grammar.Subscripted start) := by
  rw [subscripts, subscripts]
  refine .accept (by simp) (fun opened more same shorter => ?_) (.done before)
  subst same
  refine .bind (below.expr more (by omega)) fun rest index shorter' derived => .expect (by simp) ?_
  rintro closed behind rfl closer
  exact .tag fun id => below.subscripts (.index before derived) (by omega)

theorem agrees_primary (input : List Lexeme) (deep : 16 * input.length + 1 ≤ depth + 1) :
    Agrees last (primary (extra + depth + 1)) (primary (depth + 1)) input 0 1
      (Grammar.Primary input) := by
  refine .meets fun first more same => .place (.look ?_)
  subst same
  obtain ⟨found, place⟩ := first
  cases found with
  | int => exact .pass (by simp) fun _ => .tag fun id => .done .int
  | text => exact .pass (by simp) fun _ => .tag fun id => .done .text
  | name =>
    refine .bind .ident fun rest callee shorter named => ?_
    refine .accept (by simp) (fun opened list same shorter' => ?_) (.done (.name named))
    subst same
    refine .bind (below.arguments list (by omega)) fun rest args _ derived => .expect (by simp) ?_
    rintro closed behind rfl -
    exact .tag fun id => .done (.call named derived)
  | keyword word =>
    cases word with
    | true_ => exact .pass (by simp) fun _ => .tag fun id => .done .yes
    | false_ => exact .pass (by simp) fun _ => .tag fun id => .done .no
    | none_ => exact .pass (by simp) fun _ => .tag fun id => .done .none
    | _ => exact .mistake rfl
  | mark sign =>
    cases sign with
    | leftParen =>
      refine .pass (by simp) fun shorter => ?_
      refine .bind (below.expr more (by omega)) fun rest inner _ derived => .expect (by simp) ?_
      rintro closed behind rfl -
      exact .done (.parens derived)
    | leftBracket => exact .pass (by simp) fun shorter => below.array place more (by omega)
    | leftBrace =>
      refine .pass (by simp) fun shorter => ?_
      refine .bind (below.entries more (by omega)) fun rest found _ derived => .expect (by simp) ?_
      rintro closed behind rfl -
      exact .tag fun id => .done (.map derived)
    | _ => exact .mistake rfl
  | eof => exact .mistake rfl

theorem agrees_array (place : Position) (input : List Lexeme)
    (deep : 16 * input.length + 10 ≤ depth + 1) :
    Agrees last (array (extra + depth + 1) place) (array (depth + 1) place) input 0 0
      (Grammar.Primary (⟨.mark .leftBracket, place⟩ :: input)) := by
  rw [array, array]
  refine .accept (by simp) (fun closed more same _ => ?empty)
    (.accept (by simp) (fun colon more same shorter => ?size)
      (.bind (below.expr input (by omega)) fun rest first shorter derived => ?_))
  case empty =>
    subst same
    exact .tag fun id => .done (.array .nil)
  case size =>
    subst same
    refine .bind (below.expr more (by omega)) fun rest size _ derived => .expect (by simp) ?_
    rintro closed behind rfl -
    exact .tag fun id => .done (.sized derived)
  refine .accept (by simp) (fun for_ named same shorter' => ?comprehension)
    (.bind (below.items derived (by omega)) fun rest others _ listed => .expect (by simp) ?items)
  case items =>
    rintro closed behind rfl -
    exact .tag fun id => .done (.array listed)
  case comprehension =>
    subst same
    refine .bind .ident fun _ binder closer known => .expect (by simp) ?_
    rintro in_ over_ rfl closer'
    refine .bind (below.expr over_ (by omega)) fun rest source near ranged => ?_
    have clause : Agrees last (do
        if ← Parse.accept (.keyword .if_) then return some (← level (extra + depth) .or)
        return none) (do
        if ← accept (.keyword .if_) then return some (← level depth .or)
        return none) rest 0 0 fun rest' filter => ∀ closed behind,
          rest' = ⟨.mark .rightBracket, closed⟩ :: behind → ∀ id,
          Grammar.Primary (⟨.mark .leftBracket, place⟩ :: input) behind
            (.comprehension ⟨id, place⟩ first binder source filter) := by
      refine .accept (by simp) (fun if_ test same nearer => ?_) (.done ?_)
      · subst same
        refine .bind (below.expr test (by omega)) fun rest condition _ tested => .done ?_
        rintro closed behind rfl id
        exact .filtered derived known ranged tested
      · rintro closed behind rfl id
        exact .comprehension derived known ranged
    refine .bind clause fun rest filter _ whole => .expect (by simp) fun closed behind same _ => ?_
    exact .tag fun id => .done (whole closed behind same id)

theorem agrees_items {item : Expr} (before : Grammar.Expression .or start input item)
    (deep : 16 * input.length + 10 ≤ depth + 1) :
    Agrees last (items (extra + depth + 1)) (items (depth + 1)) input 0 0
      fun rest others => Grammar.Listed (Grammar.Expression .or) start rest (item :: others) := by
  rw [items, items]
  refine .accept (by simp) (fun comma more same shorter => ?_) (.done (.last before))
  subst same
  refine .meets fun first behind same => .look (.choice (fun _ => ?_) fun _ => ?_)
  · subst same
    exact .done (.cons before .nil)
  · subst same
    refine .bind (below.expr _ (by omega)) fun rest next shorter' derived => ?_
    refine .bind (below.items derived (by omega)) fun rest others _ listed => ?_
    exact .done (.cons before listed)

omit below in
/-- Members up to a closing token, with a comma behind each but perhaps the last. -/
theorem agrees_member {α : Type} {one : Descent α} {others : Descent (List α)} {one' : Parse α}
    {others' : Parse (List α)} {derives : List Lexeme → List Lexeme → α → Prop} (closing : Token)
    (here : Agrees last one one' input 0 1 (derives input))
    (there : ∀ rest, rest.length + 2 ≤ input.length →
      Agrees last others others' rest 0 0 (Grammar.Listed derives rest)) :
    Agrees last (do
      if (← token) = closing || (← token) = .eof then return []
      let item ← one
      if ← Parse.accept (.mark .comma) then
        return item :: (← others)
      return [item]) (member closing one' others') input 0 0 (Grammar.Listed derives input) := by
  refine .meets fun first more same => .look (.look (.choice (fun _ => ?_) fun _ => ?_))
  · subst same
    exact .done .nil
  subst same
  refine .bind here fun rest item shorter derived => ?_
  refine .accept (by simp) (fun comma behind same shorter' => ?_) (.done (.last derived))
  subst same
  exact .bind (there behind (by omega)) fun rest others _ listed => .done (.cons derived listed)

theorem agrees_entries (input : List Lexeme) (deep : 16 * input.length + 10 ≤ depth + 1) :
    Agrees last (entries (extra + depth + 1)) (entries (depth + 1)) input 0 0
      (Grammar.Listed Grammar.Entry input) := by
  have pair : Agrees last (do
      let key ← level (extra + depth) .or
      Parse.expect (.mark .colon)
      let value ← level (extra + depth) .or
      return (key, value)) (entry depth) input 0 1 (Grammar.Entry input) := by
    refine .bind (below.expr input (by omega)) fun rest key shorter derived => .expect (by simp) ?_
    rintro colon behind rfl shorter'
    refine .bind (below.expr behind (by omega)) fun rest value _ derived' => ?_
    exact .done (.mk derived derived')
  have whole := agrees_member (.mark .rightBrace) pair fun rest shorter =>
    below.entries rest (by omega)
  rw [entries, entries_succ]
  simpa only [bind_assoc, pure_bind] using whole

theorem agrees_arguments (input : List Lexeme) (deep : 16 * input.length + 10 ≤ depth + 1) :
    Agrees last (arguments (extra + depth + 1)) (arguments (depth + 1)) input 0 0
      (Grammar.Listed (Grammar.Expression .or) input) := by
  rw [arguments, arguments_succ]
  exact agrees_member _ (below.expr input (by omega)) fun rest shorter =>
    below.arguments rest (by omega)

end

/-- **An expression is read as the descent reads it**, and is one of the grammar: at no depth that is
enough for the input does the bound show. -/
theorem exprAgrees (last : Lexeme) (extra depth : Nat) : ExprAgrees last extra depth := by
  induction depth with
  | zero =>
    -- no input is short enough for no depth at all
    exact
      { level := fun grade _ deep => by
          have most : grade.strength ≤ 7 := grade.strength_le
          omega
        chain := fun _ _ deep => absurd deep (by omega)
        subscripts := fun _ deep => absurd deep (by omega)
        primary := fun _ deep => absurd deep (by omega)
        array := fun _ _ deep => absurd deep (by omega)
        items := fun _ deep => absurd deep (by omega)
        entries := fun _ deep => absurd deep (by omega)
        arguments := fun _ deep => absurd deep (by omega) }
  | succ depth below =>
    exact
      { level := agrees_level below
        chain := agrees_chain below
        subscripts := agrees_subscripts below
        primary := agrees_primary below
        array := agrees_array below
        items := agrees_items below
        entries := agrees_entries below
        arguments := agrees_arguments below }

theorem agrees_expr (extra depth : Nat) (input : List Lexeme) (deep : 16 * input.length + 9 ≤ depth) :
    Agrees last (level (extra + depth) .or) (expr depth) input 0 1
      (Grammar.Expression .or input) :=
  (exprAgrees last extra depth).expr input deep

/-! ### Statements -/

theorem agrees_parameters (extra depth : Nat) (input : List Lexeme)
    (deep : 16 * input.length + 10 ≤ depth) :
    Agrees last (parameters (extra + depth)) (parameters depth) input 0 0
      (Grammar.Listed Grammar.Name input) := by
  induction depth generalizing input with
  | zero => exact absurd deep (by omega)
  | succ depth ih =>
    rw [parameters_succ]
    exact agrees_member _ .ident fun rest shorter => ih rest (by omega)

/-- The target that an expression before an equals sign names; no lexeme is passed. -/
theorem agrees_target {α : Type} {equals : Position} {descent : Target → Descent α}
    {parse : Target → Parse α} {least : Nat} {good : List Lexeme → α → Prop} (left : Expr)
    (after : ∀ goal : Target, goal.expr = left → Agrees last (descent goal) (parse goal) (⟨.mark
      .assign, equals⟩ :: more) 0 least good) :
    Agrees last (target left >>= descent) (target left >>= parse)
      (⟨.mark .assign, equals⟩ :: more) 0 least good := by
  cases left with
  | name | index => exact after _ rfl
  | _ =>
    have fails : Agrees last (Parse.mistake fun _ => .badTarget : Descent Target)
        (mistake fun _ => .badTarget) (⟨.mark .assign, equals⟩ :: more) 0
        ((⟨.mark .assign, equals⟩ :: more : List Lexeme).length + 1) fun _ _ => True := .mistake rfl
    refine fails.bind fun rest goal far _ => absurd far ?_
    omega

theorem agrees_returnStmt (extra depth : Nat) {place : Position}
    (deep : 16 * more.length + 9 ≤ depth) :
    Agrees last (returnStmt (extra + depth)) (returnStmt depth)
      (⟨.keyword .return_, place⟩ :: more) 1 1
      (Grammar.Statement (⟨.keyword .return_, place⟩ :: more)) := by
  refine .place (.expect_next (by simp) fun _ => .meets fun next behind same => ?_)
  subst same
  refine .look (.choice (fun _ => ?_) fun _ => .done .ret)
  exact .bind (agrees_expr extra depth _ deep) fun rest value _ derived => .done (.give derived)

theorem agrees_finalStmt (extra depth : Nat) {place : Position}
    (deep : 16 * more.length + 9 ≤ depth) :
    Agrees last (finalStmt (extra + depth)) (finalStmt depth)
      (⟨.keyword .final, place⟩ :: more) 1 1
      (Grammar.Statement (⟨.keyword .final, place⟩ :: more)) := by
  refine .place (.expect_next (by simp) fun _ => .bind .ident fun rest name shorter known => ?_)
  refine .expect (by simp) ?_
  rintro equals behind rfl shorter'
  refine .bind (agrees_expr extra depth behind (by omega)) fun rest value _ derived => ?_
  exact .tag fun id => .done (.final known derived)

theorem agrees_assignOrExpr (extra depth : Nat) (input : List Lexeme)
    (deep : 16 * input.length + 9 ≤ depth) :
    Agrees last (assignOrExpr (extra + depth)) (assignOrExpr depth) input 0 1
      (Grammar.Statement input) := by
  refine .meets fun first more same => .place ?_
  subst same
  refine .bind (agrees_expr extra depth _ deep) fun rest left shorter derived => ?_
  refine .meets fun next behind same => .look (.choice (fun assigns => ?_) fun _ => ?_)
  · obtain ⟨_, equals⟩ := next
    subst same assigns
    refine agrees_target left fun goal named => .pass (by simp) fun closer => ?_
    refine .bind (agrees_expr extra depth behind (by omega)) fun rest value _ derived' => ?_
    exact .tag fun id => .done (.assign (derived.lvalue goal named) derived')
  · subst same
    exact .done (.expr derived)

/-- Reading statements down to a depth agrees with the descent. A word that opens a statement is passed
before there can be a mistake in it. -/
structure StmtAgrees (last : Lexeme) (extra depth : Nat) : Prop where
  stmt (first : Lexeme) (more : List Lexeme) (deep : 16 * (first :: more).length + 10 ≤ depth) :
    Agrees last (stmt (extra + depth)) (stmt depth) (first :: more)
      first.token.opensStatement.toNat 1 (Grammar.Statement (first :: more))
  block (input : List Lexeme) (deep : 16 * input.length + 12 ≤ depth) :
    Agrees last (block (extra + depth)) (block depth) input 0 0 (Grammar.Body input)
  stmts (input : List Lexeme) (deep : 16 * input.length + 11 ≤ depth) :
    Agrees last (stmts (extra + depth)) (stmts depth) input 0 0 (Grammar.Statements input)
  branches (input : List Lexeme) (deep : 16 * input.length + 10 ≤ depth) :
    Agrees last (branches (extra + depth)) (branches depth) input 0 0 (Grammar.Clauses input)

section

variable (below : StmtAgrees last extra depth)

include below

theorem agrees_stmt (first : Lexeme) (more : List Lexeme)
    (deep : 16 * (first :: more).length + 10 ≤ depth + 1) :
    Agrees last (stmt (extra + depth + 1)) (stmt (depth + 1)) (first :: more)
      first.token.opensStatement.toNat 1 (Grammar.Statement (first :: more)) := by
  rw [stmt, stmt]
  refine .place (.look ?_)
  have long : (first :: more).length = more.length + 1 := List.length_cons
  obtain ⟨found, place⟩ := first
  cases found with
  | keyword word =>
    cases word with
    | def_ =>
      refine .pass (by simp) fun _ => .fresh fun id => .bind .ident fun rest name shorter known => ?_
      refine .expect (by simp) ?_
      rintro opened list rfl shorter
      refine .bind (agrees_parameters extra depth list (by omega)) fun rest params near listed => ?_
      refine .expect (by simp) ?_
      rintro closed rest rfl near
      refine .expect (by simp) ?_
      rintro colon body rfl near
      refine .bind (below.block body (by omega)) fun rest block _ inside => .expect (by simp) ?_
      rintro end_ behind rfl -
      exact .done (.define known listed inside)
    | if_ =>
      refine .pass (by simp) fun _ => ?_
      refine .bind (agrees_expr extra depth more (by omega)) fun rest condition near tested => ?_
      refine .expect (by simp) ?_
      rintro colon body rfl near
      refine .bind (below.block body (by omega)) fun rest block near inside => ?_
      refine .bind (below.branches rest (by omega)) fun rest branches _ clauses => .expect (by simp) ?_
      rintro end_ behind rfl -
      exact .done (.cond tested inside clauses)
    | while_ =>
      refine .pass (by simp) fun _ => ?_
      refine .bind (agrees_expr extra depth more (by omega)) fun rest condition near tested => ?_
      refine .expect (by simp) ?_
      rintro colon body rfl near
      refine .bind (below.block body (by omega)) fun rest block _ inside => .expect (by simp) ?_
      rintro end_ behind rfl -
      exact .done (.loop tested inside)
    | for_ =>
      refine .pass (by simp) fun _ => .fresh fun id => .bind .ident fun rest binder near known => ?_
      refine .expect (by simp) ?_
      rintro in_ over_ rfl near
      refine .bind (agrees_expr extra depth over_ (by omega)) fun rest source near ranged => ?_
      refine .expect (by simp) ?_
      rintro colon body rfl near
      refine .bind (below.block body (by omega)) fun rest block _ inside => .expect (by simp) ?_
      rintro end_ behind rfl -
      exact .done (.each known ranged inside)
    | return_ => exact agrees_returnStmt extra depth (by omega)
    | final => exact agrees_finalStmt extra depth (by omega)
    | _ => exact agrees_assignOrExpr extra depth _ (by omega)
  | _ => exact agrees_assignOrExpr extra depth _ (by omega)

theorem agrees_block (input : List Lexeme) (deep : 16 * input.length + 12 ≤ depth + 1) :
    Agrees last (block (extra + depth + 1)) (block (depth + 1)) input 0 0
      (Grammar.Body input) := by
  rw [block, block]
  refine .fresh fun id => .meets fun first more same => .place ?_
  subst same
  exact .bind (below.stmts _ (by omega)) fun rest stmts _ inside => .done (.mk inside)

theorem agrees_stmts (input : List Lexeme) (deep : 16 * input.length + 11 ≤ depth + 1) :
    Agrees last (stmts (extra + depth + 1)) (stmts (depth + 1)) input 0 0
      (Grammar.Statements input) := by
  rw [stmts, stmts]
  refine .meets fun first more same => .look (.choice (fun _ => ?_) fun _ => ?_)
  · subst same
    exact .done .nil
  subst same
  have here := (below.stmt first more (by omega)).mono (Nat.zero_le _) fun _ _ derived => derived
  refine .bind here fun rest stmt shorter derived => ?_
  exact .bind (below.stmts rest (by omega)) fun rest others _ inside => .done (.cons derived inside)

theorem agrees_branches (input : List Lexeme) (deep : 16 * input.length + 10 ≤ depth + 1) :
    Agrees last (branches (extra + depth + 1)) (branches (depth + 1)) input 0 0
      (Grammar.Clauses input) := by
  rw [branches, branches]
  refine .meets fun first more same => .place (.look ?_)
  obtain ⟨found, place⟩ := first
  subst same
  cases found with
  | keyword word =>
    cases word with
    | elsif =>
      refine .pass (by simp) fun shorter => ?_
      refine .bind (agrees_expr extra depth more (by omega)) fun rest condition near tested => ?_
      refine .expect (by simp) ?_
      rintro colon body rfl near
      refine .bind (below.block body (by omega)) fun rest block near inside => ?_
      exact .bind (below.branches rest (by omega)) fun rest others _ clauses =>
        .done (.elsif tested inside clauses)
    | else_ =>
      refine .pass (by simp) fun shorter => .expect (by simp) ?_
      rintro colon body rfl near
      refine .bind (below.block body (by omega)) fun rest block near inside => ?_
      exact .bind (below.branches rest (by omega)) fun rest others _ clauses =>
        .done (.otherwise inside clauses)
    | _ => exact .done .nil
  | _ => exact .done .nil

end

/-- **A statement is read as the descent reads it**, and is one of the grammar. -/
theorem stmtAgrees (last : Lexeme) (extra depth : Nat) : StmtAgrees last extra depth := by
  induction depth with
  | zero =>
    exact
      { stmt := fun _ _ deep => absurd deep (by omega)
        block := fun _ deep => absurd deep (by omega)
        stmts := fun _ deep => absurd deep (by omega)
        branches := fun _ deep => absurd deep (by omega) }
  | succ depth below =>
    exact
      { stmt := agrees_stmt below
        block := agrees_block below
        stmts := agrees_stmts below
        branches := agrees_branches below }

end Parse

end ScopedScript
