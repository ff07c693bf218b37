/-
**Reading ends, and its mistakes come in order.**

After a mistake reading goes on at the next word that opens a statement, which may be the very lexeme
that the mistake is about. Such a word is passed before there can be another mistake, so no lexeme is
blamed twice, and every round of the loop passes at least one lexeme:

* `Parse.unopened`: the lexemes that the next mistake can be about;
* `Parse.skip_agrees`, `Parse.unopened_skip`: where reading goes on after a mistake;
* `Parse.topLevel_agrees`: the loop over the statements ends as the one of the descent does, and the
  lexemes blamed are different ones, in order;
* `Program.parse_ends`: **reading any lexemes up to the end of the text comes to an end without a look
  behind it, with a program or with mistakes about different lexemes, in their order.**
-/

import Mathlib.Data.List.Forall2
import ScopedScript.Proofs.Derivation

namespace ScopedScript

variable {last : Lexeme}

namespace Parse

/-! ### Where reading goes on -/

/-- Whether reading stops at a lexeme when it looks for the next statement after a mistake. -/
def halts (lexeme : Lexeme) : Bool := lexeme.token = .eof || lexeme.token.opensStatement

/-- The lexemes that a mistake can be about in what is left to read: a word that opens a statement is
passed first, and there is no mistake at the end of the text. -/
def unopened : List Lexeme → List Lexeme
  | [] => []
  | first :: rest => if halts first then rest else first :: rest

theorem unopened_suffix (rest : List Lexeme) : unopened rest <:+ rest := by
  cases rest with
  | nil => exact List.suffix_rfl
  | cons first rest =>
    rw [unopened]
    split
    · exact List.suffix_cons first rest
    · exact List.suffix_rfl

/-- Recovery stays at a lexeme where it halts, and passes any other one. -/
theorem skip_cons {first : Lexeme} {rest : List Lexeme} (ended : Ended last (first :: rest)) :
    Cursor.skip (first :: rest) = if halts first then first :: rest else Cursor.skip rest := by
  cases ended with
  | last ended => simp [Cursor.skip, halts, ended]
  | cons _ ended =>
    obtain ⟨second, rest, rfl⟩ := ended.exists_cons
    rfl

theorem recover_cons (count : Nat) (first : Lexeme) (rest : List Lexeme) (id : NodeId) :
    Descent.recover (count + 1) ⟨first :: rest, id⟩ =
      if halts first then some (.ok (), ⟨first :: rest, id⟩)
      else Descent.recover count ⟨rest, id⟩ := by
  rw [Descent.recover]
  by_cases here : halts first
  · rw [if_pos here]
    exact congrFun (if_pos here) _
  · rw [if_neg here]
    exact congrFun (if_neg here) _

/-- Recovery ends within the lexemes, and the descent recovers in the same way. -/
theorem skip_agrees {rest : List Lexeme} (ended : Ended last rest) :
    Ended last (Cursor.skip rest) ∧ Cursor.skip rest <:+ rest ∧
      ∀ count id, rest.length ≤ count →
        Descent.recover count ⟨rest, id⟩ = some (.ok (), ⟨Cursor.skip rest, id⟩) := by
  induction ended with
  | last ended =>
    have here : halts last := by simp [halts, ended]
    rw [skip_cons (.last ended), if_pos here]
    refine ⟨.last ended, List.suffix_rfl, fun count id enough => ?_⟩
    cases count with
    | zero => exact absurd enough (Nat.not_succ_le_zero _)
    | succ count => rw [recover_cons, if_pos here]
  | @cons first rest inner ended ih =>
    obtain ⟨ended', behind, recovers⟩ := ih
    rw [skip_cons (.cons inner ended)]
    by_cases here : halts first
    · rw [if_pos here]
      refine ⟨.cons inner ended, List.suffix_rfl, fun count id enough => ?_⟩
      cases count with
      | zero => exact absurd enough (Nat.not_succ_le_zero _)
      | succ count => rw [recover_cons, if_pos here]
    · rw [if_neg here]
      refine ⟨ended', behind.trans (List.suffix_cons first rest), fun count id enough => ?_⟩
      cases count with
      | zero => exact absurd enough (Nat.not_succ_le_zero _)
      | succ count =>
        rw [recover_cons, if_neg here]
        exact recovers count id (Nat.le_of_succ_le_succ enough)

/-- After a mistake about the lexeme to read next, no later mistake can be about it. -/
theorem unopened_skip {first : Lexeme} {rest : List Lexeme} (ended : Ended last (first :: rest)) :
    unopened (Cursor.skip (first :: rest)) <:+ rest := by
  rw [skip_cons ended]
  by_cases here : halts first
  · have opened : unopened (first :: rest) = rest := if_pos here
    rw [if_pos here]
    exact ⟨[], opened⟩
  · rw [if_neg here]
    cases ended with
    | last ended => simp [halts, ended] at here
    | cons _ ended => exact (unopened_suffix _).trans (skip_agrees ended).2.1

end Parse

/-! ### The loop over the statements

One equation of each loop for each way in which a round of it can go. -/

section Loop

variable {first : Lexeme} {rest : List Lexeme} {id : NodeId} {between after : Cursor} {stmt : Stmt}
  {diagnostic : Diagnostic} {depth count : Nat} {found : List Stmt × List Diagnostic}

theorem Descent.topLevel_end (here : first.token = .eof) :
    Descent.topLevel depth (count + 1) ⟨first :: rest, id⟩ = some ([], []) := by
  rw [Descent.topLevel]
  simp [here]

theorem Descent.topLevel_ok (inner : first.token ≠ .eof)
    (ran : (Parse.stmt depth : Descent Stmt) ⟨first :: rest, id⟩ = some (.ok stmt, after))
    (shorter : after.rest.length < (first :: rest).length)
    (behind : Descent.topLevel depth count after = some found) :
    Descent.topLevel depth (count + 1) ⟨first :: rest, id⟩ = some (stmt :: found.1, found.2) := by
  rw [Descent.topLevel]
  simp only [List.head?_cons, Option.bind_eq_bind, Option.bind_some, if_neg inner, ran,
    if_neg (Nat.ne_of_lt shorter), behind, Option.pure_def]

theorem Descent.topLevel_error (inner : first.token ≠ .eof)
    (ran : (Parse.stmt depth : Descent Stmt) ⟨first :: rest, id⟩ = some (.error diagnostic, between))
    (recovers : Descent.recover depth between = some (.ok (), after))
    (shorter : after.rest.length < (first :: rest).length)
    (behind : Descent.topLevel depth count after = some found) :
    Descent.topLevel depth (count + 1) ⟨first :: rest, id⟩ = some (found.1, diagnostic :: found.2) := by
  rw [Descent.topLevel]
  simp only [List.head?_cons, Option.bind_eq_bind, Option.bind_some, if_neg inner, ran, recovers,
    if_neg (Nat.ne_of_lt shorter), behind, Option.pure_def]

theorem Parse.topLevel_end (here : first.token = .eof) :
    Parse.topLevel depth (count + 1) ⟨first :: rest, id⟩ = ([], []) :=
  if_pos here

theorem Parse.topLevel_ok (inner : first.token ≠ .eof)
    (ran : (Parse.stmt depth : Parse Stmt) ⟨first :: rest, id⟩ = .ok stmt after)
    (shorter : after.rest.length < (first :: rest).length)
    (behind : Parse.topLevel depth count after = found) :
    Parse.topLevel depth (count + 1) ⟨first :: rest, id⟩ = (stmt :: found.1, found.2) := by
  rw [Parse.topLevel, if_neg (show ¬ (Cursor.mk (first :: rest) id).current.token = .eof from inner)]
  simp only [EStateM.run, ran, if_neg (Nat.ne_of_lt shorter), behind]

theorem Parse.topLevel_error (inner : first.token ≠ .eof)
    (ran : (Parse.stmt depth : Parse Stmt) ⟨first :: rest, id⟩ = .error diagnostic between)
    (shorter : between.recover.rest.length < (first :: rest).length)
    (behind : Parse.topLevel depth count between.recover = found) :
    Parse.topLevel depth (count + 1) ⟨first :: rest, id⟩ = (found.1, diagnostic :: found.2) := by
  rw [Parse.topLevel, if_neg (show ¬ (Cursor.mk (first :: rest) id).current.token = .eof from inner)]
  simp only [EStateM.run, ran, if_neg (Nat.ne_of_lt shorter), behind]

end Loop

namespace Parse

variable {first : Lexeme} {rest found : List Lexeme}

/-- Lexemes behind the word that opens a statement, if one does, can be blamed. -/
theorem suffix_unopened (inner : first.token ≠ .eof) (behind : found <:+ first :: rest)
    (far : found.length + first.token.opensStatement.toNat ≤ (first :: rest).length) :
    found <:+ unopened (first :: rest) := by
  rw [unopened]
  by_cases opens : first.token.opensStatement
  · rw [if_pos (by simp [halts, opens])]
    rw [opens] at far
    have shorter := Nat.le_of_succ_le_succ far
    exact List.suffix_of_suffix_length_le behind (List.suffix_cons first rest) shorter
  · rw [if_neg (by simp [halts, inner, opens])]
    exact behind

/-- Recovery after a mistake in a statement ends behind the start of the statement. -/
theorem skip_shorter (inner : first.token ≠ .eof) (ended : Ended last found)
    (behind : found <:+ first :: rest)
    (far : found.length + first.token.opensStatement.toNat ≤ (first :: rest).length) :
    (Cursor.skip found).length < (first :: rest).length := by
  obtain ⟨blamed, more, rfl⟩ := ended.exists_cons
  rw [skip_cons ended]
  by_cases here : halts blamed
  · rw [if_pos here]
    rcases List.suffix_cons_iff.mp behind with same | inside
    · -- a word that opens a statement is passed before there is a mistake
      cases same
      have opens : first.token.opensStatement := by simpa [halts, inner] using here
      rw [opens] at far
      exact far
    · exact Nat.lt_succ_of_le inside.length_le
  · rw [if_neg here]
    cases ended with
    | last ended => simp [halts, ended] at here
    | cons _ ended => exact Nat.lt_of_le_of_lt (skip_agrees ended).2.1.length_le behind.length_le

/-- **The loop over the statements ends as the one of the descent does**, and its mistakes are about
different lexemes, in their order. -/
theorem topLevel_agrees (extra spare : Nat) {depth count : Nat} (cursor : Cursor)
    (ended : Ended last cursor.rest) (enough : cursor.rest.length ≤ count)
    (deep : 16 * cursor.rest.length + 10 ≤ depth) :
    Descent.topLevel (extra + depth) (spare + count) cursor = some (topLevel depth count cursor) ∧
      ∃ blamed : List Lexeme, blamed.Sublist (unopened cursor.rest) ∧
        List.Forall₂ Blames blamed (topLevel depth count cursor).2 := by
  -- every round leaves fewer lexemes, so there are at most as many rounds as lexemes
  induction count generalizing cursor with
  | zero =>
    rw [List.eq_nil_of_length_eq_zero (Nat.le_zero.mp enough)] at ended
    cases ended
  | succ count ih =>
    obtain ⟨input, id⟩ := cursor
    obtain ⟨first, rest, rfl⟩ := ended.exists_cons
    by_cases inner : first.token = .eof
    · rw [topLevel_end inner]
      exact ⟨Descent.topLevel_end inner, [], List.nil_sublist _, .nil⟩
    have room : ∀ next : Cursor, next.rest.length < (first :: rest).length →
        next.rest.length ≤ count ∧ 16 * next.rest.length + 10 ≤ depth := by
      intro next shorter
      change (first :: rest).length ≤ count + 1 at enough
      change 16 * (first :: rest).length + 10 ≤ depth at deep
      omega
    obtain ⟨same, ends⟩ := (stmtAgrees last extra depth).stmt first rest deep ended id
    cases ran : (stmt depth : Parse Stmt) ⟨first :: rest, id⟩ with
    | ok stmt next =>
      rw [ran] at same ends
      cases ends with
      | ok ended' behind far _ =>
        obtain ⟨counted, deep'⟩ := room next far
        obtain ⟨same', blamed, among, blames⟩ := ih next ended' counted deep'
        rw [topLevel_ok inner ran far rfl]
        refine ⟨Descent.topLevel_ok inner same far same', blamed, among.trans ?_, blames⟩
        have opened := first.token.opensStatement.toNat_le
        have later := suffix_unopened inner behind (by omega)
        exact ((unopened_suffix next.rest).trans later).sublist
    | error diagnostic next =>
      rw [ran] at same ends
      cases ends with
      | error ended' behind far blames =>
        obtain ⟨ended'', -, recovers⟩ := skip_agrees ended'
        have shorter := skip_shorter inner ended' behind far
        obtain ⟨counted, deep'⟩ := room next.recover shorter
        obtain ⟨same', blamed, among, blames'⟩ := ih next.recover ended'' counted deep'
        rw [topLevel_error inner ran shorter rfl]
        have recovers' := recovers (extra + depth) next.nextId (by
          have short := behind.length_le
          change 16 * (first :: rest).length + 10 ≤ depth at deep
          omega)
        refine ⟨Descent.topLevel_error inner same recovers' shorter same',
          next.current :: blamed, ?_, .cons blames blames'⟩
        obtain ⟨found, nextId⟩ := next
        obtain ⟨here, more, rfl⟩ := ended'.exists_cons
        have later := among.trans (unopened_skip ended').sublist
        exact (later.cons_cons here).trans (suffix_unopened inner behind far).sublist

end Parse

namespace Program

variable {lexemes : List Lexeme}

/-- From the depth on that lexemes are read with, the descent ends as reading does. -/
theorem parse?_eq_some {bound : Nat} (whole : Parse.Ended last lexemes)
    (enough : parseDepth lexemes.length ≤ bound) : parse? bound lexemes = some (parse lexemes) := by
  have deep := parseDepth_deep lexemes.length
  obtain ⟨extra, deeper⟩ := Nat.exists_eq_add_of_le' enough
  obtain ⟨spare, longer⟩ : ∃ spare, bound = spare + lexemes.length :=
    Nat.exists_eq_add_of_le' (by omega)
  obtain ⟨same, -⟩ := Parse.topLevel_agrees extra spare ⟨lexemes, 2⟩ whole (Nat.le_refl _) deep
  rw [← deeper, ← longer] at same
  obtain ⟨first, rest, rfl⟩ := whole.exists_cons
  rw [parse?]
  simp only [List.head?_cons, Option.bind_eq_bind, Option.bind_some, same, Option.pure_def]
  rfl

/-- There is a mistake if there is no program, and mistakes are about different lexemes, in order. -/
theorem parse_blames {mistakes : List Diagnostic} (whole : Parse.Ended last lexemes)
    (failed : parse lexemes = .error mistakes) :
    mistakes ≠ [] ∧
      ∃ blamed : List Lexeme, blamed.Sublist lexemes ∧ List.Forall₂ Blames blamed mistakes := by
  have deep := parseDepth_deep lexemes.length
  obtain ⟨-, blamed, among, blames⟩ :=
    Parse.topLevel_agrees 0 0 ⟨lexemes, 2⟩ whole (Nat.le_refl _) deep
  unfold parse at failed
  by_cases fine : (Parse.topLevel (parseDepth lexemes.length) lexemes.length ⟨lexemes, 2⟩).2.isEmpty
  · simp only [fine, if_true, reduceCtorEq] at failed
  · simp only [fine, Bool.false_eq_true, if_false, Except.error.injEq] at failed
    subst failed
    have inside := among.trans (Parse.unopened_suffix lexemes).sublist
    exact ⟨by simpa using fine, blamed, inside, blames⟩

end Program

/-- **Reading ends.** Whatever the lexemes are, up to the end of the text and no further, reading them is
never cut short: from the depth on that they are read with, the descent comes to the same end with any
bound, without a look behind the last lexeme. Where that end is not a program, there are mistakes, and
they are about different lexemes, in their order. -/
theorem Program.parse_ends {front : List Lexeme} (ended : last.token = .eof)
    (only : ∀ lexeme ∈ front, lexeme.token ≠ .eof) :
    (∀ bound, parseDepth (front ++ [last]).length ≤ bound →
        Program.parse? bound (front ++ [last]) = some (Program.parse (front ++ [last]))) ∧
      ∀ mistakes, Program.parse (front ++ [last]) = .error mistakes → mistakes ≠ [] ∧
        ∃ indices : List (Fin (front ++ [last]).length), indices.Pairwise (· < ·) ∧
          List.Forall₂ (fun index mistake => Blames (front ++ [last])[index] mistake)
            indices mistakes := by
  have whole := Parse.Ended.append ended only
  refine ⟨fun bound enough => Program.parse?_eq_some whole enough, fun mistakes failed => ?_⟩
  obtain ⟨some, blamed, among, blames⟩ := Program.parse_blames whole failed
  obtain ⟨indices, rfl, increasing⟩ := List.sublist_eq_map_getElem among
  exact ⟨some, indices, increasing, List.forall₂_map_left_iff.mp blames⟩

/-- A value is missing before `if`, a condition behind it and a name behind `final`. -/
def spoiledLexemes : List Lexeme :=
  [.name "x", .mark .assign, .keyword .if_, .mark .rightParen, .mark .colon, .keyword .final,
    .keyword .end_].mapIdx fun column token => ⟨token, ⟨1, column + 1⟩⟩

/-- The mistakes in these lexemes. -/
def spoiledMistakes : List Diagnostic :=
  [⟨.expectedExpr (.keyword .if_), ⟨1, 3⟩⟩, ⟨.expectedExpr (.mark .rightParen), ⟨1, 4⟩⟩,
    ⟨.expectedName (.keyword .end_), ⟨1, 7⟩⟩]

theorem Program.parse_ends_spoiled :
    let lexemes := spoiledLexemes ++ [⟨.eof, ⟨2, 1⟩⟩]
    (∀ bound, 144 ≤ bound → Program.parse? bound lexemes = some (.error spoiledMistakes)) ∧
      ∃ indices : List (Fin lexemes.length), indices.Pairwise (· < ·) ∧
        List.Forall₂ (fun index mistake => Blames lexemes[index] mistake)
          indices spoiledMistakes := by
  have ended : (Lexeme.mk .eof ⟨2, 1⟩).token = .eof := rfl
  have only : ∀ lexeme ∈ spoiledLexemes, lexeme.token ≠ .eof := by decide
  have failed : Program.parse (spoiledLexemes ++ [⟨.eof, ⟨2, 1⟩⟩]) = .error spoiledMistakes := rfl
  obtain ⟨same, ordered⟩ := Program.parse_ends ended only
  exact ⟨fun bound enough => failed ▸ same bound enough, (ordered spoiledMistakes failed).2⟩

end ScopedScript
