/-
**What is read is a phrase of the grammar.**

A reading step that gives a result has passed a phrase of the grammar, and goes on at the lexeme behind
it. So a program that was read without a mistake is a derivation of all its lexemes: nothing is skipped,
used twice or left over.

* `Parse.topLevel_derives`: the statements of a program cover all lexemes before the end;
* `Program.parse_derives`: **the lexemes of a program that was read are a derivation of it.**
-/

import ScopedScript.Proofs.Descent
import ScopedScript.Proofs.Numbering

namespace ScopedScript

theorem Program.parseDepth_deep (count : Nat) : 16 * count + 10 ≤ parseDepth count := by
  rw [parseDepth]
  omega

namespace Parse

/-- Without a mistake, the statements of a program cover all lexemes before the end. Each statement
covers at least one, so their number is bound enough. -/
theorem topLevel_derives {last : Lexeme} {depth count : Nat} (cursor : Cursor)
    (ended : Ended last cursor.rest) (enough : cursor.rest.length ≤ count)
    (deep : 16 * cursor.rest.length + 10 ≤ depth) (fine : (topLevel depth count cursor).2 = []) :
    Grammar.Statements cursor.rest [last] (topLevel depth count cursor).1 := by
  induction count generalizing cursor with
  | zero =>
    rw [List.eq_nil_of_length_eq_zero (Nat.le_zero.mp enough)] at ended
    cases ended
  | succ count ih =>
    obtain ⟨input, id⟩ := cursor
    obtain ⟨first, rest, rfl⟩ := ended.exists_cons
    rw [topLevel] at fine ⊢
    by_cases finished : first.token = .eof
    · rw [if_pos (show (Cursor.mk (first :: rest) id).current.token = .eof from finished)]
      rw [ended.eq_last finished]
      exact .nil
    rw [if_neg (show ¬ (Cursor.mk (first :: rest) id).current.token = .eof from finished)] at fine ⊢
    change (first :: rest).length ≤ count + 1 at enough
    change 16 * (first :: rest).length + 10 ≤ depth at deep
    obtain ⟨-, ends⟩ := (stmtAgrees last 0 depth).stmt first rest deep ended id
    cases parsed : (stmt depth : Parse Stmt).run ⟨first :: rest, id⟩ with
    | error diagnostic next => simp [parsed] at fine
    | ok stmt next =>
      rw [show (Parse.stmt depth : Parse Stmt) ⟨first :: rest, id⟩ = .ok stmt next from parsed] at ends
      cases ends with
      | ok ended' _ shorter derived =>
        simp only [parsed] at fine ⊢
        rw [if_neg (Nat.ne_of_lt shorter)] at fine ⊢
        exact .cons derived (ih next ended' (by omega) (by omega) fine)

end Parse

/-- **The lexemes of a program that was read are a derivation of it**: of all lexemes up to the end, in
the grammar, with the place of each node that of the lexeme where it starts. -/
theorem Program.parse_derives {front : List Lexeme} {last : Lexeme} {program : Program}
    (ended : last.token = .eof) (only : ∀ lexeme ∈ front, lexeme.token ≠ .eof)
    (parsed : Program.parse (front ++ [last]) = .ok program) :
    Grammar.Body (front ++ [last]) [last] program.body := by
  have whole := Parse.Ended.append ended only
  generalize front ++ [last] = lexemes at whole parsed
  unfold Program.parse at parsed
  by_cases fine : (Parse.topLevel (parseDepth lexemes.length) lexemes.length ⟨lexemes, 2⟩).2 = []
  · have derived : Grammar.Statements lexemes [last] _ := Parse.topLevel_derives ⟨lexemes, 2⟩ whole
      (Nat.le_refl _) (parseDepth_deep lexemes.length) fine
    simp only [fine, List.isEmpty_nil, if_true, Except.ok.injEq] at parsed
    subst parsed
    obtain ⟨first, rest, rfl⟩ := whole.exists_cons
    exact .mk derived
  · simp [fine] at parsed

/-- A target in parentheses, commas that close lists, and a block with nothing in it. -/
def looseLexemes : List Lexeme :=
  [.mark .leftParen, .name "x", .mark .rightParen, .mark .assign,
    .name "f", .mark .leftParen, .mark .leftBracket, .int 1, .mark .comma, .mark .rightBracket,
    .mark .comma, .mark .leftBrace, .mark .rightBrace, .mark .comma, .mark .rightParen,
    .keyword .while_, .keyword .true_, .mark .colon, .keyword .end_].mapIdx
      fun column token => ⟨token, ⟨1, column + 1⟩⟩

theorem Program.parse_derives_loose : ∃ program,
    Program.parse (looseLexemes ++ [⟨.eof, ⟨2, 1⟩⟩]) = .ok program ∧
      Grammar.Body (looseLexemes ++ [⟨.eof, ⟨2, 1⟩⟩]) [⟨.eof, ⟨2, 1⟩⟩] program.body := by
  obtain ⟨program, parsed, -⟩ := @Program.exists_parsed (looseLexemes ++ [⟨.eof, ⟨2, 1⟩⟩])
    (fun _ => true) (by decide +kernel)
  exact ⟨program, parsed, Program.parse_derives rfl (by decide) parsed⟩

end ScopedScript
