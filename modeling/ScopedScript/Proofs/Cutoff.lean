/-
**Runs with limited output.**

A run whose output has a limit goes side by side with the run without one until a text does not fit.
There it fails, and nothing is printed after a failure:

* `Output.writeAll_eq`: a text may go to the output in any pieces;
* `Code.run_cut`: **a run under a limit** against the same run without one;
* `Script.output_cut`: a limit on the output cuts a run at exactly that byte.
-/

import ScopedScript.Proofs.Emission

namespace ScopedScript

/-! ### Bytes that fit -/

theorem extract_of_size_le {bytes : ByteArray} {limit : Nat} (fits : bytes.size ≤ limit) :
    bytes.extract 0 limit = bytes := by
  apply ByteArray.ext
  rw [ByteArray.data_extract]
  exact Array.extract_eq_self_of_le fits

theorem extract_append_of_size_le {bytes : ByteArray} {limit : Nat} (room : bytes.size ≤ limit)
    (more : ByteArray) :
    (bytes ++ more).extract 0 limit = bytes ++ more.extract 0 (limit - bytes.size) := by
  rw [ByteArray.extract_append, extract_of_size_le room, Nat.zero_sub]

theorem extract_append_of_le_size {bytes : ByteArray} {limit : Nat} (full : limit ≤ bytes.size)
    (more : ByteArray) : (bytes ++ more).extract 0 limit = bytes.extract 0 limit := by
  rw [ByteArray.extract_append, Nat.sub_eq_zero_of_le full, Nat.zero_sub, ByteArray.extract_same,
    ByteArray.append_empty]

namespace Output

variable {output : Output} {limit : Nat}

/-- The same bytes under a limit. -/
def limited (output : Output) (limit : Nat) : Output := { output with limit := some limit }

theorem write_unlimited (free : output.limit = none) (text : String) :
    output.write text = (true, { output with bytes := output.bytes ++ text.toUTF8 }) := by
  simp only [write, fitting, free, beq_self_eq_true]

theorem write_fitting {text : String}
    (fits : (output.bytes ++ text.toUTF8).size ≤ limit) :
    (output.limited limit).write text =
      (true, ({ output with bytes := output.bytes ++ text.toUTF8 } : Output).limited limit) := by
  rw [ByteArray.size_append] at fits
  have whole : text.toUTF8.extract 0 (limit - output.bytes.size) = text.toUTF8 :=
    extract_of_size_le (by omega)
  simp only [write, fitting, limited, whole, beq_self_eq_true]

theorem write_overflowing {text : String} (room : output.bytes.size ≤ limit)
    (exceeds : limit < (output.bytes ++ text.toUTF8).size) :
    (output.limited limit).write text =
      (false, ({ output with bytes := (output.bytes ++ text.toUTF8).extract 0 limit } :
        Output).limited limit) := by
  have part : (text.toUTF8.extract 0 (limit - output.bytes.size)).size ≠ text.toUTF8.size := by
    rw [ByteArray.size_append] at exceeds
    rw [ByteArray.size_extract]
    omega
  simp only [write, fitting, limited, extract_append_of_size_le room, beq_eq_false_iff_ne.mpr part]

/-- Prints pieces in a row, up to the first one that does not fit as a whole. -/
def writeAll (output : Output) : List String → Bool × Output
  | [] => (true, output)
  | piece :: rest =>
    let (complete, output) := output.write piece
    if complete then output.writeAll rest else (false, output)

theorem write_empty (output : Output) : output.write "" = (true, output) := by
  have nothing : output.fitting ("".toUTF8) = .empty := by
    unfold fitting
    split
    · rfl
    · exact extract_of_size_le (Nat.zero_le _)
  simp only [write, nothing, ByteArray.append_empty]
  rfl

/-- A text goes on behind its first part only if that fits. -/
theorem write_append (output : Output) (first second : String) : output.write (first ++ second) =
    if (output.write first).1 then (output.write first).2.write second
    else (false, (output.write first).2) := by
  have joined : (first ++ second).toUTF8 = first.toUTF8 ++ second.toUTF8 := ByteArray.ext rfl
  obtain ⟨bytes, limit⟩ := output
  cases limit with
  | none => simp only [write, fitting, joined, beq_self_eq_true, if_true, ByteArray.append_assoc]
  | some limit =>
    simp only [write, fitting, joined, ByteArray.extract_append, Nat.zero_sub]
    by_cases fits : first.toUTF8.size ≤ limit - bytes.size
    · simp only [extract_of_size_le fits, ByteArray.size_append, Nat.sub_sub, beq_self_eq_true, if_true,
        ByteArray.append_assoc, Prod.mk.injEq, and_true]
      rw [Bool.eq_iff_iff, beq_iff_eq, beq_iff_eq]
      omega
    · have part : (first.toUTF8.extract 0 (limit - bytes.size)).size < first.toUTF8.size := by
        rw [ByteArray.size_extract]
        omega
      have full : limit - bytes.size - first.toUTF8.size = 0 := by omega
      have nothing : second.toUTF8.extract 0 0 = .empty := by
        apply ByteArray.ext
        rw [ByteArray.data_extract]
        exact Array.extract_zero
      have short := beq_eq_false_iff_ne.mpr (Nat.ne_of_lt part)
      have shorter := beq_eq_false_iff_ne.mpr
        (Nat.ne_of_lt (Nat.lt_add_right second.toUTF8.size part))
      simp only [full, nothing, ByteArray.append_empty, ByteArray.size_append, short, shorter,
        Bool.false_eq_true, if_false]

theorem writeAll_eq (output : Output) (pieces : List String) :
    output.writeAll pieces = output.write (String.join pieces) := by
  induction pieces generalizing output with
  | nil => exact output.write_empty.symm
  | cons piece rest ih =>
    rw [String.join_cons, write_append, writeAll]
    simp only [ih]

end Output

/-! ### Runs under a limit -/

/-- A store with the same output under a limit. -/
def Store.limited (store : Store) (limit : Nat) : Store :=
  store.withOutput (store.world.output.limited limit)

/-- A configuration with the same output under a limit. -/
def Config.limited (config : Config) (limit : Nat) : Config :=
  config.withOutput (config.store.world.output.limited limit)

/-- What a step comes to, with the same output under a limit. -/
def Progress.limited (progress : Progress) (limit : Nat) : Progress :=
  progress.withOutput (progress.store.world.output.limited limit)

/-- How a run under a limit ends, against the end of the same run without one. -/
structure Cut (limit : Nat) (whole cut : Outcome × Store) : Prop where
  fits : whole.2.world.output.bytes.size ≤ limit → cut = (whole.1, whole.2.limited limit)
  overflows : limit < whole.2.world.output.bytes.size →
    (∃ line, cut.1 = .fault ⟨line, .file .outputLimit⟩) ∧
      cut.2.world.output.bytes = whole.2.world.output.bytes.extract 0 limit

namespace Code

variable {code : Code} {limit : Nat} {config : Config}

theorem tidied_limited (config : Config) :
    (config.limited limit).tidied = config.tidied.limited limit := by
  rw [Config.limited, Config.tidied_withOutput, ← output_tidied]
  rfl

/-- **One step under a limit** is the same step, or prints a text that does not fit. -/
theorem step_cut (free : config.store.world.output.limit = none)
    (room : config.store.world.output.bytes.size ≤ limit) :
    ((code.step config).store.world.output.bytes.size ≤ limit ∧
      code.step (config.limited limit) = (code.step config).limited limit) ∨
    ∃ line pending store cut, code.step config = .next (give .none pending store) ∧
      code.step (config.limited limit) = .next (fail line (.file .outputLimit) pending cut) ∧
      limit < store.world.output.bytes.size ∧
      cut.world.output.bytes = store.world.output.bytes.extract 0 limit := by
  rcases code.step_output config with quiet | ⟨text, line, given, pending, prints⟩
  · have kept : code.step config = (code.step config).withOutput config.store.world.output :=
      quiet config.store.world.output
    have output : (code.step config).store.world.output = config.store.world.output := by
      rw [kept]
      cases code.step config <;> rfl
    refine .inl ⟨output ▸ room, ?_⟩
    rw [Progress.limited, output]
    exact quiet (config.store.world.output.limited limit)
  · have whole : code.step config = .next (perform line (emit text) given pending config.store) :=
      prints config.store.world.output
    have cut : code.step (config.limited limit) = .next (perform line (emit text) given pending
        (config.store.limited limit)) := prints (config.store.world.output.limited limit)
    rw [perform_emit, Output.write_unlimited free] at whole
    rw [perform_emit] at cut
    by_cases fits : (config.store.world.output.bytes ++ text.toUTF8).size ≤ limit
    · rw [show (config.store.limited limit).world.output =
        config.store.world.output.limited limit from rfl, Output.write_fitting fits] at cut
      rw [whole, cut]
      exact .inl ⟨fits, rfl⟩
    · have exceeds := Nat.lt_of_not_le fits
      rw [show (config.store.limited limit).world.output =
        config.store.world.output.limited limit from rfl, Output.write_overflowing room exceeds] at cut
      exact .inr ⟨line, pending, _, _, whole, cut, exceeds, rfl⟩

/-- **A run under a limit** is the same run, cut where a text does not fit. -/
theorem run_cut {steps : Nat} (free : config.store.world.output.limit = none)
    (room : config.store.world.output.bytes.size ≤ limit)
    (ended : (code.run steps config).1 ≠ .unfinished) :
    Cut limit (code.run steps config) (code.run steps (config.limited limit)) := by
  induction steps generalizing config with
  | zero => exact absurd rfl ended
  | succ steps ih =>
    have grown := code.step_grows config
    rcases code.step_cut free room with ⟨fits, beside⟩ | ⟨line, pending, store, cut, whole, beside,
      exceeds, bytes⟩
    · cases step : code.step config with
      | next next =>
        rw [step] at fits grown beside
        rw [run_next step] at ended
        have output := output_tidied next
        have later := ih ((congrArg Output.limit output).trans (grown.limit.trans free))
          (output ▸ fits) ended
        rw [run_next step, run_next beside]
        exact tidied_limited next ▸ later
      | finished | failed =>
        rw [step] at fits beside
        rw [run, run, step, beside]
        exact ⟨fun _ => rfl, fun exceeds => absurd fits (Nat.not_le_of_lt exceeds)⟩
    · -- the rest of the run only adds to what was printed, and a failure prints nothing more
      rw [run_next whole] at ended ⊢
      rw [run_next beside]
      have few := pending_lt ended
      obtain ⟨more, adds⟩ := (code.run_grows steps (give .none pending store).tidied).bytes
      rw [Config.tidied_pending] at few
      rw [output_tidied] at adds
      change _ = store.world.output.bytes ++ more at adds
      obtain ⟨later, ends, output⟩ := code.run_unwind
        (Config.tidied_control (fail line (.file .outputLimit) pending cut))
        (Config.tidied_pending (fail line (.file .outputLimit) pending cut) ▸ few)
      rw [output_tidied] at output
      rw [ends]
      refine ⟨fun fits => ?_, fun _ => ⟨⟨line, rfl⟩, ?_⟩⟩
      · rw [adds, ByteArray.size_append] at fits
        exact absurd fits (by omega)
      · rw [adds, extract_append_of_le_size (Nat.le_of_lt exceeds), ← bytes]
        exact congrArg Output.bytes output

end Code

/-- A host with another limit on the output. -/
def Host.withLimit (host : Host) (limit : Option Nat) : Host := { host with limit }

namespace Script

variable {script : Script} {limit : Nat}

theorem closing_limited (result : Outcome × Store) : closing (result.1, result.2.limited limit) =
    ⟨(closing result).outcome,
      (closing result).world.withOutput (result.2.world.output.limited limit)⟩ := by
  obtain ⟨outcome, store⟩ := result
  cases outcome <;> exact congrArg (Ending.mk _) (World.release_withOutput store.world _ _ _)

/-- **A limit on the output cuts a run at exactly that byte.** If the output of a run that ends without a
limit fits, the run under the limit has the same end and the same world. Otherwise it fails because of
the limit, and its output is what fits of the other. In both cases it has ended after as many steps. A
text may go to the output in any pieces, and frames may give up their values in any order. -/
theorem output_cut (script : Script) (host : Host) (limit steps : Nat)
    (ended : (script.endingAfter steps (host.withLimit none)).outcome ≠ .unfinished) :
    let whole := script.endingAfter steps (host.withLimit none)
    let cut := script.endingAfter steps (host.withLimit (some limit))
    (whole.world.output.bytes.size ≤ limit → cut.outcome = whole.outcome ∧
      cut.world = whole.world.withOutput ⟨whole.world.output.bytes, some limit⟩) ∧
    (limit < whole.world.output.bytes.size →
      (∃ line, cut.outcome = .fault ⟨line, .file .outputLimit⟩) ∧
      cut.world.output.bytes = whole.world.output.bytes.extract 0 limit) ∧
    (∀ (output : Output) (pieces : List String),
      output.writeAll pieces = output.write (String.join pieces)) ∧
    ∀ host, script.runOn host = script.endingAfter stepBudget host := by
  intro whole cut
  have compared : Cut limit (script.code.run steps (script.start (host.withLimit none)))
      (script.code.run steps (script.start (host.withLimit (some limit)))) :=
    Code.run_cut rfl (Nat.zero_le limit) (closing_unfinished ended)
  have output : whole.world.output =
    (script.code.run steps (script.start (host.withLimit none))).2.world.output := closing_output _
  refine ⟨fun fits => ?_, fun exceeds => ?_, Output.writeAll_eq, fun _ => rfl⟩
  · have same : cut =
        ⟨whole.outcome, whole.world.withOutput ⟨whole.world.output.bytes, some limit⟩⟩ := by
      refine (congrArg closing (compared.fits (output ▸ fits))).trans ?_
      rw [closing_limited, ← output]
      rfl
    rw [same]
    exact ⟨rfl, rfl⟩
  · obtain ⟨⟨line, fails⟩, bytes⟩ := compared.overflows (output ▸ exceeds)
    refine ⟨⟨line, closing_fault fails⟩, ?_⟩
    rw [output, ← bytes]
    exact congrArg Output.bytes (closing_output _)

/-- Containers inside one another and inside themselves, printed from a function, a comprehension and a
loop. -/
def talkative : String :=
  "\n".intercalate ["a = [1, 2]", "m = \x7b\"k\": a\x7d", "a[0] = m", "def show(x):", "  println(x)",
    "  return 0", "end", "b = [show(y) for y in [a, m]]", "for i in range(2):", "  print(i)", "end", ""]

/-- Twelve bytes end inside the first container; a hundred are enough. -/
theorem output_cut_talkative : ∃ script, Script.compile talkative {} = .ok script ∧
    (script.endingAfter 300 .bare).world.output.bytes =
      "[\x7b\"k\": [...]\x7d, 2]\n\x7b\"k\": [\x7b...\x7d, 2]\x7d\n01".toUTF8 ∧
    (∃ line, (script.endingAfter 300 (Host.bare.withLimit (some 12))).outcome =
      .fault ⟨line, .file .outputLimit⟩) ∧
    (script.endingAfter 300 (Host.bare.withLimit (some 12))).world.output.bytes =
      "[\x7b\"k\": [...]".toUTF8 ∧
    (script.endingAfter 300 (Host.bare.withLimit (some 100))).outcome = .value .none := by
  refine exists_compiled (fun script =>
    (script.endingAfter 300 .bare).outcome = .value .none ∧
    (script.endingAfter 300 .bare).world.output.bytes =
      "[\x7b\"k\": [...]\x7d, 2]\n\x7b\"k\": [\x7b...\x7d, 2]\x7d\n01".toUTF8) (by decide +kernel)
    fun script compiled passes => ?_
  obtain ⟨outcome, bytes⟩ := of_decide_eq_true passes
  have ended : (script.endingAfter 300 .bare).outcome ≠ .unfinished := by
    rw [outcome]
    exact nofun
  obtain ⟨-, overflows, -⟩ := output_cut script .bare 12 300 ended
  obtain ⟨fits, -⟩ := output_cut script .bare 100 300 ended
  have unlimited : Host.bare.withLimit none = .bare := rfl
  rw [unlimited, bytes] at overflows fits
  obtain ⟨fails, cut⟩ := overflows (by decide +kernel)
  obtain ⟨same, -⟩ := fits (by decide +kernel)
  refine ⟨bytes, fails, cut.trans (by decide +kernel), same.trans outcome⟩

end Script

end ScopedScript
