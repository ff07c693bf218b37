/-
**Settling does not depend on the order of registration.**

The agenda, the lists of waiting rules and the counts of missing inputs all depend on the order in which
rules are registered. What settling comes to does not, as long as no attribute is written twice:

* `RuleSet.Entry.writes?`: the attribute that a registration writes;
* `Rule.verdict`: what is reported on a rule, by the table that settling ends with;
* `RuleSet.errors_perm`: the report has the verdicts on all rules, in some order;
* `RuleSet.final_eq`: in any order, every attribute is settled with the same;
* `RuleSet.solve_perm`: **registrations in any order have the same solution and the same problems.**
-/

import Mathlib.Data.List.Pairwise
import Mathlib.Data.List.Perm.Basic
import ScopedScript.Proofs.LeastSolution

namespace ScopedScript

/-! ### The report as a bag of verdicts -/

/-- What is reported on a rule, where the table says which of its inputs are settled in the end. -/
def Rule.verdict {ε : Type} (rule : Rule ε) (slots : AttributeTable Slot) (report : Position → ε) :
    Option ε :=
  if rule.unsettled slots = 0 then rule.complaint slots else some (report rule.position)

namespace RuleSet

variable {ε : Type} (set : RuleSet ε) (report : Position → ε)

/-- The rules that fire are those without an open input. -/
theorem mem_firings_iff_unsettled {entry : Rule ε × Nat} (listed : entry ∈ set.rules.toList.zipIdx) :
    entry.2 ∈ set.firings ↔ entry.1.unsettled set.final.slots = 0 := by
  have found : set.rules[entry.2]? = some entry.1 :=
    Array.getElem?_toList.symm.trans (List.mk_mem_zipIdx_iff_getElem?.mp listed)
  rw [set.mem_firings found, Solver.unsettled_eq_zero]
  exact forall₂_congr fun dep _ => (set.settled_iff_derives dep).symm

/-- The rules that fire are each of the rules without an open input, in some order. -/
theorem firings_perm : set.firings.Perm
    ((set.rules.toList.zipIdx.filter fun entry => entry.2 ∈ set.firings).map Prod.snd) := by
  have numbers : (set.rules.toList.zipIdx.map Prod.snd).Nodup := by
    rw [List.zipIdx_map_snd]
    exact List.nodup_range'
  refine (List.perm_ext_iff_of_nodup set.nodup_firings
    ((List.filter_sublist.map Prod.snd).nodup numbers)).mpr fun index => ?_
  constructor
  · intro fires
    obtain ⟨reached, -, all⟩ := set.final_reached
    obtain ⟨rule, found⟩ := reached.known (all ▸ fires)
    refine List.mem_map.mpr ⟨(rule, index), List.mem_filter.mpr ⟨?_, decide_eq_true fires⟩, rfl⟩
    exact List.mk_mem_zipIdx_iff_getElem?.mpr (Array.getElem?_toList.trans found)
  · rintro listed
    obtain ⟨entry, member, rfl⟩ := List.mem_map.mp listed
    exact of_decide_eq_true (List.mem_filter.mp member).2

/-- **The report has the verdicts on all rules**, in some order. -/
theorem errors_perm : (set.solve report).errors.Perm
    (set.rules.toList.filterMap fun rule => rule.verdict set.final.slots report) := by
  have split := (List.filter_append_perm (fun entry => entry.2 ∈ set.firings)
    set.rules.toList.zipIdx).filterMap fun entry => entry.1.verdict set.final.slots report
  have whole : (set.rules.toList.zipIdx.filterMap
      fun entry => entry.1.verdict set.final.slots report) =
        set.rules.toList.filterMap fun rule => rule.verdict set.final.slots report := by
    conv_rhs => rw [← List.zipIdx_map_fst 0 set.rules.toList, List.filterMap_map]
    rfl
  rw [List.filterMap_append, whole] at split
  refine .trans ?_ split
  rw [errors_solve]
  refine List.Perm.append ?_ (.of_eq ?_)
  · -- the complaints of the rules that fire, put in the order of registration
    refine (set.firings_perm.filterMap _).trans (.of_eq ?_)
    rw [List.filterMap_map]
    refine List.filterMap_congr fun entry member => ?_
    obtain ⟨listed, fires⟩ := List.mem_filter.mp member
    have found := List.mk_mem_zipIdx_iff_getElem?.mp listed
    have fired := (set.mem_firings_iff_unsettled listed).mp (of_decide_eq_true fires)
    rw [Function.comp_apply, ← Array.getElem?_toList, found, Option.bind_some, Rule.verdict,
      if_pos fired]
  · unfold idle
    rw [List.map_filterMap, List.filterMap_filter]
    refine List.filterMap_congr fun entry listed => ?_
    by_cases fires : entry.2 ∈ set.firings
    · simp [fires]
    · have waits : ¬ entry.1.unsettled set.final.slots = 0 :=
        fires ∘ (set.mem_firings_iff_unsettled listed).mpr
      simp only [fires, Rule.verdict, if_neg waits, decide_false, Bool.not_false, if_true, if_false,
        Option.map_some]

end RuleSet

/-! ### One writer for each attribute -/

namespace RuleSet

variable {ε : Type}

/-- The attribute that a registration writes. -/
def Entry.writes? : Entry ε → Option Attribute
  | .set key _ | .fail key => some key
  | .rule added => added.output
  | .check .. => none

variable {entries shuffled : List (Entry ε)} {key : Attribute}

theorem Entry.writes?_of_settles? {entry : Entry ε} {slot : Slot}
    (settles : entry.settles? key = some slot) : entry.writes? = some key := by
  cases entry with
  | set other ty | fail other =>
    by_cases same : other = key
    · rw [Entry.writes?, same]
    · simp [Entry.settles?, same] at settles
  | rule | check => cases settles

theorem Entry.writes?_of_rule? {entry : Entry ε} {rule : Rule ε} (adds : entry.rule? = some rule) :
    entry.writes? = rule.output := by
  cases entry with
  | set | fail => cases adds
  | rule | check =>
    cases adds
    rfl

/-- Two items with the same image are one, where no image comes twice. -/
theorem eq_of_nodup_filterMap {α β : Type} {image : α → Option β} {items : List α}
    (once : (items.filterMap image).Nodup) {one two : α} {key : β} (first : one ∈ items)
    (second : two ∈ items) (writes : image one = some key) (writes' : image two = some key) :
    one = two := by
  by_contra different
  have symmetric : Std.Symm fun one two : α =>
      ∀ key, image one = some key → ∀ key', image two = some key' → key ≠ key' :=
    ⟨fun _ _ differ key writes key' writes' => (differ key' writes' key writes).symm⟩
  exact (List.pairwise_filterMap.mp once).forall first second different key writes key writes' rfl

section

variable (once : (entries.filterMap Entry.writes?).Nodup)

include once

/-- Two rules that write the same attribute are one. -/
theorem rule_unique {one two : Rule ε}
    (first : one ∈ entries.filterMap Entry.rule?) (second : two ∈ entries.filterMap Entry.rule?)
    (writes : one.output = some key) (writes' : two.output = some key) : one = two := by
  obtain ⟨entry, member, adds⟩ := List.mem_filterMap.mp first
  obtain ⟨entry', member', adds'⟩ := List.mem_filterMap.mp second
  have same := eq_of_nodup_filterMap once member member' ((Entry.writes?_of_rule? adds).trans writes)
    ((Entry.writes?_of_rule? adds').trans writes')
  rw [same, adds'] at adds
  exact (Option.some.inj adds).symm

/-- What an attribute is settled with is registered, or it is what its one rule makes of the inputs. -/
theorem source_of_rule {rule : Rule ε}
    {slot : Slot} (member : rule ∈ (RuleSet.of entries).rules.toList)
    (output : rule.output = some key)
    (found : (RuleSet.of entries).final.slots.get? key = some slot) :
    (RuleSet.of entries).slots.get? key = some slot ∨
      rule.outcome (RuleSet.of entries).final.slots = slot := by
  rcases sourced_final _ found with given | ⟨index, -, other, listed, writes, result⟩
  · exact .inl given
  · have listed := Array.mem_toList_iff.mpr (Array.mem_of_getElem? listed)
    rw [(of_eq entries).2] at member listed
    rw [rule_unique once member listed output writes]
    exact .inr result

variable (shuffle : entries.Perm shuffled)

include shuffle

/-- With one writer, what an attribute is registered with does not depend on the order. -/
theorem findSome?_perm :
    entries.findSome? (Entry.settles? key) = shuffled.findSome? (Entry.settles? key) := by
  cases found : shuffled.findSome? (Entry.settles? key) with
  | none =>
    rw [List.findSome?_eq_none_iff] at found ⊢
    exact fun entry member => found entry (shuffle.mem_iff.mp member)
  | some slot =>
    obtain ⟨entry, member, settles⟩ := List.exists_of_findSome?_eq_some found
    cases found' : entries.findSome? (Entry.settles? key) with
    | none =>
      rw [List.findSome?_eq_none_iff] at found'
      rw [found' entry (shuffle.mem_iff.mpr member)] at settles
      cases settles
    | some slot' =>
      obtain ⟨entry', member', settles'⟩ := List.exists_of_findSome?_eq_some found'
      have same := eq_of_nodup_filterMap once member' (shuffle.mem_iff.mpr member)
        (Entry.writes?_of_settles? settles') (Entry.writes?_of_settles? settles)
      rw [← settles', same, settles]

/-! ### Registrations in another order -/

theorem slots_of_perm (key : Attribute) :
    (RuleSet.of entries).slots.get? key = (RuleSet.of shuffled).slots.get? key := by
  rw [(of_eq entries).1, (of_eq shuffled).1]
  exact findSome?_perm once shuffle

omit once in
theorem rules_of_perm :
    (RuleSet.of entries).rules.toList.Perm (RuleSet.of shuffled).rules.toList := by
  rw [(of_eq entries).2, (of_eq shuffled).2]
  exact shuffle.filterMap _

theorem derives_of_perm (derives : (RuleSet.of entries).Derives key) :
    (RuleSet.of shuffled).Derives key := by
  induction derives with
  | given settled =>
    rw [AttributeTable.contains_eq, slots_of_perm once shuffle, ← AttributeTable.contains_eq]
      at settled
    exact .given settled
  | rule member output _ inputs =>
    exact .rule ((rules_of_perm shuffle).mem_iff.mp member) output inputs

theorem derives_perm :
    (RuleSet.of entries).Derives key ↔ (RuleSet.of shuffled).Derives key :=
  ⟨derives_of_perm once shuffle,
    derives_of_perm ((shuffle.filterMap _).nodup_iff.mp once) shuffle.symm⟩

/-- **In any order, every attribute is settled with the same.** -/
theorem final_eq (key : Attribute) :
    (RuleSet.of entries).final.slots.get? key = (RuleSet.of shuffled).final.slots.get? key := by
  have once' := (shuffle.filterMap _).nodup_iff.mp once
  by_cases derives : (RuleSet.of entries).Derives key
  · -- along the derivation: the inputs of the one rule that writes it are settled with the same
    induction derives with
    | given settled =>
      rename_i key
      obtain ⟨slot, found⟩ := AttributeTable.contains_iff.mp settled
      rw [kept_final _ found, kept_final _ ((slots_of_perm once shuffle key) ▸ found)]
    | rule member output inputs same =>
      rename_i key rule
      have here : (RuleSet.of entries).Derives key := .rule member output inputs
      have there := (derives_perm once shuffle).mp here
      rw [← settled_iff_derives, AttributeTable.contains_iff] at here there
      obtain ⟨slot, found⟩ := here
      obtain ⟨slot', found'⟩ := there
      rw [found]
      have member' := (rules_of_perm shuffle).mem_iff.mp member
      rcases source_of_rule once member output found with given | result
      · exact (kept_final _ (slots_of_perm once shuffle key ▸ given)).symm
      rcases source_of_rule once' member' output found' with given | result'
      · rw [← slots_of_perm once shuffle] at given
        rw [found', ← found, kept_final _ given]
      · rw [found', ← result, ← result', (Solver.outcome_congr same).1]
  · have open_ := derives
    rw [derives_perm once shuffle] at open_
    rw [← settled_iff_derives, AttributeTable.contains_eq, Option.not_isSome_iff_eq_none]
      at derives open_
    rw [derives, open_]

end

/-- **Registrations in any order have the same solution and the same problems**, where each attribute
is written by at most one of them. -/
theorem solve_perm (report : Position → ε) (once : (entries.filterMap Entry.writes?).Nodup)
    (shuffle : entries.Perm shuffled) :
    let solution := (RuleSet.of entries).solve report
    let solution' := (RuleSet.of shuffled).solve report
    (∀ key, solution.slots.get? key = solution'.slots.get? key) ∧
    (∀ key, solution.get? key = solution'.get? key) ∧
    solution.errors.Perm solution'.errors := by
  intro solution solution'
  have slots : ∀ key, solution.slots.get? key = solution'.slots.get? key :=
    final_eq once shuffle
  refine ⟨slots, fun key => ?_, ?_⟩
  · unfold Solution.get?
    rw [slots key]
  · have verdicts : (fun rule : Rule ε => rule.verdict solution.slots report) =
        fun rule => rule.verdict solution'.slots report := by
      funext rule
      unfold Rule.verdict Rule.unsettled
      simp only [AttributeTable.contains_eq, slots, (Solver.outcome_congr fun dep _ => slots dep).2]
    have one := errors_perm (RuleSet.of entries) report
    have two := errors_perm (RuleSet.of shuffled) report
    rw [show (fun rule : Rule ε => rule.verdict (RuleSet.of entries).final.slots report) = _
      from verdicts] at one
    exact one.trans (((rules_of_perm shuffle).filterMap _).trans two.symm)

/-- A rule that reads what is set later, a rule that fails, one that reads what failed, a check that
fails and two rules that wait for each other. -/
def scattered : List (Entry Nat) :=
  [.rule ⟨[.node 2], some (.node 3), ⟨1, 1⟩, fun types => .ok (types.headD .unknown)⟩,
    .rule ⟨[.node 1, .node 3], some (.node 4), ⟨2, 1⟩, fun _ => .error 70⟩,
    .rule ⟨[.node 1], some (.node 2), ⟨3, 1⟩, fun types => .ok (types.headD .unknown)⟩,
    .check [.node 4] ⟨4, 1⟩ fun _ => .error 80,
    .check [.node 2] ⟨5, 1⟩ fun _ => .error 90,
    .rule ⟨[.decl 1], some (.decl 0), ⟨6, 1⟩, fun _ => .ok .int⟩,
    .rule ⟨[.decl 0], some (.decl 1), ⟨7, 1⟩, fun _ => .ok .int⟩,
    .set (.node 1) .string]

/-- Backwards, the two complaints and the two rules that wait are reported the other way round. -/
theorem solve_perm_backwards :
    (scattered.filterMap Entry.writes?).Nodup ∧
    ((RuleSet.of scattered).solve (·.line)).errors = [90, 70, 6, 7] ∧
    ((RuleSet.of scattered.reverse).solve (·.line)).errors = [90, 70, 7, 6] ∧
    ((RuleSet.of scattered).solve (·.line)).get? (.node 3) =
      ((RuleSet.of scattered.reverse).solve (·.line)).get? (.node 3) ∧
    ((RuleSet.of scattered).solve (·.line)).errors.Perm
      ((RuleSet.of scattered.reverse).solve (·.line)).errors := by
  have once : (scattered.filterMap Entry.writes?).Nodup := by decide
  obtain ⟨-, same, problems⟩ := solve_perm (·.line) once scattered.reverse_perm.symm
  exact ⟨once, by decide +kernel, by decide +kernel, same (.node 3), problems⟩

end RuleSet

end ScopedScript
