/-
**Walks outward.**

Scopes and frames are numbered things, each but the first inside another one. A walk outward from a
number is a list that begins with it and ends with a number that is inside nothing:

* `Ascent`: such a walk along links;
* `Ascent.unique`: there is at most one from a number;
* `Ascent.descending`: where things are inside older ones, its numbers descend, so that none occurs
  twice;
* `ScopeTree.ancestors_eq`, `Frames.chain_eq`: the bounded walks of scopes and frames are such walks.
-/

import Mathlib.Data.List.Pairwise
import ScopedScript.Frames

namespace ScopedScript

/-- What a number is inside of, if the number is known and inside anything. -/
abbrev Links := Nat → Option (Option Nat)

/-- A walk outward from a number, to a number that is inside nothing. -/
inductive Ascent (links : Links) : Nat → List Nat → Prop
  | last {number : Nat} : links number = some none → Ascent links number [number]
  | next {number parent : Nat} {rest : List Nat} :
    links number = some (some parent) → Ascent links parent rest →
      Ascent links number (number :: rest)

/-- Things are inside older things only. -/
def Links.Descend (links : Links) : Prop :=
  ∀ ⦃number parent⦄, links number = some (some parent) → parent < number

namespace Ascent

variable {links others : Links} {number : Nat} {walk : List Nat}

section

variable (ascent : Ascent links number walk)

include ascent

theorem cons_eq : ∃ rest, walk = number :: rest := by
  cases ascent with
  | last => exact ⟨[], rfl⟩
  | next => exact ⟨_, rfl⟩

theorem unique {walk' : List Nat}
    (ascent' : Ascent links number walk') : walk = walk' := by
  induction ascent generalizing walk' with
  | last top =>
    cases ascent' with
    | last => rfl
    | next up => rw [top] at up; cases up
  | next up _ ih =>
    cases ascent' with
    | last top => rw [top] at up; cases up
    | next up' further =>
      rw [up] at up'
      cases up'
      rw [ih further]

/-- Only the links of the numbers on a walk matter. -/
theorem congr
    (same : ∀ inside ∈ walk, others inside = links inside) : Ascent others number walk := by
  induction ascent with
  | last top => exact .last (by rw [same _ List.mem_cons_self, top])
  | next up _ ih =>
    refine .next (by rw [same _ List.mem_cons_self, up]) (ih fun inside member => ?_)
    exact same inside (List.mem_cons_of_mem _ member)

omit ascent in
/-- From a number on a walk, the rest of the walk leads outward. -/
theorem suffix {before rest : List Nat} {inside : Nat}
    (ascent : Ascent links number (before ++ inside :: rest)) :
    Ascent links inside (inside :: rest) := by
  induction before generalizing number with
  | nil =>
    obtain ⟨_, same⟩ := ascent.cons_eq
    obtain ⟨rfl, -⟩ := List.cons.inj same
    exact ascent
  | cons first before ih =>
    rw [List.cons_append] at ascent
    generalize further : before ++ inside :: rest = walk at ascent
    cases ascent with
    | last => cases before <;> cases further
    | next _ ascent =>
      subst further
      exact ih ascent

theorem known {inside : Nat} (member : inside ∈ walk) :
    (links inside).isSome := by
  obtain ⟨before, rest, rfl⟩ := List.append_of_mem member
  cases ascent.suffix with
  | last top => rw [top]; rfl
  | next up => rw [up]; rfl

theorem le (descend : links.Descend) :
    ∀ inside ∈ walk, inside ≤ number := by
  induction ascent with
  | last => simp
  | next up _ ih =>
    intro inside member
    have below := descend up
    rcases List.mem_cons.mp member with rfl | member
    · exact Nat.le_refl _
    · have := ih inside member
      omega

theorem descending (descend : links.Descend) :
    walk.Pairwise (· > ·) := by
  induction ascent with
  | last => exact List.pairwise_singleton _ _
  | next up further ih =>
    refine List.pairwise_cons.mpr ⟨fun inside member => ?_, ih⟩
    have := further.le descend inside member
    have := descend up
    omega

theorem nodup (descend : links.Descend) : walk.Nodup :=
  (ascent.descending descend).imp fun greater => Nat.ne_of_gt greater

end

/-- What goes from number to number along the links, and is not cut short, is the walk. -/
theorem climb_eq {climb : Nat → Nat → List Nat} {bound : Nat} (ascent : Ascent links number walk)
    (descend : links.Descend) (climbs : ∀ bound ⦃number around⦄, links number = some around →
      climb (bound + 1) number = number :: (around.map (climb bound)).getD [])
    (enough : number < bound) : climb bound number = walk := by
  induction ascent generalizing bound with
  | last top =>
    obtain ⟨bound, rfl⟩ := Nat.exists_eq_succ_of_ne_zero (Nat.ne_zero_of_lt enough)
    exact climbs bound top
  | next up _ ih =>
    obtain ⟨bound, rfl⟩ := Nat.exists_eq_succ_of_ne_zero (Nat.ne_zero_of_lt enough)
    rw [climbs bound up, Option.map_some, Option.getD_some,
      ih (Nat.lt_of_lt_of_le (descend up) (Nat.le_of_lt_succ enough))]

/-- There is a walk from every known number, where what a thing is inside of is known. -/
theorem «exists» (descend : links.Descend)
    (closed : ∀ ⦃number parent⦄, links number = some (some parent) → (links parent).isSome)
    (known : (links number).isSome) : ∃ walk, Ascent links number walk := by
  induction number using Nat.strongRecOn with
  | ind number ih =>
    obtain ⟨around, found⟩ := Option.isSome_iff_exists.mp known
    cases around with
    | none => exact ⟨_, .last found⟩
    | some parent =>
      obtain ⟨walk, further⟩ := ih parent (descend found) (closed found)
      exact ⟨_, .next found further⟩

end Ascent

/-! ### Scopes -/

namespace ScopeTree

variable {tree : ScopeTree} {scope : ScopeId} {walk : List ScopeId}

/-- What a scope is inside of. -/
def links (tree : ScopeTree) : Links := fun scope => tree.scopes[scope]?.map Scope.parent

theorem ancestors_eq (ascent : Ascent tree.links scope walk) (descend : tree.links.Descend) :
    tree.ancestors scope = walk := by
  refine ascent.climb_eq descend (fun bound scope around link => ?_) (Nat.lt_succ_self scope)
  obtain ⟨entry, found, rfl⟩ := Option.map_eq_some_iff.mp link
  simp only [climb, found]
  cases entry.parent <;> rfl

end ScopeTree

/-! ### Frames -/

namespace Frames

variable {frames : Frames} {number : Nat} {walk : List Nat}

/-- What a frame is inside of. -/
def links (frames : Frames) : Links := fun number => frames.table[number]?.map Frame.parent

theorem chain_eq (ascent : Ascent frames.links number walk) (descend : frames.links.Descend) :
    frames.chain number = walk := by
  refine ascent.climb_eq descend (fun bound number around link => ?_) (Nat.lt_succ_self number)
  obtain ⟨frame, found, rfl⟩ := Option.map_eq_some_iff.mp link
  simp only [climb, found]
  cases frame.parent <;> rfl

/-- The nearest frame of a scope is the first of that scope on the walk outward. -/
theorem frameFor_eq (ascent : Ascent frames.links number walk) (descend : frames.links.Descend)
    (scope : ScopeId) :
    frames.frameFor number scope = walk.find? fun index => frames.scope index = scope := by
  rw [frameFor, search_eq_find?, ← chain, chain_eq ascent descend]

end Frames

end ScopedScript
