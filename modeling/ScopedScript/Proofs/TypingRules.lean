/-
**What typing rules do with looser types.**

A type is looser than another one if it is the same, or none in particular. Where a rule accepts the types
of some parts, it accepts looser ones too, and where it does not, it reports a mismatch:

* `Ty.Looser`: the same type, or none in particular;
* `Typing.Relaxes`: what a rule makes of looser types, compared with what it made of the types;
* `Typing.Form`, `Typing.Form.relaxes`: **the computations that rules make, and that all of them relax.**
-/

import Mathlib.Data.List.Forall2
import ScopedScript.Typing.Rules

namespace ScopedScript

/-! ### Looser types -/

/-- The same type, or none in particular. -/
def Ty.Looser (ty old : Ty) : Prop := ty = old ∨ ty = .unknown

namespace Ty.Looser

variable {ty old : Ty}

theorem refl (ty : Ty) : ty.Looser ty := .inl rfl

theorem isKey (looser : ty.Looser old) (key : old.isKey = true) : ty.isKey = true := by
  rcases looser with rfl | rfl
  · exact key
  · rfl

theorem acceptedBy {allowed : List Ty} (looser : ty.Looser old)
    (accepted : old.acceptedBy allowed = true) : ty.acceptedBy allowed = true := by
  rcases looser with rfl | rfl
  · exact accepted
  · rfl

theorem assignableTo {target oldTarget : Ty} (looser : ty.Looser old)
    (looser' : target.Looser oldTarget) (fitting : old.assignableTo oldTarget = true) :
    ty.assignableTo target = true := by
  rcases looser with rfl | rfl
  · rcases looser' with rfl | rfl
    · exact fitting
    · simp [Ty.assignableTo]
  · rfl

end Ty.Looser

namespace Typing

variable {α : Type} {looser : α → α → Prop} {result : α}

/-- A rule accepts, with a looser result, what was accepted before, and what was not was a mismatch. -/
inductive Relaxes (looser : α → α → Prop) (new : Except Diagnostic α) : Except Diagnostic α → Prop
  | accepted {result result' : α} : new = .ok result' → looser result' result →
    Relaxes looser new (.ok result)
  | refused (cause : Mismatch) (position : Position) :
    Relaxes looser new (.error (.ofMismatch cause position))

namespace Relaxes

theorem plain (same : looser result result) : Relaxes looser (.ok result) (.ok result) :=
  .accepted rfl same

theorem test {weak strong : Prop} [Decidable weak] [Decidable strong] {error : Diagnostic}
    {cause : Mismatch} {position : Position} (same : looser result result) (weaker : strong → weak) :
    Relaxes looser (if weak then .ok result else .error error)
      (if strong then .ok result else .error (.ofMismatch cause position)) := by
  by_cases holds : strong
  · rw [if_pos holds, if_pos (weaker holds)]
    exact .plain same
  · rw [if_neg holds]
    exact .refused cause position

/-- What follows a test does not look at the types. -/
theorem andThen {test old : Except Diagnostic Unit} {next oldNext : Except Diagnostic α}
    (tests : Relaxes Eq test old) (rest : Relaxes looser next oldNext) :
    Relaxes looser (do test; next) (do old; oldNext) := by
  cases tests with
  | accepted done =>
    rw [done]
    exact rest
  | refused => exact .refused _ _

theorem fits {role : Role} {position : Position} {ty old : Ty} (looser : ty.Looser old) :
    Relaxes Eq (fits role position ty) (fits role position old) :=
  test rfl looser.acceptedBy

end Relaxes

theorem combines_looser {op : BinaryOp} {left right oldLeft oldRight : Ty}
    (first : left.Looser oldLeft) (second : right.Looser oldRight)
    (combined : combines op oldLeft oldRight = true) : combines op left right = true := by
  rcases first with rfl | rfl
  · rcases second with rfl | rfl
    · exact combined
    · unfold combines
      cases op.kind <;> simp
  · unfold combines
    cases op.kind <;> simp

/-- What is accepted as a base and an index. -/
def Indexes (base index : Ty) : Prop :=
  index ≠ .none ∧ (base = .unknown ∨ base = .map ∨ base = .array ∧ index.acceptedBy [.int] = true)

instance (base index : Ty) : Decidable (Indexes base index) :=
  inferInstanceAs (Decidable (_ ∧ _))

theorem index_eq (position : Position) (base index : Ty) :
    ∃ cause, Typing.index position base index =
      if Indexes base index then .ok .unknown else .error (.ofMismatch cause position) := by
  unfold Typing.index Indexes
  by_cases absent : index = .none
  · exact ⟨.noneIndex, by simp [absent]⟩
  · cases base with
    | array => exact ⟨.arrayIndex index, by simp [absent]⟩
    | unknown | map => exact ⟨.noneIndex, by simp [absent]⟩
    | _ => exact ⟨.notIndexable _, by simp [absent]; rfl⟩

theorem indexes_looser {base index oldBase oldIndex : Ty} (first : base.Looser oldBase)
    (second : index.Looser oldIndex) (indexes : Indexes oldBase oldIndex) : Indexes base index := by
  obtain ⟨present, indexable⟩ := indexes
  constructor
  · rcases second with rfl | rfl
    · exact present
    · exact nofun
  · rcases first with rfl | rfl
    · exact indexable.imp_right fun keyed => keyed.imp_right fun array =>
        ⟨array.1, second.acceptedBy array.2⟩
    · exact .inl rfl

/-! ### Rules on lists of types -/

/-- The computations that rules make. -/
inductive Form : (List Ty → Except Diagnostic Ty) → Prop
  | copy : Form (one .unknown .ok)
  | binary (op : BinaryOp) (position : Position) : Form (two .unknown (binary op position))
  | unary (op : UnaryOp) (position : Position) : Form (one .unknown (unary op position))
  | index (position : Position) : Form (two .unknown (index position))
  | array : Form fun _ => .ok .array
  | role (role : Role) (position : Position) (result : Ty) :
    Form fun types => do one () (fits role position) types; return result
  | store (position : Position) : Form fun types => do two () (store position) types; return .unknown
  | keys (positions : List Position) : Form (keys positions)
  | comprehension (source : Position) (filter : Option Position) : Form (comprehension source filter)
  | call (name : String) (signature : Signature) (positions : List Position) :
    Form (call name signature positions)

section Inputs

variable {loose types : List Ty} (related : List.Forall₂ Ty.Looser loose types)

include related

theorem relaxes_one {default : α} {rule : Ty → Except Diagnostic α} (same : looser default default)
    (step : ∀ {ty old : Ty}, ty.Looser old → Relaxes looser (rule ty) (rule old)) :
    Relaxes looser (one default rule loose) (one default rule types) := by
  cases related with
  | nil => exact .plain same
  | cons first rest =>
    cases rest with
    | nil => exact step first
    | cons => exact .plain same

theorem relaxes_two {default : α} {rule : Ty → Ty → Except Diagnostic α}
    (same : looser default default) (step : ∀ {ty old ty' old' : Ty}, ty.Looser old →
      ty'.Looser old' → Relaxes looser (rule ty ty') (rule old old')) :
    Relaxes looser (two default rule loose) (two default rule types) := by
  cases related with
  | nil => exact .plain same
  | cons first rest =>
    cases rest with
    | nil => exact .plain same
    | cons second rest =>
      cases rest with
      | nil => exact step first second
      | cons => exact .plain same

theorem keys_looser (positions : List Position)
    (none_bad : ((types.zip positions).find? fun entry => !entry.1.isKey) = none) :
    ((loose.zip positions).find? fun entry => !entry.1.isKey) = none := by
  induction related generalizing positions with
  | nil => exact none_bad
  | @cons ty old loose types first rest ih =>
    cases positions with
    | nil => rfl
    | cons position positions =>
      rw [List.zip_cons_cons, List.find?_cons] at none_bad ⊢
      cases key : old.isKey with
      | false => simp [key] at none_bad
      | true =>
        simp only [key, Bool.not_true] at none_bad
        simp only [first.isKey key, Bool.not_true]
        exact ih positions none_bad

theorem badArgument?_looser (params : List Param) (positions : List Position)
    (none_bad : badArgument? types params positions = none) :
    badArgument? loose params positions = none := by
  induction related generalizing params positions with
  | nil => rfl
  | @cons ty old loose types first rest ih =>
    cases params with
    | nil => rfl
    | cons param params =>
      cases positions with
      | nil => rfl
      | cons position positions =>
        unfold badArgument? at none_bad ⊢
        by_cases accepted : old.acceptedBy param.accepts = true
        · rw [if_pos accepted] at none_bad
          rw [if_pos (first.acceptedBy accepted)]
          exact ih params positions none_bad
        · rw [if_neg accepted] at none_bad
          cases none_bad

theorem relaxes_comprehension (source : Position) (filter : Option Position) :
    Relaxes Ty.Looser (comprehension source filter loose) (comprehension source filter types) := by
  have done : Relaxes Ty.Looser (.ok .array) (.ok .array) := .plain (.refl _)
  cases related with
  | nil => exact done
  | cons first rest =>
    cases rest with
    | nil =>
      cases filter with
      | none => exact (Relaxes.fits first).andThen done
      | some => exact done
    | cons second rest =>
      cases rest with
      | nil =>
        cases filter with
        | none => exact done
        | some => exact (Relaxes.fits first).andThen ((Relaxes.fits second).andThen done)
      | cons => exact done

/-- **A rule that accepts types accepts looser ones, and reports nothing but mismatches.** -/
theorem Form.relaxes {compute : List Ty → Except Diagnostic Ty} (form : Form compute) :
    Relaxes Ty.Looser (compute loose) (compute types) := by
  cases form with
  | copy => exact relaxes_one related (.refl _) fun looser => .accepted rfl looser
  | binary op position =>
    exact relaxes_two related (.refl _) fun first second => .test (.refl _) (combines_looser first second)
  | unary op position =>
    exact relaxes_one related (.refl _) fun looser => (Relaxes.fits looser).andThen (.plain (.refl _))
  | index position =>
    refine relaxes_two related (.refl _) fun {base oldBase index oldIndex} first second => ?_
    obtain ⟨cause, same⟩ := index_eq position base index
    obtain ⟨cause', same'⟩ := index_eq position oldBase oldIndex
    rw [same, same']
    exact .test (.refl _) (indexes_looser first second)
  | array => exact .plain (.refl _)
  | role role position result =>
    exact (relaxes_one related rfl Relaxes.fits).andThen (.plain (.refl _))
  | store position =>
    have stores : Relaxes Eq (two () (Typing.store position) loose)
        (two () (Typing.store position) types) :=
      relaxes_two related rfl fun first second => .test rfl (first.assignableTo second)
    exact stores.andThen (.plain (.refl _))
  | keys positions =>
    unfold Typing.keys
    cases bad : (types.zip positions).find? fun entry => !entry.1.isKey with
    | some entry => exact .refused _ _
    | none => exact .accepted (by rw [keys_looser related positions bad]) (.refl _)
  | comprehension source filter => exact relaxes_comprehension related source filter
  | call name signature positions =>
    unfold Typing.call
    cases bad : badArgument? types signature.params positions with
    | some entry => exact .refused _ _
    | none => exact .accepted (by rw [badArgument?_looser related _ _ bad]) (.refl _)

end Inputs

end Typing

end ScopedScript
