/-
**Keys in order, and sorted arrays.**

Keys have a strict order that is said here without comparing: numbers by size, texts by the first byte that
differs, `False` before `True`, and all ints before all texts before all truth values. `sort` takes an array
whose items are keys of one sort, and gives a new array of the same items in this order:

* `Text.Precedes`, `Key.Before`: the orders of texts and of keys;
* `Key.order_eq_lt_iff`: comparing keys goes by this order, which is total (`Key.before_laws`);
* `Sortable`, `sortValues_of_sortable`, `sortValues_error`: the arrays that `sort` takes;
* `sorted_pairwise`, `sorted_eq_of_perm`: the keys are in order, and there is one way to order them;
* `Builtin.sort_sorts`: **`sort` orders a copy of the array or refuses it.**
-/

import Mathlib.Data.List.Perm.Basic
import ScopedScript.Proofs.Bisimilarity
import ScopedScript.Proofs.Elements
import ScopedScript.Proofs.Outcome

namespace ScopedScript

variable {items : List Value} {world : World} {place : Nat}

/-! ### The order of keys -/

/-- One text comes before another: it is the beginning of it, or has the smaller byte where they first
differ. -/
def Text.Precedes (first second : String) : Prop :=
  List.Lex (fun one two : UInt8 => one.toNat < two.toNat) (bytes first) (bytes second)

/-- One key comes before another. -/
inductive Key.Before : Key → Key → Prop
  | int {first second : Int64} : first.toInt < second.toInt → Before (.int first) (.int second)
  | text {first second : String} : Text.Precedes first second → Before (.text first) (.text second)
  | bool : Before (.bool false) (.bool true)
  | intText (number : Int64) (text : String) : Before (.int number) (.text text)
  | intBool (number : Int64) (holds : Bool) : Before (.int number) (.bool holds)
  | textBool (text : String) (holds : Bool) : Before (.text text) (.bool holds)

theorem Text.order_eq_lt_iff {first second : String} :
    order first second = .lt ↔ Precedes first second := by
  unfold order Precedes
  generalize bytes first = one
  generalize bytes second = two
  induction one generalizing two with
  | nil => cases two <;> simp
  | cons byte one ih =>
    cases two with
    | nil => simp
    | cons byte' two =>
      rw [List.cons_lex_cons_iff, ← ih, List.compare_cons_cons, Ordering.then_eq_lt, Std.compare_eq_lt,
        Std.LawfulEqOrd.compare_eq_iff_eq, UInt8.lt_iff_toNat_lt]

namespace Key

variable {first second third : Key}

/-- **Comparing keys goes by their order.** -/
theorem order_eq_lt_iff : order first second = .lt ↔ first.Before second := by
  constructor
  · intro less
    cases first with
    | int one =>
      cases second with
      | int two => exact .int (Int64.lt_iff_toInt_lt.mp (Std.compare_eq_lt.mp less))
      | text => exact .intText _ _
      | bool => exact .intBool _ _
    | text one =>
      cases second with
      | int => cases less
      | text two => exact .text (Text.order_eq_lt_iff.mp less)
      | bool => exact .textBool _ _
    | bool one =>
      cases second with
      | bool two => cases one <;> cases two <;> first | exact .bool | cases less
      | _ => cases less
  · intro before
    cases before with
    | int less => exact Std.compare_eq_lt.mpr (Int64.lt_iff_toInt_lt.mpr less)
    | text less => exact Text.order_eq_lt_iff.mpr less
    | _ => rfl

theorem isLE_iff : (order first second).isLE = true ↔ ¬ second.Before first := by
  rw [← order_eq_lt_iff, ← order_swap, Ordering.isLE_iff_ne_gt]
  cases order first second <;> simp

/-- **The order is strict and total.** -/
theorem before_laws : (∀ key : Key, ¬ key.Before key) ∧
    (∀ first second third : Key, first.Before second → second.Before third → first.Before third) ∧
    ∀ first second : Key, first.Before second ∨ first = second ∨ second.Before first := by
  simp only [← order_eq_lt_iff]
  refine ⟨fun key less => ?_, fun first second third => ?_, fun first second => ?_⟩
  · rw [order_eq_iff.mpr rfl] at less
    cases less
  · exact (Std.TransCmp.lt_trans : compare first second = .lt → compare second third = .lt → _)
  · cases compared : order first second with
    | lt => exact .inl rfl
    | eq => exact .inr (.inl (order_eq_iff.mp compared))
    | gt => exact .inr (.inr (by rw [← order_swap, compared]; rfl))

theorem ofValue?_eq_some_iff {value : Value} {key : Key} :
    ofValue? value = some key ↔ value = key.toValue := by
  cases value <;> cases key <;> simp [ofValue?, toValue]

theorem ofValue?_toValue (key : Key) : ofValue? key.toValue = some key := ofValue?_eq_some_iff.mpr rfl

theorem filterMap_toValue (keys : List Key) : (keys.map toValue).filterMap ofValue? = keys := by
  have back : ofValue? ∘ toValue = some := funext ofValue?_toValue
  rw [List.filterMap_map, back, List.filterMap_some]

end Key

/-! ### What can be sorted -/

/-- All items are ints, or all are texts, or all are truth values. -/
def Sortable (items : List Value) : Prop :=
  (∀ item ∈ items, item.kind = .int) ∨ (∀ item ∈ items, item.kind = .string) ∨
    ∀ item ∈ items, item.kind = .bool

/-- Values of a sort that has an order are keys. -/
theorem exists_keys (sortable : Sortable items) :
    ∃ keys : List Key, items = keys.map Key.toValue := by
  have fit : ∀ item ∈ items, ∃ key : Key, item = key.toValue := by
    intro item member
    rw [Value.exists_eq_toValue_iff]
    rcases sortable with ints | texts | bools
    · exact .inl (ints item member)
    · exact .inr (.inl (texts item member))
    · exact .inr (.inr (bools item member))
  clear sortable
  induction items with
  | nil => exact ⟨[], rfl⟩
  | cons item items ih =>
    obtain ⟨key, rfl⟩ := fit item List.mem_cons_self
    obtain ⟨keys, rfl⟩ := ih fun item member => fit item (List.mem_cons_of_mem _ member)
    exact ⟨key :: keys, rfl⟩

/-- An array with a first item can be sorted if that item is a key and all others are of its sort. -/
theorem sortable_cons_iff {first : Value} {rest : List Value} : Sortable (first :: rest) ↔
    (∃ key : Key, first = key.toValue) ∧ ∀ other ∈ rest, other.kind = first.kind := by
  rw [Value.exists_eq_toValue_iff]
  simp only [Sortable, List.forall_mem_cons]
  constructor
  · rintro (⟨kind, others⟩ | ⟨kind, others⟩ | ⟨kind, others⟩) <;> simp_all
  · rintro ⟨kind | kind | kind, others⟩ <;> simp_all

theorem Sortable.of_perm {items' : List Value} (sortable : Sortable items)
    (perm : items'.Perm items) : Sortable items' := by
  simpa only [Sortable, perm.mem_iff] using sortable

/-- **Values are compared as keys.** Of the items of an array that can be sorted, any two are ints, texts
or truth values both, so the case in which others count as equal never arises. -/
theorem Sortable.order_eq {one two : Key} (sortable : Sortable items) (first : one.toValue ∈ items)
    (second : two.toValue ∈ items) : one.toValue.order two.toValue = one.order two := by
  have alike : one.toValue.kind = two.toValue.kind := by
    rcases sortable with ints | texts | bools
    · exact (ints _ first).trans (ints _ second).symm
    · exact (texts _ first).trans (texts _ second).symm
    · exact (bools _ first).trans (bools _ second).symm
  cases one <;> cases two <;> first | rfl | cases alike

/-- Keys in order. -/
def sorted (keys : List Key) : List Key := keys.mergeSort fun first second => (first.order second).isLE

/-- **What can be sorted** is sorted as keys are, and nothing else is. -/
theorem sortValues_of_sortable {keys : List Key} (sortable : Sortable (keys.map Key.toValue)) :
    sortValues (keys.map Key.toValue) = .ok ((sorted keys).map Key.toValue) := by
  cases keys with
  | nil => simp [sortValues, sorted]
  | cons key keys =>
    obtain ⟨fit, others⟩ := sortable_cons_iff.mp sortable
    have alike : (key.toValue :: keys.map Key.toValue).find?
        (fun other => other.kind != key.toValue.kind) = none := by
      refine List.find?_eq_none.mpr (List.forall_mem_cons.mpr ⟨by simp, fun other member => ?_⟩)
      simpa using others other member
    have compared : (sorted (key :: keys)).map Key.toValue =
        ((key :: keys).map Key.toValue).mergeSort fun one other => (one.order other).isLE :=
      List.map_mergeSort fun one first two second => congrArg Ordering.isLE
        (sortable.order_eq (List.mem_map_of_mem first) (List.mem_map_of_mem second)).symm
    rw [compared, List.map_cons, sortValues, if_pos (Value.exists_eq_toValue_iff.mp fit), alike]

theorem sortValues_error (unfit : ¬ Sortable items) : ∃ fault, sortValues items = .error fault := by
  unfold sortValues
  split
  · exact absurd (.inl nofun) unfit
  · rename_i first rest
    split
    · rename_i fit
      split
      · exact ⟨_, rfl⟩
      · rename_i alike
        refine absurd (sortable_cons_iff.mpr ⟨Value.exists_eq_toValue_iff.mpr fit, ?_⟩) unfit
        intro other member
        simpa using List.find?_eq_none.mp alike other (List.mem_cons_of_mem _ member)
    · exact ⟨_, rfl⟩

/-! ### What sorting gives -/

theorem sorted_perm (keys : List Key) : (sorted keys).Perm keys := List.mergeSort_perm _ _

theorem sorted_pairwise (keys : List Key) :
    (sorted keys).Pairwise fun earlier later => ¬ later.Before earlier := by
  have total : ∀ first second : Key, ((first.order second).isLE || (second.order first).isLE) = true := by
    intro first second
    rw [← Key.order_swap first second]
    cases first.order second <;> rfl
  have transitive : ∀ first second third : Key, (first.order second).isLE = true →
      (second.order third).isLE = true → (first.order third).isLE = true :=
    fun _ _ _ => Key.isLE_trans
  exact (List.pairwise_mergeSort transitive total keys).imp Key.isLE_iff.mp

/-- There is one way to put keys in order. -/
theorem sorted_eq_of_perm {keys keys' : List Key} (perm : keys.Perm keys') :
    sorted keys = sorted keys' := by
  refine List.Perm.eq_of_pairwise (fun first second _ _ notAfter notBefore => ?_)
    (sorted_pairwise keys) (sorted_pairwise keys')
    ((sorted_perm keys).trans (perm.trans (sorted_perm keys').symm))
  rcases Key.before_laws.2.2 first second with before | same | after
  · exact absurd before notBefore
  · exact same
  · exact absurd after notAfter

theorem Action.get_bind {α : Type} (next : World → Action α) (world : World) :
    ((get : Action World) >>= next) world = next world world := rfl

/-- `sort` adds an array of the keys in order. -/
theorem Builtin.call_sort (sortable : Sortable (world.heap.items place).toList) :
    ∃ keys : List Key, (world.heap.items place).toList = keys.map Key.toValue ∧
      Builtin.call .sort [.array place] world = .ok (.array world.heap.arrays.size) { world with
        heap := (world.heap.newArray ((sorted keys).map Key.toValue).toArray).2 } := by
  obtain ⟨keys, holds⟩ := exists_keys sortable
  have found := sortValues_of_sortable (holds ▸ sortable)
  rw [← holds] at found
  refine ⟨keys, holds, ?_⟩
  show sortArray place world = _
  refine (Action.get_bind _ _).trans ?_
  simp only [found]
  rfl

theorem Builtin.call_sort_unfit (unfit : ¬ Sortable (world.heap.items place).toList) :
    ∃ fault, Builtin.call .sort [.array place] world = .error (.type fault) world := by
  obtain ⟨fault, failed⟩ := sortValues_error unfit
  refine ⟨fault, ?_⟩
  show sortArray place world = _
  refine (Action.get_bind _ _).trans ?_
  simp only [failed]
  rfl

theorem Value.same_of_parts {heap : Heap} {a b : Value} (shapes : a.shape heap = b.shape heap)
    (parts : heap.parts a = heap.parts b) : a.same heap b = true := by
  refine same_iff_bisimilar.mpr (bisimilar_iff.mpr ⟨shapes, fun pair member => ?_⟩)
  rw [parts] at member
  obtain ⟨index, found⟩ := List.mem_iff_getElem?.mp member
  obtain ⟨left, right⟩ := List.getElem?_zip_eq_some.mp found
  rw [Option.some.inj (left.symm.trans right)]
  exact .refl heap _

/-- A new array leaves the others as they are, and is itself what it was made of. -/
theorem Heap.items_newArray (heap : Heap) (items : Array Value) (place : Nat) :
    (heap.newArray items).2.items place =
      if place = heap.arrays.size then items else heap.items place := by
  rw [Heap.items, Heap.items, newArray, Array.getD_eq_getD_getElem?, Array.getD_eq_getD_getElem?,
    Array.getElem?_push]
  split <;> rfl

/-- Arrays of the same items are sorted to equal arrays, one after the other. -/
theorem Builtin.sort_again {keys : List Key} (sortable : Sortable (keys.map Key.toValue))
    (perm : ((world.heap.newArray ((sorted keys).map Key.toValue).toArray).2.items
      place).toList.Perm (keys.map Key.toValue)) :
    ∃ again last, Builtin.call .sort [.array place] { world with
        heap := (world.heap.newArray ((sorted keys).map Key.toValue).toArray).2 } = .ok again last ∧
      again.same last.heap (.array world.heap.arrays.size) = true := by
  generalize made : (world.heap.newArray ((sorted keys).map Key.toValue).toArray).2 = heap at perm
  obtain ⟨keys', holds, sorts⟩ := @call_sort { world with heap } place (sortable.of_perm perm)
  refine ⟨_, _, sorts, ?_⟩
  have same : sorted keys' = sorted keys := by
    rw [holds] at perm
    have perm := perm.filterMap Key.ofValue?
    rw [Key.filterMap_toValue, Key.filterMap_toValue] at perm
    exact sorted_eq_of_perm perm
  rw [same]
  generalize ((sorted keys).map Key.toValue).toArray = items at made ⊢
  have apart : world.heap.arrays.size ≠ heap.arrays.size := by
    rw [← made, Heap.newArray, Array.size_push]
    omega
  have first : (heap.newArray items).2.items world.heap.arrays.size = items := by
    rw [Heap.items_newArray, if_neg apart, ← made, Heap.items_newArray, if_pos rfl]
  have second : (heap.newArray items).2.items heap.arrays.size = items := by
    rw [Heap.items_newArray, if_pos rfl]
  refine Value.same_of_parts ?_ ?_
  · rw [Value.shape, Value.shape, first, second]
  · rw [Heap.parts, Heap.parts, first, second]

/-- **`sort` orders a copy of the array or refuses it.** It takes an array exactly if its items are all
ints, all texts or all truth values. Then it adds one array, which holds the same items in order; the array
itself is unchanged. Whatever array holds these items in whatever order, the new one included, is sorted
to an equal array. An array that it does not take makes it fail with a type fault, and nothing changes. -/
theorem Builtin.sort_sorts (world : World) (place : Nat) :
    ((∃ value after, Builtin.call .sort [.array place] world = .ok value after) ↔
      Sortable (world.heap.items place).toList) ∧
    (∀ value after, Builtin.call .sort [.array place] world = .ok value after →
      (∃ keys : List Key, (keys.map Key.toValue).Perm (world.heap.items place).toList ∧
        (keys.Pairwise fun earlier later => ¬ later.Before earlier) ∧
        value = .array world.heap.arrays.size ∧
        after = { world with heap := (world.heap.newArray (keys.map Key.toValue).toArray).2 }) ∧
      after.heap.items place = world.heap.items place ∧
      (∃ again last, Builtin.call .sort [value] after = .ok again last ∧
        again.same last.heap value = true) ∧
      ∀ other, (after.heap.items other).toList.Perm (world.heap.items place).toList →
        ∃ again last, Builtin.call .sort [.array other] after = .ok again last ∧
          again.same last.heap value = true) ∧
    (¬ Sortable (world.heap.items place).toList →
      ∃ fault, Builtin.call .sort [.array place] world = .error (.type fault) world) := by
  by_cases sortable : Sortable (world.heap.items place).toList
  · obtain ⟨keys, holds, sorts⟩ := call_sort sortable
    refine ⟨iff_of_true ⟨_, _, sorts⟩ sortable, fun value after given => ?_, absurd sortable⟩
    rw [sorts] at given
    cases given
    rw [holds] at sortable ⊢
    have ordered := (sorted_perm keys).map Key.toValue
    have added := world.heap.items_newArray ((sorted keys).map Key.toValue).toArray
    refine ⟨⟨sorted keys, ordered, sorted_pairwise keys, rfl, rfl⟩, ?_, ?_,
      fun other perm => sort_again sortable perm⟩
    · rw [added]
      split
      · rename_i beyond
        -- where there is no array yet, what is read is empty, and so is the new array
        have nothing : world.heap.items place = #[] := by
          rw [beyond, Heap.items, Array.getD_eq_getD_getElem?, Array.getElem?_eq_none (Nat.le_refl _)]
          rfl
        rw [← holds, nothing] at ordered
        rw [nothing, ordered.eq_nil]
      · rfl
    · refine sort_again sortable ?_
      rw [added, if_pos rfl]
      exact ordered
  · obtain ⟨fault, failed⟩ := call_sort_unfit sortable
    refine ⟨iff_of_false ?_ sortable, fun value after given => ?_, fun _ => ⟨fault, failed⟩⟩
    · rintro ⟨value, after, given⟩
      cases failed.symm.trans given
    · cases failed.symm.trans given

end ScopedScript
