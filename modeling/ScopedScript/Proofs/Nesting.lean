/-
**Texts of containers inside themselves.**

A text follows values into containers, and a bound limits how deep. The bound is never met: a text does
not enter a container that is open around it, so each level uses up one container. With any larger bound
the text is the same:

* `unused`: how many things are left;
* `Value.written_eq_pieces`: **texts are complete.**
-/

import Mathlib.Data.Finset.Card
import ScopedScript.Value.Render
import ScopedScript.World.Release

namespace ScopedScript

namespace Heap

variable {heap : Heap}

theorem length_containers : heap.containers.length = heap.size := by
  simp [containers, size]

theorem array_mem_containers {place : Nat} (used : (heap.items place).toList ≠ []) :
    .array place ∈ heap.containers := by
  have inside : place < heap.arrays.size := by
    by_contra outside
    exact used (by simp [items, Array.getD, outside])
  exact List.mem_append_left _ (List.mem_map.mpr ⟨place, List.mem_range.mpr inside, rfl⟩)

theorem map_mem_containers {place : Nat} (used : (heap.entries place).toList ≠ []) :
    .map place ∈ heap.containers := by
  have inside : place < heap.maps.size := by
    by_contra outside
    have empty : heap.entries place = ∅ := by simp [entries, Array.getD, outside]
    rw [empty] at used
    exact used rfl
  exact List.mem_append_right _ (List.mem_map.mpr ⟨place, List.mem_range.mpr inside, rfl⟩)

end Heap

/-- How many of some things are not in a list. -/
def unused {α : Type} [DecidableEq α] (things : Finset α) (used : List α) : Nat :=
  (things \ used.toFinset).card

theorem unused_cons {α : Type} [DecidableEq α] {things : Finset α} {used : List α} {thing : α}
    (known : thing ∈ things) (new : thing ∉ used) :
    unused things (thing :: used) < unused things used := by
  unfold unused
  rw [List.toFinset_cons, Finset.sdiff_insert]
  exact Finset.card_erase_lt_of_mem (Finset.mem_sdiff.mpr ⟨known, by simpa using new⟩)

theorem Heap.unused_containers (heap : Heap) :
    unused heap.containers.toFinset [] ≤ heap.size := by
  rw [← Heap.length_containers]
  simpa [unused] using List.toFinset_card_le heap.containers

namespace Value

variable {heap : Heap}

/-- Texts are the same with all bounds that exceed the number of containers not yet open. -/
theorem pieces_bound {bound bound' : Nat} {around : List Value} (nested : Bool) (value : Value)
    (enough : unused heap.containers.toFinset around < bound)
    (enough' : unused heap.containers.toFinset around < bound') :
    value.pieces heap bound around nested = value.pieces heap bound' around nested := by
  induction bound generalizing bound' around nested value with
  | zero => cases enough
  | succ bound ih =>
    obtain ⟨bound', rfl⟩ : ∃ fewer, bound' = fewer + 1 := ⟨bound' - 1, by omega⟩
    -- inside a container that is not yet open, one container fewer is left
    have inside : ∀ {whole : Value}, whole ∈ heap.containers → ¬ around.contains whole →
        ∀ part : Value, part.pieces heap bound (whole :: around) true =
          part.pieces heap bound' (whole :: around) true := by
      intro whole known closed part
      have fewer := unused_cons (List.mem_toFinset.mpr known) (by simpa using closed)
      exact ih true part (by omega) (by omega)
    cases value with
    | array place =>
      simp only [pieces]
      split
      · rfl
      · rename_i closed
        refine congrArg (fun parts => "[" :: separated parts ++ ["]"]) (List.map_congr_left ?_)
        intro part member
        exact inside (Heap.array_mem_containers (List.ne_nil_of_mem member)) closed part
    | map place =>
      simp only [pieces]
      split
      · rfl
      · rename_i closed
        refine congrArg (fun parts => "\x7b" :: separated parts ++ ["\x7d"]) (List.map_congr_left ?_)
        intro entry member
        rw [inside (Heap.map_mem_containers (List.ne_nil_of_mem member)) closed entry.2]
    | text value => cases nested <;> simp only [pieces]
    | _ => simp only [pieces]

/-- **Texts are complete:** they are the same however many containers may lie inside one another. -/
theorem written_eq_pieces (heap : Heap) (value : Value) (more : Nat) :
    value.pieces heap (heap.size + 1 + more) [] false = value.written heap := by
  have few := Heap.unused_containers heap
  exact pieces_bound false value (by omega) (by omega)

end Value

end ScopedScript
