/-
**Names bound to things.**

A finite table from names to things of one type. Binding a name again replaces what it stood for:

* `Bindings.get?_set_self`, `Bindings.get?_set_other`: what a name stands for after binding one.
-/

namespace ScopedScript

structure Bindings (α : Type) where
  entries : List (String × α)
deriving Repr

namespace Bindings

variable {α : Type}

def empty : Bindings α := ⟨[]⟩

def get? (bindings : Bindings α) (name : String) : Option α := bindings.entries.lookup name

/-- Replaces the entry of a name, or adds one at the end. -/
def replace (name : String) (value : α) : List (String × α) → List (String × α)
  | [] => [(name, value)]
  | (other, old) :: rest =>
    if name == other then (other, value) :: rest else (other, old) :: replace name value rest

def set (bindings : Bindings α) (name : String) (value : α) : Bindings α :=
  ⟨replace name value bindings.entries⟩

/-- The things bound; a name bound earlier than another comes before it. -/
def values (bindings : Bindings α) : List α := bindings.entries.map Prod.snd

@[simp] theorem get?_set_self (bindings : Bindings α) (name : String) (value : α) :
    (bindings.set name value).get? name = some value := by
  obtain ⟨entries⟩ := bindings
  simp only [get?, set]
  induction entries with
  | nil => simp [replace]
  | cons entry rest ih =>
    obtain ⟨other, old⟩ := entry
    by_cases same : name == other
    · simp [replace, same, List.lookup_cons]
    · simp [replace, same, List.lookup_cons, ih]

@[simp] theorem get?_set_other (bindings : Bindings α) {name other : String} (value : α)
    (different : other ≠ name) : (bindings.set name value).get? other = bindings.get? other := by
  obtain ⟨entries⟩ := bindings
  simp only [get?, set]
  induction entries with
  | nil => simp [replace, List.lookup_cons, beq_false_of_ne different]
  | cons entry rest ih =>
    obtain ⟨key, old⟩ := entry
    by_cases same : name == key
    · have apart : (other == key) = false := by
        have : name = key := by simpa using same
        subst this
        simpa using different
      simp [replace, same, List.lookup_cons, apart]
    · simp only [replace, same, List.lookup_cons, Bool.false_eq_true, if_false]
      cases other == key <;> simp [ih]

end Bindings

end ScopedScript
