/-
**Texts as bytes.**

Texts are compared byte by byte in their UTF-8 form:

* `Text.bytes`: the UTF-8 bytes of a text;
* `Text.order`: the order of texts, the first differing byte decides and a prefix comes first;
* `Text.order_eq_iff`: two texts are equal in this order exactly when they are the same text.
-/

namespace ScopedScript.Text

def bytes (text : String) : List UInt8 := text.toByteArray.data.toList

def order (first second : String) : Ordering := compare (bytes first) (bytes second)

theorem bytes_injective {first second : String} (same : bytes first = bytes second) :
    first = second := by
  apply String.toByteArray_inj.mp
  have data : first.toByteArray.data = second.toByteArray.data := Array.toList_inj.mp same
  exact ByteArray.ext data

/-- Equal in the order means the same text. -/
theorem order_eq_iff {first second : String} : order first second = .eq ↔ first = second := by
  unfold order
  constructor
  · intro equal
    exact bytes_injective (Std.LawfulEqOrd.compare_eq_iff_eq.mp equal)
  · rintro rfl
    exact Std.LawfulEqOrd.compare_eq_iff_eq.mpr rfl

end ScopedScript.Text
