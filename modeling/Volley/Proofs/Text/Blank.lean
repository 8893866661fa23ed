import Mathlib.Data.List.TakeWhile
import Volley.Text.Blank

namespace Volley.Blank

theorem trim_eq_empty_iff {text : String} : trim text = "" ↔ isBlankText text = true := by
  have both := List.takeWhile_append_dropWhile (p := isBlank) (l := text.toList)
  rw [trim, String.ofList_eq_empty_iff, trimChars, List.reverse_eq_nil_iff,
    List.dropWhile_eq_nil_iff, isBlankText, List.all_eq_true]
  simp only [List.mem_reverse]
  constructor
  · intro blank c member
    rw [← both] at member
    rcases List.mem_append.1 member with front | back
    · exact List.all_eq_true.1 List.all_takeWhile c front
    · exact blank c back
  · exact fun blank c member => blank c ((List.dropWhile_suffix _).mem member)

end Volley.Blank
