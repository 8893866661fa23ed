import Volley.Time

namespace Volley.Span

theorem ofMillis_le_iff {m n : Nat} : (ofMillis m).nanos ≤ (ofMillis n).nanos ↔ m ≤ n := by
  simp only [ofMillis]
  omega

theorem ofMillis_lt_iff {m n : Nat} : (ofMillis m).nanos < (ofMillis n).nanos ↔ m < n := by
  simp only [ofMillis]
  omega

theorem ceilMillis_ofMillis (n : Nat) : (ofMillis n).ceilMillis = n := by
  simp only [ceilMillis, ofMillis]
  omega

end Volley.Span
