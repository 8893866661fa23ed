import Volley.Decimal.Binary64

namespace Volley.Binary64

def unit (n : Nat) : Nat := 2 ^ (n.log2 - 52)

theorem unit_pos (n : Nat) : 0 < unit n := Nat.two_pow_pos _

theorem unit_dvd {n bits : Nat} (below : n < 2 ^ bits) (wide : 53 ≤ bits) :
    unit n ∣ 2 ^ (bits - 53) := by
  apply Nat.pow_dvd_pow
  by_cases zero : n = 0
  · subst zero
    simp
  · have := (Nat.log2_lt zero).2 below
    omega

theorem roundSignificant_cases (n : Nat) :
    (roundSignificant n = n / unit n * unit n ∧ 2 * (n % unit n) ≤ unit n) ∨
      (roundSignificant n = n / unit n * unit n + unit n ∧ unit n ≤ 2 * (n % unit n)) := by
  have rounded : roundSignificant n =
      if 2 * (n % unit n) < unit n then n / unit n * unit n
      else if unit n < 2 * (n % unit n) then (n / unit n + 1) * unit n
      else if n / unit n % 2 = 0 then n / unit n * unit n
      else (n / unit n + 1) * unit n := rfl
  rw [rounded, Nat.succ_mul (n / unit n)]
  by_cases down : 2 * (n % unit n) < unit n
  · exact .inl ⟨by rw [if_pos down], Nat.le_of_lt down⟩
  · by_cases up : unit n < 2 * (n % unit n)
    · exact .inr ⟨by rw [if_neg down, if_pos up], Nat.le_of_lt up⟩
    · rw [if_neg down, if_neg up]
      by_cases even : n / unit n % 2 = 0
      · exact .inl ⟨by rw [if_pos even], by omega⟩
      · exact .inr ⟨by rw [if_neg even], by omega⟩

theorem roundSignificant_near (n : Nat) :
    2 * n ≤ 2 * roundSignificant n + unit n ∧ 2 * roundSignificant n ≤ 2 * n + unit n := by
  have parts := Nat.div_add_mod' n (unit n)
  have below := Nat.mod_lt n (unit_pos n)
  rcases roundSignificant_cases n with ⟨rounded, rest⟩ | ⟨rounded, rest⟩
  · rw [rounded]
    omega
  · rw [rounded]
    omega

theorem roundSignificant_le {n bound : Nat} (multiple : unit n ∣ bound) (le : n ≤ bound) :
    roundSignificant n ≤ bound := by
  obtain ⟨steps, rfl⟩ := multiple
  have parts := Nat.div_add_mod' n (unit n)
  rcases roundSignificant_cases n with ⟨rounded, -⟩ | ⟨rounded, rest⟩
  · rw [rounded]
    omega
  · -- The rest is not zero, so the bound lies at least one step above the part without it.
    have positive := unit_pos n
    have less : n / unit n * unit n < unit n * steps := by omega
    rw [Nat.mul_comm (unit n)] at less ⊢
    rw [rounded, ← Nat.succ_mul]
    exact Nat.mul_le_mul_right _ (Nat.lt_of_mul_lt_mul_right less)

theorem roundSignificant_of_lt {n : Nat} (small : n < 2 ^ 53) : roundSignificant n = n := by
  have one : unit n = 1 := Nat.eq_one_of_dvd_one (unit_dvd small (Nat.le_refl 53))
  have near := roundSignificant_near n
  rw [one] at near
  omega

end Volley.Binary64
