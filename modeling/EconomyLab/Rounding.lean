import Mathlib.Tactic.Linarith
import EconomyLab.Money

/-!
# What rounding keeps

A conversion rounds once, so its result is within one unit of the exact product. The bounds are
stated over the scaled product, which stays in the integers.
-/

namespace EconomyLab

theorem scale_pos (rate : Rate) : (0 : Int) < 10 ^ rate.scale := Int.pow_pos (by decide)

variable {rate : Rate} {target : Currency}

theorem convertMinor_floor {minor m : Int} (h : convertMinor minor rate .floor = .ok m) :
    m = minor * rate.rate / 10 ^ rate.scale := by
  unfold convertMinor mulDiv at h
  rw [divRound_floor _ (scale_pos rate)] at h
  cases hc : checkI64 (minor * rate.rate / 10 ^ rate.scale) with
  | error e =>
    rw [hc] at h
    cases h
  | ok n =>
    rw [hc] at h
    cases h
    exact (checkI64_eq_ok.mp hc).2

theorem convertMinor_ceil {minor m : Int} (h : convertMinor minor rate .ceil = .ok m) :
    m = -(-(minor * rate.rate) / 10 ^ rate.scale) := by
  unfold convertMinor mulDiv at h
  rw [divRound_ceil _ (scale_pos rate)] at h
  cases hc : checkI64 (-(-(minor * rate.rate) / 10 ^ rate.scale)) with
  | error e =>
    rw [hc] at h
    cases h
  | ok n =>
    rw [hc] at h
    cases h
    exact (checkI64_eq_ok.mp hc).2

theorem convertFloor_bounds {amount a : Amount} (h : convertFloor amount rate target = .ok a) :
    a.currency = target ∧ 10 ^ rate.scale * a.minor ≤ amount.minor * rate.rate ∧
      amount.minor * rate.rate < 10 ^ rate.scale * a.minor + 10 ^ rate.scale := by
  obtain ⟨m, hm, ha⟩ := except_bind_ok.mp h
  obtain ⟨hcurrency, hminor⟩ := toAmount_eq_ok.mp ha
  rw [hminor, convertMinor_floor hm]
  have hdiv := Int.mul_ediv_add_emod (amount.minor * rate.rate) (10 ^ rate.scale)
  have hnonneg := Int.emod_nonneg (amount.minor * rate.rate) (scale_pos rate).ne'
  have hlt := Int.emod_lt_of_pos (amount.minor * rate.rate) (scale_pos rate)
  exact ⟨hcurrency, by linarith, by linarith⟩

theorem convertCeil_bounds {amount a : Amount} (h : convertCeil amount rate target = .ok a) :
    a.currency = target ∧ amount.minor * rate.rate ≤ 10 ^ rate.scale * a.minor ∧
      10 ^ rate.scale * a.minor < amount.minor * rate.rate + 10 ^ rate.scale := by
  obtain ⟨m, hm, ha⟩ := except_bind_ok.mp h
  obtain ⟨hcurrency, hminor⟩ := toAmount_eq_ok.mp ha
  rw [hminor, convertMinor_ceil hm]
  have hdiv := Int.mul_ediv_add_emod (-(amount.minor * rate.rate)) (10 ^ rate.scale)
  have hnonneg := Int.emod_nonneg (-(amount.minor * rate.rate)) (scale_pos rate).ne'
  have hlt := Int.emod_lt_of_pos (-(amount.minor * rate.rate)) (scale_pos rate)
  exact ⟨hcurrency, by linarith, by linarith⟩

/-- A rate at or above another one rounds up to no less. -/
theorem convertCeil_mono {amount high low : Amount} {buy par : Rate}
    (hrates : rateGte buy par = true) (hamount : 0 ≤ amount.minor)
    (hbuy : convertCeil amount buy target = .ok high) (hpar : convertCeil amount par target = .ok low) :
    low.minor ≤ high.minor := by
  obtain ⟨-, habove, -⟩ := convertCeil_bounds hbuy
  obtain ⟨-, -, hbelow⟩ := convertCeil_bounds hpar
  have hgte : par.rate * 10 ^ buy.scale ≤ buy.rate * 10 ^ par.scale := by simpa [rateGte] using hrates
  have hscaled : amount.minor * (par.rate * 10 ^ buy.scale) ≤ amount.minor * (buy.rate * 10 ^ par.scale) :=
    mul_le_mul_of_nonneg_left hgte hamount
  have hhigh := mul_le_mul_of_nonneg_right habove (scale_pos par).le
  have hlow := mul_lt_mul_of_pos_right hbelow (scale_pos buy)
  have hunits : (10 ^ buy.scale * 10 ^ par.scale : Int) * low.minor <
      (10 ^ buy.scale * 10 ^ par.scale) * (high.minor + 1) := by
    calc (10 ^ buy.scale * 10 ^ par.scale : Int) * low.minor
        = 10 ^ par.scale * low.minor * 10 ^ buy.scale := by ring
      _ < (amount.minor * par.rate + 10 ^ par.scale) * 10 ^ buy.scale := hlow
      _ = amount.minor * (par.rate * 10 ^ buy.scale) + 10 ^ buy.scale * 10 ^ par.scale := by ring
      _ ≤ amount.minor * (buy.rate * 10 ^ par.scale) + 10 ^ buy.scale * 10 ^ par.scale := by linarith
      _ = amount.minor * buy.rate * 10 ^ par.scale + 10 ^ buy.scale * 10 ^ par.scale := by ring
      _ ≤ 10 ^ buy.scale * high.minor * 10 ^ par.scale + 10 ^ buy.scale * 10 ^ par.scale := by linarith
      _ = (10 ^ buy.scale * 10 ^ par.scale) * (high.minor + 1) := by ring
  have hlt := lt_of_mul_lt_mul_left hunits (mul_pos (scale_pos buy) (scale_pos par)).le
  omega

end EconomyLab
