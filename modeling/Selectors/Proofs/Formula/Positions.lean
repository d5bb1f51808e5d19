import Selectors.AnB

/-!
# The positions of a formula

A position is tested by one division: the step has to divide its distance from the offset, and the
quotient may not be negative.  That is the same as a search through all multiples of the step, for
steps of either sign and for none.

* `AnB.includes_iff` is the equivalence.
-/

namespace Selectors

/-- **The positions of a formula** are its offset and what its step reaches from there. -/
theorem AnB.includes_iff (f : AnB) (p : Int) :
    f.includes p = true ↔ ∃ k : Nat, p = f.a * k + f.b := by
  unfold includes
  by_cases ha : f.a = 0
  · simp only [ha, if_true, beq_iff_eq, Int.zero_mul, Int.zero_add]
    constructor
    · intro h
      exact ⟨0, by omega⟩
    · intro h
      obtain ⟨_, rfl⟩ := h
      omega
  · simp only [ha, if_false, Bool.and_eq_true, beq_iff_eq, decide_eq_true_eq]
    constructor
    · intro h
      obtain ⟨hdvd, hquot⟩ := h
      obtain ⟨k, hk⟩ := Int.eq_ofNat_of_zero_le hquot
      have hdistance : f.a * (p - f.b).tdiv f.a = p - f.b :=
        Int.mul_tdiv_cancel' (Int.dvd_of_tmod_eq_zero hdvd)
      rw [hk] at hdistance
      exact ⟨k, by omega⟩
    · intro h
      obtain ⟨k, rfl⟩ := h
      rw [Int.add_sub_cancel, Int.mul_tmod_right, Int.mul_tdiv_cancel_left _ ha]
      exact ⟨rfl, Int.natCast_nonneg k⟩

end Selectors
