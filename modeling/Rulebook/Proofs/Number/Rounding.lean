import Mathlib
import Rulebook.Number.Basic
import Rulebook.Proofs.Predicate.Order

/-! Rounding to the magnitudes of 53 significant bits: it depends on the quotient alone, keeps the
order of quotients and leaves alone what needs no more bits. So whole numbers keep their order as
numbers, and those below `2^53` stay apart. -/

namespace Rulebook.Number

variable {a b c d num den units : Nat}

theorem le_roundHalfEven (num den : Nat) : num / den ≤ roundHalfEven num den := by
  simp only [roundHalfEven]
  split_ifs <;> omega

theorem roundHalfEven_le (num den : Nat) : roundHalfEven num den ≤ num / den + 1 := by
  simp only [roundHalfEven]
  split_ifs <;> omega

theorem roundHalfEven_mul_left (hc : 0 < c) (num den : Nat) :
    roundHalfEven (c * num) (c * den) = roundHalfEven num den := by
  have hdouble : 2 * (c * (num % den)) = c * (2 * (num % den)) := by ring
  simp only [roundHalfEven, Nat.mul_div_mul_left num den hc, Nat.mul_mod_mul_left, hdouble,
    Nat.mul_lt_mul_left hc]

theorem roundHalfEven_mul_right (hden : 0 < den) (q : Nat) : roundHalfEven (q * den) den = q := by
  simp only [roundHalfEven, Nat.mul_div_cancel q hden, Nat.mul_mod_left, mul_zero, if_pos hden]

theorem roundHalfEven_mono (h : a ≤ b) : roundHalfEven a den ≤ roundHalfEven b den := by
  have hq : a / den ≤ b / den := Nat.div_le_div_right h
  obtain hlt | heq := hq.lt_or_eq
  · exact (roundHalfEven_le a den).trans (Nat.succ_le_of_lt hlt |>.trans (le_roundHalfEven b den))
  · have ha := Nat.div_add_mod a den
    have hb := Nat.div_add_mod b den
    rw [heq] at ha
    have hr : a % den ≤ b % den := by omega
    simp only [roundHalfEven, heq]
    split_ifs <;> omega

theorem roundHalfEven_le_of_lt (h : num / den < c) : roundHalfEven num den ≤ c :=
  (roundHalfEven_le num den).trans h

/-- The magnitude needs no more than 53 significant bits. -/
def IsSharp (units : Nat) : Prop := 2 ^ excess units ∣ units

theorem isSharp_mul_two_pow {n : Nat} (h : n ≤ 2 ^ 53) (k : Nat) : IsSharp (n * 2 ^ k) := by
  obtain rfl | hpos := Nat.eq_zero_or_pos n
  · simp [IsSharp]
  · obtain hlt | rfl := h.lt_or_eq
    · have hbits : n.log2 < 53 := (Nat.log2_lt hpos.ne').2 hlt
      have hexcess : excess (n * 2 ^ k) ≤ k := by
        have hlog : (n * 2 ^ k).log2 < 53 + k := by
          rw [Nat.log2_lt (by positivity), pow_add]
          exact Nat.mul_lt_mul_of_pos_right hlt (by positivity)
        simp only [excess]
        omega
      exact (pow_dvd_pow 2 hexcess).trans (Dvd.intro_left n rfl)
    · rw [IsSharp, ← pow_add, excess, Nat.log2_two_pow]
      exact pow_dvd_pow 2 (by omega)

theorem nearest_mul_left (hc : 0 < c) (num den : Nat) :
    nearest (c * num) (c * den) = nearest num den := by
  simp only [nearest, Nat.mul_div_mul_left num den hc, mul_assoc, roundHalfEven_mul_left hc]

theorem nearest_congr (hb : 0 < b) (hd : 0 < d) (h : a * d = c * b) :
    nearest a b = nearest c d := by
  rw [← nearest_mul_left hd a b, ← nearest_mul_left hb c d, mul_comm d a, h, mul_comm c b,
    mul_comm d b]

theorem nearest_mul_right (h : IsSharp units) (hden : 0 < den) :
    nearest (units * den) den = units := by
  obtain ⟨w, hw⟩ := h
  have hnum : units * den = w * (den * 2 ^ excess units) := by
    calc units * den = 2 ^ excess units * w * den := by rw [← hw]
      _ = w * (den * 2 ^ excess units) := by ring
  have hround : roundHalfEven (units * den) (den * 2 ^ excess units) = w := by
    rw [hnum]
    exact roundHalfEven_mul_right (by positivity) w
  simp only [nearest, Nat.mul_div_cancel units hden, Nat.pow_eq, hround]
  rw [mul_comm, ← hw]

theorem roundHalfEven_excess_le (num den : Nat) :
    roundHalfEven num (den * 2 ^ excess (num / den)) ≤ 2 ^ 53 := by
  refine roundHalfEven_le_of_lt ?_
  rw [← Nat.div_div_eq_div_mul, Nat.div_lt_iff_lt_mul (by positivity), ← pow_add]
  calc num / den < 2 ^ ((num / den).log2 + 1) := Nat.lt_log2_self
    _ ≤ 2 ^ (53 + excess (num / den)) := by
      refine Nat.pow_le_pow_right (by omega) ?_
      simp only [excess]
      omega

theorem isSharp_nearest (num den : Nat) : IsSharp (nearest num den) :=
  isSharp_mul_two_pow (roundHalfEven_excess_le num den) _

theorem two_pow_le_nearest (h : 0 < excess (num / den)) :
    2 ^ (52 + excess (num / den)) ≤ nearest num den := by
  have hlog : (num / den).log2 = 52 + excess (num / den) := by
    simp only [excess] at h ⊢
    omega
  have hne : num / den ≠ 0 := by
    intro hzero
    rw [hzero] at h
    exact absurd h (by decide)
  have hquotient : 2 ^ 52 ≤ num / (den * 2 ^ excess (num / den)) := by
    rw [← Nat.div_div_eq_div_mul, Nat.le_div_iff_mul_le (by positivity), ← pow_add, ← hlog]
    exact Nat.log2_self_le hne
  rw [pow_add]
  exact Nat.mul_le_mul_right _ (hquotient.trans (le_roundHalfEven _ _))

theorem excess_mono (h : a ≤ b) : excess a ≤ excess b := by
  simp only [excess, Nat.log2_eq_log_two]
  exact Nat.sub_le_sub_right (Nat.log_mono_right h) 52

theorem nearest_mono_left (h : a ≤ b) : nearest a den ≤ nearest b den := by
  have hexcess : excess (a / den) ≤ excess (b / den) := excess_mono (Nat.div_le_div_right h)
  obtain hlt | heq := hexcess.lt_or_eq
  · calc nearest a den ≤ 2 ^ 53 * 2 ^ excess (a / den) :=
          Nat.mul_le_mul_right _ (roundHalfEven_excess_le a den)
      _ ≤ 2 ^ (52 + excess (b / den)) := by
          rw [← pow_add]
          exact Nat.pow_le_pow_right (by omega) (by omega)
      _ ≤ nearest b den := two_pow_le_nearest (by omega)
  · simp only [nearest, heq]
    exact Nat.mul_le_mul_right _ (roundHalfEven_mono h)

theorem one_pos : 0 < one := by
  unfold one
  generalize 1074 = places
  exact Nat.pow_pos Nat.two_pos

theorem mul_one_lt_limit {n : Nat} (h : n < 2 ^ 100) : n * one < limit := by
  have hpow (bits places : Nat) (hbits : 100 ≤ bits) :
      n * Nat.pow 2 places < Nat.pow 2 (bits + places) := by
    calc n * 2 ^ places < 2 ^ 100 * 2 ^ places := Nat.mul_lt_mul_of_pos_right h (by positivity)
      _ ≤ 2 ^ (bits + places) := by
        rw [← pow_add]
        exact Nat.pow_le_pow_right Nat.two_pos (by omega)
  unfold one limit
  generalize 1074 = places
  exact hpow 1024 places (by decide)

theorem limit_pos : 0 < limit := by
  have h := mul_one_lt_limit (Nat.two_pow_pos 100)
  rwa [Nat.zero_mul] at h

theorem isSharp_mul_one {n : Nat} (h : n ≤ 2 ^ 53) : IsSharp (n * one) := by
  unfold one
  generalize 1074 = places
  exact isSharp_mul_two_pow h places

theorem ofUnits_of_le (h : a ≤ b) :
    ofUnits false a = ofUnits false b ∨
      (ofUnits false a).compare? (ofUnits false b) = some .lt := by
  obtain hlt | rfl := h.lt_or_eq
  · by_cases hb : b < limit
    · have ha : a < limit := hlt.trans hb
      have hlt : (a : Int) < b := Int.ofNat_lt.2 hlt
      right
      simp [ofUnits, ha, hb, compare?, signed, compare_lt_iff_lt.2 hlt]
    · by_cases ha : a < limit
      · simp [ofUnits, ha, hb, compare?]
      · simp [ofUnits, ha, hb]
  · exact .inl rfl

def IsFinite : Number → Prop
  | .finite _ units => IsSharp units ∧ units < limit
  | _ => False

theorem isFinite_ofUnits {negative : Bool} (h : IsSharp units) :
    (ofUnits negative units).IsFinite ∨ ofUnits negative units = .infinite negative := by
  rw [ofUnits]
  split_ifs with hlimit
  · exact .inl ⟨h, hlimit⟩
  · exact .inr rfl

theorem isFinite_ofDecimal (negative : Bool) (digits : Nat) (exponent : Int) :
    (ofDecimal negative digits exponent).IsFinite ∨
      ofDecimal negative digits exponent = .infinite negative := by
  have hzero : (Number.finite negative 0).IsFinite := ⟨Nat.dvd_zero _, limit_pos⟩
  unfold ofDecimal
  split_ifs
  · exact .inl hzero
  · exact .inr rfl
  · exact .inl hzero
  · exact isFinite_ofUnits (isSharp_nearest _ _)
  · exact isFinite_ofUnits (isSharp_nearest _ _)

theorem ofNat_eq (n : Nat) : ofNat n = ofUnits false (nearest (n * one) 1) := by
  obtain rfl | hpos := Nat.eq_zero_or_pos n
  · have hnearest : nearest (0 * one) 1 = 0 := by simp [nearest, roundHalfEven]
    rw [hnearest, ofUnits, if_pos limit_pos]
    rfl
  · have hexponent : ¬ (n.log2 : Int) < -400 - n.log2 := by omega
    simp [ofNat, ofDecimal, hpos.ne', hexponent]

theorem ofNat_of_le (h : a ≤ b) :
    ofNat a = ofNat b ∨ (ofNat a).compare? (ofNat b) = some .lt := by
  rw [ofNat_eq, ofNat_eq]
  exact ofUnits_of_le (nearest_mono_left (Nat.mul_le_mul_right one h))

theorem ofNat_of_lt {n : Nat} (h : n < 2 ^ 53) : ofNat n = .finite false (n * one) := by
  have hnearest := nearest_mul_right (isSharp_mul_one h.le) Nat.one_pos
  rw [mul_one] at hnearest
  rw [ofNat_eq, hnearest, ofUnits, if_pos (mul_one_lt_limit (h.trans (by decide)))]

theorem ofNat_inj_of_lt (ha : a < 2 ^ 53) (hb : b < 2 ^ 53) (h : ofNat a = ofNat b) : a = b := by
  rw [ofNat_of_lt ha, ofNat_of_lt hb] at h
  exact Nat.eq_of_mul_eq_mul_right one_pos (Number.finite.inj h).2

end Rulebook.Number
