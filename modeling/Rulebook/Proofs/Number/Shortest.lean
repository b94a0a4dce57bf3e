import Rulebook.Number.Shortest
import Rulebook.Proofs.Number.Rounding

/-! The shortest decimal of a magnitude reads back as the magnitude, on whichever grid it is found. -/

namespace Rulebook.Number

variable {units digits zeros : Nat}

theorem pick_reads {reads : Nat → Bool} {low rest step : Nat}
    (h : pick low rest step (reads low && low != 0) (reads (low + 1)) = some digits) :
    digits ≠ 0 ∧ reads digits = true := by
  have hlow : (reads low && low != 0) = true → low ≠ 0 ∧ reads low = true := by simp [and_comm]
  have hhigh : reads (low + 1) = true → low + 1 ≠ 0 ∧ reads (low + 1) = true :=
    fun hreads => ⟨Nat.add_one_ne_zero low, hreads⟩
  unfold pick at h
  split at h
  case h_1 => cases h
  case h_2 hreads _ =>
    cases h
    exact hlow hreads
  case h_3 _ hreads =>
    cases h
    exact hhigh hreads
  case h_4 hbelow habove =>
    split_ifs at h
    · cases h
      exact hlow hbelow
    · cases h
      exact hhigh habove
    · cases h
      obtain heven | hodd := Nat.mod_two_eq_zero_or_one low
      · rw [heven]
        exact hlow hbelow
      · rw [hodd]
        exact hhigh habove

theorem onGrid_readsBack (h : onGrid units zeros = some digits) :
    digits ≠ 0 ∧ readsBack units digits zeros = true := by
  unfold onGrid at h
  exact @pick_reads digits (readsBack units · zeros) _ _ _ h

theorem exactDigits_readsBack (h : IsSharp units) (hne : units ≠ 0) :
    exactDigits units ≠ 0 ∧ readsBack units (exactDigits units) 0 = true := by
  unfold readsBack exactDigits
  generalize 1074 = places
  have hpos : 0 < Nat.pow 5 places := Nat.pow_pos (by decide)
  have hone : Nat.pow 10 0 = 1 := rfl
  rw [hone, Nat.mul_one, nearest_mul_right h hpos]
  exact ⟨Nat.mul_ne_zero hne hpos.ne', beq_self_eq_true units⟩

theorem searchGrids_readsBack (h : IsSharp units) (hne : units ≠ 0) (grids zeros : Nat) :
    (searchGrids units grids zeros).1 ≠ 0 ∧ readsBack units (searchGrids units grids zeros).1
      (searchGrids units grids zeros).2 = true := by
  unfold searchGrids
  cases hfound : (List.range grids).findSome? fun i =>
    (onGrid units (zeros - i)).map fun digits => (digits, zeros - i) with
  | none => exact exactDigits_readsBack h hne
  | some found =>
    obtain ⟨i, -, hi⟩ := List.exists_of_findSome?_eq_some hfound
    obtain ⟨digits, hgrid, rfl⟩ := Option.map_eq_some_iff.1 hi
    exact onGrid_readsBack hgrid

theorem dropZeros_eq (bound digits zeros : Nat) :
    (dropZeros bound digits zeros).1 * 10 ^ (dropZeros bound digits zeros).2 =
      digits * 10 ^ zeros := by
  induction bound generalizing digits zeros with
  | zero => rfl
  | succ bound ih =>
    rw [dropZeros]
    split
    case isTrue hzero =>
      have hdigits : digits / 10 * 10 = digits := Nat.div_mul_cancel (Nat.dvd_of_mod_eq_zero hzero)
      rw [ih, pow_succ', ← Nat.mul_assoc, hdigits]
    case isFalse => rfl

theorem exists_shortest (h : IsSharp units) (hne : units ≠ 0) : ∃ digits zeros : Nat,
    shortest units = ⟨digits, (zeros : Int) - 1074⟩ ∧ digits ≠ 0 ∧
      readsBack units digits zeros = true := by
  unfold shortest
  generalize digitCount (exactDigits units) = count
  simp only
  obtain ⟨hfound, hreads⟩ := searchGrids_readsBack h hne 17 (count - 1)
  generalize searchGrids units 17 (count - 1) = found at hfound hreads
  have hdropped := dropZeros_eq count found.1 found.2
  refine ⟨(dropZeros count found.1 found.2).1, (dropZeros count found.1 found.2).2, rfl, ?_, ?_⟩
  · intro hzero
    rw [hzero, Nat.zero_mul] at hdropped
    exact Nat.mul_ne_zero hfound (by positivity) hdropped.symm
  · unfold readsBack at hreads ⊢
    rwa [Nat.pow_eq, hdropped]

end Rulebook.Number
