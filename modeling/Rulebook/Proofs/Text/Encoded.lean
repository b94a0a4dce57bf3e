import Rulebook.Proofs.Text.Units
import Rulebook.Text.Cursor

/-! The bytes that code units are encoded in. A unit takes at least one byte, and just one where it
is an ASCII character, so no two beginnings of a text take as many bytes. -/

namespace Rulebook.Text
open LooseText (ofUnits ofUnits_units)
open Json (isHigh isLow joinPieces joinPieces_unit unitGlyph)

/-- The number of bytes that code units are encoded in. A half is encoded as U+FFFD. -/
def encodedSize (u : List UInt16) : Nat := Cursor.byteCount (ofUnits u).shown.toList

@[simp] theorem encodedSize_nil : encodedSize [] = 0 := rfl

theorem encodedSize_units (s : List Char) : encodedSize (units s) = Cursor.byteCount s := by
  have h := ofUnits_units (String.ofList s)
  rw [String.toList_ofList] at h
  rw [encodedSize, h, LooseText.shown_ofString, String.toList_ofList]

theorem utf8Size_eq_one_iff {c : Char} : c.utf8Size = 1 ↔ c.toNat < 0x80 := by
  rw [Char.utf8Size_eq_one_iff, UInt32.le_iff_toNat_le, ← Nat.lt_succ_iff]
  rfl

theorem utf8Size_eq_four_iff {c : Char} : c.utf8Size = 4 ↔ 0x10000 ≤ c.toNat := by
  rw [Char.utf8Size_eq_four_iff, UInt32.lt_iff_toNat_lt, ← Nat.succ_le_iff]
  rfl

theorem charUnits_size (c : Char) :
    ((charUnits c).length = 1 ∧ c.utf8Size < 4) ∨ ((charUnits c).length = 2 ∧ c.utf8Size = 4) := by
  have hle := c.utf8Size_le_four
  by_cases hc : c.toNat < 0x10000
  · have hne : ¬ c.utf8Size = 4 := by
      rw [utf8Size_eq_four_iff]
      omega
    exact .inl ⟨by simp [charUnits, hc], by omega⟩
  · exact .inr ⟨by simp [charUnits, hc], utf8Size_eq_four_iff.2 (by omega)⟩

theorem encodedSize_append (c : Char) (u : List UInt16) :
    encodedSize (charUnits c ++ u) = c.utf8Size + encodedSize u := by
  have hglyphs : (ofUnits (charUnits c ++ u)).glyphs = .char c :: (ofUnits u).glyphs := by
    obtain ⟨x, hx, hxc, hhigh, hlow⟩ | ⟨h, l, hhl, hh, hl, hc⟩ := charUnits_cases c
    · rw [hx, List.singleton_append, ofUnits, List.map_cons, joinPieces_unit hhigh, unitGlyph,
        hhigh, hlow, hxc, Char.ofNat_toNat]
      rfl
    · rw [hhl]
      simp [ofUnits, joinPieces, hh, hl, hc]
  simp [encodedSize, LooseText.shown, hglyphs, Glyph.shown]

theorem encodedSize_take_one {c : Char} (h : (charUnits c).length = 2) :
    encodedSize ((charUnits c).take 1) = 3 := by
  obtain ⟨x, hx, -⟩ | ⟨high, low, hhl, hhigh, -⟩ := charUnits_cases c
  · simp [hx] at h
  · rw [hhl]
    simp [encodedSize, ofUnits, joinPieces, unitGlyph, hhigh, LooseText.shown, Glyph.shown]
    decide

theorem units_cons (c : Char) (s : List Char) : units (c :: s) = charUnits c ++ units s := rfl

theorem unitCount_cons (c : Char) (s : List Char) :
    unitCount (c :: s) = (charUnits c).length + unitCount s := by
  rw [unitCount, units_cons, List.length_append, unitCount]

theorem take_units_cons (c : Char) (s : List Char) (k : Nat) :
    (k = 0) ∨ (k = 1 ∧ (charUnits c).length = 2 ∧
      (units (c :: s)).take k = (charUnits c).take 1) ∨
    ∃ j, k = (charUnits c).length + j ∧
      (units (c :: s)).take k = charUnits c ++ (units s).take j := by
  by_cases hk : (charUnits c).length ≤ k
  · obtain ⟨j, rfl⟩ := Nat.exists_eq_add_of_le hk
    exact .inr (.inr ⟨j, rfl, by rw [units_cons, List.take_length_add_append]⟩)
  · obtain ⟨hlen, -⟩ | ⟨hlen, -⟩ := charUnits_size c
    · exact .inl (by omega)
    · obtain rfl | rfl : k = 0 ∨ k = 1 := by omega
      · exact .inl rfl
      · exact .inr (.inl ⟨rfl, hlen, by
          rw [units_cons, List.take_append_of_le_length (by omega)]⟩)

variable {s : List Char} {j k : Nat}

theorem le_encodedSize_take (h : k ≤ unitCount s) : k ≤ encodedSize ((units s).take k) := by
  induction s generalizing k with
  | nil =>
    obtain rfl : k = 0 := Nat.le_zero.1 h
    exact Nat.zero_le _
  | cons c s ih =>
    have hsize := charUnits_size c
    obtain rfl | ⟨rfl, hlen, htake⟩ | ⟨i, rfl, htake⟩ := take_units_cons c s k
    · exact Nat.zero_le _
    · rw [htake, encodedSize_take_one hlen]
      decide
    · rw [unitCount_cons] at h
      have hrest := ih (Nat.le_of_add_le_add_left h)
      have hpos := c.utf8Size_pos
      rw [htake, encodedSize_append]
      omega

theorem encodedSize_take_eq_iff (h : k ≤ unitCount s) :
    encodedSize ((units s).take k) = k ↔ ∀ c ∈ s.take k, c.toNat < 0x80 := by
  induction s generalizing k with
  | nil =>
    obtain rfl : k = 0 := Nat.le_zero.1 h
    simp
  | cons c s ih =>
    have hsize := charUnits_size c
    have hpos := c.utf8Size_pos
    obtain rfl | ⟨rfl, hlen, htake⟩ | ⟨i, rfl, htake⟩ := take_units_cons c s k
    · simp
    · have hc : ¬ c.toNat < 0x80 := by
        rw [← utf8Size_eq_one_iff]
        omega
      rw [htake, encodedSize_take_one hlen]
      simp [hc]
    · rw [unitCount_cons] at h
      have hrest := Nat.le_of_add_le_add_left h
      have hle := le_encodedSize_take hrest
      rw [htake, encodedSize_append]
      by_cases hc : c.utf8Size = 1
      · have hlen : (charUnits c).length = 1 := by omega
        rw [hc, hlen, Nat.add_left_cancel_iff, ih hrest, Nat.add_comm, List.take_succ_cons,
          List.forall_mem_cons]
        exact ⟨fun hall => ⟨utf8Size_eq_one_iff.1 hc, hall⟩, And.right⟩
      · refine iff_of_false (by omega) fun hall => hc (utf8Size_eq_one_iff.2 (hall c ?_))
        obtain ⟨m, hm⟩ : ∃ m, (charUnits c).length + i = m + 1 :=
          ⟨(charUnits c).length + i - 1, by omega⟩
        rw [hm, List.take_succ_cons]
        exact List.mem_cons_self

theorem encodedSize_take_lt (hjk : j < k) (h : k ≤ unitCount s) :
    encodedSize ((units s).take j) < encodedSize ((units s).take k) := by
  induction s generalizing j k with
  | nil => exact absurd (Nat.lt_of_lt_of_le hjk h) (Nat.not_lt_zero j)
  | cons c s ih =>
    have hsize := charUnits_size c
    have hpos := c.utf8Size_pos
    have hk := le_encodedSize_take h
    obtain rfl | ⟨rfl, hlen, htake⟩ | ⟨i, rfl, htake⟩ := take_units_cons c s j
    · rw [List.take_zero, encodedSize_nil]
      omega
    · obtain rfl | ⟨rfl, -⟩ | ⟨m, rfl, htake'⟩ := take_units_cons c s k
      · omega
      · omega
      · rw [htake, encodedSize_take_one hlen, htake', encodedSize_append]
        omega
    · obtain ⟨m, rfl⟩ := Nat.exists_eq_add_of_lt hjk
      rw [unitCount_cons, Nat.add_assoc, Nat.add_assoc] at h
      have hrest := ih (j := i) (k := i + m + 1) (by omega) (by omega)
      rw [htake, Nat.add_assoc, Nat.add_assoc, units_cons, List.take_length_add_append,
        encodedSize_append, encodedSize_append]
      simpa [Nat.add_assoc] using hrest

theorem encodedSize_take_inj (hj : j ≤ unitCount s) (hk : k ≤ unitCount s)
    (h : encodedSize ((units s).take j) = encodedSize ((units s).take k)) : j = k := by
  obtain hlt | rfl | hgt := Nat.lt_trichotomy j k
  · have := encodedSize_take_lt hlt hk
    omega
  · rfl
  · have := encodedSize_take_lt hgt hj
    omega

end Rulebook.Text
