import Rulebook.Proofs.Value.JsonText

/-! The code units of a text. A character below the halves is one unit, which stands in a text where
the character does, and every list of units is that of one text. -/

namespace Rulebook
open Json (isHigh isLow unitGlyph joinPieces joinPieces_unit)

namespace Text

theorem charUnits_cases (c : Char) :
    (∃ u : UInt16, charUnits c = [u] ∧ u.toNat = c.toNat ∧ isHigh u.toNat = false ∧
      isLow u.toNat = false) ∨
    ∃ h l : UInt16, charUnits c = [h, l] ∧ isHigh h.toNat = true ∧ isLow l.toNat = true ∧
      0x10000 + (h.toNat - 0xD800) * 0x400 + (l.toNat - 0xDC00) = c.toNat := by
  have hvalid : c.toNat < 0xD800 ∨ 0xDFFF < c.toNat ∧ c.toNat < 0x110000 := c.valid
  have htoNat {n : Nat} (hn : n < 0x10000) : (UInt16.ofNat n).toNat = n :=
    UInt16.toNat_ofNat_of_lt' hn
  by_cases hc : c.toNat < 0x10000
  · refine .inl ⟨_, if_pos hc, htoNat hc, ?_, ?_⟩
    · rw [htoNat hc]
      simp [isHigh]
      omega
    · rw [htoNat hc]
      simp [isLow]
      omega
  · refine .inr ⟨_, _, if_neg hc, ?_, ?_, ?_⟩
    · rw [htoNat (by omega)]
      simp [isHigh]
      omega
    · rw [htoNat (by omega)]
      simp [isLow]
      omega
    · rw [htoNat (by omega), htoNat (by omega)]
      omega

theorem mem_charUnits {c d : Char} (hc : c.toNat < 0xD800) :
    UInt16.ofNat c.toNat ∈ charUnits d ↔ c = d := by
  have htoNat : (UInt16.ofNat c.toNat).toNat = c.toNat :=
    UInt16.toNat_ofNat_of_lt' (show c.toNat < 0x10000 by omega)
  obtain ⟨u, hu, hud, -⟩ | ⟨h, l, hhl, hh, hl, hd⟩ := charUnits_cases d
  · rw [hu, List.mem_singleton, ← UInt16.toNat_inj, htoNat, hud]
    exact Char.toNat_inj
  · -- The units are halves, and a character of two units is above them.
    simp only [isHigh, isLow, Bool.and_eq_true, decide_eq_true_eq] at hh hl
    simp only [hhl, List.mem_cons, List.not_mem_nil, or_false, ← UInt16.toNat_inj, htoNat]
    rw [← Char.toNat_inj]
    omega

theorem mem_units {c : Char} (hc : c.toNat < 0xD800) {s : List Char} :
    UInt16.ofNat c.toNat ∈ units s ↔ c ∈ s := by
  rw [units, List.mem_flatMap]
  constructor
  · rintro ⟨d, hd, hm⟩
    rwa [(mem_charUnits hc).1 hm]
  · exact fun hm => ⟨c, hm, (mem_charUnits hc).2 rfl⟩

theorem compareUnits_eq_iff {s t : List UInt16} : compareUnits s t = .eq ↔ s = t := by
  induction s generalizing t with
  | nil => cases t <;> simp [compareUnits]
  | cons u s ih =>
    cases t with
    | nil => simp [compareUnits]
    | cons v t =>
      rw [compareUnits, Ordering.then_eq_eq, ih, Std.LawfulEqOrd.compare_eq_iff_eq,
        List.cons.injEq]

theorem toNat_ofNat {n : Nat} (h : n.isValidChar) : (Char.ofNat n).toNat = n := by
  rw [Char.ofNat, dif_pos h]
  rfl

theorem charUnits_join {h l : UInt16} (hh : isHigh h.toNat = true) (hl : isLow l.toNat = true) :
    charUnits (Char.ofNat (0x10000 + (h.toNat - 0xD800) * 0x400 + (l.toNat - 0xDC00))) =
      [h, l] := by
  simp only [isHigh, isLow, Bool.and_eq_true, decide_eq_true_eq] at hh hl
  have hvalid : (0x10000 + (h.toNat - 0xD800) * 0x400 + (l.toNat - 0xDC00)).isValidChar :=
    .inr (by omega)
  rw [charUnits, toNat_ofNat hvalid, if_neg (by omega), List.cons.injEq, List.cons.injEq,
    ← UInt16.toNat_inj, ← UInt16.toNat_inj, UInt16.toNat_ofNat', UInt16.toNat_ofNat']
  refine ⟨?_, ?_, rfl⟩ <;> omega

end Text

namespace LooseText
open Text (charUnits charUnits_cases charUnits_join toNat_ofNat)

/-- The text of a list of units. A first half and a second one side by side are a character. -/
def ofUnits (u : List UInt16) : LooseText := ⟨joinPieces (u.map fun x => .unit x.toNat)⟩

theorem units_unitGlyph (x : UInt16) : (unitGlyph x.toNat).units = [x] := by
  rw [unitGlyph]
  split
  case isTrue => simp [Glyph.units]
  case isFalse hhalf =>
    have hx : x.toNat < 0x10000 := x.toNat_lt
    have hvalid : x.toNat.isValidChar := by
      simp [isHigh, isLow] at hhalf
      simp only [Nat.isValidChar]
      omega
    simp [Glyph.units, charUnits, toNat_ofNat hvalid, hx]

theorem units_joinPieces : ∀ u : List UInt16,
    (joinPieces (u.map fun x => .unit x.toNat)).flatMap Glyph.units = u
  | [] => rfl
  | [x] => by simp [joinPieces, units_unitGlyph]
  | x :: y :: u => by
    have htail := units_joinPieces (y :: u)
    rw [List.map_cons] at htail
    rw [List.map_cons, List.map_cons, joinPieces]
    split
    case isTrue hpair =>
      obtain ⟨hx, hy⟩ := Bool.and_eq_true_iff.1 hpair
      rw [List.flatMap_cons, Glyph.units, charUnits_join hx hy, units_joinPieces u]
      rfl
    case isFalse =>
      rw [List.flatMap_cons, units_unitGlyph, htail]
      rfl

@[simp] theorem units_ofUnits (u : List UInt16) : (ofUnits u).units = u := units_joinPieces u

theorem ofUnits_units (s : String) : ofUnits (Text.units s.toList) = ofString s := by
  refine congrArg mk ?_
  induction s.toList with
  | nil => rfl
  | cons c s ih =>
    rw [List.map_cons, ← ih]
    obtain ⟨u, hu, huc, hhigh, hlow⟩ | ⟨h, l, hhl, hh, hl, hc⟩ := charUnits_cases c
    · have hunits : Text.units (c :: s) = u :: Text.units s := by simp [Text.units, hu]
      rw [hunits, List.map_cons, joinPieces_unit hhigh, unitGlyph, hhigh, hlow, huc,
        Char.ofNat_toNat]
      rfl
    · have hunits : Text.units (c :: s) = h :: l :: Text.units s := by simp [Text.units, hhl]
      rw [hunits, List.map_cons, List.map_cons, joinPieces, hh, hl, hc, Char.ofNat_toNat]
      rfl

end LooseText

end Rulebook
