import Mathlib
import Rulebook.Proofs.Expr.Places
import Rulebook.Proofs.Text.Encoded

/-! The index of a syntax error. It counts the blanks in front in code units and the text behind
them in bytes, so it is the place of the failure where only ASCII characters stand in front of it,
and beyond that place everywhere else. -/

namespace Rulebook.Expr
open Text Reader

theorem isKept_within (total : Nat) : IsKept fun c => c.offset + c.remaining = total where
  seen {c t rest} h hview ht := by
    have hsize := Cursor.remaining_advance (Cursor.le_remaining_of_view hview ht)
    change c.offset + Cursor.byteCount t + (c.advance (Cursor.byteCount t)).remaining = total
    omega
  peeked {c n l} h hpeek _ := by
    have hsize := Cursor.remaining_advance (Cursor.le_remaining_of_peek? hpeek)
    change c.offset + n + (c.advance n).remaining = total
    omega

def IsBoundary (s : List Char) (c : Cursor) : Prop :=
  ∃ before rest, s = before ++ rest ∧ c = ⟨Cursor.byteCount before, [], rest⟩

theorem isKept_isBoundary {s : List Char} (hs : orderMark ∉ s) : IsKept (IsBoundary s) where
  seen {c t rest} h hview _ := by
    obtain ⟨before, behind, rfl, rfl⟩ := h
    have hmark : orderMark ∉ behind := fun hm => hs (List.mem_append_right _ hm)
    rw [view_of_dropMark _ (dropMark_of_not_mem hmark)] at hview
    subst hview
    refine ⟨before ++ t, rest, (List.append_assoc ..).symm, ?_⟩
    rw [Cursor.advance_append, Cursor.byteCount_append]
  peeked {c n l} h hpeek hl := by
    obtain ⟨before, behind, rfl, rfl⟩ := h
    have hmark : orderMark ∉ behind := fun hm => hs (List.mem_append_right _ hm)
    obtain ⟨u, hu, hdrop⟩ := Option.map_eq_some_iff.1 hpeek
    rw [Cursor.dropMark_decode? (dropMark_of_not_mem hmark) hu] at hdrop
    subst hdrop
    obtain ⟨rfl, rest, rfl⟩ := Cursor.of_decode? hu hl
    refine ⟨before ++ u, rest, (List.append_assoc ..).symm, ?_⟩
    rw [Cursor.advance_append, Cursor.byteCount_append]

variable {s : List Char} {f : Failure}

theorem offset_le (h : conditional (.start s) = .error f) : f.offset ≤ Cursor.byteCount s := by
  have hstart : Cursor.offset (.start s) + Cursor.remaining (.start s) = Cursor.byteCount s := by
    simp [Cursor.start, Cursor.remaining]
  have hstop := keeps_conditional (isKept_within (Cursor.byteCount s)) _ hstart
  rw [h] at hstop
  obtain ⟨d, hd, hoffset⟩ := hstop
  omega

theorem exists_before (hs : orderMark ∉ s) (h : conditional (.start s) = .error f) :
    ∃ before rest, s = before ++ rest ∧ Cursor.byteCount before = f.offset := by
  have hstop := keeps_conditional (isKept_isBoundary hs) (.start s) ⟨[], s, rfl, rfl⟩
  rw [h] at hstop
  obtain ⟨_, ⟨before, rest, hsplit, rfl⟩, hoffset⟩ := hstop
  exact ⟨before, rest, hsplit, hoffset.symm⟩

/-- The index is one of the text, and the units from the first character that is not blank up to it
are encoded in `n` bytes. -/
def IsPlace (text : String) (n index : Nat) : Prop :=
  unitCount (leadingBlanks text.toList) ≤ index ∧ index ≤ unitCount text.toList ∧
    encodedSize (((units text.toList).take index).drop (unitCount (leadingBlanks text.toList))) = n

variable {text : String} {n k : Nat}

theorem isPlace_add_iff :
    IsPlace text n (unitCount (leadingBlanks text.toList) + k) ↔
      k ≤ unitCount (trimStart text.toList) ∧
        encodedSize ((units (trimStart text.toList)).take k) = n := by
  have hunits : units text.toList =
      units (leadingBlanks text.toList) ++ units (trimStart text.toList) := by
    rw [← units_append, leadingBlanks_append_trimStart]
  rw [IsPlace, unitCount, unitCount, unitCount, hunits, List.take_length_add_append,
    List.drop_left, List.length_append]
  simp

theorem trimStart_eq (s : List Char) : ∃ trail, trimStart s = trim s ++ trail := by
  refine ⟨((trimStart s).reverse.takeWhile isBlank).reverse, ?_⟩
  rw [trim, trimEnd, ← List.reverse_append, List.takeWhile_append_dropWhile, List.reverse_reverse]

theorem length_le_unitCount (s : List Char) : s.length ≤ unitCount s := by
  induction s with
  | nil => exact Nat.le_refl _
  | cons c s ih =>
    have hsize := charUnits_size c
    rw [unitCount_cons, List.length_cons]
    omega

theorem isPlace_offset_iff (hn : n ≤ Cursor.byteCount (trim text.toList)) :
    IsPlace text n (unitCount (leadingBlanks text.toList) + n) ↔
      ∀ c ∈ (trim text.toList).take n, c.toNat < 0x80 := by
  obtain ⟨trail, htrail⟩ := trimStart_eq text.toList
  rw [isPlace_add_iff, htrail]
  constructor
  · rintro ⟨hle, hsize⟩ c hc
    have hall := (encodedSize_take_eq_iff hle).1 hsize
    refine hall c ?_
    rw [List.take_append]
    exact List.mem_append_left _ hc
  · intro hall
    have hlength : n ≤ (trim text.toList).length := by
      by_contra hlt
      rw [List.take_of_length_le (by omega)] at hall
      rw [Cursor.byteCount_eq_length fun c hc => utf8Size_eq_one_iff.2 (hall c hc)] at hn
      omega
    have hle : n ≤ unitCount (trim text.toList ++ trail) := by
      rw [unitCount_append]
      exact Nat.le_trans (Nat.le_trans hlength (length_le_unitCount _)) (Nat.le_add_right _ _)
    refine ⟨hle, (encodedSize_take_eq_iff hle).2 ?_⟩
    rwa [List.take_append_of_le_length hlength]

theorem isPlace_iff {before rest : List Char} (h : trim text.toList = before ++ rest)
    (index : Nat) : IsPlace text (Cursor.byteCount before) index ↔
      index = unitCount (leadingBlanks text.toList) + unitCount before := by
  obtain ⟨trail, htrail⟩ := trimStart_eq text.toList
  have hbefore : IsPlace text (Cursor.byteCount before)
      (unitCount (leadingBlanks text.toList) + unitCount before) := by
    rw [isPlace_add_iff, htrail, h, List.append_assoc, unitCount_append, units_append, unitCount,
      List.take_left, encodedSize_units]
    exact ⟨Nat.le_add_right _ _, rfl⟩
  constructor
  · intro hplace
    obtain ⟨k, rfl⟩ := Nat.exists_eq_add_of_le hplace.1
    obtain ⟨hk, hsize⟩ := isPlace_add_iff.1 hplace
    obtain ⟨hb, hsizeb⟩ := isPlace_add_iff.1 hbefore
    rw [encodedSize_take_inj hk hb (hsize.trans hsizeb.symm)]
  · rintro rfl
    exact hbefore

theorem of_parse_error {e : SyntaxError} (h : parse text = .error e) :
    (trim text.toList = [] ∧ e = ⟨text, .empty, 0⟩) ∨
      ∃ f, trim text.toList ≠ [] ∧ conditional (.start (trim text.toList)) = .error f ∧
        e = ⟨text, .failed f, unitCount (leadingBlanks text.toList) + f.offset⟩ := by
  simp only [parse] at h
  split at h
  case h_1 hblank =>
    cases h
    exact .inl ⟨hblank, rfl⟩
  case h_2 hne =>
    split at h
    case h_1 => cases h
    case h_2 f hf =>
      cases h
      exact .inr ⟨f, hne, hf, rfl⟩

/-- A blank text is refused at its start. Any other text is refused at the failing byte of the
trimmed text, moved by the units of the blanks in front. That index is the place of the failure just
where only ASCII characters stand before it. Without order marks there is such a place, and it comes
earlier by as many as the characters before it have more bytes than units. -/
theorem parse_error_index (text : String) (e : SyntaxError) (h : parse text = .error e) :
    e.expression = text ∧
      ((trim text.toList = [] ∧ e.refusal = .empty ∧ e.index = 0) ∨
        ∃ f, trim text.toList ≠ [] ∧ conditional (.start (trim text.toList)) = .error f ∧
          e.refusal = .failed f ∧
          e.index = unitCount (leadingBlanks text.toList) + f.offset ∧
          f.offset ≤ Cursor.byteCount (trim text.toList) ∧
          (IsPlace text f.offset e.index ↔
            ∀ c ∈ (trim text.toList).take f.offset, c.toNat < 0x80) ∧
          (orderMark ∉ text.toList → ∃ before rest, trim text.toList = before ++ rest ∧
            Cursor.byteCount before = f.offset ∧ ∀ index, IsPlace text f.offset index ↔
              index = unitCount (leadingBlanks text.toList) + unitCount before)) := by
  obtain ⟨hblank, rfl⟩ | ⟨f, hne, hf, rfl⟩ := of_parse_error h
  · exact ⟨rfl, .inl ⟨hblank, rfl, rfl⟩⟩
  · have hle := offset_le hf
    refine ⟨rfl, .inr ⟨f, hne, hf, rfl, rfl, hle, isPlace_offset_iff hle, fun hm => ?_⟩⟩
    have hmark : orderMark ∉ trim text.toList := fun hmem => hm (mem_of_mem_trim hmem)
    obtain ⟨before, rest, hsplit, hbefore⟩ := exists_before hmark hf
    exact ⟨before, rest, hsplit, hbefore, fun index => hbefore ▸ isPlace_iff hsplit index⟩

def openQuote : String := "\u3000\u3000a == 'x"

theorem parse_error_index_openQuote :
    parse openQuote = .error ⟨openQuote,
        .failed ⟨5, .pattern .quotedLiteral (some (.glimpse 5 "'x".toList))⟩, 7⟩ ∧
      IsPlace openQuote 5 7 := by
  have h : parse openQuote = .error ⟨openQuote,
      .failed ⟨5, .pattern .quotedLiteral (some (.glimpse 5 "'x".toList))⟩, 7⟩ := by cbv
  have hascii : ((trim openQuote.toList).take 5).all (·.toNat < 0x80) = true := by decide
  obtain ⟨-, ⟨hblank, -⟩ | ⟨f, -, -, hf, -, -, hplace, -⟩⟩ := parse_error_index openQuote _ h
  · exact absurd hblank (by decide)
  · cases hf
    exact ⟨h, hplace.2 fun c hc => of_decide_eq_true (List.all_eq_true.1 hascii c hc)⟩

/-- The index may even lie behind the end of the text, if a character in quotes takes two bytes. -/
theorem parse_error_index_accent :
    ¬ ∀ (text : String) (e : SyntaxError) (f : Failure), parse text = .error e →
      e.refusal = .failed f → IsPlace text f.offset e.index := by
  intro h
  have hparse : parse "a == 'é'" = .error ⟨"a == 'é'", .failed ⟨9, .mark '?' none⟩, 9⟩ := by cbv
  have hplace : IsPlace "a == 'é'" 9 9 := h _ _ _ hparse rfl
  have hlength : ¬ 9 ≤ unitCount "a == 'é'".toList := by decide
  exact hlength hplace.2.1

end Rulebook.Expr
