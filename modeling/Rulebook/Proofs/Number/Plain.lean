import Rulebook.Number.Text
import Rulebook.Proofs.Number.Shortest
import Rulebook.Proofs.Text.Digits

/-! The text of a number in positional notation is a plain decimal, and reads back as the number.
Every other text has an exponent, and is none. -/

namespace Rulebook.Number

open Text (digitsValue)

variable {negative : Bool} {whole fraction : List Char} {d : Decimal}

def spell (whole : List Char) : (fraction : List Char) → List Char
  | [] => whole
  | fraction => whole ++ '.' :: fraction

theorem spell_of_ne_nil (h : fraction ≠ []) : spell whole fraction = whole ++ '.' :: fraction := by
  cases fraction with
  | nil => exact absurd rfl h
  | cons c fraction => rfl

theorem readUnsigned_spell (hwhole : whole ≠ [])
    (hdigits : ∀ c ∈ whole ++ fraction, c.isDigit = true) :
    readUnsigned negative (spell whole fraction) = some ⟨negative, whole, fraction⟩ := by
  have hall : ∀ c ∈ whole, c.isDigit = true := fun c hc => hdigits c (by simp [hc])
  obtain ⟨first, rest, rfl⟩ := List.exists_cons_of_ne_nil hwhole
  cases fraction with
  | nil =>
    have htake : (first :: rest).takeWhile Char.isDigit = first :: rest :=
      List.takeWhile_eq_self_iff.2 hall
    have hdrop : (first :: rest).dropWhile Char.isDigit = [] := List.dropWhile_eq_nil_iff.2 hall
    simp only [readUnsigned, spell, htake, hdrop]
  | cons c fraction =>
    have htake : (first :: rest ++ '.' :: c :: fraction).takeWhile Char.isDigit =
        first :: rest := by
      rw [List.takeWhile_append_of_pos hall]
      simp
    have hdrop : (first :: rest ++ '.' :: c :: fraction).dropWhile Char.isDigit =
        '.' :: c :: fraction := by
      rw [List.dropWhile_append_of_pos hall]
      simp
    have hfraction : Text.isDigits (c :: fraction) = true := by
      simp only [Text.isDigits, List.isEmpty_cons, Bool.not_false, Bool.true_and, List.all_eq_true]
      exact fun x hx => hdigits x (by simp [List.mem_cons.1 hx])
    simp only [readUnsigned, spell, htake, hdrop, hfraction, if_true]

theorem readPlain_spell (negative : Bool) (hwhole : whole ≠ [])
    (hdigits : ∀ c ∈ whole ++ fraction, c.isDigit = true) :
    readPlain ((if negative then "-" else "") ++ String.ofList (spell whole fraction)).toList =
      some ⟨negative, whole, fraction⟩ := by
  obtain ⟨first, rest, hspell⟩ : ∃ first rest, spell whole fraction = first :: rest ∧
      first.isDigit = true := by
    obtain ⟨first, rest, rfl⟩ := List.exists_cons_of_ne_nil hwhole
    refine ⟨first, (spell (first :: rest) fraction).tail, ?_, hdigits first (by simp)⟩
    cases fraction <;> rfl
  cases negative with
  | true =>
    have hsign : ((if true then "-" else "") ++ String.ofList (spell whole fraction)).toList =
        '-' :: spell whole fraction := by simp
    rw [hsign]
    exact readUnsigned_spell hwhole hdigits
  | false =>
    have hnone : ((if false then "-" else "") ++ String.ofList (spell whole fraction)).toList =
        spell whole fraction := by simp
    rw [hnone, readPlain]
    · exact readUnsigned_spell hwhole hdigits
    · intro s hminus
      rw [hspell.1] at hminus
      obtain ⟨rfl, -⟩ := List.cons.inj hminus
      exact absurd hspell.2 (by decide)

def Decimal.point (d : Decimal) : Int := (Nat.toDigits 10 d.digits).length + d.exponent

def Decimal.IsPositional (d : Decimal) : Prop :=
  layout.least < d.point ∧ d.point ≤ layout.greatest

structure Decimal.IsSpelled (d : Decimal) (whole fraction : List Char) : Prop where
  whole_ne_nil : whole ≠ []
  isDigit : ∀ c ∈ whole ++ fraction, c.isDigit = true
  exponent : 0 ≤ d.exponent + fraction.length
  value : digitsValue (whole ++ fraction) = d.digits * 10 ^ (d.exponent + fraction.length).toNat
  length_le : fraction.length ≤ (Nat.toDigits 10 d.digits).length + 5

namespace Decimal

theorem isSpelled_zeros (h : 0 ≤ d.exponent) :
    d.IsSpelled (Nat.toDigits 10 d.digits ++ List.replicate d.exponent.toNat '0') [] where
  whole_ne_nil := by simp
  isDigit c hc := by
    rw [List.append_nil, List.mem_append] at hc
    obtain hc | hc := hc
    · exact Text.isDigit_of_mem_toDigits hc
    · rw [(List.mem_replicate.1 hc).2]
      decide
  exponent := by simpa using h
  value := by
    rw [List.append_nil, Text.digitsValue_append_zeros, Text.digitsValue_toDigits]
    simp
  length_le := Nat.zero_le _

theorem isSpelled_split {k : Nat} (hpos : 0 < k) (hpoint : d.point = k)
    (hk : k ≤ (Nat.toDigits 10 d.digits).length) :
    d.IsSpelled ((Nat.toDigits 10 d.digits).take k) ((Nat.toDigits 10 d.digits).drop k) where
  whole_ne_nil := by simp [hpos.ne']
  isDigit c hc := by
    rw [List.take_append_drop] at hc
    exact Text.isDigit_of_mem_toDigits hc
  exponent := by
    rw [point] at hpoint
    rw [List.length_drop]
    omega
  value := by
    have hplaces : (d.exponent + ((Nat.toDigits 10 d.digits).drop k).length).toNat = 0 := by
      rw [point] at hpoint
      rw [List.length_drop]
      omega
    rw [List.take_append_drop, hplaces, Text.digitsValue_toDigits, pow_zero, Nat.mul_one]
  length_le := by
    rw [List.length_drop]
    omega

theorem isSpelled_small {k : Nat} (hpoint : d.point = -(k : Int)) (hk : k ≤ 5) :
    d.IsSpelled ['0'] (List.replicate k '0' ++ Nat.toDigits 10 d.digits) where
  whole_ne_nil := List.cons_ne_nil _ _
  isDigit c hc := by
    rw [List.mem_append, List.mem_append] at hc
    obtain hc | hc | hc := hc
    · rw [List.mem_singleton.1 hc]
      decide
    · rw [(List.mem_replicate.1 hc).2]
      decide
    · exact Text.isDigit_of_mem_toDigits hc
  exponent := by
    rw [point] at hpoint
    rw [List.length_append, List.length_replicate]
    omega
  value := by
    have hplaces : (d.exponent +
        (List.replicate k '0' ++ Nat.toDigits 10 d.digits).length).toNat = 0 := by
      rw [point] at hpoint
      rw [List.length_append, List.length_replicate]
      omega
    have hzero : ['0'] = List.replicate 1 '0' := rfl
    rw [hplaces, hzero, Text.digitsValue_zeros_append, Text.digitsValue_zeros_append,
      Text.digitsValue_toDigits, pow_zero, Nat.mul_one]
  length_le := by
    rw [List.length_append, List.length_replicate]
    omega

theorem exists_spelled (h : d.IsPositional) : ∃ whole fraction,
    d.IsSpelled whole fraction ∧ d.text = String.ofList (spell whole fraction) := by
  obtain ⟨hleast, hgreatest⟩ := h
  have hpoint : d.point = (Nat.toDigits 10 d.digits).length + d.exponent := rfl
  unfold text
  simp only [← hpoint]
  split_ifs with hzeros hsplit hsmall
  · have hexponent : d.point - (Nat.toDigits 10 d.digits).length = d.exponent := by omega
    rw [hexponent]
    exact ⟨_, [], isSpelled_zeros (by omega), rfl⟩
  · obtain ⟨k, hk⟩ := Int.eq_ofNat_of_zero_le hsplit.1.le
    rw [hk] at hsplit hzeros hgreatest ⊢
    refine ⟨_, _, isSpelled_split (by omega) hk (by omega), ?_⟩
    rw [spell_of_ne_nil]
    · rfl
    · rw [Ne, List.drop_eq_nil_iff]
      omega
  · obtain ⟨k, hk⟩ := Int.eq_ofNat_of_zero_le (Int.neg_nonneg.2 hsmall.2)
    have hleast : layout.least = -6 := rfl
    refine ⟨_, _, isSpelled_small (k := k) (by omega) (by omega), ?_⟩
    rw [spell_of_ne_nil (by simp), hk]
    rfl
  · exfalso
    omega

end Decimal

variable {digits zeros k units : Nat}

theorem ofDecimal_of_places (hne : digits ≠ 0) (hk : k ≤ digits.log2 + 400) :
    ofDecimal negative digits (-(k : Int)) =
      ofUnits negative (nearest (digits * one) (10 ^ k)) := by
  unfold ofDecimal
  -- Two to the power 1074 is not to be computed when the cases are simplified.
  generalize one = unit
  rw [if_neg hne, if_neg (by omega), if_neg (by omega)]
  split_ifs with hwhole
  · obtain rfl : k = 0 := by omega
    rw [pow_zero]
    exact congrArg (fun n => ofUnits negative (nearest (n * unit) 1)) (Nat.mul_one digits)
  · rw [neg_neg, Int.toNat_natCast]
    rfl

theorem Decimal.IsSpelled.value_eq (h : d.IsSpelled whole fraction) (hne : d.digits ≠ 0) :
    Plain.value ⟨negative, whole, fraction⟩ =
      ofUnits negative
        (nearest (digitsValue (whole ++ fraction) * one) (10 ^ fraction.length)) := by
  have hle : d.digits ≤ digitsValue (whole ++ fraction) := by
    rw [h.value]
    exact Nat.le_mul_of_pos_right _ (by positivity)
  have hpow : 2 ^ ((Nat.toDigits 10 d.digits).length - 1) ≤ digitsValue (whole ++ fraction) :=
    (Nat.pow_le_pow_left (by decide) _).trans ((Text.pow_length_toDigits_le hne).trans hle)
  have hvalue : digitsValue (whole ++ fraction) ≠ 0 := by omega
  have hlog := (Nat.le_log2 hvalue).2 hpow
  have hlength := h.length_le
  have hplaces : fraction.length ≤ (digitsValue (whole ++ fraction)).log2 + 400 := by omega
  exact ofDecimal_of_places hvalue hplaces

theorem Decimal.IsSpelled.nearest_eq (h : IsSpelled ⟨digits, (zeros : Int) - 1074⟩ whole fraction) :
    nearest (digitsValue (whole ++ fraction) * one) (10 ^ fraction.length) =
      nearest (digits * Nat.pow 10 zeros) (Nat.pow 5 1074) := by
  have hexponent := h.exponent
  have hplaces : 1074 ≤ zeros + fraction.length := by
    simp only at hexponent
    omega
  have htoNat : ((zeros : Int) - 1074 + fraction.length).toNat =
      zeros + fraction.length - 1074 := by omega
  have hvalue : digitsValue (whole ++ fraction) =
      digits * 10 ^ (zeros + fraction.length - 1074) := by
    rw [h.value, htoNat]
  unfold one
  -- Only the places and the power of two that they come with have to cancel, so any number will do.
  generalize 1074 = places at hplaces hvalue ⊢
  refine nearest_congr (by positivity) (Nat.pow_pos (by decide)) ?_
  calc digitsValue (whole ++ fraction) * 2 ^ places * 5 ^ places
      = digits * (10 ^ (zeros + fraction.length - places) * (2 * 5) ^ places) := by
        rw [hvalue, mul_pow]
        ring
    _ = digits * 10 ^ (zeros + fraction.length) := by
        rw [← pow_add, Nat.sub_add_cancel hplaces]
    _ = digits * 10 ^ zeros * 10 ^ fraction.length := by
        rw [pow_add, Nat.mul_assoc]

theorem text_finite (hne : units ≠ 0) : text (.finite negative units) =
    (if negative then "-" else "") ++ (shortest units).text := by
  unfold text
  split
  case h_3 hzero =>
    cases hzero
    exact absurd rfl hne
  case h_4 hfinite =>
    cases hfinite
    rfl
  all_goals contradiction

theorem ofPlain?_text (hsharp : IsSharp units) (hlimit : units < limit) (hne : units ≠ 0)
    (hpositional : (shortest units).IsPositional) :
    ofPlain? (text (.finite negative units)) = some (.finite negative units) := by
  obtain ⟨digits, zeros, hshortest, hdigits, hreads⟩ := exists_shortest hsharp hne
  rw [hshortest] at hpositional
  obtain ⟨whole, fraction, hspelled, htext⟩ := Decimal.exists_spelled hpositional
  have hplain := readPlain_spell negative hspelled.whole_ne_nil hspelled.isDigit
  have hnearest : nearest (digits * Nat.pow 10 zeros) (Nat.pow 5 1074) = units := eq_of_beq hreads
  rw [text_finite hne, hshortest, htext, ofPlain?, hplain, Option.map_some,
    hspelled.value_eq hdigits, hspelled.nearest_eq, hnearest, ofUnits, if_pos hlimit]

/-- The magnitude nearest to a power of ten, that of `10 ^ (k - 1074)`. -/
def power (k : Nat) : Nat := nearest (Nat.pow 10 k) (Nat.pow 5 1074)

theorem point_shortest (hsharp : IsSharp units) (hne : units ≠ 0) (k : Nat) :
    ((k : Int) - 1074 < (shortest units).point → power k ≤ units) ∧
      ((shortest units).point ≤ (k : Int) - 1074 → units ≤ power k) := by
  obtain ⟨digits, zeros, hshortest, hdigits, hreads⟩ := exists_shortest hsharp hne
  have hnearest : nearest (digits * 10 ^ zeros) (Nat.pow 5 1074) = units := eq_of_beq hreads
  have hpoint : (shortest units).point =
      (Nat.toDigits 10 digits).length + ((zeros : Int) - 1074) := by
    rw [hshortest]
    rfl
  rw [hpoint, power, ← hnearest]
  constructor
  · intro hk
    refine nearest_mono_left ?_
    calc 10 ^ k ≤ 10 ^ ((Nat.toDigits 10 digits).length - 1 + zeros) :=
          Nat.pow_le_pow_right (by decide) (by omega)
      _ ≤ digits * 10 ^ zeros := by
          rw [pow_add]
          exact Nat.mul_le_mul_right _ (Text.pow_length_toDigits_le hdigits)
  · intro hk
    refine nearest_mono_left ?_
    calc digits * 10 ^ zeros ≤ 10 ^ (Nat.toDigits 10 digits).length * 10 ^ zeros :=
          Nat.mul_le_mul_right _ (Text.lt_pow_length_toDigits digits).le
      _ ≤ 10 ^ k := by
          rw [← pow_add]
          exact Nat.pow_le_pow_right (by decide) (by omega)

theorem lt_point_iff (hsharp : IsSharp units) (hne : units ≠ 0) {k : Nat}
    (hpower : (k : Int) - 1074 < (shortest (power k)).point) :
    (k : Int) - 1074 < (shortest units).point ↔ power k ≤ units := by
  obtain ⟨hbelow, habove⟩ := point_shortest hsharp hne k
  refine ⟨hbelow, fun hle => ?_⟩
  -- One place fewer only leaves the power itself, and that has the digit.
  by_contra hpoint
  have hunits : power k = units := hle.antisymm (habove (Int.not_lt.1 hpoint))
  exact hpoint (hunits ▸ hpower)

def millionth : Nat := nearest one (Nat.pow 10 6)

def sextillion : Nat := Nat.pow 10 21 * one

theorem sextillion_pos : 0 < sextillion := Nat.mul_pos (Nat.pow_pos (by decide)) one_pos

theorem power_millionth : power 1068 = millionth := by decide +kernel

theorem power_sextillion : power 1095 = sextillion := by decide +kernel

theorem least_lt_point_iff (hsharp : IsSharp units) (hne : units ≠ 0) :
    layout.least < (shortest units).point ↔ millionth ≤ units := by
  have hpower : ((1068 : Nat) : Int) - 1074 < (shortest (power 1068)).point := by decide +kernel
  rw [← power_millionth]
  exact lt_point_iff hsharp hne hpower

theorem greatest_lt_point_iff (hsharp : IsSharp units) (hne : units ≠ 0) :
    layout.greatest < (shortest units).point ↔ sextillion ≤ units := by
  have hpower : ((1095 : Nat) : Int) - 1074 < (shortest (power 1095)).point := by decide +kernel
  rw [← power_sextillion]
  exact lt_point_iff hsharp hne hpower

theorem isPositional_iff (hsharp : IsSharp units) (hne : units ≠ 0) :
    (shortest units).IsPositional ↔ millionth ≤ units ∧ units < sextillion := by
  rw [Decimal.IsPositional, least_lt_point_iff hsharp hne, ← Int.not_lt,
    greatest_lt_point_iff hsharp hne, Nat.not_le]

/-- The magnitudes that are written without an exponent. -/
def IsMidsize (units : Nat) : Prop := units = 0 ∨ millionth ≤ units ∧ units < sextillion

theorem exists_ofPlain?_text (negative : Bool) (hsharp : IsSharp units) (hlimit : units < limit)
    (h : IsMidsize units) : ∃ p, ofPlain? (text (.finite negative units)) = some p ∧
      ∀ m : Number, m.compare? p = m.compare? (.finite negative units) := by
  by_cases hzero : units = 0
  · subst hzero
    have hread : ofPlain? "0" = some (.finite false 0) := by decide +kernel
    refine ⟨.finite false 0, hread, fun m => ?_⟩
    cases m with
    | finite a k => cases negative <;> rfl
    | infinite a => rfl
    | nan => rfl
  · have hpositional := (isPositional_iff hsharp hzero).2 (h.resolve_left hzero)
    exact ⟨_, ofPlain?_text hsharp hlimit hzero hpositional, fun m => rfl⟩

theorem Decimal.exists_exponential (h : ¬ d.IsPositional) : ∃ mantissa : List Char,
    (∀ c ∈ mantissa, c.isDigit = true ∨ c = '.') ∧
      d.text = String.ofList mantissa ++ exponentText (d.point - 1) := by
  have hpoint : d.point = (Nat.toDigits 10 d.digits).length + d.exponent := rfl
  have hleast : layout.least = -6 := rfl
  have hgreatest : layout.greatest = 21 := rfl
  have hdigit : ∀ c ∈ Nat.toDigits 10 d.digits, c.isDigit = true ∨ c = '.' := fun c hc =>
    .inl (Text.isDigit_of_mem_toDigits hc)
  have hlength : 0 < (Nat.toDigits 10 d.digits).length := Nat.length_toDigits_pos
  unfold IsPositional at h
  unfold text
  simp only [← hpoint]
  rw [if_neg (by omega), if_neg (by omega), if_neg (by omega)]
  generalize Nat.toDigits 10 d.digits = s at hdigit hlength
  cases s with
  | nil => exact absurd hlength (Nat.lt_irrefl 0)
  | cons first rest =>
    cases rest with
    | nil => exact ⟨[first], hdigit, rfl⟩
    | cons second rest =>
      refine ⟨first :: '.' :: second :: rest, fun c hc => ?_, rfl⟩
      obtain rfl | rfl | hc := by simpa only [List.mem_cons] using hc
      · exact hdigit c (by simp)
      · exact .inr rfl
      · exact hdigit c (by simp [hc])

theorem toList_exponentText (e : Int) : (exponentText e).toList =
    'e' :: (if e < 0 then '-' else '+') :: Nat.toDigits 10 e.natAbs := by
  rw [exponentText, String.toList_append]
  split <;> simp [Nat.toString_eq_repr, Nat.toList_repr]

theorem exists_text_exponential (negative : Bool) (hne : units ≠ 0)
    (h : ¬ (shortest units).IsPositional) :
    ∃ mantissa : List Char, (∀ c ∈ mantissa, c.isDigit = true ∨ c = '.') ∧
      (text (.finite negative units)).toList = (if negative then ['-'] else []) ++ mantissa ++
        'e' :: (if (shortest units).point ≤ 0 then '-' else '+') ::
          Nat.toDigits 10 ((shortest units).point - 1).natAbs := by
  obtain ⟨mantissa, hmantissa, htext⟩ := Decimal.exists_exponential h
  refine ⟨mantissa, hmantissa, ?_⟩
  rw [text_finite hne, htext, String.toList_append, String.toList_append, toList_exponentText]
  have hsign : (shortest units).point - 1 < 0 ↔ (shortest units).point ≤ 0 := by omega
  simp only [hsign, String.toList_ofList]
  cases negative <;> simp

end Rulebook.Number
