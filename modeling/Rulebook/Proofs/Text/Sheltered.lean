import Rulebook.Proofs.Text.Runs

/-! Texts that are read token by token without an order mark being dropped in front of a token: those
that have none, and those in which every mark stands inside quotes or behind another blank. -/

namespace Rulebook.Text

/-- Quotes come in pairs, and the last character is no blank. -/
def Closed (t : List Char) : Prop := t.count '\'' % 2 = 0 ∧ t.getLast?.any isBlank = false

instance (t : List Char) : Decidable (Closed t) := inferInstanceAs (Decidable (_ ∧ _))

theorem closed_of_forall {t : List Char} (h : ∀ c ∈ t, c ≠ '\'' ∧ isBlank c = false) : Closed t := by
  have hquote : '\'' ∉ t := fun hm => (h _ hm).1 rfl
  refine ⟨by rw [List.count_eq_zero_of_not_mem hquote], ?_⟩
  cases hlast : t.getLast? with
  | none => rfl
  | some c => exact (h c (List.mem_of_getLast? hlast)).2

theorem closed_quoted {u : List Char} (hu : '\'' ∉ u) : Closed ('\'' :: (u ++ ['\''])) := by
  constructor
  · simp [List.count_append, List.count_eq_zero_of_not_mem hu]
  · rw [← List.cons_append, List.getLast?_concat]
    decide

/-- A kind of text that begins with no order mark, and is kept behind tokens and behind runs of
blanks. -/
class Legible (kind : List Char → Prop) : Prop where
  dropMark_eq {s : List Char} (h : kind s) : dropMark s = s
  behind {t rest : List Char} (h : kind (t ++ rest)) (ht : Closed t) : kind rest
  behind_blanks {t rest : List Char} (h : kind (t ++ rest)) (ht : ∀ c ∈ t, isBlank c = true)
    (hr : Stops isBlank rest) : kind rest

instance : Legible (orderMark ∉ ·) where
  dropMark_eq := dropMark_of_not_mem
  behind h _ hm := h (List.mem_append_right _ hm)
  behind_blanks h _ _ hm := h (List.mem_append_right _ hm)

/-- In front of every order mark there is a blank, or an odd number of quotes. -/
def Sheltered (s : List Char) : Prop :=
  ∀ i < s.length, s[i]? = some orderMark →
    (s.take i).count '\'' % 2 = 1 ∨ (s.take i).getLast?.any isBlank = true

instance (s : List Char) : Decidable (Sheltered s) := inferInstanceAs (Decidable (∀ _ < _, _))

namespace Sheltered

variable {s t rest : List Char}

theorem iff_append : Sheltered s ↔ ∀ u v, s = u ++ orderMark :: v →
    u.count '\'' % 2 = 1 ∨ u.getLast?.any isBlank = true := by
  constructor
  · rintro h u v rfl
    simpa using h u.length (by simp)
  · intro h i hi hmark
    refine h (s.take i) (s.drop (i + 1)) ?_
    have hget : s[i] = orderMark := by simpa [hi] using hmark
    rw [← hget, List.getElem_cons_drop, List.take_append_drop]

theorem dropMark_eq (h : Sheltered s) : dropMark s = s := by
  cases s with
  | nil => rfl
  | cons c s =>
    rw [dropMark, if_neg]
    rintro rfl
    simpa using iff_append.1 h [] s rfl

theorem of_append (h : Sheltered (t ++ rest)) (heven : t.count '\'' % 2 = 0)
    (hstart : ∀ v, rest ≠ orderMark :: v) : Sheltered rest := by
  refine iff_append.2 fun u v huv => ?_
  have hshelter := iff_append.1 h (t ++ u) v (by rw [huv, List.append_assoc])
  have hne : u ≠ [] := by
    rintro rfl
    exact hstart v huv
  rw [List.getLast?_append, List.getLast?_eq_some_getLast hne, Option.some_or,
    ← List.getLast?_eq_some_getLast hne, List.count_append] at hshelter
  exact hshelter.imp_left fun hodd => by omega

end Sheltered

instance : Legible Sheltered where
  dropMark_eq := Sheltered.dropMark_eq
  behind {t rest} h ht := by
    refine h.of_append ht.1 fun v hv => ?_
    obtain hodd | hblank := Sheltered.iff_append.1 h t v (by rw [hv])
    · have heven := ht.1
      omega
    · rw [ht.2] at hblank
      cases hblank
  behind_blanks {t rest} h ht hr := by
    have hquote : '\'' ∉ t := fun hm => absurd (ht _ hm) (by decide)
    refine h.of_append (by rw [List.count_eq_zero_of_not_mem hquote]) ?_
    rintro v rfl
    exact absurd (stops_cons.1 hr) (by decide)

end Rulebook.Text
