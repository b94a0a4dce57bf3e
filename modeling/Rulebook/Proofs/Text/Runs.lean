import Mathlib.Data.List.TakeWhile
import Rulebook.Text.Blank
import Rulebook.Text.Cursor

/-! Longest runs of characters of a class, and the texts behind which they end. -/

namespace Rulebook.Text

def Stops (q : Char → Bool) (s : List Char) : Prop := ∀ c ∈ s.head?, q c = false

variable {q r : Char → Bool} {s t : List Char}

@[simp] theorem stops_nil : Stops q [] := by simp [Stops]

@[simp] theorem stops_cons {c : Char} : Stops q (c :: s) ↔ q c = false := by simp [Stops]

theorem Stops.append (hs : Stops q s) (hne : s ≠ []) : Stops q (s ++ t) := by
  obtain ⟨c, s, rfl⟩ := List.exists_cons_of_ne_nil hne
  simpa using hs

theorem Stops.mono (h : Stops q s) (hqr : ∀ c, q c = false → r c = false) : Stops r s :=
  fun c hc => hqr c (h c hc)

theorem Stops.prepend (hs : ∀ c ∈ s, q c = false) (ht : Stops q t) : Stops q (s ++ t) := by
  cases s with
  | nil => exact ht
  | cons c s => simpa using hs c (by simp)

theorem stops_word {w : String} {a : Char} {u : List Char} (hw : w.toList = a :: u)
    (ha : q a = false) : Stops q (w.toList ++ s) := by
  rw [hw]
  exact stops_cons.2 ha

theorem takeWhile_of_stops (ht : Stops q t) : t.takeWhile q = [] := by
  cases t with
  | nil => rfl
  | cons c t => simp [stops_cons.1 ht]

theorem dropWhile_of_stops (ht : Stops q t) : t.dropWhile q = t := by
  cases t with
  | nil => rfl
  | cons c t => simp [stops_cons.1 ht]

theorem takeWhile_append (hs : ∀ c ∈ s, q c = true) (ht : Stops q t) :
    (s ++ t).takeWhile q = s := by
  rw [List.takeWhile_append_of_pos hs, takeWhile_of_stops ht, List.append_nil]

theorem dropWhile_append (hs : ∀ c ∈ s, q c = true) (ht : Stops q t) :
    (s ++ t).dropWhile q = t := by
  rw [List.dropWhile_append_of_pos hs, dropWhile_of_stops ht]

theorem stops_dropWhile (s : List Char) : Stops q (s.dropWhile q) := by
  induction s with
  | nil => simp
  | cons c s ih =>
    by_cases hc : q c = true
    · simpa [hc] using ih
    · simp [hc]

theorem runs_inj {s' t' : List Char} (hs : ∀ c ∈ s, q c = true) (ht : Stops q t)
    (hs' : ∀ c ∈ s', q c = true) (ht' : Stops q t') (h : s ++ t = s' ++ t') :
    s = s' ∧ t = t' := by
  have htake := congrArg (List.takeWhile q) h
  have hdrop := congrArg (List.dropWhile q) h
  rw [takeWhile_append hs ht, takeWhile_append hs' ht'] at htake
  rw [dropWhile_append hs ht, dropWhile_append hs' ht'] at hdrop
  exact ⟨htake, hdrop⟩

theorem dropMark_of_stops (h : Stops isBlank s) : dropMark s = s := by
  cases s with
  | nil => rfl
  | cons c s =>
    have hc : c ≠ orderMark := by
      rintro rfl
      exact absurd (stops_cons.1 h) (by decide)
    simp [dropMark, hc]

theorem dropMark_of_not_mem (h : orderMark ∉ s) : dropMark s = s := by
  cases s with
  | nil => rfl
  | cons c s => simp_all [dropMark, eq_comm]

theorem trim_append {lead core trail : List Char} (hl : ∀ c ∈ lead, isBlank c = true)
    (ht : ∀ c ∈ trail, isBlank c = true) (hne : core ≠ []) (hb : Stops isBlank core)
    (he : Stops isBlank core.reverse) : trim (lead ++ core ++ trail) = core := by
  have hstart : trimStart (lead ++ core ++ trail) = core ++ trail := by
    rw [trimStart, List.append_assoc]
    exact dropWhile_append hl (hb.append hne)
  rw [trim, hstart, trimEnd, List.reverse_append, dropWhile_append (by simpa using ht) he,
    List.reverse_reverse]

theorem exists_blanks (s : List Char) :
    ∃ lead trail : List Char, s = lead ++ trim s ++ trail ∧
      (∀ c ∈ lead, isBlank c = true) ∧ ∀ c ∈ trail, isBlank c = true := by
  refine ⟨leadingBlanks s, ((trimStart s).reverse.takeWhile isBlank).reverse, ?_,
    fun c hc => List.mem_takeWhile_imp hc, fun c hc => ?_⟩
  · rw [List.append_assoc, trim, trimEnd, ← List.reverse_append, List.takeWhile_append_dropWhile,
      List.reverse_reverse, leadingBlanks_append_trimStart]
  · exact List.mem_takeWhile_imp (List.mem_reverse.1 hc)

theorem mem_of_mem_trim {c : Char} {s : List Char} (h : c ∈ trim s) : c ∈ s := by
  obtain ⟨lead, trail, hs, -⟩ := exists_blanks s
  rw [hs]
  simp [h]

structure Sealed (s : List Char) : Prop where
  nonempty : s ≠ []
  head : Stops isBlank s
  last : Stops isBlank s.reverse

theorem Sealed.trim_eq (h : Sealed s) : trim s = s := by
  have hnone : ∀ c ∈ ([] : List Char), isBlank c = true := by simp
  simpa using trim_append hnone hnone h.nonempty h.head h.last

theorem Sealed.around (hs : Sealed s) (between : List Char) (ht : Sealed t) :
    Sealed (s ++ between ++ t) where
  nonempty := by simp [hs.nonempty]
  head := by
    rw [List.append_assoc]
    exact hs.head.append hs.nonempty
  last := by
    rw [List.reverse_append]
    exact ht.last.append (by simpa using ht.nonempty)

end Rulebook.Text
