import Rulebook.Expr.Token
import Rulebook.Proofs.Text.Sheltered

/-! The classes of tokens as predicates, and the longest beginning of a text that belongs to one. -/

namespace Rulebook.Expr
open Text

theorem isBlank_of_isBare {c : Char} (h : isBare c = true) : isBlank c = false := by
  have hc : c.toNat < 0x80 ∧ 0x2D ≤ c.toNat := by
    unfold isBare Char.isAlphanum Char.isAlpha Char.isUpper Char.isLower Char.isDigit at h
    simp only [Bool.or_eq_true, Bool.and_eq_true, decide_eq_true_eq, beq_iff_eq, ge_iff_le,
      UInt32.le_iff_toNat_le] at h
    simp only [Char.toNat]
    rcases h with ((((h | h) | h) | rfl) | rfl) | rfl
    all_goals simp at * <;> omega
  simp only [isBlank, Bool.or_eq_false_iff, Bool.and_eq_false_iff, decide_eq_false_iff_not,
    beq_eq_false_iff_ne]
  omega

theorem isBare_of_isNameRest {c : Char} (h : isNameRest c = true) : isBare c = true := by
  simp_all [isNameRest, isBare]

theorem isBare_of_isNameStart {c : Char} (h : isNameStart c = true) : isBare c = true :=
  isBare_of_isNameRest (isNameRest_of_isNameStart h)

theorem isBare_of_isBlank {c : Char} (h : isBlank c = true) : isBare c = false := by
  cases hb : isBare c with
  | false => rfl
  | true => simp [isBlank_of_isBare hb] at h

theorem stops_isNameRest {s : List Char} (h : Stops isBare s) : Stops isNameRest s := by
  refine h.mono fun c hc => ?_
  cases hn : isNameRest c with
  | false => rfl
  | true => simp [isBare_of_isNameRest hn] at hc

namespace Pattern

def Matches : Pattern → List Char → Prop
  | .quotedLiteral, t => ∃ u, '\'' ∉ u ∧ t = '\'' :: (u ++ ['\''])
  | .bareLiteral, t => t ≠ [] ∧ ∀ c ∈ t, isBare c = true
  | .name, t => ∃ c u, t = c :: u ∧ isNameStart c = true ∧ ∀ d ∈ u, isNameRest d = true

def Ends : Pattern → List Char → Prop
  | .quotedLiteral, _ => True
  | .bareLiteral, rest => Stops isBare rest
  | .name, rest => Stops isNameRest rest

variable {p : Pattern} {t rest : List Char}

theorem Matches.nonempty (h : p.Matches t) : t ≠ [] := by
  cases p with
  | quotedLiteral => obtain ⟨u, -, rfl⟩ := h; simp
  | bareLiteral => exact h.1
  | name => obtain ⟨c, u, rfl, -⟩ := h; simp

theorem Matches.stops (h : p.Matches t) : Stops isBlank t := by
  cases p with
  | quotedLiteral => obtain ⟨u, -, rfl⟩ := h; simp; decide
  | bareLiteral =>
    obtain ⟨c, u, rfl⟩ := List.exists_cons_of_ne_nil h.1
    simpa using isBlank_of_isBare (h.2 c (by simp))
  | name =>
    obtain ⟨c, u, rfl, hc, -⟩ := h
    simpa using isBlank_of_isBare (isBare_of_isNameStart hc)

theorem Matches.closed (h : p.Matches t) : Closed t := by
  have hbare (s : List Char) (hs : ∀ c ∈ s, isBare c = true) : Closed s :=
    closed_of_forall fun c hc => ⟨by rintro rfl; exact absurd (hs _ hc) (by decide),
      isBlank_of_isBare (hs c hc)⟩
  cases p with
  | quotedLiteral => obtain ⟨u, hu, rfl⟩ := h; exact closed_quoted hu
  | bareLiteral => exact hbare t h.2
  | name =>
    obtain ⟨c, u, rfl, hc, hu⟩ := h
    refine hbare _ fun d hd => ?_
    obtain rfl | hd := List.mem_cons.1 hd
    · exact isBare_of_isNameStart hc
    · exact isBare_of_isNameRest (hu d hd)

theorem match?_append (ht : p.Matches t) (he : p.Ends rest) : p.match? (t ++ rest) = some t := by
  cases p with
  | quotedLiteral =>
    obtain ⟨u, hu, rfl⟩ := ht
    have hrun : ∀ c ∈ u, (c != '\'') = true := by
      intro c hc
      simpa using ne_of_mem_of_not_mem hc hu
    have hstop : Stops (· != '\'') ('\'' :: rest) := by simp
    have hd := dropWhile_append hrun hstop
    have htake := takeWhile_append hrun hstop
    simp [match?, hd, htake]
  | bareLiteral =>
    obtain ⟨hne, hb⟩ := ht
    have htake := takeWhile_append hb he
    cases t with
    | nil => exact absurd rfl hne
    | cons c t => simp only [match?, htake]
  | name =>
    obtain ⟨c, u, rfl, hc, hu⟩ := ht
    simp [match?, hc, takeWhile_append hu he]

theorem of_match? {s : List Char} (h : p.match? s = some t) :
    p.Matches t ∧ ∃ rest, s = t ++ rest := by
  cases p with
  | quotedLiteral =>
    match s with
    | [] => simp [match?] at h
    | c :: s =>
      by_cases hc : c = '\''
      · subst hc
        have hsplit := List.takeWhile_append_dropWhile (p := (· != '\'')) (l := s)
        have hstop := stops_dropWhile (q := (· != '\'')) s
        simp only [match?] at h
        cases hd : s.dropWhile (· != '\'') with
        | nil => simp [hd] at h
        | cons d rest =>
          rw [hd] at h hsplit hstop
          have hd' : d = '\'' := by simpa using hstop
          subst hd'
          simp only [Option.some.injEq] at h
          refine ⟨⟨_, ?_, by simpa using h.symm⟩, rest, ?_⟩
          · intro hm
            simpa using List.mem_takeWhile_imp hm
          · rw [← h]
            simp [hsplit]
      · simp [match?, hc] at h
  | bareLiteral =>
    simp only [match?] at h
    have hsplit := List.takeWhile_append_dropWhile (p := isBare) (l := s)
    have hbare : ∀ c ∈ s.takeWhile isBare, isBare c = true := fun c hc =>
      List.mem_takeWhile_imp hc
    cases htake : s.takeWhile isBare with
    | nil => simp [htake] at h
    | cons c u =>
      simp only [htake, Option.some.injEq] at h
      subst h
      rw [htake] at hsplit hbare
      exact ⟨⟨by simp, hbare⟩, _, hsplit.symm⟩
  | name =>
    cases s with
    | nil => simp [match?] at h
    | cons c s =>
      simp only [match?] at h
      split at h
      case isTrue hc =>
        simp only [Option.some.injEq] at h
        subst h
        refine ⟨⟨c, _, rfl, hc, fun d hd => List.mem_takeWhile_imp hd⟩, s.dropWhile isNameRest, ?_⟩
        simp
      case isFalse => simp at h

end Pattern

theorem isName_iff {s : String} : isName s = true ↔ Pattern.name.Matches s.toList := by
  rw [isName, Pattern.Matches]
  cases s.toList with
  | nil => simp
  | cons c u =>
    constructor
    · intro h
      rw [Bool.and_eq_true, List.all_eq_true] at h
      exact ⟨c, u, rfl, h⟩
    · rintro ⟨_, _, hcu, h⟩
      cases hcu
      rwa [Bool.and_eq_true, List.all_eq_true]

end Rulebook.Expr
