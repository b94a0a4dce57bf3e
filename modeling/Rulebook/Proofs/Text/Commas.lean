import Mathlib.Data.List.DropRight
import Rulebook.Text.Commas

/-! Loose texts that are strings, and values kept as one text: splitting at commas undoes joining
with them as far as the values themselves have no commas. -/

namespace Rulebook

theorem trim_trim {α : Type} (q : α → Bool) (s : List α) :
    ((((s.dropWhile q).rdropWhile q).dropWhile q).rdropWhile q) =
      (s.dropWhile q).rdropWhile q := by
  have hprefix := List.rdropWhile_prefix q (s.dropWhile q)
  have hhead : ((s.dropWhile q).rdropWhile q).dropWhile q = (s.dropWhile q).rdropWhile q := by
    rw [List.dropWhile_eq_self_iff]
    intro hlen hq
    have hpos : 0 < (s.dropWhile q).length := Nat.lt_of_lt_of_le hlen hprefix.length_le
    refine List.dropWhile_get_zero_not q s hpos ?_
    rwa [List.get_eq_getElem, ← hprefix.getElem hlen]
  rw [hhead, List.rdropWhile_idempotent]

/-- A text is trimmed alike however its characters are kept, as long as the same ones are blanks. -/
theorem trim_map {α β : Type} (f : α → β) {p : α → Bool} {q : β → Bool} (h : q ∘ f = p)
    (s : List α) : (((s.map f).dropWhile q).reverse.dropWhile q).reverse =
      ((s.dropWhile p).reverse.dropWhile p).reverse.map f := by
  rw [List.dropWhile_map, h, ← List.map_reverse, List.dropWhile_map, h, List.map_reverse]

namespace LooseText

theorem charsOf?_eq_some {g : List Glyph} {s : List Char} :
    charsOf? g = some s ↔ g = s.map .char := by
  constructor
  · intro h
    induction g generalizing s with
    | nil =>
      cases h
      rfl
    | cons c g ih =>
      cases c with
      | half u => cases h
      | char c =>
        obtain ⟨t, ht, rfl⟩ := Option.map_eq_some_iff.1 h
        rw [ih ht, List.map_cons]
  · rintro rfl
    exact charsOf?_map_char s

theorem string?_eq_some {t : LooseText} {s : String} : t.string? = some s ↔ t = ofString s := by
  constructor
  · intro h
    obtain ⟨l, hl, rfl⟩ := Option.map_eq_some_iff.1 h
    obtain ⟨g⟩ := t
    have hg : g = l.map .char := charsOf?_eq_some.1 hl
    rw [hg]
    simp [ofString]
  · rintro rfl
    exact string?_ofString s

theorem ofString_shown_iff {t : LooseText} : ofString t.shown = t ↔ ∀ u, .half u ∉ t.glyphs := by
  have hshown : (ofString t.shown).glyphs = t.glyphs.map (.char ∘ Glyph.shown) := by
    simp [ofString, shown]
  constructor
  · intro h u hu
    rw [← h, hshown, List.mem_map] at hu
    obtain ⟨g, -, hg⟩ := hu
    cases hg
  · intro h
    have hsame : t.glyphs.map (.char ∘ Glyph.shown) = t.glyphs.map id :=
      List.map_congr_left fun g hg => by
        cases g with
        | char c => rfl
        | half u => exact absurd hg (h u)
    exact congrArg mk (hshown.trans (hsame.trans (List.map_id _)))

theorem trimmed_trimmed (t : LooseText) : t.trimmed.trimmed = t.trimmed :=
  congrArg mk (trim_trim Glyph.isBlank t.glyphs)

theorem trimmed_ofString (s : String) : (ofString s).trimmed = ofString (Text.trimmed s) := by
  have hblank : Glyph.isBlank ∘ Glyph.char = Text.isBlank := rfl
  rw [ofString, trimmed, trim_map Glyph.char hblank, ofString, Text.trimmed, String.toList_ofList]
  rfl

/-- Halves are shown as U+FFFD, which is no blank, so nothing else is trimmed from what is shown. -/
theorem shown_trimmed (t : LooseText) : t.trimmed.shown = Text.trimmed t.shown := by
  have hblank : Text.isBlank ∘ Glyph.shown = Glyph.isBlank := by
    funext g
    cases g with
    | char c => rfl
    | half u => exact (by decide : Text.isBlank Text.replacement = false)
  rw [shown, trimmed, ← trim_map Glyph.shown hblank, shown, Text.trimmed, String.toList_ofList]
  rfl

theorem not_mem_of_mem_splitOn {α : Type} [BEq α] [LawfulBEq α] {a : α} {s t : List α}
    (h : t ∈ s.splitOn a) : a ∉ t := by
  induction s generalizing t with
  | nil =>
    rw [List.splitOn_nil, List.mem_singleton] at h
    rw [h]
    exact List.not_mem_nil
  | cons b s ih =>
    rw [List.splitOn_cons_eq_if_modifyHead] at h
    split at h
    case isTrue =>
      rcases List.mem_cons.1 h with rfl | h
      · simp
      · exact ih h
    case isFalse hb =>
      obtain ⟨u, us, hu⟩ := List.exists_cons_of_ne_nil (List.splitOn_ne_nil a s)
      rw [hu, List.modifyHead_cons] at h
      rcases List.mem_cons.1 h with rfl | h
      · have hau : a ∉ u := ih (by simp [hu])
        rw [List.mem_cons, not_or]
        exact ⟨fun he => hb (by simp [he]), hau⟩
      · exact ih (by simp [hu, h])

theorem commaParts_ne_nil (t : LooseText) : t.commaParts ≠ [] := by simp [commaParts]

theorem commaMembers_ne_nil (t : LooseText) : t.commaMembers ≠ [] := by
  simp [commaMembers, commaParts_ne_nil]

theorem commaParts_of_not_mem {t : LooseText} (h : .char ',' ∉ t.glyphs) : t.commaParts = [t] := by
  rw [commaParts, List.splitOn_eq_singleton h]
  rfl

theorem commaParts_joined {ts : List LooseText} (h : ts ≠ []) :
    (joined (ofString ",") ts).commaParts = ts.flatMap commaParts := by
  induction ts with
  | nil => exact absurd rfl h
  | cons t ts ih =>
    cases ts with
    | nil => simp [joined]
    | cons u us =>
      have hsplit : (joined (ofString ",") (t :: u :: us)).glyphs =
          t.glyphs ++ .char ',' :: (joined (ofString ",") (u :: us)).glyphs := by
        simp [joined, ofString]
      rw [commaParts, hsplit, List.splitOn_append_cons_self, List.map_append, List.flatMap_cons,
        ← ih (by simp)]
      rfl

theorem commaMembers_joined {ts : List LooseText} (h : ts ≠ []) :
    (joined (ofString ",") ts).commaMembers = ts.flatMap commaMembers := by
  rw [commaMembers, commaParts_joined h, List.map_flatMap]
  rfl

theorem of_mem_commaMembers {t u : LooseText} (h : u ∈ t.commaMembers) :
    u.trimmed = u ∧ .char ',' ∉ u.glyphs := by
  obtain ⟨v, hv, rfl⟩ := List.mem_map.1 h
  obtain ⟨g, hg, rfl⟩ := List.mem_map.1 hv
  refine ⟨trimmed_trimmed _, fun hm => not_mem_of_mem_splitOn hg ?_⟩
  have hend := (List.rdropWhile_prefix Glyph.isBlank _).subset hm
  exact (List.dropWhile_suffix Glyph.isBlank).subset hend

theorem commaMembers_of_not_mem {t : LooseText} (h : .char ',' ∉ t.glyphs) :
    t.commaMembers = [t.trimmed] := by
  rw [commaMembers, commaParts_of_not_mem h, List.map_singleton]

theorem commaMembers_commaMembers (t : LooseText) :
    (joined (ofString ",") t.commaMembers).commaMembers = t.commaMembers := by
  have hmember : ∀ u ∈ t.commaMembers, u.commaMembers = [u] := by
    intro u hu
    obtain ⟨htrim, hcomma⟩ := of_mem_commaMembers hu
    rw [commaMembers_of_not_mem hcomma, htrim]
  rw [commaMembers_joined (commaMembers_ne_nil t), List.flatMap_congr hmember,
    List.flatMap_singleton']

theorem joined_ofString (ss : List String) :
    joined (ofString ",") (ss.map ofString) = ofString (Text.joinCommas ss) := by
  induction ss with
  | nil => rfl
  | cons s ss ih =>
    cases ss with
    | nil => simp [joined, Text.joinCommas]
    | cons t ss =>
      rw [List.map_cons, List.map_cons, joined, ← List.map_cons, ih]
      simp [Text.joinCommas, ofString_append]
      simp

end LooseText

end Rulebook
