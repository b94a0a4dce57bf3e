import Rulebook.Proofs.Expr.Form
import Rulebook.Proofs.Expr.Reading

/-! What the single readers take: a token, a word, a character, a gap, and the end of the text. -/

namespace Rulebook.Text.Cursor

theorem decode?_append (s t : List Char) : decode? (byteCount s) [] (s ++ t) = some s := by
  induction s with
  | nil => cases t <;> simp [decode?]
  | cons c s ih =>
    have hc : 0 < c.utf8Size := c.utf8Size_pos
    obtain ⟨k, hk⟩ : ∃ k, c.utf8Size + byteCount s = k + 1 :=
      ⟨c.utf8Size + byteCount s - 1, by omega⟩
    rw [byteCount_cons, List.cons_append, hk, decode?, if_pos (by omega)]
    rw [show k + 1 - c.utf8Size = byteCount s by omega, ih]
    rfl

theorem of_decode? {n : Nat} {s l : List Char} (h : decode? n [] s = some l)
    (hl : replacement ∉ l) : byteCount l = n ∧ ∃ rest, s = l ++ rest := by
  induction s generalizing n l with
  | nil =>
    cases n with
    | zero => simp_all [decode?]
    | succ n => simp [decode?] at h
  | cons c s ih =>
    cases n with
    | zero => simp_all [decode?]
    | succ n =>
      rw [decode?] at h
      split at h
      case isTrue hc =>
        obtain ⟨u, hu, rfl⟩ := Option.map_eq_some_iff.1 h
        obtain ⟨hsize, rest, rfl⟩ := ih hu fun hm => hl (List.mem_cons_of_mem _ hm)
        refine ⟨?_, rest, rfl⟩
        rw [byteCount_cons]
        omega
      case isFalse =>
        cases h
        simp at hl

theorem head_decode? {n : Nat} {c : Char} {s l : List Char}
    (h : decode? (n + 1) [] (c :: s) = some l) :
    ∃ d u, l = d :: u ∧ (d = c ∨ d = replacement) := by
  rw [decode?] at h
  split at h
  case isTrue =>
    obtain ⟨u, -, rfl⟩ := Option.map_eq_some_iff.1 h
    exact ⟨c, u, rfl, .inl rfl⟩
  case isFalse =>
    cases h
    exact ⟨_, [], rfl, .inr rfl⟩

theorem dropMark_decode? {n : Nat} {s l : List Char} (hs : dropMark s = s)
    (h : decode? n [] s = some l) : dropMark l = l := by
  cases n with
  | zero =>
    cases s <;> cases (by simpa [decode?] using h.symm : l = []) <;> rfl
  | succ n =>
    cases s with
    | nil => simp [decode?] at h
    | cons c s =>
      have hc : c ≠ orderMark := by
        rintro rfl
        simp [dropMark] at hs
      obtain ⟨d, u, rfl, rfl | rfl⟩ := head_decode? h
      · rw [dropMark, if_neg hc]
      · rw [dropMark, if_neg (by decide)]

theorem byteCount_eq_length {s : List Char} (h : ∀ c ∈ s, c.utf8Size = 1) :
    byteCount s = s.length := by
  induction s with
  | nil => rfl
  | cons c s ih =>
    simp [h c (by simp), ih fun d hd => h d (by simp [hd]), Nat.add_comm]

end Rulebook.Text.Cursor

namespace Rulebook.Expr.Reader
open Text

variable {s rest : List Char} {kind : List Char → Prop} [Legible kind]

theorem view_of_dropMark (n : Nat) (h : dropMark s = s) : (⟨n, [], s⟩ : Cursor).view = s := h

theorem view_of_stops (n : Nat) (h : Stops isBlank s) : (⟨n, [], s⟩ : Cursor).view = s :=
  dropMark_of_stops h

theorem consume_append (n : Nat) (t : String) (rest : List Char) :
    consume t.toList ⟨n, [], t.toList ++ rest⟩ =
      .ok (t, ⟨n + Cursor.byteCount t.toList, [], rest⟩) := by
  simp [consume, Cursor.advance_append]

section Pattern

variable {p : Pattern} {t : String}

theorem reads_pattern (ht : p.Matches t.toList) (he : p.Ends rest) :
    Reads (pattern p) (t.toList ++ rest) rest t := by
  refine .of_append fun n => ?_
  have hstops : Stops isBlank (t.toList ++ rest) := ht.stops.append ht.nonempty
  have hmatch := Pattern.match?_append ht he
  obtain ⟨c, u, hcu⟩ := List.exists_cons_of_ne_nil ht.nonempty
  rw [pattern, view_of_stops n hstops]
  split
  case h_1 h => simp [hcu] at h
  case h_2 => rw [hmatch]; exact consume_append n t rest

theorem fails_pattern (hs : Stops isBlank s) (h : p.match? s = none) : Fails (pattern p) s := by
  intro n
  rw [pattern, view_of_stops n hs]
  split
  case h_1 => exact ⟨_, rfl⟩
  case h_2 => rw [h]; exact ⟨_, rfl⟩

theorem of_pattern {n : Nat} {c : Cursor} (hs : dropMark s = s)
    (h : pattern p ⟨n, [], s⟩ = .ok (t, c)) :
    p.Matches t.toList ∧
      ∃ rest, s = t.toList ++ rest ∧ c = ⟨n + Cursor.byteCount t.toList, [], rest⟩ := by
  rw [pattern, view_of_dropMark n hs] at h
  split at h
  case h_1 => cases h
  case h_2 =>
    split at h
    case h_1 token htoken =>
      obtain ⟨hmatches, rest, rfl⟩ := Pattern.of_match? htoken
      cases h
      refine ⟨by simpa using hmatches, rest, by simp, ?_⟩
      simp [Cursor.advance_append]
    case h_2 => cases h

theorem yields_pattern (p : Pattern) :
    YieldsFor kind (pattern p) (fun t : { t : String // p.Matches t.toList } => t.1) (·.1) := by
  intro n s v c hs h
  obtain ⟨hmatches, rest, rfl, rfl⟩ := of_pattern (Legible.dropMark_eq hs) h
  exact ⟨v, rest, rfl, rfl, Legible.behind hs hmatches.closed, ⟨v, hmatches⟩, rfl, rfl⟩

end Pattern

section Word

variable {w : String}

theorem reads_word (hw : ∀ c ∈ w.toList, c.utf8Size = 1)
    (hs : ∀ s, Stops isBlank (w.toList ++ s)) (rest : List Char) :
    Reads (word w) (w.toList ++ rest) rest w := by
  refine .of_append fun n => ?_
  have hpeek : (⟨n, [], w.toList ++ rest⟩ : Cursor).peek? (Cursor.byteCount w.toList) =
      some w.toList := by
    have hstops : Stops isBlank w.toList := by simpa using hs []
    rw [Cursor.peek?, Cursor.decode?_append, Option.map_some, dropMark_of_stops hstops]
  simp only [word, ← Cursor.byteCount_eq_length hw, hpeek, if_true, Cursor.advance_append]

theorem fails_word {a : Char} {u : List Char} (hw : w.toList = a :: u) (ha : a ≠ replacement)
    (hs : Stops (fun c => c == a || c == orderMark) s) : Fails (word w) s := by
  intro n
  simp only [word]
  split
  case h_1 => exact ⟨_, rfl⟩
  case h_2 found hpeek =>
    have hne : found ≠ w.toList := by
      rintro rfl
      rw [Cursor.peek?, hw, List.length_cons] at hpeek
      obtain ⟨l, hl, hdrop⟩ := Option.map_eq_some_iff.1 hpeek
      cases s with
      | nil => simp [Cursor.decode?] at hl
      | cons c s =>
        have hc : c ≠ a ∧ c ≠ orderMark := by simpa using hs
        obtain ⟨d, v, rfl, hd⟩ := Cursor.head_decode? hl
        have hmark : d ≠ orderMark := by
          rcases hd with rfl | rfl
          · exact hc.2
          · decide
        rw [dropMark, if_neg hmark] at hdrop
        have hda : d = a := (List.cons.inj hdrop).1
        rcases hd with rfl | rfl
        · exact hc.1 hda
        · exact ha hda.symm
    rw [if_neg hne]
    exact ⟨_, rfl⟩

theorem of_word {n : Nat} {v : String} {c : Cursor} (hw : ∀ c ∈ w.toList, c.utf8Size = 1)
    (hs : dropMark s = s) (h : word w ⟨n, [], s⟩ = .ok (v, c)) :
    v = w ∧ ∃ rest, s = w.toList ++ rest ∧ c = ⟨n + Cursor.byteCount w.toList, [], rest⟩ := by
  have hsize := Cursor.byteCount_eq_length hw
  simp only [word] at h
  split at h
  case h_1 => cases h
  case h_2 found hpeek =>
    split at h
    case isFalse => cases h
    case isTrue hfound =>
      cases h
      rw [hfound, Cursor.peek?] at hpeek
      obtain ⟨l, hl, hdrop⟩ := Option.map_eq_some_iff.1 hpeek
      rw [Cursor.dropMark_decode? hs hl] at hdrop
      subst hdrop
      -- A torn character would show as U+FFFD, which the word does not have.
      have hreplacement : replacement ∉ w.toList := fun hm => by
        have := hw _ hm
        revert this
        decide
      obtain ⟨-, rest, rfl⟩ := Cursor.of_decode? hl hreplacement
      exact ⟨rfl, rest, rfl, by rw [← hsize, Cursor.advance_append]⟩

theorem yields_word (hw : ∀ c ∈ w.toList, c.utf8Size = 1) (hclosed : Closed w.toList) :
    YieldsFor kind (word w) (fun _ : Unit => w) fun _ => w := by
  intro n s v c hs h
  obtain ⟨rfl, rest, rfl, rfl⟩ := of_word hw (Legible.dropMark_eq hs) h
  exact ⟨v, rest, rfl, rfl, Legible.behind hs hclosed, (), rfl, rfl⟩

variable {m : Char}

theorem peek?_width (n : Nat) (d : Char) (s : List Char) :
    (⟨n, [], d :: s⟩ : Cursor).peek? d.utf8Size = some (dropMark [d]) := by
  have h := Cursor.decode?_append [d] s
  simp only [Cursor.byteCount_cons, Cursor.byteCount_nil, Nat.add_zero, List.cons_append,
    List.nil_append] at h
  rw [Cursor.peek?, h]
  rfl

theorem singleton_of_toList {t : String} (ht : t.toList = [m]) : String.singleton m = t := by
  rw [← String.toList_inj, ht, String.toList_singleton]

theorem reads_mark {t : String} (ht : t.toList = [m]) (hm : m ≠ orderMark) (rest : List Char) :
    Reads (mark m) (t.toList ++ rest) rest t := by
  refine .of_append fun n => ?_
  have hdrop : dropMark [m] = [m] := by rw [dropMark, if_neg hm]
  have hadvance := Cursor.advance_append n [m] rest
  simp only [Cursor.byteCount_cons, Cursor.byteCount_nil, Nat.add_zero, List.cons_append,
    List.nil_append] at hadvance
  simp [mark, Cursor.width?, ht, peek?_width, hdrop, hadvance, singleton_of_toList ht]

theorem fails_mark (hs : Stops (· == m) s) : Fails (mark m) s := by
  intro n
  cases s with
  | nil => exact ⟨_, rfl⟩
  | cons d s =>
    have hd : d ≠ m := by simpa using hs
    have hne : dropMark [d] ≠ [m] := by
      rw [dropMark]
      split <;> simp [hd]
    simp only [mark, Cursor.width?, peek?_width, if_neg hne]
    exact ⟨_, rfl⟩

theorem of_mark {t v : String} {n : Nat} {c : Cursor} (ht : t.toList = [m])
    (hs : dropMark s = s) (h : mark m ⟨n, [], s⟩ = .ok (v, c)) :
    v = t ∧ ∃ rest, s = t.toList ++ rest ∧ c = ⟨n + Cursor.byteCount t.toList, [], rest⟩ := by
  cases s with
  | nil => cases h
  | cons d s =>
    have hd : dropMark [d] = [d] := by
      rw [dropMark]
      split
      case isTrue hd =>
        subst hd
        simp [dropMark] at hs
      case isFalse => rfl
    simp only [mark, Cursor.width?, peek?_width, hd] at h
    split at h
    case isFalse => cases h
    case isTrue hd =>
      cases h
      obtain rfl : d = m := by simpa using hd
      have hadvance := Cursor.advance_append n [d] s
      refine ⟨singleton_of_toList ht, s, by simp [ht], ?_⟩
      simpa [ht] using hadvance

theorem yields_mark {t : String} (ht : t.toList = [m]) (hclosed : Closed [m]) :
    YieldsFor kind (mark m) (fun _ : Unit => t) fun _ => t := by
  intro n s v c hs h
  obtain ⟨rfl, rest, rfl, rfl⟩ := of_mark ht (Legible.dropMark_eq hs) h
  exact ⟨v, rest, rfl, rfl, Legible.behind hs (by rwa [ht]), (), rfl, rfl⟩

end Word

section Gaps

theorem leadingBlanks_append (g : Gap) (n : Nat) (hr : Stops isBlank rest) :
    leadingBlanks (⟨n, [], g.text.toList ++ rest⟩ : Cursor).view = g.text.toList := by
  have hview : dropMark (g.text.toList ++ rest) = g.text.toList ++ rest := by
    cases hg : g.text.toList with
    | nil => exact dropMark_of_stops hr
    | cons c u =>
      have hc : c ≠ orderMark := by
        rintro rfl
        exact g.unmarked (by simp [hg])
      simp [dropMark, hc]
  rw [Cursor.view, List.map_nil, List.nil_append, hview, leadingBlanks]
  exact takeWhile_append g.blank hr

theorem reads_blanks (g : Gap) (hr : Stops isBlank rest) :
    Reads blanks (g.text.toList ++ rest) rest g.text := by
  refine .of_append fun n => ?_
  rw [blanks, leadingBlanks_append g n hr]
  exact consume_append n g.text rest

theorem reads_someBlanks (g : Space) (hr : Stops isBlank rest) :
    Reads someBlanks (g.text.toList ++ rest) rest g.text := by
  refine .of_append fun n => ?_
  have h := leadingBlanks_append g.toGap n hr
  rw [someBlanks]
  split
  case h_1 hnil => exact absurd (by simpa using h.symm.trans hnil) g.nonempty
  case h_2 => rw [h]; exact consume_append n g.text rest

theorem fails_someBlanks (hs : Stops isBlank s) : Fails someBlanks s := by
  intro n
  rw [someBlanks, view_of_stops n hs, leadingBlanks, takeWhile_of_stops hs]
  exact ⟨_, rfl⟩

theorem of_blanks {t : String} {n : Nat} {c : Cursor} (hs : dropMark s = s)
    (h : blanks ⟨n, [], s⟩ = .ok (t, c)) :
    t.toList = leadingBlanks s ∧
      c = ⟨n + Cursor.byteCount t.toList, [], trimStart s⟩ := by
  rw [blanks, view_of_dropMark n hs] at h
  cases h
  have hadvance := Cursor.advance_append n (leadingBlanks s) (trimStart s)
  rw [leadingBlanks_append_trimStart] at hadvance
  exact ⟨String.toList_ofList, by rw [String.toList_ofList, hadvance]⟩

theorem of_someBlanks {t : String} {n : Nat} {c : Cursor}
    (h : someBlanks ⟨n, [], s⟩ = .ok (t, c)) :
    t ≠ "" ∧ blanks ⟨n, [], s⟩ = .ok (t, c) := by
  rw [someBlanks] at h
  split at h
  case h_1 => cases h
  case h_2 hne =>
    refine ⟨?_, h⟩
    cases h
    simpa using hne

theorem yieldsFor_blanks : YieldsFor kind blanks (fun b : Blanks => b.text) (·.text) := by
  intro n s v c hs h
  obtain ⟨hv, rfl⟩ := of_blanks (Legible.dropMark_eq hs) h
  have hsplit : s = v.toList ++ trimStart s := by rw [hv, leadingBlanks_append_trimStart]
  have hblank : ∀ c ∈ v.toList, isBlank c = true := fun c hc =>
    List.mem_takeWhile_imp (by rwa [hv] at hc)
  have hrest : kind (trimStart s) :=
    Legible.behind_blanks (hsplit ▸ hs) hblank (stops_dropWhile s)
  exact ⟨v, _, hsplit, rfl, hrest, ⟨v, hblank⟩, rfl, rfl⟩

theorem yields_blanks : Yields blanks (fun g : Gap => g.text) (·.text) := by
  intro n s v c hs h
  obtain ⟨t, rest, rfl, hc, hrest, b, rfl, rfl⟩ :=
    (yieldsFor_blanks : Yields blanks (fun b : Blanks => b.text) (·.text)) n s v c hs h
  exact ⟨b.text, rest, rfl, hc, hrest, ⟨b, fun hm => hs (List.mem_append_left _ hm)⟩, rfl, rfl⟩

theorem yieldsFor_someBlanks :
    YieldsFor kind someBlanks (fun b : Blanks => b.text) (·.text) := by
  intro n s v c hs h
  obtain ⟨-, hblanks⟩ := of_someBlanks h
  exact yieldsFor_blanks n s v c hs hblanks

theorem yields_someBlanks : Yields someBlanks (fun g : Space => g.text) (·.text) := by
  intro n s v c hs h
  obtain ⟨hne, hblanks⟩ := of_someBlanks h
  obtain ⟨t, rest, hsplit, hc, hrest, g, rfl, rfl⟩ := yields_blanks n s v c hs hblanks
  exact ⟨_, rest, hsplit, hc, hrest, ⟨g, hne⟩, rfl, rfl⟩

end Gaps

theorem reads_ending : Reads ending [] [] () := fun n => ⟨n, rfl, rfl⟩

theorem nextByte?_cons (n : Nat) (c : Char) (s : List Char) :
    ∃ b, (⟨n, [], c :: s⟩ : Cursor).nextByte? = some b := by
  cases h : String.utf8EncodeChar c with
  | nil =>
    have := String.length_utf8EncodeChar c
    have := c.utf8Size_pos
    simp_all
  | cons b u => exact ⟨b, by simp [Cursor.nextByte?, h]⟩

theorem fails_ending (hs : s ≠ []) : Fails ending s := by
  intro n
  obtain ⟨c, u, rfl⟩ := List.exists_cons_of_ne_nil hs
  obtain ⟨b, hb⟩ := nextByte?_cons n c u
  simp only [ending, hb]
  exact ⟨_, rfl⟩

theorem sound_ending {kind : List Char → Prop} :
    SoundFor kind ending fun _ t rest => t = "" ∧ rest = [] := by
  intro n s v c hs h
  cases s with
  | nil =>
    cases h
    exact ⟨"", [], rfl, rfl, hs, rfl, rfl⟩
  | cons d u =>
    obtain ⟨b, hb⟩ := nextByte?_cons n d u
    simp only [ending, hb] at h
    cases h

end Rulebook.Expr.Reader
