import Rulebook.Expr.Grammar
import Rulebook.Proofs.Expr.Readers

/-! The places where readers stop. What holds of a place, and is kept when a reader goes over what
it sees there, holds of every place behind it, and a reader that fails points to such a place. -/

namespace Rulebook.Text.Cursor

variable {c : Cursor} {n : Nat} {l t rest : List Char}

theorem skip_size (n : Nat) (torn : List UInt8) (rest : List Char)
    (h : n ≤ torn.length + byteCount rest) :
    (skip n torn rest).1.length + byteCount (skip n torn rest).2 + n =
      torn.length + byteCount rest := by
  fun_induction skip n torn rest with
  | case1 torn rest => rfl
  | case2 rest n b torn ih =>
    rw [List.length_cons] at h ⊢
    have := ih (by omega)
    omega
  | case3 n => simp at h
  | case4 n d rest hd ih =>
    simp only [List.length_nil, byteCount_cons] at h ih ⊢
    have := ih (by omega)
    omega
  | case5 n d rest hd =>
    simp only [List.length_drop, String.length_utf8EncodeChar, List.length_nil, byteCount_cons]
    omega

theorem remaining_advance (h : n ≤ c.remaining) : (c.advance n).remaining + n = c.remaining :=
  skip_size n c.torn c.rest h

theorem decode?_size {torn : List UInt8} (h : decode? n torn rest = some l) :
    n ≤ torn.length + byteCount rest := by
  fun_induction decode? n torn rest generalizing l with
  | case1 => exact Nat.zero_le _
  | case2 rest n b torn ih =>
    obtain ⟨u, hu, -⟩ := Option.map_eq_some_iff.1 h
    have := ih hu
    rw [List.length_cons]
    omega
  | case3 => cases h
  | case4 n d rest hd ih =>
    obtain ⟨u, hu, -⟩ := Option.map_eq_some_iff.1 h
    have := ih hu
    rw [byteCount_cons]
    omega
  | case5 n d rest hd =>
    rw [byteCount_cons]
    omega

theorem le_remaining_of_peek? (h : c.peek? n = some l) : n ≤ c.remaining := by
  obtain ⟨u, hu, -⟩ := Option.map_eq_some_iff.1 h
  exact decode?_size hu

theorem byteCount_dropMark_le (s : List Char) : byteCount (dropMark s) ≤ byteCount s := by
  cases s with
  | nil => exact Nat.le_refl _
  | cons d s =>
    rw [dropMark]
    split
    · exact Nat.le_add_left _ _
    · exact Nat.le_refl _

theorem le_remaining_of_view (h : c.view = t ++ rest) (ht : t.head? ≠ some replacement) :
    byteCount t ≤ c.remaining := by
  obtain ⟨offset, torn, s⟩ := c
  cases torn with
  | cons b torn =>
    cases t with
    | nil => exact Nat.zero_le _
    | cons d t =>
      have hd : replacement = d := (List.cons.inj h).1
      exact absurd (congrArg some hd.symm) ht
  | nil =>
    have hle := byteCount_dropMark_le s
    have hview : dropMark s = t ++ rest := h
    rw [hview, byteCount_append] at hle
    exact Nat.le_trans (Nat.le_trans (Nat.le_add_right _ _) hle) (Nat.le_add_left _ _)

end Rulebook.Text.Cursor

namespace Rulebook.Expr
open Text

theorem Pattern.Matches.head?_ne {p : Pattern} {t : List Char} (h : p.Matches t) :
    t.head? ≠ some replacement := by
  cases p with
  | quotedLiteral =>
    obtain ⟨u, -, rfl⟩ := h
    exact fun he => absurd (Option.some.inj he) (by decide)
  | bareLiteral =>
    exact fun he => absurd (h.2 _ (List.mem_of_mem_head? he)) (by decide)
  | name =>
    obtain ⟨c, u, rfl, hc, -⟩ := h
    rintro ⟨⟩
    exact absurd hc (by decide)

theorem head?_leadingBlanks_ne (s : List Char) : (leadingBlanks s).head? ≠ some replacement := by
  intro h
  have hblank : isBlank replacement = true := List.mem_takeWhile_imp (List.mem_of_mem_head? h)
  exact absurd hblank (by decide)

namespace Reader

variable {α β : Type} {p q : Reader α} {I : Cursor → Prop}

/-- The property holds of the place where a reader has stopped: behind what it took, or where it
failed. -/
def StopsAt (I : Cursor → Prop) : Except Failure (α × Cursor) → Prop
  | .ok r => I r.2
  | .error f => ∃ d, I d ∧ f.offset = d.offset

def Keeps (I : Cursor → Prop) (p : Reader α) : Prop := ∀ c, I c → StopsAt I (p c)

theorem stopsAt_error {c : Cursor} {e : Expected} (h : I c) :
    StopsAt I (.error ⟨c.offset, e⟩ : Except Failure (α × Cursor)) := ⟨c, h, rfl⟩

namespace Keeps

theorem pure (v : α) : Keeps I (Pure.pure v) := fun _ hc => hc

theorem bind {f : α → Reader β} (hp : Keeps I p) (hf : ∀ v, Keeps I (f v)) :
    Keeps I (p >>= f) := by
  intro c hc
  have hstop := hp c hc
  cases hr : p c with
  | error e =>
    rw [hr] at hstop
    rw [bind_error hr]
    exact hstop
  | ok r =>
    rw [hr] at hstop
    rw [bind_ok hr]
    exact hf r.1 r.2 hstop

theorem map (g : α → β) (hp : Keeps I p) : Keeps I (g <$> p) := by
  intro c hc
  have hstop := hp c hc
  change StopsAt I (p c >>= fun r => Pure.pure (g r.1, r.2))
  cases hr : p c with
  | error e => rwa [hr] at hstop
  | ok r => rwa [hr] at hstop

theorem either (hp : Keeps I p) (hq : Keeps I q) : Keeps I (either p q) := by
  intro c hc
  have hfirst := hp c hc
  have hsecond := hq c hc
  rw [Reader.either]
  split
  case h_1 r hr => rwa [hr] at hfirst
  case h_2 e he =>
    rw [he] at hfirst
    split
    case h_1 r hr => rwa [hr] at hsecond
    case h_2 f hf =>
      rw [hf] at hsecond
      rw [Failure.furthest]
      split
      · exact hsecond
      · exact hfirst

theorem manyUpTo (hp : Keeps I p) (n : Nat) : Keeps I (manyUpTo n p) := by
  induction n with
  | zero => exact fun _ hc => hc
  | succ n ih =>
    intro c hc
    have hstop := hp c hc
    rw [Reader.manyUpTo]
    split
    case h_1 => exact hc
    case h_2 v c' hv =>
      rw [hv] at hstop
      exact (ih.bind fun vs => .pure (v :: vs)) c' hstop

theorem many (hp : Keeps I p) : Keeps I (many p) := fun c hc => hp.manyUpTo _ c hc

end Keeps

/-- What holds of a place holds behind a text that is seen there, and behind bytes that are read
there as some text. -/
structure IsKept (I : Cursor → Prop) : Prop where
  seen {c : Cursor} {t rest : List Char} (h : I c) (hview : c.view = t ++ rest)
    (ht : t.head? ≠ some replacement) : I (c.advance (Cursor.byteCount t))
  peeked {c : Cursor} {n : Nat} {l : List Char} (h : I c) (hpeek : c.peek? n = some l)
    (hl : replacement ∉ l) : I (c.advance n)

theorem keeps_ending : Keeps I ending := by
  intro c hc
  rw [ending]
  split
  · exact hc
  · exact stopsAt_error hc

section Single

variable (hI : IsKept I)
include hI

theorem keeps_pattern (p : Pattern) : Keeps I (pattern p) := by
  intro c hc
  rw [pattern]
  split
  case h_1 => exact stopsAt_error hc
  case h_2 =>
    split
    case h_1 token htoken =>
      obtain ⟨hmatches, rest, hview⟩ := Pattern.of_match? htoken
      exact hI.seen hc hview hmatches.head?_ne
    case h_2 => exact stopsAt_error hc

theorem keeps_word {w : String} (hw : replacement ∉ w.toList) : Keeps I (word w) := by
  intro c hc
  simp only [word]
  split
  case h_1 => exact stopsAt_error hc
  case h_2 found hpeek =>
    split
    case isTrue hfound => exact hI.peeked hc hpeek (hfound ▸ hw)
    case isFalse => exact stopsAt_error hc

theorem keeps_mark {m : Char} (hm : m ≠ replacement) : Keeps I (mark m) := by
  intro c hc
  simp only [mark]
  split
  case h_1 => exact stopsAt_error hc
  case h_2 n hn =>
    split
    case h_1 => exact stopsAt_error hc
    case h_2 found hpeek =>
      split
      case isTrue hfound => exact hI.peeked hc hpeek (by simpa [hfound] using hm.symm)
      case isFalse => exact stopsAt_error hc

theorem keeps_blanks : Keeps I blanks := fun c hc =>
  hI.seen hc (leadingBlanks_append_trimStart c.view).symm (head?_leadingBlanks_ne c.view)

theorem keeps_someBlanks : Keeps I someBlanks := by
  intro c hc
  rw [someBlanks]
  split
  case h_1 => exact stopsAt_error hc
  case h_2 => exact keeps_blanks hI c hc

end Single

end Reader

open Reader

section Grammar

variable {I : Cursor → Prop} (hI : IsKept I)
include hI

theorem keeps_literal : Keeps I literal :=
  .either ((keeps_pattern hI _).bind fun _ => .pure _) ((keeps_pattern hI _).bind fun _ => .pure _)

theorem keeps_fieldName : Keeps I fieldName := (keeps_pattern hI _).bind fun _ => .pure _

theorem keeps_sign (op : Comparator) : Keeps I (sign op) :=
  (keeps_word hI (by cases op <;> decide)).bind fun _ => .pure _

theorem keeps_comparator : Keeps I comparator :=
  .either (keeps_sign hI _)
    (.either (keeps_sign hI _) (.either (keeps_sign hI _) (keeps_sign hI _)))

theorem keeps_keyword (op : Connective) {w : String} (hw : replacement ∉ w.toList) :
    Keeps I (keyword op w) :=
  (keeps_word hI hw).bind fun _ => .pure _

theorem keeps_connective : Keeps I connective :=
  .either (.either (keeps_keyword hI _ (by decide)) (keeps_keyword hI _ (by decide)))
    (.either (keeps_keyword hI _ (by decide)) (keeps_keyword hI _ (by decide)))

theorem keeps_nextMember : Keeps I nextMember :=
  (keeps_blanks hI).bind fun _ => (keeps_mark hI (by decide)).bind fun _ =>
    (keeps_blanks hI).bind fun _ => (keeps_literal hI).bind fun _ => .pure _

theorem keeps_members : Keeps I members :=
  (keeps_mark hI (by decide)).bind fun _ => (keeps_blanks hI).bind fun _ =>
    (keeps_literal hI).bind fun _ => (keeps_nextMember hI).many.bind fun _ =>
      (keeps_blanks hI).bind fun _ => (keeps_mark hI (by decide)).bind fun _ => .pure _

theorem keeps_containsOpening : Keeps I containsOpening :=
  (keeps_word hI (by decide)).bind fun _ => (keeps_blanks hI).bind fun _ =>
    (keeps_mark hI (by decide)).bind fun _ => (keeps_blanks hI).bind fun _ => .pure _

theorem keeps_containsClosing : Keeps I containsClosing :=
  (keeps_blanks hI).bind fun _ => (keeps_mark hI (by decide)).bind fun _ => .pure _

theorem keeps_argument : Keeps I argument :=
  .either ((keeps_members hI).map _) ((keeps_literal hI).map _)

theorem keeps_fieldContains : Keeps I fieldContains :=
  (keeps_fieldName hI).bind fun _ => (keeps_containsOpening hI).bind fun _ =>
    (keeps_argument hI).bind fun _ => (keeps_containsClosing hI).bind fun _ => .pure _

theorem keeps_membersContain : Keeps I membersContain :=
  (keeps_members hI).bind fun _ => (keeps_containsOpening hI).bind fun _ =>
    (keeps_fieldName hI).bind fun _ => (keeps_containsClosing hI).bind fun _ => .pure _

theorem keeps_comparison : Keeps I comparison :=
  (keeps_fieldName hI).bind fun _ => (keeps_blanks hI).bind fun _ =>
    (keeps_comparator hI).bind fun _ => (keeps_blanks hI).bind fun _ =>
      (keeps_literal hI).bind fun _ => .pure _

theorem keeps_predicate : Keeps I predicate :=
  (keeps_fieldContains hI).either ((keeps_membersContain hI).either (keeps_comparison hI))

theorem keeps_link : Keeps I link :=
  (keeps_someBlanks hI).bind fun _ => (keeps_connective hI).bind fun _ =>
    (keeps_someBlanks hI).bind fun _ => (keeps_predicate hI).bind fun _ => .pure _

theorem keeps_condition : Keeps I condition :=
  (keeps_predicate hI).bind fun _ => (keeps_link hI).many.bind fun _ => .pure _

theorem keeps_conditional : Keeps I conditional :=
  (keeps_condition hI).bind fun _ => (keeps_blanks hI).bind fun _ =>
    (keeps_mark hI (by decide)).bind fun _ => (keeps_blanks hI).bind fun _ =>
      (keeps_literal hI).bind fun _ => (keeps_blanks hI).bind fun _ =>
        (keeps_mark hI (by decide)).bind fun _ => (keeps_blanks hI).bind fun _ =>
          (keeps_literal hI).bind fun _ => keeps_ending.bind fun _ => .pure _

end Grammar

end Rulebook.Expr
