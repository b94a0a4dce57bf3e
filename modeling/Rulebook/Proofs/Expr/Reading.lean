import Rulebook.Expr.Reader
import Rulebook.Proofs.Expr.Tokens

/-! What readers do at places that are inside no character. `Reads` and `Fails` say what happens in
front of a known text, and `SoundFor` what the text must have been where a reader succeeds. All
three are kept by the ways readers are put together. -/

namespace Rulebook.Expr.Reader
open Text

variable {α β F : Type}

def Reads (p : Reader α) (s rest : List Char) (value : α) : Prop :=
  ∀ n, ∃ k, k + Cursor.byteCount rest = n + Cursor.byteCount s ∧
    p ⟨n, [], s⟩ = .ok (value, ⟨k, [], rest⟩)

theorem Reads.of_append {p : Reader α} {t rest : List Char} {v : α}
    (h : ∀ n, p ⟨n, [], t ++ rest⟩ = .ok (v, ⟨n + Cursor.byteCount t, [], rest⟩)) :
    Reads p (t ++ rest) rest v :=
  fun n => ⟨n + Cursor.byteCount t, by simp [Nat.add_assoc], h n⟩

def Fails (p : Reader α) (s : List Char) : Prop := ∀ n, ∃ f, p ⟨n, [], s⟩ = .error f

/-- In front of a text of the kind, a reader that succeeds has taken the beginning of that text and
left one of the kind, and the value, what it took and what it left are as stated. -/
def SoundFor (kind : List Char → Prop) (p : Reader α) (P : α → String → List Char → Prop) : Prop :=
  ∀ n s v c, kind s → p ⟨n, [], s⟩ = .ok (v, c) →
    ∃ text rest, s = text.toList ++ rest ∧
      c = ⟨n + Cursor.byteCount text.toList, [], rest⟩ ∧ kind rest ∧ P v text rest

def YieldsFor (kind : List Char → Prop) (p : Reader α) (tree : F → α) (text : F → String) : Prop :=
  SoundFor kind p fun v t _ => ∃ f, v = tree f ∧ t = text f

def Sound (p : Reader α) (P : α → String → List Char → Prop) : Prop :=
  SoundFor (orderMark ∉ ·) p P

def Yields (p : Reader α) (tree : F → α) (text : F → String) : Prop :=
  YieldsFor (orderMark ∉ ·) p tree text

section Bind

variable {p : Reader α} {f : α → Reader β} {c c' : Cursor}

theorem bind_ok {v : α} (h : p c = .ok (v, c')) : (p >>= f) c = f v c' := by
  change (p c >>= fun r => f r.1 r.2) = f v c'
  rw [h]
  rfl

theorem bind_error {e : Failure} (h : p c = .error e) : (p >>= f) c = .error e := by
  change (p c >>= fun r => f r.1 r.2) = .error e
  rw [h]
  rfl

theorem of_bind_ok {r : β × Cursor} (h : (p >>= f) c = .ok r) :
    ∃ v c', p c = .ok (v, c') ∧ f v c' = .ok r := by
  cases hp : p c with
  | error e => rw [bind_error hp] at h; cases h
  | ok r' => exact ⟨r'.1, r'.2, rfl, by rwa [bind_ok hp] at h⟩

variable {s s' rest : List Char} {v : α} {w : β}

theorem Reads.bind (hp : Reads p s s' v) (hf : Reads (f v) s' rest w) :
    Reads (p >>= f) s rest w := by
  intro n
  obtain ⟨m, hm, hv⟩ := hp n
  obtain ⟨k, hk, hw⟩ := hf m
  exact ⟨k, hk.trans hm, by rw [bind_ok hv, hw]⟩

theorem Reads.pure {v w : α} (h : v = w) (s : List Char) : Reads (pure v) s s w :=
  fun n => ⟨n, rfl, h ▸ rfl⟩

theorem Reads.bind_pure (g : α → β) (hp : Reads p s rest v) :
    Reads (p >>= fun v => Pure.pure (g v)) s rest (g v) :=
  hp.bind (.pure rfl rest)

theorem Reads.map (g : α → β) (hp : Reads p s rest v) : Reads (g <$> p) s rest (g v) := by
  intro n
  obtain ⟨k, hk, hv⟩ := hp n
  refine ⟨k, hk, ?_⟩
  change (p _ >>= fun r => Pure.pure (g r.1, r.2)) = _
  rw [hv]
  rfl

def LeadsTo (p : Reader α) (s : List Char) (q : Reader α) (rest : List Char) : Prop :=
  ∀ n, ∃ k, k + Cursor.byteCount rest = n + Cursor.byteCount s ∧ p ⟨n, [], s⟩ = q ⟨k, [], rest⟩

theorem Reads.leadsTo (hp : Reads p s rest v) : LeadsTo (p >>= f) s (f v) rest := by
  intro n
  obtain ⟨k, hk, hv⟩ := hp n
  exact ⟨k, hk, bind_ok hv⟩

theorem LeadsTo.trans {p q r : Reader α} (hp : LeadsTo p s q s') (hq : LeadsTo q s' r rest) :
    LeadsTo p s r rest := by
  intro n
  obtain ⟨m, hm, hpq⟩ := hp n
  obtain ⟨k, hk, hqr⟩ := hq m
  exact ⟨k, hk.trans hm, hpq.trans hqr⟩

theorem LeadsTo.reads {p q : Reader α} (h : LeadsTo p s q s') (hq : Reads q s' rest v) :
    Reads p s rest v :=
  LeadsTo.trans (r := Pure.pure v) h hq

theorem LeadsTo.fails {p q : Reader α} (h : LeadsTo p s q rest) (hq : Fails q rest) :
    Fails p s := by
  intro n
  obtain ⟨k, -, hpq⟩ := h n
  obtain ⟨e, he⟩ := hq k
  exact ⟨e, hpq.trans he⟩

theorem Fails.bind (hp : Fails p s) : Fails (p >>= f) s := by
  intro n
  obtain ⟨e, he⟩ := hp n
  exact ⟨e, bind_error he⟩

theorem Fails.map (g : α → β) (hp : Fails p s) : Fails (g <$> p) s := by
  intro n
  obtain ⟨e, he⟩ := hp n
  refine ⟨e, ?_⟩
  change (p _ >>= fun r => Pure.pure (g r.1, r.2)) = _
  rw [he]
  rfl

theorem Reads.bind_fails (hp : Reads p s rest v) (hf : Fails (f v) rest) : Fails (p >>= f) s := by
  intro n
  obtain ⟨k, -, hv⟩ := hp n
  obtain ⟨e, he⟩ := hf k
  exact ⟨e, by rw [bind_ok hv, he]⟩

variable {kind : List Char → Prop}

theorem YieldsFor.bind {tree : F → α} {text : F → String} {Q : β → String → List Char → Prop}
    (hp : YieldsFor kind p tree text)
    (hf : ∀ x, SoundFor kind (f (tree x)) fun w u rest => Q w (text x ++ u) rest) :
    SoundFor kind (p >>= f) Q := by
  intro n s w c hs h
  obtain ⟨v, c', hv, hw⟩ := of_bind_ok h
  obtain ⟨t, rest, rfl, rfl, hrest, x, rfl, rfl⟩ := hp n s v c' hs hv
  obtain ⟨u, rest, rfl, rfl, htail, hQ⟩ := hf x _ _ w c hrest hw
  exact ⟨text x ++ u, rest, by simp, by simp [Nat.add_assoc], htail, hQ⟩

theorem SoundFor.pure {P : α → String → List Char → Prop} (h : ∀ rest, P v "" rest) :
    SoundFor kind (pure v) P := by
  intro n s w c hs hok
  cases hok
  exact ⟨"", s, rfl, rfl, hs, h s⟩

theorem YieldsFor.map {tree : F → α} {text : F → String} (g : α → β)
    (hp : YieldsFor kind p tree text) :
    YieldsFor kind (g <$> p) (fun x => g (tree x)) text := by
  intro n s w c hs hok
  change (p _ >>= fun r => Pure.pure (g r.1, r.2)) = _ at hok
  cases hv : p ⟨n, [], s⟩ with
  | error e => rw [hv] at hok; cases hok
  | ok r =>
    rw [hv] at hok
    cases hok
    obtain ⟨t, rest, rfl, hc, hrest, x, hx, rfl⟩ := hp n s r.1 r.2 hs hv
    exact ⟨text x, rest, rfl, hc, hrest, x, congrArg g hx, rfl⟩

theorem SoundFor.mono {P Q : α → String → List Char → Prop} (hp : SoundFor kind p P)
    (h : ∀ v t rest, P v t rest → Q v t rest) : SoundFor kind p Q := by
  intro n s v c hs hok
  obtain ⟨t, rest, hsplit, hc, hrest, hP⟩ := hp n s v c hs hok
  exact ⟨t, rest, hsplit, hc, hrest, h _ _ _ hP⟩

theorem YieldsFor.of_forms {G : Type} {tree : F → α} {text : F → String} {tree' : G → α}
    {text' : G → String} (hp : YieldsFor kind p tree text)
    (h : ∀ x, ∃ y, tree x = tree' y ∧ text x = text' y) : YieldsFor kind p tree' text' := by
  refine SoundFor.mono hp fun v t rest hv => ?_
  obtain ⟨x, hx, ht⟩ := hv
  obtain ⟨y, hy, hu⟩ := h x
  exact ⟨y, hx.trans hy, ht.trans hu⟩

theorem YieldsFor.fails {tree : F → α} {text : F → String} (hp : YieldsFor kind p tree text)
    (hs : kind s) (h : ∀ x rest, s ≠ (text x).toList ++ rest) : Fails p s := by
  intro n
  cases hr : p ⟨n, [], s⟩ with
  | error e => exact ⟨e, rfl⟩
  | ok r =>
    obtain ⟨t, rest, hsplit, -, -, x, -, rfl⟩ := hp n s r.1 r.2 hs hr
    exact absurd hsplit (h x rest)

end Bind

section Either

variable {p q : Reader α} {s rest : List Char} {v : α}

theorem Reads.either_left (hp : Reads p s rest v) : Reads (either p q) s rest v := by
  intro n
  obtain ⟨k, hk, hv⟩ := hp n
  exact ⟨k, hk, by simp only [either, hv]⟩

theorem Reads.either_right (hp : Fails p s) (hq : Reads q s rest v) :
    Reads (either p q) s rest v := by
  intro n
  obtain ⟨e, he⟩ := hp n
  obtain ⟨k, hk, hv⟩ := hq n
  exact ⟨k, hk, by simp only [either, he, hv]⟩

theorem Fails.either (hp : Fails p s) (hq : Fails q s) : Fails (either p q) s := by
  intro n
  obtain ⟨e, he⟩ := hp n
  obtain ⟨f, hf⟩ := hq n
  exact ⟨e.furthest f, by simp only [Reader.either, he, hf]⟩

theorem SoundFor.either {kind : List Char → Prop} {P : α → String → List Char → Prop}
    (hp : SoundFor kind p P) (hq : SoundFor kind q P) : SoundFor kind (either p q) P := by
  intro n s v c hs h
  simp only [Reader.either] at h
  split at h
  case h_1 r hr =>
    cases h
    exact hp n s v c hs hr
  case h_2 e he =>
    split at h
    case h_1 r hr =>
      cases h
      exact hq n s v c hs hr
    case h_2 => cases h

end Either

section Many

variable {p : Reader α} {tree : F → α} {text : F → String} {kind : List Char → Prop}

theorem YieldsFor.manyUpTo (hp : YieldsFor kind p tree text) (k : Nat) :
    YieldsFor kind (manyUpTo k p) (List.map tree) fun fs => String.join (fs.map text) := by
  induction k with
  | zero =>
    intro n s v c hs h
    cases h
    exact ⟨"", s, rfl, rfl, hs, [], rfl, rfl⟩
  | succ k ih =>
    intro n s vs c hs h
    simp only [Reader.manyUpTo] at h
    split at h
    case h_1 e he =>
      cases h
      exact ⟨"", s, rfl, rfl, hs, [], rfl, rfl⟩
    case h_2 v c' hv =>
      obtain ⟨t, rest, rfl, rfl, hrest, f, rfl, rfl⟩ := hp n s v c' hs hv
      cases hm : Reader.manyUpTo k p ⟨n + Cursor.byteCount (text f).toList, [], rest⟩ with
      | error e => rw [hm] at h; cases h
      | ok r =>
        rw [hm] at h
        cases h
        obtain ⟨u, rest, rfl, hc, htail, fs, hvs, rfl⟩ := ih _ _ r.1 r.2 hrest hm
        refine ⟨text f ++ String.join (fs.map text), rest, by simp, ?_, htail, f :: fs, ?_, by simp⟩
        · simpa [Nat.add_assoc] using hc
        · simp [hvs]

theorem YieldsFor.many (hp : YieldsFor kind p tree text) :
    YieldsFor kind (many p) (List.map tree) fun fs => String.join (fs.map text) :=
  fun n s v c hs h => YieldsFor.manyUpTo hp _ n s v c hs h

variable {ends : F → List Char → Prop}

theorem Reads.manyUpTo (hread : ∀ f s, ends f s → Reads p ((text f).toList ++ s) s (tree f))
    (hnext : ∀ f g s, ends f ((text g).toList ++ s)) {fs : List F} {rest : List Char}
    (hlast : ∀ f ∈ fs.getLast?, ends f rest) (hfail : Fails p rest) {k : Nat}
    (hk : fs.length ≤ k) :
    Reads (manyUpTo k p) ((String.join (fs.map text)).toList ++ rest) rest (fs.map tree) := by
  induction fs generalizing k with
  | nil =>
    intro n
    refine ⟨n, by simp, ?_⟩
    cases k with
    | zero => rfl
    | succ k =>
      obtain ⟨e, he⟩ := hfail n
      simp only [Reader.manyUpTo, List.map_nil, String.join_nil, String.toList_empty,
        List.nil_append, he]
  | cons f fs ih =>
    obtain ⟨k, rfl⟩ : ∃ j, k = j + 1 := ⟨k - 1, by simp at hk; omega⟩
    have hf : ends f ((String.join (fs.map text)).toList ++ rest) := by
      cases fs with
      | nil => simpa using hlast f (by simp)
      | cons g fs => simpa [List.append_assoc] using hnext f g _
    have htail : ∀ g ∈ fs.getLast?, ends g rest := by
      intro g hg
      refine hlast g ?_
      rw [List.getLast?_cons]
      simp_all
    intro n
    obtain ⟨m, hm, hv⟩ := hread f _ hf n
    obtain ⟨j, hj, hvs⟩ := ih htail (by simpa using hk) m
    refine ⟨j, by simpa using hj.trans hm, ?_⟩
    simp only [List.map_cons, String.join_cons, String.toList_append, List.append_assoc,
      Reader.manyUpTo, hv, hvs]
    rfl

theorem length_le_byteCount (hne : ∀ f, text f ≠ "") (fs : List F) :
    fs.length ≤ Cursor.byteCount (String.join (fs.map text)).toList := by
  induction fs with
  | nil => simp
  | cons f fs ih =>
    have hf : 0 < Cursor.byteCount (text f).toList := by
      cases hl : (text f).toList with
      | nil => exact absurd (by simpa using hl) (hne f)
      | cons c s =>
        have := c.utf8Size_pos
        simp only [Cursor.byteCount_cons]
        omega
    simp only [List.map_cons, String.join_cons, String.toList_append, Cursor.byteCount_append,
      List.length_cons]
    omega

theorem Reads.many (hread : ∀ f s, ends f s → Reads p ((text f).toList ++ s) s (tree f))
    (hnext : ∀ f g s, ends f ((text g).toList ++ s)) (hne : ∀ f, text f ≠ "") {fs : List F}
    {rest : List Char} (hlast : ∀ f ∈ fs.getLast?, ends f rest) (hfail : Fails p rest) :
    Reads (many p) ((String.join (fs.map text)).toList ++ rest) rest (fs.map tree) := by
  intro n
  refine Reads.manyUpTo hread hnext hlast hfail ?_ n
  have h := length_le_byteCount hne fs
  simp only [Cursor.remaining, Cursor.byteCount_append]
  omega

end Many

end Rulebook.Expr.Reader
