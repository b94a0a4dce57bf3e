import Rulebook.Filter.Sql
import Rulebook.Proofs.Text.Runs

/-! The lexemes of SQL conditions: names between double quotes, in which a quote is written twice,
words, and question marks, parentheses and commas. Blanks only part them. -/

namespace Rulebook.Sql
open Text

inductive Lexeme where
  | name (n : String)
  | sign (op : FilterOp)
  | joint (c : Connective)
  | digit (one : Bool)
  | mark
  | opening
  | closing
  | comma
  deriving DecidableEq, Repr

namespace Lexeme

def ofWord? : String → Option Lexeme
  | "=" => some (.sign .equal)
  | "!=" => some (.sign .notEqual)
  | ">" => some (.sign .greater)
  | "<" => some (.sign .less)
  | "LIKE" => some (.sign .like)
  | "IN" => some (.sign .isIn)
  | "AND" => some (.joint .and)
  | "OR" => some (.joint .or)
  | "0" => some (.digit false)
  | "1" => some (.digit true)
  | _ => none

def ofChar? : Char → Option Lexeme
  | '?' => some .mark
  | '(' => some .opening
  | ')' => some .closing
  | ',' => some .comma
  | _ => none

end Lexeme

/-- The characters of words are those that neither part lexemes nor are one. -/
def isWord (c : Char) : Bool := c ≠ ' ' && c ≠ '"' && (Lexeme.ofChar? c).isNone

/-- Where a scan stands: between two lexemes, in a word, in a name, or behind a quote that ends a
name unless another quote follows. -/
inductive Place where
  | between
  | word (w : List Char)
  | name (n : List Char)
  | quote (n : List Char)
  deriving DecidableEq, Repr

namespace Place

def next? : Place → Char → Option Place
  | .between, _ => none
  | .word w, c => if isWord c then some (.word (w ++ [c])) else none
  | .name n, c => some (if c = '"' then .quote n else .name (n ++ [c]))
  | .quote n, c => if c = '"' then some (.name (n ++ [c])) else none

/-- The lexeme that ends at the place, if one was begun. A name does not end without a quote, and
not every word is a lexeme. -/
def ended? : Place → Option (List Lexeme)
  | .between => some []
  | .word w => (Lexeme.ofWord? (String.ofList w)).map ([·])
  | .name _ => none
  | .quote n => some [.name (String.ofList n)]

def enter (c : Char) : List Lexeme × Place :=
  if c = ' ' then ([], .between)
  else if c = '"' then ([], .name [])
  else
    match Lexeme.ofChar? c with
    | some l => ([l], .between)
    | none => ([], .word [c])

end Place

def scan : Place → List Char → Option (List Lexeme)
  | p, [] => p.ended?
  | p, c :: s =>
    match p.next? c with
    | some q => scan q s
    | none =>
      p.ended?.bind fun ended =>
        (scan (Place.enter c).2 s).map (ended ++ (Place.enter c).1 ++ ·)

def lexemes (sql : String) : Option (List Lexeme) := scan .between sql.toList

example : lexemes "(\"a\"\"?\" IN (?, ?)) OR (1 = 0)" =
    some [.opening, .name "a\"?", .sign .isIn, .opening, .mark, .comma, .mark, .closing, .closing,
      .joint .or, .opening, .digit true, .sign .equal, .digit false, .closing] := by decide

@[simp] theorem isWord_blank : isWord ' ' = false := rfl

@[simp] theorem isWord_closing : isWord ')' = false := rfl

section Scan

variable {s rest : List Char}

theorem scan_next {p q : Place} {c : Char} (h : p.next? c = some q) :
    scan p (c :: s) = scan q s := by rw [scan, h]

theorem scan_between (c : Char) (s : List Char) :
    scan .between (c :: s) =
      (scan (Place.enter c).2 s).map ((Place.enter c).1 ++ ·) := by
  simp [scan, Place.next?, Place.ended?]

theorem scan_blank : scan .between (' ' :: s) = scan .between s := by
  simp [scan_between, Place.enter]

theorem scan_char {c : Char} {l : Lexeme} (h : Lexeme.ofChar? c = some l) :
    scan .between (c :: s) = (scan .between s).map (l :: ·) := by
  have hblank : c ≠ ' ' := by rintro rfl; cases h
  have hquote : c ≠ '"' := by rintro rfl; cases h
  simp [scan_between, Place.enter, hblank, hquote, h]

theorem scan_within {u w : List Char} (hw : ∀ c ∈ w, isWord c = true) :
    scan (.word u) (w ++ rest) = scan (.word (u ++ w)) rest := by
  induction w generalizing u with
  | nil => simp
  | cons c w ih =>
    have hc : isWord c = true := hw c (by simp)
    have hnext : (Place.word u).next? c = some (.word (u ++ [c])) := by simp [Place.next?, hc]
    rw [List.cons_append, scan_next hnext, ih fun d hd => hw d (by simp [hd])]
    simp

theorem scan_behind {w : List Char} {l : Lexeme} (h : Lexeme.ofWord? (String.ofList w) = some l)
    (hrest : Stops isWord rest) :
    scan (.word w) rest = (scan .between rest).map (l :: ·) := by
  cases rest with
  | nil => simp [scan, Place.ended?, h]
  | cons c rest =>
    have hc : isWord c = false := stops_cons.1 hrest
    simp [scan, Place.next?, Place.ended?, hc, h, Function.comp_def]

theorem scan_word {w : String} {l : Lexeme} (h : Lexeme.ofWord? w = some l)
    (hw : w.toList ≠ [] ∧ w.toList.all isWord = true) (hrest : Stops isWord rest) :
    scan .between (w.toList ++ rest) = (scan .between rest).map (l :: ·) := by
  obtain ⟨c, u, hcu⟩ := List.exists_cons_of_ne_nil hw.1
  have hall := List.all_eq_true.1 hw.2
  rw [hcu] at hall
  have hc : isWord c = true := hall c (by simp)
  have henter : Place.enter c = ([], .word [c]) := by
    simp only [isWord, Bool.and_eq_true, decide_eq_true_eq, Option.isNone_iff_eq_none] at hc
    simp [Place.enter, hc]
  have hend : Lexeme.ofWord? (String.ofList (c :: u)) = some l := by simpa [← hcu] using h
  rw [hcu, List.cons_append, scan_between, henter, scan_within fun d hd => hall d (by simp [hd]),
    List.singleton_append, scan_behind hend hrest]
  simp [Function.comp_def]

theorem scan_within_name {u n : List Char} (hrest : Stops (· == '"') rest) :
    scan (.name u) (n.flatMap (fun c => if c = '"' then ['"', '"'] else [c]) ++ '"' :: rest) =
      (scan .between rest).map (.name (String.ofList (u ++ n)) :: ·) := by
  induction n generalizing u with
  | nil =>
    cases rest with
    | nil => simp [scan, Place.next?, Place.ended?]
    | cons c rest =>
      have hc : c ≠ '"' := by simpa using hrest
      simp [scan, Place.next?, Place.ended?, hc, Function.comp_def]
  | cons c n ih =>
    by_cases hc : c = '"'
    · simp [scan, Place.next?, hc, ih]
    · simp [scan, Place.next?, hc, ih]

theorem scan_quotedName (n : String) (hrest : Stops (· == '"') rest) :
    scan .between ((Filter.quotedName n).toList ++ rest) =
      (scan .between rest).map (.name n :: ·) := by
  have hname := scan_within_name (u := []) (n := n.toList) hrest
  have htext : (Filter.quotedName n).toList ++ rest =
      '"' :: (n.toList.flatMap (fun c => if c = '"' then ['"', '"'] else [c]) ++ '"' :: rest) := by
    simp [Filter.quotedName]
  have henter : Place.enter '"' = ([], .name []) := rfl
  rw [htext, scan_between, henter, hname]
  simp [Function.comp_def]

end Scan

def marksFrom : (quoted : Bool) → List Char → Nat
  | _, [] => 0
  | quoted, c :: s =>
    if c = '"' then marksFrom (!quoted) s
    else if c = '?' ∧ quoted = false then marksFrom quoted s + 1
    else marksFrom quoted s

def marks (sql : String) : Nat := marksFrom false sql.toList

example : marks "\"a?\"\"?\" IN (?, ?)" = 2 := by decide

def Place.quoted : Place → Bool
  | .name _ => true
  | _ => false

theorem Lexeme.ofWord?_ne_mark (w : String) : Lexeme.ofWord? w ≠ some .mark := by
  unfold Lexeme.ofWord?
  split <;> simp

theorem count_mark_ended {p : Place} {ls : List Lexeme} (h : p.ended? = some ls) :
    ls.count .mark = 0 := by
  cases p with
  | between => cases h; rfl
  | name n => cases h
  | quote n => cases h; rfl
  | word w =>
    obtain ⟨l, hl, rfl⟩ := Option.map_eq_some_iff.1 h
    have hmark : l ≠ .mark := by rintro rfl; exact Lexeme.ofWord?_ne_mark _ hl
    simp [hmark]

theorem marksFrom_enter (c : Char) (s : List Char) :
    marksFrom false (c :: s) =
      (Place.enter c).1.count .mark + marksFrom (Place.enter c).2.quoted s := by
  by_cases hquote : c = '"'
  · subst hquote
    simp [marksFrom, Place.enter, Place.quoted]
  · by_cases hmark : c = '?'
    · subst hmark
      simp [marksFrom, Place.enter, Place.quoted, Lexeme.ofChar?, Nat.add_comm]
    · have hchar : ∀ l ∈ Lexeme.ofChar? c, l ≠ .mark := by
        unfold Lexeme.ofChar?
        split <;> simp_all
      by_cases hblank : c = ' '
      · subst hblank
        simp [marksFrom, Place.enter, Place.quoted]
      · cases hl : Lexeme.ofChar? c with
        | none => simp [marksFrom, Place.enter, Place.quoted, hquote, hmark, hblank, hl]
        | some l =>
          simp [marksFrom, Place.enter, Place.quoted, hquote, hmark, hblank, hl, hchar l hl]

theorem marksFrom_next {p q : Place} {c : Char} (h : p.next? c = some q) (s : List Char) :
    marksFrom p.quoted (c :: s) = marksFrom q.quoted s := by
  cases p with
  | between => cases h
  | word w =>
    simp only [Place.next?, Option.ite_none_right_eq_some, Option.some.injEq] at h
    obtain ⟨hc, rfl⟩ := h
    have hquote : c ≠ '"' := by rintro rfl; cases hc
    have hmark : c ≠ '?' := by rintro rfl; cases hc
    simp [marksFrom, Place.quoted, hquote, hmark]
  | name n =>
    cases h
    by_cases hquote : c = '"' <;> simp [marksFrom, Place.quoted, hquote]
  | quote n =>
    simp only [Place.next?, Option.ite_none_right_eq_some, Option.some.injEq] at h
    obtain ⟨rfl, rfl⟩ := h
    simp [marksFrom, Place.quoted]

theorem quoted_of_next {p : Place} {c : Char} (h : p.next? c = none) : p.quoted = false := by
  cases p with
  | name n => cases h
  | _ => rfl

/-- A question mark outside double quotes is a lexeme, and every other one is part of a name. -/
theorem count_mark_of_scan {p : Place} {s : List Char} {ls : List Lexeme}
    (h : scan p s = some ls) : ls.count .mark = marksFrom p.quoted s := by
  induction s generalizing p ls with
  | nil => rw [count_mark_ended h, marksFrom]
  | cons c s ih =>
    cases hnext : p.next? c with
    | some q =>
      rw [scan_next hnext] at h
      rw [marksFrom_next hnext, ih h]
    | none =>
      rw [scan, hnext] at h
      obtain ⟨ended, hended, hrest⟩ := Option.bind_eq_some_iff.1 h
      obtain ⟨rest, hscan, rfl⟩ := Option.map_eq_some_iff.1 hrest
      rw [quoted_of_next hnext, marksFrom_enter, ← ih hscan, List.count_append,
        List.count_append, count_mark_ended hended, Nat.zero_add]

end Rulebook.Sql
