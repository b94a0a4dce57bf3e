import Rulebook.Predicate.OnEntity
import Rulebook.Proofs.Text.Units

/-! Matching a pattern of `LIKE`. The expression of a pattern has one term for each unit of the
pattern, whatever signs the pattern holds, and it matches just the texts that split along the
pattern. -/

namespace Rulebook

namespace Regex

theorem behindRun_iff {takes : UInt16 → Bool} {holds : Bool → List UInt16 → Bool} {first : Bool}
    {s : List UInt16} :
    behindRun takes holds first s = true ↔ ∃ taken rest, s = taken ++ rest ∧
      (∀ u ∈ taken, takes u = true) ∧ holds (first && taken.isEmpty) rest = true := by
  induction s generalizing first with
  | nil =>
    rw [behindRun]
    constructor
    · exact fun h => ⟨[], [], rfl, by simp, by simpa using h⟩
    · rintro ⟨taken, rest, hs, -, h⟩
      obtain ⟨rfl, rfl⟩ := List.append_eq_nil_iff.1 hs.symm
      simpa using h
  | cons u s ih =>
    rw [behindRun, Bool.or_eq_true, Bool.and_eq_true, ih]
    constructor
    · rintro (h | ⟨hu, taken, rest, rfl, htaken, h⟩)
      · exact ⟨[], u :: s, rfl, by simp, by simpa using h⟩
      · exact ⟨u :: taken, rest, rfl, by simpa [hu] using htaken, by simpa using h⟩
    · rintro ⟨taken, rest, hs, htaken, h⟩
      cases taken with
      | nil =>
        rw [List.nil_append] at hs
        exact .inl (by simpa [hs] using h)
      | cons v taken =>
        obtain ⟨rfl, rfl⟩ := List.cons.inj hs
        exact .inr ⟨htaken u (by simp), taken, rest, rfl, fun v hv => htaken v (by simp [hv]),
          by simpa using h⟩

theorem test_start (p : List Term) (dotAll : Bool) (s : List UInt16) :
    test ⟨.start :: p, dotAll⟩ s = matchesFrom dotAll p true s := by
  rw [Bool.eq_iff_iff, test, behindRun_iff]
  constructor
  · rintro ⟨taken, rest, rfl, -, h⟩
    simp only [matchesFrom, Bool.true_and, Bool.and_eq_true, List.isEmpty_iff] at h
    obtain ⟨rfl, h⟩ := h
    simpa using h
  · exact fun h => ⟨[], s, rfl, by simp, by simpa [matchesFrom] using h⟩

theorem charUnits_of_mem_signs {c : Char} (hc : c ∈ signs) :
    c.toNat < 0xD800 ∧ Text.charUnits c = [UInt16.ofNat c.toNat] := by
  have hall : (signs.all fun d => decide (d.toNat < 0xD800) &&
      Text.charUnits d == [UInt16.ofNat d.toNat]) = true := by decide
  simpa using List.all_eq_true.1 hall c hc

theorem isSign_iff {c : Char} {u : UInt16} (hu : u ∈ Text.charUnits c) :
    isSign u = true ↔ c ∈ signs := by
  rw [isSign, List.contains_iff_mem, Text.units, List.mem_flatMap]
  constructor
  · rintro ⟨d, hd, hud⟩
    obtain ⟨hlt, hunits⟩ := charUnits_of_mem_signs hd
    rw [hunits, List.mem_singleton] at hud
    rw [hud, Text.mem_charUnits hlt] at hu
    rwa [← hu]
  · exact fun hc => ⟨c, hc, hu⟩

theorem lexeme?_plain {u : UInt16} (hu : isSign u = false) :
    lexeme? u = some (.takes (.only u)) := by
  unfold lexeme?
  split
  case h_5 => rw [if_neg (by simp [hu])]
  all_goals exact absurd hu (by decide)

theorem lexemes?_cons {u : UInt16} {x : Lexeme} (hu : lexeme? u = some x) (s : List UInt16) :
    lexemes? (u :: s) = (lexemes? s).map (x :: ·) := by
  rw [lexemes?.eq_def]
  split
  case h_1 h => cases h
  case h_2 h =>
    have hescape : lexeme? 0x5C = none := by decide
    cases h
    rw [hescape] at hu
    cases hu
  case h_3 h =>
    cases h
    rw [hu]
    cases lexemes? s <;> rfl

theorem lexemes?_escape {u : UInt16} (hu : isSign u = true) (s : List UInt16) :
    lexemes? (0x5C :: u :: s) = (lexemes? s).map (.takes (.only u) :: ·) := by
  rw [lexemes?, if_pos hu]

theorem terms?_takes {c : Class} {s : List Lexeme} (hs : s.head? ≠ some .star) :
    terms? (.takes c :: s) = (terms? s).map (.one c :: ·) := by
  cases s with
  | nil => rfl
  | cons x s =>
    cases x with
    | star => simp at hs
    | _ => rfl

end Regex

namespace Like
open Regex Text

def percent : UInt16 := 0x25

def underscore : UInt16 := 0x5F

/-- A text splits along a pattern. A percent sign takes any run of units, an underscore any one
unit, and every other unit itself. -/
inductive Splits : List UInt16 → List UInt16 → Prop
  | nil : Splits [] []
  | run {p s : List UInt16} (taken : List UInt16) (h : Splits p s) :
      Splits (percent :: p) (taken ++ s)
  | one {p s : List UInt16} (u : UInt16) (h : Splits p s) : Splits (underscore :: p) (u :: s)
  | self {p s : List UInt16} {u : UInt16} (hrun : u ≠ percent) (hone : u ≠ underscore)
      (h : Splits p s) : Splits (u :: p) (u :: s)

def lexemesOf (u : UInt16) : List Lexeme :=
  if u = percent then [.takes .any, .star]
  else if u = underscore then [.takes .any]
  else [.takes (.only u)]

def term (u : UInt16) : Term :=
  if u = percent then .run .any else if u = underscore then .one .any else .one (.only u)

theorem lexemesOf_self {c : Char} (hrun : c ≠ '%') (hone : c ≠ '_') {u : UInt16}
    (hu : u ∈ charUnits c) : lexemesOf u = [.takes (.only u)] := by
  have hpercent : u ≠ percent := by
    rintro rfl
    exact hrun ((mem_charUnits (c := '%') (by decide)).1 hu).symm
  have hunderscore : u ≠ underscore := by
    rintro rfl
    exact hone ((mem_charUnits (c := '_') (by decide)).1 hu).symm
  rw [lexemesOf, if_neg hpercent, if_neg hunderscore]

theorem lexemes?_append {l : List UInt16} (hl : ∀ u ∈ l, lexeme? u = some (.takes (.only u)))
    (hself : ∀ u ∈ l, lexemesOf u = [.takes (.only u)]) (s : List UInt16) :
    lexemes? (l ++ s) = (lexemes? s).map (l.flatMap lexemesOf ++ ·) := by
  induction l with
  | nil => simp
  | cons u l ih =>
    rw [List.cons_append, lexemes?_cons (hl u (by simp)), ih (fun v hv => hl v (by simp [hv]))
      (fun v hv => hself v (by simp [hv])), Option.map_map, List.flatMap_cons, hself u (by simp)]
    rfl

theorem escaped_perm_signs : escaped.Perm signs := by decide

/-- Whatever a character is, its units are read as what they stand for in a pattern. -/
theorem lexemes?_spell (c : Char) (s : List UInt16) :
    lexemes? (units (spell c) ++ s) =
      (lexemes? s).map ((charUnits c).flatMap lexemesOf ++ ·) := by
  rw [spell]
  split_ifs with hrun hone hc
  · subst hrun
    change lexemes? (0x2E :: 0x2A :: s) = _
    rw [lexemes?_cons rfl, lexemes?_cons rfl, Option.map_map]
    rfl
  · subst hone
    change lexemes? (0x2E :: s) = _
    rw [lexemes?_cons rfl]
    rfl
  · have hsign : c ∈ signs := escaped_perm_signs.mem_iff.1 hc
    obtain ⟨-, hunits⟩ := charUnits_of_mem_signs hsign
    have hmem : UInt16.ofNat c.toNat ∈ charUnits c := by simp [hunits]
    have hu := (isSign_iff hmem).2 hsign
    have hself := lexemesOf_self hrun hone hmem
    change lexemes? (0x5C :: (units [c] ++ s)) = _
    rw [units, List.flatMap_singleton, hunits, List.singleton_append, lexemes?_escape hu,
      List.flatMap_singleton, hself]
    rfl
  · rw [units, List.flatMap_singleton]
    refine lexemes?_append (fun u hu => lexeme?_plain ?_) (fun u => lexemesOf_self hrun hone) s
    exact Bool.eq_false_iff.2 fun h => hc (escaped_perm_signs.mem_iff.2 ((isSign_iff hu).1 h))

theorem lexemes?_spelled (pattern : List Char) (s : List UInt16) :
    lexemes? (units (pattern.flatMap spell) ++ s) =
      (lexemes? s).map ((units pattern).flatMap lexemesOf ++ ·) := by
  induction pattern with
  | nil => simp
  | cons c pattern ih =>
    rw [List.flatMap_cons, units_append, List.append_assoc, lexemes?_spell, ih, Option.map_map]
    have hunits : units (c :: pattern) = charUnits c ++ units pattern := List.flatMap_cons
    rw [hunits, List.flatMap_append]
    simp only [Function.comp_def, List.append_assoc]

theorem lexemes?_source (pattern : String) :
    lexemes? (units (source pattern)) =
      some (.start :: ((units pattern.toList).flatMap lexemesOf ++ [.finish])) := by
  have hsource : units (source pattern) =
      0x5E :: (units (pattern.toList.flatMap spell) ++ [0x24]) := by
    rw [source, ← List.singleton_append, units_append, units_append]
    rfl
  rw [hsource, lexemes?_cons rfl, lexemes?_spelled]
  rfl

/-- No unit of a pattern is read as a star that would repeat the one in front of it. -/
theorem head?_lexemesOf (p : List UInt16) :
    (p.flatMap lexemesOf ++ [Lexeme.finish]).head? ≠ some .star := by
  cases p with
  | nil => simp
  | cons u p =>
    rw [List.flatMap_cons, lexemesOf]
    split_ifs <;> simp

theorem terms?_lexemesOf (p : List UInt16) :
    terms? (p.flatMap lexemesOf ++ [Lexeme.finish]) = some (p.map term ++ [.finish]) := by
  induction p with
  | nil => rfl
  | cons u p ih =>
    have hhead := head?_lexemesOf p
    rw [List.flatMap_cons, List.map_cons, List.append_assoc, lexemesOf, term]
    split_ifs
    · rw [List.cons_append, List.cons_append, List.nil_append, terms?, ih]
      rfl
    · rw [List.singleton_append, terms?_takes hhead, ih]
      rfl
    · rw [List.singleton_append, terms?_takes hhead, ih]
      rfl

theorem regex?_eq (pattern : String) :
    regex? pattern = some ⟨.start :: ((units pattern.toList).map term ++ [.finish]), true⟩ := by
  rw [regex?, ofSource?, lexemes?_source, Option.bind_some, terms?, terms?_lexemesOf]
  rfl

theorem matchesFrom_iff {p : List UInt16} {first : Bool} {s : List UInt16} :
    matchesFrom true (p.map term ++ [.finish]) first s = true ↔ Splits p s := by
  induction p generalizing first s with
  | nil =>
    simp only [List.map_nil, List.nil_append, matchesFrom, Bool.and_true, List.isEmpty_iff]
    constructor
    · rintro rfl
      exact .nil
    · rintro ⟨⟩
      rfl
  | cons u p ih =>
    rw [List.map_cons, List.cons_append, term]
    split_ifs with hrun hone
    · subst hrun
      rw [matchesFrom, behindRun_iff]
      constructor
      · rintro ⟨taken, rest, rfl, -, h⟩
        exact .run taken (ih.1 h)
      · intro h
        cases h with
        | run taken h => exact ⟨taken, _, rfl, fun _ _ => rfl, ih.2 h⟩
        | self hne => exact absurd rfl hne
    · subst hone
      constructor
      · intro h
        cases s with
        | nil => cases h
        | cons v s => exact .one v (ih.1 (by simpa [matchesFrom, takes] using h))
      · intro h
        cases h with
        | one v h => simpa [matchesFrom, takes] using ih.2 h
        | self _ hne => exact absurd rfl hne
    · constructor
      · intro h
        cases s with
        | nil => cases h
        | cons v s =>
          simp only [matchesFrom, takes, Bool.and_eq_true, beq_iff_eq] at h
          obtain ⟨rfl, h⟩ := h
          exact .self hrun hone (ih.1 h)
      · intro h
        cases h with
        | run => exact absurd rfl hrun
        | one => exact absurd rfl hone
        | self _ _ h => simpa [matchesFrom, takes] using ih.2 h

theorem holds_iff {pattern : String} {text : LooseText} :
    holds pattern text = true ↔ Splits (units pattern.toList) text.units := by
  rw [holds, regex?_eq, Option.any_some, test_start, matchesFrom_iff]

/-- An attribute meets a pattern when it is a text or a number whose text splits along the
pattern. -/
theorem like_iff_splits (read : Entity → Attribute) (pattern : String) (entity : Entity) :
    ∃ b, entityPredicates.like read pattern entity = .ok b ∧
      (b = true ↔ ∃ text : LooseText,
        (read entity = .own (.text text) ∨
          ∃ n : Number, read entity = .own (.number n) ∧ text = .ofString n.text) ∧
        Splits (units pattern.toList) text.units) := by
  refine ⟨_, rfl, ?_⟩
  rw [Option.any_eq_true]
  simp only [holds_iff]
  have htext (t : LooseText) : (read entity).likeText? = some t ↔
      read entity = .own (.text t) ∨
        ∃ n : Number, read entity = .own (.number n) ∧ t = .ofString n.text := by
    unfold Attribute.likeText?
    split <;> simp_all [eq_comm]
  simp only [htext]

example : holds "_%(_" "\n😀(a" = true ∧ holds "_(" "😀(" = false := by decide

end Like

end Rulebook
