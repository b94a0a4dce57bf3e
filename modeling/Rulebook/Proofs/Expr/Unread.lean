import Rulebook.Proofs.Expr.Rejection

/-! Where the reading of a rule stops: at a value that a condition goes on with, and behind a branch
that is more than a literal. -/

namespace Rulebook.Expr
open Text Reader

variable {s : List Char}

theorem LiteralForm.isSealed (l : LiteralForm) : Sealed l.text.toList where
  nonempty := l.matches_text.nonempty
  head := l.matches_text.stops
  last := l.stops_reverse

theorem PredicateForm.isSealed (p : PredicateForm) : Sealed p.text.toList := by
  have hhead : Stops isBlank (p.text.toList ++ []) := p.stops
  rw [List.append_nil] at hhead
  cases p with
  | comparison left before op after right =>
    have hright := right.isSealed
    refine ⟨?_, hhead, ?_⟩
    · rw [text, String.toList_append]
      exact List.append_ne_nil_of_right_ne_nil _ hright.nonempty
    · rw [text, String.toList_append, List.reverse_append]
      exact hright.last.append (by simpa using hright.nonempty)
  | _ => exact ⟨by simp [text, CallForm.closing], hhead, by simp [text, CallForm.closing]; decide⟩

/-- No branch is read in front of the text: it begins with no literal, or something else than a
colon stands behind its first literal. -/
inductive NoBranch : List Char → Prop
  | start {s : List Char} (blank : Stops isBlank s) (fails : Fails literal s) : NoBranch s
  | behind (l : LiteralForm) (g : Gap) {s : List Char} (ends : l.Ends (g.text.toList ++ s))
      (nonempty : s ≠ []) (blank : Stops isBlank s) (colon : Stops (· == ':') s) :
      NoBranch (l.text.toList ++ (g.text.toList ++ s))

theorem NoBranch.stops (h : NoBranch s) : Stops isBlank s := by
  cases h with
  | start blank fails => exact blank
  | behind l g ends nonempty blank colon => exact l.stops

theorem NoBranch.fails_behind {f : Literal → Reader Conditional} (h : NoBranch s)
    (hf : ∀ (l : LiteralForm) (g : Gap) (u : List Char), u ≠ [] → Stops isBlank u →
      Stops (· == ':') u → Fails (f l.tree) (g.text.toList ++ u)) :
    Fails (literal >>= f) s := by
  cases h with
  | start blank fails => exact fails.bind
  | behind l g ends nonempty blank colon =>
    exact (reads_literal l ends).bind_fails (hf l g _ nonempty blank colon)

theorem fails_bareLiteral (hs : Stops isBlank s) (h : s.takeWhile isBare = []) :
    Fails bareLiteral s :=
  .bind (fails_pattern hs (by simp [Pattern.match?, h]))

theorem PredicateForm.noBranch (p : PredicateForm) (rest : List Char) :
    NoBranch (p.text.toList ++ rest) := by
  obtain ⟨g, u, hdrop, hne, hstops⟩ := p.exists_dropWhile rest
  have hsplit := List.takeWhile_append_dropWhile (p := isBare) (l := p.text.toList ++ rest)
  by_cases htake : (p.text.toList ++ rest).takeWhile isBare = []
  · exact .start p.stops (.either (fails_quotedLiteral p.stops (p.stops_char (by decide)
      (by decide))) (fails_bareLiteral p.stops htake))
  · have hends := stops_dropWhile (q := isBare) (p.text.toList ++ rest)
    rw [hdrop] at hsplit hends
    rw [← hsplit]
    have hbare : ∀ c ∈ (p.text.toList ++ rest).takeWhile isBare, isBare c = true :=
      fun c hc => List.mem_takeWhile_imp hc
    generalize (p.text.toList ++ rest).takeWhile isBare = token at htake hbare
    have h := NoBranch.behind (.bare (.ofList token) (by simpa using htake) (by simpa using hbare))
      g hends hne (hstops _ (by decide)) (hstops _ (by decide))
    simpa [LiteralForm.text] using h

theorem noBranch_joint (l : LiteralForm) (op : Connective) (rest : List Char) :
    NoBranch (l.text.toList ++ (op.joint.toList ++ rest)) := by
  have h := NoBranch.behind (s := (connectiveWord op false).toList ++ (" ".toList ++ rest)) l .one
    (.of_stops Space.one.stops_bare) (by simp)
    (stops_connectiveWord op false (by decide) _) (stops_connectiveWord op false (by decide) _)
  cases op <;> exact h

theorem fails_question {f : Node → String → String → String → Reader Conditional}
    (c : ConditionForm) (hs : Stops isBlank s)
    (hf : ∀ test before question after, Fails (f test before question after) s) :
    Fails (do
      let test ← condition
      let before ← blanks
      let question ← mark '?'
      let after ← blanks
      f test before question after) (c.text.toList ++ (" ? ".toList ++ s)) := by
  have hquestion : ∀ q : Char → Bool, q '?' = false → ∀ u, Stops q ("?".toList ++ u) :=
    fun q hq u => stops_word rfl hq
  have hlink : Fails link (Gap.one.text.toList ++ ("?".toList ++ (Gap.one.text.toList ++ s))) :=
    fails_link .one (hquestion _ (by decide) _) (fails_connective (hquestion _ (by decide) _))
  refine (reads_condition c (.of_stops Space.one.stops_bare) hlink).bind_fails ?_
  refine (reads_blanks .one (hquestion _ (by decide) _)).bind_fails ?_
  refine (reads_mark rfl (by decide) _).bind_fails ?_
  exact (reads_blanks .one hs).bind_fails (hf _ _ _ _)

theorem fails_thenBranch (c : ConditionForm) (h : NoBranch s) :
    Fails conditional (c.text.toList ++ (" ? ".toList ++ s)) := by
  refine fails_question c h.stops fun test before question after => ?_
  refine h.fails_behind fun l g u _ hblank hcolon => ?_
  exact (reads_blanks g hblank).bind_fails (.bind (fails_mark hcolon))

theorem fails_elseBranch (c : ConditionForm) (l : LiteralForm) (h : NoBranch s) :
    Fails conditional
      (c.text.toList ++ (" ? ".toList ++ (l.text.toList ++ (" : ".toList ++ s)))) := by
  have hthen : Reads literal (l.text.toList ++ (" : ".toList ++ s))
      (Gap.one.text.toList ++ (":".toList ++ (Gap.one.text.toList ++ s))) l.tree :=
    reads_literal l (.of_stops Space.one.stops_bare)
  refine fails_question c l.stops fun test before question after => ?_
  refine hthen.bind_fails ?_
  refine (reads_blanks .one (stops_word rfl (by decide))).bind_fails ?_
  refine (reads_mark rfl (by decide) _).bind_fails ?_
  refine (reads_blanks .one h.stops).bind_fails ?_
  exact h.fails_behind fun _ g u hne _ _ => .bind (fails_ending (by simp [hne]))

theorem fails_predicate_quote (s : List Char) : Fails predicate ('\'' :: s) := by
  have hname : Fails fieldName ('\'' :: s) := .bind (fails_pattern (by simp; decide) (by rfl))
  exact .either hname.bind (.either (.bind (.bind (fails_mark (by simp)))) hname.bind)

theorem fails_quoted (c : ConditionForm) (op : Connective) (s : List Char) :
    Fails conditional (c.text.toList ++ (op.joint.toList ++ ('\'' :: s))) := by
  have hblank : ∀ s, Stops isBlank ((connectiveWord op false).toList ++ s) :=
    stops_connectiveWord op false (by decide)
  have hlink : Fails link (Gap.one.text.toList ++ ((connectiveWord op false).toList ++
      (Gap.one.text.toList ++ ('\'' :: s)))) := by
    refine (reads_someBlanks .one (hblank _)).bind_fails ?_
    refine (reads_connective op false _).bind_fails ?_
    exact (reads_someBlanks .one (by simp; decide)).bind_fails (fails_predicate_quote s).bind
  have h := fails_conditional c .one (.of_stops Space.one.stops_bare) hlink (hblank _)
    (stops_connectiveWord op false (by decide) _)
  cases op <;> exact h

end Rulebook.Expr
