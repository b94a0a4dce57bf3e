import Mathlib.Data.List.Forall2
import Rulebook.Proofs.Sql.Precedence

/-! Truth values in the place of operands. A chain without parentheses gives by precedence what it
gives from left to right, unless an `AND` stands somewhere behind an `OR`. -/

namespace Rulebook.Sql

variable {α : Type}

def truths : Joining Bool where
  combine
    | .and, bs => bs.all id
    | .or, bs => bs.any id
  combine_single c b := by cases c <;> simp

theorem combine_concat (c : Connective) (bs : List Bool) (b : Bool) :
    truths.combine c (bs ++ [b]) = truths.combine c [truths.combine c bs, b] := by
  cases c <;> simp [truths]

/-- The tokens with `v i` in the place of operand `i`, where `i` counts from the given number. -/
def assign (v : Nat → Bool) : Nat → List (Token α) → List (Token Bool)
  | _, [] => []
  | i, .operand _ :: ts => .operand (v i) :: assign v (i + 1) ts
  | i, .joint c :: ts => .joint c :: assign v i ts
  | i, .opening :: ts => .opening :: assign v i ts
  | i, .closing :: ts => .closing :: assign v i ts

/-- The truth value of a condition by precedence, where `v` gives those of its operands. -/
def truth (v : Nat → Bool) (ts : List (Token α)) : Option Bool := resolve truths (assign v 0 ts)

section Assign

variable (v : Nat → Bool)

theorem assign_append (i : Nat) (ts us : List (Token α)) :
    assign v i (ts ++ us) = assign v i ts ++ assign v (i + (operands ts).length) us := by
  induction ts generalizing i with
  | nil => rfl
  | cons t ts ih =>
    cases t with
    | operand a =>
      have hcount : i + (operands (.operand a :: ts)).length =
          i + 1 + (operands ts).length := by
        simp [operands]
        omega
      rw [List.cons_append, assign, ih, hcount]
      rfl
    | _ =>
      rw [List.cons_append, assign, ih]
      rfl

def assignAll : Nat → List (List (Token α)) → List (List (Token Bool))
  | _, [] => []
  | i, ts :: tss => assign v i ts :: assignAll (i + (operands ts).length) tss

theorem assignAll_append (i : Nat) (tss uss : List (List (Token α))) :
    assignAll v i (tss ++ uss) =
      assignAll v i tss ++ assignAll v (i + (tss.flatMap operands).length) uss := by
  induction tss generalizing i with
  | nil => rfl
  | cons ts tss ih => simp [assignAll, ih, Nat.add_assoc]

theorem assign_enclosed (i : Nat) (ts : List (Token α)) :
    assign v i (enclosed ts) = enclosed (assign v i ts) := by
  rw [enclosed, List.cons_append, assign, assign_append]
  rfl

theorem assign_grouped (i : Nat) (c : Connective) (tss : List (List (Token α))) :
    assign v i (grouped c tss) = grouped c (assignAll v i tss) := by
  induction tss generalizing i with
  | nil => rfl
  | cons ts tss ih =>
    cases tss with
    | nil => simp [grouped, assignAll, assign_enclosed]
    | cons us tss =>
      rw [grouped_cons_cons, assign_append, assign_enclosed, operands_enclosed, assign, ih]
      exact (grouped_cons_cons c _ _ _).symm

end Assign

def chain (a : α) (links : List (Connective × α)) : List (Token α) :=
  .operand a :: links.flatMap fun l => [.joint l.1, .operand l.2]

def valued (v : Nat → Bool) : Nat → List Connective → List (Connective × Bool)
  | _, [] => []
  | i, c :: cs => (c, v i) :: valued v (i + 1) cs

theorem valued_append (v : Nat → Bool) (i : Nat) (cs ds : List Connective) :
    valued v i (cs ++ ds) = valued v i cs ++ valued v (i + cs.length) ds := by
  induction cs generalizing i with
  | nil => rfl
  | cons c cs ih =>
    have hlength : i + (c :: cs).length = i + 1 + cs.length := by
      rw [List.length_cons]
      omega
    rw [List.cons_append, valued, ih, hlength]
    rfl

/-- The truth value of a chain read from left to right, where no connective comes first. -/
def leftToRight (b : Bool) (links : List (Connective × Bool)) : Bool :=
  links.foldl (fun b l => truths.combine l.1 [b, l.2]) b

theorem leftToRight_cons (b : Bool) (l : Connective × Bool) (ls : List (Connective × Bool)) :
    leftToRight b (l :: ls) = leftToRight (truths.combine l.1 [b, l.2]) ls := rfl

/-- Whether a disjunct holds that was read, and whether the one does that is being read. -/
def sumStep (s : Bool × Bool) : Connective × Bool → Bool × Bool
  | (.and, b) => (s.1, s.2 && b)
  | (.or, b) => (s.1 || s.2, b)

def byPrecedence (b : Bool) (links : List (Connective × Bool)) : Bool :=
  let s := links.foldl sumStep (false, b)
  s.1 || s.2

theorem assign_chain (v : Nat → Bool) (a : α) (links : List (Connective × α)) :
    assign v 0 (chain a links) = chain (v 0) (valued v 1 (links.map (·.1))) := by
  have hlinks (i : Nat) : assign v i (links.flatMap fun l => [.joint l.1, .operand l.2]) =
      (valued v i (links.map (·.1))).flatMap fun l => [.joint l.1, .operand l.2] := by
    induction links generalizing i with
    | nil => rfl
    | cons l links ih => simp [assign, valued, ih]
  rw [chain, assign, hlinks, chain]

namespace Level

def sums (level : Level Bool) (b : Bool) : Bool × Bool :=
  (level.disjuncts.any id, level.conjuncts.all id && b)

theorem sums_put (c : Connective) (level : Level Bool) (a b : Bool) :
    (level.put truths c a).sums b = sumStep (level.sums a) (c, b) := by
  cases c <;> simp [put, sums, sumStep, truths]

theorem whole_eq_sums (level : Level Bool) (b : Bool) :
    level.whole truths b = ((level.sums b).1 || (level.sums b).2) := by
  simp [whole, sums, truths]

end Level

theorem resolve_chain (b : Bool) (links : List (Connective × Bool)) :
    resolve truths (chain b links) = some (byPrecedence b links) := by
  have hrun (level : Level Bool) (b : Bool) :
      ((links.flatMap fun l => [.joint l.1, .operand l.2]).foldlM (step truths)
          ⟨some b, level, []⟩ >>= State.result truths) =
        some (let s := links.foldl sumStep (level.sums b); s.1 || s.2) := by
    induction links generalizing level b with
    | nil => exact congrArg some (level.whole_eq_sums b)
    | cons l links ih =>
      rw [List.foldl_cons, ← Level.sums_put]
      exact ih (level.put truths l.1 b) l.2
  exact hrun {} b

theorem truth_chain (v : Nat → Bool) (a : α) (links : List (Connective × α)) :
    truth v (chain a links) = some (byPrecedence (v 0) (valued v 1 (links.map (·.1)))) := by
  rw [truth, assign_chain, resolve_chain]

theorem operands_chain (a : α) (links : List (Connective × α)) :
    operands (chain a links) = a :: links.map (·.2) := by
  have hlinks : operands (links.flatMap fun l => [.joint l.1, .operand l.2]) =
      links.map (·.2) := by
    induction links with
    | nil => rfl
    | cons l links ih =>
      rw [List.flatMap_cons, operands_append, ih]
      rfl
  rw [← hlinks]
  rfl

theorem byPrecedence_eq_of_or (ls : List (Connective × Bool)) (o a : Bool)
    (h : .and ∉ ls.map (·.1)) :
    (let s := ls.foldl sumStep (o, a); s.1 || s.2) = leftToRight (o || a) ls := by
  induction ls generalizing o a with
  | nil => rfl
  | cons l ls ih =>
    obtain ⟨c, b⟩ := l
    cases c with
    | and => simp at h
    | or =>
      have hcombine : truths.combine .or [o || a, b] = (o || a || b) := by simp [truths]
      rw [leftToRight_cons, List.foldl_cons, sumStep, hcombine]
      exact ih _ _ (by simpa using h)

theorem byPrecedence_eq_leftToRight {ls : List (Connective × Bool)}
    (h : ¬ [Connective.or, .and].Sublist (ls.map (·.1))) (b : Bool) :
    byPrecedence b ls = leftToRight b ls := by
  induction ls generalizing b with
  | nil => simp [byPrecedence, leftToRight]
  | cons l ls ih =>
    obtain ⟨c, a⟩ := l
    cases c with
    | and =>
      have hcombine : truths.combine .and [b, a] = (b && a) := by simp [truths]
      have hrest : ¬ [Connective.or, .and].Sublist (ls.map (·.1)) :=
        fun hs => h (hs.trans (List.sublist_cons_self _ _))
      rw [leftToRight_cons, hcombine]
      exact ih hrest (b && a)
    | or =>
      have hrest : .and ∉ ls.map (·.1) :=
        fun hm => h ((List.singleton_sublist.2 hm).cons_cons _)
      have hcombine : truths.combine .or [b, a] = (b || a) := by simp [truths]
      rw [leftToRight_cons, hcombine]
      have hsum := byPrecedence_eq_of_or ls b a hrest
      simpa [byPrecedence, sumStep] using hsum

theorem fst_foldl_sumStep (ls : List (Connective × Bool)) (a : Bool) :
    (ls.foldl sumStep (true, a)).1 = true := by
  induction ls generalizing a with
  | nil => rfl
  | cons l ls ih =>
    obtain ⟨c, b⟩ := l
    cases c <;> exact ih _

theorem leftToRight_of_and {ls : List (Connective × Bool)} (hfalse : ∀ l ∈ ls, l.2 = false)
    (b : Bool) (h : b = false ∨ .and ∈ ls.map (·.1)) : leftToRight b ls = false := by
  induction ls generalizing b with
  | nil => simpa [leftToRight] using h
  | cons l ls ih =>
    obtain ⟨c, a⟩ := l
    obtain rfl : a = false := hfalse (c, a) (by simp)
    have hrest : ∀ l ∈ ls, l.2 = false := fun l hl => hfalse l (by simp [hl])
    rw [leftToRight_cons]
    cases c with
    | and => exact ih hrest _ (.inl (by simp [truths]))
    | or => exact ih hrest _ (h.imp (by rintro rfl; rfl) (by simp))

theorem map_fst_valued (v : Nat → Bool) (i : Nat) (cs : List Connective) :
    (valued v i cs).map (·.1) = cs := by
  induction cs generalizing i with
  | nil => rfl
  | cons c cs ih => rw [valued, List.map_cons, ih]

theorem snd_of_mem_valued {v : Nat → Bool} {i : Nat} (cs : List Connective)
    (hv : ∀ k, i ≤ k → v k = false) : ∀ l ∈ valued v i cs, l.2 = false := by
  induction cs generalizing i with
  | nil => simp [valued]
  | cons c cs ih =>
    have hrest := ih (i := i + 1) fun k hk => hv k (by omega)
    simpa [valued, hv i (Nat.le_refl i)] using hrest

/-- Where an `AND` stands behind an `OR`, let the operands up to the first `OR` hold and no others:
by precedence the first disjunct holds, but from left to right the `AND` fails. -/
theorem byPrecedence_ne_leftToRight {cs : List Connective}
    (h : [Connective.or, .and].Sublist cs) (j : Nat) :
    let ls := valued (fun i => decide (i ≤ j + cs.idxOf .or)) (j + 1) cs
    byPrecedence true ls = true ∧ leftToRight true ls = false := by
  induction cs generalizing j with
  | nil => cases h
  | cons c cs ih =>
    cases c with
    | and =>
      have hrest : [Connective.or, .and].Sublist cs := by
        cases h with
        | cons _ h => exact h
      have hindex : j + (Connective.and :: cs).idxOf .or = j + 1 + cs.idxOf .or := by
        rw [List.idxOf_cons_ne _ (by decide)]
        omega
      have hfirst : decide (j + 1 ≤ j + 1 + cs.idxOf .or) = true := by simp
      rw [hindex, valued, hfirst]
      exact ih hrest (j + 1)
    | or =>
      have hand : .and ∈ cs := by
        cases h with
        | cons _ h => exact h.subset (by simp)
        | cons_cons _ h => exact List.singleton_sublist.1 h
      have hindex : j + (Connective.or :: cs).idxOf .or = j := by simp
      have hfirst : decide (j + 1 ≤ j) = false := by simp
      rw [hindex, valued, hfirst]
      have hfalse := snd_of_mem_valued (v := fun i => decide (i ≤ j)) (i := j + 1 + 1) cs
        fun k hk => decide_eq_false (by omega)
      refine ⟨?_, leftToRight_of_and hfalse _ (.inr ?_)⟩
      · exact Bool.or_eq_true_iff.2 (.inl (fst_foldl_sumStep _ _))
      · rwa [map_fst_valued]

/-- Precedence gives what the order of the text gives for all truth values of the operands exactly
when no `AND` stands behind an `OR`. -/
theorem byPrecedence_eq_iff (cs : List Connective) :
    (∀ v : Nat → Bool, byPrecedence (v 0) (valued v 1 cs) = leftToRight (v 0) (valued v 1 cs)) ↔
      ¬ [Connective.or, .and].Sublist cs := by
  constructor
  · intro h hs
    obtain ⟨htrue, hfalse⟩ := byPrecedence_ne_leftToRight hs 0
    have hsame := h fun i => decide (i ≤ 0 + cs.idxOf .or)
    simp only [Nat.zero_le, decide_true] at hsame
    rw [htrue, hfalse] at hsame
    cases hsame
  · intro h v
    exact byPrecedence_eq_leftToRight (by rwa [map_fst_valued]) _

end Rulebook.Sql
