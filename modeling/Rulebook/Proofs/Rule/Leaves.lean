import Rulebook.Proofs.Rule.Walk

/-! The statements of a condition one by one: each is that of a leaf of the tree, and each but the
first has the connective whose sides part there. -/

namespace Rulebook

namespace Expr.Node

def leaves : Node → List Node
  | .logical _ left right _ => left.leaves ++ right.leaves
  | n => [n]

/-- The connectives in the order of the text, so that each stands between two leaves. -/
def connectives : Node → List Connective
  | .logical op left right _ => left.connectives ++ op :: right.connectives
  | _ => []

theorem length_leaves (n : Node) : n.leaves.length = n.connectives.length + 1 := by
  induction n with
  | logical op left right source ihl ihr => simp [leaves, connectives, ihl, ihr]; omega
  | _ => rfl

def statement (c : Option Connective) (n : Node) : Statement := { n.leaf with connective := c }

/-- `m` stands in `n`, and its first leaf is leaf `i` of `n`. -/
inductive Holds : Node → Nat → Node → Prop
  | here (n : Node) : Holds n 0 n
  | left (op : Connective) {left : Node} (right : Node) (source : String) {i : Nat} {m : Node}
      (h : Holds left i m) : Holds (.logical op left right source) i m
  | right (op : Connective) (left : Node) {right : Node} (source : String) {i : Nat} {m : Node}
      (h : Holds right i m) : Holds (.logical op left right source) (left.leaves.length + i) m

theorem Holds.le {n m : Node} {i : Nat} (h : n.Holds i m) :
    i + m.leaves.length ≤ n.leaves.length := by
  induction h with
  | here n => simp
  | left op right source h ih => simp only [leaves, List.length_append]; omega
  | right op left source h ih => simp only [leaves, List.length_append]; omega

/-- `m` stands in `n` and joins two sides, of which the left one holds leaf `k` of `n` and the right
one holds leaf `k + 1`. -/
def Parts (n : Node) (k i : Nat) (m : Node) : Prop :=
  n.Holds i m ∧ ∃ op left right source, m = .logical op left right source ∧
    (i ≤ k ∧ k < i + left.leaves.length) ∧
    (i + left.leaves.length ≤ k + 1 ∧ k + 1 < i + left.leaves.length + right.leaves.length)

variable {op : Connective} {left right m : Node} {source : String} {k i : Nat}

theorem Parts.cases (h : (logical op left right source).Parts k i m) :
    (k + 1 = left.leaves.length ∧ i = 0 ∧ m = .logical op left right source) ∨
      (k + 1 < left.leaves.length ∧ left.Parts k i m) ∨
      ∃ k' i', k = left.leaves.length + k' ∧ i = left.leaves.length + i' ∧ right.Parts k' i' m := by
  obtain ⟨hholds, op', l, r, source', rfl, hl, hr⟩ := h
  cases hholds with
  | here => exact .inl ⟨by omega, rfl, rfl⟩
  | left _ _ _ hholds =>
    have hle := hholds.le
    simp only [leaves, List.length_append] at hle
    exact .inr (.inl ⟨by omega, hholds, op', l, r, source', rfl, hl, hr⟩)
  | right _ _ _ hholds =>
    obtain ⟨k, rfl⟩ := Nat.exists_eq_add_of_le (Nat.le_trans (Nat.le_add_right _ _) hl.1)
    exact .inr (.inr ⟨k, _, rfl, rfl, hholds, op', l, r, source', rfl, by omega, by omega⟩)

/-- No two nodes part the same leaves, so that the one is the lowest. -/
theorem Parts.unique {n m m' : Node} {k i i' : Nat} (h : n.Parts k i m) (h' : n.Parts k i' m') :
    i' = i ∧ m' = m := by
  induction n generalizing k i i' with
  | logical op left right source ihl ihr =>
    obtain ⟨hk, rfl, rfl⟩ | ⟨hk, hleft⟩ | ⟨k₁, i₁, rfl, rfl, hright⟩ := h.cases
    · obtain ⟨-, rfl, rfl⟩ | ⟨hk', -⟩ | ⟨_, _, rfl, -, -⟩ := h'.cases
      · exact ⟨rfl, rfl⟩
      · omega
      · omega
    · obtain ⟨hk', -⟩ | ⟨-, hleft'⟩ | ⟨_, _, rfl, -, -⟩ := h'.cases
      · omega
      · exact ihl hleft hleft'
      · omega
    · obtain ⟨hk', -⟩ | ⟨hk', -⟩ | ⟨k₂, i₂, hk', rfl, hright'⟩ := h'.cases
      · omega
      · omega
      · obtain rfl : k₂ = k₁ := by omega
        obtain ⟨rfl, rfl⟩ := ihr hright hright'
        exact ⟨rfl, rfl⟩
  | _ =>
    obtain ⟨hholds, op, l, r, source, rfl, -⟩ := h
    cases hholds

end Expr.Node

namespace Rule
open Rulebook.Expr

variable {P A : Type}

end Rule

end Rulebook
