import Rulebook.Expr.Grammar
import Rulebook.Proofs.Expr.Reading

/-! The shape of the trees that are read. It is the same for every text, whatever was read as the
pieces of the tree. -/

namespace Rulebook.Expr

namespace Node

/-- A comparison, or a call of `contains` whose list is not empty. -/
def IsTest : Node → Prop
  | .comparison .. => True
  | .contains _ (.literal _) _ => True
  | .contains _ (.members m) _ => m.items ≠ []
  | _ => False

inductive IsChain : Node → Prop
  | test {n : Node} (h : n.IsTest) : IsChain n
  | join (op : Connective) {left right : Node} (source : String) (hl : IsChain left)
      (hr : right.IsTest) : IsChain (.logical op left right source)

end Node

namespace Reader

variable {α β : Type} {p q : Reader α}

def Gives (p : Reader α) (P : α → Prop) : Prop := ∀ c r, p c = .ok r → P r.1

namespace Gives

variable {P : α → Prop} {Q : β → Prop}

theorem bind {f : α → Reader β} (hp : Gives p P) (hf : ∀ v, P v → Gives (f v) Q) :
    Gives (p >>= f) Q := by
  intro c r h
  obtain ⟨v, c', hv, hr⟩ := of_bind_ok h
  exact hf v (hp c (v, c') hv) c' r hr

theorem next {f : α → Reader β} (hf : ∀ v, Gives (f v) Q) : Gives (p >>= f) Q := by
  intro c r h
  obtain ⟨v, c', -, hr⟩ := of_bind_ok h
  exact hf v c' r hr

theorem pure {v : α} (h : P v) : Gives (Pure.pure v) P := by
  intro c r hr
  cases hr
  exact h

theorem map (g : α → β) (hp : Gives p P) (h : ∀ v, P v → Q (g v)) : Gives (g <$> p) Q := by
  intro c r hr
  change (p c >>= fun r => Pure.pure (g r.1, r.2)) = .ok r at hr
  cases hv : p c with
  | error e => rw [hv] at hr; cases hr
  | ok r' =>
    rw [hv] at hr
    cases hr
    exact h r'.1 (hp c r' hv)

theorem either (hp : Gives p P) (hq : Gives q P) : Gives (either p q) P := by
  intro c r h
  simp only [Reader.either] at h
  split at h
  case h_1 r' hr =>
    cases h
    exact hp c _ hr
  case h_2 =>
    split at h
    case h_1 r' hr =>
      cases h
      exact hq c _ hr
    case h_2 => cases h

theorem manyUpTo (hp : Gives p P) (n : Nat) :
    Gives (Reader.manyUpTo n p) fun vs => ∀ v ∈ vs, P v := by
  induction n with
  | zero =>
    intro c r h
    cases h
    simp
  | succ n ih =>
    intro c r h
    simp only [Reader.manyUpTo] at h
    split at h
    case h_1 =>
      cases h
      simp
    case h_2 v c' hv =>
      cases hm : Reader.manyUpTo n p c' with
      | error e => rw [hm] at h; cases h
      | ok r' =>
        rw [hm] at h
        cases h
        have hhead : P v := hp c (v, c') hv
        have htail := ih c' r' hm
        simpa using ⟨hhead, htail⟩

theorem many (hp : Gives p P) : Gives (Reader.many p) fun vs => ∀ v ∈ vs, P v :=
  fun c r h => manyUpTo hp _ c r h

end Gives

end Reader

open Reader

theorem gives_members : Gives members fun m => m.items ≠ [] :=
  .next fun _ => .next fun _ => .next fun _ => .next fun _ => .next fun _ => .next fun _ =>
    .pure (List.cons_ne_nil _ _)

theorem gives_argument :
    Gives argument fun a => ∀ m, a = .members m → m.items ≠ [] := by
  refine .either (gives_members.map _ fun m hm => ?_) (Gives.map (P := fun _ => True) _ ?_ ?_)
  · rintro _ ⟨⟩
    exact hm
  · exact fun _ _ _ => trivial
  · rintro _ - _ ⟨⟩

theorem gives_conditional {P : Node → Prop} (hp : Gives condition P) :
    Gives conditional fun c => P c.condition :=
  hp.bind fun _ h => .next fun _ => .next fun _ => .next fun _ => .next fun _ =>
    .next fun _ => .next fun _ => .next fun _ => .next fun _ => .next fun _ => .pure h

theorem of_parse {P : Conditional → Prop} (hp : Gives conditional P) {text : String}
    {c : Conditional} (h : parse text = .ok c) : P c := by
  simp only [parse] at h
  split at h
  case h_1 => cases h
  case h_2 =>
    split at h
    case h_1 hread =>
      cases h
      exact hp _ _ hread
    case h_2 => cases h

end Rulebook.Expr
