import Mathlib.Data.List.Forall2
import Rulebook.Proofs.Rule.Written

/-! Readers and writers that stop at the first violation: what they report is the first of a list of
violations, and the list of what runs one after the other is the lists one after the other. -/

namespace Rulebook

variable {ε α β : Type} {x : Except ε α} {f : α → Except ε β} {es es' : List ε}

/-- The outcome is an error just when there are violations, and reports the first one. -/
def Reports (x : Except ε α) (es : List ε) : Prop := ∀ e, x = .error e ↔ es.head? = some e

theorem reports_ok (a : α) : Reports (.ok a : Except ε α) [] := fun e => by simp

theorem reports_error_of {e : ε} (h : es.head? = some e) : Reports (.error e : Except ε α) es :=
  fun e' => by simp [h]

theorem reports_error (e : ε) : Reports (.error e : Except ε α) [e] := reports_error_of rfl

theorem Reports.exists_ok_iff (h : Reports x es) : (∃ a, x = .ok a) ↔ es = [] := by
  rw [← List.head?_eq_none_iff, Option.eq_none_iff_forall_ne_some]
  cases x with
  | ok a => exact iff_of_true ⟨a, rfl⟩ fun e he => nomatch (h e).2 he
  | error e => exact iff_of_false (fun ⟨a, ha⟩ => nomatch ha) fun hnone => hnone e ((h e).1 rfl)

theorem Reports.bind (hx : Reports x es) (hf : ∀ a, Reports (f a) es') :
    Reports (x >>= f) (es ++ es') := by
  cases x with
  | error e =>
    have hhead := (hx e).1 rfl
    intro e'
    rw [List.head?_append, hhead, Option.some_or]
    change Except.error e = Except.error e' ↔ some e = some e'
    simp
  | ok a =>
    obtain rfl := hx.exists_ok_iff.1 ⟨a, rfl⟩
    exact hf a

theorem Reports.bind_pure {g : α → β} (hx : Reports x es) :
    Reports (x >>= fun a => pure (g a)) es := by
  have h := hx.bind fun a => reports_ok (g a)
  rwa [List.append_nil] at h

variable {γ : Type} {items : List γ} {results : List β} {read : γ → Except ε β}
  {faults : γ → List ε}

theorem reports_mapM (h : ∀ c, Reports (read c) (faults c)) (items : List γ) :
    Reports (items.mapM read) (items.flatMap faults) := by
  induction items with
  | nil => exact reports_ok []
  | cons c items ih =>
    rw [List.mapM_cons, List.flatMap_cons]
    exact (h c).bind fun b => ih.bind_pure

theorem mapM_eq_ok :
    items.mapM read = .ok results ↔ List.Forall₂ (fun c b => read c = .ok b) items results := by
  induction items generalizing results with
  | nil =>
    rw [List.forall₂_nil_left_iff]
    exact ⟨fun h => (Except.ok.inj h).symm, fun h => h ▸ rfl⟩
  | cons c items ih =>
    rw [List.mapM_cons, List.forall₂_cons_left_iff]
    constructor
    · intro h
      obtain ⟨b, hb, h⟩ := Rule.of_bind_ok h
      obtain ⟨bs, hbs, h⟩ := Rule.of_bind_ok h
      exact ⟨b, bs, hb, ih.1 hbs, (Except.ok.inj h).symm⟩
    · rintro ⟨b, bs, hb, hbs, rfl⟩
      rw [hb, ih.2 hbs]
      rfl

end Rulebook
