import Rulebook.Proofs.Rule.Shape
import Rulebook.Proofs.Value.Fields

/-! A group whose statements are keyed by ordinals is the list of these statements in the order of
the ordinals, in whatever order they are written. -/

namespace Rulebook

namespace Group

/-- The entries are keyed by ascending ordinals that numbers tell apart, with gaps or without. -/
structure IsKeyed (entries : List (LooseText × Value)) : Prop where
  isOrdinal : ∀ e ∈ entries, isOrdinal e.1 = true
  place_lt : ∀ e ∈ entries, place e.1 < 2 ^ 53
  ascending : entries.Pairwise fun a b => place a.1 < place b.1

variable {entries written : List (LooseText × Value)} {path path' : LooseText} {mayMiss : Bool}
  {g : Group}

theorem IsKeyed.nodup_keys (h : IsKeyed entries) : (entries.map Prod.fst).Nodup := by
  rw [List.nodup_iff_pairwise_ne, List.pairwise_map]
  exact h.ascending.imp fun hlt hkey => Nat.ne_of_lt hlt (congrArg place hkey)

theorem mergeSort_eq_of_perm {α : Type} {key : α → Nat} {l sorted : List α}
    (hascending : sorted.Pairwise fun a b => key a < key b) (hperm : l.Perm sorted) :
    l.mergeSort (fun a b => key a ≤ key b) = sorted := by
  have hsorted : (l.mergeSort fun a b => key a ≤ key b).Pairwise fun a b => key a ≤ key b := by
    have hpairwise := @List.pairwise_mergeSort α (fun a b => key a ≤ key b)
      (fun a b c hab hbc => by simpa using Nat.le_trans (by simpa using hab) (by simpa using hbc))
      (fun a b => by simpa using Nat.le_total (key a) (key b)) l
    simpa only [decide_eq_true_eq] using hpairwise
  have hkeys : (sorted.map key).Nodup := by
    rw [List.nodup_iff_pairwise_ne, List.pairwise_map]
    exact hascending.imp Nat.ne_of_lt
  have hsame := (List.mergeSort_perm l fun a b => key a ≤ key b).trans hperm
  refine hsame.eq_of_pairwise (fun a b ha hb hab hba => ?_) hsorted (hascending.imp Nat.le_of_lt)
  exact List.inj_on_of_nodup_map hkeys (hsame.mem_iff.1 ha) hb (Nat.le_antisymm hab hba)

theorem sortOrdinals_fieldsOf (h : IsKeyed entries) (hwritten : written.Perm entries) :
    sortOrdinals (Value.fieldsOf written) = entries := by
  have hkeys : (written.map Prod.fst).Nodup := (hwritten.map Prod.fst).nodup_iff.2 h.nodup_keys
  have hfields : (Value.fieldsOf written).Perm entries := (Value.fieldsOf_perm hkeys).trans hwritten
  -- Keys that are indices go in front of the others in a record, but all of them are still there.
  rw [sortOrdinals_eq (fun f hf => h.isOrdinal f (hfields.mem_iff.1 hf))
    (isApart_of_lt fun f hf => h.place_lt f (hfields.mem_iff.1 hf))]
  exact mergeSort_eq_of_perm h.ascending hfields

theorem ofValue_keyed_iff (h : IsKeyed entries) (hne : entries ≠ [])
    (hwritten : written.Perm entries) :
    ofValue path mayMiss (some (.record (Value.fieldsOf written))) = .ok g ↔
      ofValue path' mayMiss (some (.list (entries.map (·.2)))) = .ok g := by
  have hsort := sortOrdinals_fieldsOf h hwritten
  have hperm : entries.Perm (Value.fieldsOf written) := hsort ▸ sortOrdinals_perm
  have hitems : items sortOrdinals (.record (Value.fieldsOf written)) = entries.map (·.2) := by
    rw [items, hsort]
  have hfields : Value.fieldsOf written ≠ [] := fun hnil => hne (hnil ▸ hperm).eq_nil
  have hkeys : ∀ f ∈ Value.fieldsOf written, isOrdinal f.1 = true := fun f hf =>
    h.isOrdinal f (hperm.mem_iff.2 hf)
  rw [ofValue_eq_ok, ofValue_eq_ok, isOf_record hfields, hitems]
  refine and_congr_left fun _ => (isShaped_record_iff sortOrdinals_perm).trans ?_
  rw [hitems]
  exact and_iff_right hkeys

end Group

namespace Rule

variable {entries written : List (LooseText × Value)}

/-- A group may be keyed by ordinals or be the list of its statements: a document is the same rule
both ways, or none. -/
theorem load?_keyed (h : Group.IsKeyed entries) (hne : entries ≠ [])
    (hwritten : written.Perm entries) (before after : List (LooseText × Value)) (key : LooseText)
    (r : Rule) :
    load? (.record (before ++ (key, .record (Value.fieldsOf written)) :: after)) = .ok r ↔
      load? (.record (before ++ (key, .list (entries.map (·.2))) :: after)) = .ok r := by
  rw [load?_eq_ok, load?_eq_ok, ofValue_record_eq_ok, ofValue_record_eq_ok]
  refine forall_congr' fun name => ?_
  obtain hsame | ⟨hrecord, hlist⟩ := Value.field?_replace before after key (.ofString name.text)
    (.record (Value.fieldsOf written)) (.list (entries.map (·.2)))
  · rw [hsame]
  · rw [hrecord, hlist]
    exact Group.ofValue_keyed_iff h hne hwritten

def keyedValue (key t : LooseText) : LooseText × Value := (key, .record [("value", .text t)])

def ofThen (group : Value) : Value := .record [("if", .list []), ("then", group)]

theorem load?_keyed_seven :
    load? (ofThen (.record (Value.fieldsOf
      [keyedValue "10" "c", keyedValue "2" "a", keyedValue "007" "b"]))) =
      .ok ⟨[], [{ value := some "a" }, { value := some "b" }, { value := some "c" }], [.empty]⟩ := by
  have hkeyed : Group.IsKeyed [keyedValue "2" "a", keyedValue "007" "b", keyedValue "10" "c"] :=
    ⟨by decide, by decide, by decide⟩
  have hwritten := List.perm_append_singleton (keyedValue "10" "c")
    [keyedValue "2" "a", keyedValue "007" "b"]
  have hlist : load? (ofThen (.list [(keyedValue "2" "a").2, (keyedValue "007" "b").2,
      (keyedValue "10" "c").2])) =
    .ok ⟨[], [{ value := some "a" }, { value := some "b" }, { value := some "c" }], [.empty]⟩ := rfl
  exact (load?_keyed hkeyed (by decide) hwritten.symm [("if", .list [])] [] "then" _).2 hlist

end Rule

end Rulebook
