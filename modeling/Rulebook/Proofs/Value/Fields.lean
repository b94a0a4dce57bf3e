import Rulebook.Value.Keys

/-! Fields looked up by their keys, and the fields that a record has from its entries: the same
ones, in the order of keys. -/

namespace Rulebook.Value

section Lookup

variable {κ α : Type} [BEq κ] {fields rest : List (κ × α)} {key : κ}

theorem field?_append (fields rest : List (κ × α)) (key : κ) :
    field? (fields ++ rest) key = (field? fields key).or (field? rest key) := by
  rw [field?, List.find?_append, Option.map_or]
  rfl

theorem field?_replace (before after : List (κ × α)) (key key' : κ) (u v : α) :
    field? (before ++ (key, u) :: after) key' = field? (before ++ (key, v) :: after) key' ∨
      field? (before ++ (key, u) :: after) key' = some u ∧
        field? (before ++ (key, v) :: after) key' = some v := by
  rw [field?_append, field?_append]
  cases field? before key' with
  | some x => exact .inl rfl
  | none =>
    cases hkey : key == key' with
    | true => exact .inr (by simp [field?, hkey])
    | false => exact .inl (by simp [field?, hkey])

variable [LawfulBEq κ]

theorem mem_keys {f : κ × α} (hf : f ∈ fields) (hkey : (f.1 == key) = true) :
    key ∈ fields.map Prod.fst := by
  rw [← eq_of_beq hkey]
  exact List.mem_map_of_mem hf

theorem field?_eq_none (h : key ∉ fields.map Prod.fst) : field? fields key = none := by
  rw [field?, Option.map_eq_none_iff, List.find?_eq_none]
  intro f hf hkey
  exact h (mem_keys hf hkey)

theorem mem_of_field? {value : α} (h : field? fields key = some value) :
    (key, value) ∈ fields := by
  rw [field?, Option.map_eq_some_iff] at h
  obtain ⟨f, hfind, rfl⟩ := h
  have hkey := List.find?_some hfind
  rw [← eq_of_beq hkey]
  exact List.mem_of_find?_eq_some hfind

theorem put_of_not_mem (h : key ∉ fields.map Prod.fst) (value : α) :
    put fields key value = fields ++ [(key, value)] := by
  rw [put, if_neg]
  intro hany
  obtain ⟨f, hf, hkey⟩ := List.any_eq_true.1 hany
  exact h (mem_keys hf hkey)

theorem foldl_put (entries : List (κ × α)) (h : ((fields ++ entries).map Prod.fst).Nodup) :
    entries.foldl (fun fields e => put fields e.1 e.2) fields = fields ++ entries := by
  induction entries generalizing fields with
  | nil => rw [List.append_nil]; rfl
  | cons e entries ih =>
    have hsplit : fields ++ e :: entries = (fields ++ [e]) ++ entries := by simp
    have hnew : e.1 ∉ fields.map Prod.fst := by
      rw [List.map_append, List.nodup_append] at h
      exact fun hmem => h.2.2 _ hmem _ (by simp) rfl
    rw [List.foldl_cons, put_of_not_mem hnew, hsplit]
    apply ih
    rwa [← hsplit]

end Lookup

variable {α : Type} {entries : List (LooseText × α)}

theorem orderKeys_perm (fields : List (LooseText × α)) : (orderKeys fields).Perm fields := by
  let isPosition (f : LooseText × α) : Bool := (position? f.1).isSome
  have hpositions : (fields.filterMap fun f => (position? f.1).map fun n => (n, f)).map (·.2) =
      fields.filter isPosition := by
    rw [List.map_filterMap, ← List.filterMap_eq_filter]
    congr 1
    funext f
    cases hf : position? f.1 <;> simp [isPosition, Option.guard, hf]
  have hothers : (fields.filter fun f => (position? f.1).isNone) =
      fields.filter fun f => !isPosition f := by
    congr 1
    funext f
    exact (Option.not_isSome _).symm
  have hsorted := (List.mergeSort_perm (fields.filterMap fun f =>
    (position? f.1).map fun n => (n, f)) fun a b => a.1 ≤ b.1).map (·.2)
  rw [hpositions] at hsorted
  rw [orderKeys, hothers]
  exact (hsorted.append_right _).trans (List.filter_append_perm isPosition fields)

theorem orderKeys_of_noPositions (h : ∀ e ∈ entries, position? e.1 = none) :
    orderKeys entries = entries := by
  have hpositions : entries.filterMap (fun e => (position? e.1).map fun n => (n, e)) = [] := by
    rw [List.filterMap_eq_nil_iff]
    intro e he
    rw [h e he]
    rfl
  have hothers : entries.filter (fun e => (position? e.1).isNone) = entries := by
    rw [List.filter_eq_self]
    intro e he
    rw [h e he]
    rfl
  rw [orderKeys, hpositions, hothers, List.mergeSort_nil]
  rfl

theorem fieldsOf_perm (hkeys : (entries.map Prod.fst).Nodup) :
    (fieldsOf entries).Perm entries := by
  have hfold : entries.foldl (fun fields e => put fields e.1 e.2) [] = [] ++ entries :=
    foldl_put entries hkeys
  rw [fieldsOf, hfold]
  exact orderKeys_perm entries

theorem fieldsOf_eq (hkeys : (entries.map Prod.fst).Nodup)
    (hpositions : ∀ e ∈ entries, position? e.1 = none) : fieldsOf entries = entries := by
  have hfold : entries.foldl (fun fields e => put fields e.1 e.2) [] = [] ++ entries :=
    foldl_put entries hkeys
  rw [fieldsOf, hfold]
  exact orderKeys_of_noPositions hpositions

end Rulebook.Value
