import Rulebook.Proofs.Rule.Walk
import Rulebook.Rule.Written

/-! Edits of a group as of a map from places to statements that is empty almost everywhere. An edit
behind the end of a group adds empty statements in front of its own, and these leave no trace in
the text: of the empty statements only the one a group begins with counts. -/

namespace Rulebook

theorem Statement.merge_assoc (s p q : Statement) :
    (s.merge p).merge q = s.merge (p.merge q) := by
  simp [merge, Option.or_assoc]

namespace Group

/-- The statement at a place; behind the end of the group it is empty. -/
def statement (g : Group) (k : Nat) : Statement := g[k]?.getD .empty

variable {g h : Group} {i j k : Nat}

theorem getElem?_eq_statement (hk : k < g.length) : g[k]? = some (g.statement k) := by
  rw [statement, List.getElem?_eq_getElem hk, Option.getD_some]

theorem statement_of_length_le (hk : g.length ≤ k) : g.statement k = .empty := by
  rw [statement, List.getElem?_eq_none hk, Option.getD_none]

theorem ext (hlength : g.length = h.length) (hs : ∀ k, g.statement k = h.statement k) : g = h := by
  refine List.ext_getElem? fun k => ?_
  by_cases hk : k < g.length
  · rw [getElem?_eq_statement hk, getElem?_eq_statement (hlength ▸ hk), hs]
  · rw [List.getElem?_eq_none (by omega), List.getElem?_eq_none (by omega)]

theorem statement_pad (g : Group) (size k : Nat) : (g.pad size).statement k = g.statement k := by
  by_cases hk : k < g.length
  · rw [statement, pad, List.getElem?_append_left hk, statement]
  · rw [statement_of_length_le (Nat.le_of_not_lt hk), statement, pad,
      List.getElem?_append_right (Nat.le_of_not_lt hk), List.getElem?_replicate]
    split <;> rfl

theorem length_edit (g : Group) (i : Nat) (p : Statement) :
    (g.edit i p).length = max g.length (i + 1) := by
  rw [edit, List.length_modify, length_pad]

theorem statement_edit (g : Group) (i k : Nat) (p : Statement) :
    (g.edit i p).statement k = if i = k then (g.statement i).merge p else g.statement k := by
  have hi : i < (g.pad (i + 1)).length := by rw [length_pad]; omega
  rw [← statement_pad g (i + 1) i, ← statement_pad g (i + 1) k, statement, edit,
    List.getElem?_modify]
  split
  case isTrue hik => rw [← hik, getElem?_eq_statement hi]; rfl
  case isFalse => rw [Option.map_eq_map, Option.map_id', statement]

theorem getElem?_edit (g : Group) (p : Statement) (hk : k < max g.length (i + 1)) :
    (g.edit i p)[k]? = some (if i = k then (g.statement i).merge p else g.statement k) := by
  rw [getElem?_eq_statement (by rwa [length_edit]), statement_edit]

theorem edit_comm (g : Group) (p q : Statement) (hij : i ≠ j) :
    (g.edit i p).edit j q = (g.edit j q).edit i p := by
  refine ext (by simp only [length_edit]; omega) fun k => ?_
  simp only [statement_edit, if_neg hij, if_neg hij.symm]
  by_cases hik : i = k
  · rw [if_neg (hik ▸ hij.symm), if_pos hik, if_pos hik]
  · rw [if_neg hik, if_neg hik]

theorem edit_edit (g : Group) (i : Nat) (p q : Statement) :
    (g.edit i p).edit i q = g.edit i (p.merge q) := by
  refine ext (by simp only [length_edit]; omega) fun k => ?_
  simp only [statement_edit, if_true, Statement.merge_assoc]
  by_cases hik : i = k
  · rw [if_pos hik, if_pos hik]
  · rw [if_neg hik, if_neg hik, if_neg hik]

theorem edit_of_length_le (hi : g.length ≤ i) (p : Statement) : g.edit i p = g.pad i ++ [p] := by
  have hlength : (g.pad i).length = i := by rw [length_pad]; omega
  have hpad : g.pad (i + 1) = g.pad i ++ [.empty] := by
    rw [pad, pad, Nat.succ_sub hi, List.replicate_succ', List.append_assoc]
  have hmodify := modify_concat (g.pad i) .empty (·.merge p)
  rw [hlength, Statement.empty_merge] at hmodify
  rw [edit, hpad, hmodify]

/-- The second group is the first one without some of its empty statements. -/
inductive Thins : Group → Group → Prop
  | nil : Thins [] []
  | keep (s : Statement) {g h : Group} (rest : Thins g h) : Thins (s :: g) (s :: h)
  | drop {s : Statement} {g h : Group} (operator : s.operator = none) (value : s.value = none)
      (rest : Thins g h) : Thins (s :: g) h

/-- The same, but the statement the group begins with stays. -/
inductive ThinsRest : Group → Group → Prop
  | nil : ThinsRest [] []
  | cons (s : Statement) {g h : Group} (rest : Thins g h) : ThinsRest (s :: g) (s :: h)

theorem Thins.refl (g : Group) : g.Thins g := by
  induction g with
  | nil => exact .nil
  | cons s g ih => exact ih.keep s

theorem ThinsRest.refl (g : Group) : g.ThinsRest g := by
  cases g with
  | nil => exact .nil
  | cons s g => exact .cons s (.refl g)

theorem thins_padding (g h : Group) (n : Nat) :
    Thins (g ++ List.replicate n .empty ++ h) (g ++ h) := by
  induction g with
  | cons s g ih => exact ih.keep s
  | nil =>
    induction n with
    | zero => exact .refl h
    | succ n ih => exact .drop rfl rfl ih

/-- However far behind the end an edit is, without its padding it is one right behind the end. In a
group without statements it leaves the first statement empty. -/
theorem thinsRest_edit (hi : max 1 g.length ≤ i) (p : Statement) :
    (g.edit i p).ThinsRest (g.edit (max 1 g.length) p) := by
  have hlength : g.length ≤ max 1 g.length := Nat.le_max_right ..
  rw [edit_of_length_le (Nat.le_trans hlength hi), edit_of_length_le hlength]
  cases g with
  | cons s g =>
    have hone : max 1 (s :: g).length = (s :: g).length := by simp
    rw [hone, pad, pad, Nat.sub_self]
    refine .cons s ?_
    simpa using thins_padding g [p] (i - (g.length + 1))
  | nil =>
    obtain ⟨n, rfl⟩ : ∃ n, i = n + 1 := ⟨i - 1, by omega⟩
    exact .cons .empty (thins_padding [] [p] n)

theorem Thins.filter_eq (hthins : g.Thins h) :
    g.filter (!·.isEmpty) = h.filter (!·.isEmpty) := by
  induction hthins with
  | nil => rfl
  | keep s rest ih => rw [List.filter_cons, List.filter_cons, ih]
  | drop operator value rest ih =>
    rw [List.filter_cons_of_neg (by simp [Statement.isEmpty, operator, value]), ih]

theorem ThinsRest.filter_eq (hthins : g.ThinsRest h) :
    g.filter (!·.isEmpty) = h.filter (!·.isEmpty) := by
  cases hthins with
  | nil => rfl
  | cons s rest => exact (rest.keep s).filter_eq

theorem ThinsRest.isComplete_eq (hthins : g.ThinsRest h) (kind : GroupKind) :
    g.isComplete kind = h.isComplete kind := by
  cases hthins <;> rfl

theorem ThinsRest.writeGroup_eq (hthins : g.ThinsRest h) :
    Rule.writeGroup g = Rule.writeGroup h := by
  rw [Rule.writeGroup, hthins.filter_eq, Rule.writeGroup]

end Group

namespace Rule

theorem write_of_thinsRest {r r' : Rule}
    (hthins : ∀ name, (r.group name).ThinsRest (r'.group name)) : r.write = r'.write := by
  have hcomplete (name : GroupName) : r.isComplete name = r'.isComplete name :=
    (hthins name).isComplete_eq name.kind
  have hcondition : writeGroup r.condition = writeGroup r'.condition :=
    (hthins .condition).writeGroup_eq
  have hthen : writeGroup r.thenBranch = writeGroup r'.thenBranch :=
    (hthins .thenBranch).writeGroup_eq
  have helse : writeGroup r.elseBranch = writeGroup r'.elseBranch :=
    (hthins .elseBranch).writeGroup_eq
  simp only [write, hcomplete, hcondition, hthen, helse]

theorem group_edit (r : Rule) (name : GroupName) (i : Nat) (p : Statement) (other : GroupName) :
    (r.edit name i p).group other =
      if name = other then (r.group name).edit i p else r.group other := by
  cases name <;> cases other <;> rfl

theorem write_edit_of_le (r : Rule) (name : GroupName) {i : Nat} (p : Statement)
    (hi : max 1 (r.group name).length ≤ i) :
    (r.edit name i p).write = (r.edit name (max 1 (r.group name).length) p).write := by
  refine write_of_thinsRest fun other => ?_
  rw [group_edit, group_edit]
  by_cases hname : name = other
  · rw [if_pos hname, if_pos hname]
    exact Group.thinsRest_edit hi p
  · rw [if_neg hname, if_neg hname]
    exact .refl _

end Rule

/-- A group is edited like a map of statements. An edit keeps the other statements and adds empty
ones up to its place, edits of two places can be exchanged, and of two edits of one place the later
one counts where both have a member. The empty statements behind the first can be taken out of a
rule without a change in its text, so its text does not show how far behind the end an edit was. -/
theorem Group.edit_sparse (g : Group) (i j : Nat) (p q : Statement) :
    (g.edit i p).length = max g.length (i + 1) ∧
    (∀ k, k < g.length → i ≠ k → (g.edit i p)[k]? = g[k]?) ∧
    (g.edit i p)[i]? = some ((g.statement i).merge p) ∧
    (∀ k, g.length ≤ k → k < i → (g.edit i p)[k]? = some .empty) ∧
    (i ≠ j → (g.edit i p).edit j q = (g.edit j q).edit i p) ∧
    (g.edit i p).edit i q = g.edit i
      { connective := q.connective <|> p.connective, field := q.field <|> p.field,
        operator := q.operator <|> p.operator, value := q.value <|> p.value } ∧
    (∀ r r' : Rule, (∀ name, (r.group name).ThinsRest (r'.group name)) → r.write = r'.write) ∧
    ∀ (r : Rule) (name : GroupName), max 1 (r.group name).length ≤ i →
      (r.edit name i p).write = (r.edit name (max 1 (r.group name).length) p).write := by
  refine ⟨length_edit g i p, fun k hk hik => ?_, ?_, fun k hk hki => ?_, edit_comm g p q,
    edit_edit g i p q, fun r r' => Rule.write_of_thinsRest, fun r name => r.write_edit_of_le name p⟩
  · rw [getElem?_edit g p (by omega), if_neg hik, getElem?_eq_statement hk]
  · rw [getElem?_edit g p (by omega), if_pos rfl]
  · rw [getElem?_edit g p (by omega), if_neg (by omega), statement_of_length_le hk]

theorem Group.edit_sparse_farTest :
    let age : Statement :=
      { field := some "age", operator := some .greaterThan, value := some "18" }
    let vip : Statement :=
      { connective := some .or, field := some "vip", operator := some .equals, value := some "yes" }
    let senior : Statement := { value := some "65" }
    let r : Rule := ⟨[age], [{ value := some "free" }], [.empty]⟩
    let thinned : Rule := ⟨[age, vip], [{ value := some "free" }], [.empty]⟩
    (0 < [age].length ∧ 3 ≠ 0 ∧ (edit [age] 3 vip)[0]? = some age) ∧
    ([age].length ≤ 2 ∧ 2 < 3 ∧ (edit [age] 3 vip)[2]? = some .empty) ∧
    (edit [age] 3 vip).edit 0 senior = (edit [age] 0 senior).edit 3 vip ∧
    (∀ name, ((r.edit .condition 3 vip).group name).ThinsRest (thinned.group name)) ∧
    (r.edit .condition 3 vip).write = .ok "age > 18 or vip == 'yes' ? 'free' : null" ∧
    max 1 (r.group .condition).length ≤ 3 ∧
    (r.edit .condition 3 vip).write = (r.edit .condition 1 vip).write := by
  intro age vip senior r thinned
  obtain ⟨-, hkept, -, hadded, hcomm, -, hthins, hfar⟩ := edit_sparse [age] 3 0 vip senior
  have hthinned (name : GroupName) :
      ((r.edit .condition 3 vip).group name).ThinsRest (thinned.group name) := by
    cases name with
    | condition => exact .cons age (.drop rfl rfl (.drop rfl rfl (.keep vip .nil)))
    | thenBranch => exact .refl _
    | elseBranch => exact .refl _
  have htext : thinned.write = .ok "age > 18 or vip == 'yes' ? 'free' : null" := rfl
  exact ⟨⟨by decide, by decide, hkept 0 (by decide) (by decide)⟩,
    ⟨by decide, by decide, hadded 2 (by decide) (by decide)⟩, hcomm (by decide), hthinned,
    (hthins _ _ hthinned).trans htext, by decide, hfar r .condition (by decide)⟩

end Rulebook
