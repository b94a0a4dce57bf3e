import Rulebook.Proofs.Sql.Lexeme
import Rulebook.Proofs.Sql.Written

/-! Conditions with question marks read back as filters. A reader takes the text apart into lexemes,
gives each comparison its values from the front of the parameters, and joins what is left by
precedence. -/

namespace Rulebook.Sql
open Text Rulebook.Filter

mutual

/-- The tokens of a condition whose question marks have the given values, one value for each. -/
def tokensOf : List Lexeme → List Value → Option (List (Token Filter))
  | [], [] => some []
  | .opening :: ls, vs => (tokensOf ls vs).map (.opening :: ·)
  | .closing :: ls, vs => (tokensOf ls vs).map (.closing :: ·)
  | .joint c :: ls, vs => (tokensOf ls vs).map (.joint c :: ·)
  | .digit true :: .sign .equal :: .digit one :: ls, vs =>
    (tokensOf ls vs).map (.operand (.group (if one then .and else .or) []) :: ·)
  | .name n :: .sign .isIn :: .opening :: .mark :: ls, v :: vs => tokensInList n [v] ls vs
  | .name n :: .sign op :: .mark :: ls, v :: vs =>
    if op = .isIn then none else (tokensOf ls vs).map (.operand (.leaf n op v) :: ·)
  | _, _ => none

def tokensInList (n : String) (values : List Value) :
    List Lexeme → List Value → Option (List (Token Filter))
  | .comma :: .mark :: ls, v :: vs => tokensInList n (values ++ [v]) ls vs
  | .closing :: ls, vs => (tokensOf ls vs).map (.operand (.leaf n .isIn (.list values)) :: ·)
  | _, _ => none

end

def conditionTokens (c : SqlCondition) : Option (List (Token Filter)) :=
  (lexemes c.sql).bind fun ls => tokensOf ls c.params

def read (c : SqlCondition) : Option Filter := (conditionTokens c).bind (resolve joining)

def listLexemes : List Value → List Lexeme
  | [] => [.closing]
  | _ :: vs => .comma :: .mark :: listLexemes vs

def operandLexemes : Filter → List Lexeme
  | .leaf n .isIn (.list (_ :: vs)) => [.name n, .sign .isIn, .opening, .mark] ++ listLexemes vs
  | .leaf n op _ => [.name n, .sign op, .mark]
  | .group kind _ => [.digit true, .sign .equal, .digit (kind = .and)]

def Token.lexemes : Token Filter → List Lexeme
  | .operand f => operandLexemes f
  | .joint c => [.joint c]
  | .opening => [.opening]
  | .closing => [.closing]

section Scan

variable {rest : List Char}

theorem scan_spaced {w : String} {l : Lexeme} (h : Lexeme.ofWord? w = some l)
    (hw : w.toList ≠ [] ∧ w.toList.all isWord = true) :
    scan .between (' ' :: (w.toList ++ ' ' :: rest)) = (scan .between rest).map (l :: ·) := by
  rw [scan_blank, scan_word h hw (by simp), scan_blank]

theorem scan_joint (c : Connective) :
    scan .between ((Token.joint c).written.sql.toList ++ rest) =
      (scan .between rest).map (.joint c :: ·) := by
  cases c with
  | and => exact scan_spaced (w := "AND") rfl (by decide)
  | or => exact scan_spaced (w := "OR") rfl (by decide)

theorem scan_compareSql (n : String) (v : Value) (sign : String) {op : FilterOp}
    (h : Lexeme.ofWord? sign = some (.sign op))
    (hw : sign.toList ≠ [] ∧ sign.toList.all isWord = true) :
    scan .between ((compareSql (quotedName n) sign v).sql.toList ++ rest) =
      (scan .between rest).map ([.name n, .sign op, .mark] ++ ·) := by
  have htext : (compareSql (quotedName n) sign v).sql.toList ++ rest =
      (quotedName n).toList ++ ' ' :: (sign.toList ++ ' ' :: '?' :: rest) := by
    simp [compareSql]
  rw [htext, scan_quotedName n (by simp), scan_spaced h hw, scan_char (l := .mark) rfl]
  simp [Function.comp_def]

theorem scan_marks (v : Value) (vs : List Value) :
    scan .between ((String.intercalate ", " ((v :: vs).map fun _ => "?")).toList ++ ')' :: rest) =
      (scan .between rest).map (.mark :: listLexemes vs ++ ·) := by
  induction vs generalizing v with
  | nil =>
    rw [show (String.intercalate ", " ([v].map fun _ => "?")).toList = ['?'] by simp,
      List.singleton_append, scan_char (l := .mark) rfl, scan_char (l := .closing) rfl]
    simp [listLexemes, Function.comp_def]
  | cons w vs ih =>
    rw [marks_cons_cons, List.cons_append, List.cons_append, List.cons_append, scan_char (l := .mark) rfl,
      scan_char (l := .comma) rfl, scan_blank, ih]
    simp [listLexemes, Function.comp_def]

theorem scan_list (n : String) (v : Value) (vs : List Value) :
    scan .between ((quotedName n ++ " IN (" ++
        String.intercalate ", " ((v :: vs).map fun _ => "?") ++ ")").toList ++ rest) =
      (scan .between rest).map ([.name n, .sign .isIn, .opening, .mark] ++ listLexemes vs ++ ·) := by
  have htext : (quotedName n ++ " IN (" ++
        String.intercalate ", " ((v :: vs).map fun _ => "?") ++ ")").toList ++ rest =
      (quotedName n).toList ++ ' ' :: ("IN".toList ++ ' ' :: '(' ::
        ((String.intercalate ", " ((v :: vs).map fun _ => "?")).toList ++ ')' :: rest)) := by
    simp
  rw [htext, scan_quotedName n (by simp), scan_spaced (l := .sign .isIn) rfl (by decide),
    scan_char (l := .opening) rfl, scan_marks]
  simp [Function.comp_def]

theorem scan_constant (kind : Connective) (hrest : Stops isWord rest) :
    scan .between ((Token.operand (.group kind [])).written.sql.toList ++ rest) =
      (scan .between rest).map ([.digit true, .sign .equal, .digit (kind = .and)] ++ ·) := by
  have hdigit : ∀ {d : String}, Lexeme.ofWord? d = some (.digit (kind = .and)) →
      (d.toList ≠ [] ∧ d.toList.all isWord = true) →
      scan .between ("1".toList ++ ' ' :: ("=".toList ++ ' ' :: (d.toList ++ rest))) =
        (scan .between rest).map ([.digit true, .sign .equal, .digit (kind = .and)] ++ ·) := by
    intro d hd hw
    rw [scan_word (l := .digit true) rfl (by decide) (by simp),
      scan_spaced (l := .sign .equal) rfl (by decide), scan_word hd hw hrest]
    simp [Function.comp_def]
  cases kind with
  | and => exact hdigit (d := "1") rfl (by decide)
  | or => exact hdigit (d := "0") rfl (by decide)

theorem scan_operand {f : Filter} (h : f.IsOperand) (hrest : Stops isWord rest) :
    scan .between ((Token.operand f).written.sql.toList ++ rest) =
      (scan .between rest).map (operandLexemes f ++ ·) := by
  cases f with
  | group kind clauses =>
    cases h
    exact scan_constant kind hrest
  | leaf n op v =>
    cases op with
    | equal => exact scan_compareSql n v "=" rfl (by decide)
    | notEqual => exact scan_compareSql n v "!=" rfl (by decide)
    | greater => exact scan_compareSql n v ">" rfl (by decide)
    | less => exact scan_compareSql n v "<" rfl (by decide)
    | like => exact scan_compareSql n v "LIKE" rfl (by decide)
    | isIn =>
      obtain ⟨v, vs, rfl⟩ := h.exists_list
      exact scan_list n v vs

variable {J : Joining Filter} {ts : List (Token Filter)} {state : State Filter}

theorem stops_textOf {f : Filter} {level : Level Filter} {outer : List (Level Filter)}
    (h : ts.foldlM (step J) ⟨some f, level, outer⟩ = some state) (hrest : Stops isWord rest) :
    Stops isWord (textOf ts ++ rest) := by
  cases ts with
  | nil => exact hrest
  | cons t ts =>
    cases t with
    | operand g => cases h
    | opening => cases h
    | closing => simp [textOf, Token.written]
    | joint c => cases c <;> simp [textOf, Token.written, joiner]

theorem scan_textOf (rest : List Char) {start : State Filter}
    (h : ts.foldlM (step J) start = some state)
    (hops : ∀ f ∈ operands ts, f.IsOperand) (hrest : Stops isWord rest) :
    scan .between (textOf ts ++ rest) = (scan .between rest).map (ts.flatMap Token.lexemes ++ ·) := by
  induction ts generalizing start with
  | nil => simp [textOf]
  | cons t ts ih =>
    obtain ⟨next, hnext, htail⟩ := Option.bind_eq_some_iff.1 (List.foldlM_cons.symm.trans h)
    have hrun := ih htail fun f hf => hops f (mem_operands_cons t hf)
    have hfirst : scan .between (t.written.sql.toList ++ (textOf ts ++ rest)) =
        (scan .between (textOf ts ++ rest)).map (t.lexemes ++ ·) := by
      cases t with
      | joint c => exact scan_joint c
      | opening => exact scan_char rfl
      | closing => exact scan_char rfl
      | operand f =>
        obtain ⟨operand, level, outer⟩ := start
        cases operand with
        | some g => cases hnext
        | none =>
          cases hnext
          exact scan_operand (hops f (by simp [operands])) (stops_textOf htail hrest)
    rw [textOf_cons, List.append_assoc, hfirst, hrun]
    simp [Function.comp_def]

end Scan

theorem tokensInList_lexemes (n : String) (values vs : List Value) (ls : List Lexeme)
    (ws : List Value) :
    tokensInList n values (listLexemes vs ++ ls) (vs ++ ws) =
      (tokensOf ls ws).map (.operand (.leaf n .isIn (.list (values ++ vs))) :: ·) := by
  induction vs generalizing values with
  | nil => simp [listLexemes, tokensInList]
  | cons v vs ih => simp [listLexemes, tokensInList, ih]

theorem tokensOf_operand {f : Filter} (h : f.IsOperand) (ls : List Lexeme) (vs : List Value) :
    tokensOf (operandLexemes f ++ ls) ((Token.operand f).written.params ++ vs) =
      (tokensOf ls vs).map (.operand f :: ·) := by
  cases f with
  | group kind clauses =>
    cases h
    cases kind <;> simp [operandLexemes, tokensOf, Token.written, toSql, render, renderAll,
      groupSql, Except.toOption]
  | leaf n op v =>
    cases op with
    | isIn =>
      obtain ⟨v, ws, rfl⟩ := h.exists_list
      exact tokensInList_lexemes n [v] ws ls vs
    | _ =>
      simp [operandLexemes, tokensOf, Token.written, toSql, render, leafSql, compareSql,
        Except.toOption]

theorem tokensOf_lexemes {ts : List (Token Filter)} (hops : ∀ f ∈ operands ts, f.IsOperand) :
    tokensOf (ts.flatMap Token.lexemes) (paramsOf ts) = some ts := by
  induction ts with
  | nil => simp [tokensOf, paramsOf]
  | cons t ts ih =>
    have hrest := ih fun f hf => hops f (mem_operands_cons t hf)
    rw [List.flatMap_cons, paramsOf_cons]
    cases t with
    | operand f =>
      rw [Token.lexemes, tokensOf_operand (hops f (by simp [operands])), hrest]
      rfl
    | _ => simp [Token.lexemes, tokensOf, Token.written, hrest]

theorem count_mark_listLexemes (vs : List Value) : (listLexemes vs).count .mark = vs.length := by
  induction vs with
  | nil => rfl
  | cons v vs ih => simp [listLexemes, ih]

theorem count_mark_operand {f : Filter} (h : f.IsOperand) :
    (operandLexemes f).count .mark = (Token.operand f).written.params.length := by
  cases f with
  | group kind clauses =>
    cases h
    cases kind <;> rfl
  | leaf n op v =>
    cases op with
    | isIn =>
      obtain ⟨v, ws, rfl⟩ := h.exists_list
      have hcount := count_mark_listLexemes ws
      simpa [operandLexemes, Token.written, toSql, render, leafSql, Except.toOption] using hcount
    | _ => rfl

theorem count_mark_lexemes {ts : List (Token Filter)} (hops : ∀ f ∈ operands ts, f.IsOperand) :
    (ts.flatMap Token.lexemes).count .mark = (paramsOf ts).length := by
  induction ts with
  | nil => rfl
  | cons t ts ih =>
    have hrest := ih fun f hf => hops f (mem_operands_cons t hf)
    rw [List.flatMap_cons, List.count_append, hrest, paramsOf_cons, List.length_append]
    cases t with
    | operand f => rw [Token.lexemes, count_mark_operand (hops f (by simp [operands]))]
    | _ => rfl

theorem lexemes_of_toSql {f : Filter} {c : SqlCondition} (h : f.toSql = .ok c) :
    lexemes c.sql = some (f.tokens.flatMap Token.lexemes) := by
  have hwrites := writes_tokens h
  obtain ⟨level, last, hrun, -⟩ := resolves_tokens f []
  have hscan := scan_textOf [] hrun hwrites.operands stops_nil
  rw [lexemes, hwrites.sql]
  simpa [scan, Place.ended?] using hscan

theorem conditionTokens_of_toSql {f : Filter} {c : SqlCondition} (h : f.toSql = .ok c) :
    conditionTokens c = some f.tokens := by
  have hwrites := writes_tokens h
  rw [conditionTokens, lexemes_of_toSql h, hwrites.params]
  exact tokensOf_lexemes hwrites.operands

theorem read_of_toSql {f : Filter} {c : SqlCondition} (h : f.toSql = .ok c) :
    read c = some f.collapse := by
  rw [read, conditionTokens_of_toSql h]
  exact (resolves_tokens f).resolve

theorem marks_of_toSql {f : Filter} {c : SqlCondition} (h : f.toSql = .ok c) :
    marks c.sql = c.params.length := by
  have hwrites := writes_tokens h
  have hcount := count_mark_of_scan (lexemes_of_toSql h)
  rw [hwrites.params, ← count_mark_lexemes hwrites.operands, hcount]
  rfl

/-- The text of a condition has a question mark outside names for each parameter, and with the
parameters it reads back as the filter, up to groups of one clause. No other filter, up to such
groups, is rendered so. -/
theorem toSql_readable (f : Filter) (c : SqlCondition) (h : f.toSql = .ok c) :
    marks c.sql = c.params.length ∧ read c = some f.collapse ∧
      ∀ g : Filter, g.toSql = .ok c → g.collapse = f.collapse := by
  refine ⟨marks_of_toSql h, read_of_toSql h, fun g hg => ?_⟩
  exact Option.some.inj ((read_of_toSql hg).symm.trans (read_of_toSql h))

theorem toSql_readable_quotes :
    let leaf := Filter.leaf "a\" = ?) OR (\"" .equal .null
    let list := Filter.leaf "b" .isIn (.list [.bool true, .list []])
    let f := Filter.group .and [.group .or [.group .or [leaf, list]], .group .or []]
    let c : SqlCondition :=
      ⟨"((\"a\"\" = ?) OR (\"\"\" = ?) OR (\"b\" IN (?, ?))) AND (1 = 0)",
        [.null, .bool true, .list []]⟩
    f.toSql = .ok c ∧ marks c.sql = 3 ∧
      read c = some (.group .and [.group .or [leaf, list], .group .or []]) ∧
      ∀ g : Filter, g.toSql = .ok c → g.collapse = f.collapse := by
  intro leaf list f c
  have h : f.toSql = .ok c := by rfl
  exact ⟨h, toSql_readable f c h⟩

end Rulebook.Sql
