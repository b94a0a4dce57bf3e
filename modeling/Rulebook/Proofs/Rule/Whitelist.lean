import Mathlib.Data.List.Chain
import Rulebook.Proofs.Rule.Acceptance
import Rulebook.Proofs.Rule.Refusal

/-! What the text of a rule consists of: safe literals between its quotes, and outside of them
names, plain decimals, `null` and the marks of the notation, one of which stands between any two of
the others. So a rule that is written says nothing but what its statements say. -/

namespace Rulebook.Rule
open Rulebook.Expr

inductive Mark where
  | opening
  | comma
  | closing
  | call
  | ending
  | sign (op : Comparator)
  | joint (c : Connective)
  | question
  | colon

def Mark.text : Mark → String
  | .opening => "\x7b"
  | .comma => ","
  | .closing => "\x7d"
  | .call => ".contains("
  | .ending => ")"
  | .sign op => " " ++ op.sign ++ " "
  | .joint c => c.joint
  | .question => " ? "
  | .colon => " : "

inductive Word where
  | mark (m : Mark)
  | name (f : FieldForm)
  | decimal (s : String) (plain : Number.isPlain s = true)
  | null

def Word.text : Word → String
  | .mark m => m.text
  | .name f => f.text
  | .decimal s _ => s
  | .null => "null"

inductive Piece where
  | word (w : Word)
  | quoted (s : String) (safe : isSafeLiteral s = true)

namespace Piece

def text : Piece → String
  | .word w => w.text
  | .quoted s _ => "'" ++ s ++ "'"

def isMark : Piece → Bool
  | .word (.mark _) => true
  | _ => false

def Apart (p q : Piece) : Prop := p.isMark = true ∨ q.isMark = true

end Piece

open Piece (Apart)

def IsPieced (text : String) : Prop :=
  ∃ ps : List Piece, ps.IsChain Apart ∧ text = String.join (ps.map (·.text))

def IsWorded (text : String) : Prop :=
  ∃ ws : List Word, (ws.map Piece.word).IsChain Apart ∧ text = String.join (ws.map (·.text))

/-- Words and safe literals by turns, from words to words. -/
inductive Alternates : List String → Prop
  | last {outside : String} (h : IsWorded outside) : Alternates [outside]
  | quoted {outside inside : String} {parts : List String} (h : IsWorded outside)
      (safe : isSafeLiteral inside = true) (rest : Alternates parts) :
      Alternates (outside :: inside :: parts)

/-- The parts of a text that its quotes bound: the first one stands outside of quotes, the second
one inside, and so on. -/
def quoteParts (text : String) : List String := (text.toList.splitOn '\'').map String.ofList

theorem Mark.quote_not_mem (m : Mark) : '\'' ∉ m.text.toList := by
  cases m with
  | sign op => cases op <;> decide
  | joint c => cases c <;> decide
  | _ => decide

theorem Word.quote_not_mem (w : Word) : '\'' ∉ w.text.toList := by
  cases w with
  | mark m => exact m.quote_not_mem
  | name f =>
    intro hm
    exact absurd (f.isNameRest _ hm) (by decide)
  | decimal s plain =>
    intro hm
    exact absurd (isBare_of_isPlain plain _ hm) (by decide)
  | null => decide

theorem quote_not_mem_join (ws : List Word) :
    '\'' ∉ (String.join (ws.map (·.text))).toList := by
  induction ws with
  | nil => simp
  | cons w ws ih =>
    rw [List.map_cons, String.join_cons, String.toList_append, List.mem_append, not_or]
    exact ⟨w.quote_not_mem, ih⟩

theorem quoteParts_of_not_mem {text : String} (h : '\'' ∉ text.toList) :
    quoteParts text = [text] := by
  rw [quoteParts, List.splitOn_eq_singleton h]
  simp

theorem quoteParts_quoted {outside inside : String} (ho : '\'' ∉ outside.toList)
    (hi : '\'' ∉ inside.toList) (rest : String) :
    quoteParts (outside ++ ("'" ++ inside ++ "'" ++ rest)) =
      outside :: inside :: quoteParts rest := by
  have hsplit : (outside ++ ("'" ++ inside ++ "'" ++ rest)).toList =
      outside.toList ++ '\'' :: (inside.toList ++ '\'' :: rest.toList) := by simp
  rw [quoteParts, hsplit, List.splitOn_append_cons_self, List.splitOn_append_cons_self,
    List.splitOn_eq_singleton ho, List.splitOn_eq_singleton hi]
  simp [quoteParts]

theorem alternates_pieces (ps : List Piece) (ws : List Word)
    (h : (ws.map Piece.word ++ ps).IsChain Apart) :
    Alternates (quoteParts (String.join (ws.map (·.text)) ++ String.join (ps.map (·.text)))) := by
  induction ps generalizing ws with
  | nil =>
    rw [List.append_nil] at h
    rw [List.map_nil, String.join_nil, String.append_empty,
      quoteParts_of_not_mem (quote_not_mem_join ws)]
    exact .last ⟨ws, h, rfl⟩
  | cons p ps ih =>
    rw [List.map_cons, String.join_cons]
    cases p with
    | word w =>
      have hsnoc := ih (ws ++ [w]) (by simpa using h)
      simpa [String.append_assoc, Piece.text] using hsnoc
    | quoted s safe =>
      have hrest := ih [] h.right_of_append.tail
      rw [Piece.text, quoteParts_quoted (quote_not_mem_join ws) (not_mem_of_isSafeLiteral safe)]
      exact .quoted ⟨ws, h.left_of_append, rfl⟩ safe (by simpa using hrest)

theorem IsPieced.alternates {text : String} (h : IsPieced text) :
    Alternates (quoteParts text) := by
  obtain ⟨ps, hchain, rfl⟩ := h
  simpa using alternates_pieces ps [] hchain

theorem isPieced_empty : IsPieced "" := ⟨[], .nil, rfl⟩

theorem Piece.isPieced (p : Piece) : IsPieced p.text := ⟨[p], .singleton p, by simp⟩

theorem IsPieced.around {before after : String} (hb : IsPieced before) (m : Mark)
    (ha : IsPieced after) : IsPieced (before ++ m.text ++ after) := by
  obtain ⟨ps, hps, rfl⟩ := hb
  obtain ⟨qs, hqs, rfl⟩ := ha
  refine ⟨ps ++ .word (.mark m) :: qs, ?_, ?_⟩
  · refine hps.append (hqs.cons fun q _ => .inl rfl) fun p _ q hq => .inr ?_
    obtain rfl : Piece.word (.mark m) = q := by simpa using hq
    rfl
  · simp [Piece.text, Word.text, String.append_assoc]

theorem isPieced_of_quote {t : LooseText} {s : String} (h : quote t = .ok s) : IsPieced s := by
  obtain ⟨v, hv, hs⟩ := of_bind_ok h
  rw [← Except.ok.inj hs]
  exact (Piece.quoted v (of_checkLiteral hv).2).isPieced

theorem isPieced_of_checkField {t : LooseText} {s : String} (h : checkField t = .ok s) :
    IsPieced s := by
  obtain ⟨f, -, rfl⟩ := of_checkField h
  exact (Piece.word (.name f)).isPieced

theorem isPieced_of_orderedLiteral {t : LooseText} {s : String} (h : orderedLiteral t = .ok s) :
    IsPieced s := by
  rw [orderedLiteral] at h
  split at h
  case isTrue hplain =>
    rw [(of_checkLiteral h).1, LooseText.string?_ofString] at hplain
    exact (Piece.word (.decimal s hplain)).isPieced
  case isFalse => exact isPieced_of_quote h

theorem isPieced_joinCommas {ss : List String} (h : ∀ s ∈ ss, IsPieced s) :
    IsPieced (Text.joinCommas ss) := by
  induction ss with
  | nil => exact isPieced_empty
  | cons s ss ih =>
    have hs := h s (by simp)
    have hss := ih fun t ht => h t (by simp [ht])
    cases ss with
    | nil => simpa [Text.joinCommas] using hs
    | cons t ss =>
      rw [Text.joinCommas, String.intercalate_cons_cons]
      exact hs.around .comma hss

theorem isPieced_of_mapM_quote {ts : List LooseText} {ss : List String}
    (h : ts.mapM quote = .ok ss) : ∀ s ∈ ss, IsPieced s := by
  induction ts generalizing ss with
  | nil =>
    cases h
    simp
  | cons t ts ih =>
    rw [List.mapM_cons] at h
    obtain ⟨s, hs, h⟩ := of_bind_ok h
    obtain ⟨ss, hss, h⟩ := of_bind_ok h
    rw [← Except.ok.inj h]
    exact List.forall_mem_cons.2 ⟨isPieced_of_quote hs, ih hss⟩

theorem IsPieced.compared {field text : String} {written : Except UnsafeText String}
    (hf : IsPieced field) (op : Comparator) (hw : ∀ s, written = .ok s → IsPieced s)
    (h : (written >>= fun s => pure (field ++ (" " ++ op.sign ++ " ") ++ s)) = .ok text) :
    IsPieced text := by
  obtain ⟨s, hs, htext⟩ := of_bind_ok h
  rw [← Except.ok.inj htext]
  exact hf.around (.sign op) (hw s hs)

theorem isPieced_writeStatement {s : Statement} {text : String}
    (h : writeStatement s = .ok text) : IsPieced text := by
  unfold writeStatement at h
  split at h
  case h_1 => exact isPieced_of_quote h
  case h_2 op _ =>
    obtain ⟨field, hfield, h⟩ := of_bind_ok h
    have hfield := isPieced_of_checkField hfield
    cases op
    case containsSet =>
      obtain ⟨members, hmembers, htext⟩ := of_bind_ok h
      have hset := isPieced_joinCommas (isPieced_of_mapM_quote hmembers)
      have hclosed := (isPieced_empty.around .opening hset).around .closing isPieced_empty
      have hcall := (hclosed.around .call hfield).around .ending isPieced_empty
      have hmarks : "\x7d.contains(" = "\x7d" ++ ".contains(" := rfl
      rw [← Except.ok.inj htext, hmarks]
      simpa [Mark.text, String.append_assoc] using hcall
    case containsSubstring =>
      obtain ⟨value, hvalue, htext⟩ := of_bind_ok h
      have hcall := (hfield.around .call (isPieced_of_quote hvalue)).around .ending isPieced_empty
      rw [← Except.ok.inj htext]
      simpa [Mark.text] using hcall
    case equals => exact hfield.compared .equal (fun s hs => isPieced_of_quote hs) h
    case notEquals => exact hfield.compared .notEqual (fun s hs => isPieced_of_quote hs) h
    case greaterThan => exact hfield.compared .greater (fun s hs => isPieced_of_orderedLiteral hs) h
    case lessThan => exact hfield.compared .less (fun s hs => isPieced_of_orderedLiteral hs) h

theorem isPieced_writeRest {g : Group} {text before : String} (h : writeRest g = .ok text)
    (hb : IsPieced before) : IsPieced (before ++ text) := by
  induction g generalizing text before with
  | nil =>
    cases h
    simpa using hb
  | cons s g ih =>
    obtain ⟨first, hfirst, hrest⟩ := of_bind_ok h
    obtain ⟨tail, htail, htext⟩ := of_bind_ok hrest
    have hjoined := hb.around (.joint (s.connective.getD .and)) (isPieced_writeStatement hfirst)
    rw [← Except.ok.inj htext, ← String.append_assoc, ← String.append_assoc]
    exact ih htail hjoined

theorem isPieced_writeGroup {g : Group} {text : String} (h : writeGroup g = .ok text) :
    IsPieced text := by
  unfold writeGroup at h
  split at h
  case h_1 =>
    cases h
    exact isPieced_empty
  case h_2 =>
    obtain ⟨start, hstart, hrest⟩ := of_bind_ok h
    obtain ⟨tail, htail, htext⟩ := of_bind_ok hrest
    rw [← Except.ok.inj htext]
    exact isPieced_writeRest htail (isPieced_writeStatement hstart)

theorem isPieced_writeElse {g : Group} {text : String} (h : writeElse g = .ok text) :
    IsPieced text := by
  rw [writeElse] at h
  split at h
  case isTrue => exact isPieced_writeGroup h
  case isFalse =>
    cases h
    exact (Piece.word .null).isPieced

theorem isPieced_write {r : Rule} {text : String} (hc : r.isComplete .condition = true)
    (ht : r.isComplete .thenBranch = true) (h : r.write = .ok text) : IsPieced text := by
  obtain ⟨condition, thenText, elseText, hcondition, hthen, helse, rfl⟩ := of_write hc ht h
  exact ((isPieced_writeGroup hcondition).around .question (isPieced_writeGroup hthen)).around
    .colon (isPieced_writeElse helse)

/-- A rule has the empty text just while its condition or its `thenBranch` is incomplete, whatever
it holds. A complete one is refused just for the first of its places that is not safe. In a text
that is written all that is quoted is safe, and all around the quotes are words. -/
theorem write_outcome (r : Rule) :
    (r.write = .ok "" ↔
      ¬(r.isComplete .condition = true ∧ r.isComplete .thenBranch = true)) ∧
    (∀ e, r.write = .error e ↔
      (r.isComplete .condition = true ∧ r.isComplete .thenBranch = true) ∧
      ∃ before p after, r.places = before ++ p :: after ∧
        (∀ q ∈ before, q.isSafe = true) ∧ p.isSafe = false ∧ p.refusal = e) ∧
    (∀ text, r.write = .ok text → text ≠ "" → Alternates (quoteParts text)) := by
  by_cases hr : r.isComplete .condition = true ∧ r.isComplete .thenBranch = true
  · refine ⟨⟨fun h => ?_, fun h => absurd hr h⟩, fun e => ?_, fun text h _ => ?_⟩
    · have hne := (isSealed_write hr.1 hr.2 h).nonempty
      exact absurd rfl hne
    · rw [checks_write hr.1 hr.2 e, Place.refusal?_eq_some]
      exact ⟨fun h => ⟨hr, h⟩, fun h => h.2⟩
    · exact (isPieced_write hr.1 hr.2 h).alternates
  · have hempty : r.write = .ok "" := by
      rw [write, if_neg (by simpa using hr)]
    refine ⟨⟨fun _ => hr, fun _ => hempty⟩, fun e => ?_, fun text h hne => ?_⟩
    · rw [hempty]
      constructor
      · intro h
        cases h
      · exact fun h => absurd h.1 hr
    · rw [hempty] at h
      exact absurd (Except.ok.inj h).symm hne

def adults (thenValue : LooseText) : Rule where
  condition := [
    { field := some "age", operator := some .greaterThan, value := some "17.5" }, {},
    { field := some "name", operator := some .containsSet, value := some "a, b" }]
  thenBranch := [{ value := some thenValue }]
  elseBranch := [{ connective := some .or }]

theorem write_outcome_adults :
    (adults "x").write = .ok "age > 17.5 and \x7b'a','b'\x7d.contains(name) ? 'x' : null" ∧
    Alternates (quoteParts "age > 17.5 and \x7b'a','b'\x7d.contains(name) ? 'x' : null") ∧
    (adults "it's").write = .error (.literal "it's") := by
  have hwrite : (adults "x").write =
      .ok "age > 17.5 and \x7b'a','b'\x7d.contains(name) ? 'x' : null" := by decide
  obtain ⟨-, -, halternates⟩ := write_outcome (adults "x")
  obtain ⟨-, hrefused, -⟩ := write_outcome (adults "it's")
  refine ⟨hwrite, halternates _ hwrite (by decide), (hrefused _).2 ⟨by decide, ?_⟩⟩
  refine ⟨(adults "it's").condition.places, .literal "it's", [], ?_, ?_, ?_, rfl⟩
  all_goals decide

end Rulebook.Rule
