import Mathlib
import Rulebook.Command.Run
import Rulebook.Proofs.Expr.Rejection
import Rulebook.Proofs.RulesFile.Document
import Rulebook.Proofs.RulesFile.Nearest

/-! From the document of a rules file to the verdict of a check: which rules are marked as valid,
how many are counted as failures, and how the run ends. -/

namespace Rulebook

theorem Problem.report?_invalid (file : String) (e : ConfigViolation) :
    report? (.config (.invalid file e)) = some ⟨Definition.invalidConfig.domain,
      Definition.invalidConfig.fullCode, "Invalid rules file " ++ file ++ ": " ++ e.text,
      [("file", .text file), ("reason", .text e.text)], Definition.invalidConfig.facetNames⟩ := by
  have hfill : LooseText.ofString "Invalid rules file " ++ (LooseText.ofString file ++
        (LooseText.ofString ": " ++ (e.text ++ LooseText.ofString ""))) =
      "Invalid rules file " ++ file ++ ": " ++ e.text := by
    simp only [LooseText.append_empty, LooseText.append_assoc]
  rw [← hfill]
  rfl

section Load

variable {read : DocumentReader} {t : FileTree} {p : Path} {content : String} {d : Document}
  {f : RulesFile}

theorem RulesFile.ofText_eq_ofDocument (hread : read content = .ok d) :
    ofText read content = ofDocument d := by
  rw [ofText, hread]
  rfl

theorem RulesFile.ofText_eq_malformed {e : ReadError} (hread : read content = .error e) :
    ofText read content = .error (.malformed e) := by
  rw [ofText, hread]
  rfl

theorem RulesConfig.load_eq (hfile : t.file? p = some content) :
    load read t p =
      match RulesFile.ofText read content with
      | .ok f => .ok ⟨p, f⟩
      | .error e => .error (.invalid p.text e) := by
  have hentry := FileTree.file?_eq_some_iff.1 hfile
  cases hread : RulesFile.ofText read content with
  | ok f => simp only [load, hentry, hread]
  | error e => simp only [load, hentry, hread]

end Load

namespace Command

variable {rules : List NamedRule} {rule : NamedRule} {expression : String}

theorem syntaxProblem?_eq_none_iff :
    syntaxProblem? expression = none ↔ Expr.isRule expression = true := by
  rw [syntaxProblem?, Expr.isRule]
  cases Expr.parse expression with
  | ok c => exact iff_of_true rfl rfl
  | error e => exact iff_of_false (Option.some_ne_none _) Bool.false_ne_true

structure Marks (rule : NamedRule) (line : String) : Prop where
  valid : line = "✓ " ++ rule.name.shown ↔ Expr.isRule rule.expression.shown = true
  invalid : ∀ e, Expr.parse rule.expression.shown = .error e →
    line = "✗ " ++ rule.name.shown ++ ": " ++ e.refusal.text.shown ++ " (at position " ++
      toString e.index ++ ")"

theorem marks_checkLine (rule : NamedRule) : Marks rule (checkLine rule) := by
  constructor
  · rw [← syntaxProblem?_eq_none_iff, checkLine]
    cases syntaxProblem? rule.expression.shown with
    | none => exact iff_of_true rfl rfl
    | some problem =>
      refine iff_of_false (fun h => ?_) (Option.some_ne_none _)
      have hhead := congrArg (fun s : String => s.toList.head?) h
      simp at hhead
  · intro e he
    rw [checkLine, syntaxProblem?, he]
    simp only [String.append_assoc]

structure IsReport (rules : List NamedRule) (r : CheckReport) : Prop where
  failures : r.failures = rules.countP fun rule => !Expr.isRule rule.expression.shown
  output : ∃ lines, List.Forall₂ Marks rules lines ∧
    r.output = String.intercalate "\n" (lines ++
      [toString (rules.length - r.failures) ++ " of " ++ toString rules.length ++ " rule" ++
        (if rules.length = 1 then "" else "s") ++ " valid"])

theorem isReport_checkRules (rules : List NamedRule) : IsReport rules (checkRules rules) := by
  have hlines : List.Forall₂ Marks rules (rules.map checkLine) := by
    rw [List.forall₂_map_right_iff, List.forall₂_same]
    exact fun rule _ => marks_checkLine rule
  refine ⟨List.countP_congr fun rule _ => ?_, _, hlines, rfl⟩
  rw [Option.isSome_iff_ne_none, ne_eq, syntaxProblem?_eq_none_iff, Bool.not_eq_true,
    Bool.not_eq_true']

theorem IsReport.failures_le {r : CheckReport} (h : IsReport rules r) :
    r.failures ≤ rules.length := by
  rw [h.failures]
  exact List.countP_le_length

/-- The run prints the report. Its exit code is 1 with failures and 0 without. -/
def EndsWith (r : CheckReport) (o : Outcome) : Prop :=
  ∃ exit rest stderr, o = .finished exit (r.output ++ "\n" ++ rest) stderr ∧
    (exit = 1 ↔ 0 < r.failures) ∧ (exit = 0 ↔ r.failures = 0)

theorem endsWith_ofCheck (r : CheckReport) : EndsWith r (ofCheck (.ok r)) := by
  rw [ofCheck]
  by_cases h : 0 < r.failures
  · rw [if_pos h]
    refine ⟨1, "", _, by rw [String.append_empty], iff_of_true rfl h, ?_⟩
    exact iff_of_false Nat.one_ne_zero (Nat.ne_of_gt h)
  · rw [if_neg h]
    refine ⟨0, "All expressions parse\n", "", ?_, iff_of_false Nat.zero_ne_one h, ?_⟩
    · rw [String.append_assoc]
      rfl
    · exact iff_of_true rfl (Nat.eq_zero_of_not_pos h)

/-- The rules file of a check: the one it is told, or the nearest one. -/
def Chooses (w : Workplace) (p : Path) : (config : Option String) → Prop
  | some file => w.directory.resolve file = p
  | none => RulesConfig.IsNearest w.files w.directory p

section Run

variable {read : DocumentReader} {w : Workplace} {config : Option String} {p : Path}
  {content : String} {f : RulesFile} {e : ConfigViolation} {argv : List String}

theorem require_eq_load (h : Chooses w p config) :
    RulesConfig.require read w.files w.directory config = RulesConfig.load read w.files p := by
  have hresolve : RulesConfig.resolve read w.files w.directory config =
      some <$> RulesConfig.load read w.files p := by
    cases config with
    | some file => rw [RulesConfig.resolve, (h : w.directory.resolve file = p)]
    | none => exact RulesConfig.IsNearest.find_eq h
  rw [RulesConfig.require, hresolve]
  cases RulesConfig.load read w.files p <;> rfl

theorem check_eq (h : Chooses w p config) (hfile : w.files.file? p = some content) :
    check read w none config =
      match RulesFile.ofText read content with
      | .ok f => .ok (checkRules f.rules)
      | .error e => .error (.config (.invalid p.text e)) := by
  rw [check, require_eq_load h, RulesConfig.load_eq hfile]
  cases RulesFile.ofText read content <;> rfl

theorem run_eq (hargv : request argv = .run (.check none config)) :
    run read w argv = ofCheck (check read w none config) := by
  rw [run, hargv]
  rfl

end Run

/-- A document is read as it should be, unless it is an object that passes for a mapping without
being one: then it counts as empty. A file whose text is no document is reported with the message of
the reader's error. A check of an accepted file marks its rules in their order and counts those that
are none as failures, and with failures the exit code is 1. -/
theorem verdict_of_document (read : DocumentReader) (d : Document) :
    (((∀ f, RulesFile.ofDocument d = .ok f ↔ f.IsIn d) ∧
        ∀ e, RulesFile.ofDocument d = .error e ↔ RulesFile.Violates d e) ↔ d ≠ .other) ∧
      (d = .other → RulesFile.ofDocument d = .ok ⟨.ofNat 1, none, []⟩) ∧
      (∀ file e, Problem.report? (.config (.invalid file e)) =
        some ⟨Definition.invalidConfig.domain, Definition.invalidConfig.fullCode,
          "Invalid rules file " ++ file ++ ": " ++ e.text,
          [("file", .text file), ("reason", .text e.text)],
          Definition.invalidConfig.facetNames⟩) ∧
      ∀ (w : Workplace) (config : Option String) (p : Path) (content : String),
        Chooses w p config → w.files.file? p = some content →
          (∀ e, read content = .error e →
            check read w none config = .error (.config (.invalid p.text (.malformed e)))) ∧
          (read content = .ok d →
            (∀ e, RulesFile.ofDocument d = .error e →
              check read w none config = .error (.config (.invalid p.text e))) ∧
            ∀ f, RulesFile.ofDocument d = .ok f → ∃ r,
              check read w none config = .ok r ∧ IsReport f.rules r ∧
              r.failures ≤ f.rules.length ∧ EndsWith r (ofCheck (.ok r)) ∧
              ∀ argv, request argv = .run (.check none config) →
                run read w argv = ofCheck (.ok r)) := by
  refine ⟨RulesFile.ofDocument_iff, fun hother => hother ▸ rfl, Problem.report?_invalid,
    fun w config p content hchooses hfile => ⟨fun e hread => ?_, fun hread => ⟨fun e he => ?_,
      fun f hf => ?_⟩⟩⟩
  · rw [check_eq hchooses hfile, RulesFile.ofText_eq_malformed hread]
  · rw [check_eq hchooses hfile, RulesFile.ofText_eq_ofDocument hread, he]
  · have hreport := isReport_checkRules f.rules
    have hcheck : check read w none config = .ok (checkRules f.rules) := by
      rw [check_eq hchooses hfile, RulesFile.ofText_eq_ofDocument hread, hf]
    refine ⟨_, hcheck, hreport, hreport.failures_le, endsWith_ofCheck _, fun argv hargv => ?_⟩
    rw [run_eq hargv, hcheck]

/-- One of two rules fails, and the exit code is 1. -/
theorem verdict_of_document_oneFailure :
    let content := "rules:\n- name: a\n  expression: a==b?c:d\n- name: b\n  expression: x\n"
    let entry (name expression : String) : Value :=
      .record [("name", .text name), ("expression", .text expression)]
    let read : DocumentReader := fun _ =>
      .ok (.plain (.record [("rules", .list [entry "a" "a==b?c:d", entry "b" "x"])]))
    let w : Workplace := ⟨⟨[(⟨["quill.yaml"]⟩, .file content)]⟩, .root⟩
    ∃ r, check read w none none = .ok r ∧ r.failures = 1 ∧ ∃ rest stderr,
      run read w ["check"] = .finished 1 (r.output ++ "\n" ++ rest) stderr := by
  intro content entry read w
  let p : Path := ⟨["quill.yaml"]⟩
  let rules : List NamedRule := [⟨"a", "a==b?c:d"⟩, ⟨"b", "x"⟩]
  have hnearest : Chooses w p none := RulesConfig.nearest?_eq_some_iff.1 (by decide)
  obtain ⟨-, -, -, hcheck⟩ := verdict_of_document read
    (.plain (.record [("rules", .list [entry "a" "a==b?c:d", entry "b" "x"])]))
  obtain ⟨-, hread⟩ := hcheck w none p content hnearest rfl
  obtain ⟨-, haccepted⟩ := hread rfl
  obtain ⟨r, hr, hreport, -, ⟨exit, rest, stderr, hends, hexit, -⟩, hrun⟩ :=
    haccepted ⟨.ofNat 1, none, rules⟩ (by decide +kernel)
  have hfailures : r.failures = 1 := by
    rw [hreport.failures, ← (isReport_checkRules rules).failures]
    cbv
  obtain rfl := hexit.2 (by rw [hfailures]; decide)
  exact ⟨r, hr, hfailures, rest, stderr, (hrun ["check"] (by decide)).trans hends⟩

/-- A tagged day is no mapping, but it is taken for an empty one. -/
theorem load_day :
    let read : DocumentReader := fun _ => .ok .other
    let p : Path := ⟨["quill.yaml"]⟩
    let t : FileTree := ⟨[(p, .file "!!timestamp 2001-12-14")]⟩
    RulesFile.Violates .other .notMapping ∧
      RulesConfig.load read t p = .ok ⟨p, ⟨.ofNat 1, none, []⟩⟩ ∧
      ¬ ∀ e, RulesFile.ofDocument .other = .error e ↔ RulesFile.Violates .other e := by
  intro read p t
  exact ⟨rfl, rfl, fun h => nomatch (h .notMapping).2 rfl⟩

end Command

end Rulebook
