import Rulebook.Fault.Chain

/-! What is printed of a fault and its causes: the fault, and below it every cause in order, each
two spaces further in than the one before. So a fault is printed as its own lines, and below them
its cause as this one is printed alone, moved in by two spaces. -/

namespace Rulebook

namespace LooseText

def concat (ts : List LooseText) : LooseText := ⟨ts.flatMap glyphs⟩

theorem concat_nil : concat [] = "" := rfl

theorem concat_cons (t : LooseText) (ts : List LooseText) : concat (t :: ts) = t ++ concat ts :=
  congrArg mk List.flatMap_cons

theorem concat_append (ts us : List LooseText) : concat (ts ++ us) = concat ts ++ concat us :=
  congrArg mk List.flatMap_append

theorem joined_eq_concat (separator first : LooseText) (rest : List LooseText) :
    joined separator (first :: rest) = first ++ concat (rest.map (separator ++ ·)) := by
  induction rest generalizing first with
  | nil => exact (append_empty first).symm
  | cons t rest ih =>
    rw [joined, ih, List.map_cons, concat_cons]
    · simp only [append_assoc]
    · exact List.cons_ne_nil _ _

end LooseText

/-- What is printed of one fault in a chain: a defined fault or a plain error, without its causes,
or the text of a bare value. -/
inductive Link where
  | report (r : Report)
  | plain (name message : LooseText)
  | text (t : LooseText)

namespace Link

def headline : Link → LooseText
  | .report r => LooseText.ofString (r.code ++ ": ") ++ r.message
  | .plain name message => name ++ ": " ++ message
  | .text t => t

def detail? : Link → Option String
  | .report r => if r.data = [] then none else some ("data: " ++ r.dataJson)
  | _ => none

def block (indent : Nat) (l : Link) : LooseText :=
  l.headline ++
    LooseText.ofString (l.detail?.elim "" fun detail => "\n" ++ spaces (indent + 2) ++ detail)

theorem block_report (r : Report) (indent : Nat) :
    block indent (.report r) = r.block .plain indent := by
  rw [block, headline, detail?, Report.block]
  by_cases hdata : r.data = []
  · simp [hdata, Palette.plain]
  · simp [hdata, Palette.plain, String.append_assoc]

def causeLead : String := "└ caused by: "

def below (indent : Nat) (links : List Link) : LooseText :=
  .concat (links.mapIdx fun i l =>
    LooseText.ofString ("\n" ++ spaces (indent + 2 * i) ++ causeLead) ++ l.block (indent + 2 * i))

theorem below_cons (indent : Nat) (l : Link) (links : List Link) :
    below indent (l :: links) = LooseText.ofString ("\n" ++ spaces indent ++ causeLead) ++
      l.block indent ++ below (indent + 2) links := by
  have hplace (i : Nat) : indent + 2 * (i + 1) = indent + 2 + 2 * i := by omega
  simp only [below, List.mapIdx_cons, LooseText.concat_cons, hplace, Nat.mul_zero, Nat.add_zero]

end Link

namespace Fault

/-- The links of a cause and the causes below it. A bare value ends the chain, and it has to have a
text. -/
inductive Chain : Fault → List Link → Prop
  | nothing : Chain .nothing []
  | value {v : Value} {t : LooseText} (text : v.display = .ok t) : Chain (.value v) [.text t]
  | report (r : Report) {cause : Fault} {links : List Link} (rest : Chain cause links) :
      Chain (.report r cause) (.report r :: links)
  | plain (name message : LooseText) {cause : Fault} {links : List Link}
      (rest : Chain cause links) : Chain (.plain name message cause) (.plain name message :: links)

variable {cause : Fault} {links : List Link}

/-- What is printed of a cause, with a break before every line, is what its links say below another
one. -/
def Prints (indent : Nat) (cause : Fault) (links : List Link) : Prop :=
  ∃ lines, causeLines .plain indent cause = .ok lines ∧
    .concat (lines.map ("\n" ++ ·)) = Link.below indent links

theorem line_eq {l : Link} {indent : Nat} (h : cause.block .plain indent = .ok (l.block indent)) :
    causeLines.line .plain indent cause =
      .ok (LooseText.ofString (spaces indent ++ Link.causeLead) ++ l.block indent) := by
  rw [causeLines.line, h]
  simp [Palette.plain, Link.causeLead, bind, Except.bind, pure, Except.pure, String.append_assoc]

theorem Prints.cons {deeper : Fault} {l : Link} {indent : Nat}
    (hlines : causeLines .plain indent cause = do
      let first ← causeLines.line .plain indent cause
      return first :: (← causeLines .plain (indent + 2) deeper))
    (hblock : cause.block .plain indent = .ok (l.block indent))
    (h : Prints (indent + 2) deeper links) : Prints indent cause (l :: links) := by
  obtain ⟨lines, hdeeper, hjoin⟩ := h
  refine ⟨(LooseText.ofString (spaces indent ++ Link.causeLead) ++ l.block indent) :: lines, ?_, ?_⟩
  · rw [hlines, line_eq hblock, hdeeper]
    rfl
  · rw [Link.below_cons, ← hjoin, List.map_cons, LooseText.concat_cons]
    simp only [LooseText.ofString_append, LooseText.append_assoc]

theorem prints_nothing (indent : Nat) : Prints indent .nothing [] := ⟨[], rfl, rfl⟩

theorem Chain.prints (hchain : cause.Chain links) (indent : Nat) : Prints indent cause links := by
  -- The causes of a cause stand two spaces further in, so the induction is for every indent.
  induction hchain generalizing indent with
  | nothing => exact prints_nothing indent
  | @value v t text =>
    have hblock : block .plain indent (.value v) = .ok (Link.block indent (.text t)) := by
      rw [block, text]
      exact congrArg Except.ok (LooseText.append_empty t).symm
    exact .cons rfl hblock (prints_nothing (indent + 2))
  | report r rest ih =>
    exact .cons rfl (congrArg Except.ok (Link.block_report r indent).symm) (ih (indent + 2))
  | plain name message rest ih =>
    exact .cons rfl (congrArg Except.ok (LooseText.append_empty _).symm) (ih (indent + 2))

theorem Chain.pretty?_report (hchain : cause.Chain links) (r : Report) :
    (Fault.report r cause).pretty? false =
      some (.ok ("QuillError: " ++ Link.block 0 (.report r) ++ Link.below 2 links)) := by
  obtain ⟨lines, hlines, hjoin⟩ := hchain.prints 2
  have hcolor : Palette.ofColor false = .plain := rfl
  rw [Link.block_report, ← hjoin]
  simp only [pretty?, hcolor, hlines, Report.headline]
  exact congrArg (fun t => some (Except.ok t)) (LooseText.joined_eq_concat ..)

end Fault

/-- A line, and how far its place in the chain moves it in. A text that breaks over several lines is
moved in at its first line only. -/
structure Line where
  indent : Nat
  text : LooseText

namespace Line

def shift (n : Nat) (l : Line) : Line := { l with indent := l.indent + n }

def written (l : Line) : LooseText := LooseText.ofString (spaces l.indent) ++ l.text

def printed (lines : List Line) : LooseText := .joined "\n" (lines.map written)

def broken (lines : List Line) : LooseText := .concat (lines.map fun l => "\n" ++ l.written)

theorem printed_cons (l : Line) (lines : List Line) :
    printed (l :: lines) = l.written ++ broken lines := by
  rw [printed, List.map_cons, LooseText.joined_eq_concat, List.map_map, broken]
  rfl

theorem broken_append (before after : List Line) :
    broken (before ++ after) = broken before ++ broken after := by
  rw [broken, List.map_append, LooseText.concat_append, broken, broken]

theorem broken_cons (l : Line) (lines : List Line) :
    broken (l :: lines) = "\n" ++ printed (l :: lines) := by
  rw [printed_cons, broken, List.map_cons, LooseText.concat_cons, broken, LooseText.append_assoc]

theorem map_shift_zero (lines : List Line) : lines.map (shift 0) = lines :=
  List.map_id lines

theorem map_shift_shift (m n : Nat) (lines : List Line) :
    (lines.map (shift m)).map (shift n) = lines.map (shift (n + m)) := by
  rw [List.map_map]
  refine List.map_congr_left fun l _ => ?_
  rw [Function.comp_apply, shift, shift, shift, Nat.add_assoc, Nat.add_comm m n]

end Line

namespace Link
open Line

def details (l : Link) : List Line := l.detail?.toList.map fun detail => ⟨2, .ofString detail⟩

def outline (lead : String) : List Link → List Line
  | [] => []
  | l :: links =>
    ⟨0, LooseText.ofString lead ++ l.headline⟩ ::
      (l.details ++ (outline causeLead links).map (shift 2))

theorem headline_append_broken (l : Link) (n : Nat) :
    l.headline ++ broken (l.details.map (shift n)) = l.block n := by
  rw [block, details]
  cases l.detail? with
  | none => rfl
  | some detail =>
    simp [broken, shift, written, Nat.add_comm, LooseText.concat_cons, LooseText.concat_nil,
      LooseText.ofString_append, LooseText.append_assoc]

theorem printed_outline_of_broken (lead : String) (l : Link) {links : List Link} {n : Nat}
    (h : broken ((outline causeLead links).map (shift (n + 2))) = below (n + 2) links) :
    printed ((outline lead (l :: links)).map (shift n)) =
      LooseText.ofString (spaces n ++ lead) ++ l.block n ++ below (n + 2) links := by
  rw [outline, List.map_cons, printed_cons, List.map_append, broken_append, map_shift_shift, h,
    ← headline_append_broken]
  simp only [written, shift, Nat.zero_add, LooseText.ofString_append, LooseText.append_assoc]

theorem broken_outline (links : List Link) (n : Nat) :
    broken ((outline causeLead links).map (shift n)) = below n links := by
  induction links generalizing n with
  | nil => rfl
  | cons l links ih =>
    have hprinted := printed_outline_of_broken causeLead l (ih (n + 2))
    rw [outline, List.map_cons] at hprinted ⊢
    rw [broken_cons, hprinted, below_cons]
    simp only [LooseText.ofString_append, LooseText.append_assoc]

theorem printed_outline (lead : String) (l : Link) (links : List Link) (n : Nat) :
    printed ((outline lead (l :: links)).map (shift n)) =
      LooseText.ofString (spaces n ++ lead) ++ l.block n ++ below (n + 2) links :=
  printed_outline_of_broken lead l (broken_outline links (n + 2))

end Link

/-- A fault with causes is printed as its own block and the blocks of its causes, the one at place
`i` below it `2 * i` spaces in. A cause that is a defined fault itself is there as it is printed
alone, with all its lines moved in by two spaces. -/
theorem Fault.pretty?_chain {cause : Fault} {links : List Link} (hchain : cause.Chain links)
    (r : Report) :
    (Fault.report r cause).pretty? false = some (.ok ("QuillError: " ++ Link.block 0 (.report r) ++
      LooseText.concat (links.mapIdx fun i l =>
        LooseText.ofString ("\n" ++ spaces (2 * (i + 1)) ++ "└ caused by: ") ++
          l.block (2 * (i + 1))))) ∧
    ∀ r' deeper, cause = .report r' deeper →
      cause.pretty? false = some (.ok (Line.printed (Link.outline "QuillError: " links))) ∧
      (Fault.report r cause).pretty? false =
        some (.ok ("QuillError: " ++ Link.block 0 (.report r) ++ "\n" ++
          Line.printed ((Link.outline "└ caused by: " links).map (Line.shift 2)))) := by
  have hpretty := hchain.pretty?_report r
  refine ⟨?_, ?_⟩
  · have hplace (i : Nat) : 2 * (i + 1) = 2 + 2 * i := by omega
    simpa only [hplace, Link.below, Link.causeLead] using hpretty
  · rintro r' deeper rfl
    cases hchain with
    | @report _ _ links rest =>
      have halone := Link.printed_outline "QuillError: " (.report r') links 0
      rw [Line.map_shift_zero] at halone
      refine ⟨?_, ?_⟩
      · rw [rest.pretty?_report r', halone]
        rfl
      · rw [hpretty, Link.printed_outline, Link.below_cons]
        simp only [LooseText.ofString_append, LooseText.append_assoc, Link.causeLead]

theorem Fault.pretty?_chain_null :
    let lost : Report := ⟨"store", "store.lost", "lost", [("key", .text "a")], []⟩
    let failed : Report := ⟨"reader", "reader.failed", "failed", [], []⟩
    let cause : Fault := .report lost (.plain "TypeError" "not iterable" (.value .null))
    let links : List Link := [.report lost, .plain "TypeError" "not iterable", .text "null"]
    cause.Chain links ∧
    (Fault.report failed cause).pretty? false =
      some (.ok (.ofString ("QuillError: reader.failed: failed\n" ++
        "  └ caused by: store.lost: lost\n" ++ "    data: \x7b\"key\":\"a\"\x7d\n" ++
        "    └ caused by: TypeError: not iterable\n" ++ "      └ caused by: null"))) ∧
    cause.pretty? false = some (.ok (Line.printed (Link.outline "QuillError: " links))) ∧
    (Fault.report failed cause).pretty? false =
      some (.ok ("QuillError: " ++ Link.block 0 (.report failed) ++ "\n" ++
        Line.printed ((Link.outline "└ caused by: " links).map (Line.shift 2)))) := by
  intro lost failed cause links
  have hvalue : Chain (.value .null) [.text "null"] := .value (t := "null") rfl
  have hchain : cause.Chain links := .report lost (.plain _ _ hvalue)
  obtain ⟨hprinted, hnested⟩ := pretty?_chain hchain failed
  obtain ⟨halone, hbelow⟩ := hnested lost _ rfl
  refine ⟨hchain, hprinted.trans ?_, halone, hbelow⟩
  exact congrArg (fun t => some (Except.ok t)) (by decide +kernel)

end Rulebook
