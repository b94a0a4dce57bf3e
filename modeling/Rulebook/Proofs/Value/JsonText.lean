import Rulebook.Proofs.Text.Runs
import Rulebook.Proofs.Value.Fields
import Rulebook.Value.Json

/-! The JSON text of a value is read back as the value, whatever its layout, where the value holds
neither numbers nor halves of characters. -/

namespace Rulebook

/-- A value without numbers whose texts have no halved characters and whose records have their keys
in order. -/
inductive Value.IsTextual : Value → Prop
  | null : IsTextual .null
  | bool (b : Bool) : IsTextual (.bool b)
  | text (s : String) : IsTextual (.text (.ofString s))
  | list {items : List Value} (h : ∀ v ∈ items, IsTextual v) : IsTextual (.list items)
  | record {fields : List (LooseText × Value)} (hkeys : ∀ f ∈ fields, ∃ s, f.1 = .ofString s)
      (hvalues : ∀ f ∈ fields, IsTextual f.2) (hfields : Value.fieldsOf fields = fields) :
      IsTextual (.record fields)

namespace Json
open Text Value

theorem hexDigits4_control : ∀ n < 0x20,
    hexDigits4 n = ['0', '0', Nat.digitChar (n / 16), Nat.digitChar (n % 16)] ∧
      hex4? '0' '0' (Nat.digitChar (n / 16)) (Nat.digitChar (n % 16)) = some n := by
  decide

variable {s rest : List Char} {pieces : List Piece}

theorem joinPieces_unit {n : Nat} (hn : isHigh n = false) (pieces : List Piece) :
    joinPieces (.unit n :: pieces) = unitGlyph n :: joinPieces pieces := by
  match pieces with
  | [] => rfl
  | .char c :: pieces => rfl
  | .unit l :: pieces => simp [joinPieces, hn]

theorem exists_piece (c : Char) (h : readPieces s = some (pieces, rest)) :
    ∃ p, readPieces (escapeChar c ++ s) = some (p :: pieces, rest) ∧
      joinPieces (p :: pieces) = .char c :: joinPieces pieces := by
  unfold escapeChar
  split
  -- The characters that no letter stands for are written by number, or as they are.
  case h_8 hquote hslash _ _ _ _ _ =>
    split
    case isTrue hc =>
      obtain ⟨hdigits, hvalue⟩ := hexDigits4_control c.toNat hc
      refine ⟨.unit c.toNat, ?_, ?_⟩
      · simp [hdigits, readPieces, hvalue, h]
      · have hhigh : isHigh c.toNat = false := by simp [isHigh]; omega
        have hlow : isLow c.toNat = false := by simp [isLow]; omega
        rw [joinPieces_unit hhigh, unitGlyph, hhigh, hlow, Char.ofNat_toNat]
        rfl
    case isFalse hc =>
      refine ⟨.char c, ?_, rfl⟩
      rw [List.singleton_append, readPieces.eq_def]
      split
      all_goals simp_all
  all_goals exact ⟨.char _, by simp [readPieces, escaped?, h], rfl⟩

theorem readString_escaped (s rest : List Char) :
    readString (s.flatMap escapeChar ++ '"' :: rest) = some (⟨s.map .char⟩, rest) := by
  have hpieces : ∃ pieces, readPieces (s.flatMap escapeChar ++ '"' :: rest) = some (pieces, rest) ∧
      joinPieces pieces = s.map .char := by
    induction s with
    | nil => exact ⟨[], by simp [readPieces], rfl⟩
    | cons c s ih =>
      obtain ⟨pieces, hread, hjoin⟩ := ih
      obtain ⟨p, hp, hpjoin⟩ := exists_piece c hread
      refine ⟨p :: pieces, ?_, ?_⟩
      · rw [List.flatMap_cons, List.append_assoc, hp]
      · rw [hpjoin, hjoin, List.map_cons]
  obtain ⟨pieces, hread, hjoin⟩ := hpieces
  rw [readString, hread, Option.map_some, hjoin]

theorem toList_quoted (s : String) :
    (quoted (.ofString s)).toList = '"' :: (s.toList.flatMap escapeChar ++ ['"']) := by
  simp [quoted, LooseText.ofString, List.flatMap_map, escapeGlyph]

def Layout.gap : Layout → String
  | .line => ""
  | .indented depth => newline depth

theorem Layout.isSpace_gap (layout : Layout) : ∀ c ∈ layout.gap.toList, isSpace c = true := by
  intro c hc
  cases layout with
  | line => simp [gap] at hc
  | indented depth =>
    have hspace : c = '\n' ∨ c = ' ' := by
      simp only [gap, newline, String.toList_append, String.toList_ofList, List.mem_append] at hc
      exact hc.imp (by simp) List.eq_of_mem_replicate
    obtain rfl | rfl := hspace <;> decide

theorem Layout.enclose_eq (layout : Layout) (opening closing : String) {parts : List String}
    (hne : parts ≠ []) : layout.enclose opening closing parts =
      opening ++ layout.deeper.gap ++ String.intercalate ("," ++ layout.deeper.gap) parts ++
        layout.gap ++ closing := by
  cases parts with
  | nil => exact absurd rfl hne
  | cons part parts => cases layout <;> simp [enclose, deeper, gap]

theorem skipSpace_gap (layout : Layout) (h : Stops isSpace s) :
    skipSpace (layout.gap.toList ++ s) = s :=
  dropWhile_append layout.isSpace_gap h

theorem skipSpace_cons {c : Char} (hc : isSpace c = false) : skipSpace (c :: s) = c :: s :=
  dropWhile_of_stops (stops_cons.2 hc)

/-- A character that stands neither in front of a value or a field nor behind all of them. -/
def isOpening (c : Char) : Bool := !isSpace c && c != ']' && c != '\x7d'

def Begins (s : List Char) : Prop := ∃ c ∈ s.head?, isOpening c = true

theorem Begins.append (h : Begins s) (t : List Char) : Begins (s ++ t) := by
  obtain ⟨c, hc, hbegins⟩ := h
  refine ⟨c, ?_, hbegins⟩
  rw [List.head?_append, Option.mem_def.1 hc]
  rfl

theorem Begins.stops (h : Begins s) : Stops isSpace s := by
  obtain ⟨c, hc, hopening⟩ := h
  cases s with
  | nil => cases hc
  | cons d s =>
    cases hc
    simp only [isOpening, Bool.and_eq_true, Bool.not_eq_true'] at hopening
    exact stops_cons.2 hopening.1.1

/-- In front of any text, enough fuel reads the value and leaves the text. -/
structure ReadsAs (t : String) (v : Value) : Prop where
  begins : Begins t.toList
  read (rest : List Char) (fuel : Nat) (h : t.toList.length ≤ fuel) :
    readValue fuel (t.toList ++ rest) = some (v, rest)

theorem ReadsAs.of_body {t : String} {v : Value} {opening : Char} {body : List Char}
    (ht : t.toList = opening :: body) (hopening : isOpening opening = true)
    (h : ∀ rest fuel, body.length ≤ fuel →
      readValue (fuel + 1) (opening :: (body ++ rest)) = some (v, rest)) : ReadsAs t v := by
  refine ⟨⟨opening, by rw [ht]; rfl, hopening⟩, fun rest fuel hfuel => ?_⟩
  rw [ht, List.length_cons] at hfuel
  obtain ⟨fuel, rfl⟩ : ∃ k, fuel = k + 1 := ⟨fuel - 1, by omega⟩
  rw [ht]
  exact h rest fuel (by omega)

theorem writeItems_eq_map (layout : Layout) (items : List Value) :
    writeItems layout items = items.map (write layout) := by
  induction items with
  | nil => rfl
  | cons item items ih => rw [writeItems, ih, List.map_cons]

def writeField (layout : Layout) (f : LooseText × Value) : String :=
  quoted f.1 ++ layout.colon ++ write layout f.2

theorem writeFields_eq_map (layout : Layout) (fields : List (LooseText × Value)) :
    writeFields layout fields = fields.map (writeField layout) := by
  induction fields with
  | nil => rfl
  | cons f fields ih => rw [writeFields, ih, List.map_cons]; rfl

def Layout.listed (layout : Layout) (parts : List String) : List Char :=
  (String.intercalate ("," ++ layout.gap) parts).toList

theorem Layout.listed_single (layout : Layout) (part : String) :
    layout.listed [part] = part.toList := by
  rw [listed, String.intercalate_singleton]

theorem Layout.listed_cons_cons (layout : Layout) (part next : String) (parts : List String) :
    layout.listed (part :: next :: parts) =
      part.toList ++ ',' :: (layout.gap.toList ++ layout.listed (next :: parts)) := by
  simp [listed, String.intercalate_cons_cons, List.append_assoc]

theorem Begins.listed {part : String} (h : Begins part.toList) (layout : Layout)
    (parts : List String) : Begins (layout.listed (part :: parts)) := by
  cases parts with
  | nil => rwa [Layout.listed_single]
  | cons next parts => rw [Layout.listed_cons_cons]; exact h.append _

variable {layout : Layout}

section Parts

variable {fuel : Nat} {t : List Char} {item : Value} {items : List Value}
  {fields : List (LooseText × Value)}

theorem readItems_last (hitem : readValue fuel (t ++ s) = some (item, s))
    (hs : skipSpace s = ']' :: rest) : readItems (fuel + 1) (t ++ s) = some ([item], rest) := by
  simp [readItems, hitem, hs]

theorem readItems_next (hitem : readValue fuel (t ++ ',' :: s) = some (item, ',' :: s))
    (hitems : readItems fuel (skipSpace s) = some (items, rest)) :
    readItems (fuel + 1) (t ++ ',' :: s) = some (item :: items, rest) := by
  have hcomma : skipSpace (',' :: s) = ',' :: s := skipSpace_cons (by decide)
  simp [readItems, hitem, hcomma, hitems]

/-- Fuel for the characters is enough: an item takes one unit of fuel and at least one character. -/
theorem readItems_listed (fuel : Nat) (trail : Layout) (h : ∀ v ∈ items, ReadsAs (write layout v) v)
    (hne : items ≠ []) (hfuel : (layout.listed (items.map (write layout))).length < fuel) :
    readItems fuel (layout.listed (items.map (write layout)) ++ (trail.gap.toList ++ ']' :: rest)) =
      some (items, rest) := by
  induction items generalizing fuel with
  | nil => exact absurd rfl hne
  | cons item items ih =>
    obtain ⟨fuel, rfl⟩ : ∃ k, fuel = k + 1 := ⟨fuel - 1, by omega⟩
    have hitem := h item (by simp)
    cases items with
    | nil =>
      rw [List.map_singleton, Layout.listed_single] at hfuel ⊢
      exact readItems_last (hitem.read _ fuel (by omega))
        (skipSpace_gap trail (stops_cons.2 (by decide)))
    | cons next items =>
      have hnext := (h next (by simp)).begins.listed layout (items.map (write layout))
      have htail := ih fuel (fun v hv => h v (by simp [hv])) (by simp)
      rw [List.map_cons] at htail
      rw [List.map_cons, List.map_cons, Layout.listed_cons_cons] at hfuel ⊢
      simp only [List.length_append, List.length_cons] at hfuel
      rw [List.append_assoc, List.cons_append]
      refine readItems_next (hitem.read _ fuel (by omega)) ?_
      rw [List.append_assoc, skipSpace_gap layout (hnext.append _).stops]
      exact htail (by omega)

theorem readFields_key (key : String) (layout : Layout) (hs : Stops isSpace s) :
    readFields (fuel + 1) ((quoted (.ofString key)).toList ++ (layout.colon.toList ++ s)) =
      (do
        let (value, rest) ← readValue fuel s
        match skipSpace rest with
        | '\x7d' :: rest => return ([(.ofString key, value)], rest)
        | ',' :: rest =>
          let (fields, rest) ← readFields fuel (skipSpace rest)
          return ((.ofString key, value) :: fields, rest)
        | _ => none) := by
  have hcolon : ∃ blank, layout.colon.toList = ':' :: blank ∧ ∀ c ∈ blank, isSpace c = true := by
    cases layout with
    | line => exact ⟨[], rfl, by simp⟩
    | indented depth => exact ⟨[' '], by simp [Layout.colon], by simp [isSpace]⟩
  obtain ⟨blank, hcolon, hblank⟩ := hcolon
  have hskip : skipSpace (blank ++ s) = s := dropWhile_append hblank hs
  have hmark : skipSpace (':' :: (blank ++ s)) = ':' :: (blank ++ s) :=
    skipSpace_cons (by decide)
  rw [toList_quoted, hcolon]
  simp only [List.cons_append, List.append_assoc, List.nil_append, readFields,
    readString_escaped, Option.bind_eq_bind, Option.bind_some, hmark, hskip]
  rfl

theorem toList_writeField (layout : Layout) (f : LooseText × Value) :
    (writeField layout f).toList =
      (quoted f.1).toList ++ (layout.colon.toList ++ (write layout f.2).toList) := by
  simp only [writeField, String.toList_append, List.append_assoc]

theorem begins_writeField (layout : Layout) (f : LooseText × Value) :
    Begins (writeField layout f).toList :=
  ⟨'"', by simp [writeField, quoted], by decide⟩

theorem readFields_last (key : String) {v : Value} (hv : ReadsAs (write layout v) v)
    (hfuel : (write layout v).toList.length ≤ fuel) (hs : skipSpace s = '\x7d' :: rest) :
    readFields (fuel + 1) ((writeField layout (.ofString key, v)).toList ++ s) =
      some ([(.ofString key, v)], rest) := by
  rw [toList_writeField, List.append_assoc, List.append_assoc,
    readFields_key key layout (hv.begins.append s).stops, hv.read s fuel hfuel]
  simp [hs]

theorem readFields_next (key : String) {v : Value} (hv : ReadsAs (write layout v) v)
    (hfuel : (write layout v).toList.length ≤ fuel)
    (hfields : readFields fuel (skipSpace s) = some (fields, rest)) :
    readFields (fuel + 1) ((writeField layout (.ofString key, v)).toList ++ ',' :: s) =
      some ((.ofString key, v) :: fields, rest) := by
  have hcomma : skipSpace (',' :: s) = ',' :: s := skipSpace_cons (by decide)
  rw [toList_writeField, List.append_assoc, List.append_assoc,
    readFields_key key layout (hv.begins.append _).stops, hv.read _ fuel hfuel]
  simp [hcomma, hfields]

theorem readFields_listed (fuel : Nat) (trail : Layout)
    (hkeys : ∀ f ∈ fields, ∃ key, f.1 = .ofString key)
    (h : ∀ f ∈ fields, ReadsAs (write layout f.2) f.2) (hne : fields ≠ [])
    (hfuel : (layout.listed (fields.map (writeField layout))).length < fuel) :
    readFields fuel (layout.listed (fields.map (writeField layout)) ++
      (trail.gap.toList ++ '\x7d' :: rest)) = some (fields, rest) := by
  induction fields generalizing fuel with
  | nil => exact absurd rfl hne
  | cons f fields ih =>
    obtain ⟨fuel, rfl⟩ : ∃ k, fuel = k + 1 := ⟨fuel - 1, by omega⟩
    have hvalue := h f (by simp)
    obtain ⟨key, hkey⟩ := hkeys f (by simp)
    obtain ⟨_, v⟩ := f
    subst hkey
    cases fields with
    | nil =>
      rw [List.map_singleton, Layout.listed_single] at hfuel ⊢
      rw [toList_writeField] at hfuel
      simp only [List.length_append] at hfuel
      exact readFields_last key hvalue (by omega) (skipSpace_gap trail (stops_cons.2 (by decide)))
    | cons next fields =>
      have hnext := (begins_writeField layout next).listed layout (fields.map (writeField layout))
      have htail := ih fuel (fun f hf => hkeys f (by simp [hf])) (fun f hf => h f (by simp [hf]))
        (by simp)
      rw [List.map_cons] at htail
      rw [List.map_cons, List.map_cons, Layout.listed_cons_cons] at hfuel ⊢
      have hlength := congrArg List.length (toList_writeField layout (.ofString key, v))
      simp only [List.length_append, List.length_cons] at hfuel hlength
      rw [List.append_assoc, List.cons_append]
      refine readFields_next key hvalue (by omega) ?_
      rw [List.append_assoc, skipSpace_gap layout (hnext.append _).stops]
      exact htail (by omega)

end Parts

theorem readValue_items {fuel : Nat} (hs : Begins (skipSpace s)) :
    readValue (fuel + 1) ('[' :: s) =
      (readItems fuel (skipSpace s)).map fun p => (.list p.1, p.2) := by
  obtain ⟨c, hc, hopening⟩ := hs
  simp only [readValue]
  split
  case h_1 u hu =>
    rw [hu] at hc
    cases hc
    exact absurd hopening (by decide)
  case h_2 => rfl

theorem readValue_fields {fuel : Nat} (hs : Begins (skipSpace s)) :
    readValue (fuel + 1) ('\x7b' :: s) =
      (readFields fuel (skipSpace s)).map fun p => (.record (fieldsOf p.1), p.2) := by
  obtain ⟨c, hc, hopening⟩ := hs
  simp only [readValue]
  split
  case h_1 u hu =>
    rw [hu] at hc
    cases hc
    exact absurd hopening (by decide)
  case h_2 => rfl

theorem toList_enclose (layout : Layout) {opening closing : String} {first last : Char}
    (hopening : opening.toList = [first]) (hclosing : closing.toList = [last])
    {parts : List String} (hne : parts ≠ []) :
    (layout.enclose opening closing parts).toList =
      first :: (layout.deeper.gap.toList ++
        (layout.deeper.listed parts ++ (layout.gap.toList ++ [last]))) := by
  rw [Layout.enclose_eq _ _ _ hne]
  simp only [Layout.listed, String.toList_append, List.append_assoc, hopening, hclosing,
    List.cons_append, List.nil_append]

theorem ReadsAs.enclose {v : Value} {opening closing : String} {first last : Char}
    {parts : List String} (layout : Layout) (hopening : opening.toList = [first])
    (hclosing : closing.toList = [last]) (hfirst : isOpening first = true) (hne : parts ≠ [])
    (hbegins : Begins (layout.deeper.listed parts))
    (h : ∀ s rest fuel, (layout.deeper.listed parts).length < fuel → Begins (skipSpace s) →
      skipSpace s = layout.deeper.listed parts ++ (layout.gap.toList ++ last :: rest) →
        readValue (fuel + 1) (first :: s) = some (v, rest)) :
    ReadsAs (layout.enclose opening closing parts) v := by
  refine .of_body (toList_enclose layout hopening hclosing hne) hfirst fun rest fuel hfuel => ?_
  simp only [List.length_append, List.length_singleton] at hfuel
  have hskip := skipSpace_gap layout.deeper
    (hbegins.append (layout.gap.toList ++ last :: rest)).stops
  simp only [List.append_assoc, List.singleton_append]
  refine h _ rest fuel (by omega) ?_ hskip
  rw [hskip]
  exact hbegins.append _

theorem readsAs_list (layout : Layout) {items : List Value}
    (h : ∀ v ∈ items, ReadsAs (write layout.deeper v) v) :
    ReadsAs (write layout (.list items)) (.list items) := by
  rw [write, writeItems_eq_map]
  cases items with
  | nil =>
    have htext : (layout.enclose "[" "]" []).toList = ['[', ']'] := by
      cases layout <;> simp [Layout.enclose]
    refine .of_body htext (by decide) fun rest fuel _ => ?_
    have hskip : skipSpace (']' :: rest) = ']' :: rest := skipSpace_cons (by decide)
    simp [readValue, hskip]
  | cons item items =>
    have hbegins := (h item (by simp)).begins.listed layout.deeper (items.map (write layout.deeper))
    refine .enclose layout (by simp; rfl) (by simp; rfl) (by decide) (by simp) hbegins
      fun s rest fuel hfuel hs hskip => ?_
    rw [readValue_items hs, hskip, readItems_listed fuel layout h (by simp) hfuel]
    rfl

theorem readsAs_record (layout : Layout) {fields : List (LooseText × Value)}
    (hkeys : ∀ f ∈ fields, ∃ key, f.1 = .ofString key)
    (h : ∀ f ∈ fields, ReadsAs (write layout.deeper f.2) f.2) (hfields : fieldsOf fields = fields) :
    ReadsAs (write layout (.record fields)) (.record fields) := by
  rw [write, writeFields_eq_map]
  cases fields with
  | nil =>
    have htext : (layout.enclose "\x7b" "\x7d" []).toList = ['\x7b', '\x7d'] := by
      cases layout <;> simp [Layout.enclose]
    refine .of_body htext (by decide) fun rest fuel _ => ?_
    have hskip : skipSpace ('\x7d' :: rest) = '\x7d' :: rest := skipSpace_cons (by decide)
    simp [readValue, hskip]
  | cons f fields =>
    have hbegins := (begins_writeField layout.deeper f).listed layout.deeper
      (fields.map (writeField layout.deeper))
    refine .enclose layout (by simp; rfl) (by simp; rfl) (by decide) (by simp) hbegins
      fun s rest fuel hfuel hs hskip => ?_
    rw [readValue_fields hs, hskip, readFields_listed fuel layout hkeys h (by simp) hfuel,
      Option.map_some, hfields]

theorem readsAs_write {v : Value} (hv : v.IsTextual) (layout : Layout) :
    ReadsAs (write layout v) v := by
  induction hv generalizing layout with
  | null =>
    have htext : (write layout .null).toList = ['n', 'u', 'l', 'l'] := by simp [write]
    refine .of_body htext (by decide) fun rest fuel _ => ?_
    simp [readValue]
  | bool b =>
    cases b with
    | false =>
      have htext : (write layout (.bool false)).toList = ['f', 'a', 'l', 's', 'e'] := by
        simp [write]
      refine .of_body htext (by decide) fun rest fuel _ => ?_
      simp [readValue]
    | true =>
      have htext : (write layout (.bool true)).toList = ['t', 'r', 'u', 'e'] := by simp [write]
      refine .of_body htext (by decide) fun rest fuel _ => ?_
      simp [readValue]
  | text s =>
    refine .of_body (toList_quoted s) (by decide) fun rest fuel _ => ?_
    have hstring := readString_escaped s.toList rest
    simp [readValue, hstring, LooseText.ofString]
  | @list items hitems ih => exact readsAs_list layout fun v hv => ih v hv layout.deeper
  | @record fields hkeys _ hfields ih =>
    exact readsAs_record layout hkeys (fun f hf => ih f hf layout.deeper) hfields

theorem read?_write {v : Value} (hv : v.IsTextual) (layout : Layout) :
    read? (write layout v) = some v := by
  have hreads := readsAs_write hv layout
  have hskip : skipSpace (write layout v).toList = (write layout v).toList :=
    dropWhile_of_stops hreads.begins.stops
  have hread := hreads.read [] ((write layout v).toList.length + 1) (by omega)
  rw [List.append_nil] at hread
  rw [read?]
  simp only [hskip, hread]
  rfl

end Json

end Rulebook
