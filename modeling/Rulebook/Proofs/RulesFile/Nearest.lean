import Mathlib.Data.List.Infix
import Rulebook.RulesFile.Find

/-! The search for a rules file. It goes up from directory to directory and is over at the root at
the latest. The file nearest to the start decides its outcome, whatever other files hold. -/

namespace Rulebook

namespace Path

/-- The directory of the path itself, or one above it. -/
def IsAbove (dir p : Path) : Prop := dir.names <:+ p.names

variable {dir p q : Path} {name : String} {above : List String}

theorem isAbove_refl (p : Path) : p.IsAbove p := List.suffix_refl _

theorem IsAbove.antisymm (h : p.IsAbove q) (h' : q.IsAbove p) : p = q :=
  congrArg mk (h.eq_of_length (Nat.le_antisymm h.length_le h'.length_le))

theorem isAbove_root_iff : dir.IsAbove ⟨[]⟩ ↔ dir = ⟨[]⟩ := by
  rw [IsAbove, List.suffix_nil]
  exact ⟨congrArg mk, congrArg names⟩

theorem isAbove_cons_iff :
    dir.IsAbove ⟨name :: above⟩ ↔ dir = ⟨name :: above⟩ ∨ dir.IsAbove ⟨above⟩ := by
  rw [IsAbove, List.suffix_cons_iff]
  exact or_congr ⟨congrArg mk, congrArg names⟩ Iff.rfl

theorem not_isAbove_cons : ¬ IsAbove ⟨name :: above⟩ ⟨above⟩ := fun h =>
  absurd h.length_le (Nat.not_succ_le_self _)

theorem child_inj {name' : String} (h : p.child name = q.child name') : p = q ∧ name = name' := by
  obtain ⟨hname, hnames⟩ := List.cons.inj (congrArg names h)
  exact ⟨congrArg mk hnames, hname⟩

theorem parent_eq_iff : p.parent = p ↔ p.names = [] := by
  obtain ⟨names⟩ := p
  cases names with
  | nil => exact iff_of_true rfl rfl
  | cons name above =>
    refine iff_of_false (fun h => ?_) (List.cons_ne_nil _ _)
    exact absurd (congrArg (fun p : Path => p.names.length) h) (by simp [parent])

end Path

namespace FileTree

def write (t : FileTree) (p : Path) (content : String) : FileTree :=
  ⟨(p, .file content) :: t.entries⟩

variable {t : FileTree} {p q : Path} {content : String}

theorem file?_eq_some_iff : t.file? p = some content ↔ t.entry? p = some (.file content) := by
  rw [file?]
  split
  case h_1 found h => rw [h, Option.some.injEq, Option.some.injEq, FileEntry.file.injEq]
  case h_2 h => exact iff_of_false nofun (h content)

theorem file?_eq_some_iff_find : t.file? p = some content ↔
    (t.entries.find? (·.1 == p)).map (·.2) = some (.file content) := by
  rw [file?_eq_some_iff, entry?]
  cases t.entries.find? (·.1 == p) with
  | some e => rfl
  | none =>
    refine iff_of_false ?_ nofun
    dsimp only
    split <;> nofun

theorem file?_write_self : (t.write p content).file? p = some content := by
  simp [file?_eq_some_iff_find, write]

theorem file?_write_of_ne (h : q ≠ p) : (t.write q content).file? p = t.file? p := by
  refine Option.ext fun found => ?_
  rw [file?_eq_some_iff_find, file?_eq_some_iff_find, write, List.find?_cons_of_neg]
  simpa using h

theorem isSome_file?_write (h : (t.file? p).isSome) : ((t.write q content).file? p).isSome := by
  by_cases hq : q = p
  · rw [hq, file?_write_self]
    rfl
  · rwa [file?_write_of_ne hq]

end FileTree

namespace RulesConfig

variable {read : DocumentReader} {t t' : FileTree} {dir start p q : Path}

/-- One look of the search: it is over with an outcome, or goes on in another directory. -/
def look (read : DocumentReader) (t : FileTree) (dir : Path) :
    Except ConfigError (Option RulesConfig) ⊕ Path :=
  match inDirectory? t dir with
  | some p => .inl (some <$> load read t p)
  | none => if dir.parent = dir then .inl (.ok none) else .inr dir.parent

inductive Search (read : DocumentReader) (t : FileTree) :
    Nat → Path → Except ConfigError (Option RulesConfig) → Prop
  | done {dir : Path} {o : Except ConfigError (Option RulesConfig)} (h : look read t dir = .inl o) :
      Search read t 1 dir o
  | up {dir above : Path} {n : Nat} {o : Except ConfigError (Option RulesConfig)}
      (h : look read t dir = .inr above) (rest : Search read t n above o) :
      Search read t (n + 1) dir o

theorem look_cases (read : DocumentReader) (t : FileTree) (dir : Path) :
    look read t dir = .inl (find read t dir) ∨
      ∃ name above, dir = ⟨name :: above⟩ ∧ look read t dir = .inr ⟨above⟩ ∧
        find read t dir = find read t ⟨above⟩ := by
  obtain ⟨names⟩ := dir
  cases names with
  | nil =>
    refine .inl ?_
    rw [look, if_pos (Path.parent_eq_iff.2 rfl), find, nearest?, Path.root]
    cases inDirectory? t ⟨[]⟩ <;> rfl
  | cons name above =>
    have hparent : ¬ Path.parent ⟨name :: above⟩ = ⟨name :: above⟩ := by
      rw [Path.parent_eq_iff]
      exact List.cons_ne_nil _ _
    rw [look, if_neg hparent, find, nearest?]
    cases inDirectory? t ⟨name :: above⟩ with
    | some p => exact .inl rfl
    | none => exact .inr ⟨name, above, rfl, rfl, rfl⟩

theorem exists_search (read : DocumentReader) (t : FileTree) (names : List String) :
    ∃ n ≤ names.length + 1, Search read t n ⟨names⟩ (find read t ⟨names⟩) := by
  induction names with
  | nil =>
    obtain h | ⟨name, above, h, -⟩ := look_cases read t ⟨[]⟩
    · exact ⟨1, Nat.le_refl _, .done h⟩
    · cases h
  | cons name above ih =>
    obtain h | ⟨name, above, ⟨⟩, hlook, hfind⟩ := look_cases read t ⟨name :: above⟩
    · exact ⟨1, Nat.le_add_left _ _, .done h⟩
    · obtain ⟨n, hn, hrest⟩ := ih
      rw [hfind]
      exact ⟨n + 1, Nat.succ_le_succ hn, .up hlook hrest⟩

theorem Search.eq_find {n : Nat} {o : Except ConfigError (Option RulesConfig)}
    (h : Search read t n dir o) : o = find read t dir := by
  induction h with
  | @done dir o h =>
    obtain hlook | ⟨name, above, -, hlook, -⟩ := look_cases read t dir
    · exact Sum.inl.inj (h.symm.trans hlook)
    · cases h.symm.trans hlook
  | @up dir above n o h rest ih =>
    obtain hlook | ⟨name, above', -, hlook, hfind⟩ := look_cases read t dir
    · cases h.symm.trans hlook
    · obtain rfl := Sum.inr.inj (h.symm.trans hlook)
      rw [ih, hfind]

theorem search_iff {o : Except ConfigError (Option RulesConfig)} :
    (∃ n ≤ start.names.length + 1, Search read t n start o) ↔ o = find read t start := by
  constructor
  · rintro ⟨n, -, h⟩
    exact h.eq_find
  · rintro rfl
    exact exists_search read t start.names

theorem inDirectory?_eq_none_iff :
    inDirectory? t dir = none ↔ ∀ name ∈ fileNames, t.file? (dir.child name) = none := by
  simp [inDirectory?]

theorem inDirectory?_eq_some : inDirectory? t dir = some p ↔
    (t.file? p).isSome ∧ (p = dir.child "quill.yaml" ∨
      p = dir.child "quill.yml" ∧ t.file? (dir.child "quill.yaml") = none) := by
  rw [inDirectory?, fileNames, List.map_cons, List.map_cons, List.map_nil]
  cases hyaml : t.file? (dir.child "quill.yaml") with
  | some content =>
    rw [List.find?_cons_of_pos (by rw [hyaml]; rfl)]
    constructor
    · rintro ⟨⟩
      exact ⟨by rw [hyaml]; rfl, .inl rfl⟩
    · rintro ⟨-, rfl | ⟨-, h⟩⟩
      · rfl
      · cases h
  | none =>
    rw [List.find?_cons_of_neg (by rw [hyaml]; nofun)]
    cases hyml : t.file? (dir.child "quill.yml") with
    | some content =>
      rw [List.find?_cons_of_pos (by rw [hyml]; rfl)]
      constructor
      · rintro ⟨⟩
        exact ⟨by rw [hyml]; rfl, .inr ⟨rfl, rfl⟩⟩
      · rintro ⟨h, rfl | ⟨rfl, -⟩⟩
        · rw [hyaml] at h
          cases h
        · rfl
    | none =>
      rw [List.find?_cons_of_neg (by rw [hyml]; nofun)]
      refine iff_of_false nofun ?_
      rintro ⟨h, rfl | ⟨rfl, -⟩⟩
      · rw [hyaml] at h
        cases h
      · rw [hyml] at h
        cases h

theorem inDirectory?_eq_some_iff : inDirectory? t dir = some p ↔
    p.parent = dir ∧ (t.file? p).isSome ∧ (p = p.parent.child "quill.yaml" ∨
      p = p.parent.child "quill.yml" ∧ t.file? (p.parent.child "quill.yaml") = none) := by
  rw [inDirectory?_eq_some]
  constructor
  · rintro ⟨hregular, hpreferred⟩
    obtain rfl : p.parent = dir := by
      obtain rfl | ⟨rfl, -⟩ := hpreferred <;> rfl
    exact ⟨rfl, hregular, hpreferred⟩
  · rintro ⟨rfl, h⟩
    exact h

/-- A rules file in the first directory, from the start on upwards, that has one. A directory of
that name is no file. -/
structure IsNearest (t : FileTree) (start p : Path) : Prop where
  regular : (t.file? p).isSome
  preferred : p = p.parent.child "quill.yaml" ∨
    p = p.parent.child "quill.yml" ∧ t.file? (p.parent.child "quill.yaml") = none
  above : p.parent.IsAbove start
  nearer : ∀ dir : Path, dir.IsAbove start → p.parent.IsAbove dir → dir ≠ p.parent →
    ∀ name ∈ fileNames, t.file? (dir.child name) = none

theorem nearest?_eq_none_iff {names : List String} :
    nearest? t names = none ↔
      ∀ dir : Path, dir.IsAbove ⟨names⟩ → ∀ name ∈ fileNames, t.file? (dir.child name) = none := by
  induction names with
  | nil =>
    rw [nearest?, inDirectory?_eq_none_iff]
    simp only [Path.isAbove_root_iff, forall_eq, Path.root]
  | cons name above ih =>
    rw [nearest?, Option.or_eq_none_iff, inDirectory?_eq_none_iff, ih]
    simp only [Path.isAbove_cons_iff, or_imp, forall_and, forall_eq]

theorem nearest?_eq_some_iff {names : List String} :
    nearest? t names = some p ↔ IsNearest t ⟨names⟩ p := by
  induction names with
  | nil =>
    rw [nearest?, inDirectory?_eq_some_iff]
    constructor
    · rintro ⟨hparent, hregular, hpreferred⟩
      refine ⟨hregular, hpreferred, Path.isAbove_root_iff.2 hparent, fun dir hdir _ hne => ?_⟩
      exact absurd ((Path.isAbove_root_iff.1 hdir).trans hparent.symm) hne
    · intro h
      exact ⟨Path.isAbove_root_iff.1 h.above, h.regular, h.preferred⟩
  | cons name above ih =>
    rw [nearest?, Option.or_eq_some_iff, inDirectory?_eq_some_iff, inDirectory?_eq_none_iff, ih]
    constructor
    · rintro (⟨hparent, hregular, hpreferred⟩ | ⟨hnone, h⟩)
      · rw [← hparent]
        exact ⟨hregular, hpreferred, Path.isAbove_refl _,
          fun dir hdir hup hne => absurd (hdir.antisymm hup) hne⟩
      · refine ⟨h.regular, h.preferred, Path.isAbove_cons_iff.2 (.inr h.above),
          fun dir hdir hup hne => ?_⟩
        obtain rfl | hdir := Path.isAbove_cons_iff.1 hdir
        · exact hnone
        · exact h.nearer dir hdir hup hne
    · intro h
      obtain hparent | habove := Path.isAbove_cons_iff.1 h.above
      · exact .inl ⟨hparent, h.regular, h.preferred⟩
      · have hne : (⟨name :: above⟩ : Path) ≠ p.parent := fun heq =>
          Path.not_isAbove_cons (heq ▸ habove)
        refine .inr ⟨h.nearer _ (Path.isAbove_refl _) h.above hne, h.regular, h.preferred, habove,
          fun dir hdir hup hne => ?_⟩
        exact h.nearer dir (Path.isAbove_cons_iff.2 (.inr hdir)) hup hne

theorem map_some_ne (x : Except ConfigError RulesConfig) : some <$> x ≠ .ok none := by
  cases x <;> nofun

theorem find_eq_none_iff : find read t start = .ok none ↔
    ∀ dir : Path, dir.IsAbove start → ∀ name ∈ fileNames, t.file? (dir.child name) = none := by
  rw [← nearest?_eq_none_iff, find]
  cases nearest? t start.names with
  | none => exact iff_of_true rfl rfl
  | some p =>
    exact iff_of_false (map_some_ne _) nofun

theorem IsNearest.find_eq (h : IsNearest t start p) :
    find read t start = some <$> load read t p := by
  rw [find, nearest?_eq_some_iff.2 h]

theorem exists_isNearest (h : find read t start ≠ .ok none) : ∃ p, IsNearest t start p := by
  cases hnearest : nearest? t start.names with
  | none =>
    rw [find, hnearest] at h
    exact absurd rfl h
  | some p => exact ⟨p, nearest?_eq_some_iff.1 hnearest⟩

theorem load_congr (hfile : t'.file? p = t.file? p) (hregular : (t.file? p).isSome) :
    load read t' p = load read t p := by
  obtain ⟨content, hcontent⟩ := Option.isSome_iff_exists.1 hregular
  rw [load, load, FileTree.file?_eq_some_iff.1 hcontent,
    FileTree.file?_eq_some_iff.1 (hfile.trans hcontent)]

/-- Another path than that of the rules file: the path of a file, or one that the search does not
look at on its way there. -/
def IsOther (t : FileTree) (start p q : Path) : Prop :=
  q ≠ p ∧ ((t.file? q).isSome ∨ ∀ dir : Path, dir.IsAbove start → p.parent.IsAbove dir →
    ∀ name ∈ fileNames, q ≠ dir.child name)

theorem isOther_of_farther {name : String} (t : FileTree) (start : Path)
    (hfarther : dir.IsAbove p.parent) (hne : dir ≠ p.parent) :
    IsOther t start p (dir.child name) := by
  refine ⟨fun h => hne (congrArg Path.parent h), .inr fun dir' _ hup name' _ h => ?_⟩
  obtain ⟨rfl, -⟩ := Path.child_inj h
  exact hne (hfarther.antisymm hup)

theorem IsNearest.write (h : IsNearest t start p) (hq : IsOther t start p q) (content : String) :
    IsNearest (t.write q content) start p := by
  -- No rules file comes up where there was none on the way.
  have hnone {dir : Path} (hdir : dir.IsAbove start) (hup : p.parent.IsAbove dir) {name : String}
      (hname : name ∈ fileNames) (hnone : t.file? (dir.child name) = none) :
      (t.write q content).file? (dir.child name) = none := by
    rw [FileTree.file?_write_of_ne, hnone]
    obtain hfile | hapart := hq.2
    · rintro rfl
      rw [hnone] at hfile
      cases hfile
    · exact hapart dir hdir hup name hname
  refine ⟨?_, ?_, h.above, fun dir hdir hup hne name hname => ?_⟩
  · rw [FileTree.file?_write_of_ne hq.1]
    exact h.regular
  · refine h.preferred.imp_right fun ⟨hp, hyaml⟩ => ⟨hp, ?_⟩
    exact hnone h.above (Path.isAbove_refl _) (by decide) hyaml
  · exact hnone hdir hup hname (h.nearer dir hdir hup hne name hname)

/-- Whatever other files hold, and whichever are added off the way, the outcome is the same. -/
theorem IsNearest.find_write (h : IsNearest t start p) (files : List (Path × String))
    (hfiles : ∀ f ∈ files, IsOther t start p f.1) :
    find read (files.foldl (fun t f => t.write f.1 f.2) t) start = find read t start := by
  induction files generalizing t with
  | nil => rfl
  | cons f files ih =>
    have hf := hfiles f List.mem_cons_self
    have hwrite := h.write hf f.2
    rw [List.foldl_cons, ih hwrite fun g hg => ?_, hwrite.find_eq, h.find_eq,
      load_congr (FileTree.file?_write_of_ne hf.1) h.regular]
    have hg := hfiles g (List.mem_cons_of_mem _ hg)
    exact ⟨hg.1, hg.2.imp_left FileTree.isSome_file?_write⟩

/-- The search is over after at most as many looks as there are directories, with one outcome. It
finds nothing just where no directory from the start to the root has a rules file. Otherwise it
loads the nearest one, and neither what other files hold nor files that are added in farther
directories change the outcome. -/
theorem find_nearest (read : DocumentReader) (t : FileTree) (start : Path) :
    (∀ o, (∃ n ≤ start.names.length + 1, Search read t n start o) ↔ o = find read t start) ∧
      (∀ n o, Search read t n start o → o = find read t start) ∧
      (find read t start = .ok none ↔ ∀ dir : Path, dir.IsAbove start →
        ∀ name ∈ fileNames, t.file? (dir.child name) = none) ∧
      (find read t start ≠ .ok none → ∃ p, IsNearest t start p) ∧
      ∀ p, IsNearest t start p → find read t start = some <$> load read t p ∧
        ∀ files : List (Path × String), (∀ f ∈ files, IsOther t start p f.1) →
          find read (files.foldl (fun t f => t.write f.1 f.2) t) start = find read t start :=
  ⟨fun _ => search_iff, fun _ _ h => h.eq_find, find_eq_none_iff, exists_isNearest,
    fun _ h => ⟨h.find_eq, h.find_write⟩⟩

def readMember : DocumentReader := fun content =>
  let name := String.ofList (content.toList.takeWhile (· != ':'))
  let digits := content.toList.filter Char.isDigit
  .ok (.plain (.record [(name, .number (.ofNat (Text.digitsValue digits)))]))

/-- A directory called as a rules file is passed over, and the invalid file beside it wins, whatever
the valid one above it holds and though another one is added at the root. -/
theorem find_nearest_invalid :
    let file : Path := ⟨["quill.yml", "a", "work"]⟩
    let other : Path := ⟨["quill.yaml", "work"]⟩
    let t : FileTree := ⟨[(⟨["quill.yaml", "a", "work"]⟩, .directory), (file, .file "rules: 1"),
      (other, .file "version: 1")]⟩
    let start : Path := ⟨["b", "a", "work"]⟩
    let root : Path := ⟨["quill.yaml"]⟩
    find readMember t start = .error (.invalid "/work/a/quill.yml" .rules) ∧
      find readMember ((t.write other "version: 2").write root "version: 3") start =
        .error (.invalid "/work/a/quill.yml" .rules) := by
  intro file other t start root
  have hnearest : IsNearest t start file := nearest?_eq_some_iff.1 (by decide)
  have hother : IsOther t start file other := ⟨by decide, .inl (by decide)⟩
  have hroot : IsOther t start file root :=
    isOther_of_farther t start List.nil_suffix (by decide)
  have hload : some <$> load readMember t file = .error (.invalid "/work/a/quill.yml" .rules) := by
    decide +kernel
  obtain ⟨-, -, -, -, hfind⟩ := find_nearest readMember t start
  obtain ⟨houtcome, hwrite⟩ := hfind file hnearest
  refine ⟨houtcome.trans hload, ?_⟩
  have hsame := hwrite [(other, "version: 2"), (root, "version: 3")]
    (by simpa using ⟨hother, hroot⟩)
  exact hsame.trans (houtcome.trans hload)

end RulesConfig

end Rulebook
