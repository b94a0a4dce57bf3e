import Mathlib.Data.List.Nodup
import Rulebook.Fault.Definitions
import Rulebook.Fault.Registry
import Rulebook.Proofs.Value.Fields

/-! Which definition a fault is of. A full code does not show where the domain ends, so two
definitions can have one full code and take each other's faults for their own. -/

namespace Rulebook

namespace Definition

def key (d : Definition) : String × String := (d.domain, d.code)

/-- The domain of the one reaches into what is the code of the other. -/
def Overlaps (d e : Definition) : Prop :=
  ∃ between, d.domain = e.domain ++ "." ++ between ∧ e.code = between ++ "." ++ d.code

variable {d e : Definition}

theorem Overlaps.fullCode_eq (h : Overlaps d e) : d.fullCode = e.fullCode := by
  obtain ⟨between, hdomain, hcode⟩ := h
  simp only [fullCode, hdomain, hcode, String.append_assoc]

theorem Overlaps.dot_mem (h : Overlaps d e) : '.' ∈ d.domain.toList ∧ '.' ∈ e.code.toList := by
  obtain ⟨between, hdomain, hcode⟩ := h
  simp [hdomain, hcode]

theorem key_eq_or_overlaps {longer : List Char}
    (hdomain : d.domain.toList = e.domain.toList ++ longer)
    (hcode : '.' :: e.code.toList = longer ++ '.' :: d.code.toList) :
    d.key = e.key ∨ Overlaps d e := by
  cases longer with
  | nil =>
    have hdomain : d.domain = e.domain := by simpa [String.toList_inj] using hdomain
    have hcode : e.code = d.code := by simpa [String.toList_inj] using hcode
    exact .inl (by rw [key, key, hdomain, hcode])
  | cons c between =>
    rw [List.cons_append, List.cons.injEq] at hcode
    obtain ⟨rfl, hcode⟩ := hcode
    refine .inr ⟨String.ofList between, ?_, ?_⟩
    · simp [← String.toList_inj, hdomain]
    · simp [← String.toList_inj, hcode]

theorem fullCode_eq_iff :
    d.fullCode = e.fullCode ↔ d.key = e.key ∨ Overlaps d e ∨ Overlaps e d := by
  constructor
  · intro h
    have hlist : d.domain.toList ++ '.' :: d.code.toList =
        e.domain.toList ++ '.' :: e.code.toList := by
      simpa [fullCode] using congrArg String.toList h
    obtain ⟨longer, hdomain, hcode⟩ | ⟨longer, hdomain, hcode⟩ := List.append_eq_append_iff.1 hlist
    · obtain hkey | hoverlaps := key_eq_or_overlaps hdomain hcode
      · exact .inl hkey.symm
      · exact .inr (.inr hoverlaps)
    · exact (key_eq_or_overlaps hdomain hcode).imp_right .inl
  · rintro (hkey | hoverlaps | hoverlaps)
    · obtain ⟨hdomain, hcode⟩ := Prod.mk.inj hkey
      rw [fullCode, fullCode, hdomain, hcode]
    · exact hoverlaps.fullCode_eq
    · exact hoverlaps.fullCode_eq.symm

theorem matchesFault_create {data : List (LooseText × Value)} {cause f : Fault}
    (h : e.create data cause = .ok f) : d.matchesFault f = true ↔ e.fullCode = d.fullCode := by
  obtain ⟨message, rfl⟩ : ∃ message,
      f = .report ⟨e.domain, e.fullCode, message, data, e.facetNames⟩ cause := by
    rw [create] at h
    cases hfill : MessagePart.fill (fun name => (Attribute.of data name).display) e.message with
    | error u => rw [hfill] at h; cases h
    | ok message => rw [hfill] at h; exact ⟨message, by cases h; rfl⟩
  rw [matchesFault, beq_iff_eq]

theorem matchesFault_of_mem_all (hd : d ∈ all) (he : e ∈ all) {data : List (LooseText × Value)}
    {cause f : Fault} (h : e.create data cause = .ok f) : d.matchesFault f = true ↔ d = e := by
  have hcodes : (all.map fullCode).Nodup := by decide
  rw [matchesFault_create h]
  exact ⟨fun hcode => List.inj_on_of_nodup_map hcodes hd he hcode.symm, fun hde => hde ▸ rfl⟩

end Definition

namespace Registry

def next (r : Registry) (s : String × RegistryStep) : Registry := (r.step s.1 s.2).toOption.getD r

def run (r : Registry) (steps : List (String × RegistryStep)) : Registry := steps.foldl next r

theorem run_append (r : Registry) (before after : List (String × RegistryStep)) :
    r.run (before ++ after) = (r.run before).run after :=
  List.foldl_append

/-- All definitions that were made, also those whose names are bound to others by now. -/
def known (r : Registry) : List Definition := r.definitions.map (·.2)

def Makes (r : Registry) (steps : List (String × RegistryStep)) (d : Definition) (f : Fault) :
    Prop :=
  ∃ before id name data cause after,
    steps = before ++ (id, .create name data cause) :: after ∧
      (r.run before).definition? name = some d ∧
      d.create data ((r.run before).fault cause) = .ok f

theorem known_next (r : Registry) (s : String × RegistryStep) : r.known <:+ (r.next s).known := by
  obtain ⟨id, s⟩ := s
  cases s with
  | define boundary code facets message => exact List.suffix_cons _ _
  | create name data cause =>
    have hsame : (r.next (id, .create name data cause)).known = r.known := by
      simp only [next, step]
      split
      case h_1 => rfl
      case h_2 d hd => cases d.create data (r.fault cause) <;> rfl
    exact hsame ▸ List.suffix_rfl
  | _ => exact List.suffix_rfl

theorem known_run (r : Registry) (steps : List (String × RegistryStep)) :
    r.known <:+ (r.run steps).known := by
  induction steps generalizing r with
  | nil => exact List.suffix_rfl
  | cons s steps ih => exact (known_next r s).trans (ih (r.next s))

variable {r : Registry} {steps : List (String × RegistryStep)} {d e : Definition} {f : Fault}

theorem mem_known_of_definition? {name : String} (h : r.definition? name = some d) :
    d ∈ r.known :=
  List.mem_map_of_mem (Value.mem_of_field? h)

theorem Makes.mem_known (h : r.Makes steps d f) : d ∈ (r.run steps).known := by
  obtain ⟨before, id, name, data, cause, after, rfl, hname, -⟩ := h
  rw [run_append]
  exact (known_run _ _).subset (mem_known_of_definition? hname)

/-- Where no domain and code come twice, a fault is of the definition that made it, and of those that
overlap with this one. -/
theorem matchesFault_iff (hkeys : ((r.run steps).known.map Definition.key).Nodup)
    (hd : d ∈ (r.run steps).known) (hf : r.Makes steps e f) :
    d.matchesFault f = true ↔ d = e ∨ d.Overlaps e ∨ e.Overlaps d := by
  have he := hf.mem_known
  have hcreated : d.matchesFault f = true ↔ e.fullCode = d.fullCode := by
    obtain ⟨before, id, name, data, cause, after, -, -, hcreate⟩ := hf
    exact Definition.matchesFault_create hcreate
  have hkey : d.key = e.key ↔ d = e :=
    ⟨List.inj_on_of_nodup_map hkeys hd he, congrArg Definition.key⟩
  rw [hcreated, eq_comm, Definition.fullCode_eq_iff, hkey]

def twoFaults (first second : Definition) : List (String × RegistryStep) :=
  [("a", .boundary first.domain), ("b", .boundary second.domain),
    ("first", .define "a" first.code [] first.message),
    ("second", .define "b" second.code [] second.message),
    ("cause", .create "first" [] none), ("fault", .create "second" [] (some "cause"))]

theorem matchesFault_iff_twoFaults :
    let lost : Definition := ⟨"store", "lost", [], [.fixed "lost"]⟩
    let failed : Definition := ⟨"reader", "failed", [], [.fixed "failed"]⟩
    let r := run ⟨[], [], [], []⟩ (twoFaults lost failed)
    lost.matchesFault (r.fault "cause") = true ∧ lost.matchesFault (r.fault "fault") = false := by
  intro lost failed r
  have hmakes : Makes ⟨[], [], [], []⟩ (twoFaults lost failed) failed (r.fault "fault") :=
    ⟨(twoFaults lost failed).take 5, "fault", "second", [], some "cause", [], rfl, rfl, rfl⟩
  have hiff := matchesFault_iff (d := lost) (by decide) (by decide) hmakes
  refine ⟨by decide, Bool.eq_false_iff.2 fun hmatches => ?_⟩
  obtain hsame | hoverlaps | hoverlaps := hiff.1 hmatches
  · exact absurd hsame (by decide)
  · exact absurd hoverlaps.dot_mem.1 (by decide)
  · exact absurd hoverlaps.dot_mem.1 (by decide)

/-- The dot between domain and code can stand at another place. -/
theorem matchesFault_overlapping :
    let first : Definition := ⟨"a", "b.c", [], [.fixed "first"]⟩
    let second : Definition := ⟨"a.b", "c", [], [.fixed "second"]⟩
    let r := run ⟨[], [], [], []⟩ (twoFaults first second)
    (r.known.map Definition.key).Nodup ∧ second ∈ r.known ∧ first ≠ second ∧
      Makes ⟨[], [], [], []⟩ (twoFaults first second) first (r.fault "cause") ∧
      second.matchesFault (r.fault "cause") = true := by
  intro first second r
  refine ⟨by decide, by decide, by decide, ?_, by decide⟩
  exact ⟨(twoFaults first second).take 4, "cause", "first", [], none,
    (twoFaults first second).drop 5, rfl, rfl, rfl⟩

end Registry

end Rulebook
