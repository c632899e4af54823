/-
# Which path is used

A configuration is looked for where the command line says, else where the environment says, else at
the usual path, and a source that gives a blank should count as one that gives nothing. In the
environment it does. A blank on the command line leads to the usual path as well, but past the
environment, so the first source that can be used is found exactly unless the environment has
another path to offer then.
-/
import OperationQueue.Config.Path

namespace OperationQueue.Config

variable {chosen environment : Option String} {given : String}

/-- The path that a source gives, without blanks around it. A blank gives none. -/
def usable (source : Option String) : Option String :=
  (source.map Blank.trim).filter fun path => path ≠ ""

/-- The path of the first source that gives one, or else the usual path. -/
def firstUsable (chosen environment : Option String) : String :=
  ((usable chosen).or (usable environment)).getD defaultPath

theorem usable_blank (h : Blank.trim given = "") : usable (some given) = none := by
  simp [usable, h]

theorem usable_of_not_blank (h : Blank.trim given ≠ "") :
    usable (some given) = some (Blank.trim given) := by
  simp [usable, h]

theorem ofGivenPath_eq (given : String) : ofGivenPath given = (usable (some given)).getD defaultPath := by
  rw [ofGivenPath]
  split
  · next hblank =>
    rw [usable_blank ((Blank.isBlankText_iff given).1 hblank)]
    rfl
  · next hgiven =>
    rw [usable_of_not_blank fun hblank => hgiven ((Blank.isBlankText_iff given).2 hblank)]
    rfl

/-- What the command line gives is decisive. -/
theorem resolvePath_some (given : String) (environment : Option String) :
    resolvePath (some given) environment = (usable (some given)).getD defaultPath :=
  ofGivenPath_eq given

theorem resolvePath_none (environment : Option String) :
    resolvePath none environment = (usable environment).getD defaultPath := by
  cases environment with
  | none => rfl
  | some given => exact ofGivenPath_eq given

/-- The path of the first usable source is taken exactly if the environment has no other path to
offer than the usual one where the command line gives a blank. In the environment a blank always
counts as nothing, and on the command line in the same case. -/
theorem resolvePath_eq_firstUsable_iff (chosen environment : Option String) :
    (resolvePath chosen environment = firstUsable chosen environment ↔
      ((∃ given, chosen = some given ∧ Blank.trim given = "") →
        (usable environment).getD defaultPath = defaultPath)) ∧
    (∀ blank, Blank.trim blank = "" →
      resolvePath chosen (some blank) = resolvePath chosen none) ∧
    ∀ blank, Blank.trim blank = "" →
      (resolvePath (some blank) environment = resolvePath none environment ↔
        (usable environment).getD defaultPath = defaultPath) := by
  refine ⟨?_, fun blank hblank => ?_, fun blank hblank => ?_⟩
  · cases chosen with
    | none => simp [resolvePath_none, firstUsable, usable]
    | some given =>
        rw [resolvePath_some, firstUsable]
        by_cases hblank : Blank.trim given = ""
        · rw [usable_blank hblank, Option.none_or, Option.getD_none, eq_comm]
          exact ⟨fun h _ => h, fun h => h ⟨given, rfl, hblank⟩⟩
        · simp [usable_of_not_blank hblank, hblank]
  · cases chosen with
    | none => rw [resolvePath_none, resolvePath_none, usable_blank hblank]; rfl
    | some given => rw [resolvePath_some, resolvePath_some]
  · rw [resolvePath_some, resolvePath_none, usable_blank hblank, Option.getD_none, eq_comm]

/-- A blank in the environment leaves the choice to the command line. -/
theorem resolvePath_blank_environment :
    Blank.trim " " = "" ∧ resolvePath (some "run.toml") (some " ") = resolvePath (some "run.toml") none ∧
      resolvePath (some "run.toml") none = "run.toml" :=
  have hblank : Blank.trim " " = "" := by decide +kernel
  ⟨hblank, (resolvePath_eq_firstUsable_iff (some "run.toml") none).2.1 " " hblank, by decide +kernel⟩

/-- A blank on the command line hides the path that the environment has to offer. -/
theorem resolvePath_blank_chosen :
    resolvePath (some " ") (some "run.toml") = "Cloudpipe.toml" ∧
      firstUsable (some " ") (some "run.toml") = "run.toml" ∧
      resolvePath none (some "run.toml") = "run.toml" := by
  decide +kernel

end OperationQueue.Config
