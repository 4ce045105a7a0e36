import Fluxion.CommandLine.Options
import Mathlib.Data.List.Induction
/- Arguments of a run, put end to end. `Spells` says what arguments ask for, without the options
   that are changed by it: each is an option, a file, or the value of the option before it. Every
   list of arguments spells something up to its end, up to an `-o` that misses its value, or up to
   an option that is not known (`spells_or_stops`), and reading goes on behind what is spelled with
   the options set so far (`Spells.read_append`).

   So arguments behind others do what they do by themselves: they fail with the same error, or they
   add their files, may switch the output off and give the job name if they give one (`Extends`,
   `Continues`). Only a last `-o` reaches over to them, and takes the first as its value, whatever
   it looks like. `ofArguments_append` has all of these cases. -/
namespace Fluxion

/-- What one option with its value, or one file, asks for. -/
inductive Setting where
  | quiet
  | jobName (name : String)
  | file (path : String)
  deriving DecidableEq

namespace Setting

def jobName? : Setting → Option String
  | jobName name => some name
  | _ => none

def file? : Setting → Option String
  | file path => some path
  | _ => none

end Setting

namespace Options

/-! ## What arguments spell -/

def IsQuiet (word : String) : Prop := word = "-q" ∨ word = "--quiet"

def IsOutput (word : String) : Prop := word = "-o" ∨ word = "--output"

instance (word : String) : Decidable (IsQuiet word) := inferInstanceAs (Decidable (_ ∨ _))

instance (word : String) : Decidable (IsOutput word) := inferInstanceAs (Decidable (_ ∨ _))

/-- The word looks like an option and is none. -/
def IsUnknown (word : String) : Prop := word.startsWith "-" ∧ ¬IsQuiet word ∧ ¬IsOutput word

/-- The arguments ask for the settings, one after the other. -/
inductive Spells : List String → List Setting → Prop where
  | done : Spells [] []
  | quiet {word : String} {rest : List String} {settings : List Setting} (isQuiet : IsQuiet word)
      (more : Spells rest settings) : Spells (word :: rest) (.quiet :: settings)
  | output {word name : String} {rest : List String} {settings : List Setting}
      (isOutput : IsOutput word) (more : Spells rest settings) :
      Spells (word :: name :: rest) (.jobName name :: settings)
  | file {path : String} {rest : List String} {settings : List Setting}
      (noOption : path.startsWith "-" = false) (more : Spells rest settings) :
      Spells (path :: rest) (.file path :: settings)

/-- Changes the options as a setting asks. -/
def set (options : Options) : Setting → Options
  | .quiet => { options with print := false }
  | .jobName name => { options with jobName := name }
  | .file path => { options with files := options.files ++ [path] }

variable {a b before rest : List String} {word : String} {settings : List Setting}
  {typesetter : Option String} {options A B : Options}

theorem startsWith_of_isQuiet (isQuiet : IsQuiet word) : word.startsWith "-" = true := by
  rcases isQuiet with rfl | rfl <;> decide +kernel

theorem startsWith_of_isOutput (isOutput : IsOutput word) : word.startsWith "-" = true := by
  rcases isOutput with rfl | rfl <;> decide +kernel

theorem not_isQuiet_of_isOutput (isOutput : IsOutput word) : ¬IsQuiet word := by
  rcases isOutput with rfl | rfl <;> simp [IsQuiet]

/-! ## One argument -/

theorem read_cons (options : Options) (word : String) (rest : List String) :
    read options (word :: rest) =
      if IsQuiet word then read (options.set .quiet) rest
      else if IsOutput word then
        match rest with
        | [] => .error (.missingValue "-o")
        | name :: rest => read (options.set (.jobName name)) rest
      else if word.startsWith "-" then .error (.unknownOption word)
      else read (options.set (.file word)) rest := by
  rw [read.eq_def]
  rfl

theorem read_quiet (isQuiet : IsQuiet word) :
    read options (word :: rest) = read (options.set .quiet) rest := by
  rw [read_cons, if_pos isQuiet]

theorem read_output (isOutput : IsOutput word) (name : String) :
    read options (word :: name :: rest) = read (options.set (.jobName name)) rest := by
  rw [read_cons, if_neg (not_isQuiet_of_isOutput isOutput), if_pos isOutput]

theorem read_output_last (isOutput : IsOutput word) :
    read options [word] = .error (.missingValue "-o") := by
  rw [read_cons, if_neg (not_isQuiet_of_isOutput isOutput), if_pos isOutput]

theorem read_unknown (isUnknown : IsUnknown word) :
    read options (word :: rest) = .error (.unknownOption word) := by
  obtain ⟨starts, notQuiet, notOutput⟩ := isUnknown
  rw [read_cons, if_neg notQuiet, if_neg notOutput, if_pos starts]

theorem read_file (noOption : word.startsWith "-" = false) :
    read options (word :: rest) = read (options.set (.file word)) rest := by
  have notQuiet : ¬IsQuiet word := by
    intro isQuiet
    simp [startsWith_of_isQuiet isQuiet] at noOption
  have notOutput : ¬IsOutput word := by
    intro isOutput
    simp [startsWith_of_isOutput isOutput] at noOption
  rw [read_cons, if_neg notQuiet, if_neg notOutput, if_neg (by simp [noOption])]

/-! ## Reading goes on behind what is spelled -/

theorem Spells.read_append (spells : Spells a settings) (b : List String) :
    read options (a ++ b) = read (settings.foldl set options) b := by
  induction spells generalizing options with
  | done => rfl
  | quiet isQuiet _ ih =>
    rw [List.cons_append, read_quiet isQuiet, ih]
    rfl
  | output isOutput _ ih =>
    rw [List.cons_append, List.cons_append, read_output isOutput, ih]
    rfl
  | file noOption _ ih =>
    rw [List.cons_append, read_file noOption, ih]
    rfl

theorem Spells.read_eq (spells : Spells a settings) :
    read options a = .ok (settings.foldl set options) := by
  have whole : read options (a ++ []) = _ := spells.read_append []
  rwa [List.append_nil, read] at whole

/-- Arguments spell something to their end, to an `-o` without its value, or to a word that is
    no option. -/
theorem spells_or_stops (arguments : List String) :
    (∃ settings, Spells arguments settings) ∨
      ∃ before settings word after, Spells before settings ∧ arguments = before ++ word :: after ∧
        (IsOutput word ∧ after = [] ∨ IsUnknown word) := by
  -- Two arguments at once are behind an option with its value.
  induction arguments using List.twoStepInduction with
  | nil => exact .inl ⟨[], .done⟩
  | singleton word =>
    by_cases isQuiet : IsQuiet word
    · exact .inl ⟨_, .quiet isQuiet .done⟩
    by_cases isOutput : IsOutput word
    · exact .inr ⟨[], [], word, [], .done, rfl, .inl ⟨isOutput, rfl⟩⟩
    cases starts : word.startsWith "-" with
    | true => exact .inr ⟨[], [], word, [], .done, rfl, .inr ⟨starts, isQuiet, isOutput⟩⟩
    | false => exact .inl ⟨_, .file starts .done⟩
  | cons_cons word next rest ihBehind ih =>
    -- A word by itself goes in front of what the rest spells.
    have extend : ∀ {setting}, (∀ {arguments settings}, Spells arguments settings →
        Spells (word :: arguments) (setting :: settings)) →
        (∃ settings, Spells (word :: next :: rest) settings) ∨
          ∃ before settings stop after, Spells before settings ∧
            word :: next :: rest = before ++ stop :: after ∧
              (IsOutput stop ∧ after = [] ∨ IsUnknown stop) := by
      intro setting spell
      rcases ih next with ⟨settings, spells⟩ | ⟨before, settings, stop, after, spells, split, stops⟩
      · exact .inl ⟨_, spell spells⟩
      · exact .inr ⟨word :: before, _, stop, after, spell spells, by rw [split]; rfl, stops⟩
    by_cases isQuiet : IsQuiet word
    · exact extend (.quiet isQuiet)
    by_cases isOutput : IsOutput word
    · rcases ihBehind with ⟨settings, spells⟩ | ⟨before, settings, stop, after, spells, rfl, stops⟩
      · exact .inl ⟨_, .output isOutput spells⟩
      · exact .inr ⟨word :: next :: before, _, stop, after, .output isOutput spells, rfl, stops⟩
    cases starts : word.startsWith "-" with
    | true => exact .inr ⟨[], [], word, next :: rest, .done, rfl, .inr ⟨starts, isQuiet, isOutput⟩⟩
    | false => exact extend (.file starts)

/-- Accepted arguments spell what the options are set to. -/
theorem exists_spells (accepted : read options a = .ok A) :
    ∃ settings, Spells a settings ∧ A = settings.foldl set options := by
  rcases spells_or_stops a with ⟨settings, spells⟩ | ⟨before, settings, word, after, spells, rfl, stops⟩
  · rw [spells.read_eq] at accepted
    cases accepted
    exact ⟨settings, spells, rfl⟩
  · rw [spells.read_append] at accepted
    rcases stops with ⟨isOutput, rfl⟩ | isUnknown
    · simp [read_output_last isOutput] at accepted
    · simp [read_unknown isUnknown] at accepted

/-- Arguments that are refused spell something up to a last `-o` or to a word that is no option. -/
theorem exists_stop {e : UsageError} (failed : read options a = .error e) :
    ∃ before settings word after, Spells before settings ∧ a = before ++ word :: after ∧
      (IsOutput word ∧ after = [] ∧ e = .missingValue "-o" ∨
        IsUnknown word ∧ e = .unknownOption word) := by
  rcases spells_or_stops a with ⟨settings, spells⟩ | ⟨before, settings, word, after, spells, rfl, stops⟩
  · simp [spells.read_eq] at failed
  · rw [spells.read_append] at failed
    refine ⟨before, settings, word, after, spells, rfl, ?_⟩
    rcases stops with ⟨isOutput, rfl⟩ | isUnknown
    · rw [read_output_last isOutput] at failed
      exact .inl ⟨isOutput, rfl, (Except.error.inj failed).symm⟩
    · rw [read_unknown isUnknown] at failed
      exact .inr ⟨isUnknown, (Except.error.inj failed).symm⟩

/-! ## What settings come to -/

theorem foldl_set (settings : List Setting) (options : Options) :
    settings.foldl set options =
      { options with
        jobName := (settings.filterMap Setting.jobName?).getLast?.getD options.jobName
        print := options.print && !settings.contains .quiet
        files := options.files ++ settings.filterMap Setting.file? } := by
  induction settings generalizing options with
  | nil => simp
  | cons setting rest ih =>
    rw [List.foldl_cons, ih, List.filterMap_cons, List.filterMap_cons]
    cases setting <;> simp [set, Setting.jobName?, Setting.file?, List.getLast?_cons]

/-- Some of the arguments are an option for the job name with its value. -/
def GivesJobName (arguments : List String) : Prop :=
  ∃ settings name, Spells arguments settings ∧ .jobName name ∈ settings

/-- What the options `A` become by arguments `b` that by themselves ask for `B`. -/
structure Extends (b : List String) (A B C : Options) : Prop where
  files : C.files = A.files ++ B.files
  print : C.print = (A.print && B.print)
  given : GivesJobName b → C.jobName = B.jobName
  kept : ¬GivesJobName b → C.jobName = A.jobName
  typesetter : C.typesetter = A.typesetter ∧ B.typesetter = A.typesetter

/-- What comes of arguments `b` behind others that ask for `A`, as against what comes of them by
    themselves: the same error, or the options extended. -/
inductive Continues (b : List String) (A : Options) :
    Except UsageError Options → Except UsageError Options → Prop where
  | error (e : UsageError) : Continues b A (.error e) (.error e)
  | ok {B C : Options} (extended : Extends b A B C) : Continues b A (.ok B) (.ok C)

/-- The environment decides on the typesetter only. -/
theorem initial_eq (typesetter : Option String) :
    initial typesetter = { typesetter := (initial typesetter).typesetter } := by
  cases typesetter with
  | none => rfl
  | some command =>
    simp only [initial]
    split <;> rfl

theorem jobName_foldl_of_mem {name : String} (given : .jobName name ∈ settings)
    (options A : Options) :
    (settings.foldl set A).jobName = (settings.foldl set options).jobName := by
  have mem : name ∈ settings.filterMap Setting.jobName? :=
    List.mem_filterMap.mpr ⟨_, given, rfl⟩
  obtain ⟨last, found⟩ := Option.isSome_iff_exists.mp
    (List.getLast?_isSome.mpr (List.ne_nil_of_mem mem))
  simp [foldl_set, found]

theorem jobName_foldl_of_notMem (missing : ∀ name, .jobName name ∉ settings) (A : Options) :
    (settings.foldl set A).jobName = A.jobName := by
  have none : settings.filterMap Setting.jobName? = [] := by
    apply List.filterMap_eq_nil_iff.mpr
    intro setting mem
    cases setting with
    | jobName name => exact absurd mem (missing name)
    | quiet | file => rfl
  simp [foldl_set, none]

/-- Settings make more of options that are set already than of those at the beginning. -/
theorem Spells.extends (spells : Spells b settings)
    (same : A.typesetter = (initial typesetter).typesetter) :
    Extends b A (settings.foldl set (initial typesetter)) (settings.foldl set A) := by
  refine ⟨?_, ?_, ?_, ?_, ?_⟩
  · rw [initial_eq]
    simp [foldl_set]
  · rw [initial_eq]
    simp [foldl_set]
  · intro given
    obtain ⟨others, name, spells', mem⟩ := given
    -- What the arguments spell decides on the options, so both lists come to the same.
    have alike : ∀ options, others.foldl set options = settings.foldl set options := by
      intro options
      have read : Options.read options b = _ := spells.read_eq
      rw [spells'.read_eq] at read
      exact Except.ok.inj read
    rw [← alike, ← alike]
    exact jobName_foldl_of_mem mem _ A
  · intro missing
    exact jobName_foldl_of_notMem (fun name mem => missing ⟨settings, name, spells, mem⟩) A
  · simp [foldl_set, same]

/-- Arguments behind others that spell something. -/
theorem Spells.continues (spells : Spells a settings) (b : List String) (typesetter : Option String) :
    Continues b (settings.foldl set (initial typesetter)) (ofArguments b typesetter)
      (ofArguments (a ++ b) typesetter) := by
  rw [ofArguments, ofArguments, spells.read_append]
  rcases spells_or_stops b with ⟨others, more⟩ | ⟨before, others, word, after, more, rfl, stops⟩
  · rw [more.read_eq, more.read_eq]
    apply Continues.ok
    apply more.extends
    simp [foldl_set]
  · rw [more.read_append, more.read_append]
    rcases stops with ⟨isOutput, rfl⟩ | isUnknown
    · rw [read_output_last isOutput, read_output_last isOutput]
      exact .error _
    · rw [read_unknown isUnknown, read_unknown isUnknown]
      exact .error _

theorem Spells.append (spells : Spells a settings) {others : List Setting} (more : Spells b others) :
    Spells (a ++ b) (settings ++ others) := by
  induction spells with
  | done => exact more
  | quiet isQuiet _ ih => exact .quiet isQuiet ih
  | output isOutput _ ih => exact .output isOutput ih
  | file noOption _ ih => exact .file noOption ih

/-- An option for the job name takes the word behind it, whatever it is, as its value. -/
theorem continues_output {value : String} (accepted : ofArguments before typesetter = .ok A)
    (isOutput : IsOutput word) (rest : List String) :
    Continues rest { A with jobName := value } (ofArguments rest typesetter)
      (ofArguments (before ++ word :: value :: rest) typesetter) := by
  obtain ⟨settings, spells, rfl⟩ := exists_spells accepted
  have spelled : Spells [word, value] [.jobName value] := .output isOutput .done
  have onward := (spells.append spelled).continues rest typesetter
  rwa [List.append_assoc, List.foldl_append] at onward

/-- Arguments compose. Behind accepted ones, others fail as they do by themselves, or add their
    files, may turn off printing, and give the job name if they give one. Behind an option that is
    not known nothing is read. A last `-o` takes the first of the others as its value. The value
    of an `-o` is nothing but its value. -/
theorem ofArguments_append (typesetter : Option String) (a b : List String) :
    (∀ A, ofArguments a typesetter = .ok A →
      Continues b A (ofArguments b typesetter) (ofArguments (a ++ b) typesetter)) ∧
    (∀ word, ofArguments a typesetter = .error (.unknownOption word) →
      ofArguments (a ++ b) typesetter = .error (.unknownOption word)) ∧
    (∀ option, ofArguments a typesetter = .error (.missingValue option) →
      option = "-o" ∧ ∃ before word A, a = before ++ [word] ∧ IsOutput word ∧
        ofArguments before typesetter = .ok A ∧ ∀ value rest, b = value :: rest →
          Continues rest { A with jobName := value } (ofArguments rest typesetter)
            (ofArguments (a ++ b) typesetter)) ∧
    ∀ before word value rest A, a = before ++ word :: value :: rest → IsOutput word →
      ofArguments before typesetter = .ok A →
      Continues rest { A with jobName := value } (ofArguments rest typesetter)
        (ofArguments a typesetter) := by
  refine ⟨?_, ?_, ?_, ?_⟩
  · intro A accepted
    obtain ⟨settings, spells, rfl⟩ := exists_spells accepted
    exact spells.continues b typesetter
  · intro word failed
    obtain ⟨before, settings, stop, after, spells, rfl, stops⟩ := exists_stop failed
    rcases stops with ⟨-, -, other⟩ | ⟨isUnknown, same⟩
    · cases other
    · rw [List.append_assoc, List.cons_append, same, ofArguments, spells.read_append,
        read_unknown isUnknown]
  · intro option failed
    obtain ⟨before, settings, stop, after, spells, rfl, stops⟩ := exists_stop failed
    rcases stops with ⟨isOutput, rfl, same⟩ | ⟨-, other⟩
    · cases same
      have accepted : ofArguments before typesetter = _ := spells.read_eq
      refine ⟨rfl, before, stop, _, rfl, isOutput, accepted, ?_⟩
      rintro value rest rfl
      rw [List.append_assoc]
      exact continues_output accepted isOutput rest
    · cases other
  · rintro before word value rest A rfl isOutput accepted
    exact continues_output accepted isOutput rest

theorem ofArguments_append_outputs :
    Continues ["--output", "-v", "b.txt"] { print := false, files := ["a.txt"] }
      (ofArguments ["--output", "-v", "b.txt"] none)
      (ofArguments ["-q", "a.txt", "--output", "-v", "b.txt"] none) ∧
    ofArguments ["-v", "-o"] none = .error (.unknownOption "-v") ∧
    Continues ["-q"] { jobName := "-v", files := ["a.txt"] } (ofArguments ["-q"] none)
      (ofArguments ["a.txt", "-o", "-v", "-q"] none) ∧
    Continues ["-q"] { jobName := "-o", files := ["a.txt"] } (ofArguments ["-q"] none)
      (ofArguments ["a.txt", "-o", "-o", "-q"] none) := by
  have quiet : ofArguments ["-q", "a.txt"] none = .ok { print := false, files := ["a.txt"] } := by
    decide +kernel
  have unknown : ofArguments ["-v"] none = .error (.unknownOption "-v") := by
    decide +kernel
  have named : ofArguments ["a.txt"] none = .ok { files := ["a.txt"] } := by decide +kernel
  have missing : ofArguments ["a.txt", "-o"] none = .error (.missingValue "-o") := by decide +kernel
  have isOutput : IsOutput "-o" := .inl rfl
  refine ⟨(ofArguments_append none ["-q", "a.txt"] _).1 _ quiet,
    (ofArguments_append none ["-v"] ["-o"]).2.1 "-v" unknown, ?_,
    (ofArguments_append none ["a.txt", "-o", "-o", "-q"] []).2.2.2 ["a.txt"] "-o" "-o" ["-q"] _ rfl
      isOutput named⟩
  obtain ⟨-, before, word, A, split, -, accepted, behind⟩ :=
    (ofArguments_append none ["a.txt", "-o"] ["-v", "-q"]).2.2.1 "-o" missing
  have split : ["a.txt"] ++ ["-o"] = before ++ [word] := split
  obtain rfl : ["a.txt"] = before := (List.append_inj' split rfl).1
  rw [named] at accepted
  cases accepted
  exact behind "-v" ["-q"] rfl

end Options
end Fluxion
