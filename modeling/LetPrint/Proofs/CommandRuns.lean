import LetPrint.Proofs.CompiledListing
import LetPrint.Proofs.Dumps
import LetPrint.Proofs.SourceLines

/-! Commands and runs.

A command that names a backend and a file, and asks for nothing else, runs the text in the
file. It writes the values that the run returns, one to a line and each in full
(`readValues?_valueLines`), or the diagnostic that the run fails with and no value at all.
`command_tells_run` puts that together: for every text, the command tells what the run on
that backend reports, and on either backend it writes the same values. -/
namespace LetPrint.CommandLine
open Text

/-! ### Values on lines -/

/-- The integers on the lines of an output, if there is one on every line. -/
def readValues? (output : String) : Option (List Int) :=
  (fedLines output.toList).dropLast.mapM Listing.integer?

theorem toList_valueLines (values : Array Int) :
    (valueLines values).toList =
      values.toList.flatMap fun value => Decimal.chars value ++ ['\n'] := by
  have hline : (fun value : Int => (Decimal.write value ++ "\n").toList) =
      fun value => Decimal.chars value ++ ['\n'] := by
    funext value
    rw [String.toList_append, Decimal.write, String.toList_ofList]
    rfl
  rw [valueLines, String.toList_join, List.flatMap_map, hline]

/-- Texts that hold no line feed are the lines between the line feeds that end them. -/
theorem fedLines_flatMap {lines : List (List Char)} (h : ∀ line ∈ lines, '\n' ∉ line) :
    fedLines (lines.flatMap (· ++ ['\n'])) = lines ++ [[]] := by
  induction lines with
  | nil => rfl
  | cons line lines ih =>
    rw [List.forall_mem_cons] at h
    rw [List.flatMap_cons, List.append_assoc, List.singleton_append, fedLines_append_feed,
      fedLines_of_unbroken h.left, ih h.right]
    rfl

/-- **Values are written in full**, however long they are: their lines say what they are. -/
theorem readValues?_valueLines (values : Array Int) :
    readValues? (valueLines values) = some values.toList := by
  have hlines : (fedLines (valueLines values).toList).dropLast = values.toList.map Decimal.chars := by
    rw [toList_valueLines, ← List.flatMap_map Decimal.chars (· ++ ['\n']), fedLines_flatMap,
      List.dropLast_concat]
    rintro line hline
    obtain ⟨value, _, rfl⟩ := List.mem_map.1 hline
    exact Decimal.feed_not_mem_chars value
  rw [readValues?, hlines]
  induction values.toList with
  | nil => rfl
  | cons value rest ih =>
    rw [List.map_cons, List.mapM_cons, Listing.integer?_chars, ih]
    rfl

/-! ### Commands -/

/-- A backend and a file are all that such a command asks for. -/
theorem readCommand_backend (backend : Backend) {file : String} (h : classify file = .ok .plain) :
    readCommand ["-b", backend.name, file] =
      .ok (⟨some backend, false, false, false, false⟩, file) := by
  have hfile : file ≠ "--" := by
    rintro rfl
    exact absurd h (by decide)
  have hlast : classifyAll [file] = .ok [(file, .plain)] := by
    rw [classifyAll, if_neg hfile, h]
    rfl
  have hwords : classifyAll ["-b", backend.name, file] =
      .ok [("-b", .option .backend (.joined [])), (backend.name, .plain), (file, .plain)] := by
    have hoption : classify "-b" = .ok (.option .backend (.joined [])) := by decide
    have hname : classify backend.name = .ok .plain := by cases backend <;> decide
    have hseparator : backend.name ≠ "--" := by cases backend <;> decide
    rw [classifyAll, if_neg (by decide), hoption, classifyAll, if_neg hseparator, hname, hlast]
    rfl
  rw [readCommand, hwords]
  cases backend <;> rfl

/-- A directory in which reading the file of a name yields a text. -/
def Directory.Holds (directory : Directory) (file text : String) : Prop :=
  '\x00' ∉ (normalPath file).toList ∧
    ∃ bytes, directory.read (normalPath file) = .ok bytes ∧ textOf bytes = .ok text

/-- The command that names a backend and a file runs the text in the file on that backend. -/
theorem runIn_backend {directory : Directory} {file text : String} (backend : Backend)
    (hplain : classify file = .ok .plain) (hfile : directory.Holds file text) :
    runIn directory ["-b", backend.name, file] =
      match (runText text backend.name none).result with
      | .ok values => ⟨valueLines values, "", .ok 0⟩
      | .error failure => .failed failure := by
  obtain ⟨hname, bytes, hbytes, htext⟩ := hfile
  have hquiet : (⟨some backend, false, false, false, false⟩ : Options).verbose = false := rfl
  have hcommand := readCommand_backend backend hplain
  have hundumped : ∀ path, Options.onText ⟨some backend, false, false, false, false⟩ path text =
      Options.onText (Options.plain ⟨some backend, false, false, false, false⟩) path text :=
    fun _ => rfl
  rw [runIn_eq_onText hcommand hname hbytes htext, hundumped, onText_plain hquiet,
    runText_name]
  cases readProgram text with
  | error failure => rfl
  | ok program => exact runProgram_quiet hquiet _ program

/-! ### What a command tells -/

/-- A run on a backend of a name fails with a diagnostic, if it fails. -/
theorem diagnostic_of_runText {sink : Option Sink} {text : String} {failure : Failure}
    (hsink : ∀ take ∈ sink, take.TakesAll) (backend : Backend)
    (h : (runText text backend.name sink).result = .error failure) :
    ∃ d, failure = .diagnostic d := by
  rw [runText_name] at h
  cases hread : readProgram text with
  | error refusal =>
    obtain ⟨d, rfl, _⟩ := readProgram_eq_error hread
    rw [hread] at h
    cases h
    exact ⟨d, rfl⟩
  | ok program =>
    rw [hread] at h
    exact diagnostic_of_run hsink (wellFormed_of_readProgram hread) backend h

/-- The outcome of a command that tells what a run reports. Either the values are on lines of
their own and can be read off these, nothing else is written, and the exit code is 0. Or the
diagnostic is on the error output, no value is written, and the exit code is 1. -/
inductive Tells : RunReport → Outcome → Prop
  | values {values sunk : Array Int} : readValues? (valueLines values) = some values.toList →
    Tells ⟨.ok values, sunk⟩ ⟨valueLines values, "", .ok 0⟩
  | diagnostic (d : Diagnostic) (sunk : Array Int) :
    Tells ⟨.error (.diagnostic d), sunk⟩ ⟨"", d.message ++ "\n", .ok 1⟩

theorem tells_runText {directory : Directory} {file text : String} (backend : Backend)
    (hplain : classify file = .ok .plain) (hfile : directory.Holds file text) :
    Tells (runText text backend.name none) (runIn directory ["-b", backend.name, file]) := by
  have hnone : ∀ take ∈ (none : Option Sink), take.TakesAll := nofun
  rw [runIn_backend backend hplain hfile]
  cases hrun : runText text backend.name none with
  | mk result sunk =>
    cases result with
    | ok values => exact .values (readValues?_valueLines values)
    | error failure =>
      obtain ⟨d, rfl⟩ := diagnostic_of_runText hnone backend (by rw [hrun])
      exact .diagnostic d sunk

/-- Reports that say the same lead to the same output and exit code. -/
theorem Tells.same {vm tree : RunReport} {o o' : Outcome} (h : Tells vm o) (h' : Tells tree o')
    (hsame : SameReport vm tree) : o.stdout = o'.stdout ∧ o.ending = o'.ending := by
  cases hsame with
  | printed values sunk =>
    cases h
    cases h'
    exact ⟨rfl, rfl⟩
  | failed sunk hfailure =>
    cases h
    cases h'
    exact ⟨rfl, rfl⟩

/-- The two backends make a command write the same values and end alike. -/
theorem same_output {directory : Directory} {file text : String}
    (hplain : classify file = .ok .plain) (hfile : directory.Holds file text) :
    (runIn directory ["-b", "vm", file]).stdout = (runIn directory ["-b", "tree", file]).stdout ∧
      (runIn directory ["-b", "vm", file]).ending =
        (runIn directory ["-b", "tree", file]).ending := by
  have hvm : Tells (runText text "vm" none) (runIn directory ["-b", "vm", file]) :=
    tells_runText .vm hplain hfile
  have htree : Tells (runText text "tree" none) (runIn directory ["-b", "tree", file]) :=
    tells_runText .tree hplain hfile
  obtain ⟨d, _, _, hvmFails, htreeFails⟩ | ⟨_, _, hsame⟩ := (backends_agree none).right text
  · rw [hvmFails] at hvm
    rw [htreeFails] at htree
    generalize runIn directory ["-b", "vm", file] = vm at hvm ⊢
    generalize runIn directory ["-b", "tree", file] = tree at htree ⊢
    cases hvm
    cases htree
    exact ⟨rfl, rfl⟩
  · exact hvm.same htree hsame

/-- **A command tells what a run reports.** On no text does a run fail with anything but a
diagnostic. If the file of a plain name holds a text, the command that names a backend and
that file tells what the run of the text reports, and what it writes for values and how it
ends are the same on either backend. -/
theorem command_tells_run :
    (∀ (text : String) (backend : Backend) (sink : Option Sink) (failure : Failure),
      (∀ take ∈ sink, take.TakesAll) → (runText text backend.name sink).result = .error failure →
        ∃ d, failure = .diagnostic d) ∧
    ∀ (directory : Directory) (file text : String), classify file = .ok .plain →
      directory.Holds file text →
        (∀ backend : Backend, Tells (runText text backend.name none)
          (runIn directory ["-b", backend.name, file])) ∧
        (runIn directory ["-b", "vm", file]).stdout =
          (runIn directory ["-b", "tree", file]).stdout ∧
        (runIn directory ["-b", "vm", file]).ending =
          (runIn directory ["-b", "tree", file]).ending := by
  refine ⟨fun text backend sink failure hsink h => diagnostic_of_runText hsink backend h, ?_⟩
  intro directory file text hplain hfile
  exact ⟨fun backend => tells_runText backend hplain hfile, same_output hplain hfile⟩

/-- A file that prints a number before it divides by zero. -/
def withheldDirectory : Directory :=
  ⟨[(["p.let".toList], "print(7);print(1/0);".toList.map fun c => UInt8.ofNat c.toNat)], []⟩

theorem command_tells_run_withheldDirectory :
    (∀ take ∈ some Sink.collecting, take.TakesAll) ∧
      (∃ d, (runText "print(7);print(1/0);" "tree" (some .collecting)).result =
        .error (.diagnostic d)) ∧
      (runText "print(7);print(1/0);" "tree" (some .collecting)).sunk = #[7] ∧
      classify "p.let" = .ok .plain ∧ withheldDirectory.Holds "p.let" "print(7);print(1/0);" ∧
      Tells (runText "print(7);print(1/0);" "tree" none)
        (runIn withheldDirectory ["-b", "tree", "p.let"]) ∧
      (runIn withheldDirectory ["-b", "tree", "p.let"]).stdout = "" := by
  have hsink : ∀ take ∈ some Sink.collecting, take.TakesAll := by
    intro take htake
    cases htake
    exact Sink.takesAll_collecting
  have hplain : classify "p.let" = .ok .plain := by decide
  have hfile : withheldDirectory.Holds "p.let" "print(7);print(1/0);" :=
    ⟨by decide, _, rfl, by decide +kernel⟩
  have hresult : (runText "print(7);print(1/0);" Backend.tree.name (some .collecting)).result =
      .error (.diagnostic (.evaluation .divisionByZero "right operand is 0")) := by
    decide +kernel
  obtain ⟨d, hd⟩ := command_tells_run.left _ .tree _ _ hsink hresult
  refine ⟨hsink, ⟨d, hresult.trans (congrArg _ hd)⟩, by decide +kernel, hplain, hfile, ?_, ?_⟩
  · exact (command_tells_run.right _ _ _ hplain hfile).left .tree
  · decide +kernel

end LetPrint.CommandLine
