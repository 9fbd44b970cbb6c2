/-
This file shows when the isolated proof run of a sandbox works on the program of its process.
-/

import FramaCMcp.Construction.SandboxCalls
import FramaCMcp.Foundation.StateFlow

namespace FramaCMcp.SandboxWp

open Receipt LoadCommand WpSettings
open StateFlow (bind_eq_ok)

theorem readWord_file {reading : Reading} {word : String} (settled : reading.awaits = none)
    (file : hasDash word = false) :
    readWord reading word = { reading with files := reading.files ++ [word] } := by
  have noOption : valueOptions.contains word = false := by
    by_contra found
    have member := List.contains_iff_mem.mp (Bool.eq_true_of_not_eq_false found)
    have dashed := List.all_eq_true.mp (show valueOptions.all hasDash = true by decide) word member
    rw [file] at dashed
    cases dashed
  rw [readWord, settled]
  dsimp only
  rw [noOption, file]
  rfl

/-- An option of the proof with its value says nothing about the program. -/
theorem read_optionWords {reading : Reading} {name : String} (settled : reading.awaits = none)
    (option : valueOptions.contains name = true) (proof : isLoadOption name = false)
    (value : Option String) : (optionWords name value).foldl readWord reading = reading := by
  cases value with
  | none => rfl
  | some value =>
      show readWord (readWord reading name) value = reading
      have awaiting : readWord reading name = { reading with awaits := some name } := by
        rw [readWord, settled]
        dsimp only
        rw [option]
        rfl
      rw [awaiting]
      show Reading.addOption _ name (some value) = reading
      rw [Reading.addOption, proof, if_neg Bool.false_ne_true, ← settled]

theorem hasDash_sandboxFile (host : Host) (experimentId : String) :
    hasDash (sandboxFile host experimentId) = false := by
  simp [hasDash, Text.startsWith, sandboxFile, sandboxDir, List.isPrefixOf]

/-- The process of a sandbox loads its file under the recorded switches. -/
theorem readLine_commandLine (host : Host) (experimentId : String) (rte : SandboxRte) :
    readLine (commandLine host experimentId rte) =
      { files := [sandboxFile host experimentId]
        flags := ["-rte", rteIndependentOfEva] ++ (if rte.unsigned then unsignedRteOptions else []) ++
          (if rte.pointer then [pointerRteOption] else []) ++ ["-keep-unused-types"]
        loadOptions := [("-keep-unused-functions", some "all"), ("-keep-unused-types", none),
          ("-kernel-warn-key", some "annot-error=feedback")] } := by
  rw [readLine, commandLine, sandboxFramaCCommandLine]
  obtain ⟨unsigned, pointer⟩ := rte
  have start := @readWord_file {} _ rfl (hasDash_sandboxFile host experimentId)
  cases unsigned <;> cases pointer <;>
    · simp only [List.cons_append, List.nil_append, List.tail_cons, List.foldl_cons, start]
      rfl

/-- Each attempt loads the named file without any option under the default switches, whatever its
other settings. -/
theorem readLine_isolatedAttemptCommand (written : Option String) (attempt : IsolatedAttempt)
    (file : String) (named : hasDash file = false) (files : attempt.files = [file])
    (options : attempt.projectOptions = isolatedOptions) (guarded : attempt.rteEnabled = true) :
    readLine (isolatedAttemptCommand written attempt) =
      { files := [file], flags := ["-wp", "-wp-rte"] ++ unsignedRteOptions } := by
  have loads : projectCliArgs written isolatedOptions = [] := rfl
  have guards : unsignedRteArgs isolatedOptions = unsignedRteOptions := rfl
  have start := @readWord_file {} _ rfl named
  rw [readLine, isolatedAttemptCommand, files, options, guarded, loads, guards, if_pos rfl]
  simp only [List.append_assoc, List.cons_append, List.nil_append, List.tail_cons, List.foldl_cons,
    List.foldl_append, start]
  -- the words up to the switches are read one by one
  have switched : unsignedRteOptions.foldl readWord (readWord (readWord (readWord (readWord
      (readWord (readWord { files := [file] } "-wp") "-wp-prover") attempt.prover) "-wp-model")
        (attempt.params.model.getD WpSettings.defaultWpModel)) "-wp-rte") =
      { files := [file], flags := ["-wp", "-wp-rte"] ++ unsignedRteOptions } := rfl
  have timeout : valueOptions.contains "-wp-timeout" = true := rfl
  have par : valueOptions.contains "-wp-par" = true := rfl
  have steps : valueOptions.contains "-wp-steps" = true := rfl
  have prop : valueOptions.contains "-wp-prop" = true := rfl
  rw [switched, read_optionWords rfl timeout rfl, read_optionWords rfl par rfl,
    read_optionWords rfl steps rfl, read_optionWords rfl prop rfl]
  cases attempt.functions.isEmpty <;> rfl

def switchesOf (rte : SandboxRte) : Switches where
  rte := true
  unsignedOverflow := rte.unsigned
  unsignedDowncast := rte.unsigned
  invalidPointer := rte.pointer

theorem switches_commandLine (host : Host) (experimentId : String) (rte : SandboxRte) :
    (readLine (commandLine host experimentId rte)).switches = switchesOf rte := by
  rw [readLine_commandLine]
  obtain ⟨unsigned, pointer⟩ := rte
  cases unsigned <;> cases pointer <;> rfl

theorem switchesOf_injective : Function.Injective switchesOf := by
  rintro ⟨unsigned, pointer⟩ ⟨otherUnsigned, otherPointer⟩ same
  have both := congrArg (fun switches => (switches.unsignedOverflow, switches.invalidPointer)) same
  obtain ⟨rfl, rfl⟩ := Prod.mk.inj both
  rfl

section Routes

variable {Program Insertion : Type}

/-- Insertions change neither the name nor the switches of a sandbox. -/
theorem insertAll_keeps (kernel : Kernel Program Insertion) (sandbox : Sandbox Program)
    (insertions : List Insertion) :
    (sandbox.insertAll kernel insertions).experimentId = sandbox.experimentId ∧
      (sandbox.insertAll kernel insertions).rte = sandbox.rte := by
  induction insertions generalizing sandbox with
  | nil => exact ⟨rfl, rfl⟩
  | cons insertion insertions ih => exact ih (sandbox.insert kernel insertion)

variable {params : RunWpParams} {analyses : List (Analysis Program)}
    {kernel : Kernel Program Insertion}

/-- The isolated attempts analyse the file of the creation, loaded without any option, under the
default switches. -/
theorem analyses_of_runIsolatedWpRetries {host : Host} {experimentId : String}
    {functions provers : List String}
    (ran : runIsolatedWpRetries host kernel experimentId functions provers params = .ok analyses) :
    analyses = provers.map fun _ =>
      { program := kernel.load [] [sandboxFile host experimentId], switches := switchesOf {} } := by
  obtain ⟨timeout, -, ran⟩ := bind_eq_ok.mp ran
  obtain ⟨par, -, ran⟩ := bind_eq_ok.mp ran
  obtain ⟨cacheMode, -, ran⟩ := bind_eq_ok.mp ran
  rw [← Except.ok.inj ran]
  apply List.map_congr_left
  intro prover _
  rw [isolatedAnalysis, Kernel.loadLine, readLine_isolatedAttemptCommand host.written _
    (sandboxFile host experimentId) (hasDash_sandboxFile host experimentId) rfl rfl rfl]
  rfl

theorem requestedWpProvers_ne_nil {requested : List String}
    (accepted : requestedWpProvers params = .ok (some requested)) : requested ≠ [] := by
  rintro rfl
  unfold requestedWpProvers at accepted
  split_ifs at accepted
  cases listed : params.provers <|> params.prover.map commaSeparated with
  | none => simp [listed] at accepted
  | some provers =>
      simp only [listed] at accepted
      split_ifs at accepted with empty
      exact empty (.inl (Option.some.inj (Except.ok.inj accepted)))

/-- A given list is accepted or refused, and never ignored. -/
theorem requestedWpProvers_ne_none {provers : List String} (given : params.provers = some provers) :
    requestedWpProvers params ≠ .ok none := by
  intro ignored
  unfold requestedWpProvers at ignored
  rw [given] at ignored
  split_ifs at ignored
  have first : (some provers <|> params.prover.map commaSeparated) = some provers := rfl
  rw [first] at ignored
  dsimp only at ignored
  split_ifs at ignored
  cases Except.ok.inj ignored

theorem analyses_of_plain {host : Host} {sandbox : Sandbox Program}
    {functions : Option (List String)}
    (ran : runWpOnSandbox host kernel sandbox functions { params with provers := none } =
      .ok analyses) : analyses = [liveAnalysis host sandbox] := by
  cases functions with
  | none => cases ran
  | some names =>
      obtain ⟨targets, -, ran⟩ := bind_eq_ok.mp ran
      obtain ⟨requested, -, ran⟩ := bind_eq_ok.mp ran
      have unlisted : (requested.filter fun _ =>
          ({ params with provers := none } : RunWpParams).provers.isSome) = none := by
        cases requested <;> rfl
      rw [unlisted] at ran
      exact (Except.ok.inj ran).symm

/-- A call with a list runs the isolated attempts, and at least one of them. -/
theorem analyses_of_listed {host : Host} {sandbox : Sandbox Program}
    {functions : Option (List String)} {provers : List String}
    (ran : runWpOnSandbox host kernel sandbox functions { params with provers := some provers } =
      .ok analyses) :
    ∃ requested : List String, requested ≠ [] ∧ analyses = requested.map fun _ =>
      { program := kernel.load [] [sandboxFile host sandbox.experimentId]
        switches := switchesOf {} } := by
  cases functions with
  | none => cases ran
  | some names =>
      obtain ⟨targets, -, ran⟩ := bind_eq_ok.mp ran
      obtain ⟨requested, accepted, ran⟩ := bind_eq_ok.mp ran
      obtain ⟨listed, taken, chosen⟩ := bind_eq_ok.mp accepted
      cases listed with
      | none => exact absurd taken (requestedWpProvers_ne_none rfl)
      | some listed =>
          obtain rfl := Except.ok.inj chosen
          exact ⟨listed, requestedWpProvers_ne_nil taken, analyses_of_runIsolatedWpRetries ran⟩

end Routes

/-- These settings name no prover and no limit. -/
def plainHost : Host where
  framaCPath := "frama-c"
  executableInPath _ := false
  written := none
  env := {}
  user := 1000
  owner := "0badcafe"

/-- The program of this kernel is the list of its files and of its annotations, and its files have
nothing unused. -/
def listKernel : Kernel (List String) String where
  load _ files := files
  insert clause program := some (program ++ [clause])

end FramaCMcp.SandboxWp
