import SilverTree.CorpusChecker

/-!
# What a test leaves behind

A test works in the folder of the samples.  It writes its scratch files there and deletes
them when a command has ended, but not when one could not be started, and it asks nobody
whether the files were there before.

## Main definitions

* `fileSystemAfter` — the file system a test ends with.
* `ScratchFree` — none of the scratch files of a sample exists.
* `KeepsFiles` — the tests that leave all files as they were.

## Main results

* `runTest_other_files` — **only scratch files change**, on every outcome.
* `runTest_keeps_files_iff` — **when a test leaves all files as they were.**
-/

namespace SilverTree

namespace Corpus

/-- The file system after a program has returned or thrown. -/
def fileSystemAfter {α : Type} : EStateM.Result JavaException FileSystem α → FileSystem
  | .ok _ fs => fs
  | .error _ fs => fs

@[simp] theorem fileSystemAfter_ok {α : Type} (a : α) (fs : FileSystem) :
    fileSystemAfter (.ok a fs : EStateM.Result JavaException FileSystem α) = fs := rfl

@[simp] theorem fileSystemAfter_error {α : Type} (e : JavaException) (fs : FileSystem) :
    fileSystemAfter (.error e fs : EStateM.Result JavaException FileSystem α) = fs := rfl

/-- None of the scratch files of a sample exists. -/
def ScratchFree (fs : FileSystem) (f : DtsFile) : Prop := ∀ q ∈ scratchFiles f, fs.files q = none

section Frame

variable {lib : CheckerLibrary} {exec : Exec} {f : DtsFile} {root : DeviceTreeRoot}
  {fs : FileSystem}

/-! ### The outcomes of a test -/

theorem runTest_returns {proc : CmdProc} {fs' : FileSystem}
    (h : (runChecks lib exec f).run fs = .ok proc fs') :
    (runTest lib exec f).run fs = .ok (some proc) fs' := by
  simp only [runTest, run_tryCatch, EStateM.run_bind, h, EStateM.run_pure]

/-- An exception becomes `null`, and what was written before it stays. -/
theorem runTest_throws {e : JavaException} {fs' : FileSystem}
    (h : (runChecks lib exec f).run fs = .error e fs') :
    (runTest lib exec f).run fs = .ok none fs' := by
  simp only [runTest, run_tryCatch, EStateM.run_bind, h, EStateM.run_pure]

/-- A test ends in the file system its checks end in. -/
theorem fileSystemAfter_runTest :
    fileSystemAfter ((runTest lib exec f).run fs)
      = fileSystemAfter ((runChecks lib exec f).run fs) := by
  cases h : (runChecks lib exec f).run fs with
  | ok proc fs' => rw [runTest_returns h, fileSystemAfter_ok, fileSystemAfter_ok]
  | error e fs' => rw [runTest_throws h, fileSystemAfter_ok, fileSystemAfter_error]

theorem runChecks_unreadable (hread : fs.files f.getPath = none) :
    (runChecks lib exec f).run fs = .error .io fs := by
  simp [runChecks, hread]

theorem runChecks_unparsable {content : Text} {e : JavaException}
    (hread : fs.files f.getPath = some content) (hparse : lib.create content = .error e) :
    (runChecks lib exec f).run fs = .error e fs := by
  simp [runChecks, hread, hparse]

/-- The check of the paths never fails, so that the tree is compiled. -/
theorem runChecks_parsed {content : Text} (hread : fs.files f.getPath = some content)
    (hparse : lib.create content = .ok root) :
    (runChecks lib exec f).run fs = (checkCompileTree lib exec f root).run fs := by
  have hcode : (checkPaths lib root).1.returnCode = 0 := rfl
  simp [runChecks, hread, hparse, hcode]

/-! ### The files after a test -/

theorem cleared_files (fs : FileSystem) (q : String) :
    (cleared f fs).files q = if q ∈ scratchFiles f then none else fs.files q := by
  simp only [cleared, FileSystem.set, scratchFiles, List.mem_cons, List.not_mem_nil, or_false]
  by_cases hm : q = preProcMDFile f
  · simp [hm]
  · by_cases ht : q = preProcOutFile f
    · simp [ht]
    · by_cases ho : q = outputFile f
      · simp [ho]
      · by_cases hi : q = inputFile f
        · simp [hi]
        · simp [hm, ht, ho, hi]

theorem dumped_other {dump : Text} {q : String} (h : q ∉ scratchFiles f) :
    (dumped f fs dump).files q = fs.files q := by
  refine fs.set_other _ fun heq => h ?_
  simp [scratchFiles, heq]

theorem preprocessed_other {run : ProcessRun} {q : String} (h : q ∉ scratchFiles f) :
    (preprocessed f fs run).files q = fs.files q := by
  refine fs.leave_other _ fun hmem => h ?_
  simp only [List.mem_cons, List.not_mem_nil, or_false] at hmem
  rcases hmem with heq | heq <;> simp [scratchFiles, heq]

theorem compiled_other {run : ProcessRun} {q : String} (h : q ∉ scratchFiles f) :
    (fs.leave [outputFile f] run.leaves).files q = fs.files q := by
  refine fs.leave_other _ fun hmem => h ?_
  simp [scratchFiles, List.mem_singleton.mp hmem]

/-- Deleting the scratch files restores the files exactly when they were not there. -/
theorem cleared_eq_iff {fs' : FileSystem}
    (hother : ∀ q, q ∉ scratchFiles f → fs'.files q = fs.files q) :
    (cleared f fs').files = fs.files ↔ ScratchFree fs f := by
  constructor
  · intro h q hq
    rw [← h, cleared_files, if_pos hq]
  · intro hfree
    funext q
    rw [cleared_files]
    split
    · rename_i hq
      exact (hfree q hq).symm
    · rename_i hq
      exact hother q hq

/-- A dump that stays restores the files exactly when it was there before. -/
theorem dumped_eq_iff {dump : Text} :
    (dumped f fs dump).files = fs.files ↔ fs.files (inputFile f) = some dump := by
  constructor
  · intro h
    rw [← h, dumped, FileSystem.set_same]
  · intro h
    funext q
    by_cases hq : q = inputFile f
    · rw [hq, h, dumped, FileSystem.set_same]
    · exact fs.set_other _ hq

/-- What the preprocessor leaves stays with the dump. -/
theorem preprocessed_dumped_eq_iff {dump : Text} {run : ProcessRun} :
    (preprocessed f (dumped f fs dump) run).files = fs.files ↔
      fs.files (inputFile f) = some dump ∧
        run.leaves (preProcOutFile f) = fs.files (preProcOutFile f) ∧
        run.leaves (preProcMDFile f) = fs.files (preProcMDFile f) := by
  have hin : inputFile f ∉ [preProcOutFile f, preProcMDFile f] := by
    simp [inputFile_ne_preProcOutFile, inputFile_ne_preProcMDFile]
  constructor
  · intro h
    refine ⟨?_, ?_, ?_⟩
    · rw [← h, preprocessed, FileSystem.leave_other _ _ hin, dumped, FileSystem.set_same]
    · rw [← h, preprocessed, FileSystem.leave_output _ _ (by simp)]
    · rw [← h, preprocessed, FileSystem.leave_output _ _ (by simp)]
  · intro h
    obtain ⟨hdump, hout, hmd⟩ := h
    funext q
    by_cases hq : q ∈ [preProcOutFile f, preProcMDFile f]
    · rw [preprocessed, FileSystem.leave_output _ _ hq]
      simp only [List.mem_cons, List.not_mem_nil, or_false] at hq
      rcases hq with rfl | rfl
      · exact hout
      · exact hmd
    · rw [preprocessed, FileSystem.leave_other _ _ hq, dumped_eq_iff.mpr hdump]

/-! ### When the files are kept -/

/-- The commands leave the files as they were, when the dump is in place: a command that
could not be started leaves what was written before it, and one that has run leaves none
of the scratch files. -/
def CommandsKeepFiles (exec : Exec) (fs : FileSystem) (f : DtsFile) (dump : Text) : Prop :=
  match exec (preProcCmd f) (dumped f fs dump) with
  | none => fs.files (inputFile f) = some dump
  | some run =>
    if run.returnCode ≠ 0 then ScratchFree fs f
    else
      match exec (dtcCmd f) (preprocessed f (dumped f fs dump) run) with
      | none =>
        fs.files (inputFile f) = some dump ∧
          run.leaves (preProcOutFile f) = fs.files (preProcOutFile f) ∧
          run.leaves (preProcMDFile f) = fs.files (preProcMDFile f)
      | some _ => ScratchFree fs f

/-- A test leaves the files as they were when it ends before the dump is written, or when
its commands do. -/
def KeepsFiles (lib : CheckerLibrary) (exec : Exec) (fs : FileSystem) (f : DtsFile) : Prop :=
  ∀ content, fs.files f.getPath = some content → ∀ root, lib.create content = .ok root →
    ∀ dump, lib.dump root 0 = .ok dump → fs.writable (inputFile f) = true →
    CommandsKeepFiles exec fs f dump

theorem runCommands_keeps_files_iff {dump : Text} :
    (fileSystemAfter ((runCommands exec f).run (dumped f fs dump))).files = fs.files ↔
      CommandsKeepFiles exec fs f dump := by
  rw [CommandsKeepFiles]
  cases hgcc : exec (preProcCmd f) (dumped f fs dump) with
  | none =>
    rw [runCommands_gcc_missing hgcc, fileSystemAfter_error]
    exact dumped_eq_iff
  | some run =>
    by_cases hcode : run.returnCode = 0
    · cases hdtc : exec (dtcCmd f) (preprocessed f (dumped f fs dump) run) with
      | none =>
        rw [runCommands_dtc_missing hgcc hcode hdtc, fileSystemAfter_error]
        simp only [hcode, ne_eq, not_true_eq_false, if_false]
        rw [hdtc]
        exact preprocessed_dumped_eq_iff
      | some run' =>
        rw [runCommands_dtc_runs hgcc hcode hdtc, fileSystemAfter_ok]
        simp only [hcode, ne_eq, not_true_eq_false, if_false]
        rw [hdtc]
        refine cleared_eq_iff fun q hq => ?_
        rw [compiled_other hq, preprocessed_other hq, dumped_other hq]
    · rw [runCommands_gcc_fails hgcc hcode, fileSystemAfter_ok]
      simp only [hcode, ne_eq, not_false_eq_true, if_true]
      refine cleared_eq_iff fun q hq => ?_
      rw [preprocessed_other hq, dumped_other hq]

/-- Only scratch files change while the commands run. -/
theorem runCommands_other_files {q : String} (h : q ∉ scratchFiles f) :
    (fileSystemAfter ((runCommands exec f).run fs)).files q = fs.files q := by
  cases hgcc : exec (preProcCmd f) fs with
  | none => rw [runCommands_gcc_missing hgcc, fileSystemAfter_error]
  | some run =>
    by_cases hcode : run.returnCode = 0
    · cases hdtc : exec (dtcCmd f) (preprocessed f fs run) with
      | none =>
        rw [runCommands_dtc_missing hgcc hcode hdtc, fileSystemAfter_error, preprocessed_other h]
      | some run' =>
        rw [runCommands_dtc_runs hgcc hcode hdtc, fileSystemAfter_ok, cleared_files, if_neg h,
          compiled_other h, preprocessed_other h]
    · rw [runCommands_gcc_fails hgcc hcode, fileSystemAfter_ok, cleared_files, if_neg h,
        preprocessed_other h]

/-- The ways a test can go before its commands are run, and what its files are then. -/
theorem fileSystemAfter_runTest_cases (lib : CheckerLibrary) (exec : Exec) (f : DtsFile)
    (fs : FileSystem) :
    (fileSystemAfter ((runTest lib exec f).run fs) = fs ∧ KeepsFiles lib exec fs f) ∨
      ∃ dump, fileSystemAfter ((runTest lib exec f).run fs)
          = fileSystemAfter ((runCommands exec f).run (dumped f fs dump)) ∧
        (KeepsFiles lib exec fs f ↔ CommandsKeepFiles exec fs f dump) := by
  rw [fileSystemAfter_runTest]
  cases hread : fs.files f.getPath with
  | none =>
    exact Or.inl ⟨by rw [runChecks_unreadable hread, fileSystemAfter_error],
      by simp [KeepsFiles, hread]⟩
  | some content =>
    cases hparse : lib.create content with
    | error e =>
      exact Or.inl ⟨by rw [runChecks_unparsable hread hparse, fileSystemAfter_error],
        by simp [KeepsFiles, hread, hparse]⟩
    | ok root =>
      rw [runChecks_parsed hread hparse]
      cases hdump : lib.dump root 0 with
      | error e =>
        exact Or.inl ⟨by rw [checkCompileTree_dump_throws hdump, fileSystemAfter_error],
          by simp [KeepsFiles, hread, hparse, hdump]⟩
      | ok dump =>
        cases hwrite : fs.writable (inputFile f) with
        | false =>
          exact Or.inl ⟨by rw [checkCompileTree_not_writable hdump hwrite, fileSystemAfter_error],
            by simp [KeepsFiles, hwrite]⟩
        | true =>
          exact Or.inr ⟨dump, by rw [checkCompileTree_dumped hdump hwrite],
            by simp [KeepsFiles, hread, hparse, hdump, hwrite]⟩

/-- **Only scratch files change**, on every outcome; the sample itself is none of them. -/
theorem runTest_other_files (lib : CheckerLibrary) (exec : Exec) (f : DtsFile) (fs : FileSystem) :
    (∀ q, q ∉ scratchFiles f →
        (fileSystemAfter ((runTest lib exec f).run fs)).files q = fs.files q) ∧
      f.getPath ∉ scratchFiles f := by
  refine ⟨fun q hq => ?_, getPath_not_mem_scratchFiles f⟩
  rcases fileSystemAfter_runTest_cases lib exec f fs with ⟨heq, -⟩ | ⟨dump, heq, -⟩
  · rw [heq]
  · rw [heq, runCommands_other_files hq, dumped_other hq]

/-- **When a test leaves all files as they were.** -/
theorem runTest_keeps_files_iff (lib : CheckerLibrary) (exec : Exec) (fs : FileSystem)
    (f : DtsFile) :
    (∀ q, (fileSystemAfter ((runTest lib exec f).run fs)).files q = fs.files q) ↔
      KeepsFiles lib exec fs f := by
  rw [← funext_iff]
  rcases fileSystemAfter_runTest_cases lib exec f fs with ⟨heq, hkeeps⟩ | ⟨dump, heq, hiff⟩
  · rw [heq]
    exact ⟨fun _ => hkeeps, fun _ => rfl⟩
  · rw [heq, hiff]
    exact runCommands_keeps_files_iff

end Frame

/-- On a machine without `gcc` the test of `x.dts` leaves `input-x.dts` behind, and with
both commands it deletes an `input-x.dts` that was there. -/
theorem runTest_changes_files :
    ¬ (∀ q, (fileSystemAfter ((runTest forgetfulLibrary (fun _ _ => none) sampleX).run
        sampleFolder)).files q = sampleFolder.files q) ∧
      ¬ (∀ q, (fileSystemAfter
        ((runTest forgetfulLibrary (execText gccCopies dtcNonempty) sampleX).run
          (sampleFolder.set (inputFile sampleX) (some [])))).files q
          = (sampleFolder.set (inputFile sampleX) (some [])).files q) := by
  constructor
  · intro h
    have hq := h "./samples/input-x.dts"
    revert hq
    decide
  · intro h
    have hq := h "./samples/input-x.dts"
    revert hq
    decide

end Corpus

end SilverTree
