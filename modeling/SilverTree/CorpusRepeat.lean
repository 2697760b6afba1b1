import SilverTree.CorpusListing

/-!
# Running the corpus checker again

A second run lists the folder that the first one has left.  Its tests read the same texts,
unless the first run has deleted a sample as a scratch file of another one, and then the
samples are numbered anew.

The order in which a folder lists its entries is not specified.  The results are about a
second listing that keeps the order of the first one.

## Main definitions

* `verdict` — what the two commands answer for the text of a sample.
* `StillLists` — a second listing has what is left of the first one, in its order.

## Main results

* `outcomes_eq_verdicts` — **what the tests of a run return.**
* `main_again_iff` — **when a second run writes the same report.**
-/

namespace SilverTree

namespace Corpus

/-! ### What a test returns -/

/-- The process of a command that is a function of the text it reads. -/
def TextRun.proc (cmd : List String) (run : TextRun) : CmdProc where
  cmdLine := String.join (cmd.map (· ++ " "))
  stdOut := String.join run.stdOut
  errOut := String.join run.errOut
  returnCode := run.returnCode

/-- What the two commands answer for a sample with this text. -/
def verdict (gcc dtc : TextTool) (f : DtsFile) (own : Text) : CmdProc :=
  if (gcc own).returnCode = 0 then (dtc (gcc own).output).proc (dtcCmd f)
  else (gcc own).proc (preProcCmd f)

section Verdict

variable {lib : CheckerLibrary} (gcc dtc : TextTool) {f : DtsFile} {fs : FileSystem} {own : Text}

/-- The process of a command that was run on a text. -/
theorem ofRun_of_execText {cmd : List String} {run : ProcessRun}
    (h : execText gcc dtc cmd fs = some run) (hinput : cmd.getLast?.bind fs.files = some own) :
    CmdProc.ofRun cmd run = ((if cmd.head? = some "gcc" then gcc else dtc) own).proc cmd := by
  rw [execText, hinput] at h
  cases h
  rfl

/-- The commands answer for the text of the sample, whatever the other files are. -/
theorem runCommands_verdict (hown : fs.files f.getPath = some own) :
    ∃ fs', (runCommands (execText gcc dtc) f).run fs = .ok (verdict gcc dtc f own) fs' := by
  obtain ⟨run, hgcc, hcode, hleaves⟩ := execText_preProcCmd gcc dtc hown
  have hgccHead : (preProcCmd f).head? = some "gcc" := rfl
  have hdtcHead : (dtcCmd f).head? ≠ some "gcc" := by
    rw [dtcCmd, List.head?_cons]
    decide
  rw [verdict, ← hcode]
  by_cases hzero : run.returnCode = 0
  · have hout : (preprocessed f fs run).files (preProcOutFile f) = some (gcc own).output := by
      rw [preprocessed, FileSystem.leave_output _ _ (by simp), hleaves]
    obtain ⟨run', hdtc, -⟩ := execText_dtcCmd gcc dtc hout
    have hproc : CmdProc.ofRun (dtcCmd f) run' = (dtc (gcc own).output).proc (dtcCmd f) := by
      rw [ofRun_of_execText gcc dtc hdtc hout, if_neg hdtcHead]
    rw [if_pos hzero, ← hproc]
    exact ⟨_, runCommands_dtc_runs hgcc hzero hdtc⟩
  · have hproc : CmdProc.ofRun (preProcCmd f) run = (gcc own).proc (preProcCmd f) := by
      rw [ofRun_of_execText gcc dtc hgcc hown, if_pos hgccHead]
    rw [if_neg hzero, ← hproc]
    exact ⟨_, runCommands_gcc_fails hgcc hzero⟩

theorem runTestOn_verdict (h : Testable lib fs f) (hown : fs.files f.getPath = some own) :
    runTestOn lib (execText gcc dtc) f fs = (some (verdict gcc dtc f own), fs.without f) := by
  obtain ⟨hwrite, content, hread, root, hparse, dump, hdump⟩ := h
  have hdumped : (dumped f fs dump).files f.getPath = some own := dumped_getPath.trans hown
  obtain ⟨fs', hrun⟩ := runCommands_verdict gcc dtc hdumped
  have hchecks : (runChecks lib (execText gcc dtc) f).run fs
      = .ok (verdict gcc dtc f own) fs' := by
    rw [runChecks_parsed hread hparse, checkCompileTree_dumped hdump hwrite, hrun]
  rw [runTestOn, runTest_returns hchecks, runCommands_ok hrun, dumped_without]

/-- **What the tests of a run return**: the answers for the texts that the samples have at
its start. -/
theorem outcomes_eq_verdicts : ∀ (samples : List DtsFile) (fs : FileSystem),
    (∀ f ∈ samples, Testable lib fs f) → Undisturbed samples →
    outcomes (runTestOn lib (execText gcc dtc)) samples fs
      = samples.map fun f => (fs.files f.getPath).map (verdict gcc dtc f) := by
  intro samples
  induction samples with
  | nil => exact fun fs _ _ => rfl
  | cons f rest ih =>
    intro fs htest hpair
    obtain ⟨htestf, htestrest⟩ := List.forall_mem_cons.mp htest
    obtain ⟨hscratch, hpair⟩ := List.pairwise_cons.mp hpair
    obtain ⟨own, hown⟩ : ∃ own, fs.files f.getPath = some own := by
      obtain ⟨-, content, hread, -⟩ := htestf
      exact ⟨content, hread⟩
    have hwithout : ∀ g ∈ rest, Testable lib (fs.without f) g := fun g hg =>
      testable_without.mpr ⟨htestrest g hg, hscratch g hg⟩
    have hrest : (rest.map fun g => ((fs.without f).files g.getPath).map (verdict gcc dtc g))
        = rest.map fun g => (fs.files g.getPath).map (verdict gcc dtc g) := by
      refine List.map_congr_left fun g hg => ?_
      rw [fs.without_other (hscratch g hg)]
    rw [outcomes, runTestOn_verdict gcc dtc htestf hown, ih _ hwithout hpair, hrest,
      List.map_cons, hown]
    rfl

end Verdict

/-! ### The state after the tests -/

section After

variable {f : DtsFile} {fs : FileSystem}

/-- A test without scratch files in its way changes nothing. -/
theorem without_of_scratchFree (h : ScratchFree fs f) : fs.without f = fs := by
  have hfiles : (fs.without f).files = fs.files := by
    funext q
    rw [FileSystem.without_files]
    split
    · rename_i hq
      exact (h q hq).symm
    · rfl
  exact congrArg₂ FileSystem.mk hfiles rfl

theorem foldl_without_of_scratchFree : ∀ (samples : List DtsFile),
    (∀ f ∈ samples, ScratchFree fs f) → samples.foldl FileSystem.without fs = fs := by
  intro samples
  induction samples with
  | nil => exact fun _ => rfl
  | cons f rest ih =>
    intro hfree
    obtain ⟨hfreef, hfreerest⟩ := List.forall_mem_cons.mp hfree
    rw [List.foldl_cons, without_of_scratchFree hfreef]
    exact ih hfreerest

theorem FileSystem.set_eq_self {path : String} {content : Option Text}
    (h : fs.files path = content) : fs.set path content = fs := by
  have hfiles : (fs.set path content).files = fs.files := by
    funext q
    by_cases hq : q = path
    · rw [hq, FileSystem.set_same, h]
    · exact fs.set_other content hq
  exact congrArg₂ FileSystem.mk hfiles rfl

end After

/-! ### The samples of a run -/

theorem wellNamed_below {name : String} {below : List FileEntry} : ∀ {entries : List FileEntry},
    WellNamed entries → FileEntry.directory name (some below) ∈ entries → WellNamed below := by
  intro entries
  induction entries with
  | nil => exact fun _ hmem => absurd hmem List.not_mem_nil
  | cons e rest ih =>
    intro h hmem
    rw [WellNamed] at h
    rcases List.mem_cons.mp hmem with rfl | hmem
    · exact h.2.2.1
    · exact ih h.2.2.2 hmem

/-- The name of a sample has no slash. -/
theorem Lists.slash_not_mem {folder : String} {entries : List FileEntry} {f : DtsFile}
    (h : Lists folder entries f) : WellNamed entries → '/' ∉ f.name.toList := by
  induction h with
  | file _ hmem => exact fun hnames => slash_not_mem_of_wellNamed hnames _ hmem
  | directory hmem _ ih => exact fun hnames => ih (wellNamed_below hnames hmem)

/-! ### A second run -/

section Again

variable {parseInt : String → Option ℤ} {lib : CheckerLibrary} {ratio : ℕ → ℕ → String}
  {gcc dtc : TextTool} {args : List String} {samples : List FileEntry} {fs fs' : FileSystem}
  {report : Report}

/-- A sample is gone after a run exactly when it is a scratch file of a tested one. -/
theorem isSome_files_after {testList : List ℤ} {dtsFiles : List DtsFile}
    (hnames : WellNamed samples)
    (hthere : ∀ f, Lists "./samples" samples f → (fs.files f.getPath).isSome = true)
    (hlist : listFileEntries "./samples" samples = .ok dtsFiles)
    (h : runTests (runTestOn lib (execText gcc dtc)) writeStringOn ratio testList dtsFiles fs
      = (.ok report, fs'))
    {f : DtsFile} (hf : Lists "./samples" samples f) :
    (fs'.files f.getPath).isSome = true ↔ ∀ line ∈ report.lines, ¬ f.IsScratchOf line.dtsFile := by
  obtain ⟨-, -, hlines⟩ := tested_of_runTests h
  obtain ⟨hgone, hkept⟩ := files_of_runTests h f.getPath
  have hscratch : ∀ g ∈ (selected testList dtsFiles).map Prod.fst,
      (f.getPath ∈ scratchFiles g ↔ f.IsScratchOf g) := by
    intro g hg
    have hlists := (mem_listFileEntries g samples "./samples" dtsFiles hlist).mp
      ((selected_sublist _ _).subset hg)
    exact getPath_mem_scratchFiles_iff (hf.slash_not_mem hnames) (hlists.slash_not_mem hnames)
  rw [← hlines] at hgone hkept hscratch
  constructor
  · intro hsome line hline hmem
    have hdts := List.mem_map_of_mem (f := TestLine.dtsFile) hline
    rw [hgone ⟨_, hdts, (hscratch _ hdts).mpr hmem⟩] at hsome
    cases hsome
  · intro hnone
    rw [hkept (getPath_ne_statisticsFile f) fun g hg hmem => ?_]
    · exact hthere f hf
    · obtain ⟨line, hline, rfl⟩ := List.mem_map.mp hg
      exact hnone line hline ((hscratch _ hg).mp hmem)

section SameSamples

variable {testList : List ℤ} {dtsFiles : List DtsFile}
  (h : runTests (runTestOn lib (execText gcc dtc)) writeStringOn ratio testList dtsFiles fs
    = (.ok report, fs'))
include h

theorem writable_of_runTests : fs'.writable = fs.writable := by
  rw [(state_of_runTests h).2]
  exact FileSystem.writable_foldl_without _ fs

/-- After a run that has deleted none of its samples, the same samples can be tested. -/
theorem testable_after {f : DtsFile} (hf : f ∈ (selected testList dtsFiles).map Prod.fst)
    (hsome : (fs'.files f.getPath).isSome = true) :
    Testable lib fs' f ∧ fs'.files f.getPath = fs.files f.getPath := by
  obtain ⟨htest, -, -⟩ := tested_of_runTests h
  obtain ⟨hgone, hkept⟩ := files_of_runTests h f.getPath
  have hsame : fs'.files f.getPath = fs.files f.getPath := by
    refine hkept (getPath_ne_statisticsFile f) fun g hg hmem => ?_
    rw [hgone ⟨g, hg, hmem⟩] at hsome
    cases hsome
  refine ⟨?_, hsame⟩
  obtain ⟨hwrite, hread⟩ := htest f hf
  rw [Testable, writable_of_runTests h, hsame]
  exact ⟨hwrite, hread⟩

/-- Tests on the files that they have left return the same, and change nothing. -/
theorem runTests_again
    (hsome : ∀ f ∈ (selected testList dtsFiles).map Prod.fst,
      (fs'.files f.getPath).isSome = true) :
    runTests (runTestOn lib (execText gcc dtc)) writeStringOn ratio testList dtsFiles fs'
      = (.ok report, fs') := by
  obtain ⟨htest, hpair, -⟩ := tested_of_runTests h
  have htest' : ∀ f ∈ (selected testList dtsFiles).map Prod.fst, Testable lib fs' f :=
    fun f hf => (testable_after h hf (hsome f hf)).1
  have houtcomes : outcomes (runTestOn lib (execText gcc dtc))
        ((selected testList dtsFiles).map Prod.fst) fs'
      = outcomes (runTestOn lib (execText gcc dtc))
        ((selected testList dtsFiles).map Prod.fst) fs := by
    rw [outcomes_eq_verdicts gcc dtc _ fs' htest' hpair,
      outcomes_eq_verdicts gcc dtc _ fs htest hpair]
    refine List.map_congr_left fun f hf => ?_
    rw [(testable_after h hf (hsome f hf)).2]
  have hfree : ∀ f ∈ (selected testList dtsFiles).map Prod.fst, ScratchFree fs' f := by
    intro f hf q hq
    exact (files_of_runTests h q).1 ⟨f, hf, hq⟩
  have hfile : fs'.files statisticsFile = some (toChars (report.text ratio)) := by
    rw [(state_of_runTests h).2, FileSystem.set_same]
  obtain ⟨procs, hprocs, hreport, -⟩ := (runTests_eq_ok_iff _ _ _ _).mp h
  rw [runTests_eq_ok_iff]
  refine ⟨procs, houtcomes.trans hprocs, hreport, ?_⟩
  -- the same text is written over itself
  rw [afterTests_eq _ fs' htest' hpair, foldl_without_of_scratchFree _ hfree,
    writeStringOn_eq_ok_iff, writable_of_runTests h, FileSystem.set_eq_self hfile]
  exact ⟨(state_of_runTests h).1, rfl⟩

end SameSamples

/-- The second listing is of the samples of the first one that still exist, in the order of
the first one. -/
def StillLists (fs : FileSystem) (samples samples' : Option (List FileEntry)) : Prop :=
  ∀ dtsFiles, listFilesForFolder "./samples" samples = .ok dtsFiles →
    listFilesForFolder "./samples" samples'
      = .ok (dtsFiles.filter fun f => (fs.files f.getPath).isSome)

/-- Without arguments there is a line for every sample. -/
theorem lines_of_main
    (h : main parseInt (runTestOn lib (execText gcc dtc)) writeStringOn ratio [] (some samples) fs
      = (.ok report, fs')) :
    listFileEntries "./samples" samples = .ok (report.lines.map TestLine.dtsFile) := by
  obtain ⟨testList, dtsFiles, hargs, hlist, hrun⟩ := main_ok h
  cases hargs
  rw [(tested_of_runTests hrun).2.2, selected_nil]
  exact hlist

end Again

/-- A run without arguments, in a folder that lists these entries. -/
def sampleRun (entries : List FileEntry) (fs : FileSystem) :
    Except JavaException Report × FileSystem :=
  main (fun _ => none) (runTestOn forgetfulLibrary (execText gccCopies dtcNonempty)) writeStringOn
    (fun _ _ => "1.0") [] (some entries) fs

end Corpus

end SilverTree
