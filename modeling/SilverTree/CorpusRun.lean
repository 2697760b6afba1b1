import SilverTree.CorpusReport

/-!
# Whole runs of the corpus checker

The tests of a run share the folder of the samples: what one test writes and deletes, the
next ones find.  A sample whose name is that of another with `input-` or `output` before it
is a scratch file of that other one, and is deleted by its test.  At the end the report goes
to a file outside of the samples.

## Main definitions

* `FileSystem.without fs f` — the files without the scratch files of a sample.
* `Testable` — a sample that can be read, parsed and dumped.

## Main results

* `getPath_mem_scratchFiles_iff` — **which samples are scratch files of another one.**
* `main_changes_scratch_files` — **a run changes scratch files and its report only**, whatever
  happens in it.
* `main_returns_iff` — **when the main program writes its report.**
* `main_report` — **what the report says, and what files are left.**
-/

namespace SilverTree

namespace Corpus

/-! ### Samples that are scratch files -/

/-- What a replacement in the path of a sample leaves is not the path of a sample. -/
theorem replace_ne_getPath (f g : DtsFile) {new : String} {rest : List Char}
    (hnew : new.toList = '.' :: rest)
    (hapart : ∀ u, u <:+ new.toList → u ≠ [] → ReplaceAll.Apart ".dts".toList u) :
    f.getPath ≠ replace g.getPath ".dts" new := by
  intro h
  have hno := ReplaceAll.not_infix_replaceAll (α := Char) new.toList
    (show ".dts".toList = '.' :: ['d', 't', 's'] by decide) hnew (by decide) hapart g.getPath.toList
  have htoList := congrArg String.toList h
  rw [replace, String.toList_ofList] at htoList
  rw [← htoList] at hno
  exact hno (dts_infix_getPath f)

theorem getPath_ne_preProcOutFile (f g : DtsFile) : f.getPath ≠ preProcOutFile g := by
  refine replace_ne_getPath f g (show ".tmp".toList = '.' :: ['t', 'm', 'p'] by decide) ?_
  intro u hu hne
  rw [← List.mem_tails] at hu
  revert u
  decide

theorem getPath_ne_preProcMDFile (f g : DtsFile) : f.getPath ≠ preProcMDFile g := by
  refine replace_ne_getPath f g
    (show ".pre.tmp".toList = '.' :: ['p', 'r', 'e', '.', 't', 'm', 'p'] by decide) ?_
  intro u hu hne
  rw [← List.mem_tails] at hu
  revert u
  decide

/-- A sample is a scratch file only under one of the two names with a prefix. -/
theorem getPath_mem_scratchFiles {f g : DtsFile} :
    f.getPath ∈ scratchFiles g ↔ f.getPath = inputFile g ∨ f.getPath = outputFile g := by
  simp [scratchFiles, getPath_ne_preProcOutFile, getPath_ne_preProcMDFile]

/-- The last part of a path. -/
theorem append_slash_inj {p p' n n' : List Char} (hn : '/' ∉ n) (hn' : '/' ∉ n')
    (h : p ++ '/' :: n = p' ++ '/' :: n') : p = p' ∧ n = n' := by
  rcases List.append_eq_append_iff.mp h with ⟨as, hp, has⟩ | ⟨as, hp, has⟩
  · cases as with
    | nil => simpa using And.intro hp.symm has
    | cons a as =>
      rw [List.cons_append, List.cons.injEq] at has
      exact absurd (by simp [has.2]) hn
  · cases as with
    | nil => simpa [eq_comm] using And.intro hp has
    | cons a as =>
      rw [List.cons_append, List.cons.injEq] at has
      exact absurd (by simp [has.2]) hn'

/-- The path with a prefix before the name is that of a sample exactly when the sample is
in the same folder, and has the prefix before the name. -/
theorem getPath_eq_prefixed_iff {f g : DtsFile} (hf : '/' ∉ f.name.toList)
    (hg : '/' ∉ g.name.toList) {before : String} (hbefore : '/' ∉ before.toList) :
    f.getPath = g.parent ++ ("/" ++ before) ++ g.name ↔
      f.parent = g.parent ∧ f.name = before ++ g.name := by
  have hname : '/' ∉ before.toList ++ g.name.toList := by
    rw [List.mem_append, not_or]
    exact ⟨hbefore, hg⟩
  have hslash : "/".toList = ['/'] := by decide
  constructor
  · intro h
    have htoList := congrArg String.toList h
    simp only [DtsFile.getPath, String.toList_append, hslash, List.append_assoc,
      List.cons_append, List.nil_append] at htoList
    obtain ⟨hparent, hn⟩ := append_slash_inj hf hname htoList
    exact ⟨String.toList_injective hparent,
      String.toList_injective (by rw [String.toList_append, hn])⟩
  · intro h
    rw [DtsFile.getPath, h.1, h.2]
    simp [String.append_assoc]

/-- A sample in the folder of another one, with its name after `input-` or `output`. -/
def DtsFile.IsScratchOf (f g : DtsFile) : Prop :=
  f.parent = g.parent ∧ (f.name = "input-" ++ g.name ∨ f.name = "output" ++ g.name)

/-- **Which samples are scratch files of another one**, by their names. -/
theorem getPath_mem_scratchFiles_iff {f g : DtsFile} (hf : '/' ∉ f.name.toList)
    (hg : '/' ∉ g.name.toList) : f.getPath ∈ scratchFiles g ↔ f.IsScratchOf g := by
  have hinput : inputFile g = g.parent ++ ("/" ++ "input-") ++ g.name := rfl
  have houtput : outputFile g = g.parent ++ ("/" ++ "output") ++ g.name := rfl
  rw [getPath_mem_scratchFiles, hinput, houtput, getPath_eq_prefixed_iff hf hg (by decide),
    getPath_eq_prefixed_iff hf hg (by decide), DtsFile.IsScratchOf, and_or_left]

/-! ### What one test leaves -/

/-- The files without the scratch files of a sample. -/
def FileSystem.without (fs : FileSystem) (f : DtsFile) : FileSystem :=
  { fs with files := fun q => if q ∈ scratchFiles f then none else fs.files q }

theorem FileSystem.without_files (fs : FileSystem) (f : DtsFile) (q : String) :
    (fs.without f).files q = if q ∈ scratchFiles f then none else fs.files q := rfl

theorem FileSystem.without_other (fs : FileSystem) {f : DtsFile} {q : String}
    (h : q ∉ scratchFiles f) : (fs.without f).files q = fs.files q := if_neg h

theorem FileSystem.writable_foldl_without : ∀ (samples : List DtsFile) (fs : FileSystem),
    (samples.foldl FileSystem.without fs).writable = fs.writable := by
  intro samples
  induction samples with
  | nil => exact fun fs => rfl
  | cons f rest ih => exact fun fs => ih (fs.without f)

/-- The scratch files of all the samples are gone, and nothing else is. -/
theorem FileSystem.files_foldl_without (q : String) : ∀ (samples : List DtsFile)
    (fs : FileSystem), (samples.foldl FileSystem.without fs).files q
      = if ∃ f ∈ samples, q ∈ scratchFiles f then none else fs.files q := by
  intro samples
  induction samples with
  | nil =>
    intro fs
    simp
  | cons f rest ih =>
    intro fs
    rw [List.foldl_cons, ih, FileSystem.without_files]
    by_cases hrest : ∃ g ∈ rest, q ∈ scratchFiles g
    · simp [hrest]
    · by_cases hq : q ∈ scratchFiles f <;> simp [hrest, hq]

/-- A sample that can be read, parsed and dumped, and next to which the dump can be
written. -/
def Testable (lib : CheckerLibrary) (fs : FileSystem) (f : DtsFile) : Prop :=
  fs.writable (inputFile f) = true ∧ ∃ content, fs.files f.getPath = some content ∧
    ∃ root, lib.create content = .ok root ∧ Dumps lib root

/-- The commands accept the text of the sample. -/
def TextAccepted (gcc dtc : TextTool) (fs : FileSystem) (f : DtsFile) : Prop :=
  ∃ own, fs.files f.getPath = some own ∧ Accepts gcc dtc own

section OneTest

variable {lib : CheckerLibrary} {exec : Exec} {f : DtsFile} {fs : FileSystem}

/-- What changed scratch files only has them deleted at the end. -/
theorem cleared_eq_without {fs' : FileSystem} (hwrite : fs'.writable = fs.writable)
    (hother : ∀ q, q ∉ scratchFiles f → fs'.files q = fs.files q) :
    cleared f fs' = fs.without f := by
  have hfiles : (cleared f fs').files = (fs.without f).files := by
    funext q
    rw [cleared_files, FileSystem.without_files]
    by_cases hq : q ∈ scratchFiles f
    · rw [if_pos hq, if_pos hq]
    · rw [if_neg hq, if_neg hq, hother q hq]
  have hwritable : (cleared f fs').writable = (fs.without f).writable := hwrite
  exact congrArg₂ FileSystem.mk hfiles hwritable

/-- Commands that were started leave no scratch files. -/
theorem runCommands_ok {proc : CmdProc} {fs' : FileSystem}
    (h : (runCommands exec f).run fs = .ok proc fs') : fs' = fs.without f := by
  cases hgcc : exec (preProcCmd f) fs with
  | none =>
    rw [runCommands_gcc_missing hgcc] at h
    cases h
  | some run =>
    by_cases hcode : run.returnCode = 0
    · cases hdtc : exec (dtcCmd f) (preprocessed f fs run) with
      | none =>
        rw [runCommands_dtc_missing hgcc hcode hdtc] at h
        cases h
      | some run' =>
        rw [runCommands_dtc_runs hgcc hcode hdtc] at h
        cases h
        refine cleared_eq_without rfl fun q hq => ?_
        rw [compiled_other hq, preprocessed_other hq]
    · rw [runCommands_gcc_fails hgcc hcode] at h
      cases h
      exact cleared_eq_without rfl fun q hq => preprocessed_other hq

theorem dumped_without (dump : Text) : (dumped f fs dump).without f = fs.without f := by
  have hfiles : ((dumped f fs dump).without f).files = (fs.without f).files := by
    funext q
    rw [FileSystem.without_files, FileSystem.without_files]
    by_cases hq : q ∈ scratchFiles f
    · rw [if_pos hq, if_pos hq]
    · rw [if_neg hq, if_neg hq, dumped_other hq]
  exact congrArg₂ FileSystem.mk hfiles rfl

/-- **A test of a sample that cannot be tested** ends in an exception, with any commands. -/
theorem runTestOn_not_testable (h : ¬ Testable lib fs f) : (runTestOn lib exec f fs).1 = none := by
  rw [runTestOn_eq_none_iff]
  cases hread : fs.files f.getPath with
  | none => exact ⟨_, _, runChecks_unreadable hread⟩
  | some content =>
    cases hparse : lib.create content with
    | error e => exact ⟨_, _, runChecks_unparsable hread hparse⟩
    | ok root =>
      rw [runChecks_parsed hread hparse]
      cases hdump : lib.dump root 0 with
      | error e => exact ⟨_, _, checkCompileTree_dump_throws hdump⟩
      | ok dump =>
        cases hwrite : fs.writable (inputFile f) with
        | false => exact ⟨_, _, checkCompileTree_not_writable hdump hwrite⟩
        | true => exact absurd ⟨hwrite, content, hread, root, hparse, dump, hdump⟩ h

/-- **A test of any other sample**, with commands that are functions of the text they read,
returns, answers for the sample, and leaves no scratch files. -/
theorem runTestOn_testable (gcc dtc : TextTool) (h : Testable lib fs f) :
    ∃ proc, runTestOn lib (execText gcc dtc) f fs = (some proc, fs.without f) ∧
      (proc.returnCode = 0 ↔ TextAccepted gcc dtc fs f) := by
  obtain ⟨hwrite, content, hread, root, hparse, dump, hdump⟩ := h
  obtain ⟨proc, fs', hrun, hiff⟩ := runCommands_execText gcc dtc f (dumped f fs dump)
  have hchecks : (runChecks lib (execText gcc dtc) f).run fs = .ok proc fs' := by
    rw [runChecks_parsed hread hparse, checkCompileTree_dumped hdump hwrite, hrun]
  have hfs : fs' = fs.without f := (runCommands_ok hrun).trans (dumped_without dump)
  rw [dumped_getPath] at hiff
  refine ⟨proc, ?_, hiff⟩
  rw [runTestOn, runTest_returns hchecks, hfs]

/-- The test of another sample takes a sample away, or does not matter to it. -/
theorem testable_without {g : DtsFile} :
    Testable lib (fs.without g) f ↔ Testable lib fs f ∧ f.getPath ∉ scratchFiles g := by
  by_cases hmem : f.getPath ∈ scratchFiles g
  · refine iff_of_false ?_ fun h => h.2 hmem
    rintro ⟨-, content, hread, -⟩
    rw [FileSystem.without_files, if_pos hmem] at hread
    cases hread
  · have hfile := fs.without_other hmem
    simp only [Testable, hfile, hmem, not_false_eq_true, and_true]
    rfl

theorem textAccepted_without (gcc dtc : TextTool) {g : DtsFile} (h : f.getPath ∉ scratchFiles g) :
    TextAccepted gcc dtc (fs.without g) f ↔ TextAccepted gcc dtc fs f := by
  rw [TextAccepted, TextAccepted, fs.without_other h]

end OneTest

/-! ### What a sequence of tests does -/

/-- No sample of the list is a scratch file of one before it. -/
def Undisturbed (samples : List DtsFile) : Prop :=
  samples.Pairwise fun g f => f.getPath ∉ scratchFiles g

section Sequence

variable {lib : CheckerLibrary} (gcc dtc : TextTool)

/-- **Tests that are run one after the other** all return exactly when every sample can be
tested at the start and none is deleted by a test before its own. -/
theorem none_not_mem_outcomes_iff : ∀ (samples : List DtsFile) (fs : FileSystem),
    none ∉ outcomes (runTestOn lib (execText gcc dtc)) samples fs ↔
      (∀ f ∈ samples, Testable lib fs f) ∧ Undisturbed samples := by
  intro samples
  induction samples with
  | nil =>
    intro fs
    simp [outcomes, Undisturbed]
  | cons f rest ih =>
    intro fs
    rw [outcomes, Undisturbed, List.pairwise_cons, List.forall_mem_cons]
    by_cases htest : Testable lib fs f
    · obtain ⟨proc, hrun, -⟩ := runTestOn_testable gcc dtc htest
      rw [hrun, List.mem_cons, not_or, ih]
      simp only [testable_without, Undisturbed, htest, true_and]
      constructor
      · rintro ⟨-, hrest, hpair⟩
        exact ⟨fun g hg => (hrest g hg).1, fun g hg => (hrest g hg).2, hpair⟩
      · rintro ⟨hrest, hscratch, hpair⟩
        exact ⟨by simp, fun g hg => ⟨hrest g hg, hscratch g hg⟩, hpair⟩
    · refine iff_of_false ?_ fun h => htest h.1.1
      simp [runTestOn_not_testable htest]

variable {gcc dtc}

/-- **Each of these tests answers for its sample** as it was at the start. -/
theorem succeeded_of_outcomes : ∀ (samples : List DtsFile) (fs : FileSystem)
    (procs : List CmdProc), (∀ f ∈ samples, Testable lib fs f) → Undisturbed samples →
    outcomes (runTestOn lib (execText gcc dtc)) samples fs = procs.map some →
    ∀ x ∈ samples.zip procs, (x.2.succeeded = true ↔ TextAccepted gcc dtc fs x.1) := by
  intro samples
  induction samples with
  | nil =>
    intro fs procs _ _ _ x hx
    rw [List.zip_nil_left] at hx
    exact absurd hx List.not_mem_nil
  | cons f rest ih =>
    intro fs procs htest hpair hout x hx
    obtain ⟨htestf, htestrest⟩ := List.forall_mem_cons.mp htest
    obtain ⟨hscratch, hpair⟩ := List.pairwise_cons.mp hpair
    obtain ⟨proc, hrun, hcode⟩ := runTestOn_testable gcc dtc htestf
    rw [outcomes, hrun] at hout
    cases procs with
    | nil => cases hout
    | cons p procs =>
      rw [List.map_cons, List.cons.injEq, Option.some.injEq] at hout
      obtain ⟨rfl, hout⟩ := hout
      rw [List.zip_cons_cons, List.mem_cons] at hx
      rcases hx with rfl | hx
      · simpa [CmdProc.succeeded] using hcode
      · have hwithout : ∀ g ∈ rest, Testable lib (fs.without f) g := fun g hg =>
          testable_without.mpr ⟨htestrest g hg, hscratch g hg⟩
        rw [ih (fs.without f) procs hwithout hpair hout x hx]
        exact textAccepted_without gcc dtc (hscratch x.1 (List.of_mem_zip hx).1)

/-- **After tests that all return**, the scratch files of their samples are gone. -/
theorem afterTests_eq : ∀ (samples : List DtsFile) (fs : FileSystem),
    (∀ f ∈ samples, Testable lib fs f) → Undisturbed samples →
    afterTests (runTestOn lib (execText gcc dtc)) samples fs
      = samples.foldl FileSystem.without fs := by
  intro samples
  induction samples with
  | nil => exact fun fs _ _ => rfl
  | cons f rest ih =>
    intro fs htest hpair
    obtain ⟨htestf, htestrest⟩ := List.forall_mem_cons.mp htest
    obtain ⟨hscratch, hpair⟩ := List.pairwise_cons.mp hpair
    obtain ⟨proc, hrun, -⟩ := runTestOn_testable gcc dtc htestf
    have hwithout : ∀ g ∈ rest, Testable lib (fs.without f) g := fun g hg =>
      testable_without.mpr ⟨htestrest g hg, hscratch g hg⟩
    rw [afterTests, List.foldl_cons, hrun, List.foldl_cons]
    exact ih (fs.without f) hwithout hpair

end Sequence

/-! ### The main program -/

section Main

variable {σ : Type} {runTest : DtsFile → σ → Option CmdProc × σ} {testList : List ℤ}

/-- What every selected test keeps, the loop keeps, also when it ends in an exception. -/
theorem testLoop_invariant {I : σ → Prop} : ∀ (dtsFiles : List DtsFile) (n : ℕ)
    (statistics : List TestLine) (k : ℕ) (s : σ),
    (∀ x ∈ selectedFrom testList n dtsFiles, ∀ s, I s → I (runTest x.1 s).2) → I s →
    I (testLoop runTest testList dtsFiles n statistics k s).2 := by
  intro dtsFiles
  induction dtsFiles with
  | nil => exact fun n statistics k s _ hs => hs
  | cons dtsFile rest ih =>
    intro n statistics k s hkeeps hs
    rw [selectedFrom_cons] at hkeeps
    rw [testLoop]
    split
    · rename_i hsel
      rw [if_pos hsel] at hkeeps
      obtain ⟨hfirst, hrest⟩ := List.forall_mem_cons.mp hkeeps
      have hnext := hfirst s hs
      split
      · rename_i s' hrun
        rw [hrun] at hnext
        exact hnext
      · rename_i proc s' hrun
        rw [hrun] at hnext
        exact ih _ _ _ _ hrest hnext
    · rename_i hsel
      rw [if_neg hsel] at hkeeps
      exact ih _ _ _ _ hkeeps hs

end Main

theorem runTestOn_snd (lib : CheckerLibrary) (exec : Exec) (f : DtsFile) (fs : FileSystem) :
    (runTestOn lib exec f fs).2 = fileSystemAfter ((Corpus.runTest lib exec f).run fs) := by
  unfold runTestOn
  cases (Corpus.runTest lib exec f).run fs <;> rfl

/-! ### The report file -/

theorem statisticsFile_not_mem_scratchFiles (f : DtsFile) : statisticsFile ∉ scratchFiles f := by
  intro h
  have hslash := slash_mem_of_mem_scratchFiles h
  revert hslash
  decide

theorem getPath_ne_statisticsFile (f : DtsFile) : f.getPath ≠ statisticsFile := by
  intro h
  have hslash : '/' ∈ f.getPath.toList := by simp [DtsFile.getPath, String.toList_append]
  rw [h] at hslash
  revert hslash
  decide

theorem exists_map_some_iff {α : Type} : ∀ l : List (Option α),
    (∃ as, l = List.map some as) ↔ none ∉ l := by
  intro l
  induction l with
  | nil => exact iff_of_true ⟨[], rfl⟩ List.not_mem_nil
  | cons a rest ih =>
    rw [List.mem_cons, not_or, ← ih]
    constructor
    · rintro ⟨as, has⟩
      cases as with
      | nil => cases has
      | cons b as =>
        obtain ⟨rfl, rfl⟩ := List.cons.inj has
        exact ⟨by simp, as, rfl⟩
    · rintro ⟨ha, as, rfl⟩
      obtain ⟨b, rfl⟩ := Option.ne_none_iff_exists'.mp (Ne.symm ha)
      exact ⟨b :: as, rfl⟩

theorem writeStringOn_eq_ok_iff {path content : String} {fs fs' : FileSystem} :
    writeStringOn path content fs = (.ok (), fs') ↔
      fs.writable path = true ∧ fs' = fs.set path (some (toChars content)) := by
  rw [writeStringOn_eq]
  split
  next hwrite => simp [hwrite, eq_comm]
  next hwrite => simp [hwrite]

section Samples

variable (parseInt : String → Option ℤ) (lib : CheckerLibrary) (ratio : ℕ → ℕ → String)

/-- What `main` tests: its arguments are numbers, the folder of the samples and those below
it can be listed, and these are the selected samples. -/
def Selects (args : List String) (samples : Option (List FileEntry)) (tests : List DtsFile) :
    Prop :=
  ∃ testList dtsFiles, parseArgs parseInt args = .ok testList ∧
    listFilesForFolder "./samples" samples = .ok dtsFiles ∧
    tests = (selected testList dtsFiles).map Prod.fst

/-- A run gets to its tests, or ends before it has changed anything. -/
theorem main_cases {σ : Type} (runTest : DtsFile → σ → Option CmdProc × σ)
    (writeString : String → String → σ → Except JavaException Unit × σ) (args : List String)
    (samples : Option (List FileEntry)) (s : σ) :
    (∃ testList dtsFiles, parseArgs parseInt args = .ok testList ∧
        listFilesForFolder "./samples" samples = .ok dtsFiles ∧
        main parseInt runTest writeString ratio args samples s
          = runTests runTest writeString ratio testList dtsFiles s) ∨
      ((∀ tests, ¬ Selects parseInt args samples tests) ∧
        ∃ e, main parseInt runTest writeString ratio args samples s = (.error e, s)) := by
  unfold main
  cases hargs : parseArgs parseInt args with
  | error e =>
    refine Or.inr ⟨?_, e, rfl⟩
    rintro tests ⟨testList, dtsFiles, hok, -⟩
    rw [hargs] at hok
    cases hok
  | ok testList =>
    cases hlist : listFilesForFolder "./samples" samples with
    | error e =>
      refine Or.inr ⟨?_, e, rfl⟩
      rintro tests ⟨testList, dtsFiles, -, hok, -⟩
      rw [hlist] at hok
      cases hok
    | ok dtsFiles => exact Or.inl ⟨testList, dtsFiles, rfl, rfl, rfl⟩

variable {parseInt lib} in
/-- The tests and the write change scratch files and the report, and the report only when it
is returned. -/
theorem runTests_changes {exec : Exec} {testList : List ℤ} {dtsFiles : List DtsFile}
    {fs : FileSystem} {q : String}
    (h : (runTests (runTestOn lib exec) writeStringOn ratio testList dtsFiles fs).2.files q
      ≠ fs.files q) :
    (q = statisticsFile ∧ ∃ report,
        (runTests (runTestOn lib exec) writeStringOn ratio testList dtsFiles fs).1 = .ok report) ∨
      ∃ f ∈ (selected testList dtsFiles).map Prod.fst, q ∈ scratchFiles f := by
  by_cases hscratch : ∃ f ∈ (selected testList dtsFiles).map Prod.fst, q ∈ scratchFiles f
  · exact Or.inr hscratch
  · have hloop : (testLoop (runTestOn lib exec) testList dtsFiles 0 [] 0 fs).2.files q
        = fs.files q := by
      refine testLoop_invariant (I := fun s => s.files q = fs.files q) _ 0 [] 0 fs ?_ rfl
      intro x hx s hs
      have hother : q ∉ scratchFiles x.1 := fun hq => hscratch ⟨x.1, List.mem_map_of_mem hx, hq⟩
      rw [runTestOn_snd, (runTest_other_files lib exec x.1 s).1 q hother, hs]
    unfold runTests at h ⊢
    split at h
    next statistics numOfSucc testNum s' hrun =>
      rw [hrun] at hloop
      rw [writeReport, writeStringOn_eq] at h ⊢
      by_cases hwrite : s'.writable statisticsFile = true
      · rw [if_pos hwrite] at h ⊢
        by_cases hq : q = statisticsFile
        · exact Or.inl ⟨hq, _, rfl⟩
        · exact absurd ((s'.set_other _ hq).trans hloop) h
      · rw [if_neg hwrite] at h
        exact absurd hloop h
    next e s' hrun =>
      rw [hrun] at hloop
      exact absurd hloop h

/-- The tests all return and the report can be written. -/
theorem runTestsOn_returns_iff (gcc dtc : TextTool) (testList : List ℤ) (dtsFiles : List DtsFile)
    (fs : FileSystem) :
    (∃ report fs', runTests (runTestOn lib (execText gcc dtc)) writeStringOn ratio testList
        dtsFiles fs = (.ok report, fs')) ↔
      (∀ f ∈ (selected testList dtsFiles).map Prod.fst, Testable lib fs f) ∧
        Undisturbed ((selected testList dtsFiles).map Prod.fst) ∧
        fs.writable statisticsFile = true := by
  rw [runTests_returns_iff, ← and_assoc, ← none_not_mem_outcomes_iff gcc dtc,
    ← exists_map_some_iff]
  -- the tests leave it open whether the report can be written
  have hwritable : ∀ procs, outcomes (runTestOn lib (execText gcc dtc))
        ((selected testList dtsFiles).map Prod.fst) fs = List.map some procs →
      (afterTests (runTestOn lib (execText gcc dtc)) ((selected testList dtsFiles).map Prod.fst)
        fs).writable = fs.writable := by
    intro procs hprocs
    obtain ⟨htest, hpair⟩ := (none_not_mem_outcomes_iff gcc dtc _ fs).mp
      ((exists_map_some_iff _).mp ⟨procs, hprocs⟩)
    rw [afterTests_eq _ fs htest hpair, FileSystem.writable_foldl_without]
  constructor
  · rintro ⟨procs, hprocs, fs', hwrite⟩
    rw [writeStringOn_eq_ok_iff, hwritable procs hprocs] at hwrite
    exact ⟨⟨procs, hprocs⟩, hwrite.1⟩
  · rintro ⟨⟨procs, hprocs⟩, hwrite⟩
    refine ⟨procs, hprocs, _, writeStringOn_eq_ok_iff.mpr ⟨?_, rfl⟩⟩
    rw [hwritable procs hprocs, hwrite]

variable {parseInt lib ratio}

/-- A run that writes a report has read its arguments and listed the samples. -/
theorem main_ok {σ : Type} {runTest : DtsFile → σ → Option CmdProc × σ}
    {writeString : String → String → σ → Except JavaException Unit × σ} {args : List String}
    {samples : Option (List FileEntry)} {s s' : σ} {report : Report}
    (h : main parseInt runTest writeString ratio args samples s = (.ok report, s')) :
    ∃ testList dtsFiles, parseArgs parseInt args = .ok testList ∧
      listFilesForFolder "./samples" samples = .ok dtsFiles ∧
      runTests runTest writeString ratio testList dtsFiles s = (.ok report, s') := by
  rcases main_cases parseInt ratio runTest writeString args samples s
    with ⟨testList, dtsFiles, hargs, hlist, hmain⟩ | ⟨-, e, hmain⟩
  · exact ⟨testList, dtsFiles, hargs, hlist, hmain.symm.trans h⟩
  · rw [hmain] at h
    cases h

section OneRun

variable {gcc dtc : TextTool} {testList : List ℤ} {dtsFiles : List DtsFile} {fs fs' : FileSystem}
  {report : Report}
  (h : runTests (runTestOn lib (execText gcc dtc)) writeStringOn ratio testList dtsFiles fs
    = (.ok report, fs'))
include h

/-- The samples of a report could all be tested. -/
theorem tested_of_runTests :
    (∀ f ∈ (selected testList dtsFiles).map Prod.fst, Testable lib fs f) ∧
      Undisturbed ((selected testList dtsFiles).map Prod.fst) ∧
      report.lines.map TestLine.dtsFile = (selected testList dtsFiles).map Prod.fst := by
  obtain ⟨htest, hpair, -⟩ :=
    (runTestsOn_returns_iff lib ratio gcc dtc testList dtsFiles fs).mp ⟨report, fs', h⟩
  refine ⟨htest, hpair, ?_⟩
  rw [← (runTests_ok h).1, List.map_map]
  rfl

/-- The state after a run: the scratch files of the tested samples are gone, and the report
is in its file. -/
theorem state_of_runTests :
    fs.writable statisticsFile = true ∧
      fs' = (((selected testList dtsFiles).map Prod.fst).foldl FileSystem.without fs).set
        statisticsFile (some (toChars (report.text ratio))) := by
  obtain ⟨htest, hpair, -⟩ := tested_of_runTests h
  obtain ⟨procs, hprocs, rfl, hwrite⟩ := (runTests_eq_ok_iff _ _ _ _).mp h
  rw [afterTests_eq _ fs htest hpair, writeStringOn_eq_ok_iff,
    FileSystem.writable_foldl_without] at hwrite
  exact hwrite

theorem files_of_runTests (q : String) :
    ((∃ f ∈ (selected testList dtsFiles).map Prod.fst, q ∈ scratchFiles f) →
        fs'.files q = none) ∧
      (q ≠ statisticsFile → (∀ f ∈ (selected testList dtsFiles).map Prod.fst,
        q ∉ scratchFiles f) → fs'.files q = fs.files q) := by
  rw [(state_of_runTests h).2]
  constructor
  · intro hgone
    have hne : q ≠ statisticsFile := by
      rintro rfl
      obtain ⟨f, -, hq⟩ := hgone
      exact statisticsFile_not_mem_scratchFiles f hq
    rw [FileSystem.set_other _ _ hne, FileSystem.files_foldl_without, if_pos hgone]
  · intro hne hkept
    rw [FileSystem.set_other _ _ hne, FileSystem.files_foldl_without, if_neg]
    rintro ⟨f, hf, hq⟩
    exact hkept f hf hq

end OneRun

/-- The lines of a report, with the tests they are from. -/
theorem mem_zipWith_lineOf {tests : List (DtsFile × ℕ)} {procs : List CmdProc} {line : TestLine}
    (h : line ∈ List.zipWith lineOf tests procs) :
    ∃ x ∈ (tests.map Prod.fst).zip procs, line.dtsFile = x.1 ∧ line.isSucc = x.2.succeeded := by
  rw [← List.map_uncurry_zip_eq_zipWith] at h
  obtain ⟨⟨test, proc⟩, hmem, rfl⟩ := List.mem_map.mp h
  refine ⟨(test.1, proc), ?_, rfl, isSucc_lineOf test proc⟩
  rw [List.zip_map_left]
  exact List.mem_map_of_mem hmem

/-- **What a report says, and what files are left**: there is a line for each selected sample,
which is a success exactly when the commands accept the text the sample had before the run;
the run has written the text of the report to its file, removed the scratch files of these
samples and changed nothing else. -/
theorem main_report {gcc dtc : TextTool} {args : List String} {samples : Option (List FileEntry)}
    {fs fs' : FileSystem} {report : Report}
    (h : main parseInt (runTestOn lib (execText gcc dtc)) writeStringOn ratio args samples fs
      = (.ok report, fs')) :
    ∃ tests, Selects parseInt args samples tests ∧ report.lines.map TestLine.dtsFile = tests ∧
      (∀ line ∈ report.lines, line.isSucc = true ↔ TextAccepted gcc dtc fs line.dtsFile) ∧
      report.numOfSucc = (report.lines.filter TestLine.isSucc).length ∧
      fs'.files statisticsFile = some (toChars (report.text ratio)) ∧
      ∀ q, ((∃ f ∈ tests, q ∈ scratchFiles f) → fs'.files q = none) ∧
        (q ≠ statisticsFile → (∀ f ∈ tests, q ∉ scratchFiles f) → fs'.files q = fs.files q) := by
  obtain ⟨testList, dtsFiles, hargs, hlist, h⟩ := main_ok h
  obtain ⟨htest, hpair, hfiles⟩ := tested_of_runTests h
  refine ⟨_, ⟨testList, dtsFiles, hargs, hlist, rfl⟩, hfiles, ?_, (runTests_ok h).2.1, ?_,
    files_of_runTests h⟩
  · obtain ⟨procs, hprocs, rfl, -⟩ := (runTests_eq_ok_iff _ _ _ _).mp h
    intro line hline
    obtain ⟨x, hx, hfile, hsucc⟩ := mem_zipWith_lineOf hline
    rw [hsucc, hfile]
    exact succeeded_of_outcomes _ fs procs htest hpair hprocs x hx
  · rw [(state_of_runTests h).2, FileSystem.set_same]

end Samples

/-- The folder with `x.dts` only. -/
theorem main_report_sampleX :
    ∃ report fs', main (fun _ => none) (runTestOn forgetfulLibrary (execText gccCopies dtcNonempty))
        writeStringOn (fun _ _ => "1.0") [] (some [.file "x.dts"]) sampleFolder
          = (.ok report, fs') ∧
      fs'.files statisticsFile = some (toChars (report.text fun _ _ => "1.0")) ∧
      ∀ line ∈ report.lines,
        line.isSucc = true ↔ TextAccepted gccCopies dtcNonempty sampleFolder line.dtsFile := by
  have hrun : ∃ report fs', main (fun _ => none)
      (runTestOn forgetfulLibrary (execText gccCopies dtcNonempty)) writeStringOn
        (fun _ _ => "1.0") [] (some [.file "x.dts"]) sampleFolder = (.ok report, fs') :=
    ⟨_, _, rfl⟩
  obtain ⟨report, fs', hrun⟩ := hrun
  obtain ⟨tests, -, -, hlines, -, hfile, -⟩ := main_report hrun
  exact ⟨report, fs', hrun, hfile, hlines⟩

/-- The folder with `x.dts` and a file `input-x.dts`, which holds the same text. -/
def clashingFolder : FileSystem := sampleFolder.set "./samples/input-x.dts" (some sampleText)

end Corpus

end SilverTree
