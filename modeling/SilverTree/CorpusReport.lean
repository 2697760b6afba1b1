import SilverTree.CorpusFiles

/-!
# The report of the corpus checker

The main program of the tests lists the samples, runs the selected tests one after the
other, counts the successes, and writes a report to `tests_results.txt`: a line for each
test and a summary.  A folder that cannot be listed, and a test that ended in an exception,
are `null` to it.

The tests and the write are parameters here, programs over any state; the tests of the
checker and its file system are one instance.  The report is kept as data, with the text
that is written beside it.

## Main definitions

* `FileEntry`, `listFilesForFolder` — the samples of a folder.
* `TestLine`, `Report` — the report.
* `testLoop`, `writeReport`, `runTests`, `main` — the main program.
* `runTestOn`, `writeStringOn` — its tests and its write, on the files of the machine.

## Main results

* `runTests_ok` — **what the report says**: a line for each selected test, the number of
  successes, and one more than the number of samples.
* `runTests_returns_iff` — **the report is written unless a test ends in an exception** or
  the write does.
* `runTests_never_reports` — **the summary never gives the number of the tests.**
-/

namespace SilverTree

namespace Corpus

/-! ### The samples of a folder -/

/-- What a folder lists: a file, or another folder with what `listFiles` answers for it,
null if it cannot be listed. -/
inductive FileEntry
  | file (name : String)
  | directory (name : String) (listFiles : Option (List FileEntry))

mutual

/-- The loop of `listFilesForFolder`. -/
def listFileEntries (folder : String) : List FileEntry → Except JavaException (List DtsFile)
  | [] => .ok []
  | fileEntry :: rest =>
    match listFileEntry folder fileEntry with
    | .error e => .error e
    | .ok dtsFiles => (listFileEntries folder rest).map (dtsFiles ++ ·)

/-- One round of `listFilesForFolder`, with the recursive call on a folder. -/
def listFileEntry (folder : String) : FileEntry → Except JavaException (List DtsFile)
  | .directory _ none => .error .nullPointer
  | .directory name (some entries) => listFileEntries (folder ++ "/" ++ name) entries
  | .file name => .ok (if h : ".dts".toList <:+ name.toList then [⟨folder, name, h⟩] else [])

end

/-- `listFilesForFolder`, on a folder for which `listFiles` answers this. -/
def listFilesForFolder (folder : String) : Option (List FileEntry) →
    Except JavaException (List DtsFile)
  | none => .error .nullPointer
  | some entries => listFileEntries folder entries

/-! ### The report -/

/-- The result of a test in the report. -/
inductive TestResult
  | succ
  | fail (errOut : String)
  deriving DecidableEq, Repr

/-- What the report says of one test. -/
structure TestLine where
  testNum : ℕ
  dtsFile : DtsFile
  result : TestResult

/-- The report: a line for each test, and the numbers of its summary. -/
structure Report where
  lines : List TestLine
  numOfSucc : ℕ
  numOfTests : ℕ
  numOfFiles : ℕ

/-- Whether the line is one of a success. -/
def TestLine.isSucc (line : TestLine) : Bool := line.result == .succ

/-- The text of a line. -/
def TestLine.text (line : TestLine) : String :=
  "test: " ++ toString line.testNum ++ ": dtsFile: " ++ line.dtsFile.getPath ++ ": " ++
    match line.result with
    | .succ => "Succ\n"
    | .fail errOut => "Fail (" ++ errOut ++ ")\n"

/-- The text of the report; `ratio` is the quotient of two numbers as a `float`. -/
def Report.text (ratio : ℕ → ℕ → String) (report : Report) : String :=
  String.join (report.lines.map TestLine.text) ++
    ("succ: " ++ toString report.numOfSucc ++ " / " ++ toString report.numOfTests ++ " (" ++
      ratio report.numOfSucc report.numOfFiles ++ "%)")

/-- The path the report is written to. -/
def statisticsFile : String := "tests_results.txt"

/-! ### The main program -/

section Main

variable {σ : Type} (runTest : DtsFile → σ → Option CmdProc × σ)
  (writeString : String → String → σ → Except JavaException Unit × σ) (ratio : ℕ → ℕ → String)
  (testList : List ℤ)

/-- The tests that are run: all of them when no number is given. -/
def isSelected (testNum : ℕ) : Bool := testList.isEmpty || testList.contains (testNum : ℤ)

/-- What is written of the process a test returned. -/
def resultOf (proc : CmdProc) : TestResult :=
  if proc.returnCode = 0 then .succ else .fail proc.errOut

/-- The loop of `main` over the samples.  A field of `null` is read after a test that ended
in an exception. -/
def testLoop : List DtsFile → ℕ → List TestLine → ℕ → σ →
    Except JavaException (List TestLine × ℕ × ℕ) × σ
  | [], testNum, statistics, numOfSucc, s => (.ok (statistics, numOfSucc, testNum), s)
  | dtsFile :: rest, testNum, statistics, numOfSucc, s =>
    if isSelected testList testNum then
      match runTest dtsFile s with
      | (none, s) => (.error .nullPointer, s)
      | (some proc, s) =>
        testLoop rest (testNum + 1) (statistics ++ [⟨testNum, dtsFile, resultOf proc⟩])
          (if proc.returnCode = 0 then numOfSucc + 1 else numOfSucc) s
    else testLoop rest (testNum + 1) statistics numOfSucc s

/-- The end of `main`: the text of the report goes to its file. -/
def writeReport (report : Report) (s : σ) : Except JavaException Report × σ :=
  match writeString statisticsFile (report.text ratio) s with
  | (.ok _, s) => (.ok report, s)
  | (.error e, s) => (.error e, s)

/-- `main` after the samples are listed: the report that is written. -/
def runTests (dtsFiles : List DtsFile) (s : σ) : Except JavaException Report × σ :=
  match testLoop runTest testList dtsFiles 0 [] 0 s with
  | (.ok (statistics, numOfSucc, testNum), s) =>
    -- after the loop `testNum` is the number of samples already
    writeReport writeString ratio ⟨statistics, numOfSucc, testNum + 1, dtsFiles.length⟩ s
  | (.error e, s) => (.error e, s)

end Main

/-- `parse_args`; a word that is no number is a `NumberFormatException`. -/
def parseArgs (parseInt : String → Option ℤ) : List String → Except JavaException (List ℤ)
  | [] => .ok []
  | arg :: rest =>
    match parseInt arg with
    | none => .error .numberFormat
    | some n => (parseArgs parseInt rest).map (n :: ·)

/-- `main`, where `./samples` lists `samples`. -/
def main {σ : Type} (parseInt : String → Option ℤ) (runTest : DtsFile → σ → Option CmdProc × σ)
    (writeString : String → String → σ → Except JavaException Unit × σ) (ratio : ℕ → ℕ → String)
    (args : List String) (samples : Option (List FileEntry)) (s : σ) :
    Except JavaException Report × σ :=
  match parseArgs parseInt args with
  | .error e => (.error e, s)
  | .ok testList =>
    match listFilesForFolder "./samples" samples with
    | .error e => (.error e, s)
    | .ok dtsFiles => runTests runTest writeString ratio testList dtsFiles s

/-- The tests of the checker. -/
def runTestOn (lib : CheckerLibrary) (exec : Exec) (dtsFile : DtsFile) (fs : FileSystem) :
    Option CmdProc × FileSystem :=
  match (Corpus.runTest lib exec dtsFile).run fs with
  | .ok proc fs => (proc, fs)
  | .error _ fs => (none, fs)

/-- The `char`s of a string: a character beyond the first 65536 takes two of them. -/
def toChars (s : String) : Text :=
  s.toList.flatMap fun c =>
    if c.toNat < 0x10000 then [UInt16.ofNat c.toNat]
    else [UInt16.ofNat (0xD800 + (c.toNat - 0x10000) / 0x400),
      UInt16.ofNat (0xDC00 + c.toNat % 0x400)]

/-- `Files.writeString` on the files of the machine. -/
def writeStringOn (path content : String) (fs : FileSystem) :
    Except JavaException Unit × FileSystem :=
  match (writeFile path (toChars content)).run fs with
  | .ok _ fs => (.ok (), fs)
  | .error e fs => (.error e, fs)

theorem writeStringOn_eq (path content : String) (fs : FileSystem) :
    writeStringOn path content fs =
      if fs.writable path then (.ok (), fs.set path (some (toChars content)))
      else (.error .io, fs) := by
  rw [writeStringOn, run_writeFile]
  by_cases hwrite : fs.writable path = true <;> simp [hwrite]

/-- The main program meets `null` exactly when a check throws. -/
theorem runTestOn_eq_none_iff (lib : CheckerLibrary) (exec : Exec) (dtsFile : DtsFile)
    (fs : FileSystem) :
    (runTestOn lib exec dtsFile fs).1 = none ↔
      ∃ e fs', (runChecks lib exec dtsFile).run fs = .error e fs' := by
  cases h : (runChecks lib exec dtsFile).run fs with
  | ok proc fs' => simp [runTestOn, runTest_returns h]
  | error e fs' => simp [runTestOn, runTest_throws h]

/-! ### What the report says -/

section Report

variable {σ : Type} (runTest : DtsFile → σ → Option CmdProc × σ)
  (writeString : String → String → σ → Except JavaException Unit × σ) (ratio : ℕ → ℕ → String)
  (testList : List ℤ)

/-- The selected samples among those from number `n` on, with their numbers. -/
def selectedFrom (n : ℕ) (dtsFiles : List DtsFile) : List (DtsFile × ℕ) :=
  (dtsFiles.zipIdx n).filter fun x => isSelected testList x.2

/-- The selected samples, with their numbers, in the order of the list. -/
def selected (dtsFiles : List DtsFile) : List (DtsFile × ℕ) := selectedFrom testList 0 dtsFiles

/-- What tests that are run one after the other return. -/
def outcomes : List DtsFile → σ → List (Option CmdProc)
  | [], _ => []
  | dtsFile :: rest, s => (runTest dtsFile s).1 :: outcomes rest (runTest dtsFile s).2

/-- The state after tests that are run one after the other. -/
def afterTests (dtsFiles : List DtsFile) (s : σ) : σ :=
  dtsFiles.foldl (fun s f => (runTest f s).2) s

/-- The line of a test that returned. -/
def lineOf (test : DtsFile × ℕ) (proc : CmdProc) : TestLine := ⟨test.2, test.1, resultOf proc⟩

/-- The exit code of a success. -/
def CmdProc.succeeded (proc : CmdProc) : Bool := proc.returnCode == 0

theorem selectedFrom_cons (n : ℕ) (dtsFile : DtsFile) (rest : List DtsFile) :
    selectedFrom testList n (dtsFile :: rest) =
      if isSelected testList n then (dtsFile, n) :: selectedFrom testList (n + 1) rest
      else selectedFrom testList (n + 1) rest := by
  rw [selectedFrom, List.zipIdx_cons, List.filter_cons]
  rfl

theorem length_selectedFrom_le (n : ℕ) (dtsFiles : List DtsFile) :
    (selectedFrom testList n dtsFiles).length ≤ dtsFiles.length := by
  calc (selectedFrom testList n dtsFiles).length
      ≤ (dtsFiles.zipIdx n).length := List.length_filter_le _ _
    _ = dtsFiles.length := List.length_zipIdx

/-- One round of the loop, for a test that is selected and returns. -/
theorem testLoop_returns {dtsFile : DtsFile} {n : ℕ} {s s' : σ} {proc : CmdProc}
    (hsel : isSelected testList n = true) (hrun : runTest dtsFile s = (some proc, s'))
    (rest : List DtsFile) (statistics : List TestLine) (k : ℕ) :
    testLoop runTest testList (dtsFile :: rest) n statistics k s =
      testLoop runTest testList rest (n + 1) (statistics ++ [lineOf (dtsFile, n) proc])
        (k + ([proc].filter CmdProc.succeeded).length) s' := by
  have hcount : (if proc.returnCode = 0 then k + 1 else k)
      = k + ([proc].filter CmdProc.succeeded).length := by
    by_cases hzero : proc.returnCode = 0 <;> simp [CmdProc.succeeded, hzero]
  rw [testLoop, if_pos hsel, hrun, ← hcount]
  rfl

/-- **The loop of the main program**: when every selected test returns, it ends with a line
for each of them, and otherwise in a `NullPointerException`. -/
theorem testLoop_spec : ∀ (dtsFiles : List DtsFile) (n : ℕ) (statistics : List TestLine) (k : ℕ)
    (s : σ),
    (∃ procs,
        outcomes runTest ((selectedFrom testList n dtsFiles).map Prod.fst) s = procs.map some ∧
        testLoop runTest testList dtsFiles n statistics k s =
          (.ok (statistics ++ List.zipWith lineOf (selectedFrom testList n dtsFiles) procs,
              k + (procs.filter CmdProc.succeeded).length, n + dtsFiles.length),
            afterTests runTest ((selectedFrom testList n dtsFiles).map Prod.fst) s)) ∨
      (none ∈ outcomes runTest ((selectedFrom testList n dtsFiles).map Prod.fst) s ∧
        ∃ s', testLoop runTest testList dtsFiles n statistics k s = (.error .nullPointer, s')) := by
  intro dtsFiles
  induction dtsFiles with
  | nil =>
    intro n statistics k s
    exact Or.inl ⟨[], rfl, by simp [testLoop, selectedFrom, afterTests]⟩
  | cons dtsFile rest ih =>
    intro n statistics k s
    have hnum : n + (dtsFile :: rest).length = n + 1 + rest.length := by
      rw [List.length_cons]
      omega
    rw [selectedFrom_cons, hnum]
    by_cases hsel : isSelected testList n = true
    · rw [if_pos hsel]
      cases hrun : runTest dtsFile s with
      | mk proc s' =>
        cases proc with
        | none => exact Or.inr ⟨by simp [outcomes, hrun], s', by simp [testLoop, hsel, hrun]⟩
        | some proc =>
          rw [testLoop_returns runTest testList hsel hrun, List.map_cons, outcomes, hrun,
            afterTests, List.foldl_cons, hrun]
          -- the counter, the number and the lines advance together
          rcases ih (n + 1) (statistics ++ [lineOf (dtsFile, n) proc])
              (k + ([proc].filter CmdProc.succeeded).length) s' with
            ⟨procs, hprocs, hloop⟩ | ⟨hnone, s'', hloop⟩
          · refine Or.inl ⟨proc :: procs, by rw [hprocs, List.map_cons], ?_⟩
            have hfilter : ((proc :: procs).filter CmdProc.succeeded).length
                = ([proc].filter CmdProc.succeeded).length
                  + (procs.filter CmdProc.succeeded).length := by
              rw [← List.length_append, ← List.filter_append, List.singleton_append]
            rw [hloop, hfilter, List.zipWith_cons_cons, List.append_assoc, Nat.add_assoc k,
              List.singleton_append]
            rfl
          · exact Or.inr ⟨List.mem_cons_of_mem _ hnone, s'', hloop⟩
    · rw [if_neg hsel, testLoop, if_neg hsel]
      exact ih (n + 1) statistics k s

/-- What a right report says: a result for each selected sample in the order of the list,
how many of them are successes, and how many tests were run. -/
structure Reports (dtsFiles : List DtsFile) (report : Report) : Prop where
  lines : report.lines.map (fun line => (line.dtsFile, line.testNum)) = selected testList dtsFiles
  numOfSucc : report.numOfSucc = (report.lines.filter TestLine.isSucc).length
  numOfTests : report.numOfTests = (selected testList dtsFiles).length

/-- The report of tests that all returned. -/
def reportOf (dtsFiles : List DtsFile) (procs : List CmdProc) : Report where
  lines := List.zipWith lineOf (selected testList dtsFiles) procs
  numOfSucc := (procs.filter CmdProc.succeeded).length
  numOfTests := dtsFiles.length + 1
  numOfFiles := dtsFiles.length

/-- **What the main program does**: when every selected test returns, it writes a report with
the results of the tests, the number of successes, and the number of samples and one more;
otherwise it writes nothing. -/
theorem runTests_spec (dtsFiles : List DtsFile) (s : σ) :
    (∃ procs,
        outcomes runTest ((selected testList dtsFiles).map Prod.fst) s = procs.map some ∧
        runTests runTest writeString ratio testList dtsFiles s =
          writeReport writeString ratio (reportOf testList dtsFiles procs)
            (afterTests runTest ((selected testList dtsFiles).map Prod.fst) s)) ∨
      (none ∈ outcomes runTest ((selected testList dtsFiles).map Prod.fst) s ∧
        ∃ s', runTests runTest writeString ratio testList dtsFiles s
          = (.error .nullPointer, s')) := by
  rcases testLoop_spec runTest testList dtsFiles 0 [] 0 s
    with ⟨procs, hprocs, hloop⟩ | ⟨hnone, s', hloop⟩
  · refine Or.inl ⟨procs, hprocs, ?_⟩
    simp [runTests, hloop, selected, reportOf]
  · exact Or.inr ⟨hnone, s', by simp [runTests, hloop]⟩

theorem writeReport_eq_ok_iff {report report' : Report} {s s' : σ} :
    writeReport writeString ratio report s = (.ok report', s') ↔
      report' = report ∧ writeString statisticsFile (report.text ratio) s = (.ok (), s') := by
  unfold writeReport
  split
  next u t hwrite =>
    rw [hwrite, Prod.mk.injEq, Prod.mk.injEq, Except.ok.injEq, eq_comm]
    exact and_congr_right fun _ => (and_iff_right rfl).symm
  next e t hwrite =>
    rw [hwrite]
    simp

/-- A report that is returned was made from what all the tests returned, and written. -/
theorem runTests_eq_ok_iff {dtsFiles : List DtsFile} {s s' : σ} {report : Report} :
    runTests runTest writeString ratio testList dtsFiles s = (.ok report, s') ↔
      ∃ procs, outcomes runTest ((selected testList dtsFiles).map Prod.fst) s = procs.map some ∧
        report = reportOf testList dtsFiles procs ∧
        writeString statisticsFile (report.text ratio)
          (afterTests runTest ((selected testList dtsFiles).map Prod.fst) s) = (.ok (), s') := by
  rcases runTests_spec runTest writeString ratio testList dtsFiles s
    with ⟨procs, hprocs, hrun⟩ | ⟨hnone, t, hrun⟩
  · rw [hrun, writeReport_eq_ok_iff]
    constructor
    · rintro ⟨rfl, hwrite⟩
      exact ⟨procs, hprocs, rfl, hwrite⟩
    · rintro ⟨procs', hprocs', rfl, hwrite⟩
      have hsome : procs'.map some = procs.map some := by rw [← hprocs', hprocs]
      rw [List.map_injective_iff.mpr (fun _ _ => Option.some.inj) hsome] at hwrite ⊢
      exact ⟨rfl, hwrite⟩
  · rw [hrun]
    refine iff_of_false (fun h => by cases h) ?_
    rintro ⟨procs, hprocs, -⟩
    rw [hprocs] at hnone
    simp at hnone

theorem length_outcomes : ∀ (dtsFiles : List DtsFile) (s : σ),
    (outcomes runTest dtsFiles s).length = dtsFiles.length := by
  intro dtsFiles
  induction dtsFiles with
  | nil => exact fun s => rfl
  | cons dtsFile rest ih =>
    intro s
    simp [outcomes, ih]

/-- **The report is written unless a selected test ends in an exception**, or the write
does. -/
theorem runTests_returns_iff (dtsFiles : List DtsFile) (s : σ) :
    (∃ report s', runTests runTest writeString ratio testList dtsFiles s = (.ok report, s')) ↔
      ∃ procs, outcomes runTest ((selected testList dtsFiles).map Prod.fst) s = procs.map some ∧
        ∃ s', writeString statisticsFile ((reportOf testList dtsFiles procs).text ratio)
          (afterTests runTest ((selected testList dtsFiles).map Prod.fst) s) = (.ok (), s') := by
  simp only [runTests_eq_ok_iff]
  constructor
  · rintro ⟨report, s', procs, hprocs, rfl, hwrite⟩
    exact ⟨procs, hprocs, s', hwrite⟩
  · rintro ⟨procs, hprocs, s', hwrite⟩
    exact ⟨_, s', procs, hprocs, rfl, hwrite⟩

variable {runTest writeString ratio testList}

theorem isSucc_lineOf (test : DtsFile × ℕ) (proc : CmdProc) :
    (lineOf test proc).isSucc = proc.succeeded := by
  by_cases hzero : proc.returnCode = 0 <;>
    simp [lineOf, TestLine.isSucc, resultOf, CmdProc.succeeded, hzero]

/-- The lines of the tests are those of the samples, and as many of them are successes as
there are exit codes 0. -/
theorem zipWith_lineOf : ∀ (tests : List (DtsFile × ℕ)) (procs : List CmdProc),
    tests.length = procs.length →
    (List.zipWith lineOf tests procs).map (fun line => (line.dtsFile, line.testNum)) = tests ∧
      ((List.zipWith lineOf tests procs).filter TestLine.isSucc).length
        = (procs.filter CmdProc.succeeded).length := by
  intro tests
  induction tests with
  | nil =>
    intro procs hlen
    cases procs with
    | nil => exact ⟨rfl, rfl⟩
    | cons proc procs => cases hlen
  | cons test tests ih =>
    intro procs hlen
    cases procs with
    | nil => cases hlen
    | cons proc procs =>
      obtain ⟨hmap, hcount⟩ := ih procs (Nat.succ.inj hlen)
      refine ⟨by simp [lineOf, hmap], ?_⟩
      rw [List.zipWith_cons_cons, List.filter_cons, List.filter_cons, isSucc_lineOf]
      split
      · rw [List.length_cons, List.length_cons, hcount]
      · exact hcount

/-- **What a report that is written says**: all but its last number is right. -/
theorem runTests_ok {dtsFiles : List DtsFile} {s s' : σ} {report : Report}
    (h : runTests runTest writeString ratio testList dtsFiles s = (.ok report, s')) :
    report.lines.map (fun line => (line.dtsFile, line.testNum)) = selected testList dtsFiles ∧
      report.numOfSucc = (report.lines.filter TestLine.isSucc).length ∧
      report.numOfTests = dtsFiles.length + 1 := by
  obtain ⟨procs, hprocs, rfl, -⟩ :=
    (runTests_eq_ok_iff runTest writeString ratio testList).mp h
  have hlen : (selected testList dtsFiles).length = procs.length := by
    have hout := length_outcomes runTest ((selected testList dtsFiles).map Prod.fst) s
    rw [hprocs, List.length_map, List.length_map] at hout
    exact hout.symm
  obtain ⟨hmap, hcount⟩ := zipWith_lineOf (selected testList dtsFiles) procs hlen
  exact ⟨hmap, hcount.symm, rfl⟩

/-- **The summary never gives the number of the tests that were run**: it gives one more
than the number of samples. -/
theorem runTests_never_reports {σ : Type} (runTest : DtsFile → σ → Option CmdProc × σ)
    (writeString : String → String → σ → Except JavaException Unit × σ) (ratio : ℕ → ℕ → String)
    (testList : List ℤ) (dtsFiles : List DtsFile) (s : σ) :
    ¬ ∃ report s', runTests runTest writeString ratio testList dtsFiles s = (.ok report, s') ∧
      Reports testList dtsFiles report := by
  intro h
  obtain ⟨report, s', hrun, hreports⟩ := h
  obtain ⟨-, -, htotal⟩ := runTests_ok hrun
  have hle := length_selectedFrom_le testList 0 dtsFiles
  have hnum := hreports.numOfTests
  rw [selected] at hnum
  omega

end Report

/-- One sample whose test succeeds: the summary says `1 / 2`.  One whose test ends in an
exception: there is no report. -/
theorem runTests_one_sample :
    (¬ ∃ report s', runTests (fun _ (s : Unit) => (some .empty, s)) (fun _ _ s => (.ok (), s))
        (fun _ _ => "1.0") [] [sampleX] () = (.ok report, s') ∧ Reports [] [sampleX] report) ∧
      ¬ ∃ report s', runTests (fun _ (s : Unit) => (none, s)) (fun _ _ s => (.ok (), s))
        (fun _ _ => "0.0") [] [sampleX] () = (.ok report, s') ∧ Reports [] [sampleX] report := by
  constructor
  · intro h
    obtain ⟨report, s', hrun, hreports⟩ := h
    cases hrun
    exact absurd hreports.numOfTests (by decide)
  · intro h
    obtain ⟨report, s', hrun, -⟩ := h
    cases hrun

end Corpus

end SilverTree
