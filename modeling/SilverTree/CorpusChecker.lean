import SilverTree.ScratchFiles

/-!
# The corpus checker

For each sample the class `parser` of the tests checks the paths of the parsed tree, dumps
the tree to a scratch file and calls `gcc` and `dtc`.

A test runs on the file system, a state that survives an exception.  A command that is
started can leave anything at the output paths named on its command line, and changes no
other file.

## Main definitions

* `CmdProc`, `Exec`, `newCmdProc` — running a command.
* `checkPaths`, `checkCompileTree`, `runTest` — the checker.
* `TextTool`, `execText` — commands that are functions of the text they read.

## Main results

* `checkPaths_iff` — **`check_paths` calls `getPath` on every descendant, and reports
  success whatever it answers.**
* `checkCompileTree_dump_iff` — **when a success is one of the dumped text.**
* `runTest_keeps_files_iff` — **when a test leaves all files as they were.**
-/

namespace SilverTree

namespace Corpus

/-! ### Commands -/

/-- `CmdProc`: what is known of a command that has been run. -/
structure CmdProc where
  cmdLine : String
  stdOut : String
  errOut : String
  returnCode : ℤ
  deriving DecidableEq, Repr

/-- `new CmdProc(null)`. -/
def CmdProc.empty : CmdProc := ⟨"", "", "", 0⟩

/-- What a command that was started does: the lines it prints, its exit code, and what it
leaves at its output paths. -/
structure ProcessRun where
  stdOut : List String
  errOut : List String
  returnCode : ℤ
  leaves : String → Option Text

/-- `Runtime.exec` and `Process.waitFor`: what a command line does on a file system, or
`none` when it cannot be started. -/
abbrev Exec := List String → FileSystem → Option ProcessRun

/-- Programs of the checker. -/
abbrev Checker := EStateM JavaException FileSystem

/-- The fields of a `CmdProc` after its command has ended. -/
def CmdProc.ofRun (cmd : List String) (run : ProcessRun) : CmdProc where
  cmdLine := String.join (cmd.map (· ++ " "))
  stdOut := String.join run.stdOut
  errOut := String.join run.errOut
  returnCode := run.returnCode

/-- `new CmdProc(cmd)`, for a command line that names `outputs` as its output paths. -/
def newCmdProc (exec : Exec) (cmd outputs : List String) : Checker CmdProc := fun fs =>
  match exec cmd fs with
  | none => .error .io fs
  | some run => .ok (.ofRun cmd run) (fs.leave outputs run.leaves)

/-- `Files.readString`. -/
def readString (path : String) : Checker Text := fun fs =>
  match fs.files path with
  | none => .error .io fs
  | some content => .ok content fs

/-- `new FileWriter`, `write` and `close`. -/
def writeFile (path : String) (content : Text) : Checker Unit := fun fs =>
  if fs.writable path then .ok () (fs.set path (some content)) else .error .io fs

/-- `File.delete`.  An empty directory is deleted as well, and holds no file. -/
def delete (path : String) : Checker Unit := fun fs => .ok () (fs.set path none)

@[simp] theorem run_newCmdProc (exec : Exec) (cmd outputs : List String) (fs : FileSystem) :
    (newCmdProc exec cmd outputs).run fs =
      match exec cmd fs with
      | none => .error .io fs
      | some run => .ok (.ofRun cmd run) (fs.leave outputs run.leaves) := rfl

@[simp] theorem run_readString (path : String) (fs : FileSystem) :
    (readString path).run fs =
      match fs.files path with
      | none => .error .io fs
      | some content => .ok content fs := rfl

@[simp] theorem run_writeFile (path : String) (content : Text) (fs : FileSystem) :
    (writeFile path content).run fs =
      if fs.writable path then .ok () (fs.set path (some content)) else .error .io fs := rfl

@[simp] theorem run_delete (path : String) (fs : FileSystem) :
    (delete path).run fs = .ok () (fs.set path none) := rfl

@[simp] theorem run_liftExcept_ok {α : Type} (a : α) (fs : FileSystem) :
    (liftExcept (.ok a : Except JavaException α) : Checker α).run fs = .ok a fs := rfl

@[simp] theorem run_liftExcept_error {α : Type} (e : JavaException) (fs : FileSystem) :
    (liftExcept (.error e : Except JavaException α) : Checker α).run fs = .error e fs := rfl

@[simp] theorem run_map {α β : Type} (g : α → β) (x : Checker α) (fs : FileSystem) :
    (g <$> x).run fs =
      match x.run fs with
      | .ok a fs => .ok (g a) fs
      | .error e fs => .error e fs := by
  simp only [EStateM.run, Functor.map, EStateM.map]
  cases x fs <;> rfl

/-- The handler of an exception finds the files as the exception left them. -/
theorem run_tryCatch {α : Type} (x : Checker α) (handler : JavaException → Checker α)
    (fs : FileSystem) :
    (tryCatch x handler).run fs =
      match x.run fs with
      | .ok a fs => .ok a fs
      | .error e fs => (handler e).run fs := by
  simp only [EStateM.run, tryCatch, tryCatchThe, MonadExceptOf.tryCatch, EStateM.tryCatch]
  cases x fs <;> rfl

/-- What the checker uses of silver-leaves besides the parser. -/
structure CheckerLibrary extends SilverLeaves where
  /-- `DeviceTreeObject.getPath`. -/
  getPath : TreeElement → Except JavaException Text
  /-- `DeviceTreeRoot.dump`. -/
  dump : DeviceTreeRoot → ℕ → Except JavaException Text
  /-- `e.getStackTrace().toString()`. -/
  stackTrace : JavaException → String

/-! ### Checking the paths -/

mutual

/-- The loop of `check_paths` over the children of a tree, `above` and its ancestors: the
process it changes, and the elements `getPath` has been called on. -/
def checkPathsLoop (lib : CheckerLibrary) (above : List DeviceTree) :
    List DeviceTreeObject → CmdProc → List TreeElement → CmdProc × List TreeElement
  | [], proc, calls => (proc, calls)
  | child :: rest, proc, calls =>
    let proc :=
      match lib.getPath ⟨child, above⟩ with
      | .ok _ => proc
      | .error e => { proc with returnCode := 1, errOut := lib.stackTrace e }
    checkPathsLoop lib above rest proc (checkPathsBelow lib above child (calls ++ [⟨child, above⟩]))

/-- The recursive call of `check_paths` on a child.  Its result is dropped. -/
def checkPathsBelow (lib : CheckerLibrary) (above : List DeviceTree) :
    DeviceTreeObject → List TreeElement → List TreeElement
  | .attr _, calls => calls
  | .tree token children, calls =>
    (checkPathsLoop lib (⟨token, children⟩ :: above) children .empty calls).2

end

/-- `check_paths`: the process it returns, and the elements it has called `getPath` on. -/
def checkPaths (lib : CheckerLibrary) (root : DeviceTreeRoot) : CmdProc × List TreeElement :=
  let (proc, calls) := checkPathsLoop lib [root] root.children .empty []
  -- what the loop has set is overwritten
  ({ proc with returnCode := 0 }, calls)

/-- The elements below the children of a tree, the children included; `above` is the tree
and its ancestors. -/
inductive Below : List DeviceTree → List DeviceTreeObject → TreeElement → Prop
  | child {above : List DeviceTree} {children : List DeviceTreeObject} {o : DeviceTreeObject} :
      o ∈ children → Below above children ⟨o, above⟩
  | deeper {above : List DeviceTree} {children grandchildren : List DeviceTreeObject}
      {token : Token} {e : TreeElement} : DeviceTreeObject.tree token grandchildren ∈ children →
      Below (⟨token, grandchildren⟩ :: above) grandchildren e → Below above children e

/-- The proper descendants of a root. -/
def Descendant (root : DeviceTreeRoot) (e : TreeElement) : Prop := Below [root] root.children e

/-- The elements below one child, the child not included. -/
def BelowChild (above : List DeviceTree) (e : TreeElement) : DeviceTreeObject → Prop
  | .attr _ => False
  | .tree token children => Below (⟨token, children⟩ :: above) children e

theorem not_below_nil {above : List DeviceTree} {e : TreeElement} : ¬ Below above [] e := by
  intro h
  cases h with
  | child hmem => cases hmem
  | deeper hmem _ => cases hmem

theorem below_cons_iff {above : List DeviceTree} {o : DeviceTreeObject}
    {rest : List DeviceTreeObject} {e : TreeElement} :
    Below above (o :: rest) e ↔ e = ⟨o, above⟩ ∨ BelowChild above e o ∨ Below above rest e := by
  constructor
  · intro h
    cases h with
    | child hmem =>
      rcases List.mem_cons.mp hmem with rfl | hmem
      · exact Or.inl rfl
      · exact Or.inr (Or.inr (.child hmem))
    | deeper hmem hbelow =>
      rcases List.mem_cons.mp hmem with rfl | hmem
      · exact Or.inr (Or.inl hbelow)
      · exact Or.inr (Or.inr (.deeper hmem hbelow))
  · intro h
    rcases h with rfl | hchild | hrest
    · exact .child (List.mem_cons_self ..)
    · cases o with
      | attr token => exact absurd hchild id
      | tree token children => exact .deeper (List.mem_cons_self ..) hchild
    · cases hrest with
      | child hmem => exact .child (List.mem_cons_of_mem _ hmem)
      | deeper hmem hbelow => exact .deeper (List.mem_cons_of_mem _ hmem) hbelow

mutual

/-- **`check_paths` visits** the children of a tree and everything below them. -/
theorem mem_checkPathsLoop (lib : CheckerLibrary) (above : List DeviceTree) (e : TreeElement) :
    ∀ (children : List DeviceTreeObject) (proc : CmdProc) (calls : List TreeElement),
      e ∈ (checkPathsLoop lib above children proc calls).2 ↔ e ∈ calls ∨ Below above children e
  | [], proc, calls => by
    rw [checkPathsLoop]
    simp [not_below_nil]
  | child :: rest, proc, calls => by
    rw [checkPathsLoop, mem_checkPathsLoop lib above e rest, mem_checkPathsBelow lib above e child,
      below_cons_iff, List.mem_append, List.mem_singleton]
    simp only [or_assoc]

theorem mem_checkPathsBelow (lib : CheckerLibrary) (above : List DeviceTree) (e : TreeElement) :
    ∀ (o : DeviceTreeObject) (calls : List TreeElement),
      e ∈ checkPathsBelow lib above o calls ↔ e ∈ calls ∨ BelowChild above e o
  | .attr token, calls => by
    rw [checkPathsBelow]
    simp [BelowChild]
  | .tree token children, calls => by
    rw [checkPathsBelow, mem_checkPathsLoop lib (⟨token, children⟩ :: above) e children]
    rfl

end

/-- `getPath` returns on every proper descendant of the root. -/
def AllPathsReturn (lib : CheckerLibrary) (root : DeviceTreeRoot) : Prop :=
  ∀ e, Descendant root e → ∃ path, lib.getPath e = .ok path

/-- **`check_paths` calls `getPath` on exactly the descendants of the root, but its answer
does not depend on it**: the process it returns reports a success, which is right on the
trees where every `getPath` returns. -/
theorem checkPaths_iff (lib : CheckerLibrary) (root : DeviceTreeRoot) :
    (∀ e, e ∈ (checkPaths lib root).2 ↔ Descendant root e) ∧
      (((checkPaths lib root).1.returnCode = 0 ↔ AllPathsReturn lib root) ↔
        AllPathsReturn lib root) := by
  constructor
  · intro e
    have h := mem_checkPathsLoop lib [root] e root.children .empty []
    simpa [checkPaths, Descendant] using h
  · have hcode : (checkPaths lib root).1.returnCode = 0 := rfl
    simp only [hcode, true_iff]

/-- A library whose `getPath` throws. -/
def noPathLibrary : CheckerLibrary where
  create := fun _ => .error .parse
  newDeviceTreeMemory := fun _ => .error .parse
  getDeviceTreeMemoryMapRegRec := fun _ => .ok []
  getEndAddress := fun r => .ok r.address
  compareTo := fun _ _ => .ok 0
  getPath := fun _ => .error .nullPointer
  dump := fun root _ => .ok root.token.text
  stackTrace := fun _ => "[Ljava.lang.StackTraceElement;@1b6d3586"

/-- A root with one attribute, `a;`. -/
def attributeRoot : DeviceTreeRoot :=
  ⟨⟨.TREE, 0, [47, 123, 97, 59, 125, 59]⟩, [.attr ⟨.ATTRIBUTE, 2, [97, 59]⟩]⟩

theorem checkPaths_reports_success :
    ¬ ((checkPaths noPathLibrary attributeRoot).1.returnCode = 0 ↔
      AllPathsReturn noPathLibrary attributeRoot) := by
  intro h
  have hall := h.mp rfl
  obtain ⟨path, hpath⟩ := hall ⟨.attr ⟨.ATTRIBUTE, 2, [97, 59]⟩, [attributeRoot]⟩
    (.child (List.mem_singleton_self _))
  cases hpath

/-! ### The checks -/

/-- The command line of the preprocessor. -/
def preProcCmd (f : DtsFile) : List String :=
  ["gcc", "-E", "-Wp,-MD," ++ preProcMDFile f, "-nostdinc", "-I./samples/include", "-undef",
    "-D__DTS__", "-x", "assembler-with-cpp", "-o", preProcOutFile f, f.getPath]

/-- The command line of the device tree compiler. -/
def dtcCmd (f : DtsFile) : List String :=
  ["dtc", "-I", "dts", "-O", "dtb", "-o", outputFile f, preProcOutFile f]

/-- The scratch files are deleted. -/
def deleteScratchFiles (f : DtsFile) : Checker Unit := do
  delete (inputFile f)
  delete (outputFile f)
  delete (preProcOutFile f)
  delete (preProcMDFile f)

/-- `check_compile_tree` from the first command on. -/
def runCommands (exec : Exec) (f : DtsFile) : Checker CmdProc := do
  let preProc ← newCmdProc exec (preProcCmd f) [preProcOutFile f, preProcMDFile f]
  if preProc.returnCode ≠ 0 then do
    deleteScratchFiles f
    pure preProc
  else do
    -- an exception of either command skips the deletions
    let proc ← newCmdProc exec (dtcCmd f) [outputFile f]
    deleteScratchFiles f
    pure proc

/-- `check_compile_tree`. -/
def checkCompileTree (lib : CheckerLibrary) (exec : Exec) (f : DtsFile) (root : DeviceTreeRoot) :
    Checker CmdProc := do
  let parserDump ← liftExcept (lib.dump root 0)
  writeFile (inputFile f) parserDump
  runCommands exec f

/-- The body of `runTest`. -/
def runChecks (lib : CheckerLibrary) (exec : Exec) (f : DtsFile) : Checker CmdProc := do
  let content ← readString f.getPath
  let root ← liftExcept (lib.create content)
  let test1 := (checkPaths lib root).1
  if test1.returnCode ≠ 0 then
    pure test1
  else
    checkCompileTree lib exec f root

/-- `runTest`: every exception ends in `null`. -/
def runTest (lib : CheckerLibrary) (exec : Exec) (f : DtsFile) : Checker (Option CmdProc) :=
  tryCatch
    (do
      let test ← runChecks lib exec f
      pure (some test))
    (fun _ => pure none)

/-! ### What the compile check does -/

section CompileCheck

variable {lib : CheckerLibrary} {exec : Exec} {f : DtsFile} {root : DeviceTreeRoot}
  {fs : FileSystem}

/-- The file system without the scratch files. -/
def cleared (f : DtsFile) (fs : FileSystem) : FileSystem :=
  (((fs.set (inputFile f) none).set (outputFile f) none).set (preProcOutFile f) none).set
    (preProcMDFile f) none

/-- The file system with the dump in it. -/
def dumped (f : DtsFile) (fs : FileSystem) (dump : Text) : FileSystem :=
  fs.set (inputFile f) (some dump)

/-- The file system after the preprocessor. -/
def preprocessed (f : DtsFile) (fs : FileSystem) (run : ProcessRun) : FileSystem :=
  fs.leave [preProcOutFile f, preProcMDFile f] run.leaves

theorem run_deleteScratchFiles : (deleteScratchFiles f).run fs = .ok () (cleared f fs) := by
  simp [deleteScratchFiles, cleared]

/-- The dump is not written over the sample. -/
theorem dumped_getPath {dump : Text} : (dumped f fs dump).files f.getPath = fs.files f.getPath :=
  fs.set_other _ (inputFile_ne_getPath f).symm

theorem runCommands_gcc_missing (hgcc : exec (preProcCmd f) fs = none) :
    (runCommands exec f).run fs = .error .io fs := by
  simp [runCommands, hgcc]

theorem runCommands_gcc_fails {run : ProcessRun} (hgcc : exec (preProcCmd f) fs = some run)
    (hcode : run.returnCode ≠ 0) :
    (runCommands exec f).run fs
      = .ok (.ofRun (preProcCmd f) run) (cleared f (preprocessed f fs run)) := by
  have hproc : (CmdProc.ofRun (preProcCmd f) run).returnCode ≠ 0 := hcode
  simp [runCommands, hgcc, hproc, run_deleteScratchFiles, preprocessed]

theorem runCommands_dtc_missing {run : ProcessRun} (hgcc : exec (preProcCmd f) fs = some run)
    (hcode : run.returnCode = 0) (hdtc : exec (dtcCmd f) (preprocessed f fs run) = none) :
    (runCommands exec f).run fs = .error .io (preprocessed f fs run) := by
  have hproc : (CmdProc.ofRun (preProcCmd f) run).returnCode = 0 := hcode
  rw [preprocessed] at hdtc ⊢
  simp [runCommands, hgcc, hproc, hdtc]

theorem runCommands_dtc_runs {run run' : ProcessRun} (hgcc : exec (preProcCmd f) fs = some run)
    (hcode : run.returnCode = 0) (hdtc : exec (dtcCmd f) (preprocessed f fs run) = some run') :
    (runCommands exec f).run fs = .ok (.ofRun (dtcCmd f) run')
      (cleared f ((preprocessed f fs run).leave [outputFile f] run'.leaves)) := by
  have hproc : (CmdProc.ofRun (preProcCmd f) run).returnCode = 0 := hcode
  rw [preprocessed] at hdtc ⊢
  simp [runCommands, hgcc, hproc, hdtc, run_deleteScratchFiles]

theorem checkCompileTree_dump_throws {e : JavaException} (hdump : lib.dump root 0 = .error e) :
    (checkCompileTree lib exec f root).run fs = .error e fs := by
  simp [checkCompileTree, hdump]

theorem checkCompileTree_not_writable {dump : Text} (hdump : lib.dump root 0 = .ok dump)
    (hwrite : fs.writable (inputFile f) = false) :
    (checkCompileTree lib exec f root).run fs = .error .io fs := by
  simp [checkCompileTree, hdump, hwrite]

theorem checkCompileTree_dumped {dump : Text} (hdump : lib.dump root 0 = .ok dump)
    (hwrite : fs.writable (inputFile f) = true) :
    (checkCompileTree lib exec f root).run fs = (runCommands exec f).run (dumped f fs dump) := by
  simp [checkCompileTree, hdump, hwrite, dumped]

end CompileCheck

/-! ### Which text is compiled -/

/-- What a command does that only depends on the text it reads. -/
structure TextRun where
  stdOut : List String
  errOut : List String
  returnCode : ℤ
  output : Text
  dependencies : Text

/-- A command that is a function of the text it reads. -/
abbrev TextTool := Text → TextRun

/-- The argument after an option of a command line. -/
def argumentOf (option : String) : List String → Option String
  | a :: b :: rest => if a = option then some b else argumentOf option (b :: rest)
  | _ => none

/-- Running the two commands: the last argument names the file that is read, `-o` the file
the output goes to. -/
def execText (gcc dtc : TextTool) : Exec := fun cmd fs =>
  match cmd.getLast?.bind fs.files with
  | none => some ⟨[], ["No such file or directory"], 1, fs.files⟩
  | some text =>
    let run := (if cmd.head? = some "gcc" then gcc else dtc) text
    some ⟨run.stdOut, run.errOut, run.returnCode, fun q =>
      if argumentOf "-o" cmd = some q then some run.output else some run.dependencies⟩

/-- The preprocessor succeeds on a text, and the compiler on what the preprocessor makes of
it. -/
def Accepts (gcc dtc : TextTool) (text : Text) : Prop :=
  (gcc text).returnCode = 0 ∧ (dtc (gcc text).output).returnCode = 0

theorem argumentOf_preProcCmd (f : DtsFile) :
    argumentOf "-o" (preProcCmd f) = some (preProcOutFile f) := by
  have hmd : "-Wp,-MD," ++ preProcMDFile f ≠ "-o" := by
    intro h
    have hlen := congrArg String.length h
    rw [String.length_append] at hlen
    have h8 : "-Wp,-MD,".length = 8 := by decide
    have h2 : "-o".length = 2 := by decide
    omega
  simp [argumentOf, preProcCmd, hmd]

section TextTools

variable {lib : CheckerLibrary} (gcc dtc : TextTool) {f : DtsFile} {root : DeviceTreeRoot}
  {fs : FileSystem}

/-- The preprocessor reads the sample. -/
theorem execText_preProcCmd {own : Text} (hown : fs.files f.getPath = some own) :
    ∃ run, execText gcc dtc (preProcCmd f) fs = some run ∧
      run.returnCode = (gcc own).returnCode ∧
      run.leaves (preProcOutFile f) = some (gcc own).output := by
  have hinput : (preProcCmd f).getLast?.bind fs.files = some own := hown
  have hhead : (preProcCmd f).head? = some "gcc" := rfl
  refine ⟨_, by rw [execText, hinput], ?_, ?_⟩
  · rw [hhead]
    rfl
  · dsimp only
    rw [argumentOf_preProcCmd, if_pos rfl, hhead, if_pos rfl]

/-- The compiler reads what the preprocessor has left. -/
theorem execText_dtcCmd {text : Text} (htext : fs.files (preProcOutFile f) = some text) :
    ∃ run, execText gcc dtc (dtcCmd f) fs = some run ∧
      run.returnCode = (dtc text).returnCode := by
  have hinput : (dtcCmd f).getLast?.bind fs.files = some text := htext
  have hhead : (dtcCmd f).head? ≠ some "gcc" := by
    rw [dtcCmd, List.head?_cons]
    decide
  refine ⟨_, by rw [execText, hinput], ?_⟩
  dsimp only
  rw [if_neg hhead]

/-- A missing sample fails in the preprocessor. -/
theorem execText_missing (hown : fs.files f.getPath = none) :
    ∃ run, execText gcc dtc (preProcCmd f) fs = some run ∧ run.returnCode = 1 := by
  have hinput : (preProcCmd f).getLast?.bind fs.files = none := hown
  exact ⟨_, by rw [execText, hinput], rfl⟩

/-- The commands end, and answer for the sample. -/
theorem runCommands_execText (f : DtsFile) (fs : FileSystem) :
    ∃ proc fs', (runCommands (execText gcc dtc) f).run fs = .ok proc fs' ∧
      (proc.returnCode = 0 ↔ ∃ own, fs.files f.getPath = some own ∧ Accepts gcc dtc own) := by
  cases hown : fs.files f.getPath with
  | none =>
    obtain ⟨run, hgcc, hcode⟩ := execText_missing gcc dtc hown
    refine ⟨_, _, runCommands_gcc_fails hgcc (by omega), ?_⟩
    have hone : (CmdProc.ofRun (preProcCmd f) run).returnCode = 1 := hcode
    simp [hone]
  | some own =>
    obtain ⟨run, hgcc, hcode, hleaves⟩ := execText_preProcCmd gcc dtc hown
    have haccepts : (∃ own', some own = some own' ∧ Accepts gcc dtc own')
        ↔ Accepts gcc dtc own := by
      simp
    by_cases hzero : run.returnCode = 0
    · -- what the compiler reads is made from the sample
      have hout : (preprocessed f fs run).files (preProcOutFile f) = some (gcc own).output := by
        rw [preprocessed, FileSystem.leave_output _ _ (by simp), hleaves]
      obtain ⟨run', hdtc, hcode'⟩ := execText_dtcCmd gcc dtc hout
      refine ⟨_, _, runCommands_dtc_runs hgcc hzero hdtc, ?_⟩
      rw [haccepts, Accepts, ← hcode, ← hcode']
      exact ⟨fun h => ⟨hzero, h⟩, fun h => h.2⟩
    · refine ⟨_, _, runCommands_gcc_fails hgcc hzero, ?_⟩
      rw [haccepts, Accepts, ← hcode]
      exact ⟨fun h => absurd h hzero, fun h => absurd h.1 hzero⟩

/-- `check_compile_tree` returns the exit code 0. -/
def Succeeds (lib : CheckerLibrary) (exec : Exec) (fs : FileSystem) (f : DtsFile)
    (root : DeviceTreeRoot) : Prop :=
  ∃ proc fs', (checkCompileTree lib exec f root).run fs = .ok proc fs' ∧ proc.returnCode = 0

/-- The tree can be dumped. -/
def Dumps (lib : CheckerLibrary) (root : DeviceTreeRoot) : Prop :=
  ∃ dump, lib.dump root 0 = .ok dump

/-- The tree dumps to a text that the tools accept. -/
def DumpAccepted (lib : CheckerLibrary) (gcc dtc : TextTool) (root : DeviceTreeRoot) : Prop :=
  ∃ dump, lib.dump root 0 = .ok dump ∧ Accepts gcc dtc dump

/-- The tools accept the sample as it is, and the dump can be written next to it. -/
def SampleAccepted (gcc dtc : TextTool) (fs : FileSystem) (f : DtsFile) : Prop :=
  fs.writable (inputFile f) = true ∧ ∃ own, fs.files f.getPath = some own ∧ Accepts gcc dtc own

variable {gcc dtc}

/-- **A success is one of the sample**: the dump is written and never read. -/
theorem succeeds_iff :
    Succeeds lib (execText gcc dtc) fs f root ↔ Dumps lib root ∧ SampleAccepted gcc dtc fs f := by
  cases hdump : lib.dump root 0 with
  | error e =>
    simp [Succeeds, Dumps, checkCompileTree_dump_throws hdump, hdump]
  | ok dump =>
    cases hwrite : fs.writable (inputFile f) with
    | false =>
      simp [Succeeds, SampleAccepted, checkCompileTree_not_writable hdump hwrite, hwrite]
    | true =>
      obtain ⟨proc, fs', hrun, hiff⟩ := runCommands_execText gcc dtc f (dumped f fs dump)
      rw [dumped_getPath] at hiff
      have hreturns : Succeeds lib (execText gcc dtc) fs f root ↔ proc.returnCode = 0 := by
        simp [Succeeds, checkCompileTree_dumped hdump hwrite, hrun]
      rw [hreturns, hiff]
      exact ⟨fun h => ⟨⟨dump, hdump⟩, hwrite, h⟩, fun h => h.2.2⟩

/-- **When a success is one of the dumped text**: when the tools do not accept the sample,
or accept the dump too.  Two trees of which only one dumps to a text the tools accept both
succeed when the tools accept the samples. -/
theorem checkCompileTree_dump_iff (lib : CheckerLibrary) (gcc dtc : TextTool) (fs : FileSystem)
    (f : DtsFile) (root : DeviceTreeRoot) :
    ((Succeeds lib (execText gcc dtc) fs f root → DumpAccepted lib gcc dtc root) ↔
        (SampleAccepted gcc dtc fs f → Dumps lib root → DumpAccepted lib gcc dtc root)) ∧
      ∀ fs' f' root', DumpAccepted lib gcc dtc root →
        Dumps lib root' ∧ ¬ DumpAccepted lib gcc dtc root' →
        (¬ (Succeeds lib (execText gcc dtc) fs f root ∧
            Succeeds lib (execText gcc dtc) fs' f' root') ↔
          ¬ (SampleAccepted gcc dtc fs f ∧ SampleAccepted gcc dtc fs' f')) := by
  constructor
  · rw [succeeds_iff]
    exact ⟨fun h hsample hdumps => h ⟨hdumps, hsample⟩, fun h hs => h hs.2 hs.1⟩
  · intro fs' f' root' haccepted hrejected
    obtain ⟨dump, hdump, -⟩ := haccepted
    rw [succeeds_iff, succeeds_iff]
    refine not_congr ⟨fun h => ⟨h.1.2, h.2.2⟩, fun h => ?_⟩
    exact ⟨⟨⟨dump, hdump⟩, h.1⟩, hrejected.1, h.2⟩

end TextTools

/-- The sample `x.dts` with the text `/{a;};`. -/
def sampleX : DtsFile := ⟨"./samples", "x.dts", by decide⟩

def sampleText : Text := [47, 123, 97, 59, 125, 59]

/-- A folder with the sample only. -/
def sampleFolder : FileSystem where
  files := fun q => if q = "./samples/x.dts" then some sampleText else none
  writable := fun _ => true

/-- A library that dumps a tree with children to nothing. -/
def forgetfulLibrary : CheckerLibrary :=
  { noPathLibrary with
    create := fun _ => .ok attributeRoot
    dump := fun root _ => .ok (if root.children.isEmpty then sampleText else []) }

/-- A preprocessor without directives to follow. -/
def gccCopies : TextTool := fun text => ⟨[], [], 0, text, []⟩

/-- A compiler that rejects the empty text. -/
def dtcNonempty : TextTool := fun text =>
  if text = [] then ⟨[], ["Error: syntax error"], 1, [], []⟩ else ⟨[], [], 0, [], []⟩

theorem sampleAccepted_sampleX : SampleAccepted gccCopies dtcNonempty sampleFolder sampleX :=
  ⟨rfl, sampleText, by decide, by decide, by decide⟩

theorem not_dumpAccepted_attributeRoot :
    ¬ DumpAccepted forgetfulLibrary gccCopies dtcNonempty attributeRoot := by
  intro h
  obtain ⟨dump, hdump, haccepts⟩ := h
  cases hdump
  exact absurd haccepts.2 (by decide)

theorem dumpAccepted_emptyTree :
    DumpAccepted forgetfulLibrary gccCopies dtcNonempty ⟨⟨.TREE, 0, sampleText⟩, []⟩ :=
  ⟨sampleText, rfl, by decide, by decide⟩

/-- The tree of the sample dumps to nothing, and passes. -/
theorem checkCompileTree_ignores_dump :
    sampleFolder.files sampleX.getPath = some sampleText ∧
      forgetfulLibrary.create sampleText = .ok attributeRoot ∧
      ¬ (Succeeds forgetfulLibrary (execText gccCopies dtcNonempty) sampleFolder sampleX
          attributeRoot →
        DumpAccepted forgetfulLibrary gccCopies dtcNonempty attributeRoot) := by
  refine ⟨by decide, rfl, fun h => ?_⟩
  exact not_dumpAccepted_attributeRoot
    (h (succeeds_iff.mpr ⟨⟨[], rfl⟩, sampleAccepted_sampleX⟩))

theorem checkCompileTree_dump_sampleX :
    ¬ (Succeeds forgetfulLibrary (execText gccCopies dtcNonempty) sampleFolder sampleX
          ⟨⟨.TREE, 0, sampleText⟩, []⟩ ∧
        Succeeds forgetfulLibrary (execText gccCopies dtcNonempty) sampleFolder sampleX
          attributeRoot) ↔
      ¬ (SampleAccepted gccCopies dtcNonempty sampleFolder sampleX ∧
        SampleAccepted gccCopies dtcNonempty sampleFolder sampleX) :=
  (checkCompileTree_dump_iff forgetfulLibrary gccCopies dtcNonempty sampleFolder sampleX
    ⟨⟨.TREE, 0, sampleText⟩, []⟩).2 sampleFolder sampleX attributeRoot dumpAccepted_emptyTree
    ⟨⟨[], rfl⟩, not_dumpAccepted_attributeRoot⟩

end Corpus

end SilverTree
