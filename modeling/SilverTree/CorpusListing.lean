import SilverTree.CorpusRun
import Mathlib.Data.List.Nodup

/-!
# The samples of a folder

`listFilesForFolder` walks through a folder and its subfolders.  Its files are the samples
of the tests, numbered in the order in which they are listed.  The tests that a run makes
are recorded beside its state, which changes nothing else in the run.

## Main definitions

* `Lists folder entries f` — `f` is a device tree source somewhere below the folder.
* `WellNamed entries` — the names in each folder are different, and have no slash.
* `logged`, `unlogged` — tests that are recorded, and writes beside the record.

## Main results

* `mem_listFileEntries` — **the files that are listed** are the device tree sources.
* `nodup_listFileEntries` — no path is listed twice.
* `main_tests_once` — **a run tests no sample twice**, and all of them when it gets to its end.
-/

namespace SilverTree

namespace Corpus

/-- `File.getName`. -/
def FileEntry.getName : FileEntry → String
  | .file name => name
  | .directory name _ => name

/-- A device tree source in a folder or below it. -/
inductive Lists : String → List FileEntry → DtsFile → Prop
  | file {folder name : String} {entries : List FileEntry} (h : ".dts".toList <:+ name.toList) :
      FileEntry.file name ∈ entries → Lists folder entries ⟨folder, name, h⟩
  | directory {folder name : String} {entries below : List FileEntry} {f : DtsFile} :
      FileEntry.directory name (some below) ∈ entries → Lists (folder ++ "/" ++ name) below f →
      Lists folder entries f

/-- The device tree sources at one entry of a folder. -/
def ListsAt (folder : String) (f : DtsFile) : FileEntry → Prop
  | .file name => ∃ h, f = ⟨folder, name, h⟩
  | .directory _ none => False
  | .directory name (some below) => Lists (folder ++ "/" ++ name) below f

theorem not_lists_nil {folder : String} {f : DtsFile} : ¬ Lists folder [] f := by
  intro h
  cases h with
  | file _ hmem => cases hmem
  | directory hmem _ => cases hmem

theorem lists_cons_iff {folder : String} {e : FileEntry} {rest : List FileEntry} {f : DtsFile} :
    Lists folder (e :: rest) f ↔ ListsAt folder f e ∨ Lists folder rest f := by
  constructor
  · intro h
    cases h with
    | file hdts hmem =>
      rcases List.mem_cons.mp hmem with rfl | hmem
      · exact Or.inl ⟨hdts, rfl⟩
      · exact Or.inr (.file hdts hmem)
    | directory hmem hbelow =>
      rcases List.mem_cons.mp hmem with rfl | hmem
      · exact Or.inl hbelow
      · exact Or.inr (.directory hmem hbelow)
  · intro h
    rcases h with hat | hrest
    · cases e with
      | file name =>
        obtain ⟨hdts, rfl⟩ := hat
        exact .file hdts (List.mem_cons_self ..)
      | directory name listFiles =>
        cases listFiles with
        | none => exact absurd hat id
        | some below => exact .directory (List.mem_cons_self ..) hat
    · cases hrest with
      | file hdts hmem => exact .file hdts (List.mem_cons_of_mem _ hmem)
      | directory hmem hbelow => exact .directory (List.mem_cons_of_mem _ hmem) hbelow

/-- A folder that is listed is listed entry by entry. -/
theorem listFileEntries_cons_ok {folder : String} {e : FileEntry} {rest : List FileEntry}
    {dtsFiles : List DtsFile} (h : listFileEntries folder (e :: rest) = .ok dtsFiles) :
    ∃ here after, listFileEntry folder e = .ok here ∧ listFileEntries folder rest = .ok after ∧
      dtsFiles = here ++ after := by
  rw [listFileEntries] at h
  cases hhere : listFileEntry folder e with
  | error ex =>
    rw [hhere] at h
    cases h
  | ok here =>
    rw [hhere] at h
    cases hafter : listFileEntries folder rest with
    | error ex =>
      rw [hafter] at h
      cases h
    | ok after =>
      rw [hafter] at h
      cases h
      exact ⟨here, after, rfl, rfl, rfl⟩

mutual

/-- **The files that are listed** are the device tree sources below the folder. -/
theorem mem_listFileEntries (f : DtsFile) : ∀ (entries : List FileEntry) (folder : String)
    (dtsFiles : List DtsFile), listFileEntries folder entries = .ok dtsFiles →
      (f ∈ dtsFiles ↔ Lists folder entries f)
  | [], folder, dtsFiles, h => by
    rw [listFileEntries] at h
    cases h
    exact iff_of_false List.not_mem_nil not_lists_nil
  | e :: rest, folder, dtsFiles, h => by
    obtain ⟨here, after, hhere, hafter, rfl⟩ := listFileEntries_cons_ok h
    rw [List.mem_append, mem_listFileEntry f e folder here hhere,
      mem_listFileEntries f rest folder after hafter, lists_cons_iff]

theorem mem_listFileEntry (f : DtsFile) : ∀ (e : FileEntry) (folder : String)
    (dtsFiles : List DtsFile), listFileEntry folder e = .ok dtsFiles →
      (f ∈ dtsFiles ↔ ListsAt folder f e)
  | .file name, folder, dtsFiles, h => by
    rw [listFileEntry] at h
    cases h
    rw [ListsAt]
    split
    next hdts =>
      refine List.mem_singleton.trans ⟨fun heq => ⟨hdts, heq⟩, ?_⟩
      rintro ⟨_, heq⟩
      exact heq
    next hdts =>
      refine iff_of_false List.not_mem_nil ?_
      rintro ⟨h, -⟩
      exact hdts h
  | .directory name none, folder, dtsFiles, h => by
    rw [listFileEntry] at h
    cases h
  | .directory name (some below), folder, dtsFiles, h => by
    rw [listFileEntry] at h
    rw [mem_listFileEntries f below _ dtsFiles h, ListsAt]

end

/-! ### Paths -/

/-- The path of a file below a folder starts with that of the folder. -/
theorem Lists.getPath_eq {folder : String} {entries : List FileEntry} {f : DtsFile}
    (h : Lists folder entries f) : ∃ t, f.getPath.toList = folder.toList ++ '/' :: t := by
  have hslash : "/".toList = ['/'] := by decide
  induction h with
  | @file folder name _ _ _ =>
    exact ⟨name.toList, by simp [DtsFile.getPath, String.toList_append, hslash]⟩
  | @directory folder name _ _ f _ _ ih =>
    obtain ⟨t, ht⟩ := ih
    refine ⟨name.toList ++ '/' :: t, ?_⟩
    rw [ht]
    simp [String.toList_append, hslash]

/-- The path of a file at an entry goes on with the name of the entry. -/
theorem ListsAt.getPath_eq {folder : String} {e : FileEntry} {f : DtsFile}
    (h : ListsAt folder f e) :
    ∃ t, f.getPath.toList = folder.toList ++ '/' :: (e.getName.toList ++ t) ∧
      (t = [] ∨ t.head? = some '/') := by
  have hslash : "/".toList = ['/'] := by decide
  cases e with
  | file name =>
    obtain ⟨hdts, rfl⟩ := h
    exact ⟨[], by simp [DtsFile.getPath, String.toList_append, hslash, FileEntry.getName],
      Or.inl rfl⟩
  | directory name listFiles =>
    cases listFiles with
    | none => exact absurd h id
    | some below =>
      obtain ⟨t, ht⟩ := Lists.getPath_eq h
      refine ⟨'/' :: t, ?_, Or.inr rfl⟩
      rw [ht]
      simp [String.toList_append, hslash, FileEntry.getName]

/-- A name without a slash is all that stands before the first slash. -/
theorem name_unique : ∀ {n n' t t' : List Char}, '/' ∉ n → '/' ∉ n' →
    (t = [] ∨ t.head? = some '/') → (t' = [] ∨ t'.head? = some '/') → n ++ t = n' ++ t' →
    n = n' := by
  intro n
  induction n with
  | nil =>
    intro n' t t' _ hn' ht _ h
    cases n' with
    | nil => rfl
    | cons c n' =>
      -- the first character of the other name would be a slash
      rw [List.nil_append] at h
      subst h
      rcases ht with ht | ht
      · cases ht
      · rw [List.cons_append, List.head?_cons, Option.some.injEq] at ht
        exact absurd (by simp [ht]) hn'
  | cons c n ih =>
    intro n' t t' hn hn' ht ht' h
    cases n' with
    | nil =>
      rw [List.nil_append] at h
      subst h
      rcases ht' with ht' | ht'
      · cases ht'
      · rw [List.cons_append, List.head?_cons, Option.some.injEq] at ht'
        exact absurd (by simp [ht']) hn
    | cons c' n' =>
      obtain ⟨hc, htail⟩ := List.cons.inj h
      rw [hc, ih (fun hmem => hn (List.mem_cons_of_mem _ hmem))
        (fun hmem => hn' (List.mem_cons_of_mem _ hmem)) ht ht' htail]

/-- Files at two entries of a folder have different paths. -/
theorem getName_eq_of_getPath_eq {folder : String} {e e' : FileEntry} {f f' : DtsFile}
    (he : '/' ∉ e.getName.toList) (he' : '/' ∉ e'.getName.toList) (h : ListsAt folder f e)
    (h' : ListsAt folder f' e') (hpath : f.getPath = f'.getPath) : e.getName = e'.getName := by
  obtain ⟨t, ht, hslash⟩ := h.getPath_eq
  obtain ⟨t', ht', hslash'⟩ := h'.getPath_eq
  rw [hpath, ht'] at ht
  have htail := (List.cons.inj (List.append_cancel_left ht)).2
  exact String.toList_injective (name_unique he he' hslash hslash' htail.symm)

/-! ### Each sample once -/

mutual

/-- The names in a folder are different and have no slash, and so on in its subfolders. -/
def WellNamed : List FileEntry → Prop
  | [] => True
  | e :: rest =>
    '/' ∉ e.getName.toList ∧ (∀ e' ∈ rest, e'.getName ≠ e.getName) ∧ WellNamedEntry e ∧
      WellNamed rest

def WellNamedEntry : FileEntry → Prop
  | .file _ => True
  | .directory _ none => True
  | .directory _ (some below) => WellNamed below

end

theorem slash_not_mem_of_wellNamed : ∀ {entries : List FileEntry}, WellNamed entries →
    ∀ e ∈ entries, '/' ∉ e.getName.toList := by
  intro entries
  induction entries with
  | nil => exact fun _ e hmem => absurd hmem List.not_mem_nil
  | cons e rest ih =>
    intro h e' hmem
    rw [WellNamed] at h
    rcases List.mem_cons.mp hmem with rfl | hmem
    · exact h.1
    · exact ih h.2.2.2 e' hmem

/-- What is listed below a folder is listed at one of its entries. -/
theorem Lists.exists_listsAt {folder : String} {f : DtsFile} : ∀ {entries : List FileEntry},
    Lists folder entries f → ∃ e ∈ entries, ListsAt folder f e := by
  intro entries
  induction entries with
  | nil => exact fun h => absurd h not_lists_nil
  | cons e rest ih =>
    intro h
    rcases lists_cons_iff.mp h with hat | hrest
    · exact ⟨e, List.mem_cons_self .., hat⟩
    · obtain ⟨e', hmem, hat⟩ := ih hrest
      exact ⟨e', List.mem_cons_of_mem _ hmem, hat⟩

mutual

/-- No path is listed twice. -/
theorem nodup_listFileEntries : ∀ (entries : List FileEntry) (folder : String)
    (dtsFiles : List DtsFile), WellNamed entries → listFileEntries folder entries = .ok dtsFiles →
      (dtsFiles.map DtsFile.getPath).Nodup
  | [], folder, dtsFiles, _, h => by
    rw [listFileEntries] at h
    cases h
    exact List.nodup_nil
  | e :: rest, folder, dtsFiles, hnames, h => by
    rw [WellNamed] at hnames
    obtain ⟨hslash, hnames, hentry, hrest⟩ := hnames
    obtain ⟨here, after, hhere, hafter, rfl⟩ := listFileEntries_cons_ok h
    rw [List.map_append, List.nodup_append]
    refine ⟨nodup_listFileEntry e folder here hentry hhere,
      nodup_listFileEntries rest folder after hrest hafter, ?_⟩
    -- a path at this entry is none at the others
    intro path hpath path' hpath' heq
    obtain ⟨f, hf, rfl⟩ := List.mem_map.mp hpath
    obtain ⟨f', hf', rfl⟩ := List.mem_map.mp hpath'
    rw [mem_listFileEntry f e folder here hhere] at hf
    rw [mem_listFileEntries f' rest folder after hafter] at hf'
    obtain ⟨e', hmem, hat⟩ := hf'.exists_listsAt
    have hslash' := slash_not_mem_of_wellNamed hrest e' hmem
    exact hnames e' hmem (getName_eq_of_getPath_eq hslash hslash' hf hat heq).symm

theorem nodup_listFileEntry : ∀ (e : FileEntry) (folder : String) (dtsFiles : List DtsFile),
    WellNamedEntry e → listFileEntry folder e = .ok dtsFiles →
      (dtsFiles.map DtsFile.getPath).Nodup
  | .file name, folder, dtsFiles, _, h => by
    rw [listFileEntry] at h
    cases h
    split
    · exact List.nodup_singleton _
    · exact List.nodup_nil
  | .directory name none, folder, dtsFiles, _, h => by
    rw [listFileEntry] at h
    cases h
  | .directory name (some below), folder, dtsFiles, hnames, h => by
    rw [listFileEntry] at h
    exact nodup_listFileEntries below _ dtsFiles hnames h

end

/-- The selected samples are some of those that are listed, in this order. -/
theorem selected_sublist (testList : List ℤ) (dtsFiles : List DtsFile) :
    ((selected testList dtsFiles).map Prod.fst).Sublist dtsFiles := by
  have hsub : (selected testList dtsFiles).Sublist dtsFiles.zipIdx := List.filter_sublist
  have hmap := hsub.map Prod.fst
  rwa [List.zipIdx_map_fst] at hmap

/-- Without arguments, all samples are selected. -/
theorem selected_nil (dtsFiles : List DtsFile) :
    (selected [] dtsFiles).map Prod.fst = dtsFiles := by
  have hall : selected [] dtsFiles = dtsFiles.zipIdx := by
    rw [selected, selectedFrom, List.filter_eq_self]
    exact fun x _ => rfl
  rw [hall, List.zipIdx_map_fst]

/-! ### The tests of a run -/

section Logged

variable {σ : Type} (runTest : DtsFile → σ → Option CmdProc × σ)
  (writeString : String → String → σ → Except JavaException Unit × σ) (ratio : ℕ → ℕ → String)
  (testList : List ℤ)

/-- A test that is recorded beside the state. -/
def logged (f : DtsFile) (s : σ × List DtsFile) : Option CmdProc × σ × List DtsFile :=
  ((runTest f s.1).1, (runTest f s.1).2, s.2 ++ [f])

/-- A write beside the record. -/
def unlogged (path content : String) (s : σ × List DtsFile) :
    Except JavaException Unit × σ × List DtsFile :=
  ((writeString path content s.1).1, (writeString path content s.1).2, s.2)

/-- **The tests of the loop**: the selected samples in their order, all of them when the loop
gets to its end. -/
theorem testLoop_logged : ∀ (dtsFiles : List DtsFile) (n : ℕ) (statistics : List TestLine) (k : ℕ)
    (s : σ) (log : List DtsFile), ∃ result s' tests,
      testLoop (logged runTest) testList dtsFiles n statistics k (s, log)
        = (result, s', log ++ tests) ∧
      testLoop runTest testList dtsFiles n statistics k s = (result, s') ∧
      tests <+: (selectedFrom testList n dtsFiles).map Prod.fst ∧
      ((∃ r, result = .ok r) → tests = (selectedFrom testList n dtsFiles).map Prod.fst) := by
  intro dtsFiles
  induction dtsFiles with
  | nil =>
    intro n statistics k s log
    exact ⟨_, s, [], by rw [testLoop, List.append_nil], by rw [testLoop], List.nil_prefix,
      fun _ => rfl⟩
  | cons dtsFile rest ih =>
    intro n statistics k s log
    rw [selectedFrom_cons]
    by_cases hsel : isSelected testList n = true
    · rw [if_pos hsel, List.map_cons]
      cases hrun : runTest dtsFile s with
      | mk proc s₁ =>
        cases proc with
        | none =>
          refine ⟨.error .nullPointer, s₁, [dtsFile], ?_, ?_, ?_, ?_⟩
          · simp [testLoop, hsel, logged, hrun]
          · simp [testLoop, hsel, hrun]
          · exact List.cons_prefix_cons.mpr ⟨rfl, List.nil_prefix⟩
          · rintro ⟨r, hr⟩
            cases hr
        | some proc =>
          have hlogged : logged runTest dtsFile (s, log) = (some proc, s₁, log ++ [dtsFile]) := by
            rw [logged, hrun]
          rw [testLoop_returns runTest testList hsel hrun,
            testLoop_returns (logged runTest) testList hsel hlogged]
          obtain ⟨result, s', tests, hlog, hloop, hprefix, hall⟩ :=
            ih (n + 1) (statistics ++ [lineOf (dtsFile, n) proc])
              (k + ([proc].filter CmdProc.succeeded).length) s₁ (log ++ [dtsFile])
          refine ⟨result, s', dtsFile :: tests, ?_, hloop, ?_, ?_⟩
          · rw [hlog, List.append_assoc, List.singleton_append]
          · exact List.cons_prefix_cons.mpr ⟨rfl, hprefix⟩
          · intro hok
            rw [hall hok]
    · rw [if_neg hsel, testLoop, testLoop, if_neg hsel, if_neg hsel]
      exact ih (n + 1) statistics k s log

/-- The record goes through the write as it is. -/
theorem writeReport_unlogged (report : Report) (s : σ) (log : List DtsFile) : ∃ result s',
    writeReport (unlogged writeString) ratio report (s, log) = (result, s', log) ∧
      writeReport writeString ratio report s = (result, s') := by
  unfold writeReport unlogged
  cases writeString statisticsFile (report.text ratio) s with
  | mk outcome s' => cases outcome <;> exact ⟨_, s', rfl, rfl⟩

/-- The record has the selected samples up to the end of the run. -/
theorem runTests_logged (dtsFiles : List DtsFile) (s : σ) : ∃ result s' tests,
    runTests (logged runTest) (unlogged writeString) ratio testList dtsFiles (s, [])
      = (result, s', tests) ∧
    runTests runTest writeString ratio testList dtsFiles s = (result, s') ∧
    tests <+: (selected testList dtsFiles).map Prod.fst ∧
    ((∃ report, result = .ok report) → tests = (selected testList dtsFiles).map Prod.fst) := by
  obtain ⟨result, s₁, tests, hlog, hloop, hprefix, hall⟩ :=
    testLoop_logged runTest testList dtsFiles 0 [] 0 s []
  rw [List.nil_append] at hlog
  cases result with
  | error e =>
    refine ⟨.error e, s₁, tests, by rw [runTests, hlog], by rw [runTests, hloop], hprefix, ?_⟩
    rintro ⟨report, hreport⟩
    cases hreport
  | ok r =>
    obtain ⟨statistics, numOfSucc, testNum⟩ := r
    obtain ⟨result, s', hlogged, hplain⟩ := writeReport_unlogged writeString ratio
      ⟨statistics, numOfSucc, testNum + 1, dtsFiles.length⟩ s₁ tests
    exact ⟨result, s', tests, by rw [runTests, hlog]; exact hlogged,
      by rw [runTests, hloop]; exact hplain, hprefix, fun _ => hall ⟨_, rfl⟩⟩

end Logged

/-- **A run tests no sample twice.**  Whatever the arguments, the tests and the write do, the
tests it makes, recorded in a run that is the same otherwise, are of device tree sources below
the folder of the samples, no two of the same path; a run without arguments that gets to its
end has tested all of these. -/
theorem main_tests_once {σ : Type} (parseInt : String → Option ℤ)
    (runTest : DtsFile → σ → Option CmdProc × σ)
    (writeString : String → String → σ → Except JavaException Unit × σ) (ratio : ℕ → ℕ → String)
    (args : List String) {samples : List FileEntry} (hnames : WellNamed samples) (s : σ) :
    ∃ result s' tests,
      main parseInt (logged runTest) (unlogged writeString) ratio args (some samples) (s, [])
        = (result, s', tests) ∧
      main parseInt runTest writeString ratio args (some samples) s = (result, s') ∧
      (tests.map DtsFile.getPath).Nodup ∧ (∀ f ∈ tests, Lists "./samples" samples f) ∧
      (args = [] → (∃ report, result = .ok report) →
        ∀ f, Lists "./samples" samples f → f ∈ tests) := by
  unfold main
  cases hargs : parseArgs parseInt args with
  | error e =>
    refine ⟨.error e, s, [], rfl, rfl, List.nodup_nil, fun f hf => absurd hf List.not_mem_nil, ?_⟩
    rintro - ⟨report, hreport⟩
    cases hreport
  | ok testList =>
    dsimp only
    rw [listFilesForFolder]
    cases hlist : listFileEntries "./samples" samples with
    | error e =>
      refine ⟨.error e, s, [], rfl, rfl, List.nodup_nil,
        fun f hf => absurd hf List.not_mem_nil, ?_⟩
      rintro - ⟨report, hreport⟩
      cases hreport
    | ok dtsFiles =>
      obtain ⟨result, s', tests, hlog, hrun, hprefix, hall⟩ :=
        runTests_logged runTest writeString ratio testList dtsFiles s
      have hsub := hprefix.sublist.trans (selected_sublist testList dtsFiles)
      have hmem := fun f => mem_listFileEntries f samples "./samples" dtsFiles hlist
      refine ⟨result, s', tests, hlog, hrun, ?_, fun f hf => (hmem f).mp (hsub.subset hf), ?_⟩
      · exact (nodup_listFileEntries samples _ dtsFiles hnames hlist).sublist (hsub.map _)
      · intro hnil hok f hf
        subst hnil
        cases hargs
        rw [hall hok, selected_nil]
        exact (hmem f).mpr hf

/-- A folder with `x.dts`, a subfolder with another `x.dts`, and some notes. -/
def nestedSamples : List FileEntry :=
  [.file "x.dts", .directory "sub" (some [.file "notes.txt", .file "x.dts"])]

theorem wellNamed_nestedSamples : WellNamed nestedSamples := by
  simp [nestedSamples, WellNamed, WellNamedEntry, FileEntry.getName]

/-- Without arguments, and with tests that all succeed, the `x.dts` of the subfolder is
tested. -/
theorem main_tests_once_nestedSamples :
    ∃ result s' tests,
      main (fun _ => none) (logged fun _ (s : Unit) => (some .empty, s))
        (unlogged fun _ _ s => (.ok (), s)) (fun _ _ => "1.0") [] (some nestedSamples) ((), [])
          = (result, s', tests) ∧
      (tests.map DtsFile.getPath).Nodup ∧ ⟨"./samples/sub", "x.dts", by decide⟩ ∈ tests := by
  obtain ⟨result, s', tests, hlog, hrun, hnodup, -, hall⟩ :=
    main_tests_once (fun _ => none) (fun _ (s : Unit) => (some .empty, s))
      (fun _ _ s => (.ok (), s)) (fun _ _ => "1.0") [] wellNamed_nestedSamples ()
  refine ⟨result, s', tests, hlog, hnodup, hall rfl ⟨_, (congrArg Prod.fst hrun).symm⟩ _ ?_⟩
  refine .directory (List.mem_cons_of_mem _ (List.mem_singleton.mpr rfl)) ?_
  exact .file (by decide) (List.mem_cons_of_mem _ (List.mem_singleton.mpr rfl))

end Corpus

end SilverTree
