import SilverTree.Leaves
import SilverTree.ReplaceAll

/-!
# Samples and scratch files

The tests of the plug-in run the parser over a folder of device tree sources, its
samples.  A test writes scratch files into the folder of its sample, under names derived
from its own: two get a prefix, and in the path of two others every `.dts` is replaced.

## Main definitions

* `FileSystem` — the files of the machine.
* `DtsFile` — a sample; its name ends in `.dts`.
* `inputFile`, `outputFile`, `preProcOutFile`, `preProcMDFile` — its scratch files.

## Main results

* `getPath_not_mem_scratchFiles` — **a sample is none of its own scratch files.**
* `slash_mem_of_mem_scratchFiles` — a scratch file is in a folder.
-/

namespace SilverTree

namespace Corpus

/-! ### Files -/

/-- The files of the machine: their contents, and where a file can be opened for writing. -/
structure FileSystem where
  files : String → Option Text
  writable : String → Bool

/-- The file system with other content at one path; `none` removes the file. -/
def FileSystem.set (fs : FileSystem) (path : String) (content : Option Text) : FileSystem :=
  { fs with files := fun q => if q = path then content else fs.files q }

/-- The file system after a command that leaves `contents` at its output paths. -/
def FileSystem.leave (fs : FileSystem) (outputs : List String) (contents : String → Option Text) :
    FileSystem :=
  { fs with files := fun q => if q ∈ outputs then contents q else fs.files q }

@[simp] theorem FileSystem.set_same (fs : FileSystem) (path : String) (content : Option Text) :
    (fs.set path content).files path = content := if_pos rfl

theorem FileSystem.set_other (fs : FileSystem) {path q : String} (content : Option Text)
    (h : q ≠ path) : (fs.set path content).files q = fs.files q := if_neg h

theorem FileSystem.leave_output (fs : FileSystem) {outputs : List String} {q : String}
    (contents : String → Option Text) (h : q ∈ outputs) :
    (fs.leave outputs contents).files q = contents q := if_pos h

theorem FileSystem.leave_other (fs : FileSystem) {outputs : List String} {q : String}
    (contents : String → Option Text) (h : q ∉ outputs) :
    (fs.leave outputs contents).files q = fs.files q := if_neg h

/-- A sample: a file that `listFilesForFolder` lists, by its folder and its name. -/
structure DtsFile where
  parent : String
  name : String
  isDts : ".dts".toList <:+ name.toList

/-- `getPath`. -/
def DtsFile.getPath (f : DtsFile) : String := f.parent ++ "/" ++ f.name

/-- `String.replace`. -/
def replace (s old new : String) : String :=
  String.ofList (ReplaceAll.replaceAll old.toList new.toList s.toList)

/-- The file the dump is written to. -/
def inputFile (f : DtsFile) : String := f.parent ++ "/input-" ++ f.name

/-- The output of `dtc`. -/
def outputFile (f : DtsFile) : String := f.parent ++ "/output" ++ f.name

/-- The output of the preprocessor. -/
def preProcOutFile (f : DtsFile) : String := replace f.getPath ".dts" ".tmp"

/-- The dependencies the preprocessor writes. -/
def preProcMDFile (f : DtsFile) : String := replace f.getPath ".dts" ".pre.tmp"

/-! ### The scratch paths are different -/

theorem length_inputFile (f : DtsFile) : (inputFile f).length = f.getPath.length + 6 := by
  simp only [inputFile, DtsFile.getPath, String.length_append]
  have h : "/input-".length = "/".length + 6 := by decide
  omega

theorem length_outputFile (f : DtsFile) : (outputFile f).length = f.getPath.length + 6 := by
  simp only [outputFile, DtsFile.getPath, String.length_append]
  have h : "/output".length = "/".length + 6 := by decide
  omega

theorem dts_infix_getPath (f : DtsFile) : ".dts".toList <:+: f.getPath.toList := by
  rw [DtsFile.getPath, String.toList_append]
  exact (f.isDts.trans (List.suffix_append _ _)).isInfix

/-- The path of a sample has an occurrence of `.dts` to replace. -/
theorem occurrences_getPath_pos (f : DtsFile) :
    0 < ReplaceAll.occurrences ".dts".toList f.getPath.toList :=
  ReplaceAll.occurrences_pos (by decide) (dts_infix_getPath f)

theorem length_replace_getPath (f : DtsFile) (new : String) :
    (replace f.getPath ".dts" new).length
        + ReplaceAll.occurrences ".dts".toList f.getPath.toList * 4
      = f.getPath.length
        + ReplaceAll.occurrences ".dts".toList f.getPath.toList * new.length := by
  have hold : ".dts".toList ≠ [] := by decide
  have h := ReplaceAll.length_replaceAll new.toList hold f.getPath.toList
  have hlen : ".dts".toList.length = 4 := by decide
  rw [hlen, String.length_toList, String.length_toList] at h
  rwa [replace, String.length_ofList]

theorem length_preProcOutFile (f : DtsFile) : (preProcOutFile f).length = f.getPath.length := by
  have h := length_replace_getPath f ".tmp"
  have hlen : ".tmp".length = 4 := by decide
  rw [hlen] at h
  exact Nat.add_right_cancel h

theorem length_preProcMDFile (f : DtsFile) :
    (preProcMDFile f).length = f.getPath.length
      + ReplaceAll.occurrences ".dts".toList f.getPath.toList * 4 := by
  have h := length_replace_getPath f ".pre.tmp"
  have hlen : ".pre.tmp".length = 8 := by decide
  rw [hlen] at h
  rw [preProcMDFile]
  omega

/-- The scratch files of a sample. -/
def scratchFiles (f : DtsFile) : List String :=
  [inputFile f, outputFile f, preProcOutFile f, preProcMDFile f]

section Prefixed

-- the paths with a prefix before the name are longer than the sample's by six
variable {f : DtsFile} {path : String} (h : path.length = f.getPath.length + 6)
include h

theorem ne_getPath_of_length : path ≠ f.getPath := by
  intro heq
  rw [heq] at h
  omega

theorem ne_preProcOutFile_of_length : path ≠ preProcOutFile f := by
  intro heq
  have hout := length_preProcOutFile f
  rw [heq] at h
  omega

/-- The dependencies' path is longer than the sample's by a multiple of four. -/
theorem ne_preProcMDFile_of_length : path ≠ preProcMDFile f := by
  intro heq
  have hmd := length_preProcMDFile f
  rw [heq] at h
  omega

end Prefixed

theorem inputFile_ne_getPath (f : DtsFile) : inputFile f ≠ f.getPath :=
  ne_getPath_of_length (length_inputFile f)

theorem inputFile_ne_preProcOutFile (f : DtsFile) : inputFile f ≠ preProcOutFile f :=
  ne_preProcOutFile_of_length (length_inputFile f)

theorem inputFile_ne_preProcMDFile (f : DtsFile) : inputFile f ≠ preProcMDFile f :=
  ne_preProcMDFile_of_length (length_inputFile f)

/-- Both have the length of the path, but the first occurrence of `.dts` is replaced. -/
theorem preProcOutFile_ne_getPath (f : DtsFile) : preProcOutFile f ≠ f.getPath := by
  intro h
  have hne := ReplaceAll.replaceAll_ne_self (α := Char) ".tmp".toList (by decide) (by decide)
    (by decide) (dts_infix_getPath f)
  have htoList := congrArg String.toList h
  rw [preProcOutFile, replace, String.toList_ofList] at htoList
  exact hne htoList

theorem preProcMDFile_ne_getPath (f : DtsFile) : preProcMDFile f ≠ f.getPath := by
  intro h
  have hlen := length_preProcMDFile f
  have hpos := occurrences_getPath_pos f
  rw [h] at hlen
  omega

/-- **A sample is none of its own scratch files.** -/
theorem getPath_not_mem_scratchFiles (f : DtsFile) : f.getPath ∉ scratchFiles f := by
  simp only [scratchFiles, List.mem_cons, List.not_mem_nil, or_false, not_or]
  exact ⟨(inputFile_ne_getPath f).symm, (ne_getPath_of_length (length_outputFile f)).symm,
    (preProcOutFile_ne_getPath f).symm, (preProcMDFile_ne_getPath f).symm⟩

/-- A scratch file is in a folder, that of its sample. -/
theorem slash_mem_of_mem_scratchFiles {f : DtsFile} {q : String} (h : q ∈ scratchFiles f) :
    '/' ∈ q.toList := by
  have hpath : '/' ∈ f.getPath.toList := by simp [DtsFile.getPath, String.toList_append]
  simp only [scratchFiles, List.mem_cons, List.not_mem_nil, or_false] at h
  rcases h with rfl | rfl | rfl | rfl
  · simp [inputFile, String.toList_append]
  · simp [outputFile, String.toList_append]
  · rw [preProcOutFile, replace, String.toList_ofList]
    exact ReplaceAll.mem_replaceAll _ (by decide) (by decide) hpath
  · rw [preProcMDFile, replace, String.toList_ofList]
    exact ReplaceAll.mem_replaceAll _ (by decide) (by decide) hpath

end Corpus

end SilverTree
