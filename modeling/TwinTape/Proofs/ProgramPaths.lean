import TwinTape.Shell.Folder
import Mathlib.Data.List.Basic

/-! # The file that a path stands for

A path names a folder or the program file in it.  `programPath` takes the name of program files
off the end of the path as a text and puts it below what is left, so what it does depends on the
last component of the path (`lastComponent`).

* If the last component is the name of program files, the path is that of the file already.
* If it does not end in this name, the path is that of a folder and the file lies in it.
* If it is a longer name that ends in this name, the path loses the end of its last component: the
  file is looked for in another folder (`programPath_confuses`).

In each case the result is the path of a program file, which stands for itself
(`programPath_idem`). -/

namespace TwinTape

/-! ### Components -/

/-- What comes after the last slash of a path. -/
def lastComponent (path : List Char) : List Char := (path.reverse.takeWhile (· != '/')).reverse

/-- A name can be put after the path without a slash between them. -/
def TakesName (path : List Char) : Prop := path = [] ∨ path.getLast? = some '/'

theorem lastComponent_append (path : List Char) {name : List Char} (h : '/' ∉ name) :
    lastComponent (path ++ name) = lastComponent path ++ name := by
  have hall : ∀ c ∈ name.reverse, (c != '/') = true := by
    intro c hc
    rw [bne_iff_ne]
    rintro rfl
    exact h (List.mem_reverse.1 hc)
  simp [lastComponent, List.takeWhile_append_of_pos hall]

theorem lastComponent_eq_nil_iff (path : List Char) : lastComponent path = [] ↔ TakesName path := by
  unfold lastComponent TakesName
  rcases List.eq_nil_or_concat path with rfl | ⟨front, c, rfl⟩
  · simp
  · by_cases hc : c = '/' <;> simp [hc]

theorem slash_notMem_programName : '/' ∉ programName := by decide

/-- The name is at the end of a path if and only if it is at the end of the last component. -/
theorem programName_suffix_iff (path : List Char) :
    programName <:+ path ↔ programName <:+ lastComponent path := by
  constructor
  · rintro ⟨front, rfl⟩
    rw [lastComponent_append front slash_notMem_programName]
    exact List.suffix_append _ _
  · intro h
    refine h.trans ?_
    have hprefix := List.takeWhile_prefix (l := path.reverse) (· != '/')
    simpa [lastComponent] using List.reverse_suffix.2 hprefix

/-! ### Names below paths -/

theorem joinPath_of_takesName {path : List Char} (h : TakesName path) (name : List Char) :
    joinPath path name = path ++ name := if_pos h

theorem joinPath_of_not_takesName {path : List Char} (h : ¬ TakesName path) (name : List Char) :
    joinPath path name = path ++ '/' :: name := if_neg h

theorem takesName_append_slash (path : List Char) : TakesName (path ++ ['/']) := by
  simp [TakesName]

theorem exists_joinPath_eq (path name : List Char) :
    ∃ folder, TakesName folder ∧ joinPath path name = folder ++ name := by
  by_cases h : TakesName path
  · exact ⟨path, h, joinPath_of_takesName h name⟩
  · refine ⟨path ++ ['/'], takesName_append_slash path, ?_⟩
    rw [joinPath_of_not_takesName h, List.append_assoc, List.singleton_append]

/-! ### Program files -/

theorem programPath_append (front : List Char) :
    programPath (front ++ programName) = joinPath front programName := by
  have hsuffix : programName.isSuffixOf (front ++ programName) = true :=
    List.isSuffixOf_iff_suffix.2 (List.suffix_append _ _)
  simp [programPath, hsuffix]

theorem programPath_of_not_suffix {path : List Char} (h : ¬ programName <:+ path) :
    programPath path = joinPath path programName := by
  have hsuffix : programName.isSuffixOf path = false := by
    rw [← Bool.not_eq_true, List.isSuffixOf_iff_suffix]
    exact h
  simp [programPath, hsuffix]

theorem programPath_of_takesName {folder : List Char} (h : TakesName folder) :
    programPath (folder ++ programName) = folder ++ programName := by
  rw [programPath_append, joinPath_of_takesName h]

theorem exists_programPath_eq (path : List Char) :
    ∃ front, programPath path = joinPath front programName := by
  by_cases h : programName <:+ path
  · obtain ⟨front, rfl⟩ := h
    exact ⟨front, programPath_append front⟩
  · exact ⟨path, programPath_of_not_suffix h⟩

theorem programPath_idem (path : List Char) :
    programPath (programPath path) = programPath path := by
  obtain ⟨front, hfront⟩ := exists_programPath_eq path
  obtain ⟨folder, htakes, hfolder⟩ := exists_joinPath_eq front programName
  rw [hfront, hfolder, programPath_of_takesName htakes]

theorem programPath_slash (path : List Char) :
    programPath (path ++ ['/']) = path ++ '/' :: programName := by
  have hnot : ¬ programName <:+ path ++ ['/'] := by
    rw [programName_suffix_iff, (lastComponent_eq_nil_iff _).2 (takesName_append_slash path)]
    decide
  rw [programPath_of_not_suffix hnot, joinPath_of_takesName (takesName_append_slash path),
    List.append_assoc, List.singleton_append]

theorem programPath_slash_programName (path : List Char) :
    programPath (path ++ '/' :: programName) = path ++ '/' :: programName := by
  rw [← List.singleton_append, ← List.append_assoc]
  exact programPath_of_takesName (takesName_append_slash path)

/-- A longer name that ends in the name of program files is cut. -/
theorem programPath_of_longer {front : List Char} (h : lastComponent (front ++ programName) ≠
    programName) : programPath (front ++ programName) = front ++ '/' :: programName := by
  have htakes : ¬ TakesName front := by
    rw [← lastComponent_eq_nil_iff]
    intro hnil
    rw [lastComponent_append front slash_notMem_programName, hnil] at h
    exact h rfl
  rw [programPath_append, joinPath_of_not_takesName htakes]

/-- **What a path stands for.**  The path of a program file stands for itself.  For a folder whose
name is not that of program files, the path with a slash and the path of the file stand for the
file in the folder.  The path alone does so exactly if the name of the folder does not end in that
of program files; if it does, the end is cut off, and the path stands for the file in the folder
with the name that is left. -/
theorem programPath_exact (path : List Char) :
    programPath (programPath path) = programPath path ∧
      (path ≠ [] → path.getLast? ≠ some '/' → lastComponent path ≠ programName →
        programPath (path ++ ['/']) = path ++ '/' :: programName ∧
        programPath (path ++ '/' :: programName) = path ++ '/' :: programName ∧
        (programPath path = path ++ '/' :: programName ↔
          ¬ programName <:+ lastComponent path) ∧
        ∀ front, path = front ++ programName → programPath path = front ++ '/' :: programName) := by
  refine ⟨programPath_idem path, fun hne hslash hlast => ⟨programPath_slash path,
    programPath_slash_programName path, ?_, ?_⟩⟩
  · rw [← programName_suffix_iff]
    constructor
    · rintro heq ⟨front, rfl⟩
      rw [programPath_of_longer hlast] at heq
      have hlength := congrArg List.length heq
      simp [programName] at hlength
    · intro hnot
      rw [programPath_of_not_suffix hnot, joinPath_of_not_takesName]
      rintro (h | h)
      · exact hne h
      · exact hslash h
  · rintro front rfl
    exact programPath_of_longer hlast

/-- A folder whose name ends in that of program files. -/
def oldPrograms : List Char := ['a', '/', 'o', 'l', 'd'] ++ programName

/-- Its path stands for a file in another folder. -/
theorem programPath_exact_oldPrograms :
    programPath oldPrograms = ['a', '/', 'o', 'l', 'd', '/'] ++ programName ∧
      programPath (oldPrograms ++ ['/']) = oldPrograms ++ '/' :: programName ∧
      programPath (programPath oldPrograms) = programPath oldPrograms := by
  obtain ⟨hidem, hfolder⟩ := programPath_exact oldPrograms
  obtain ⟨hslash, _, _, hcut⟩ := hfolder (by decide) (by decide) (by decide)
  exact ⟨hcut ['a', '/', 'o', 'l', 'd'] rfl, hslash, hidem⟩

/-- A folder and the folder with a slash after its name are not always the same. -/
theorem programPath_confuses :
    oldPrograms ≠ [] ∧ oldPrograms.getLast? ≠ some '/' ∧ lastComponent oldPrograms ≠ programName ∧
      programPath oldPrograms ≠ oldPrograms ++ '/' :: programName := by
  decide

end TwinTape
