import Mathlib.Data.List.Basic
import GnomeVfs.Result

/- Loading a directory into a list (`gnome-vfs-directory.c`). A file information is anything. -/
namespace GnomeVfs.DirectoryList

variable {α : Type}

/-- The loop of `load_from_handle` over the results of `gnome_vfs_directory_read_next`: the result that
ends it and the list, the last entry first. There is none as long as the directory gives entries. -/
def loadLoop : List α → List (VfsResult × α) → Option (VfsResult × List α)
  | _, [] => none
  | list, (result, info) :: rest => if result ≠ .ok then some (result, list) else loadLoop (info :: list) rest

/-- `load_from_handle`: what it returns, and `*list`. -/
def loadFromHandle (reads : List (VfsResult × α)) : Option (VfsResult × List α) :=
  (loadLoop [] reads).map fun done =>
    let list := done.2.reverse
    let list := if done.1 ≠ .eof then [] else list
    (.ok, list)

/-- `gnome_vfs_directory_list_load`, where opening the directory gives `opened`. What `*list` is before
the call stays there if it is not opened. -/
def gnomeVfsDirectoryListLoad (before : List α) (opened : VfsResult) (reads : List (VfsResult × α)) :
    Option (VfsResult × List α) :=
  if opened ≠ .ok then some (opened, before) else loadFromHandle reads

/-- A directory gives these entries, and then another result than `GNOME_VFS_OK`. -/
def Gives (reads : List (VfsResult × α)) (entries : List α) (result : VfsResult) : Prop :=
  result ≠ .ok ∧ ∃ info rest, reads = entries.map (Prod.mk .ok) ++ (result, info) :: rest

/-- The errors are told: `GNOME_VFS_OK` with all entries for a directory that ends, and else the error with
no list. -/
def Reports (entries : List α) (result : VfsResult) (done : VfsResult × List α) : Prop :=
  done = if result = .eof then (.ok, entries) else (result, [])

variable {reads : List (VfsResult × α)} {entries before : List α} {result : VfsResult}

theorem loadLoop_entries (entries : List α) (list : List α) (rest : List (VfsResult × α)) :
    loadLoop list (entries.map (Prod.mk .ok) ++ rest) = loadLoop (entries.reverse ++ list) rest := by
  induction entries generalizing list with
  | nil => rfl
  | cons info entries ih =>
    rw [List.map_cons, List.cons_append, loadLoop, if_neg (by simp), ih, List.reverse_cons, List.append_assoc]
    rfl

theorem loadFromHandle_eq (gives : Gives reads entries result) :
    loadFromHandle reads = some (.ok, if result = .eof then entries else []) := by
  obtain ⟨failed, info, rest, rfl⟩ := gives
  rw [loadFromHandle, loadLoop_entries, loadLoop, if_pos failed, List.append_nil]
  simp only [Option.map_some, List.reverse_reverse, ne_eq, ite_not]

/-- Loading an opened directory tells the truth exactly if it can be read to its end: all other errors are
`GNOME_VFS_OK` with no list. -/
theorem listLoad_reports_iff (gives : Gives reads entries result) :
    (∃ done, gnomeVfsDirectoryListLoad before .ok reads = some done ∧ Reports entries result done) ↔ result = .eof := by
  rw [gnomeVfsDirectoryListLoad, if_neg (by simp), loadFromHandle_eq gives]
  simp only [Option.some.injEq, exists_eq_left', Reports]
  constructor
  · intro told
    by_contra error
    rw [if_neg error, if_neg error, Prod.mk.injEq] at told
    exact gives.1 told.1.symm
  · intro atEnd
    rw [if_pos atEnd, if_pos atEnd]

theorem listLoad_reports_iff_eof :
    ∃ done, gnomeVfsDirectoryListLoad [] .ok [(.ok, 1), (.ok, 2), (.eof, 0)] = some done ∧ Reports [1, 2] .eof done := by
  have gives : Gives [(.ok, 1), (.ok, 2), (.eof, 0)] [1, 2] .eof := ⟨by decide, 0, [], rfl⟩
  exact (listLoad_reports_iff gives).mpr rfl

/-- A directory that cannot be read any further is loaded as an empty one. -/
theorem listLoad_swallows : gnomeVfsDirectoryListLoad [] .ok [(.ok, 1), (.accessDenied, 0)] = some (.ok, []) ∧
    ¬ Reports [1] .accessDenied (VfsResult.ok, []) := by
  refine ⟨rfl, ?_⟩
  rw [Reports, if_neg (by decide)]
  decide

end GnomeVfs.DirectoryList
