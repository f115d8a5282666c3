import WsHyper.Lib.Path

/-!
# Normal forms of names

Directories keep letters, digits, `_` and `.`; files keep everything but U+FFFD.
Both lose their leading `-`.  A name that loses everything gets a new one with a
random part, the argument `nanoid`.
-/

namespace WsHyper.Directory

open WsHyper.Lib WsHyper.Lib.Text

structure Rename where
  parent : Path
  fromName : Str
  toName : Str
  deriving DecidableEq

inductive RenameDecision
  | needRestore
  | yes (rename : Rename)
  | not (fileName : Str)
  | fail
  deriving DecidableEq

inductive RenameError
  | invalidPath (path : Path)
  | invalidParent (path : Path)
  deriving DecidableEq

/-- The characters that `NAME_ALLOWED` leaves alone. -/
def nameAllowed (c : Char) : Bool := c.isAlphanum || c = '_' || c = '.'

def renameTo (path : Path) (fromName toName : Str) : Except RenameError RenameDecision :=
  match path.parent with
  | some parent => .ok (.yes { parent, fromName, toName })
  | none => .error (.invalidParent path)

namespace NormalizePathUtf8

/-- `INVALID_NAME-` -/
def invalidName : Str :=
  ['I', 'N', 'V', 'A', 'L', 'I', 'D', '_', 'N', 'A', 'M', 'E', '-']

/-- The name with everything that is not allowed replaced; it may be empty. -/
def newName (fileName : Str) : Str :=
  (trimStart '-' fileName).map fun c => if nameAllowed c then c else '_'

def run (newPath : Bool) (nanoid : Str) (path : Path) : Except RenameError RenameDecision :=
  match path.fileName.map OsStr.toStringLossy with
  | none => .error (.invalidPath path)
  | some fileName =>
      if newName fileName ≠ [] then
        if fileName ≠ newName fileName then renameTo path fileName (newName fileName)
        else .ok (.not (newName fileName))
      else if newPath then renameTo path fileName (invalidName ++ nanoid)
      else .ok .needRestore

end NormalizePathUtf8

namespace NormalizeFileUtf8

/-- `.unknown` -/
def unknown : Str := ['.', 'u', 'n', 'k', 'n', 'o', 'w', 'n']

/-- The name without leading `-` and with `_` for U+FFFD; it may be empty. -/
def cleanName (name : Str) : Str :=
  (trimStart '-' name).map fun c => if c = Char.ofNat 0xFFFD then '_' else c

def newName (nanoid name : Str) : Str :=
  if cleanName name ≠ [] then cleanName name else nanoid ++ unknown

def run (nanoid : Str) (path : Path) : Except RenameError RenameDecision :=
  match path.fileName.map OsStr.toStringLossy with
  | none => .error (.invalidPath path)
  | some name =>
      if name ≠ newName nanoid name then renameTo path name (newName nanoid name)
      else .ok (.not (newName nanoid name))

end NormalizeFileUtf8

/-! ## Entries with a name of valid text -/

section Entries

variable (parent : Path) (name nanoid : Str)

theorem renameTo_append_singleton (entry : OsStr) (fromName toName : Str) :
    renameTo (parent ++ [entry]) fromName toName = .ok (.yes { parent, fromName, toName }) := by
  rw [renameTo, Path.parent_append_singleton]

theorem NormalizePathUtf8.run_append_singleton (newPath : Bool) :
    NormalizePathUtf8.run newPath nanoid (parent ++ [OsStr.ofStr name]) =
      if newName name ≠ [] then
        if name ≠ newName name then .ok (.yes ⟨parent, name, newName name⟩)
        else .ok (.not name)
      else if newPath then .ok (.yes ⟨parent, name, invalidName ++ nanoid⟩)
      else .ok .needRestore := by
  rw [run, Path.fileName_append_singleton, Option.map_some, OsStr.toStringLossy_ofStr]
  simp only [renameTo_append_singleton]
  split_ifs with hempty hname
  · rfl
  · rw [← not_not.1 hname]
  · rfl
  · rfl

theorem NormalizeFileUtf8.run_append_singleton :
    NormalizeFileUtf8.run nanoid (parent ++ [OsStr.ofStr name]) =
      if name ≠ newName nanoid name then .ok (.yes ⟨parent, name, newName nanoid name⟩)
      else .ok (.not name) := by
  rw [run, Path.fileName_append_singleton, Option.map_some, OsStr.toStringLossy_ofStr]
  simp only [renameTo_append_singleton]
  split_ifs with hname
  · rfl
  · rw [← not_not.1 hname]

end Entries

theorem NormalizeFileUtf8.newName_of_cleanName {nanoid name : Str}
    (hclean : cleanName name ≠ []) : newName nanoid name = cleanName name := if_pos hclean

end WsHyper.Directory
