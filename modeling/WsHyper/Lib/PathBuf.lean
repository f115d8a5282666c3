import WsHyper.Lib.Path
import WsHyper.Lib.PathText

/-!
# Paths as text

A `PathBuf` is a text.  `push` puts a relative path behind a separator and lets an
absolute one replace what was there.  The system reads a path piece by piece, where
empty pieces and `.` lead nowhere; `..` is a piece of its own.
-/

namespace WsHyper.Lib

abbrev PathBuf := Str

namespace PathBuf

def isAbsolute (path : PathBuf) : Bool := path.head? = some '/'

/-- `PathBuf::push`. -/
def push (path arg : PathBuf) : PathBuf :=
  if arg.isAbsolute then arg
  else if path = [] ∨ path.getLast? = some '/' then path ++ arg
  else path ++ '/' :: arg

def pieces (path : PathBuf) : List Str :=
  (path.splitOn '/').filter fun piece => piece ≠ [] ∧ piece ≠ ['.']

/-- The path leads from the directory to an entry of it, by the name of the entry. -/
def DirectChild (dir path : PathBuf) : Prop :=
  path.isAbsolute = dir.isAbsolute ∧ ∃ name, IsName name ∧ path.pieces = dir.pieces ++ [name]

/-- What has to be pushed to a directory to come to an entry of it: its name, or
an absolute path that spells the directory again. -/
def StaysIn (dir arg : PathBuf) : Prop :=
  if arg.isAbsolute then DirectChild dir arg
  else ∃ name, IsName name ∧ arg.pieces = [name]

theorem pieces_push {path arg : PathBuf} (hrelative : arg.isAbsolute = false) :
    (path.push arg).pieces = path.pieces ++ arg.pieces :=
  PathText.pieces_push hrelative

theorem isAbsolute_push {path arg : PathBuf} (hrelative : arg.isAbsolute = false) :
    (path.push arg).isAbsolute = path.isAbsolute :=
  PathText.isAbsolute_push hrelative

theorem directChild_push_iff {dir arg : PathBuf} :
    DirectChild dir (dir.push arg) ↔ StaysIn dir arg := by
  rw [StaysIn]
  by_cases habsolute : arg.isAbsolute
  · rw [push, if_pos habsolute, if_pos habsolute]
  · rw [if_neg habsolute]
    rw [Bool.not_eq_true] at habsolute
    rw [DirectChild, isAbsolute_push habsolute, pieces_push habsolute, and_iff_right rfl]
    simp only [List.append_cancel_left_eq]

end PathBuf

end WsHyper.Lib
