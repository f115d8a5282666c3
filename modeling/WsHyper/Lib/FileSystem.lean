import WsHyper.Lib.Path
import WsHyper.Lib.PathText
import Mathlib.Logic.Function.Basic

/-!
# Directories and files

A file system knows at which paths there is a directory or a file; there are no links.
An absolute path is followed piece by piece from the root on, where `..` leads to the
directory above.
-/

namespace WsHyper.Lib

namespace OsStr

abbrev slash : OsUnit := .char '/'

abbrev dot : OsUnit := .char '.'

def dotDot : OsStr := [dot, dot]

/-- `PathBuf::push`. -/
def push (path arg : OsStr) : OsStr := PathText.push slash path arg

def pieces (path : OsStr) : List OsStr := PathText.pieces slash dot path

def ofPath (path : Path) : OsStr := if path = [] then [slash] else PathText.below slash path

def IsComponent (comp : OsStr) : Prop := PathText.IsPiece slash dot comp ∧ comp ≠ dotDot

theorem pieces_ofPath {path : Path} (hpath : ∀ comp ∈ path, IsComponent comp) :
    pieces (ofPath path) = path := by
  rw [pieces, ofPath]
  split_ifs with hroot
  · rw [hroot, PathText.pieces_cons_sep, PathText.pieces_nil]
  · rw [← List.nil_append (PathText.below slash path),
      PathText.pieces_append_below fun comp hcomp => (hpath comp hcomp).1]
    simp

theorem ofPath_ne_nil (path : Path) : ofPath path ≠ [] := by
  rw [ofPath]
  split_ifs with hroot
  · simp
  · cases path <;> simp_all

theorem isComponent_ofStr_iff {text : Str} : IsComponent (ofStr text) ↔ IsName text := by
  have hslash : slash ∈ ofStr text ↔ '/' ∈ text := by simp [ofStr, slash]
  have hdot : ofStr text = [dot] ↔ text = ['.'] := ofStr_injective.eq_iff' rfl
  have hdots : ofStr text = dotDot ↔ text = ['.', '.'] := ofStr_injective.eq_iff' rfl
  have hnil : ofStr text = [] ↔ text = [] := ofStr_injective.eq_iff' rfl
  rw [IsComponent, PathText.IsPiece, IsName, Ne, hnil, hslash, Ne, hdot, Ne, hdots]
  tauto

end OsStr

/-- A path as `canonicalize` gives it. -/
structure CanonicalPath where
  path : Path
  components : ∀ comp ∈ path, OsStr.IsComponent comp

inductive Entry
  | dir
  | file
  deriving DecidableEq

structure FileSystem where
  entry : Path → Option Entry
  rooted : entry [] = some .dir
  parents : ∀ path name, entry (path ++ [name]) ≠ none → entry path = some .dir

inductive CreateError
  | notFound
  | isADirectory
  | alreadyExists
  /-- Any other reason: permissions, space, lengths, a NUL in the path. -/
  | refused (reason : Str)

namespace FileSystem

variable {fs : FileSystem} {path : Path}

structure Directory (fs : FileSystem) where
  path : Path
  isDir : fs.entry path = some .dir

def root (fs : FileSystem) : fs.Directory := ⟨[], fs.rooted⟩

theorem entry_dropLast (hdir : fs.entry path = some .dir) :
    fs.entry path.dropLast = some .dir := by
  rcases List.eq_nil_or_concat path with rfl | ⟨parent, name, rfl⟩
  · exact hdir
  · rw [List.concat_eq_append] at hdir ⊢
    rw [List.dropLast_concat]
    exact fs.parents parent name (by rw [hdir]; simp)

/-- One piece of a path is followed. -/
def enter (fs : FileSystem) (dir : fs.Directory) (piece : OsStr) : Option fs.Directory :=
  if piece = OsStr.dotDot then some ⟨dir.path.dropLast, entry_dropLast dir.isDir⟩
  else if hdir : fs.entry (dir.path ++ [piece]) = some .dir then
    some ⟨dir.path ++ [piece], hdir⟩
  else none

def walk (fs : FileSystem) (dir : fs.Directory) (pieces : List OsStr) : Option fs.Directory :=
  pieces.foldlM fs.enter dir

/-- The directory to which an absolute path leads, and the entry that it names there. -/
def locate (fs : FileSystem) (path : OsStr) : Except CreateError (fs.Directory × OsStr) :=
  match Text.rsplitOnce OsStr.slash path with
  | none => .error .notFound
  | some (front, name) =>
      if name = [] ∨ name = [OsStr.dot] ∨ name = OsStr.dotDot then .error .isADirectory
      else
        match fs.walk fs.root (OsStr.pieces front) with
        | none => .error .notFound
        | some dir => .ok (dir, name)

def withFile (fs : FileSystem) (dir : fs.Directory) (name : OsStr)
    (hfree : fs.entry (dir.path ++ [name]) = none) : FileSystem where
  entry := Function.update fs.entry (dir.path ++ [name]) (some .file)
  rooted := by
    rw [Function.update_of_ne (by simp)]
    exact fs.rooted
  parents := by
    intro path other hentry
    have hpath : fs.entry path = some .dir := by
      by_cases hnew : path ++ [other] = dir.path ++ [name]
      · rw [(List.append_inj' hnew rfl).1]
        exact dir.isDir
      · rw [Function.update_of_ne hnew] at hentry
        exact fs.parents path other hentry
    have hne : path ≠ dir.path ++ [name] := by
      rintro rfl
      rw [hfree] at hpath
      cases hpath
    rw [Function.update_of_ne hne, hpath]

def Created (fs fs' : FileSystem) (file : Path) : Prop :=
  fs.entry file = none ∧ fs'.entry file ≠ none

/-- `File::create_new`; the system may refuse it for a reason of its own. -/
def createNew (fs : FileSystem) (refusal : Option CreateError) (path : OsStr) :
    Except CreateError FileSystem :=
  match fs.locate path with
  | .error error => .error error
  | .ok (dir, name) =>
      if hfree : fs.entry (dir.path ++ [name]) = none then
        match refusal with
        | some error => .error error
        | none => .ok (fs.withFile dir name hfree)
      else .error .alreadyExists

/-- The path leads to a free name in a directory, and nothing else stands against a file. -/
def CanCreate (fs : FileSystem) (refusal : Option CreateError) (path : OsStr) : Prop :=
  refusal = none ∧ ∃ dir name, fs.locate path = .ok (dir, name) ∧
    fs.entry (dir.path ++ [name]) = none

variable {dir dir' : fs.Directory} {piece : OsStr} {pieces more : List OsStr}
  {refusal : Option CreateError} {text front name : OsStr}

@[simp] theorem walk_nil (dir : fs.Directory) : fs.walk dir [] = some dir := rfl

theorem walk_append (dir : fs.Directory) (pieces more : List OsStr) :
    fs.walk dir (pieces ++ more) =
      (fs.walk dir pieces).bind fun dir' => fs.walk dir' more :=
  List.foldlM_append

theorem walk_cons (dir : fs.Directory) (piece : OsStr) (pieces : List OsStr) :
    fs.walk dir (piece :: pieces) =
      (fs.enter dir piece).bind fun dir' => fs.walk dir' pieces :=
  rfl

theorem enter_dotDot (henter : fs.enter dir OsStr.dotDot = some dir') :
    dir'.path = dir.path.dropLast := by
  rw [enter, if_pos rfl, Option.some.injEq] at henter
  rw [← henter]

theorem enter_of_ne (hpiece : piece ≠ OsStr.dotDot) (henter : fs.enter dir piece = some dir') :
    dir'.path = dir.path ++ [piece] := by
  rw [enter, if_neg hpiece] at henter
  split_ifs at henter
  rw [← Option.some.inj henter]

/-- Without `..` a path leads straight down. -/
theorem walk_of_ne_dotDot (hpieces : ∀ piece ∈ pieces, piece ≠ OsStr.dotDot)
    (hwalk : fs.walk dir pieces = some dir') : dir'.path = dir.path ++ pieces := by
  induction pieces generalizing dir with
  | nil =>
      rw [walk_nil, Option.some.injEq] at hwalk
      rw [← hwalk, List.append_nil]
  | cons piece pieces ih =>
      rw [List.forall_mem_cons] at hpieces
      rw [walk_cons, Option.bind_eq_some_iff] at hwalk
      obtain ⟨next, henter, hwalk⟩ := hwalk
      rw [ih hpieces.2 hwalk, enter_of_ne hpieces.1 henter, List.append_assoc,
        List.singleton_append]

theorem components_of_walk
    (hpieces : ∀ piece ∈ pieces, PathText.IsPiece OsStr.slash OsStr.dot piece)
    (hdir : ∀ comp ∈ dir.path, OsStr.IsComponent comp) (hwalk : fs.walk dir pieces = some dir') :
    ∀ comp ∈ dir'.path, OsStr.IsComponent comp := by
  induction pieces generalizing dir with
  | nil =>
      rw [walk_nil, Option.some.injEq] at hwalk
      rwa [← hwalk]
  | cons piece pieces ih =>
      rw [List.forall_mem_cons] at hpieces
      rw [walk_cons, Option.bind_eq_some_iff] at hwalk
      obtain ⟨next, henter, hwalk⟩ := hwalk
      refine ih hpieces.2 ?_ hwalk
      intro comp hcomp
      by_cases hup : piece = OsStr.dotDot
      · subst hup
        rw [enter_dotDot henter] at hcomp
        exact hdir comp (List.dropLast_subset _ hcomp)
      · rw [enter_of_ne hup henter, List.mem_append, List.mem_singleton] at hcomp
        rcases hcomp with hcomp | rfl
        · exact hdir comp hcomp
        · exact ⟨hpieces.1, hup⟩

theorem locate_eq_ok_iff :
    fs.locate text = .ok (dir, name) ↔
      ∃ front, Text.rsplitOnce OsStr.slash text = some (front, name) ∧
        OsStr.IsComponent name ∧ fs.walk fs.root (OsStr.pieces front) = some dir := by
  unfold locate
  cases hsplit : Text.rsplitOnce OsStr.slash text with
  | none => simp
  | some parts =>
      obtain ⟨front, last⟩ := parts
      have hslash : OsStr.slash ∉ last := Text.not_mem_of_rsplitOnce hsplit
      have hcomponent : ¬(last = [] ∨ last = [OsStr.dot] ∨ last = OsStr.dotDot) ↔
          OsStr.IsComponent last := by
        simp only [OsStr.IsComponent, PathText.IsPiece]
        tauto
      constructor
      · intro hlocate
        simp only at hlocate
        split_ifs at hlocate with hlast
        cases hwalk : fs.walk fs.root (OsStr.pieces front) with
        | none => simp [hwalk] at hlocate
        | some dir' =>
            simp only [hwalk, Except.ok.injEq, Prod.mk.injEq] at hlocate
            obtain ⟨rfl, rfl⟩ := hlocate
            exact ⟨front, rfl, hcomponent.1 hlast, hwalk⟩
      · rintro ⟨front', hfront, hname, hwalk⟩
        obtain ⟨rfl, rfl⟩ := Prod.mk.inj (Option.some.inj hfront)
        simp only [if_neg (hcomponent.2 hname), hwalk]

theorem locate_push_iff {asked : OsStr} (htext : text ≠ []) (hasked : OsStr.slash ∉ asked) :
    fs.locate (OsStr.push text asked) = .ok (dir, name) ↔
      name = asked ∧ OsStr.IsComponent asked ∧
        fs.walk fs.root (OsStr.pieces text) = some dir := by
  obtain ⟨front, hsplit, hpieces⟩ := PathText.rsplitOnce_push OsStr.dot htext hasked
  rw [locate_eq_ok_iff]
  constructor
  · rintro ⟨front', hfront, hname, hwalk⟩
    obtain ⟨rfl, rfl⟩ := Prod.mk.inj (Option.some.inj (hsplit.symm.trans hfront))
    refine ⟨rfl, hname, ?_⟩
    rwa [OsStr.pieces, hpieces] at hwalk
  · rintro ⟨rfl, hname, hwalk⟩
    refine ⟨front, hsplit, hname, ?_⟩
    rwa [OsStr.pieces, hpieces]

theorem createNew_eq_ok_iff {fs' : FileSystem} :
    fs.createNew refusal text = .ok fs' ↔
      refusal = none ∧ ∃ dir name, ∃ hfree : fs.entry (dir.path ++ [name]) = none,
        fs.locate text = .ok (dir, name) ∧ fs' = fs.withFile dir name hfree := by
  unfold createNew
  cases hlocate : fs.locate text with
  | error error => simp
  | ok place =>
      obtain ⟨dir, name⟩ := place
      constructor
      · intro hcreate
        simp only at hcreate
        split_ifs at hcreate with hfree
        cases hrefusal : refusal with
        | some error => simp [hrefusal] at hcreate
        | none =>
            simp only [hrefusal, Except.ok.injEq] at hcreate
            exact ⟨rfl, dir, name, hfree, rfl, hcreate.symm⟩
      · rintro ⟨rfl, dir', name', hfree, hplace, rfl⟩
        obtain ⟨rfl, rfl⟩ := Prod.mk.inj (Except.ok.inj hplace)
        simp only [dif_pos hfree]

theorem exists_createNew_iff :
    (∃ fs', fs.createNew refusal text = .ok fs') ↔ fs.CanCreate refusal text := by
  simp only [createNew_eq_ok_iff, CanCreate]
  constructor
  · rintro ⟨fs', hrefusal, dir, name, hfree, hlocate, -⟩
    exact ⟨hrefusal, dir, name, hlocate, hfree⟩
  · rintro ⟨hrefusal, dir, name, hlocate, hfree⟩
    exact ⟨_, hrefusal, dir, name, hfree, hlocate, rfl⟩

theorem not_created_self (fs : FileSystem) (file : Path) : ¬fs.Created fs file :=
  fun hcreated => hcreated.2 hcreated.1

theorem created_withFile_iff {file : Path} (hfree : fs.entry (dir.path ++ [name]) = none) :
    fs.Created (fs.withFile dir name hfree) file ↔ file = dir.path ++ [name] := by
  rcases eq_or_ne file (dir.path ++ [name]) with rfl | hne
  · simp [Created, withFile, hfree]
  · simp [Created, withFile, hne]

end FileSystem

end WsHyper.Lib
