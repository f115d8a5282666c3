import WsHyper.Directory.Addresses

/-!
# Renames that fail

Every handler asks the disk to rename an entry whose name is not normal.  All but
`hd_rename_path` stop where the disk refuses; that one only logs the refusal and sends the
change with the name it has not given.
-/

namespace WsHyper.Directory

open WsHyper.Lib

inductive HandlerCall
  | newBucketOrKey (path : Path)
  | newObject (path : Path)
  | renamePath (originalFrom originalTo : Path)
  | renameObject (originalFrom originalTo : Path)
  deriving DecidableEq

def askedRename : Except RenameError RenameDecision → Option (Path × Path)
  | .ok (.yes { parent, fromName, toName }) =>
      some (Path.joinStr parent fromName, Path.joinStr parent toName)
  | _ => none

namespace HandlerCall

def run (disk : Disk) (root : Path) (skip : Skipper) :
    HandlerCall → Except Panic (Option Change × Skipper)
  | newBucketOrKey path => hdNewBucketOrKeyWatcher disk path root skip
  | newObject path => hdNewObjectWatcher disk path root skip
  | renamePath originalFrom originalTo => hdRenamePath disk root originalFrom originalTo skip
  | renameObject originalFrom originalTo => hdRenameObject disk root originalFrom originalTo skip

def asks (nanoid : Str) (root : Path) : HandlerCall → Option (Path × Path)
  | newBucketOrKey path => askedRename (NormalizePathUtf8.run true nanoid path)
  | newObject path =>
      if path.parent = some root then none else askedRename (NormalizeFileUtf8.run nanoid path)
  | renamePath originalFrom originalTo =>
      match NormalizePathUtf8.run false nanoid originalTo with
      | .ok .needRestore => some (originalTo, originalFrom)
      | decision => askedRename decision
  | renameObject _ originalTo =>
      match objectAddress root originalTo with
      | .ok _ => askedRename (NormalizeFileUtf8.run nanoid originalTo)
      | .error _ => none

/-- A call of `hd_rename_path` whose target has to be normalised. -/
def normalisesTarget (nanoid : Str) : HandlerCall → Bool
  | renamePath _ originalTo => (askedRename (NormalizePathUtf8.run false nanoid originalTo)).isSome
  | _ => false

end HandlerCall

theorem exists_rename_of_asked {decision : Except RenameError RenameDecision}
    {asked : Path × Path} (hasks : askedRename decision = some asked) :
    ∃ rename : Rename, decision = .ok (.yes rename) ∧
      asked = (Path.joinStr rename.parent rename.fromName,
        Path.joinStr rename.parent rename.toName) := by
  unfold askedRename at hasks
  split at hasks
  · exact ⟨_, rfl, (Option.some.inj hasks).symm⟩
  · cases hasks

section Failed

variable {disk : Disk} {root path originalFrom originalTo : Path} {skip : Skipper}
  {asked : Path × Path}

theorem hdNewBucketOrKeyWatcher_of_failed
    (hasks : askedRename (NormalizePathUtf8.run true disk.nanoid path) = some asked)
    (hfails : disk.rename asked.1 asked.2 = false) :
    hdNewBucketOrKeyWatcher disk path root skip = .ok (none, skip) := by
  obtain ⟨rename, hrun, rfl⟩ := exists_rename_of_asked hasks
  rw [hdNewBucketOrKeyWatcher, hrun]
  simp only [hfails, Bool.false_eq_true, if_false]

theorem hdNewObjectWatcher_of_failed
    (hasks : askedRename (NormalizeFileUtf8.run disk.nanoid path) = some asked)
    (hfails : disk.rename asked.1 asked.2 = false) :
    hdNewObjectWatcher disk path root skip = .ok (none, skip) := by
  obtain ⟨rename, hrun, rfl⟩ := exists_rename_of_asked hasks
  rw [hdNewObjectWatcher, hrun]
  simp only [hfails, Bool.false_eq_true, if_false, ite_self]

theorem hdRenameObject_of_failed {address : Bucket × Key}
    (haddress : objectAddress root originalTo = .ok address)
    (hasks : askedRename (NormalizeFileUtf8.run disk.nanoid originalTo) = some asked)
    (hfails : disk.rename asked.1 asked.2 = false) :
    hdRenameObject disk root originalFrom originalTo skip = .ok (none, skip) := by
  obtain ⟨rename, hrun, rfl⟩ := exists_rename_of_asked hasks
  rw [hdRenameObject_of_yes haddress hrun, hfails]
  rfl

/-- A target that has to be normalised comes back as a change, if the handler comes back. -/
theorem hdRenamePath_ne_of_asked
    (hasks : askedRename (NormalizePathUtf8.run false disk.nanoid originalTo) = some asked)
    (skip' : Skipper) :
    hdRenamePath disk root originalFrom originalTo skip ≠ .ok (none, skip') := by
  obtain ⟨rename, hrun, -⟩ := exists_rename_of_asked hasks
  rw [hdRenamePath, hrun]
  dsimp only
  intro hnone
  split_ifs at hnone
  · obtain ⟨name, -, hresult⟩ := bind_eq_ok hnone
    cases hresult
  · obtain ⟨bucket, -, hresult⟩ := bind_eq_ok hnone
    obtain ⟨originalKey, -, hresult⟩ := bind_eq_ok hresult
    obtain ⟨key, -, hresult⟩ := bind_eq_ok hresult
    cases hresult

end Failed

/-- A call whose rename fails has no effect exactly if it is not `hd_rename_path`
normalising its target. -/
theorem HandlerCall.run_of_failed_iff (disk : Disk) (root : Path) (skip : Skipper)
    (call : HandlerCall) {original target : Path}
    (hasks : call.asks disk.nanoid root = some (original, target))
    (hfails : disk.rename original target = false) :
    call.run disk root skip = .ok (none, skip) ↔ call.normalisesTarget disk.nanoid = false := by
  cases call with
  | newBucketOrKey path =>
      exact iff_of_true (hdNewBucketOrKeyWatcher_of_failed hasks hfails) rfl
  | newObject path =>
      rw [asks] at hasks
      split_ifs at hasks
      exact iff_of_true (hdNewObjectWatcher_of_failed hasks hfails) rfl
  | renamePath originalFrom originalTo =>
      rw [normalisesTarget, asks] at *
      cases hdecision : askedRename (NormalizePathUtf8.run false disk.nanoid originalTo) with
      | some asked =>
          exact iff_of_false (hdRenamePath_ne_of_asked hdecision skip) (by simp)
      | none =>
          -- the entry is to get its old name back
          have hrestore : NormalizePathUtf8.run false disk.nanoid originalTo =
              .ok .needRestore := by
            split at hasks
            · assumption
            · rw [hdecision] at hasks
              cases hasks
          refine iff_of_true ?_ rfl
          rw [run, hdRenamePath, hrestore]
  | renameObject originalFrom originalTo =>
      rw [asks] at hasks
      cases haddress : objectAddress root originalTo with
      | error panic =>
          rw [haddress] at hasks
          cases hasks
      | ok address =>
          rw [haddress] at hasks
          exact iff_of_true (hdRenameObject_of_failed haddress hasks hfails) rfl

def refusingDisk : Disk where
  rename _ _ := false
  isDir _ := true
  file _ := { metadata := none, checkSum := none }
  now := .epoch
  nanoid := []

/-- A new directory `-y` in the root `/d` that cannot be renamed. -/
theorem new_bucket_not_renamed :
    let root : Path := [.ofStr ['d']]
    let call := HandlerCall.newBucketOrKey (Path.joinStr root ['-', 'y'])
    call.run refusingDisk root Skipper.new = .ok (none, Skipper.new) ↔
      call.normalisesTarget refusingDisk.nanoid = false :=
  HandlerCall.run_of_failed_iff refusingDisk _ _ _
    (show _ = some (Path.joinStr [.ofStr ['d']] ['-', 'y'], Path.joinStr [.ofStr ['d']] ['y'])
      by decide) rfl

/-- The bucket `x` becomes `-y` and cannot be renamed to `y`: it is announced as `y`, and
the next genuine rename to `y` is to be skipped. -/
theorem failed_rename_announced :
    let root : Path := [.ofStr ['d']]
    let call := HandlerCall.renamePath (Path.joinStr root ['x']) (Path.joinStr root ['-', 'y'])
    call.asks refusingDisk.nanoid root =
        some (Path.joinStr root ['-', 'y'], Path.joinStr root ['y']) ∧
      refusingDisk.rename (Path.joinStr root ['-', 'y']) (Path.joinStr root ['y']) = false ∧
      call.run refusingDisk root Skipper.new =
        .ok (some (.nameBucket ['x'] ['y']), Skipper.new.skipBucket ['y']) ∧
      call.run refusingDisk root Skipper.new ≠ .ok (none, Skipper.new) := by
  decide

end WsHyper.Directory
