import WsHyper.Directory.BucketMap
import WsHyper.Directory.Decode
import WsHyper.Directory.Normalize
import WsHyper.Directory.Skipper

/-!
# Handlers of the watcher's events

Each handler turns the paths of an event into a change, or into nothing, and may
rename the entry on disk first.  What a handler sees of the disk while it runs is
an argument.  A result is the change, if there is one, and the trackers.
-/

namespace WsHyper.Directory

open WsHyper.Lib WsHyper.Lib.Text

structure Disk where
  /-- Whether `rename` goes through. -/
  rename : Path → Path → Bool
  isDir : Path → Bool
  file : Path → FileInfo
  now : OffsetDateTime
  nanoid : Str

/-- `Path::join` with text. -/
def Path.joinStr (path : Path) (name : Str) : Path := path.join (OsStr.ofStr name)

def fileNameStr (path : Path) : Except Panic Str := unwrap (path.fileName.bind OsStr.toStr)

/-- `Bucket::find_bucket(root, path).unwrap()` -/
def bucketOf (root path : Path) : Except Panic Bucket := do
  let bucket ← Bucket.findBucket root path
  unwrap bucket

def hdNewBucketOrKeyWatcher (disk : Disk) (path root : Path) (skip : Skipper) :
    Except Panic (Option Change × Skipper) :=
  match NormalizePathUtf8.run true disk.nanoid path with
  | .ok (.not name) =>
      match path.parent with
      | none => .ok (none, skip)
      | some parent =>
          if parent = root then .ok (some (.newBucket name), skip)
          else do
            let bucket ← bucketOf root path
            match Key.fromBucket bucket path with
            | none => return (none, skip)
            | some key => return (some (.newKey bucket key), skip)
  | .ok (.yes { parent, fromName, toName }) =>
      if disk.rename (Path.joinStr parent fromName) (Path.joinStr parent toName) then
        -- the new name stands for the bucket at every depth
        let bucket := toName
        if root = parent then .ok (some (.newBucket bucket), skip.skipBucket bucket)
        else
          match Key.fromBucket bucket (Path.joinStr parent toName) with
          | none => .ok (none, skip)
          | some key => .ok (some (.newKey bucket key), skip.skipKey bucket key)
      else .ok (none, skip)
  | .error _ => .ok (none, skip)
  | .ok _ => .error .unreachable

def hdNewObjectWatcher (disk : Disk) (path root : Path) (skip : Skipper) :
    Except Panic (Option Change × Skipper) :=
  if path.parent = some root then .ok (none, skip)
  else
    match NormalizeFileUtf8.run disk.nanoid path with
    | .ok (.yes { parent, fromName, toName }) =>
        let target := Path.joinStr parent toName
        if disk.rename (Path.joinStr parent fromName) target then do
          let bucket ← bucketOf root path
          let key ← unwrap (Key.fromBucket bucket parent)
          let object ← Object.new disk.now target (disk.file target)
            (.user ['T', 'e', 's', 't'])
          return (some (.newObject bucket key object), skip.skipObject bucket key toName)
        else .ok (none, skip)
    | .ok (.not _) => do
        let bucket ← bucketOf root path
        let parent ← unwrap path.parent
        let key ← unwrap (Key.fromBucket bucket parent)
        let object ← Object.new disk.now path (disk.file path) (.user ['t', 'e', 's', 't'])
        return (some (.newObject bucket key object), skip)
    | .error _ => .ok (none, skip)
    | .ok _ => .error .unreachable

def hdRenamePath (disk : Disk) (root originalFrom originalTo : Path) (skipped : Skipper) :
    Except Panic (Option Change × Skipper) :=
  match NormalizePathUtf8.run false disk.nanoid originalTo with
  | .ok (.not name) =>
      if originalTo.parent = some root then
        let (found, skipped) := skipped.bucketSkipped name
        if found then .ok (none, skipped)
        else do
          let fromName ← fileNameStr originalFrom
          return (some (.nameBucket fromName name), skipped)
      else do
        let bucket ← bucketOf root originalTo
        let key ← unwrap (Key.fromBucket bucket originalTo)
        let (found, skipped) := skipped.keySkipped bucket key
        if found then return (none, skipped)
        else
          let keyFrom ← unwrap (Key.fromBucket bucket originalFrom)
          return (some (.nameKey bucket keyFrom name), skipped)
  | .ok (.yes { parent, fromName := _, toName }) =>
      -- whether this rename goes through makes no difference
      if parent = root then do
        let originalName ← fileNameStr originalFrom
        return (some (.nameBucket originalName toName), skipped.skipBucket toName)
      else do
        let bucket ← bucketOf root originalTo
        let originalKey ← unwrap (Key.fromBucket bucket originalFrom)
        let key ← unwrap (Key.fromBucket bucket originalTo)
        return (some (.nameKey bucket originalKey toName), skipped.skipKey bucket key)
  | .ok .needRestore => .ok (none, skipped)
  | .error _ => .error .todo
  | .ok _ => .ok (none, skipped)

def hdRenameObject (disk : Disk) (root originalFrom originalTo : Path) (toSkip : Skipper) :
    Except Panic (Option Change × Skipper) := do
  let bucket ← bucketOf root originalTo
  let parent ← unwrap originalTo.parent
  let key ← unwrap (Key.fromBucket bucket parent)
  match NormalizeFileUtf8.run disk.nanoid originalTo with
  | .ok (.not name) =>
      let (found, toSkip) := toSkip.objectSkipped bucket key name
      if found then return (none, toSkip)
      else
        let oldName ← fileNameStr originalFrom
        return (some (.nameObject bucket key oldName name), toSkip)
  | .ok (.yes { parent, fromName, toName }) =>
      if disk.rename (Path.joinStr parent fromName) (Path.joinStr parent toName) then
        return (some (.nameObject bucket key fromName toName),
          toSkip.skipObject bucket key toName)
      else return (none, toSkip)
  | .error _ => return (none, toSkip)
  | .ok _ => .error .unreachable

end WsHyper.Directory
