import WsHyper.Lib.FileTree
import WsHyper.Directory.LocalStorage
import WsHyper.Directory.Normalize

/-!
# Building the tree at the start

`BucketMap.build` walks the watched directory, gives every entry its normal name
on disk, takes the objects from the database or makes new ones, and deletes at
last every document whose id the walk has not noted.  The disk is a tree of files
under names of valid text; a listing is the snapshot taken when a directory is
entered.  A recursion gets its depth as fuel.
-/

namespace WsHyper.Directory

open WsHyper.Lib

abbrev Dir := Entries Name FileInfo

namespace Dir

def fileInfo (dir : Dir) (name : Name) : FileInfo :=
  match dir.lookup name with
  | some (.file info) => info
  | _ => { metadata := none, checkSum := none }

def set (dir : Dir) (name : Name) (node : Node Name FileInfo) : Dir :=
  dir.map fun entry => if entry.1 = name then (name, node) else entry

/-- What `rename(2)` may replace: files by files, empty directories by directories. -/
def canReplace : Node Name FileInfo → Option (Node Name FileInfo) → Bool
  | _, none => true
  | .file _, some (.file _) => true
  | .dir _, some (.dir []) => true
  | _, some _ => false

/-- `rename(2)` to another name in the same directory; `none` is its error. -/
def rename (dir : Dir) (fromName : Name) (toName : Str) : Option (Dir × Name) :=
  if h : IsName toName then
    let target : Name := ⟨toName, h⟩
    match dir.lookup fromName with
    | none => none
    | some node =>
        if target = fromName then some (dir, target)
        else if canReplace node (dir.lookup target) then
          some ((AssocMap.erase target dir).map fun entry =>
            if entry.1 = fromName then (target, entry.2) else entry, target)
        else none
  else none

end Dir

structure System where
  now : Path → OffsetDateTime
  nanoid : Path → Str
  broker : Path → Broker

structure Sync where
  ls : Collection
  objectIds : List ObjectId

section

variable (sys : System) (bucket : Bucket)

/-- One round of `sync_objects`; an insert that fails is only logged. -/
def syncObject (key : Key) (parent : Path) (file : Name × FileInfo) (sync : Sync) :
    Except Panic (Object × Sync) :=
  match LocalStorage.getObjectFilename sync.ls bucket key file.1.text with
  | some found =>
      .ok (found.object, { sync with objectIds := sync.objectIds ++ [found.id] })
  | none => do
      let path := parent.join (OsStr.ofStr file.1.text)
      let object ← Object.new (sys.now path) path file.2 .system
      -- the id of the inserted document is not noted
      let ls := (LocalStorage.newObject sync.ls bucket key object).getD sync.ls
      return (object, { sync with ls })

def syncObjects (key : Key) (parent : Path) :
    List (Name × FileInfo) → Sync → Except Panic (List Object × Sync)
  | [], sync => .ok ([], sync)
  | file :: files, sync => do
      let (object, sync) ← syncObject sys bucket key parent file sync
      let (objects, sync) ← syncObjects key parent files sync
      return (object :: objects, sync)

def closeEntry (path : Path) (files : List (Name × FileInfo))
    (keys : AssocMap Segment KeyEntry) (sync : Sync) : Except Panic (KeyEntry × Sync) := do
  let key ← unwrap (Key.fromBucket bucket path)
  let (objs, sync) ← syncObjects sys bucket key path files sync
  return ({
    objects := if objs = [] then none else some objs
    keys := if keys = [] then none else some keys
    broker := sys.broker path }, sync)

/-- The directory after an entry was given its normal name, and that name;
`none` where the entry is left out. -/
def fileNameNormalize (parent : Path) (dir : Dir) (name : Name) :
    Except Panic (Option (Dir × Name)) :=
  let path := parent.join (OsStr.ofStr name.text)
  let des :=
    if (dir.subdir name).isSome then NormalizePathUtf8.run true (sys.nanoid path) path
    else NormalizeFileUtf8.run (sys.nanoid path) path
  match des with
  | .ok (.yes { parent := _, fromName := _, toName }) => .ok (dir.rename name toName)
  | .ok (.not _) => .ok (some (dir, name))
  | .ok .fail => .ok none
  | .error _ => .ok none
  | .ok .needRestore => .error .unreachable

structure Walk where
  dir : Dir
  objects : List Name
  keys : AssocMap Segment KeyEntry
  sync : Sync

/-- The body of the loop in `build_key_entry`. -/
def visit (recurse : Path → Dir → Sync → Except Panic (KeyEntry × Dir × Sync)) (path : Path)
    (walk : Walk) (name : Name) : Except Panic Walk := do
  match ← fileNameNormalize sys path walk.dir name with
  | none => return walk
  | some (dir, fileName) =>
      match dir.subdir fileName with
      | some sub =>
          let (keyEntry, sub, sync) ← recurse (path.join (OsStr.ofStr fileName.text)) sub walk.sync
          return { walk with
            dir := dir.set fileName (.dir sub)
            keys := walk.keys.insert fileName.text keyEntry
            sync }
      | none => return { walk with dir, objects := walk.objects ++ [fileName] }

def buildKeyEntry : Nat → Path → Dir → Sync → Except Panic (KeyEntry × Dir × Sync)
  | 0, _, _, _ => .error .outOfFuel
  | fuel + 1, path, dir, sync => do
      let walk ← (dir.map Prod.fst).foldlM (visit sys (buildKeyEntry fuel) path)
        { dir, objects := [], keys := [], sync }
      let files := walk.objects.map fun name => (name, walk.dir.fileInfo name)
      let (entry, sync) ← closeEntry sys bucket path files walk.keys walk.sync
      return (entry, walk.dir, sync)

end

section

variable (sys : System) (root : Path)

/-- One round of `list_buckets_and_normalize`, with the buckets so far. -/
def listBucket (acc : List (Bucket × Name) × Dir) (name : Name) :
    Except Panic (List (Bucket × Name) × Dir) :=
  let path := root.join (OsStr.ofStr name.text)
  match NormalizePathUtf8.run true (sys.nanoid path) path with
  | .ok (.not bk) => .ok (acc.1 ++ [(bk, name)], acc.2)
  | .ok (.yes { parent := _, fromName := _, toName }) =>
      -- the bucket keeps the path it was listed under, whether renamed or not
      .ok (acc.1 ++ [(toName, name)], ((acc.2.rename name toName).map Prod.fst).getD acc.2)
  | .error _ => .ok acc
  | .ok _ => .error .todo

def listBucketsAndNormalize (dir : Dir) : Except Panic (List (Bucket × Name) × Dir) :=
  (dir.map Prod.fst).foldlM (listBucket sys root) ([], dir)

/-- One round of the loop in `build`; `read_dir` fails on what is no directory. -/
def buildBucket (fuel : Nat) (acc : AssocMap Bucket KeyEntry × Dir × Sync)
    (bucket : Bucket × Name) : Except Panic (AssocMap Bucket KeyEntry × Dir × Sync) := do
  let (inner, dir, sync) := acc
  match dir.subdir bucket.2 with
  | none => .error .unwrapErr
  | some sub =>
      let (entry, sub, sync) ←
        buildKeyEntry sys bucket.1 fuel (root.join (OsStr.ofStr bucket.2.text)) sub sync
      return (inner.insert bucket.1 entry, dir.set bucket.2 (.dir sub), sync)

end

def syncObjectWithDatabase (ls : Collection) (objectIds : List ObjectId) : Collection :=
  ls.deleteMany fun d => d.id ∉ objectIds

/-- `BucketMap::build`, with the root directory before and after it. -/
def BucketMap.build (sys : System) (m : BucketMap) (dir : Dir) (ls : Collection) :
    Except Panic (BucketMap × Dir × Collection) := do
  let (buckets, listed) ← listBucketsAndNormalize sys m.path dir
  let (inner, built, sync) ← buckets.foldlM (buildBucket sys m.path dir.height)
    ([], listed, { ls, objectIds := [] })
  return ({ m with tree := inner }, built, syncObjectWithDatabase sync.ls sync.objectIds)

end WsHyper.Directory
