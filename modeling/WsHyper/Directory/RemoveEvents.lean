import WsHyper.Directory.EventWatcher
import WsHyper.Directory.FlatView

/-!
# What is removed

Two paths lead to a removal.  `Remove(File)` takes the key from the path of the
file, where `Create` takes it from the directory of the file: the two never name
the same place (`not_sameAddress`).  `Remove(Any)` asks the manager what the path
was and tells itself the answer without the path: nothing comes of it
(`not_forwarded`).
-/

namespace WsHyper.Directory

open WsHyper.Lib

namespace EventWatcher

def filePath (root : Path) (bucket : Name) (segments : List Name) (file : Name) : Path :=
  root ++ Path.ofNames (bucket :: segments) ++ [OsStr.ofStr file.text]

section Addresses

variable (disk : Disk) (whatIs : Path → Except Panic ManagerReply) (root : List Name)
  (bucket : Name) (segments : List Name) (file : Name) (skipper : Skipper)

theorem filePath_ofNames :
    filePath (Path.ofNames root) bucket segments file =
      Path.ofNames (root ++ bucket :: (segments ++ [file])) := by
  simp [filePath, Path.ofNames]

theorem bucketOf_below (rest : List Name) :
    bucketOf (Path.ofNames root) (Path.ofNames (root ++ bucket :: rest)) = .ok bucket.text := by
  rw [bucketOf, Bucket.findBucket_below]
  rfl

theorem handle_remove_file :
    handle disk whatIs (Path.ofNames root) skipper
        { kind := .remove .file, paths := [filePath (Path.ofNames root) bucket segments file] } =
      .ok ([.manager (.deleteObject bucket.text
        (Key.decoded root bucket ((segments ++ [file]).map Name.text)) file.text)],
        skipper) := by
  have hname : fileNameStr (filePath (Path.ofNames root) bucket segments file) =
      .ok file.text := by
    rw [fileNameStr, filePath, Path.fileName_append_singleton, Option.bind_some,
      OsStr.toStr_ofStr, unwrap_some]
  rw [handle]
  simp only [List.getLast?_singleton, filePath_ofNames] at hname ⊢
  rw [bucketOf_below, hname, ok_bind, Key.fromBucket_below, unwrap_some]
  rfl

variable {disk whatIs root bucket segments file skipper}

theorem newObject_of_hdNewObjectWatcher {root dir : Path} {change : Change} {skipper' : Skipper}
    (hresult : hdNewObjectWatcher disk (dir ++ [OsStr.ofStr file.text]) root skipper =
      .ok (some change, skipper')) :
    ∃ bucket key object, bucketOf root (dir ++ [OsStr.ofStr file.text]) = .ok bucket ∧
      Key.fromBucket bucket dir = some key ∧ change = .newObject bucket key object := by
  rw [hdNewObjectWatcher, Path.parent_append_singleton,
    NormalizeFileUtf8.run_append_singleton] at hresult
  by_cases hroot : some dir = some root
  · rw [if_pos hroot] at hresult
    cases hresult
  rw [if_neg hroot] at hresult
  by_cases hname : file.text ≠ NormalizeFileUtf8.newName disk.nanoid file.text
  · simp only [if_pos hname] at hresult
    split_ifs at hresult
    · obtain ⟨bucket, hbucket, hrest⟩ := bind_eq_ok hresult
      obtain ⟨key, hkey, hrest⟩ := bind_eq_ok hrest
      obtain ⟨object, -, hpair⟩ := bind_eq_ok hrest
      cases hpair
      exact ⟨bucket, key, object, hbucket, unwrap_eq_ok_iff.1 hkey, rfl⟩
    · cases hresult
  · simp only [if_neg hname, unwrap_some, ok_bind] at hresult
    obtain ⟨bucket, hbucket, hrest⟩ := bind_eq_ok hresult
    obtain ⟨key, hkey, hrest⟩ := bind_eq_ok hrest
    obtain ⟨object, -, hpair⟩ := bind_eq_ok hrest
    cases hpair
    exact ⟨bucket, key, object, hbucket, unwrap_eq_ok_iff.1 hkey, rfl⟩

theorem newObject_of_create {root dir : Path} {kind : CreateKind} (hkind : kind ≠ .folder)
    {told : List Told} {skipper' : Skipper}
    (hhandle : handle disk whatIs root skipper
      { kind := .create kind, paths := [dir ++ [OsStr.ofStr file.text]] } =
        .ok (told, skipper')) {change : Change} (htold : .manager change ∈ told) :
    ∃ bucket key object, bucketOf root (dir ++ [OsStr.ofStr file.text]) = .ok bucket ∧
      Key.fromBucket bucket dir = some key ∧ change = .newObject bucket key object := by
  have hobject : (hdNewObjectWatcher disk (dir ++ [OsStr.ofStr file.text]) root skipper >>=
      fun result => return tellChange result) = .ok (told, skipper') := by
    rw [← hhandle, handle]
    cases kind with
    | folder => exact absurd rfl hkind
    | any => rfl
    | file => rfl
    | other => rfl
  obtain ⟨⟨result, skipper''⟩, hresult, htell⟩ := bind_eq_ok hobject
  cases htell
  cases result with
  | none => simp at htold
  | some created =>
      simp only [Option.toList_some, List.map_singleton, List.mem_singleton,
        Told.manager.injEq] at htold
      rw [htold]
      exact newObject_of_hdNewObjectWatcher hresult

theorem newObject_below {kind : CreateKind} (hkind : kind ≠ .folder) {told : List Told}
    {skipper' : Skipper}
    (hhandle : handle disk whatIs (Path.ofNames root) skipper
      { kind := .create kind, paths := [filePath (Path.ofNames root) bucket segments file] } =
        .ok (told, skipper')) {change : Change} (htold : .manager change ∈ told) :
    ∃ object, change =
      .newObject bucket.text (Key.decoded root bucket (segments.map Name.text)) object := by
  have hdir : Path.ofNames root ++ Path.ofNames (bucket :: segments) =
      Path.ofNames (root ++ bucket :: segments) := by
    simp [Path.ofNames]
  obtain ⟨b, key, object, hbucket, hkey, rfl⟩ := newObject_of_create hkind hhandle htold
  rw [← filePath, filePath_ofNames, bucketOf_below] at hbucket
  obtain rfl := Except.ok.inj hbucket
  rw [hdir, Key.fromBucket_below] at hkey
  exact ⟨object, by rw [Option.some.inj hkey]⟩

/-- `Remove(File)` and a `Create` of the path tell the manager one address. -/
def SameAddress (disk : Disk) (whatIs : Path → Except Panic ManagerReply) (root path : Path)
    (skipper : Skipper) : Prop :=
  ∃ bucket key object kind toldNew toldDelete skipper₁ skipper₂, kind ≠ CreateKind.folder ∧
    handle disk whatIs root skipper { kind := .create kind, paths := [path] } =
      .ok (toldNew, skipper₁) ∧
    Told.manager (.newObject bucket key object) ∈ toldNew ∧
    handle disk whatIs root skipper { kind := .remove .file, paths := [path] } =
      .ok (toldDelete, skipper₂) ∧
    Told.manager (.deleteObject bucket key object.fileName) ∈ toldDelete

variable (disk whatIs bucket segments file skipper)

theorem not_sameAddress {root : Path} (hroot : root.IsCanonical) :
    ¬SameAddress disk whatIs root (filePath root bucket segments file) skipper := by
  rintro ⟨b, key, object, kind, toldNew, toldDelete, skipper₁, skipper₂, hkind, hcreate, hnew,
    hremove, hdelete⟩
  -- an object comes only from a path that is text
  obtain ⟨b', key', object', -, hkey, -⟩ := newObject_of_create hkind hcreate hnew
  obtain ⟨names, rfl⟩ := Path.exists_eq_ofNames hroot
    (Path.isSome_toStr_of_append (Key.isSome_toStr_of_fromBucket hkey))
  obtain ⟨object'', hchange⟩ := newObject_below hkind hcreate hnew
  rw [handle_remove_file] at hremove
  cases hremove
  simp only [List.mem_singleton, Told.manager.injEq, Change.deleteObject.injEq] at hdelete
  simp only [Change.newObject.injEq] at hchange
  -- the two keys belong to directories of different depth
  have hsame := Key.decoded_injOn (hchange.2.1.symm.trans hdelete.2.1)
  simp at hsame

variable {bucket segments file}

/-- Where the keys are read right, the object of a file that was created and
removed stays in the tree. -/
theorem view_created_and_removed
    (hroot : ¬bucket.text <:+: Path.render (root.map Name.text)) (m : BucketMap)
    (fresh₁ fresh₂ : Broker) (object : Object)
    (hfile : m.view bucket.text ((segments ++ [file]).map Name.text) = none) :
    ∃ m₁ m₂, m.change fresh₁ (.newObject bucket.text
        (Key.decoded root bucket (segments.map Name.text)) object) = .ok m₁ ∧
      m₁.change fresh₂ (.deleteObject bucket.text
        (Key.decoded root bucket ((segments ++ [file]).map Name.text)) file.text) = .ok m₂ ∧
      m₂.view = m.view.addItem bucket.text (segments.map Name.text) object := by
  have hpath : ∀ names : List Name,
      (Key.decoded root bucket (names.map Name.text)).path = names.map Name.text := by
    intro names
    rw [Key.decoded_of_not_occurs hroot, Key.path_ofPath (isSegment_map_text names)]
  obtain ⟨m₁, hnew, hview⟩ := BucketMap.view_newObject m fresh₁ bucket.text
    (Key.decoded root bucket (segments.map Name.text)) object
  refine ⟨m₁, m₁, hnew, ?_, by rw [hview, hpath]⟩
  apply BucketMap.view_deleteObject_of_absent
  -- the entry that the removal looks for is no directory of the tree
  have hnone : m₁.view bucket.text ((segments ++ [file]).map Name.text) = none := by
    rw [hview, hpath, FlatMap.addItem, FlatMap.update, if_neg (by simp), hfile]
  intro o ho
  rw [hpath, FlatMap.items_of_none _ _ hnone] at ho
  simp at ho

end Addresses

def quietDisk : Disk where
  rename _ _ := true
  isDir _ := false
  file _ := { metadata := none, checkSum := none }
  now := .epoch
  nanoid := []

def rootD : List Name := [⟨['d'], by decide⟩]

theorem not_sameAddress_x :
    ¬SameAddress quietDisk (fun _ => .ok .none) (Path.ofNames rootD)
      (filePath (Path.ofNames rootD) ⟨['b'], by decide⟩ [] ⟨['x'], by decide⟩) Skipper.new :=
  not_sameAddress quietDisk _ _ _ _ _ (Path.isCanonical_ofNames rootD)

/-- The file `x` in the bucket `b` of the root `/d` is created and removed: the
tree keeps its object. -/
theorem created_and_removed_x :
    let root := Path.ofNames rootD
    let path := filePath root ⟨['b'], by decide⟩ [] ⟨['x'], by decide⟩
    let object : Object := { Object.named ['x'] with
      owner := .user ['t', 'e', 's', 't']
      modified := some quietDisk.now
      accessed := some quietDisk.now
      created := some quietDisk.now }
    ¬SameAddress quietDisk (fun _ => .ok .none) root path Skipper.new ∧
      handle quietDisk (fun _ => .ok .none) root Skipper.new
        { kind := .create .file, paths := [path] } =
          .ok ([.manager (.newObject ['b'] Key.root object)], Skipper.new) ∧
      handle quietDisk (fun _ => .ok .none) root Skipper.new
        { kind := .remove .file, paths := [path] } =
          .ok ([.manager (.deleteObject ['b'] ['x'] ['x'])], Skipper.new) ∧
      (do
        let m ← ({ BucketMap.new root 0 with
          tree := [(['b'], .default 1)] } : BucketMap).change 2
            (.newObject ['b'] Key.root object)
        let m ← m.change 3 (.deleteObject ['b'] ['x'] ['x'])
        return m.getObject ['b'] Key.root ['x']) = .ok (some object) := by
  intro root path object
  have hremoved : handle quietDisk (fun _ => .ok .none) root Skipper.new
      { kind := .remove .file, paths := [path] } =
        .ok ([.manager (.deleteObject ['b'] ['x'] ['x'])], Skipper.new) := by
    decide
  refine ⟨?_, by decide, hremoved, rfl⟩
  rintro ⟨b, key, object', kind, toldNew, toldDelete, skipper₁, skipper₂, hkind, hcreate, hnew,
    hremove, hdelete⟩
  obtain ⟨object'', hchange⟩ := newObject_below hkind hcreate hnew
  cases hremoved.symm.trans hremove
  simp only [List.mem_singleton, Told.manager.injEq, Change.deleteObject.injEq] at hdelete
  simp only [Change.newObject.injEq] at hchange
  have hkeys : Key.decoded rootD ⟨['b'], by decide⟩ [] = ['x'] :=
    hchange.2.1.symm.trans hdelete.2.1
  revert hkeys
  decide

/-! ## Paths that moved out of the root -/

def changes (told : List Told) : List Change :=
  told.filterMap fun
    | .manager change => some change
    | _ => none

def followUps (told : List Told) : List Event :=
  told.filterMap fun
    | .watcher event => some event
    | _ => none

def handleAll (disk : Disk) (whatIs : Path → Except Panic ManagerReply) (root : Path)
    (skipper : Skipper) (events : List Event) : Except Panic (List Told × Skipper) :=
  events.foldlM (fun (told, skipper) event => do
    let (more, skipper) ← handle disk whatIs root skipper event
    return (told ++ more, skipper)) ([], skipper)

/-- The changes that `Remove(Any)` for a path brings about, with the event that
the watcher sends itself after the manager's answer. -/
def changesOfRemoveAny (disk : Disk) (m : BucketMap) (skipper : Skipper) (path : Path) :
    Except Panic (List Change) := do
  let (told, skipper) ← handle disk (Manager.whatIs m) m.path skipper
    { kind := .remove .any, paths := [path] }
  let (more, _) ← handleAll disk (Manager.whatIs m) m.path skipper (followUps told)
  return changes (told ++ more)

/-- The manager gets one change, which a removal of this very path tells, too. -/
def Forwarded (disk : Disk) (m : BucketMap) (skipper : Skipper) (path : Path) : Prop :=
  ∃ change kind skipper', changesOfRemoveAny disk m skipper path = .ok [change] ∧
    (kind = RemoveKind.folder ∨ kind = RemoveKind.file) ∧
    handle disk (Manager.whatIs m) m.path skipper { kind := .remove kind, paths := [path] } =
      .ok ([.manager change], skipper')

section Forwarding

variable (disk : Disk) (m : BucketMap) (skipper : Skipper) (path : Path)

/-- Whatever the manager answers, the watcher tells itself at most an event
without a path, and that event tells nothing. -/
theorem handle_remove_any_of_reply {reply : ManagerReply}
    (hreply : Manager.whatIs m path = .ok reply) :
    changesOfRemoveAny disk m skipper path = .ok [] := by
  have hask : handle disk (Manager.whatIs m) m.path skipper
      { kind := .remove .any, paths := [path] } = .ok (match reply with
        | .isDir => ([.watcher { kind := .remove .folder, paths := [] }], skipper)
        | .isFile => ([.watcher { kind := .remove .file, paths := [] }], skipper)
        | .none => ([], skipper)) := by
    rw [handle]
    simp only [List.getLast?_singleton, unwrap_some, ok_bind, hreply]
    cases reply <;> rfl
  rw [changesOfRemoveAny, hask, ok_bind]
  cases reply <;> rfl

theorem changesOfRemoveAny_eq_nil {told : List Change}
    (htold : changesOfRemoveAny disk m skipper path = .ok told) : told = [] := by
  cases hreply : Manager.whatIs m path with
  | ok reply =>
      rw [handle_remove_any_of_reply disk m skipper path hreply] at htold
      exact (Except.ok.inj htold).symm
  | error e =>
      have hask : handle disk (Manager.whatIs m) m.path skipper
          { kind := .remove .any, paths := [path] } = .error e := by
        rw [handle]
        simp only [List.getLast?_singleton, unwrap_some, ok_bind, hreply, error_bind]
      rw [changesOfRemoveAny, hask, error_bind] at htold
      cases htold

theorem not_forwarded : ¬Forwarded disk m skipper path := by
  rintro ⟨change, kind, skipper', hchanges, -, -⟩
  exact absurd (changesOfRemoveAny_eq_nil disk m skipper path hchanges) (by simp)

end Forwarding

theorem bucket_moved_away :
    let root := Path.ofNames [⟨['d'], by decide⟩]
    let path := Path.ofNames [⟨['d'], by decide⟩, ⟨['b'], by decide⟩]
    let m : BucketMap := { BucketMap.new root 0 with tree := [(['b'], .default 1)] }
    changesOfRemoveAny quietDisk m Skipper.new path = .ok [] ∧
      handle quietDisk (Manager.whatIs m) root Skipper.new
        { kind := .remove .folder, paths := [path] } =
          .ok ([.manager (.deleteBucket ['b'])], Skipper.new) ∧
      ¬Forwarded quietDisk m Skipper.new path := by
  intro root path m
  have hnone : changesOfRemoveAny quietDisk m Skipper.new path = .ok [] := by decide
  refine ⟨hnone, by decide, ?_⟩
  rintro ⟨change, kind, skipper', hchanges, -, -⟩
  cases hnone.symm.trans hchanges

end EventWatcher

end WsHyper.Directory
