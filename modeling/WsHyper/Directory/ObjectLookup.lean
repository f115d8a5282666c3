import WsHyper.Directory.CreateObject
import WsHyper.Directory.Echoes
import WsHyper.Directory.EventWatcher
import WsHyper.Directory.ObjectMoves

/-!
# Objects looked up over gRPC

`file_name` looks an object up in the tree under the bucket, the key and the name of a
request.  What `create_object` creates gets into the tree with the event of the new file:
under the address that was asked for, but with the name that the watcher gives the file.
-/

namespace WsHyper.Directory

open WsHyper.Lib

/-- `Status::not_found`, with its message. -/
structure NotFound where
  message : Str

namespace BucketGrpcSrv

def notFoundMessage (request : FileNameReq) : Str :=
  request.bucket ++ ['/'] ++ request.key ++ ['/'] ++ request.name ++ " not found".toList

/-- `file_name`; the tree is the one that the manager changes. -/
def fileName (tree : BucketMap) (request : FileNameReq) : Except NotFound FileNameReply :=
  match (tree.getObject request.bucket request.key request.name).map Object.fileName with
  | some fileName => .ok { fileName }
  | none => .error ⟨notFoundMessage request⟩

end BucketGrpcSrv

def FileNameReq.address (request : FileNameReq) : ObjectAddress :=
  ⟨request.bucket, Key.path request.key, request.name⟩

theorem FileNameReq.address_injective : Function.Injective FileNameReq.address := by
  rintro ⟨bucket, key, name⟩ ⟨bucket', key', name'⟩ hsame
  obtain ⟨rfl, hpath, rfl⟩ := ObjectAddress.mk.inj hsame
  have hkey : key = key' := by
    rw [← Key.ofPath_path key, ← Key.ofPath_path key']
    exact congrArg Key.ofPath hpath
  rw [hkey]

namespace BucketGrpcSrv

/-! ## What is found -/

theorem fileName_of_getObject {tree : BucketMap} {bucket : Bucket} {key : Key} {name : Str}
    {object : Object} (hobject : tree.getObject bucket key name = some object) :
    object.fileName = name := by
  obtain ⟨entry, -, hobjects⟩ := Option.bind_eq_some_iff.1 hobject
  obtain ⟨objects, -, hfind⟩ := Option.bind_eq_some_iff.1 hobjects
  simpa using List.find?_some hfind

/-- The reply is the name that was asked for, if the tree holds an object of that name. -/
theorem fileName_eq_ok_iff {tree : BucketMap} {request : FileNameReq} {reply : FileNameReply} :
    fileName tree request = .ok reply ↔
      request.address.HeldIn tree.view ∧ reply = { fileName := request.name } := by
  have hheld : request.address.HeldIn tree.view ↔
      (tree.getObject request.bucket request.key request.name).isSome :=
    ObjectAddress.heldIn_iff.trans BucketMap.getObject_isSome_iff.symm
  rw [hheld, fileName]
  cases hobject : tree.getObject request.bucket request.key request.name with
  | none => simp
  | some object =>
      rw [Option.map_some, fileName_of_getObject hobject]
      simp [eq_comm]

/-- A new object is found under its name, and everything else as before. -/
theorem fileName_newObject (tree : BucketMap) (fresh : Broker) (bucket : Bucket) (key : Key)
    (object : Object) :
    ∃ tree', tree.change fresh (.newObject bucket key object) = .ok tree' ∧
      ∀ request reply, fileName tree' request = .ok reply ↔
        fileName tree request = .ok reply ∨
          (tree.getEntry bucket key).isSome ∧ request = ⟨bucket, key, object.fileName⟩ ∧
            reply = { fileName := object.fileName } := by
  obtain ⟨tree', hchange, hview⟩ := BucketMap.view_newObject tree fresh bucket key object
  refine ⟨tree', hchange, fun request reply => ?_⟩
  have hentry : (tree.view bucket (Key.path key)).isSome = (tree.getEntry bucket key).isSome := by
    rw [BucketMap.view_eq_map_entryAt, Option.isSome_map, BucketMap.getEntry_eq]
  have hrequest : request.address = ⟨bucket, Key.path key, object.fileName⟩ ↔
      request = ⟨bucket, key, object.fileName⟩ :=
    FileNameReq.address_injective.eq_iff' rfl
  rw [fileName_eq_ok_iff, fileName_eq_ok_iff, hview, ObjectAddress.heldIn_addItem, hentry,
    hrequest]
  constructor
  · rintro ⟨hheld | ⟨hsome, rfl⟩, rfl⟩
    · exact .inl ⟨hheld, rfl⟩
    · exact .inr ⟨hsome, rfl, rfl⟩
  · rintro (⟨hheld, rfl⟩ | ⟨hsome, rfl, rfl⟩)
    · exact ⟨.inl hheld, rfl⟩
    · exact ⟨.inr ⟨hsome, rfl⟩, rfl⟩

/-! ## From the creation to the lookup -/

section Created

variable {server : BucketGrpcSrv} {fs : FileSystem} {refusal : Option CreateError}
  {request : FileNameReq} {file : Path}

theorem addressed_of_created (hfits : Fits server.path.path request)
    (hcreated : fs.Created (server.createObject fs refusal request).2 file) :
    Addressed server.path.path request file ∧ ∃ parent, parent ≠ server.path.path ∧
      file = parent.join (.ofStr request.name) := by
  rw [createObject] at hcreated
  cases hcreate : fs.createNew refusal (server.objectPath request) with
  | error error =>
      simp only [hcreate] at hcreated
      exact absurd hcreated (fs.not_created_self file)
  | ok fs' =>
      simp only [hcreate] at hcreated
      obtain ⟨-, dir, name, hfree, hlocate, rfl⟩ := FileSystem.createNew_eq_ok_iff.1 hcreate
      obtain rfl := (FileSystem.created_withFile_iff hfree).1 hcreated
      have haddressed := (addressed_iff_fits hlocate hfree).2 hfits
      have hcomponent := OsStr.isComponent_ofStr_iff.2 hfits.name
      obtain ⟨rfl, -, hwalk⟩ :=
        (FileSystem.locate_push_iff keyPath_ne_nil hcomponent.1.2.1).1 hlocate
      obtain ⟨segments, hdir, -⟩ := read_back_of_fits hfits hwalk
      refine ⟨haddressed, dir.path, ?_, rfl⟩
      rw [hdir]
      simp

end Created

theorem change_of_newObject {disk : Disk} {root parent : Path} {name : Str} {bucket : Bucket}
    {key : Key} {skip skip' : Skipper} {change : Option Change} (hparent : parent ≠ root)
    (hbucket : bucketOf root (parent.join (.ofStr name)) = .ok bucket)
    (hkey : Key.fromBucket bucket parent = some key)
    (hhandle : hdNewObjectWatcher disk (parent.join (.ofStr name)) root skip =
      .ok (change, skip')) :
    (change = none ∧ name ≠ NormalizeFileUtf8.newName disk.nanoid name ∧
        disk.rename (Path.joinStr parent name)
          (Path.joinStr parent (NormalizeFileUtf8.newName disk.nanoid name)) = false) ∨
      ∃ object, change = some (.newObject bucket key object) ∧
        object.fileName = NormalizeFileUtf8.newName disk.nanoid name := by
  have hrun := NormalizeFileUtf8.run_append_singleton parent name disk.nanoid
  have hroot : some parent ≠ some root := fun h => hparent (Option.some.inj h)
  rw [hdNewObjectWatcher, Path.join, Path.parent_append_singleton, if_neg hroot, hrun] at hhandle
  rw [Path.join] at hbucket
  split_ifs at hhandle with hname
  · dsimp only at hhandle
    split_ifs at hhandle with hrename
    · right
      rw [hbucket, ok_bind, hkey, unwrap_some, ok_bind] at hhandle
      obtain ⟨object, hobject, hchange⟩ := bind_eq_ok hhandle
      obtain ⟨rfl, -⟩ := Prod.mk.inj (Except.ok.inj hchange)
      exact ⟨object, rfl, Object.fileName_of_new_join hobject⟩
    · left
      obtain ⟨rfl, -⟩ := Prod.mk.inj (Except.ok.inj hhandle)
      exact ⟨rfl, hname, by simpa using hrename⟩
  · right
    dsimp only at hhandle
    rw [hbucket, ok_bind, unwrap_some, ok_bind, hkey, unwrap_some, ok_bind] at hhandle
    obtain ⟨object, hobject, hchange⟩ := bind_eq_ok hhandle
    obtain ⟨rfl, -⟩ := Prod.mk.inj (Except.ok.inj hchange)
    refine ⟨object, rfl, ?_⟩
    rw [← not_not.1 hname]
    exact Object.fileName_of_new_join hobject

/-- An object that is created over gRPC gets into the tree with the event of its file, unless
it cannot be renamed on disk: then it is found under the bucket and the key that it was
created with and its normal name, if the tree has the key, and all else is found as before. -/
theorem created_object_found {server : BucketGrpcSrv} {fs : FileSystem}
    {refusal : Option CreateError} {request : FileNameReq} {file : Path} {disk : Disk}
    {whatIs : Path → Except Panic ManagerReply} {skip skip' : Skipper} {told : List Told}
    (hfits : Fits server.path.path request)
    (hcreated : fs.Created (server.createObject fs refusal request).2 file)
    (hhandle : EventWatcher.handle disk whatIs server.path.path skip
      { kind := .create .file, paths := [file] } = .ok (told, skip')) :
    let toName := NormalizeFileUtf8.newName disk.nanoid request.name
    (told = [] ∧ request.name ≠ toName ∧
        ∀ parent, file.parent = some parent →
          disk.rename file (Path.joinStr parent toName) = false) ∨
      ∃ object, object.fileName = toName ∧
        told = [.manager (.newObject request.bucket request.key object)] ∧
        ∀ tree fresh, ∃ tree',
          tree.change fresh (.newObject request.bucket request.key object) = .ok tree' ∧
            ∀ request' reply, fileName tree' request' = .ok reply ↔
              fileName tree request' = .ok reply ∨
                (tree.getEntry request.bucket request.key).isSome ∧
                  request' = { request with name := toName } ∧ reply = { fileName := toName } := by
  intro toName
  obtain ⟨⟨-, hbucket, hkey, -⟩, parent, hparent, rfl⟩ := addressed_of_created hfits hcreated
  rw [Path.join, Path.parent_append_singleton, Option.bind_some] at hkey
  have hbucketOf : bucketOf server.path.path (parent.join (.ofStr request.name)) =
      .ok request.bucket := by
    rw [bucketOf, hbucket, ok_bind, unwrap_some]
  obtain ⟨⟨change, skip''⟩, hchange, htold⟩ := bind_eq_ok hhandle
  obtain ⟨rfl, -⟩ := Prod.mk.inj (Except.ok.inj htold)
  rcases change_of_newObject hparent hbucketOf hkey hchange with
    ⟨rfl, hname, hrename⟩ | ⟨object, rfl, hobject⟩
  · refine .inl ⟨rfl, hname, fun parent' hparent' => ?_⟩
    rw [Path.join, Path.parent_append_singleton, Option.some.injEq] at hparent'
    rwa [← hparent']
  · refine .inr ⟨object, hobject, rfl, fun tree fresh => ?_⟩
    obtain ⟨tree', hnew, hfound⟩ :=
      fileName_newObject tree fresh request.bucket request.key object
    refine ⟨tree', hnew, fun request' reply => ?_⟩
    rw [hfound, hobject]

/-! ## The object `x` of the bucket `b` in `/d` -/

def oneBucketSystem : FileSystem where
  entry path := if path <+: [.ofStr ['d'], .ofStr ['b']] then some .dir else none
  rooted := rfl
  parents := by
    intro path name hentry
    have hprefix : path ++ [name] <+: [.ofStr ['d'], .ofStr ['b']] := by
      by_contra hnot
      exact hentry (if_neg hnot)
    exact if_pos ((List.prefix_append _ _).trans hprefix)

def requestX : FileNameReq := { bucket := ['b'], key := ['.'], name := ['x'] }

theorem fits_requestX : Fits oneDirServer.path.path requestX where
  bucket := by decide
  name := by decide
  key := ⟨['/', 'd'], rfl, [], .inl ⟨by decide, rfl⟩⟩

def treeOfB : BucketMap := { BucketMap.new oneDirServer.path.path 0 with
  tree := [(['b'], .default 1)] }

theorem requestX_found :
    ∃ object tree', treeOfB.change 2 (.newObject ['b'] ['.'] object) = .ok tree' ∧
      fileName tree' requestX = .ok { fileName := ['x'] } := by
  have hcreated : oneBucketSystem.Created
      (oneDirServer.createObject oneBucketSystem none requestX).2
      [.ofStr ['d'], .ofStr ['b'], .ofStr ['x']] := ⟨rfl, by decide⟩
  have hhandle : ∃ told skip, EventWatcher.handle EventWatcher.quietDisk (fun _ => .ok .none)
      oneDirServer.path.path .new
      { kind := .create .file, paths := [[.ofStr ['d'], .ofStr ['b'], .ofStr ['x']]] } =
        .ok (told, skip) := ⟨_, _, rfl⟩
  obtain ⟨told, skip, hhandle⟩ := hhandle
  rcases created_object_found fits_requestX hcreated hhandle with
    ⟨-, hname, -⟩ | ⟨object, -, -, hfound⟩
  · exact absurd rfl hname
  · obtain ⟨tree', hchange, hreply⟩ := hfound treeOfB 2
    exact ⟨object, tree', hchange, (hreply _ _).2 (.inr ⟨rfl, rfl, rfl⟩)⟩

end BucketGrpcSrv

end WsHyper.Directory
