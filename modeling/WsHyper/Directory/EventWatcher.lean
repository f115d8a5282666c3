import WsHyper.Directory.Handlers
import WsHyper.Directory.Manager
import WsHyper.Directory.RenameControl

/-!
# The watcher of the directory

`EventWatcher.handle` turns one event of the file system into messages: changes
for the manager, sources and declines for `RenameControl`, and events for the
watcher itself.
-/

namespace WsHyper.Directory

open WsHyper.Lib

inductive CreateKind
  | any
  | file
  | folder
  | other
  deriving DecidableEq

inductive RemoveKind
  | any
  | file
  | folder
  | other
  deriving DecidableEq

inductive RenameMode
  | any
  | toMode
  | fromMode
  | both
  | other
  deriving DecidableEq

inductive EventKind
  | any
  | access
  | create (kind : CreateKind)
  | modifyName (mode : RenameMode)
  /-- The other kinds of `Modify`. -/
  | modify
  | remove (kind : RemoveKind)
  | other
  deriving DecidableEq

/-- An event of the file system; the paths are a stack with its top at the end. -/
structure Event where
  kind : EventKind
  paths : List Path
  deriving DecidableEq

inductive Told
  | manager (change : Change)
  | renameControl (message : RenameControl.Rename)
  | watcher (event : Event)
  deriving DecidableEq

/-- What a handler came back with: the change for the manager, if there is one. -/
def tellChange (result : Option Change × Skipper) : List Told × Skipper :=
  (result.1.toList.map .manager, result.2)

namespace EventWatcher

/-- One event, given the disk and the answer to `WhatIs`. -/
def handle (disk : Disk) (whatIs : Path → Except Panic ManagerReply) (root : Path)
    (skipper : Skipper) (event : Event) : Except Panic (List Told × Skipper) :=
  match event.kind with
  | .create .folder =>
      match event.paths.getLast? with
      | none => .ok ([], skipper)
      | some path => do
          let result ← hdNewBucketOrKeyWatcher disk path root skipper
          return tellChange result
  | .create _ =>
      match event.paths.getLast? with
      | none => .ok ([], skipper)
      | some path => do
          let result ← hdNewObjectWatcher disk path root skipper
          return tellChange result
  | .modifyName .fromMode => do
      let path ← unwrap event.paths.getLast?
      return ([.renameControl (.fromPath path)], skipper)
  | .modifyName .both =>
      match event.paths.reverse with
      | toPath :: fromPath :: _ => do
          let result ←
            if disk.isDir toPath then hdRenamePath disk root fromPath toPath skipper
            else hdRenameObject disk root fromPath toPath skipper
          let (changes, skipper) := tellChange result
          return (.renameControl (.decline fromPath) :: changes, skipper)
      | _ => .ok ([], skipper)
  | .remove .folder =>
      match event.paths.getLast? with
      | none => .ok ([], skipper)
      | some path => do
          let bucket ← bucketOf root path
          if path.parent = some root then
            return ([.manager (.deleteBucket bucket)], skipper)
          else
            let key ← unwrap (Key.fromBucket bucket path)
            return ([.manager (.deleteKey bucket key)], skipper)
  | .remove .file =>
      match event.paths.getLast? with
      | none => .ok ([], skipper)
      | some path => do
          let bucket ← bucketOf root path
          let key ← unwrap (Key.fromBucket bucket path)
          let fileName ← fileNameStr path
          return ([.manager (.deleteObject bucket key fileName)], skipper)
  | .remove _ => do
      let path ← unwrap event.paths.getLast?
      let reply ← whatIs path
      -- the events sent on carry no path
      match reply with
      | .isDir => return ([.watcher { kind := .remove .folder, paths := [] }], skipper)
      | .isFile => return ([.watcher { kind := .remove .file, paths := [] }], skipper)
      | .none => return ([], skipper)
  | _ => .ok ([], skipper)

end EventWatcher

end WsHyper.Directory
