import WsHyper.Directory.Decode
import WsHyper.Directory.LocalStorage

/-!
# The manager

The manager owns the tree and the database.  A change goes to the database first
and to the tree then; the watcher may ask what a path is in the tree.
-/

namespace WsHyper.Directory

open WsHyper.Lib

structure Manager where
  state : BucketMap
  localStorage : Collection

inductive ManagerReply
  | none
  | isDir
  | isFile
  deriving DecidableEq

/-- What a change does to the database; an insert that fails is only logged. -/
def changeLocalStorage (ls : Collection) : Change → Collection
  | .newObject bucket key object => (LocalStorage.newObject ls bucket key object).getD ls
  | .deleteObject bucket key fileName => LocalStorage.deleteObject ls bucket key fileName
  | .nameObject bucket key fromName toName =>
      LocalStorage.setName ls bucket key fromName toName
  | .deleteBucket bucket => LocalStorage.deleteBucket ls bucket
  | .nameBucket fromName toName => LocalStorage.setNameBucket ls fromName toName
  | .nameKey bucket fromKey toName => LocalStorage.setNameKey ls bucket fromKey toName
  | .deleteKey bucket key => LocalStorage.deleteKey ls bucket key
  | .newKey _ _ | .newBucket _ => ls

namespace Manager

/-- `handle` of a change. -/
def handleChange (manager : Manager) (fresh : Broker) (change : Change) :
    Except Panic Manager := do
  let localStorage := changeLocalStorage manager.localStorage change
  let state ← manager.state.change fresh change
  return { state, localStorage }

/-- `handle` of `WhatIs`. -/
def whatIs (tree : BucketMap) (path : Path) : Except Panic ManagerReply :=
  if path.parent = some tree.path then .ok .isDir
  else do
    let bucket ← Bucket.findBucket tree.path path
    let bucket ← unwrap bucket
    let key ← unwrap (Key.fromBucket bucket path)
    if (tree.getEntry bucket key).isSome then return .isDir else return .isFile

end Manager

end WsHyper.Directory
