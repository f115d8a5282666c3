import WsHyper.Lib.Branching
import WsHyper.Directory.Key
import WsHyper.Directory.Object
import Mathlib.Data.Multiset.AddSub

/-!
# The tree of buckets and its changes

`BucketMap` mirrors the watched directory: a map from buckets to entries, each
with its objects, its keys and the broker of its observers.  `change` applies a
`Change` to it.  A mutable borrow of the source is the entry reached together
with the function that writes an entry back in its place, and the brokers that
`KeyEntry::default` starts are an argument: a change starts at most one.
-/

namespace WsHyper.Directory

open WsHyper.Lib WsHyper.Lib.Text

/-- The reference of a started broker. -/
abbrev Broker := Nat

structure KeyEntry where
  objects : Option (List Object)
  keys : Option (List (Segment × KeyEntry))
  broker : Broker

/-- `KeyEntry::default`, which starts the broker it holds. -/
def KeyEntry.default (broker : Broker) : KeyEntry :=
  { objects := none, keys := none, broker }

structure BucketMap where
  path : Path
  tree : AssocMap Bucket KeyEntry
  broker : Broker

inductive Change
  | newObject (bucket : Bucket) (key : Key) (object : Object)
  | newKey (bucket : Bucket) (key : Key)
  | newBucket (bucket : Bucket)
  | nameObject (bucket : Bucket) (key : Key) (fromName toName : Str)
  | nameBucket (fromName toName : Bucket)
  | nameKey (bucket : Bucket) (fromKey : Key) (toName : Segment)
  | deleteObject (bucket : Bucket) (key : Key) (fileName : Str)
  | deleteKey (bucket : Bucket) (key : Key)
  | deleteBucket (bucket : Bucket)
  deriving DecidableEq

/-- Give the first object called `fromName` the name `toName`. -/
def setFileName (fromName toName : Str) : List Object → Option (List Object)
  | [] => none
  | object :: objects =>
      if object.fileName = fromName then some ({ object with fileName := toName } :: objects)
      else (setFileName fromName toName objects).map (object :: ·)

/-- `Vec::swap_remove`: the last object takes the place of the removed one. -/
def swapRemove (objects : List Object) (idx : Nat) : List Object :=
  match objects.getLast? with
  | some last => (objects.set idx last).dropLast
  | none => []

namespace BucketMap

/-- `BucketMap::new` for a directory that exists. -/
def new (path : Path) (broker : Broker) : BucketMap := { path, tree := [], broker }

def getEntry (m : BucketMap) (bucket : Bucket) (key : Key) : Option KeyEntry :=
  if key.isRoot then m.tree.lookup bucket
  else do
    let entry ← m.tree.lookup bucket
    key.intoIter.foldlM (fun entry segment => do
      let keys ← entry.keys
      keys.lookup segment) entry

def getObject (m : BucketMap) (bucket : Bucket) (key : Key) (fileName : Str) :
    Option Object := do
  let entry ← m.getEntry bucket key
  let objects ← entry.objects
  objects.find? fun object => object.fileName = fileName

/-- The keys of an entry as a branching of the tree.  The data of an entry are
its objects, in no order, and its broker. -/
def branching : Branching Segment (Multiset Object × Broker) KeyEntry where
  keys entry := entry.keys
  withKeys entry map := { entry with keys := some map }
  data entry := (entry.objects.getD [], entry.broker)
  keys_withKeys _ _ := rfl
  data_withKeys _ _ := rfl

/-- `BTreeMap::get_mut` on the buckets. -/
def getMutBucket (m : BucketMap) (bucket : Bucket) :
    Option (KeyEntry × (KeyEntry → BucketMap)) :=
  (m.tree.lookup bucket).map fun entry =>
    (entry, fun entry' => { m with tree := m.tree.insert bucket entry' })

def getMutEntry (m : BucketMap) (bucket : Bucket) (key : Key) :
    Option (KeyEntry × (KeyEntry → BucketMap)) :=
  if key.isRoot then m.getMutBucket bucket
  else do
    let (entry, write) ← m.getMutBucket bucket
    let (entry', write') ← branching.borrow entry key.intoIter
    return (entry', fun u => write (write' u))

/-- Run `body` on the keys of a borrowed entry; `unwrap` panics without keys. -/
def withKeys (m : BucketMap) (borrowed : Option (KeyEntry × (KeyEntry → BucketMap)))
    (body : AssocMap Segment KeyEntry → Option (AssocMap Segment KeyEntry)) :
    Except Panic BucketMap :=
  match borrowed with
  | none => .ok m
  | some (entry, write) => do
      let keys ← unwrap entry.keys
      match body keys with
      | none => return m
      | some keys' => return write { entry with keys := some keys' }

/-- Borrow the entry that holds the last segment of a key: the source walks to
the parent, or takes the bucket itself for a key of one segment. -/
def getMutParent (m : BucketMap) (bucket : Bucket) (key : Key) :
    Option (KeyEntry × (KeyEntry → BucketMap)) × Segment :=
  match rsplitOnce '/' key with
  | some (parent, segment) => (m.getMutEntry bucket parent, segment)
  | none => (m.getMutBucket bucket, key)

/-- `BucketMap::change`; `fresh` is the broker that an entry made by it gets. -/
def change (m : BucketMap) (fresh : Broker) : Change → Except Panic BucketMap
  | .newObject bucket key object =>
      match m.getMutEntry bucket key with
      | none => .ok m
      | some (entry, write) =>
          .ok (write { entry with objects := some (entry.objects.getD [] ++ [object]) })
  | .newKey bucket key =>
      let (borrowed, segment) := m.getMutParent bucket key
      m.withKeys borrowed fun keys => some (keys.orInsert segment (.default fresh))
  | .newBucket bucket => .ok { m with tree := m.tree.orInsert bucket (.default fresh) }
  | .nameObject bucket key fromName toName =>
      match m.getMutEntry bucket key with
      | none => .ok m
      | some (entry, write) =>
          match entry.objects.bind (setFileName fromName toName) with
          | some objects => .ok (write { entry with objects := some objects })
          | none => .ok m
  | .nameBucket fromName toName =>
      -- a taken `toName` is reported and then overwritten
      match m.tree.lookup fromName with
      | some entry => .ok { m with tree := (m.tree.erase fromName).insert toName entry }
      | none => .ok m
  | .nameKey bucket fromKey toName =>
      let (borrowed, segment) := m.getMutParent bucket fromKey
      m.withKeys borrowed fun keys =>
        if (keys.lookup toName).isSome then none
        else
          -- `unwrap_or_default`: a missing source still makes an entry
          let old := keys.lookup segment
          some ((keys.erase segment).insert toName (old.getD (.default fresh)))
  | .deleteObject bucket key fileName =>
      match m.getMutEntry bucket key with
      | none => .ok m
      | some (entry, write) =>
          match entry.objects with
          | none => .ok m
          | some objects =>
              match objects.findIdx? fun object => object.fileName = fileName with
              | some idx => .ok (write { entry with objects := some (swapRemove objects idx) })
              | none => .ok m
  | .deleteKey bucket key =>
      let (borrowed, segment) := m.getMutParent bucket key
      m.withKeys borrowed fun keys =>
        if (keys.lookup segment).isSome then some (keys.erase segment) else none
  | .deleteBucket bucket => .ok { m with tree := m.tree.erase bucket }

end BucketMap

end WsHyper.Directory
