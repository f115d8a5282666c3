import WsHyper.Directory.BucketMap

/-!
# The collection of objects

The database keeps one document for each object, under the bucket and the key of
its directory.  A `Collection` answers `find`, `insert`, `delete` and `update` by
exact match; every document has an id of its own, and the unique index over key,
bucket and name turns a second insert away.  So is an object with a time that has
no text.
-/

namespace WsHyper.Directory

open WsHyper.Lib

abbrev ObjectId := Nat

structure Document where
  id : ObjectId
  bucket : Bucket
  key : Key
  object : Object
  /-- The field `object.name`, which only `set_name` writes. -/
  objectName : Option Str
  deriving DecidableEq

/-- Documents with different ids, and the id of the next one. -/
structure Collection where
  docs : List Document
  nextId : ObjectId
  ids_nodup : (docs.map Document.id).Nodup
  ids_lt : ∀ d ∈ docs, d.id < nextId

namespace Collection

def empty : Collection :=
  { docs := [], nextId := 0, ids_nodup := List.nodup_nil, ids_lt := by simp }

def findOne (ls : Collection) (filter : Document → Bool) : Option Document :=
  ls.docs.find? filter

def indexed (bucket : Bucket) (key : Key) (fileName : Str) (d : Document) : Bool :=
  d.bucket = bucket ∧ d.key = key ∧ d.object.fileName = fileName

/-- A document under a fresh id; `none` is the error of an object that has no document,
or of the unique index. -/
def insertOne (ls : Collection) (bucket : Bucket) (key : Key) (object : Object) :
    Option Collection :=
  if !object.encodes || ls.docs.any (indexed bucket key object.fileName) then none
  else
    some {
      docs := ls.docs ++ [{ id := ls.nextId, bucket, key, object, objectName := none }]
      nextId := ls.nextId + 1
      ids_nodup := by
        rw [List.map_append, List.map_singleton]
        apply List.Nodup.append ls.ids_nodup (List.nodup_singleton _)
        intro i hi hnew
        obtain ⟨d, hd, rfl⟩ := List.mem_map.1 hi
        have hlt := ls.ids_lt d hd
        rw [List.mem_singleton.1 hnew] at hlt
        exact absurd hlt (Nat.lt_irrefl _)
      ids_lt := by
        intro d hd
        rcases List.mem_append.1 hd with hold | hnew
        · exact Nat.lt_succ_of_lt (ls.ids_lt d hold)
        · rw [List.mem_singleton.1 hnew]
          exact Nat.lt_succ_self _ }

def keep (ls : Collection) (docs : List Document) (hdocs : docs.Sublist ls.docs) :
    Collection :=
  { docs
    nextId := ls.nextId
    ids_nodup := ls.ids_nodup.sublist (hdocs.map Document.id)
    ids_lt := fun d hd => ls.ids_lt d (hdocs.subset hd) }

def deleteOne (ls : Collection) (filter : Document → Bool) : Collection :=
  ls.keep (ls.docs.eraseP filter) List.eraseP_sublist

def deleteMany (ls : Collection) (filter : Document → Bool) : Collection :=
  ls.keep (ls.docs.filter fun d => !filter d) List.filter_sublist

/-- Rewrite documents; an update never changes an id. -/
def rewrite (ls : Collection) (docs : List Document)
    (hids : docs.map Document.id = ls.docs.map Document.id) : Collection :=
  { docs
    nextId := ls.nextId
    ids_nodup := hids ▸ ls.ids_nodup
    ids_lt := by
      intro d hd
      have hid : d.id ∈ ls.docs.map Document.id := hids ▸ List.mem_map_of_mem hd
      obtain ⟨d', hd', heq⟩ := List.mem_map.1 hid
      exact heq ▸ ls.ids_lt d' hd' }

/-- `update_many` rewrites exactly the documents that match. -/
def updateMany (ls : Collection) (filter : Document → Bool) (update : Document → Document)
    (hid : ∀ d, (update d).id = d.id) : Collection :=
  ls.rewrite (ls.docs.map fun d => if filter d then update d else d) (by
    rw [List.map_map]
    apply List.map_congr_left
    intro d _
    rw [Function.comp_apply, apply_ite Document.id, hid, ite_self])

def updateFirst (filter : Document → Bool) (update : Document → Document) :
    List Document → List Document
  | [] => []
  | d :: docs => if filter d then update d :: docs else d :: updateFirst filter update docs

theorem map_id_updateFirst (filter : Document → Bool) (update : Document → Document)
    (hid : ∀ d, (update d).id = d.id) (docs : List Document) :
    (updateFirst filter update docs).map Document.id = docs.map Document.id := by
  induction docs with
  | nil => rfl
  | cons d docs ih =>
      rw [updateFirst]
      split_ifs
      · rw [List.map_cons, List.map_cons, hid]
      · rw [List.map_cons, List.map_cons, ih]

def updateOne (ls : Collection) (filter : Document → Bool) (update : Document → Document)
    (hid : ∀ d, (update d).id = d.id) : Collection :=
  ls.rewrite (updateFirst filter update ls.docs) (map_id_updateFirst filter update hid ls.docs)

end Collection

namespace LocalStorage

open Collection

variable (ls : Collection) (bucket : Bucket) (key : Key)

def getObjectFilename (filename : Str) : Option Document :=
  ls.findOne (indexed bucket key filename)

def newObject (object : Object) : Option Collection := ls.insertOne bucket key object

def deleteObject (filename : Str) : Collection := ls.deleteOne (indexed bucket key filename)

/-- Writes `object.name`, which is not the field that has the name of the object. -/
def setName (fileName newName : Str) : Collection :=
  ls.updateOne (indexed bucket key fileName) (fun d => { d with objectName := some newName })
    fun _ => rfl

def setNameBucket (newName : Bucket) : Collection :=
  ls.updateMany (fun d => d.bucket = bucket) (fun d => { d with bucket := newName }) fun _ => rfl

/-- Rewrites the documents of this very key, to the bare segment. -/
def setNameKey (newName : Segment) : Collection :=
  ls.updateMany (fun d => d.bucket = bucket ∧ d.key = key) (fun d => { d with key := newName })
    fun _ => rfl

def deleteBucket : Collection := ls.deleteMany fun d => d.bucket = bucket

def deleteKey : Collection := ls.deleteMany fun d => d.bucket = bucket ∧ d.key = key

variable {ls bucket key}

theorem of_getObjectFilename {filename : Str} {d : Document}
    (hfound : getObjectFilename ls bucket key filename = some d) :
    d ∈ ls.docs ∧ d.bucket = bucket ∧ d.key = key ∧ d.object.fileName = filename := by
  rw [getObjectFilename, findOne] at hfound
  have hindexed := List.find?_some hfound
  simp only [indexed, decide_eq_true_eq] at hindexed
  exact ⟨List.mem_of_find?_eq_some hfound, hindexed⟩

end LocalStorage

end WsHyper.Directory
