import WsHyper.Lib.AssocMap
import WsHyper.Directory.Key

/-!
# What the watcher skips

The watcher renames entries itself and then sees these renames as events.  The
trackers remember which buckets, keys and objects it has to skip once.  Every
call gives the answer of the set it works on, and the tracker afterwards.
-/

namespace WsHyper.Directory

open WsHyper.Lib

abbrev BucketTracker := List Bucket

abbrev KeyTracker := AssocMap Bucket (List Key)

abbrev ObjectTracker := AssocMap Bucket (AssocMap Key (List Str))

structure Skipper where
  bucketTracker : BucketTracker
  keyTracker : KeyTracker
  objectTracker : ObjectTracker
  deriving DecidableEq

def Skipper.new : Skipper :=
  { bucketTracker := [], keyTracker := [], objectTracker := [] }

/-- `HashSet::insert` answers whether the element is new. -/
def setInsert {α : Type*} [DecidableEq α] (a : α) (set : List α) : Bool × List α :=
  (decide (a ∉ set), set.insert a)

/-- `HashSet::remove` answers whether the element was there. -/
def setRemove {α : Type*} [DecidableEq α] (a : α) (set : List α) : Bool × List α :=
  (decide (a ∈ set), set.filter (· ≠ a))

namespace BucketTracker

def toSkip (tracker : BucketTracker) (bucket : Bucket) : Bool × BucketTracker :=
  setInsert bucket tracker

def skipped (tracker : BucketTracker) (bucket : Bucket) : Bool × BucketTracker :=
  setRemove bucket tracker

end BucketTracker

namespace KeyTracker

def toSkip (tracker : KeyTracker) (bucket : Bucket) (key : Key) : Bool × KeyTracker :=
  let (isNew, keys) := setInsert key ((tracker.lookup bucket).getD [])
  (isNew, tracker.put bucket keys)

def skipped (tracker : KeyTracker) (bucket : Bucket) (key : Key) : Bool × KeyTracker :=
  match tracker.lookup bucket with
  | some keys =>
      let (found, keys) := setRemove key keys
      (found, tracker.put bucket keys)
  | none => (false, tracker)

end KeyTracker

namespace ObjectTracker

def toSkip (tracker : ObjectTracker) (bucket : Bucket) (key : Key) (fileName : Str) :
    Bool × ObjectTracker :=
  let keys := (tracker.lookup bucket).getD []
  let (isNew, names) := setInsert fileName ((keys.lookup key).getD [])
  (isNew, tracker.put bucket (keys.put key names))

def skipped (tracker : ObjectTracker) (bucket : Bucket) (key : Key) (fileName : Str) :
    Bool × ObjectTracker :=
  match tracker.lookup bucket with
  | some keys =>
      match keys.lookup key with
      | some names =>
          let (found, names) := setRemove fileName names
          (found, tracker.put bucket (keys.put key names))
      | none => (false, tracker)
  | none => (false, tracker)

end ObjectTracker

namespace Skipper

variable (skip : Skipper) (bucket : Bucket) (key : Key) (fileName : Str)

def skipBucket : Skipper :=
  { skip with bucketTracker := (BucketTracker.toSkip skip.bucketTracker bucket).2 }

def skipKey : Skipper :=
  { skip with keyTracker := (KeyTracker.toSkip skip.keyTracker bucket key).2 }

def skipObject : Skipper :=
  { skip with objectTracker := (ObjectTracker.toSkip skip.objectTracker bucket key fileName).2 }

def bucketSkipped : Bool × Skipper :=
  let (found, tracker) := BucketTracker.skipped skip.bucketTracker bucket
  (found, { skip with bucketTracker := tracker })

def keySkipped : Bool × Skipper :=
  let (found, tracker) := KeyTracker.skipped skip.keyTracker bucket key
  (found, { skip with keyTracker := tracker })

def objectSkipped : Bool × Skipper :=
  let (found, tracker) := ObjectTracker.skipped skip.objectTracker bucket key fileName
  (found, { skip with objectTracker := tracker })

/-! ## What is to be skipped -/

def TracksBucket : Prop := bucket ∈ skip.bucketTracker

def keysOf : List Key := (skip.keyTracker.lookup bucket).getD []

def TracksKey : Prop := key ∈ skip.keysOf bucket

def namesOf : List Str := (((skip.objectTracker.lookup bucket).getD []).lookup key).getD []

def TracksObject : Prop := fileName ∈ skip.namesOf bucket key

structure SameMembers (skip skip' : Skipper) : Prop where
  buckets : ∀ bucket, skip'.TracksBucket bucket ↔ skip.TracksBucket bucket
  keys : ∀ bucket key, skip'.TracksKey bucket key ↔ skip.TracksKey bucket key
  objects : ∀ bucket key fileName,
    skip'.TracksObject bucket key fileName ↔ skip.TracksObject bucket key fileName

theorem SameMembers.refl : SameMembers skip skip :=
  ⟨fun _ => Iff.rfl, fun _ _ => Iff.rfl, fun _ _ _ => Iff.rfl⟩

section Members

variable (bucket' : Bucket) (key' : Key) (fileName' : Str)

theorem bucketSkipped_fst_iff :
    (skip.bucketSkipped bucket).1 = true ↔ skip.TracksBucket bucket := by
  simp [TracksBucket, bucketSkipped, BucketTracker.skipped, setRemove]

@[simp] theorem tracksBucket_skipBucket :
    (skip.skipBucket bucket).TracksBucket bucket' ↔
      bucket' = bucket ∨ skip.TracksBucket bucket' := by
  simp [TracksBucket, skipBucket, BucketTracker.toSkip, setInsert]

@[simp] theorem tracksBucket_bucketSkipped :
    (skip.bucketSkipped bucket).2.TracksBucket bucket' ↔
      bucket' ≠ bucket ∧ skip.TracksBucket bucket' := by
  simp [TracksBucket, bucketSkipped, BucketTracker.skipped, setRemove, and_comm]

theorem keySkipped_fst_iff :
    (skip.keySkipped bucket key).1 = true ↔ skip.TracksKey bucket key := by
  simp only [keySkipped, KeyTracker.skipped, TracksKey, keysOf]
  cases hlookup : skip.keyTracker.lookup bucket with
  | none => simp
  | some keys => simp [setRemove]

@[simp] theorem tracksKey_skipKey :
    (skip.skipKey bucket key).TracksKey bucket' key' ↔
      (bucket' = bucket ∧ key' = key) ∨ skip.TracksKey bucket' key' := by
  simp only [TracksKey, keysOf, skipKey, KeyTracker.toSkip, setInsert, AssocMap.lookup_put]
  split_ifs with hbucket
  · subst hbucket
    simp
  · simp [Ne.symm hbucket]

@[simp] theorem tracksKey_keySkipped :
    (skip.keySkipped bucket key).2.TracksKey bucket' key' ↔
      ¬(bucket' = bucket ∧ key' = key) ∧ skip.TracksKey bucket' key' := by
  simp only [TracksKey, keysOf, keySkipped, KeyTracker.skipped]
  cases hlookup : skip.keyTracker.lookup bucket with
  | none =>
      by_cases hbucket : bucket' = bucket
      · subst hbucket
        simp [hlookup]
      · simp [hbucket]
  | some keys =>
      simp only [setRemove, AssocMap.lookup_put]
      split_ifs with hbucket
      · subst hbucket
        simp [hlookup, and_comm]
      · simp [Ne.symm hbucket]

theorem objectSkipped_fst_iff :
    (skip.objectSkipped bucket key fileName).1 = true ↔
      skip.TracksObject bucket key fileName := by
  simp only [objectSkipped, ObjectTracker.skipped, TracksObject, namesOf]
  cases hlookup : skip.objectTracker.lookup bucket with
  | none => simp
  | some keys =>
      cases hkeys : keys.lookup key with
      | none => simp [hkeys]
      | some names => simp [hkeys, setRemove]

@[simp] theorem tracksObject_skipObject :
    (skip.skipObject bucket key fileName).TracksObject bucket' key' fileName' ↔
      (bucket' = bucket ∧ key' = key ∧ fileName' = fileName) ∨
        skip.TracksObject bucket' key' fileName' := by
  simp only [TracksObject, namesOf, skipObject, ObjectTracker.toSkip, setInsert,
    AssocMap.lookup_put]
  by_cases hbucket : bucket = bucket'
  · subst hbucket
    rw [if_pos rfl, Option.getD_some, AssocMap.lookup_put]
    by_cases hkey : key = key'
    · subst hkey
      simp
    · simp [hkey, Ne.symm hkey]
  · simp [hbucket, Ne.symm hbucket]

@[simp] theorem tracksObject_objectSkipped :
    (skip.objectSkipped bucket key fileName).2.TracksObject bucket' key' fileName' ↔
      ¬(bucket' = bucket ∧ key' = key ∧ fileName' = fileName) ∧
        skip.TracksObject bucket' key' fileName' := by
  simp only [TracksObject, namesOf, objectSkipped, ObjectTracker.skipped]
  cases hlookup : skip.objectTracker.lookup bucket with
  | none =>
      by_cases hbucket : bucket' = bucket
      · subst hbucket
        simp [hlookup]
      · simp [hbucket]
  | some keys =>
      cases hkeys : keys.lookup key with
      | none =>
          by_cases hhere : bucket' = bucket ∧ key' = key
          · obtain ⟨rfl, rfl⟩ := hhere
            simp [hlookup, hkeys]
          · simp only [hkeys, ← and_assoc, hhere, false_and, not_false_iff, true_and]
      | some names =>
          simp only [hkeys, setRemove, AssocMap.lookup_put]
          by_cases hbucket : bucket = bucket'
          · subst hbucket
            rw [if_pos rfl, Option.getD_some, AssocMap.lookup_put, hlookup, Option.getD_some]
            by_cases hkey : key = key'
            · subst hkey
              simp [hkeys, and_comm]
            · simp [hkey, Ne.symm hkey]
          · simp [hbucket, Ne.symm hbucket]

end Members

end Skipper

end WsHyper.Directory
