import WsHyper.Lib.FlatSet
import WsHyper.Directory.Skipper

/-!
# The skipper as one flat set

The trackers nest sets in maps that are filled on demand and never emptied.
Seen from outside they are a single set of items, a bucket, a key in a bucket or
an object under a key: over all calls in all orders, an item is to be skipped
when the last call on it was a `to_skip`.
-/

namespace WsHyper.Directory

open WsHyper.Lib

inductive SkipItem
  | bucket (bucket : Bucket)
  | key (bucket : Bucket) (key : Key)
  | object (bucket : Bucket) (key : Key) (fileName : Str)
  deriving DecidableEq

namespace Skipper

/-- `to_skip` of the tracker that the item is for. -/
def toSkip (skip : Skipper) : SkipItem → Bool × Skipper
  | .bucket bucket =>
      let (isNew, tracker) := BucketTracker.toSkip skip.bucketTracker bucket
      (isNew, { skip with bucketTracker := tracker })
  | .key bucket key =>
      let (isNew, tracker) := KeyTracker.toSkip skip.keyTracker bucket key
      (isNew, { skip with keyTracker := tracker })
  | .object bucket key fileName =>
      let (isNew, tracker) := ObjectTracker.toSkip skip.objectTracker bucket key fileName
      (isNew, { skip with objectTracker := tracker })

/-- `skipped` of the tracker that the item is for. -/
def skipped (skip : Skipper) : SkipItem → Bool × Skipper
  | .bucket bucket => skip.bucketSkipped bucket
  | .key bucket key => skip.keySkipped bucket key
  | .object bucket key fileName => skip.objectSkipped bucket key fileName

/-- A call on one of the trackers, an insert being a `to_skip`. -/
def call : SetCall SkipItem → Skipper → Bool × Skipper
  | .insert item, skip => skip.toSkip item
  | .remove item, skip => skip.skipped item

def Tracks (skip : Skipper) : SkipItem → Prop
  | .bucket bucket => skip.TracksBucket bucket
  | .key bucket key => skip.TracksKey bucket key
  | .object bucket key fileName => skip.TracksObject bucket key fileName

theorem toSkip_fst_iff (skip : Skipper) (item : SkipItem) :
    (skip.toSkip item).1 = true ↔ ¬skip.Tracks item := by
  cases item with
  | bucket bucket => simp [toSkip, BucketTracker.toSkip, setInsert, Tracks, TracksBucket]
  | key bucket key => simp [toSkip, KeyTracker.toSkip, setInsert, Tracks, TracksKey, keysOf]
  | object bucket key fileName =>
      simp [toSkip, ObjectTracker.toSkip, setInsert, Tracks, TracksObject, namesOf]

theorem skipped_fst_iff (skip : Skipper) (item : SkipItem) :
    (skip.skipped item).1 = true ↔ skip.Tracks item := by
  cases item with
  | bucket bucket => exact skip.bucketSkipped_fst_iff bucket
  | key bucket key => exact skip.keySkipped_fst_iff bucket key
  | object bucket key fileName => exact skip.objectSkipped_fst_iff bucket key fileName

theorem tracks_toSkip_iff (skip : Skipper) (item other : SkipItem) :
    (skip.toSkip item).2.Tracks other ↔ other = item ∨ skip.Tracks other := by
  cases item with
  | bucket bucket =>
      have hstate : (skip.toSkip (.bucket bucket)).2 = skip.skipBucket bucket := rfl
      rw [hstate]
      cases other with
      | bucket => simp [Tracks]
      | key => simp [Tracks, TracksKey, keysOf, skipBucket]
      | object => simp [Tracks, TracksObject, namesOf, skipBucket]
  | key bucket key =>
      have hstate : (skip.toSkip (.key bucket key)).2 = skip.skipKey bucket key := rfl
      rw [hstate]
      cases other with
      | bucket => simp [Tracks, TracksBucket, skipKey]
      | key => simp [Tracks]
      | object => simp [Tracks, TracksObject, namesOf, skipKey]
  | object bucket key fileName =>
      have hstate : (skip.toSkip (.object bucket key fileName)).2 =
          skip.skipObject bucket key fileName := rfl
      rw [hstate]
      cases other with
      | bucket => simp [Tracks, TracksBucket, skipObject]
      | key => simp [Tracks, TracksKey, keysOf, skipObject]
      | object => simp [Tracks]

theorem tracks_skipped_iff (skip : Skipper) (item other : SkipItem) :
    (skip.skipped item).2.Tracks other ↔ other ≠ item ∧ skip.Tracks other := by
  cases item with
  | bucket bucket =>
      rw [skipped]
      cases other with
      | bucket => simp [Tracks]
      | key => simp [Tracks, TracksKey, keysOf, bucketSkipped]
      | object => simp [Tracks, TracksObject, namesOf, bucketSkipped]
  | key bucket key =>
      rw [skipped]
      cases other with
      | bucket => simp [Tracks, TracksBucket, keySkipped]
      | key => simp [Tracks]
      | object => simp [Tracks, TracksObject, namesOf, keySkipped]
  | object bucket key fileName =>
      rw [skipped]
      cases other with
      | bucket => simp [Tracks, TracksBucket, objectSkipped]
      | key => simp [Tracks, TracksKey, keysOf, objectSkipped]
      | object => simp [Tracks]

/-- The three nested trackers are one flat set. -/
theorem isFlatSet : IsFlatSet call Tracks where
  insert_fst := toSkip_fst_iff
  remove_fst := skipped_fst_iff
  holds_insert := tracks_toSkip_iff
  holds_remove := tracks_skipped_iff

theorem not_tracks_new (item : SkipItem) : ¬Skipper.new.Tracks item := by
  cases item <;> simp [Skipper.new, Tracks, TracksBucket, TracksKey, keysOf, TracksObject, namesOf]

def after (calls : List (SetCall SkipItem)) : Skipper := afterCalls call Skipper.new calls

/-- Over all sequences of calls, `skipped` answers whether the last call on the item was a
`to_skip`, `to_skip` whether it was none, and calls on other items change neither answer. -/
theorem skipped_after_iff (calls : List (SetCall SkipItem)) (item : SkipItem) :
    (((after calls).skipped item).1 = true ↔ SetCall.Pending calls item) ∧
    (((after calls).toSkip item).1 = true ↔ ¬SetCall.Pending calls item) ∧
    ∀ before c later, calls = before ++ c :: later → c.item ≠ item →
      ((after calls).skipped item).1 = ((after (before ++ later)).skipped item).1 ∧
      ((after calls).toSkip item).1 = ((after (before ++ later)).toSkip item).1 := by
  have hskipped : ∀ calls, ((after calls).skipped item).1 = true ↔ SetCall.Pending calls item :=
    fun calls => isFlatSet.remove_afterCalls_fst_iff not_tracks_new calls item
  have htoSkip : ∀ calls, ((after calls).toSkip item).1 = true ↔ ¬SetCall.Pending calls item :=
    fun calls => isFlatSet.insert_afterCalls_fst_iff not_tracks_new calls item
  refine ⟨hskipped calls, htoSkip calls, ?_⟩
  rintro before c later rfl hne
  have hothers := SetCall.pending_append_cons_iff before later hne
  exact ⟨Bool.eq_iff_iff.2 (by rw [hskipped, hskipped, hothers]),
    Bool.eq_iff_iff.2 (by rw [htoSkip, htoSkip, hothers])⟩

/-- The key `k` is to be skipped in the bucket `a`; asking about it in the bucket `b`
changes no answer. -/
theorem skipped_after_key :
    ((after [.insert (.key ['a'] ['k']), .remove (.key ['b'] ['k'])]).skipped
        (.key ['a'] ['k'])).1 =
      ((after [.insert (.key ['a'] ['k'])]).skipped (.key ['a'] ['k'])).1 :=
  ((skipped_after_iff [.insert (.key ['a'] ['k']), .remove (.key ['b'] ['k'])]
    (.key ['a'] ['k'])).2.2 [.insert (.key ['a'] ['k'])] (.remove (.key ['b'] ['k'])) [] rfl
      (by decide)).1

end Skipper

end WsHyper.Directory
