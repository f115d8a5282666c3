import WsHyper.Directory.LegalNames
import WsHyper.Directory.RemoveEvents
import WsHyper.Directory.Addresses

/-!
# The echo of the watcher's own renames

A handler that renames an entry marks it, and skips the rename event that follows.  A new
file is marked and looked up under one address.  A directory is marked under the name that
the event gave and looked up under the one it was renamed to: only buckets, of which the
mark is the new name itself, are skipped.
-/

namespace WsHyper.Directory

open WsHyper.Lib

variable {root : CanonicalPath}

/-! ## New files -/

section NewFiles

variable {disk : Disk} {dir : BucketDir root} {x : Name} {skip : Skipper}

/-- A new file, and the rename event that follows if the handler renames it. -/
def handleNewFile (disk : Disk) (dir : BucketDir root) (x : Name) (skip : Skipper) :
    Except Panic (List Change × Skipper) := do
  let path := dir.path.join (.ofStr x.text)
  let toName := NormalizeFileUtf8.cleanName x.text
  let (change, skip) ← hdNewObjectWatcher disk path root.path skip
  if x.text ≠ toName ∧
      disk.rename (Path.joinStr dir.path x.text) (Path.joinStr dir.path toName) then
    let (echo, skip) ← hdRenameObject disk root.path path (dir.path.join (.ofStr toName)) skip
    return (change.toList ++ echo.toList, skip)
  else return (change.toList, skip)

/-- One change in all, with the address that the file has under its normal name, and no
mark is left over. -/
def AnnouncedOnce (disk : Disk) (dir : BucketDir root) (x : Name) (skip : Skipper) : Prop :=
  let toName := NormalizeFileUtf8.cleanName x.text
  ∃ bucket key object skip',
    handleNewFile disk dir x skip = .ok ([.newObject bucket key object], skip') ∧
      object.fileName = toName ∧ skip.SameMembers skip' ∧
      ∃ object' skip'', hdNewObjectWatcher disk (dir.path.join (.ofStr toName)) root.path skip =
        .ok (some (.newObject bucket key object'), skip'')

def CanAnnounce (disk : Disk) (dir : BucketDir root) (x : Name) : Prop :=
  let toName := NormalizeFileUtf8.cleanName x.text
  dir.path.toStr.isSome ∧
    (x.text ≠ toName →
      disk.rename (Path.joinStr dir.path x.text) (Path.joinStr dir.path toName) = true) ∧
    (disk.file (dir.path.join (.ofStr toName))).Expressible

theorem hdNewObjectWatcher_of_clean {name : Str}
    (hname : name = NormalizeFileUtf8.newName disk.nanoid name) :
    hdNewObjectWatcher disk (dir.path.join (.ofStr name)) root.path skip =
      objectAddress root.path (dir.path.join (.ofStr name)) >>= fun address =>
        Object.new disk.now (dir.path.join (.ofStr name)) (disk.file (dir.path.join (.ofStr name)))
            (.user ['t', 'e', 's', 't']) >>= fun object =>
          .ok (some (.newObject address.1 address.2 object), skip) := by
  have hrun := NormalizeFileUtf8.run_append_singleton dir.path name disk.nanoid
  rw [if_neg (not_not.2 hname)] at hrun
  have hroot : some dir.path ≠ some root.path := fun h => dir.path_ne_root (Option.some.inj h)
  rw [hdNewObjectWatcher, Path.join, Path.parent_append_singleton, if_neg hroot, hrun,
    objectAddress]
  simp only [bind_assoc, Path.parent_append_singleton]
  rfl

theorem hdNewObjectWatcher_of_renamed {name toName : Str}
    (htoName : toName = NormalizeFileUtf8.newName disk.nanoid name) (hname : name ≠ toName) :
    hdNewObjectWatcher disk (dir.path.join (.ofStr name)) root.path skip =
      if disk.rename (Path.joinStr dir.path name) (Path.joinStr dir.path toName) then
        objectAddress root.path (dir.path.join (.ofStr name)) >>= fun address =>
          Object.new disk.now (Path.joinStr dir.path toName)
              (disk.file (Path.joinStr dir.path toName)) (.user ['T', 'e', 's', 't']) >>=
            fun object => .ok (some (.newObject address.1 address.2 object),
              skip.skipObject address.1 address.2 toName)
      else .ok (none, skip) := by
  have hrun := NormalizeFileUtf8.run_append_singleton dir.path name disk.nanoid
  rw [← htoName, if_pos hname] at hrun
  have hroot : some dir.path ≠ some root.path := fun h => dir.path_ne_root (Option.some.inj h)
  rw [hdNewObjectWatcher, Path.join, Path.parent_append_singleton, if_neg hroot, hrun,
    objectAddress]
  simp only [bind_assoc, Path.parent_append_singleton, unwrap_some, ok_bind]
  rfl

section Handled

theorem newName_cleanName {nanoid name : Str}
    (hclean : NormalizeFileUtf8.cleanName name ≠ []) :
    NormalizeFileUtf8.newName nanoid (NormalizeFileUtf8.cleanName name) =
      NormalizeFileUtf8.cleanName name := by
  rw [NormalizeFileUtf8.newName_of_cleanName (by rwa [cleanName_cleanName]),
    cleanName_cleanName]

variable {bucket : Bucket} {key : Key} {object : Object} {skip' : Skipper}

theorem address_of_announced (hclean : NormalizeFileUtf8.cleanName x.text ≠ [])
    (hsome : hdNewObjectWatcher disk
      (dir.path.join (.ofStr (NormalizeFileUtf8.cleanName x.text))) root.path skip =
        .ok (some (.newObject bucket key object), skip')) :
    objectAddress root.path (dir.path.join (.ofStr (NormalizeFileUtf8.cleanName x.text))) =
        .ok (bucket, key) ∧
      (disk.file (dir.path.join (.ofStr (NormalizeFileUtf8.cleanName x.text)))).Expressible ∧
        object.fileName = NormalizeFileUtf8.cleanName x.text ∧ skip' = skip := by
  rw [hdNewObjectWatcher_of_clean (newName_cleanName hclean).symm] at hsome
  obtain ⟨address, haddress, hsome⟩ := bind_eq_ok hsome
  obtain ⟨object', hobject, hsome⟩ := bind_eq_ok hsome
  cases hsome
  exact ⟨haddress, (Object.completes_new_iff _ _ _ _ _).1 ⟨_, hobject⟩,
    Object.fileName_of_new_join hobject, rfl⟩

theorem exists_announced (skip : Skipper) (hclean : NormalizeFileUtf8.cleanName x.text ≠ [])
    (haddress : objectAddress root.path
      (dir.path.join (.ofStr (NormalizeFileUtf8.cleanName x.text))) = .ok (bucket, key))
    (hexpressible :
      (disk.file (dir.path.join (.ofStr (NormalizeFileUtf8.cleanName x.text)))).Expressible) :
    ∃ object skip', hdNewObjectWatcher disk
      (dir.path.join (.ofStr (NormalizeFileUtf8.cleanName x.text))) root.path skip =
        .ok (some (.newObject bucket key object), skip') := by
  obtain ⟨object, hobject⟩ := (Object.completes_new_iff disk.now dir.path
    (NormalizeFileUtf8.cleanName x.text) _ (.user ['t', 'e', 's', 't'])).2 hexpressible
  refine ⟨object, skip, ?_⟩
  rw [hdNewObjectWatcher_of_clean (newName_cleanName hclean).symm, haddress, ok_bind]
  exact congrArg (· >>= _) hobject

theorem handleNewFile_of_clean (hname : x.text = NormalizeFileUtf8.cleanName x.text)
    {change : Option Change}
    (hresult : hdNewObjectWatcher disk
      (dir.path.join (.ofStr (NormalizeFileUtf8.cleanName x.text))) root.path skip =
        .ok (change, skip')) :
    handleNewFile disk dir x skip = .ok (change.toList, skip') := by
  rw [← hname] at hresult
  rw [handleNewFile, hresult, ok_bind]
  simp only [← hname, ne_eq, not_true_eq_false, false_and, if_false]
  rfl

theorem handleNewFile_of_renamed (hclean : NormalizeFileUtf8.cleanName x.text ≠ [])
    (hname : x.text ≠ NormalizeFileUtf8.cleanName x.text)
    (hrename : disk.rename (Path.joinStr dir.path x.text)
      (Path.joinStr dir.path (NormalizeFileUtf8.cleanName x.text)) = true)
    (haddress : objectAddress root.path
      (dir.path.join (.ofStr (NormalizeFileUtf8.cleanName x.text))) = .ok (bucket, key))
    (hobject : Object.new disk.now (Path.joinStr dir.path (NormalizeFileUtf8.cleanName x.text))
      (disk.file (Path.joinStr dir.path (NormalizeFileUtf8.cleanName x.text)))
      (.user ['T', 'e', 's', 't']) = .ok object) :
    handleNewFile disk dir x skip = .ok ([.newObject bucket key object],
      ((skip.skipObject bucket key (NormalizeFileUtf8.cleanName x.text)).objectSkipped bucket key
        (NormalizeFileUtf8.cleanName x.text)).2) := by
  have hfirst : hdNewObjectWatcher disk (dir.path.join (.ofStr x.text)) root.path skip =
      .ok (some (.newObject bucket key object),
        skip.skipObject bucket key (NormalizeFileUtf8.cleanName x.text)) := by
    rw [hdNewObjectWatcher_of_renamed (NormalizeFileUtf8.newName_of_cleanName hclean).symm hname,
      if_pos hrename, objectAddress_join_eq dir _ (.ofStr (NormalizeFileUtf8.cleanName x.text)),
      haddress, ok_bind, hobject]
    rfl
  have hrun : NormalizeFileUtf8.run disk.nanoid
      (dir.path.join (.ofStr (NormalizeFileUtf8.cleanName x.text))) =
        .ok (.not (NormalizeFileUtf8.cleanName x.text)) := by
    rw [Path.join, NormalizeFileUtf8.run_append_singleton, newName_cleanName hclean,
      if_neg (not_not.2 rfl)]
  have hfound : ((skip.skipObject bucket key
      (NormalizeFileUtf8.cleanName x.text)).objectSkipped bucket key
        (NormalizeFileUtf8.cleanName x.text)).1 = true := by
    rw [Skipper.objectSkipped_fst_iff, Skipper.tracksObject_skipObject]
    exact .inl ⟨rfl, rfl, rfl⟩
  rw [handleNewFile, hfirst, ok_bind]
  simp only [hdRenameObject_of_not haddress hrun, if_pos hfound]
  rw [if_pos ⟨hname, hrename⟩]
  rfl

end Handled

/-- A mark that is set and found again leaves the trackers as they were. -/
theorem Skipper.sameMembers_objectSkipped {bucket : Bucket} {key : Key} {fileName : Str}
    (hskip : ¬skip.TracksObject bucket key fileName) :
    skip.SameMembers
      ((skip.skipObject bucket key fileName).objectSkipped bucket key fileName).2 where
  buckets _ := Iff.rfl
  keys _ _ := Iff.rfl
  objects bucket' key' fileName' := by
    rw [tracksObject_objectSkipped, tracksObject_skipObject]
    constructor
    · rintro ⟨hother, hsame | htracks⟩
      · exact absurd hsame hother
      · exact htracks
    · intro htracks
      refine ⟨?_, .inr htracks⟩
      rintro ⟨rfl, rfl, rfl⟩
      exact hskip htracks

theorem announcedOnce_iff (disk : Disk) (dir : BucketDir root) (x : Name) (skip : Skipper)
    (hclean : NormalizeFileUtf8.cleanName x.text ≠ [])
    (hskip : ∀ bucket key, objectAddress root.path
        (dir.path.join (.ofStr (NormalizeFileUtf8.cleanName x.text))) = .ok (bucket, key) →
      ¬skip.TracksObject bucket key (NormalizeFileUtf8.cleanName x.text)) :
    AnnouncedOnce disk dir x skip ↔ CanAnnounce disk dir x := by
  constructor
  · rintro ⟨bucket, key, object, skip', honce, -, -, object', skip'', hagain⟩
    obtain ⟨haddress, hexpressible, -⟩ := address_of_announced hclean hagain
    refine ⟨?_, fun hname => ?_, hexpressible⟩
    · by_contra htext
      obtain ⟨panic, hpanic⟩ := objectAddress_of_not_text dir
        (.ofStr (NormalizeFileUtf8.cleanName x.text)) htext
      cases haddress.symm.trans hpanic
    · -- without the rename there is no change
      by_contra hrename
      rw [handleNewFile, hdNewObjectWatcher_of_renamed
        (NormalizeFileUtf8.newName_of_cleanName hclean).symm hname, if_neg hrename,
        ok_bind] at honce
      simp only [hrename, and_false, Bool.false_eq_true, if_false] at honce
      cases honce
  · rintro ⟨htext, hrename, hexpressible⟩
    obtain ⟨bucket, key, haddress, -⟩ := objectAddress_of_text dir
      (.ofStr (NormalizeFileUtf8.cleanName x.text)) htext
    obtain ⟨object', skip'', hagain⟩ := exists_announced skip hclean haddress hexpressible
    by_cases hname : x.text = NormalizeFileUtf8.cleanName x.text
    · obtain ⟨-, -, hfileName, rfl⟩ := address_of_announced hclean hagain
      exact ⟨bucket, key, object', _, handleNewFile_of_clean hname hagain, hfileName,
        .refl _, object', _, hagain⟩
    · obtain ⟨object, hobject⟩ := (Object.completes_new_iff disk.now dir.path
        (NormalizeFileUtf8.cleanName x.text) _ (.user ['T', 'e', 's', 't'])).2 hexpressible
      exact ⟨bucket, key, object, _,
        handleNewFile_of_renamed hclean hname (hrename hname) haddress hobject,
        Object.fileName_of_new_join hobject,
        Skipper.sameMembers_objectSkipped (hskip bucket key haddress), object', skip'', hagain⟩

theorem dash_x_announced_once :
    AnnouncedOnce EventWatcher.quietDisk bucketDirB ⟨['-', 'x'], by decide⟩ Skipper.new := by
  refine (announcedOnce_iff EventWatcher.quietDisk bucketDirB _ Skipper.new (by decide)
    fun bucket key _ htracks => ?_).2 ⟨by decide, fun _ => rfl, ?_⟩
  · exact absurd htracks (by simp [Skipper.TracksObject, Skipper.namesOf, Skipper.new])
  · intro metadata hmetadata
    cases hmetadata

def badDir : BucketDir rootPathD :=
  bucketDirB.child [.invalid [0xFF]] ⟨by unfold PathText.IsPiece; decide, by decide⟩

/-- A file in a directory that is no text: the key is unwrapped, and the handler panics. -/
theorem x_below_bad_name_panics :
    handleNewFile EventWatcher.quietDisk badDir ⟨['x'], by decide⟩ Skipper.new =
        .error .unwrapNone ∧
      ¬AnnouncedOnce EventWatcher.quietDisk badDir ⟨['x'], by decide⟩ Skipper.new := by
  have hpanics : handleNewFile EventWatcher.quietDisk badDir ⟨['x'], by decide⟩ Skipper.new =
      .error .unwrapNone := by
    decide
  refine ⟨hpanics, ?_⟩
  rintro ⟨bucket, key, object, skip', honce, -⟩
  cases hpanics.symm.trans honce

end NewFiles

/-! ## Renamed directories -/

section Directories

def TellsRename (p q : BelowRoot root) (toName : Str) (change : Change) : Prop :=
  match q.parent with
  | none => ∃ fromName, p.name = .ofStr fromName ∧ change = .nameBucket fromName toName
  | some _ => ∃ bucket key, location root.path bucket key = p.path ∧
      change = .nameKey bucket key toName

/-- The event of `p` renamed to `q` gives one change, the event of the handler's own rename
to the target gives none, and no mark is left over. -/
def EchoSkipped (disk : Disk) (p q : BelowRoot root) (target : Name) (skip : Skipper) : Prop :=
  ∃ change skip₁ skip₂,
    hdRenamePath disk root.path p.path q.path skip = .ok (some change, skip₁) ∧
      TellsRename p q target.text change ∧
      hdRenamePath disk root.path q.path (q.parentPath.join (.ofStr target.text)) skip₁ =
        .ok (none, skip₂) ∧
      skip.SameMembers skip₂

variable {disk : Disk} {p q : BelowRoot root} {target : Name} {skip : Skipper}

theorem Skipper.sameMembers_bucketSkipped {bucket : Bucket} :
    skip.SameMembers ((skip.skipBucket bucket).bucketSkipped bucket).2 ↔
      ¬skip.TracksBucket bucket := by
  constructor
  · intro hsame htracks
    have hagain := (hsame.buckets bucket).2 htracks
    rw [tracksBucket_bucketSkipped] at hagain
    exact hagain.1 rfl
  · intro hskip
    refine ⟨fun bucket' => ?_, fun _ _ => Iff.rfl, fun _ _ _ => Iff.rfl⟩
    rw [tracksBucket_bucketSkipped, tracksBucket_skipBucket]
    constructor
    · rintro ⟨hother, hsame | htracks⟩
      · exact absurd hsame hother
      · exact htracks
    · intro htracks
      refine ⟨?_, .inr htracks⟩
      rintro rfl
      exact hskip htracks

variable (htarget : target.text = NormalizePathUtf8.newName q.name.toStringLossy)
  (hname : q.name.toStringLossy ≠ target.text)

theorem newName_target (htarget : target.text = NormalizePathUtf8.newName q.name.toStringLossy) :
    NormalizePathUtf8.newName target.text = target.text := by
  rw [htarget, newName_newName]

include htarget hname

theorem echoSkipped_of_bucket (hparent : q.parent = none) :
    EchoSkipped disk p q target skip ↔ p.name.toStr.isSome ∧ ¬skip.TracksBucket target.text := by
  have hroot : q.parentPath = root.path := by rw [BelowRoot.parentPath, hparent]
  have hfirst : hdRenamePath disk root.path p.path q.path skip = _ :=
    hdRenamePath_of_renamed htarget target.text_ne_nil hname
  have hecho : ∀ skip₁ : Skipper, (skip₁.bucketSkipped target.text).1 = true →
      hdRenamePath disk root.path q.path (q.parentPath.join (.ofStr target.text)) skip₁ =
        .ok (none, (skip₁.bucketSkipped target.text).2) := by
    intro skip₁ hfound
    rw [hdRenamePath_of_normal (newName_target htarget), if_pos hroot, if_pos hfound]
  have hfound : ((skip.skipBucket target.text).bucketSkipped target.text).1 = true := by
    rw [Skipper.bucketSkipped_fst_iff, Skipper.tracksBucket_skipBucket]
    exact .inl rfl
  have hfrom : fileNameStr p.path = unwrap p.name.toStr := by
    rw [fileNameStr, BelowRoot.path, Path.join, Path.fileName_append_singleton, Option.bind_some]
  rw [if_pos hroot, hfrom] at hfirst
  rw [EchoSkipped, hfirst]
  cases htext : p.name.toStr with
  | none =>
      refine iff_of_false ?_ fun h => Bool.noConfusion h.1
      rintro ⟨change, skip₁, skip₂, hpanic, -⟩
      cases hpanic
  | some fromName =>
      rw [Option.isSome_some, and_iff_right rfl, ← Skipper.sameMembers_bucketSkipped]
      constructor
      · rintro ⟨change, skip₁, skip₂, hsome, -, hnone, hsame⟩
        cases hsome
        cases (hecho _ hfound).symm.trans hnone
        exact hsame
      · intro hsame
        refine ⟨_, _, _, rfl, ?_, hecho _ hfound, hsame⟩
        rw [TellsRename, hparent]
        exact ⟨fromName, OsStr.eq_ofStr_of_toStr htext, rfl⟩

/-- A directory in a bucket is marked under the key of the name that the event has given,
which is not that of the target. -/
theorem not_echoSkipped_of_key {dir : BucketDir root} (hparent : q.parent = some dir) :
    ¬EchoSkipped disk p q target skip := by
  have hroot : q.parentPath ≠ root.path := by
    rw [BelowRoot.parentPath, hparent]
    exact dir.path_ne_root
  have hdir : q.parentPath = dir.path := by rw [BelowRoot.parentPath, hparent]
  have hcomponent : (OsStr.ofStr target.text).IsComponent :=
    OsStr.isComponent_ofStr_iff.2 target.isName
  rintro ⟨change, skip₁, skip₂, hfirst, -, hecho, hsame⟩
  have hrenamed : hdRenamePath disk root.path p.path q.path skip = _ :=
    hdRenamePath_of_renamed htarget target.text_ne_nil hname
  rw [hrenamed, if_neg hroot] at hfirst
  obtain ⟨bucket, hbucket, hfirst⟩ := bind_eq_ok hfirst
  obtain ⟨originalKey, -, hfirst⟩ := bind_eq_ok hfirst
  obtain ⟨key, hkey, hfirst⟩ := bind_eq_ok hfirst
  obtain ⟨-, rfl⟩ := Prod.mk.inj (Except.ok.inj hfirst)
  rw [hdRenamePath_of_normal (newName_target htarget), if_neg hroot] at hecho
  obtain ⟨bucket', hbucket', hecho⟩ := bind_eq_ok hecho
  obtain ⟨key', hkey', hecho⟩ := bind_eq_ok hecho
  rw [hdir, dir.bucketOf_join] at hbucket hbucket'
  obtain rfl := Except.ok.inj (hbucket.symm.trans hbucket')
  rw [hdir, unwrap_eq_ok_iff] at hkey hkey'
  have hkeys : key' ≠ key := by
    rintro rfl
    have hdirBucket := OsStr.eq_ofStr_of_toStr (unwrap_eq_ok_iff.1 hbucket)
    have hpaths : (dir.child _ hcomponent).path = (dir.child q.name q.isComponent).path :=
      BucketDir.path_inj hdirBucket hdirBucket (by rwa [dir.path_child])
        (by rwa [dir.path_child])
    rw [dir.path_child, dir.path_child, Path.join, Path.join, List.append_cancel_left_eq,
      List.singleton_inj] at hpaths
    rw [← hpaths, OsStr.toStringLossy_ofStr] at hname
    exact hname rfl
  -- the mark that the echo finds was there before
  split_ifs at hecho with hfound
  · rw [Skipper.keySkipped_fst_iff, Skipper.tracksKey_skipKey] at hfound
    have htracks := hfound.resolve_left fun h => hkeys h.2
    obtain ⟨-, rfl⟩ := Prod.mk.inj (Except.ok.inj hecho)
    have hagain := (hsame.keys bucket key').2 htracks
    rw [Skipper.tracksKey_keySkipped] at hagain
    exact hagain.1 ⟨rfl, rfl⟩
  · obtain ⟨keyFrom, -, hecho⟩ := bind_eq_ok hecho
    cases hecho

omit htarget hname

theorem echoSkipped_iff (disk : Disk) (p q : BelowRoot root) (target : Name) (skip : Skipper)
    (htarget : target.text = NormalizePathUtf8.newName q.name.toStringLossy)
    (hname : q.name.toStringLossy ≠ target.text) :
    EchoSkipped disk p q target skip ↔
      q.parent = none ∧ p.name.toStr.isSome ∧ ¬skip.TracksBucket target.text := by
  cases hparent : q.parent with
  | none => rw [echoSkipped_of_bucket htarget hname hparent, and_iff_right rfl]
  | some dir =>
      exact iff_of_false (not_echoSkipped_of_key htarget hname hparent) (by simp)

theorem bucket_b_echo_skipped :
    @EchoSkipped rootPathD EventWatcher.quietDisk
      ⟨none, .ofStr ['a'], OsStr.isComponent_ofStr_iff.2 (by decide)⟩
      ⟨none, .ofStr ['-', 'b'], OsStr.isComponent_ofStr_iff.2 (by decide)⟩
      ⟨['b'], by decide⟩ Skipper.new :=
  (echoSkipped_iff _ _ _ _ _ (by decide) (by decide)).2
    ⟨rfl, by decide, by simp [Skipper.TracksBucket, Skipper.new]⟩

/-- The directory `x` of the bucket `b` becomes `-y` and is renamed to `y`: the echo gives
a second change, of a key `-y`, and the mark stays. -/
theorem key_y_echo_announced :
    let p : BelowRoot rootPathD :=
      ⟨some bucketDirB, .ofStr ['x'], OsStr.isComponent_ofStr_iff.2 (by decide)⟩
    let q : BelowRoot rootPathD :=
      ⟨some bucketDirB, .ofStr ['-', 'y'], OsStr.isComponent_ofStr_iff.2 (by decide)⟩
    let marked := Skipper.new.skipKey ['b'] ['-', 'y']
    hdRenamePath EventWatcher.quietDisk rootPathD.path p.path q.path Skipper.new =
        .ok (some (.nameKey ['b'] ['x'] ['y']), marked) ∧
      hdRenamePath EventWatcher.quietDisk rootPathD.path q.path
        (q.parentPath.join (.ofStr ['y'])) marked =
          .ok (some (.nameKey ['b'] ['-', 'y'] ['y']), marked) ∧
      ¬EchoSkipped EventWatcher.quietDisk p q ⟨['y'], by decide⟩ Skipper.new := by
  intro p q marked
  have hfirst : hdRenamePath EventWatcher.quietDisk rootPathD.path p.path q.path Skipper.new =
      .ok (some (.nameKey ['b'] ['x'] ['y']), marked) := by
    decide
  have hecho : hdRenamePath EventWatcher.quietDisk rootPathD.path q.path
      (q.parentPath.join (.ofStr ['y'])) marked =
        .ok (some (.nameKey ['b'] ['-', 'y'] ['y']), marked) := by
    decide
  refine ⟨hfirst, hecho, ?_⟩
  rintro ⟨change, skip₁, skip₂, hsome, -, hnone, -⟩
  cases hfirst.symm.trans hsome
  cases hecho.symm.trans hnone

end Directories

end WsHyper.Directory
