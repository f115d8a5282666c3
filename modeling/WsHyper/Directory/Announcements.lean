import WsHyper.Directory.Addresses
import WsHyper.Directory.LegalNames
import WsHyper.Directory.RemoveEvents

/-!
# What a renamed file and a new folder are announced as

Both handlers build one message in two branches.  Where the name is normal, they read what
they tell from the event; where they rename the entry, `hd_rename_object` takes the name
that the event has given, and `hd_new_bucket_or_key_watcher` the new name for the bucket.
-/

namespace WsHyper.Directory

open WsHyper.Lib

variable {root : CanonicalPath}

/-! ## Renamed files -/

/-- The object is renamed from the old name to the normal form of the new one, under the
address of its directory. -/
def NamesItsObject (disk : Disk) (dir : BucketDir root) (x y : Name) (skip : Skipper) : Prop :=
  ∃ bucket key skip',
    hdRenameObject disk root.path (dir.path.join (.ofStr x.text)) (dir.path.join (.ofStr y.text))
        skip =
      .ok (some (.nameObject bucket key x.text
        (NormalizeFileUtf8.newName disk.nanoid y.text)), skip') ∧
      location root.path bucket key = dir.path

def FromIsKnown (disk : Disk) (dir : BucketDir root) (x y : Name) : Prop :=
  NormalizeFileUtf8.newName disk.nanoid y.text = y.text ∨
    x = y ∧ disk.rename (Path.joinStr dir.path y.text)
      (Path.joinStr dir.path (NormalizeFileUtf8.newName disk.nanoid y.text)) = true

theorem fileNameStr_join (parent : Path) (name : Name) :
    fileNameStr (parent.join (.ofStr name.text)) = .ok name.text := by
  rw [fileNameStr, Path.join, Path.fileName_append_singleton, Option.bind_some,
    OsStr.toStr_ofStr, unwrap_some]

section Renamed

variable {disk : Disk} {dir : BucketDir root} {x y : Name} {skip : Skipper} {bucket : Bucket}
  {key : Key}

theorem namesItsObject_of_normal
    (haddress : objectAddress root.path (dir.path.join (.ofStr y.text)) = .ok (bucket, key))
    (hnormal : y.text = NormalizeFileUtf8.newName disk.nanoid y.text)
    (hskip : location root.path bucket key = dir.path → ¬skip.TracksObject bucket key y.text) :
    NamesItsObject disk dir x y skip ↔ location root.path bucket key = dir.path := by
  have hrun := NormalizeFileUtf8.run_append_singleton dir.path y.text disk.nanoid
  rw [if_neg (not_not.2 hnormal)] at hrun
  have hresult : hdRenameObject disk root.path (dir.path.join (.ofStr x.text))
      (dir.path.join (.ofStr y.text)) skip = _ := hdRenameObject_of_not haddress hrun
  rw [fileNameStr_join, ok_bind] at hresult
  rw [NamesItsObject, hresult, ← hnormal]
  constructor
  · rintro ⟨bucket', key', skip', hsome, haddressed⟩
    split_ifs at hsome
    · cases hsome
    · simp only [Except.ok.injEq, Prod.mk.injEq, Option.some.injEq,
        Change.nameObject.injEq] at hsome
      obtain ⟨⟨rfl, rfl, -⟩, -⟩ := hsome
      exact haddressed
  · intro haddressed
    have hfound : ¬(skip.objectSkipped bucket key y.text).1 = true := by
      rw [Skipper.objectSkipped_fst_iff]
      exact hskip haddressed
    exact ⟨bucket, key, _, if_neg hfound, haddressed⟩

theorem namesItsObject_of_renamed
    (haddress : objectAddress root.path (dir.path.join (.ofStr y.text)) = .ok (bucket, key))
    (hname : y.text ≠ NormalizeFileUtf8.newName disk.nanoid y.text) :
    NamesItsObject disk dir x y skip ↔ location root.path bucket key = dir.path ∧ x = y ∧
      disk.rename (Path.joinStr dir.path y.text)
        (Path.joinStr dir.path (NormalizeFileUtf8.newName disk.nanoid y.text)) = true := by
  have hrun := NormalizeFileUtf8.run_append_singleton dir.path y.text disk.nanoid
  rw [if_pos hname] at hrun
  have hresult : hdRenameObject disk root.path (dir.path.join (.ofStr x.text))
      (dir.path.join (.ofStr y.text)) skip = _ := hdRenameObject_of_yes haddress hrun
  rw [NamesItsObject, hresult]
  constructor
  · rintro ⟨bucket', key', skip', hsome, haddressed⟩
    split_ifs at hsome with hrename
    · simp only [Except.ok.injEq, Prod.mk.injEq, Option.some.injEq,
        Change.nameObject.injEq] at hsome
      obtain ⟨⟨rfl, rfl, hfrom, -⟩, -⟩ := hsome
      exact ⟨haddressed, (Name.ext hfrom).symm, hrename⟩
    · cases hsome
  · rintro ⟨haddressed, rfl, hrename⟩
    exact ⟨bucket, key, _, if_pos hrename, haddressed⟩

end Renamed

theorem namesItsObject_iff (disk : Disk) (dir : BucketDir root) (x y : Name) (skip : Skipper)
    (hskip : ∀ bucket key, location root.path bucket key = dir.path →
      ¬skip.TracksObject bucket key y.text) :
    NamesItsObject disk dir x y skip ↔ dir.Decodable ∧ FromIsKnown disk dir x y := by
  by_cases htext : dir.path.toStr.isSome
  · obtain ⟨bucket, key, haddress, -, -, hlocation⟩ :=
      objectAddress_of_text dir (.ofStr y.text) htext
    rw [← hlocation, FromIsKnown]
    by_cases hnormal : y.text = NormalizeFileUtf8.newName disk.nanoid y.text
    · rw [namesItsObject_of_normal haddress hnormal (hskip bucket key),
        and_iff_left (.inl hnormal.symm)]
    · rw [namesItsObject_of_renamed haddress hnormal, or_iff_right (Ne.symm hnormal)]
  · refine iff_of_false ?_ fun h => htext h.1.1
    rintro ⟨bucket, key, skip', hresult, -⟩
    obtain ⟨address, haddress⟩ := exists_address_of_hdRenameObject hresult
    obtain ⟨panic, hpanic⟩ := objectAddress_of_not_text dir (.ofStr y.text) htext
    cases haddress.symm.trans hpanic

theorem x_to_y_names_its_object :
    NamesItsObject EventWatcher.quietDisk bucketDirB ⟨['x'], by decide⟩ ⟨['y'], by decide⟩
      Skipper.new :=
  (namesItsObject_iff EventWatcher.quietDisk bucketDirB _ _ Skipper.new
    (fun bucket key _ htracks => absurd htracks (by simp [Skipper.TracksObject,
      Skipper.namesOf, Skipper.new]))).2 ⟨decodable_bucketDirB, .inl (by decide)⟩

/-- The file `x` becomes `-y` and is renamed to `y`: the change tells of an object `-y`,
while the tree knows an object `x`. -/
theorem x_to_dash_y_names_another :
    (∃ skip', hdRenameObject EventWatcher.quietDisk rootPathD.path
        (bucketDirB.path.join (.ofStr ['x'])) (bucketDirB.path.join (.ofStr ['-', 'y']))
        Skipper.new = .ok (some (.nameObject ['b'] Key.root ['-', 'y'] ['y']), skip')) ∧
      ¬NamesItsObject EventWatcher.quietDisk bucketDirB ⟨['x'], by decide⟩
        ⟨['-', 'y'], by decide⟩ Skipper.new := by
  have hresult : hdRenameObject EventWatcher.quietDisk rootPathD.path
      (bucketDirB.path.join (.ofStr ['x'])) (bucketDirB.path.join (.ofStr ['-', 'y']))
      Skipper.new = .ok (some (.nameObject ['b'] Key.root ['-', 'y'] ['y']),
        Skipper.new.skipObject ['b'] Key.root ['y']) := by
    decide
  refine ⟨⟨_, hresult⟩, ?_⟩
  rintro ⟨bucket, key, skip', hsome, -⟩
  cases hresult.symm.trans hsome

/-! ## New folders -/

def IsAbout (folder : BelowRoot root) (final : Str) (change : Change) : Prop :=
  match folder.parent with
  | none => change = .newBucket final
  | some dir => ∃ bucket key, change = .newKey bucket key ∧
      Bucket.findBucket root.path folder.path = .ok (some bucket) ∧
      location root.path bucket key = dir.path.join (.ofStr final)

/-- The folder is announced where it ends up, and as it would be if it had been created
under its final name. -/
def AnnouncedWhereItIs (disk : Disk) (folder : BelowRoot root) (skip : Skipper) : Prop :=
  let final := NormalizePathUtf8.finalName disk.nanoid folder.name.toStringLossy
  ∃ change skip' skip'',
    hdNewBucketOrKeyWatcher disk folder.path root.path skip = .ok (some change, skip') ∧
      IsAbout folder final change ∧
      hdNewBucketOrKeyWatcher disk (folder.parentPath.join (.ofStr final)) root.path skip =
        .ok (some change, skip'')

/-- A nested folder has an address that can be read back, and it is not renamed, unless to
the name of its bucket. -/
def NestedPlainly (disk : Disk) (folder : BelowRoot root) : Prop :=
  let final := NormalizePathUtf8.finalName disk.nanoid folder.name.toStringLossy
  ∀ dir, folder.parent = some dir →
    dir.Decodable ∧ (folder.name = .ofStr final ∨ dir.bucket = .ofStr final)

def KeepsSomething (folder : BelowRoot root) : Prop :=
  NormalizePathUtf8.newName folder.name.toStringLossy ≠ []

instance (folder : BelowRoot root) : Decidable (KeepsSomething folder) :=
  inferInstanceAs (Decidable (_ ≠ _))

section Folders

variable {disk : Disk} {parent path : Path} {name : OsStr} {skip : Skipper}

theorem hdNewBucketOrKeyWatcher_of_final (hne : name.toStringLossy ≠ [])
    (hname : name.toStringLossy = NormalizePathUtf8.finalName disk.nanoid name.toStringLossy) :
    hdNewBucketOrKeyWatcher disk (parent.join name) path skip =
      if parent = path then .ok (some (.newBucket name.toStringLossy), skip)
      else bucketOf path (parent.join name) >>= fun bucket =>
        .ok ((Key.fromBucket bucket (parent.join name)).map (.newKey bucket), skip) := by
  rw [hdNewBucketOrKeyWatcher, NormalizePathUtf8.run_new_join _ _ _ hne, if_pos hname]
  simp only [Path.join, Path.parent_append_singleton]
  split_ifs with hroot
  · rfl
  · congr 1
    funext bucket
    cases Key.fromBucket bucket (parent ++ [name]) <;> rfl

/-- A folder that is renamed: the new name stands for the bucket at every depth. -/
theorem hdNewBucketOrKeyWatcher_of_renamed (hne : name.toStringLossy ≠ []) {final : Str}
    (hfinal : final = NormalizePathUtf8.finalName disk.nanoid name.toStringLossy)
    (hname : name.toStringLossy ≠ final) :
    hdNewBucketOrKeyWatcher disk (parent.join name) path skip =
      if disk.rename (Path.joinStr parent name.toStringLossy) (Path.joinStr parent final) then
        if path = parent then .ok (some (.newBucket final), skip.skipBucket final)
        else match Key.fromBucket final (parent.join (.ofStr final)) with
          | none => .ok (none, skip)
          | some key => .ok (some (.newKey final key), skip.skipKey final key)
      else .ok (none, skip) := by
  subst hfinal
  rw [hdNewBucketOrKeyWatcher, NormalizePathUtf8.run_new_join _ _ _ hne, if_neg hname]
  rfl

theorem change_of_renamed (hne : name.toStringLossy ≠ []) {final : Str}
    (hfinal : final = NormalizePathUtf8.finalName disk.nanoid name.toStringLossy)
    (hname : name.toStringLossy ≠ final) {change : Change} {skip' : Skipper}
    (hresult : hdNewBucketOrKeyWatcher disk (parent.join name) path skip =
      .ok (some change, skip')) :
    (path = parent ∧ change = .newBucket final) ∨
      ∃ key, Key.fromBucket final (parent.join (.ofStr final)) = some key ∧
        change = .newKey final key := by
  rw [hdNewBucketOrKeyWatcher_of_renamed hne hfinal hname] at hresult
  split_ifs at hresult with hrename hroot
  · cases hresult
    exact .inl ⟨hroot, rfl⟩
  · cases hkey : Key.fromBucket final (parent.join (.ofStr final)) with
    | none =>
        rw [hkey] at hresult
        cases hresult
    | some key =>
        rw [hkey] at hresult
        cases hresult
        exact .inr ⟨key, rfl, rfl⟩
  · cases hresult

end Folders

theorem eq_ofStr_of_final {name : OsStr} {nanoid : Str} (hne : name.toStringLossy ≠ [])
    (hname : name.toStringLossy = NormalizePathUtf8.finalName nanoid name.toStringLossy) :
    .ofStr name.toStringLossy = name := by
  apply OsStr.ofStr_toStringLossy
  rw [← (finalName_eq_self_iff hne).1 hname.symm]
  intro hmem
  exact absurd (nameAllowed_of_mem_newName hmem) (by decide)

theorem readsNewKey_iff (dir : BucketDir root) (skip : Skipper) :
    (∃ change skip',
      (bucketOf root.path dir.path >>= fun bucket =>
        .ok ((Key.fromBucket bucket dir.path).map (.newKey bucket), skip)) =
          .ok (some change, skip') ∧
      ∃ bucket key, change = Change.newKey bucket key ∧
        Bucket.findBucket root.path dir.path = .ok (some bucket) ∧
          location root.path bucket key = dir.path) ↔ dir.Decodable := by
  by_cases htext : dir.path.toStr.isSome
  · obtain ⟨bucket, key, hbucket, hkey, hlocation⟩ := BucketDir.exists_address htext
    rw [dir.bucketOf_path, hbucket, OsStr.toStr_ofStr, unwrap_some, ok_bind, hkey,
      Option.map_some, ← hlocation]
    constructor
    · rintro ⟨change, skip', hsome, bucket', key', rfl, -, haddressed⟩
      cases hsome
      exact haddressed
    · intro haddressed
      refine ⟨_, _, rfl, bucket, key, rfl, ?_, haddressed⟩
      rw [BucketDir.path, hbucket, Bucket.findBucket_append, OsStr.toStr_ofStr]
      rfl
  · refine iff_of_false ?_ fun h => htext h.1
    rintro ⟨change, skip', hsome, -⟩
    obtain ⟨bucket, -, hsome⟩ := bind_eq_ok hsome
    rw [BucketDir.fromBucket_of_not_text htext] at hsome
    cases hsome

section Announced

variable {disk : Disk} {folder : BelowRoot root} {skip : Skipper}

theorem announcedWhereItIs_of_final
    (hname : folder.name.toStringLossy =
      NormalizePathUtf8.finalName disk.nanoid folder.name.toStringLossy) :
    AnnouncedWhereItIs disk folder skip ↔ ∀ dir, folder.parent = some dir → dir.Decodable := by
  have hne := (isName_toStringLossy folder.isComponent).1
  have htext := eq_ofStr_of_final hne hname
  have hresult : hdNewBucketOrKeyWatcher disk folder.path root.path skip = _ :=
    hdNewBucketOrKeyWatcher_of_final hne hname
  -- both calls are the same
  have honce : AnnouncedWhereItIs disk folder skip ↔
      ∃ change skip', hdNewBucketOrKeyWatcher disk folder.path root.path skip =
        .ok (some change, skip') ∧ IsAbout folder folder.name.toStringLossy change := by
    rw [AnnouncedWhereItIs, ← hname, htext]
    constructor
    · rintro ⟨change, skip', -, hsome, habout, -⟩
      exact ⟨change, skip', hsome, habout⟩
    · rintro ⟨change, skip', hsome, habout⟩
      exact ⟨change, skip', skip', hsome, habout, hsome⟩
  rw [honce, hresult]
  obtain ⟨parent, name, hcomponent⟩ := folder
  cases parent with
  | none => exact iff_of_true ⟨_, _, if_pos rfl, rfl⟩ (by simp)
  | some dir =>
      obtain ⟨text, rfl⟩ : ∃ text, name = .ofStr text := ⟨_, htext.symm⟩
      have hdecodable : (∀ dir', some dir = some dir' → dir'.Decodable) ↔ dir.Decodable := by
        simp
      have hpath : BelowRoot.path ⟨some dir, .ofStr text, hcomponent⟩ =
          (dir.child (.ofStr text) hcomponent).path := (dir.path_child _ _).symm
      rw [hdecodable, ← BucketDir.decodable_child hcomponent]
      simp only [BelowRoot.parentPath, if_neg dir.path_ne_root, ← dir.path_child _ hcomponent,
        IsAbout, hpath, OsStr.toStringLossy_ofStr]
      exact readsNewKey_iff _ skip

theorem finalName_of_announced_again {final : Str} {change : Change} {skip' skip'' : Skipper}
    (hfinal : final = NormalizePathUtf8.finalName disk.nanoid folder.name.toStringLossy)
    (hname : folder.name.toStringLossy ≠ final)
    (hsome : hdNewBucketOrKeyWatcher disk folder.path root.path skip = .ok (some change, skip'))
    (hagain : hdNewBucketOrKeyWatcher disk (folder.parentPath.join (.ofStr final)) root.path
      skip = .ok (some change, skip'')) :
    NormalizePathUtf8.finalName disk.nanoid final = final := by
  have hne := (isName_toStringLossy folder.isComponent).1
  have hne' : (OsStr.ofStr final).toStringLossy ≠ [] := by
    rw [OsStr.toStringLossy_ofStr, hfinal]
    exact finalName_ne_nil _ _
  -- another rename would give another change
  by_contra hmoved
  have hmoved' := change_of_renamed hne' rfl
    (by rw [OsStr.toStringLossy_ofStr]; exact Ne.symm hmoved) hagain
  rw [OsStr.toStringLossy_ofStr] at hmoved'
  rcases change_of_renamed hne hfinal hname hsome with ⟨-, rfl⟩ | ⟨key, -, rfl⟩
  · simp [Ne.symm hmoved] at hmoved'
  · simp [Ne.symm hmoved] at hmoved'

theorem announcedWhereItIs_of_root {name : OsStr} {hcomponent : name.IsComponent} {final : Str}
    (hfinal : final = NormalizePathUtf8.finalName disk.nanoid name.toStringLossy)
    (hname : name.toStringLossy ≠ final)
    (hrename : disk.rename (Path.joinStr root.path name.toStringLossy)
      (Path.joinStr root.path final) = true)
    (hfixed : NormalizePathUtf8.finalName disk.nanoid final = final) :
    AnnouncedWhereItIs disk (⟨none, name, hcomponent⟩ : BelowRoot root) skip := by
  have hne := (isName_toStringLossy hcomponent).1
  have hresult : hdNewBucketOrKeyWatcher disk (root.path.join name) root.path skip = _ :=
    hdNewBucketOrKeyWatcher_of_renamed hne hfinal hname
  have hagain : hdNewBucketOrKeyWatcher disk (root.path.join (.ofStr final)) root.path skip = _ :=
    hdNewBucketOrKeyWatcher_of_final
      (by rw [OsStr.toStringLossy_ofStr, hfinal]; exact finalName_ne_nil _ _)
      (by rw [OsStr.toStringLossy_ofStr, hfixed])
  rw [if_pos hrename, if_pos rfl] at hresult
  rw [if_pos rfl, OsStr.toStringLossy_ofStr] at hagain
  rw [AnnouncedWhereItIs, ← hfinal]
  exact ⟨.newBucket final, skip.skipBucket final, skip, hresult, rfl, hagain⟩

theorem bucket_of_isAbout {dir : BucketDir root} {name : OsStr} {hcomponent : name.IsComponent}
    {final : Str} {change : Change} {skip' : Skipper}
    (hfinal : final = NormalizePathUtf8.finalName disk.nanoid name.toStringLossy)
    (hname : name.toStringLossy ≠ final)
    (hsome : hdNewBucketOrKeyWatcher disk (dir.path.join name) root.path skip =
      .ok (some change, skip'))
    (habout : IsAbout ⟨some dir, name, hcomponent⟩ final change) :
    dir.Decodable ∧ dir.bucket = .ofStr final := by
  have hne := (isName_toStringLossy hcomponent).1
  rcases change_of_renamed hne hfinal hname hsome with ⟨hroot, -⟩ | ⟨key, hkey, rfl⟩
  · exact absurd hroot.symm dir.path_ne_root
  · obtain ⟨bucket, key', heq, hfind, haddressed⟩ := habout
    obtain ⟨rfl, rfl⟩ := Change.newKey.inj heq
    have hbucket := (dir.findBucket_join_iff name final).1 hfind
    have hcomponent' := hbucket ▸ dir.components dir.bucket List.mem_cons_self
    rw [← dir.path_child _ hcomponent'] at hkey haddressed
    obtain ⟨bucket', key', hbucket', hkey', hlocation⟩ :=
      BucketDir.exists_address (Key.isSome_toStr_of_fromBucket hkey)
    obtain rfl := OsStr.ofStr_injective (hbucket.symm.trans hbucket')
    obtain rfl := Option.some.inj (hkey.symm.trans hkey')
    exact ⟨(BucketDir.decodable_child hcomponent').1 (hlocation.1 haddressed), hbucket⟩

theorem announcedWhereItIs_of_bucket {dir : BucketDir root} {name : OsStr}
    {hcomponent : name.IsComponent} {final : Str}
    (hfinal : final = NormalizePathUtf8.finalName disk.nanoid name.toStringLossy)
    (hname : name.toStringLossy ≠ final)
    (hrename : disk.rename (Path.joinStr dir.path name.toStringLossy)
      (Path.joinStr dir.path final) = true)
    (hfixed : NormalizePathUtf8.finalName disk.nanoid final = final)
    (hdecodable : dir.Decodable) (hbucket : dir.bucket = .ofStr final) :
    AnnouncedWhereItIs disk ⟨some dir, name, hcomponent⟩ skip := by
  have hne := (isName_toStringLossy hcomponent).1
  have hresult : hdNewBucketOrKeyWatcher disk (dir.path.join name) root.path skip = _ :=
    hdNewBucketOrKeyWatcher_of_renamed hne hfinal hname
  have hagain : hdNewBucketOrKeyWatcher disk (dir.path.join (.ofStr final)) root.path skip = _ :=
    hdNewBucketOrKeyWatcher_of_final
      (by rw [OsStr.toStringLossy_ofStr, hfinal]; exact finalName_ne_nil _ _)
      (by rw [OsStr.toStringLossy_ofStr, hfixed])
  rw [if_pos hrename, if_neg (Ne.symm dir.path_ne_root)] at hresult
  rw [OsStr.toStringLossy_ofStr, if_neg dir.path_ne_root, dir.bucketOf_join, hbucket,
    OsStr.toStr_ofStr, unwrap_some, ok_bind] at hagain
  -- the new name names the bucket, so both calls read the key of the folder
  have hcomponent' := hbucket ▸ dir.components dir.bucket List.mem_cons_self
  rw [← BucketDir.decodable_child hcomponent'] at hdecodable
  obtain ⟨bucket, key, hbucket', hkey, hlocation⟩ := BucketDir.exists_address hdecodable.1
  obtain rfl := OsStr.ofStr_injective (hbucket.symm.trans hbucket')
  have haddressed := hlocation.2 hdecodable
  rw [dir.path_child] at hkey haddressed
  rw [hkey] at hresult hagain
  rw [AnnouncedWhereItIs, ← hfinal]
  exact ⟨.newKey final key, skip.skipKey final key, skip, hresult,
    ⟨final, key, rfl, (dir.findBucket_join_iff name final).2 hbucket, haddressed⟩, hagain⟩

theorem announcedWhereItIs_of_renamed {final : Str}
    (hfinal : final = NormalizePathUtf8.finalName disk.nanoid folder.name.toStringLossy)
    (hname : folder.name.toStringLossy ≠ final)
    (hrename : disk.rename (Path.joinStr folder.parentPath folder.name.toStringLossy)
      (Path.joinStr folder.parentPath final) = true) :
    AnnouncedWhereItIs disk folder skip ↔
      KeepsSomething folder ∧
        ∀ dir, folder.parent = some dir → dir.Decodable ∧ dir.bucket = .ofStr final := by
  have hkeeps : KeepsSomething folder ↔ NormalizePathUtf8.finalName disk.nanoid final = final := by
    rw [KeepsSomething, hfinal, finalName_finalName_iff]
  rw [hkeeps]
  constructor
  · rw [AnnouncedWhereItIs, ← hfinal]
    rintro ⟨change, skip', skip'', hsome, habout, hagain⟩
    refine ⟨finalName_of_announced_again hfinal hname hsome hagain, ?_⟩
    obtain ⟨parent, name, hcomponent⟩ := folder
    rintro dir rfl
    exact bucket_of_isAbout hfinal hname hsome habout
  · rintro ⟨hfixed, hnested⟩
    obtain ⟨parent, name, hcomponent⟩ := folder
    cases parent with
    | none => exact announcedWhereItIs_of_root hfinal hname hrename hfixed
    | some dir =>
        obtain ⟨hdecodable, hbucket⟩ := hnested dir rfl
        exact announcedWhereItIs_of_bucket hfinal hname hrename hfixed hdecodable hbucket

theorem announcedWhereItIs_iff (disk : Disk) (folder : BelowRoot root) (skip : Skipper)
    (hrename : let final := NormalizePathUtf8.finalName disk.nanoid folder.name.toStringLossy
      folder.name.toStringLossy ≠ final →
        disk.rename (Path.joinStr folder.parentPath folder.name.toStringLossy)
          (Path.joinStr folder.parentPath final) = true) :
    AnnouncedWhereItIs disk folder skip ↔ KeepsSomething folder ∧ NestedPlainly disk folder := by
  have hne := (isName_toStringLossy folder.isComponent).1
  by_cases hname : folder.name.toStringLossy =
      NormalizePathUtf8.finalName disk.nanoid folder.name.toStringLossy
  · have hkeeps : KeepsSomething folder := by
      rw [KeepsSomething, (finalName_eq_self_iff hne).1 hname.symm]
      exact hne
    have htext : folder.name =
        .ofStr (NormalizePathUtf8.finalName disk.nanoid folder.name.toStringLossy) := by
      rw [← hname, eq_ofStr_of_final hne hname]
    rw [announcedWhereItIs_of_final hname, and_iff_right hkeeps, NestedPlainly]
    simp only [← htext, true_or, and_true]
  · have htext : folder.name ≠
        .ofStr (NormalizePathUtf8.finalName disk.nanoid folder.name.toStringLossy) := by
      intro htext
      apply hname
      conv_lhs => rw [htext, OsStr.toStringLossy_ofStr]
    rw [announcedWhereItIs_of_renamed rfl hname (hrename hname), NestedPlainly]
    simp only [htext, false_or]

end Announced

theorem k_announced_where_it_is :
    AnnouncedWhereItIs EventWatcher.quietDisk
      ⟨some bucketDirB, .ofStr ['k'], OsStr.isComponent_ofStr_iff.2 (by decide)⟩
      Skipper.new := by
  refine (announcedWhereItIs_iff EventWatcher.quietDisk _ Skipper.new fun _ => rfl).2
    ⟨by decide, fun dir hdir => ?_⟩
  obtain rfl := Option.some.inj hdir
  exact ⟨decodable_bucketDirB, .inl (by decide)⟩

/-- A folder `-k` in the bucket `b` is renamed to `k` and announced as the whole bucket
`k`, which need not be there. -/
theorem dash_k_announced_elsewhere :
    let folder : BelowRoot rootPathD :=
      ⟨some bucketDirB, .ofStr ['-', 'k'], OsStr.isComponent_ofStr_iff.2 (by decide)⟩
    hdNewBucketOrKeyWatcher EventWatcher.quietDisk folder.path rootPathD.path Skipper.new =
        .ok (some (.newKey ['k'] Key.root), Skipper.new.skipKey ['k'] Key.root) ∧
      ¬AnnouncedWhereItIs EventWatcher.quietDisk folder Skipper.new := by
  intro folder
  have hresult : hdNewBucketOrKeyWatcher EventWatcher.quietDisk folder.path rootPathD.path
      Skipper.new = .ok (some (.newKey ['k'] Key.root), Skipper.new.skipKey ['k'] Key.root) := by
    decide
  refine ⟨hresult, ?_⟩
  rintro ⟨change, skip', skip'', hsome, ⟨bucket, key, rfl, hfind, -⟩, -⟩
  cases hresult.symm.trans hsome
  exact absurd hfind (by decide)

end WsHyper.Directory
