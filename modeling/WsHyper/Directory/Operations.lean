import WsHyper.Directory.Announcements
import WsHyper.Directory.Echoes
import WsHyper.Directory.Listing

/-!
# What is done to the directory

Folders and files below the root are made, renamed and removed, and an event tells the
watcher of each.  `effect` says what becomes of a list of them.  The tree follows it as long
as no folder is made where the tree has no keys (`change_of_fits`), for names that need no
normalising.
-/

namespace WsHyper.Directory

open WsHyper.Lib

/-- What is done in a bucket, in a folder of it, under a name. -/
inductive Operation
  | newBucket (bucket : Name)
  | newKey (bucket : Name) (folder : List Name) (name : Name)
  | newObject (bucket : Name) (folder : List Name) (name : Name)
  | nameBucket (fromName toName : Name)
  | nameKey (bucket : Name) (folder : List Name) (fromName toName : Name)
  | nameObject (bucket : Name) (folder : List Name) (fromName toName : Name)
  | deleteBucket (bucket : Name)
  | deleteKey (bucket : Name) (folder : List Name) (name : Name)
  | deleteObject (bucket : Name) (folder : List Name) (name : Name)

def segmentsOf (folder : List Name) : List Segment := folder.map Name.text

namespace Operation

/-- What is there afterwards, of what was there.  A removed file stays: the key that is told
of it is that of a folder. -/
def effect (listing : Listing) : Operation → Listing
  | .newBucket bucket => listing.addPlace bucket.text [] false
  | .newKey bucket folder name =>
      listing.addPlace bucket.text (segmentsOf folder ++ [name.text]) false
  | .newObject bucket folder name => listing.addItem bucket.text (segmentsOf folder) name.text
  | .nameBucket fromName toName => listing.moveRoot fromName.text toName.text
  | .nameKey bucket folder fromName toName =>
      listing.movePath bucket.text (segmentsOf folder) fromName.text toName.text
  | .nameObject bucket folder fromName toName =>
      listing.replaceItem bucket.text (segmentsOf folder) fromName.text toName.text
  | .deleteBucket bucket => listing.drop bucket.text []
  | .deleteKey bucket folder name =>
      listing.drop bucket.text (segmentsOf folder ++ [name.text])
  | .deleteObject _ _ _ => listing

/-- What the operation needs is there, and no folder is where it makes or removes a name. -/
def Fits (listing : Listing) : Operation → Prop
  | .newKey bucket folder _ => (listing bucket.text (segmentsOf folder)).isSome
  | .nameBucket fromName _ => (listing fromName.text []).isSome
  | .nameKey bucket folder fromName toName =>
      (listing bucket.text (segmentsOf folder ++ [fromName.text])).isSome ∧
        listing bucket.text (segmentsOf folder ++ [toName.text]) = none
  | .nameObject bucket folder fromName _ =>
      fromName.text ∈ listing.items bucket.text (segmentsOf folder)
  | .deleteKey bucket folder name =>
      (listing bucket.text (segmentsOf folder ++ [name.text])).isSome
  | .deleteObject bucket folder name =>
      listing bucket.text (segmentsOf folder ++ [name.text]) = none
  | .newBucket _ | .newObject _ _ _ | .deleteBucket _ => True

/-- It makes a folder in one without keys. -/
def OpensUnkeyed (listing : Listing) : Operation → Prop
  | .newKey bucket folder _ =>
      ∃ files, listing bucket.text (segmentsOf folder) = some (files, false)
  | _ => False

def Sends : Operation → Change → Prop
  | .newBucket bucket, change => change = .newBucket bucket.text
  | .newKey bucket folder name, change =>
      change = .newKey bucket.text (.ofPath (segmentsOf (folder ++ [name])))
  | .newObject bucket folder name, change => ∃ object : Object, object.fileName = name.text ∧
      change = .newObject bucket.text (.ofPath (segmentsOf folder)) object
  | .nameBucket fromName toName, change => change = .nameBucket fromName.text toName.text
  | .nameKey bucket folder fromName toName, change =>
      change = .nameKey bucket.text (.ofPath (segmentsOf (folder ++ [fromName]))) toName.text
  | .nameObject bucket folder fromName toName, change =>
      change =
        .nameObject bucket.text (.ofPath (segmentsOf folder)) fromName.text toName.text
  | .deleteBucket bucket, change => change = .deleteBucket bucket.text
  | .deleteKey bucket folder name, change =>
      change = .deleteKey bucket.text (.ofPath (segmentsOf (folder ++ [name])))
  | .deleteObject bucket folder name, change =>
      change = .deleteObject bucket.text (.ofPath (segmentsOf (folder ++ [name]))) name.text

end Operation

/-! ## The tree follows -/

section Keys

variable (folder : List Name) (name : Name)

theorem segmentsOf_append_singleton :
    segmentsOf (folder ++ [name]) = segmentsOf folder ++ [name.text] := List.map_append

@[simp] theorem path_ofPath_segmentsOf :
    (Key.ofPath (segmentsOf folder)).path = segmentsOf folder :=
  Key.path_ofPath (isSegment_map_text folder)

@[simp] theorem parentLeaf_ofPath_segmentsOf :
    (Key.ofPath (segmentsOf (folder ++ [name]))).parentLeaf = (segmentsOf folder, name.text) := by
  rw [segmentsOf_append_singleton]
  exact Key.parentLeaf_ofPath (isSegment_map_text folder) (IsName.isSegment name.isName)

end Keys

namespace BucketMap

variable {m m' : BucketMap} {fresh : Broker} {change : Change} {keyed : Broker → Bool}
  {bucket : Bucket} {path : List Segment} {segment : Segment}

theorem isSome_listing : (m.listing bucket path).isSome = (m.entryAt bucket path).isSome :=
  Option.isSome_map

theorem listing_of_change (hfresh : keyed fresh = false) (hkeyed : m.KeyedBy keyed)
    (hchange : m.change fresh change = .ok m') :
    m'.listing = m'.view.map Object.fileName keyed :=
  listing_eq_map (keyedBy_of_change hfresh hkeyed hchange)

/-- The change of an operation that fits does what the operation does, unless it panics at an
entry without keys. -/
theorem change_of_fits (hfresh : keyed fresh = false) (hkeyed : m.KeyedBy keyed)
    {operation : Operation} (hfits : operation.Fits m.listing) (hsends : operation.Sends change) :
    (¬operation.OpensUnkeyed m.listing → ∃ m', m.change fresh change = .ok m' ∧
      m'.listing = operation.effect m.listing) ∧
    (operation.OpensUnkeyed m.listing → ∃ panic, m.change fresh change = .error panic) := by
  have hview := listing_eq_map hkeyed
  have hdone {operation : Operation} {V : View}
      (hunkeyed : ¬operation.OpensUnkeyed m.listing)
      (hchange : ∃ m', m.change fresh change = .ok m' ∧ m'.view = V)
      (heffect : V.map Object.fileName keyed = operation.effect m.listing) :
      (¬operation.OpensUnkeyed m.listing → ∃ m', m.change fresh change = .ok m' ∧
        m'.listing = operation.effect m.listing) ∧
      (operation.OpensUnkeyed m.listing → ∃ panic, m.change fresh change = .error panic) := by
    obtain ⟨m', hchange, rfl⟩ := hchange
    refine ⟨fun _ => ⟨m', hchange, ?_⟩, fun h => absurd h hunkeyed⟩
    rw [listing_of_change hfresh hkeyed hchange, heffect]
  cases operation with
  | newBucket bucket =>
      obtain rfl := hsends
      apply hdone id (view_newBucket m fresh bucket.text)
      rw [FlatMap.map_addPlace, ← hview, hfresh]
      rfl
  | newKey bucket folder name =>
      obtain rfl := hsends
      have hleaf := parentLeaf_ofPath_segmentsOf folder name
      rw [Operation.Fits, isSome_listing] at hfits
      obtain ⟨entry, hentry⟩ := Option.isSome_iff_exists.1 hfits
      have hlisted : m.listing bucket.text (segmentsOf folder) =
          some ((entry.fileNames : Multiset Str), entry.keys.isSome) := by
        simp [listing, hentry]
      cases hkeys : entry.keys with
      | none =>
          have hunkeyed : (Operation.newKey bucket folder name).OpensUnkeyed m.listing :=
            ⟨_, by rw [hlisted, hkeys, Option.isSome_none]⟩
          refine ⟨fun h => absurd hunkeyed h, fun _ => ⟨.unwrapNone, ?_⟩⟩
          rw [change_newKey, hleaf]
          exact withKeys_of_no_keys hentry hkeys _
      | some keys =>
          have hkeyed' : ¬(Operation.newKey bucket folder name).OpensUnkeyed m.listing := by
            rintro ⟨files, hfiles⟩
            simp [hlisted, hkeys] at hfiles
          apply hdone hkeyed' (view_newKey fresh hleaf hentry (by rw [hkeys]; rfl))
          rw [FlatMap.map_addPlace, ← hview, hfresh]
          rfl
  | newObject bucket folder name =>
      obtain ⟨object, hname, rfl⟩ := hsends
      apply hdone id (view_newObject m fresh _ _ object)
      rw [FlatMap.map_addItem, ← hview, hname, path_ofPath_segmentsOf]
      rfl
  | nameBucket fromName toName =>
      obtain rfl := hsends
      have hpresent : (m.view fromName.text []).isSome := by
        rwa [Operation.Fits, hview, FlatMap.isSome_map] at hfits
      apply hdone id (view_nameBucket m fresh hpresent toName.text)
      rw [FlatMap.map_moveRoot, ← hview]
      rfl
  | nameKey bucket folder fromName toName =>
      obtain rfl := hsends
      obtain ⟨hpresent, hfree⟩ := hfits
      rw [isSome_listing] at hpresent
      rw [hview, FlatMap.map, Option.map_eq_none_iff] at hfree
      apply hdone id (view_nameKey fresh (parentLeaf_ofPath_segmentsOf folder fromName) hpresent
        hfree)
      rw [FlatMap.map_movePath, ← hview]
      rfl
  | nameObject bucket folder fromName toName =>
      obtain rfl := hsends
      rw [Operation.Fits, hview, FlatMap.items_map, Multiset.mem_map] at hfits
      rw [← path_ofPath_segmentsOf] at hfits
      obtain ⟨m', hchange, object, hobject, hname, heffect⟩ :=
        view_nameObject m fresh hfits toName.text
      apply hdone id ⟨m', hchange, heffect⟩
      rw [FlatMap.map_replaceItem _ _ _ hobject, ← hview, hname, path_ofPath_segmentsOf]
      rfl
  | deleteBucket bucket =>
      obtain rfl := hsends
      apply hdone id (view_deleteBucket m fresh bucket.text)
      rw [FlatMap.map_drop, ← hview]
      rfl
  | deleteKey bucket folder name =>
      obtain rfl := hsends
      rw [Operation.Fits, isSome_listing] at hfits
      apply hdone id (view_deleteKey fresh (parentLeaf_ofPath_segmentsOf folder name) hfits)
      rw [FlatMap.map_drop, ← hview]
      rfl
  | deleteObject bucket folder name =>
      obtain rfl := hsends
      rw [Operation.Fits, ← segmentsOf_append_singleton, hview, FlatMap.map,
        Option.map_eq_none_iff, ← path_ofPath_segmentsOf] at hfits
      have habsent : ∀ o ∈ m.view.items bucket.text
          (Key.ofPath (segmentsOf (folder ++ [name]))).path, o.fileName ≠ name.text := by
        rw [FlatMap.items_of_none _ _ hfits]
        exact fun o ho => absurd ho (Multiset.notMem_zero o)
      exact hdone id ⟨m, view_deleteObject_of_absent m fresh habsent, rfl⟩ hview.symm

end BucketMap

/-! ## The events -/

section Events

variable (root : List Name) (bucket : Name) (folder : List Name) (name : Name)

def placeOf : Path := Path.ofNames (root ++ bucket :: folder)

/-- The text of the bucket does not occur in the path of the root, so that keys are read
right. -/
def Legible : Prop := ¬bucket.text <:+: Path.render (root.map Name.text)

theorem placeOf_nil : placeOf root bucket [] = (Path.ofNames root).join (.ofStr bucket.text) := by
  simp [placeOf, Path.ofNames, Path.join]

theorem placeOf_append_singleton :
    placeOf root bucket (folder ++ [name]) =
      (placeOf root bucket folder).join (.ofStr name.text) := by
  simp [placeOf, Path.ofNames, Path.join]

theorem placeOf_ne_root : placeOf root bucket folder ≠ Path.ofNames root := by
  simp [placeOf, Path.ofNames]

@[simp] theorem fileNameStr_placeOf :
    fileNameStr (placeOf root bucket (folder ++ [name])) = .ok name.text := by
  rw [placeOf_append_singleton, fileNameStr_join]

theorem bucketOf_placeOf : bucketOf (Path.ofNames root) (placeOf root bucket folder) =
    .ok bucket.text :=
  EventWatcher.bucketOf_below root bucket folder

/-- In a bucket whose keys are read right, every folder has its own. -/
theorem fromBucket_placeOf (hlegible : Legible root bucket) :
    Key.fromBucket bucket.text (placeOf root bucket folder) =
      some (.ofPath (segmentsOf folder)) := by
  rw [placeOf, Key.fromBucket_below, Key.decoded_of_not_occurs hlegible]
  rfl

theorem objectAddress_placeOf (hlegible : Legible root bucket) :
    objectAddress (Path.ofNames root) (placeOf root bucket (folder ++ [name])) =
      .ok (bucket.text, .ofPath (segmentsOf folder)) := by
  have hparent : (placeOf root bucket (folder ++ [name])).parent =
      some (placeOf root bucket folder) := by
    rw [placeOf_append_singleton, Path.join, Path.parent_append_singleton]
  rw [objectAddress, bucketOf_placeOf, ok_bind, hparent, unwrap_some, ok_bind,
    fromBucket_placeOf root bucket folder hlegible]
  rfl

def dirOf : BucketDir ⟨Path.ofNames root, fun comp hcomp => isComponent_ofNames comp hcomp⟩ where
  bucket := .ofStr bucket.text
  segments := Path.ofNames folder
  components := fun comp hcomp => @isComponent_ofNames (bucket :: folder) comp hcomp

theorem path_dirOf : (dirOf root bucket folder).path = placeOf root bucket folder := by
  simp [dirOf, BucketDir.path, placeOf, Path.ofNames]

end Events

namespace Operation

variable (root : List Name)

def event : Operation → Event
  | .newBucket bucket => { kind := .create .folder, paths := [placeOf root bucket []] }
  | .newKey bucket folder name =>
      { kind := .create .folder, paths := [placeOf root bucket (folder ++ [name])] }
  | .newObject bucket folder name =>
      { kind := .create .file, paths := [placeOf root bucket (folder ++ [name])] }
  | .nameBucket fromName toName =>
      { kind := .modifyName .both, paths := [placeOf root fromName [], placeOf root toName []] }
  | .nameKey bucket folder fromName toName | .nameObject bucket folder fromName toName =>
      { kind := .modifyName .both
        paths := [placeOf root bucket (folder ++ [fromName]),
          placeOf root bucket (folder ++ [toName])] }
  | .deleteBucket bucket => { kind := .remove .folder, paths := [placeOf root bucket []] }
  | .deleteKey bucket folder name =>
      { kind := .remove .folder, paths := [placeOf root bucket (folder ++ [name])] }
  | .deleteObject bucket folder name =>
      { kind := .remove .file, paths := [placeOf root bucket (folder ++ [name])] }

/-- The names that it gives are normal, and the keys of its bucket are read right. -/
def Plain : Operation → Prop
  | .newBucket name | .nameBucket _ name => NormalizePathUtf8.newName name.text = name.text
  | .newKey bucket _ name | .nameKey bucket _ _ name =>
      Legible root bucket ∧ NormalizePathUtf8.newName name.text = name.text
  | .newObject bucket _ name | .nameObject bucket _ _ name =>
      Legible root bucket ∧ NormalizeFileUtf8.cleanName name.text = name.text
  | .deleteBucket _ => True
  | .deleteKey bucket _ _ | .deleteObject bucket _ _ => Legible root bucket

/-- The disk, asked while the event is handled, answers as the operation left it, and tells
times of a new file that can be expressed. -/
def SeenOn (disk : Disk) : Operation → Prop
  | .newObject bucket folder name =>
      (disk.file (placeOf root bucket (folder ++ [name]))).Expressible
  | .nameBucket _ toName => disk.isDir (placeOf root toName []) = true
  | .nameKey bucket folder _ toName =>
      disk.isDir (placeOf root bucket (folder ++ [toName])) = true
  | .nameObject bucket folder _ toName =>
      disk.isDir (placeOf root bucket (folder ++ [toName])) = false
  | _ => True

end Operation

section Handlers

variable {root : List Name} {bucket : Bucket} {disk : Disk} {folder : List Name} {name : Name}

/-! What the handlers make of normal names, as long as nothing is to be skipped. -/

theorem finalName_of_normal {nanoid : Str}
    (hnormal : NormalizePathUtf8.newName name.text = name.text) :
    (OsStr.ofStr name.text).toStringLossy =
      NormalizePathUtf8.finalName nanoid (OsStr.ofStr name.text).toStringLossy := by
  rw [OsStr.toStringLossy_ofStr, (finalName_eq_self_iff name.text_ne_nil).2 hnormal]

theorem newBucket_of_normal (hnormal : NormalizePathUtf8.newName name.text = name.text) :
    hdNewBucketOrKeyWatcher disk (placeOf root name []) (Path.ofNames root) .new =
      .ok (some (.newBucket name.text), .new) := by
  have hne : (OsStr.ofStr name.text).toStringLossy ≠ [] := by
    simpa using name.text_ne_nil
  rw [placeOf_nil, hdNewBucketOrKeyWatcher_of_final hne (finalName_of_normal hnormal), if_pos rfl,
    OsStr.toStringLossy_ofStr]

theorem newKey_of_normal {bucket : Name} (hlegible : Legible root bucket)
    (hnormal : NormalizePathUtf8.newName name.text = name.text) :
    hdNewBucketOrKeyWatcher disk (placeOf root bucket (folder ++ [name])) (Path.ofNames root)
        .new =
      .ok (some (.newKey bucket.text (.ofPath (segmentsOf (folder ++ [name])))), .new) := by
  have hne : (OsStr.ofStr name.text).toStringLossy ≠ [] := by
    simpa using name.text_ne_nil
  rw [placeOf_append_singleton, hdNewBucketOrKeyWatcher_of_final hne (finalName_of_normal hnormal),
    if_neg (placeOf_ne_root root bucket folder), ← placeOf_append_singleton, bucketOf_placeOf,
    ok_bind, fromBucket_placeOf root bucket _ hlegible]
  rfl

theorem newObject_of_normal {bucket : Name} (hlegible : Legible root bucket)
    (hnormal : NormalizeFileUtf8.cleanName name.text = name.text)
    (hexpressible : (disk.file (placeOf root bucket (folder ++ [name]))).Expressible) :
    ∃ object : Object, object.fileName = name.text ∧
      hdNewObjectWatcher disk (placeOf root bucket (folder ++ [name])) (Path.ofNames root) .new =
        .ok (some (.newObject bucket.text (.ofPath (segmentsOf folder)) object), .new) := by
  have hclean : NormalizeFileUtf8.cleanName name.text ≠ [] := by
    rw [hnormal]
    exact name.text_ne_nil
  have haddress := objectAddress_placeOf root bucket folder name hlegible
  rw [placeOf_append_singleton, ← path_dirOf] at haddress hexpressible ⊢
  rw [← hnormal] at haddress hexpressible
  obtain ⟨object, skip', hnew⟩ := exists_announced .new hclean haddress hexpressible
  obtain ⟨-, -, hname, rfl⟩ := address_of_announced hclean hnew
  rw [hnormal] at hnew hname
  exact ⟨object, hname, hnew⟩

theorem nameBucket_of_normal {fromName toName : Name}
    (hnormal : NormalizePathUtf8.newName toName.text = toName.text) :
    hdRenamePath disk (Path.ofNames root) (placeOf root fromName []) (placeOf root toName [])
        .new =
      .ok (some (.nameBucket fromName.text toName.text), .new) := by
  rw [placeOf_nil root toName, hdRenamePath_of_normal hnormal, if_pos rfl, placeOf_nil,
    fileNameStr_join]
  rfl

theorem nameKey_of_normal {bucket fromName toName : Name} (hlegible : Legible root bucket)
    (hnormal : NormalizePathUtf8.newName toName.text = toName.text) :
    hdRenamePath disk (Path.ofNames root) (placeOf root bucket (folder ++ [fromName]))
        (placeOf root bucket (folder ++ [toName])) .new =
      .ok (some (.nameKey bucket.text (.ofPath (segmentsOf (folder ++ [fromName])))
        toName.text), .new) := by
  rw [placeOf_append_singleton root bucket folder toName, hdRenamePath_of_normal hnormal,
    if_neg (placeOf_ne_root root bucket folder), ← placeOf_append_singleton, bucketOf_placeOf,
    ok_bind, fromBucket_placeOf root bucket _ hlegible, fromBucket_placeOf root bucket _ hlegible]
  rfl

theorem nameObject_of_normal {bucket fromName toName : Name} (hlegible : Legible root bucket)
    (hnormal : NormalizeFileUtf8.cleanName toName.text = toName.text) :
    hdRenameObject disk (Path.ofNames root) (placeOf root bucket (folder ++ [fromName]))
        (placeOf root bucket (folder ++ [toName])) .new =
      .ok (some (.nameObject bucket.text (.ofPath (segmentsOf folder)) fromName.text
        toName.text), .new) := by
  have hclean : NormalizeFileUtf8.cleanName toName.text ≠ [] := by
    rw [hnormal]
    exact toName.text_ne_nil
  have hname : toName.text = NormalizeFileUtf8.newName disk.nanoid toName.text := by
    rw [NormalizeFileUtf8.newName_of_cleanName hclean, hnormal]
  have hrun : NormalizeFileUtf8.run disk.nanoid (placeOf root bucket (folder ++ [toName])) =
      .ok (.not toName.text) := by
    rw [placeOf_append_singleton, Path.join, NormalizeFileUtf8.run_append_singleton,
      if_neg (not_not.2 hname)]
  rw [hdRenameObject_of_not (objectAddress_placeOf root bucket folder toName hlegible) hrun,
    fileNameStr_placeOf]
  rfl

end Handlers

namespace Operation

variable {root : List Name} {operation : Operation} {disk : Disk}
  {whatIs : Path → Except Panic ManagerReply}

/-- The watcher tells the manager the change of the operation, and may decline a source
before. -/
theorem handle_event (hplain : operation.Plain root) (hseen : operation.SeenOn root disk) :
    ∃ (renames : List RenameControl.Rename) (change : Change), operation.Sends change ∧
      EventWatcher.handle disk whatIs (Path.ofNames root) .new (operation.event root) =
        .ok (renames.map .renameControl ++ [.manager change], .new) := by
  cases operation with
  | newBucket bucket =>
      refine ⟨[], _, rfl, ?_⟩
      simp only [event, EventWatcher.handle, List.getLast?_singleton, newBucket_of_normal hplain]
      rfl
  | newKey bucket folder name =>
      refine ⟨[], _, rfl, ?_⟩
      simp only [event, EventWatcher.handle, List.getLast?_singleton,
        newKey_of_normal hplain.1 hplain.2]
      rfl
  | newObject bucket folder name =>
      obtain ⟨object, hname, hnew⟩ := newObject_of_normal hplain.1 hplain.2 hseen
      refine ⟨[], _, ⟨object, hname, rfl⟩, ?_⟩
      simp only [event, EventWatcher.handle, List.getLast?_singleton, hnew]
      rfl
  | nameBucket fromName toName =>
      refine ⟨[.decline (placeOf root fromName [])], _, rfl, ?_⟩
      have hdir : disk.isDir (placeOf root toName []) = true := hseen
      simp only [event, EventWatcher.handle, List.reverse_cons, List.reverse_nil,
        List.nil_append, List.cons_append, hdir, if_true, nameBucket_of_normal hplain]
      rfl
  | nameKey bucket folder fromName toName =>
      refine ⟨[.decline (placeOf root bucket (folder ++ [fromName]))], _, rfl, ?_⟩
      have hdir : disk.isDir (placeOf root bucket (folder ++ [toName])) = true := hseen
      simp only [event, EventWatcher.handle, List.reverse_cons, List.reverse_nil,
        List.nil_append, List.cons_append, hdir, if_true, nameKey_of_normal hplain.1 hplain.2]
      rfl
  | nameObject bucket folder fromName toName =>
      refine ⟨[.decline (placeOf root bucket (folder ++ [fromName]))], _, rfl, ?_⟩
      have hfile : disk.isDir (placeOf root bucket (folder ++ [toName])) = false := hseen
      simp only [event, EventWatcher.handle, List.reverse_cons, List.reverse_nil,
        List.nil_append, List.cons_append, hfile, Bool.false_eq_true, if_false,
        nameObject_of_normal hplain.1 hplain.2]
      rfl
  | deleteBucket bucket =>
      refine ⟨[], _, rfl, ?_⟩
      simp only [event, EventWatcher.handle, List.getLast?_singleton, bucketOf_placeOf, ok_bind]
      rw [placeOf_nil, Path.join, Path.parent_append_singleton, if_pos rfl]
      rfl
  | deleteKey bucket folder name =>
      refine ⟨[], _, rfl, ?_⟩
      have hparent :
          ¬(placeOf root bucket (folder ++ [name])).parent = some (Path.ofNames root) := by
        rw [placeOf_append_singleton, Path.join, Path.parent_append_singleton, Option.some.injEq]
        exact placeOf_ne_root root bucket folder
      simp only [event, EventWatcher.handle, List.getLast?_singleton, bucketOf_placeOf, ok_bind,
        hparent, if_false, fromBucket_placeOf root bucket _ hplain]
      rfl
  | deleteObject bucket folder name =>
      refine ⟨[], _, rfl, ?_⟩
      simp only [event, EventWatcher.handle, List.getLast?_singleton, bucketOf_placeOf, ok_bind,
        fromBucket_placeOf root bucket _ hplain, fileNameStr_placeOf]
      rfl

end Operation

end WsHyper.Directory
