import WsHyper.Directory.Handlers
import WsHyper.Directory.KeyPieces

/-!
# Addresses of watched paths

A directory in a bucket has its address, a bucket and a key, where `root/bucket/key` leads
to it.  The handlers read the address back from the path.  They find it exactly if the
path is text and the name of the bucket does not occur in the text of the root.
-/

namespace WsHyper.Directory

open WsHyper.Lib

def location (root : Path) (bucket : Bucket) (key : Key) : Path :=
  root ++ .ofStr bucket :: OsStr.pieces (.ofStr key)

/-- A directory in a bucket, or that of the bucket itself. -/
structure BucketDir (root : CanonicalPath) where
  bucket : OsStr
  segments : Path
  components : ∀ comp ∈ bucket :: segments, OsStr.IsComponent comp

namespace BucketDir

variable {root : CanonicalPath}

def path (dir : BucketDir root) : Path := root.path ++ dir.bucket :: dir.segments

def Decodable (dir : BucketDir root) : Prop :=
  dir.path.toStr.isSome ∧
    ∀ text, root.path.toStr = some text → ∀ bucket, dir.bucket = .ofStr bucket →
      ¬bucket <:+: text

def child (dir : BucketDir root) (name : OsStr) (hname : name.IsComponent) : BucketDir root where
  bucket := dir.bucket
  segments := dir.segments ++ [name]
  components := by
    intro comp hcomp
    rw [← List.cons_append] at hcomp
    rcases List.mem_append.1 hcomp with hmem | hmem
    · exact dir.components comp hmem
    · rwa [List.mem_singleton.1 hmem]

end BucketDir

structure BelowRoot (root : CanonicalPath) where
  parent : Option (BucketDir root)
  name : OsStr
  isComponent : name.IsComponent

namespace BelowRoot

variable {root : CanonicalPath}

def parentPath (entry : BelowRoot root) : Path :=
  match entry.parent with
  | none => root.path
  | some dir => dir.path

def path (entry : BelowRoot root) : Path := entry.parentPath.join entry.name

end BelowRoot

/-! ## Buckets and keys that are read -/

section Reading

variable {root : CanonicalPath} (dir : BucketDir root)

theorem bucketOf_append (root rest : Path) (child : OsStr) :
    bucketOf root (root ++ child :: rest) = unwrap child.toStr := by
  rw [bucketOf, Bucket.findBucket_append]
  cases child.toStr <;> rfl

theorem BucketDir.path_ne_root : dir.path ≠ root.path := by
  simp [path]

@[simp] theorem BucketDir.path_child (name : OsStr) (hname : name.IsComponent) :
    (dir.child name hname).path = dir.path.join name := by
  simp [path, child, Path.join]

@[simp] theorem BucketDir.bucket_child (name : OsStr) (hname : name.IsComponent) :
    (dir.child name hname).bucket = dir.bucket := rfl

theorem BucketDir.bucketOf_join (name : OsStr) :
    bucketOf root.path (dir.path.join name) = unwrap dir.bucket.toStr := by
  rw [Path.join, path, List.append_assoc, List.cons_append, bucketOf_append]

theorem BucketDir.findBucket_join_iff (name : OsStr) (bucket : Bucket) :
    Bucket.findBucket root.path (dir.path.join name) = .ok (some bucket) ↔
      dir.bucket = .ofStr bucket := by
  rw [Path.join, path, List.append_assoc, List.cons_append]
  constructor
  · exact Bucket.eq_of_findBucket_append
  · intro hbucket
    rw [Bucket.findBucket_append, hbucket, OsStr.toStr_ofStr]
    rfl

theorem BucketDir.bucketOf_path : bucketOf root.path dir.path = unwrap dir.bucket.toStr :=
  bucketOf_append _ _ _

theorem BucketDir.exists_names (htext : dir.path.toStr.isSome) :
    ∃ above bucket segments, root.path = Path.ofNames above ∧
      dir.bucket = .ofStr bucket.text ∧ dir.segments = Path.ofNames segments ∧
        dir.path = Path.ofNames (above ++ bucket :: segments) := by
  have hcomponents : ∀ comp ∈ dir.path, OsStr.IsComponent comp := by
    intro comp hcomp
    rcases List.mem_append.1 hcomp with hroot | hbelow
    · exact root.components comp hroot
    · exact dir.components comp hbelow
  obtain ⟨names, hnames⟩ := names_of_components hcomponents htext
  obtain ⟨above, rest, rfl, hroot, hrest⟩ := List.map_eq_append_iff.1 hnames.symm
  obtain ⟨bucket, segments, rfl, hbucket, hsegments⟩ := List.map_eq_cons_iff.1 hrest
  exact ⟨above, bucket, segments, hroot.symm, hbucket.symm, hsegments.symm, hnames⟩

end Reading

/-- The address that is read leads back exactly if the name of the bucket does not occur in
the root: an occurrence there leaves more pieces over. -/
theorem location_decoded_iff (root segments : List Name) (bucket : Name) :
    location (Path.ofNames root) bucket.text (Key.decoded root bucket (segments.map Name.text)) =
        Path.ofNames (root ++ bucket :: segments) ↔
      ¬bucket.text <:+: Path.render (root.map Name.text) := by
  have hpath : Path.ofNames (root ++ bucket :: segments) =
      Path.ofNames root ++ .ofStr bucket.text :: Path.ofNames segments := ofNames_append _ _
  rw [location, hpath, List.append_cancel_left_eq, List.cons.injEq, and_iff_right rfl]
  constructor
  · intro hpieces hoccurs
    obtain ⟨before, part, more, -, hsplit⟩ := exists_rest_of_occurs hoccurs
    rw [Key.decoded, Key.leftover_of_splitOnce root bucket hsplit, pieces_ofRest,
      pieces_append_below, pieces_append_slash, pieces_append_below, pieces_name] at hpieces
    have hlength := congrArg List.length hpieces
    simp only [List.length_append, List.length_singleton] at hlength
    omega
  · intro habsent
    rw [Key.decoded_of_not_occurs habsent, pieces_ofPath_key]

namespace BucketDir

variable {root : CanonicalPath} {dir : BucketDir root}

theorem exists_address (htext : dir.path.toStr.isSome) :
    ∃ bucket key, dir.bucket = .ofStr bucket ∧ Key.fromBucket bucket dir.path = some key ∧
      (location root.path bucket key = dir.path ↔ dir.Decodable) := by
  obtain ⟨above, bucket, segments, hroot, hbucket, -, hpath⟩ := dir.exists_names htext
  refine ⟨bucket.text, _, hbucket, by rw [hpath, Key.fromBucket_below], ?_⟩
  rw [Decodable, and_iff_right htext, hroot, hpath, location_decoded_iff]
  constructor
  · intro habsent text htext bucket' hbucket'
    rw [Path.toStr_ofNames, Option.some.injEq] at htext
    rw [← htext, ← OsStr.ofStr_injective (hbucket.symm.trans hbucket')]
    exact habsent
  · intro habsent
    exact habsent _ (Path.toStr_ofNames above) _ hbucket

theorem fromBucket_of_not_text (htext : ¬dir.path.toStr.isSome) (bucket : Bucket) :
    Key.fromBucket bucket dir.path = none := by
  by_contra hkey
  obtain ⟨key, hkey⟩ := Option.ne_none_iff_exists'.1 hkey
  exact htext (Key.isSome_toStr_of_fromBucket hkey)

variable {name : Str} (hname : (OsStr.ofStr name).IsComponent)

theorem isSome_toStr_child :
    (dir.child (.ofStr name) hname).path.toStr.isSome ↔ dir.path.toStr.isSome := by
  rw [path_child, Path.isSome_toStr_join]

/-- What is in a directory has an address to be read exactly if the directory has. -/
theorem decodable_child : (dir.child (.ofStr name) hname).Decodable ↔ dir.Decodable := by
  rw [Decodable, Decodable, isSome_toStr_child, bucket_child]

end BucketDir

/-- Of the directories of one bucket no two are read as one key. -/
theorem BucketDir.path_inj {root : CanonicalPath} {dir dir' : BucketDir root} {bucket : Bucket}
    {key : Key} (hbucket : dir.bucket = .ofStr bucket) (hbucket' : dir'.bucket = .ofStr bucket)
    (hkey : Key.fromBucket bucket dir.path = some key)
    (hkey' : Key.fromBucket bucket dir'.path = some key) : dir.path = dir'.path := by
  obtain ⟨above, name, segments, hroot, hname, -, hpath⟩ :=
    dir.exists_names (Key.isSome_toStr_of_fromBucket hkey)
  obtain ⟨above', name', segments', hroot', hname', -, hpath'⟩ :=
    dir'.exists_names (Key.isSome_toStr_of_fromBucket hkey')
  obtain rfl := Path.ofNames_injective (hroot.symm.trans hroot')
  obtain rfl := OsStr.ofStr_injective (hbucket.symm.trans hname)
  obtain rfl := Name.ext (OsStr.ofStr_injective (hbucket'.symm.trans hname'))
  rw [hpath, Key.fromBucket_below, Option.some.injEq] at hkey
  rw [hpath', Key.fromBucket_below, Option.some.injEq] at hkey'
  rw [hpath, hpath', Key.decoded_injOn (hkey.trans hkey'.symm)]

/-! ## Addresses of objects -/

def objectAddress (root path : Path) : Except Panic (Bucket × Key) := do
  let bucket ← bucketOf root path
  let parent ← unwrap path.parent
  let key ← unwrap (Key.fromBucket bucket parent)
  return (bucket, key)

section Renamed

variable {disk : Disk} {root originalFrom originalTo : Path} {skip : Skipper} {bucket : Bucket}
  {key : Key} {name : Str} {rename : Rename}

theorem hdRenameObject_of_not (haddress : objectAddress root originalTo = .ok (bucket, key))
    (hrun : NormalizeFileUtf8.run disk.nanoid originalTo = .ok (.not name)) :
    hdRenameObject disk root originalFrom originalTo skip =
      if (skip.objectSkipped bucket key name).1 then
        .ok (none, (skip.objectSkipped bucket key name).2)
      else fileNameStr originalFrom >>= fun oldName =>
        .ok (some (.nameObject bucket key oldName name),
          (skip.objectSkipped bucket key name).2) := by
  obtain ⟨bucket', hbucket, haddress⟩ := bind_eq_ok haddress
  obtain ⟨parent, hparent, haddress⟩ := bind_eq_ok haddress
  obtain ⟨key', hkey, haddress⟩ := bind_eq_ok haddress
  obtain ⟨rfl, rfl⟩ := Prod.mk.inj (Except.ok.inj haddress)
  rw [hdRenameObject, hbucket, ok_bind, hparent, ok_bind, hkey, ok_bind, hrun]
  rfl

theorem hdRenameObject_of_yes (haddress : objectAddress root originalTo = .ok (bucket, key))
    (hrun : NormalizeFileUtf8.run disk.nanoid originalTo = .ok (.yes rename)) :
    hdRenameObject disk root originalFrom originalTo skip =
      if disk.rename (Path.joinStr rename.parent rename.fromName)
          (Path.joinStr rename.parent rename.toName) then
        .ok (some (.nameObject bucket key rename.fromName rename.toName),
          skip.skipObject bucket key rename.toName)
      else .ok (none, skip) := by
  obtain ⟨bucket', hbucket, haddress⟩ := bind_eq_ok haddress
  obtain ⟨parent, hparent, haddress⟩ := bind_eq_ok haddress
  obtain ⟨key', hkey, haddress⟩ := bind_eq_ok haddress
  obtain ⟨rfl, rfl⟩ := Prod.mk.inj (Except.ok.inj haddress)
  rw [hdRenameObject, hbucket, ok_bind, hparent, ok_bind, hkey, ok_bind, hrun]
  rfl

theorem exists_address_of_hdRenameObject {result : Option Change × Skipper}
    (hresult : hdRenameObject disk root originalFrom originalTo skip = .ok result) :
    ∃ address, objectAddress root originalTo = .ok address := by
  obtain ⟨bucket, hbucket, hresult⟩ := bind_eq_ok hresult
  obtain ⟨parent, hparent, hresult⟩ := bind_eq_ok hresult
  obtain ⟨key, hkey, -⟩ := bind_eq_ok hresult
  exact ⟨(bucket, key), by rw [objectAddress, hbucket, ok_bind, hparent, ok_bind, hkey]; rfl⟩

end Renamed

section Objects

variable {root : CanonicalPath} (dir : BucketDir root) (name : OsStr)

theorem objectAddress_of_text (htext : dir.path.toStr.isSome) :
    ∃ bucket key, objectAddress root.path (dir.path.join name) = .ok (bucket, key) ∧
      dir.bucket = .ofStr bucket ∧ Key.fromBucket bucket dir.path = some key ∧
        (location root.path bucket key = dir.path ↔ dir.Decodable) := by
  obtain ⟨bucket, key, hbucket, hkey, hlocation⟩ := BucketDir.exists_address htext
  refine ⟨bucket, key, ?_, hbucket, hkey, hlocation⟩
  rw [objectAddress, dir.bucketOf_join, hbucket, OsStr.toStr_ofStr, unwrap_some, ok_bind,
    Path.join, Path.parent_append_singleton, unwrap_some, ok_bind, hkey]
  rfl

theorem objectAddress_of_not_text (htext : ¬dir.path.toStr.isSome) :
    ∃ panic, objectAddress root.path (dir.path.join name) = .error panic := by
  rw [objectAddress, dir.bucketOf_join]
  cases hbucket : dir.bucket.toStr with
  | none => exact ⟨_, rfl⟩
  | some bucket =>
      rw [unwrap_some, ok_bind, Path.join, Path.parent_append_singleton, unwrap_some, ok_bind,
        BucketDir.fromBucket_of_not_text htext]
      exact ⟨_, rfl⟩

end Objects

theorem objectAddress_join_eq {root : CanonicalPath} (dir : BucketDir root) (name name' : OsStr) :
    objectAddress root.path (dir.path.join name) =
      objectAddress root.path (dir.path.join name') := by
  rw [objectAddress, objectAddress, dir.bucketOf_join, dir.bucketOf_join, Path.join, Path.join,
    Path.parent_append_singleton, Path.parent_append_singleton]

/-! ## Renamed directories -/

section Directories

variable {disk : Disk} {root originalFrom parent : Path} {name : OsStr} {skip : Skipper}

theorem hdRenamePath_of_normal {target : Name}
    (hnormal : NormalizePathUtf8.newName target.text = target.text) :
    hdRenamePath disk root originalFrom (parent.join (.ofStr target.text)) skip =
      if parent = root then
        if (skip.bucketSkipped target.text).1 then
          .ok (none, (skip.bucketSkipped target.text).2)
        else fileNameStr originalFrom >>= fun fromName =>
          .ok (some (.nameBucket fromName target.text), (skip.bucketSkipped target.text).2)
      else bucketOf root (parent.join (.ofStr target.text)) >>= fun bucket =>
        unwrap (Key.fromBucket bucket (parent.join (.ofStr target.text))) >>= fun key =>
          if (skip.keySkipped bucket key).1 then .ok (none, (skip.keySkipped bucket key).2)
          else unwrap (Key.fromBucket bucket originalFrom) >>= fun keyFrom =>
            .ok (some (.nameKey bucket keyFrom target.text), (skip.keySkipped bucket key).2) := by
  have hrun : NormalizePathUtf8.run false disk.nanoid (parent.join (.ofStr target.text)) =
      .ok (.not target.text) := by
    rw [Path.join, NormalizePathUtf8.run_append_singleton, hnormal, if_pos target.text_ne_nil,
      if_neg (not_not.2 rfl)]
  rw [hdRenamePath, hrun]
  simp only [Path.join, Path.parent_append_singleton, Option.some.injEq]
  rfl

theorem hdRenamePath_of_renamed {toName : Str}
    (htoName : toName = NormalizePathUtf8.newName name.toStringLossy) (hne : toName ≠ [])
    (hname : name.toStringLossy ≠ toName) :
    hdRenamePath disk root originalFrom (parent.join name) skip =
      if parent = root then fileNameStr originalFrom >>= fun originalName =>
        .ok (some (.nameBucket originalName toName), skip.skipBucket toName)
      else bucketOf root (parent.join name) >>= fun bucket =>
        unwrap (Key.fromBucket bucket originalFrom) >>= fun originalKey =>
          unwrap (Key.fromBucket bucket (parent.join name)) >>= fun key =>
            .ok (some (.nameKey bucket originalKey toName), skip.skipKey bucket key) := by
  have hrun : NormalizePathUtf8.run false disk.nanoid (parent.join name) =
      .ok (.yes ⟨parent, name.toStringLossy, toName⟩) := by
    rw [NormalizePathUtf8.run, Path.join, Path.fileName_append_singleton, Option.map_some]
    simp only [← htoName, ne_eq, hne, not_false_iff, if_true, hname, renameTo_append_singleton]
  rw [hdRenamePath, hrun]
  rfl

end Directories

/-! ## The bucket `b` of the root `/d` -/

theorem isComponent_singleton {text : Str} (hname : IsName text) :
    ∀ comp ∈ [OsStr.ofStr text], OsStr.IsComponent comp := by
  intro comp hcomp
  rw [List.mem_singleton.1 hcomp]
  exact OsStr.isComponent_ofStr_iff.2 hname

theorem components_rootPathD : ∀ comp ∈ [OsStr.ofStr ['d']], OsStr.IsComponent comp :=
  isComponent_singleton (by decide)

theorem components_bucketDirB : ∀ comp ∈ [OsStr.ofStr ['b']], OsStr.IsComponent comp :=
  isComponent_singleton (by decide)

def rootPathD : CanonicalPath where
  path := [.ofStr ['d']]
  components := components_rootPathD

def bucketDirB : BucketDir rootPathD where
  bucket := .ofStr ['b']
  segments := []
  components := components_bucketDirB

theorem decodable_bucketDirB : bucketDirB.Decodable := by
  refine ⟨by decide, fun text htext bucket hbucket => ?_⟩
  obtain rfl := Option.some.inj ((show rootPathD.path.toStr = some ['/', 'd'] by decide).symm.trans
    htext)
  obtain rfl := OsStr.ofStr_injective hbucket
  decide

end WsHyper.Directory
