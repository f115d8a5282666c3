import WsHyper.Lib.MovedTree
import WsHyper.Directory.Addresses
import WsHyper.Directory.BuildMirror
import WsHyper.Directory.RemoveEvents
import WsHyper.Directory.Simulation

/-!
# Directories that are moved

A rename event tells where a directory was and where it is.  The change that is made of it
has one bucket, one key and one name, and so it can only give a directory another name in
its own parent.  The tree mirrors the disk after these moves, and after no others.
-/

namespace WsHyper.Directory

open WsHyper.Lib WsHyper.Lib.Text

/-! ## Mirrors, place by place -/

/-- The objects of a place are called like the files of a directory, each once. -/
def HoldsFiles (content : Multiset Object × Broker) (files : List (Name × FileInfo)) : Prop :=
  (content.1.map Object.fileName).Nodup ∧
    ∀ name, name ∈ content.1.map Object.fileName ↔ name ∈ files.map fun file => file.1.text

/-- The flat store has a place for every directory below the root and no other. -/
structure MirrorsPlaces (V : View) (tree : Dir) : Prop where
  places : ∀ (bucket : Name) (path : List Name),
    Option.Rel HoldsFiles (V bucket.text (path.map Name.text)) (tree.listing (bucket :: path))
  named : ∀ bucket (key : Key), (V bucket key.path).isSome →
    ∃ (b : Name) (path : List Name), b.text = bucket ∧ path.map Name.text = key.path

theorem rel_sameFiles_iff {entry : Option KeyEntry} {dir : Option Dir} :
    Option.Rel SameFiles entry dir ↔
      Option.Rel HoldsFiles (entry.map BucketMap.branching.data) (dir.map Entries.files) := by
  cases entry with
  | none => cases dir <;> simp
  | some entry =>
      cases dir with
      | none => simp
      | some dir =>
          simp [SameFiles, HoldsFiles, BucketMap.branching, KeyEntry.fileNames, Dir.fileNames]

theorem BucketMap.mirrors_iff {m : BucketMap} {tree : Dir} :
    m.Mirrors tree ↔ MirrorsPlaces m.view tree := by
  have hplaces : ∀ (bucket : Name) (path : List Name),
      Option.Rel SameFiles (m.getEntry bucket.text (Key.ofPath (path.map Name.text)))
          (tree.dirAt (bucket :: path)) ↔
        Option.Rel HoldsFiles (m.view bucket.text (path.map Name.text))
          (tree.listing (bucket :: path)) := by
    intro bucket path
    rw [rel_sameFiles_iff, getEntry_eq, Key.path_ofPath (isSegment_map_text path),
      view_eq_map_entryAt]
    rfl
  have hnamed : ∀ bucket (key : Key),
      (m.getEntry bucket key).isSome ↔ (m.view bucket key.path).isSome := by
    intro bucket key
    rw [getEntry_eq, view_eq_map_entryAt, Option.isSome_map]
  constructor
  · rintro ⟨hentries, hnames⟩
    exact ⟨fun bucket path => (hplaces bucket path).1 (hentries bucket path),
      fun bucket key hsome => hnames bucket key ((hnamed bucket key).2 hsome)⟩
  · rintro ⟨hentries, hnames⟩
    exact ⟨fun bucket path => (hplaces bucket path).2 (hentries bucket path),
      fun bucket key hsome => hnames bucket key ((hnamed bucket key).1 hsome)⟩

theorem MirrorsPlaces.isSome_iff {V : View} {tree : Dir} (hmirrors : MirrorsPlaces V tree)
    (bucket : Name) (path : List Name) :
    (V bucket.text (path.map Name.text)).isSome ↔ (tree.dirAt (bucket :: path)).isSome := by
  rw [Branching.isSome_iff_of_rel (hmirrors.places bucket path), Entries.isSome_listing]

theorem MirrorsPlaces.eq_none_iff {V : View} {tree : Dir} (hmirrors : MirrorsPlaces V tree)
    (bucket : Name) (path : List Name) :
    V bucket.text (path.map Name.text) = none ↔ tree.dirAt (bucket :: path) = none := by
  rw [← Option.not_isSome_iff_eq_none, hmirrors.isSome_iff, Option.not_isSome_iff_eq_none]

/-! ## Moves -/

/-- A directory that is there and a place for it: its name is normal and free in a directory
that is there and is not below the moved one. -/
structure Move (tree : Dir) where
  fromDir : List Name
  fromName : Name
  toDir : List Name
  toName : Name
  source : (tree.dirAt (fromDir ++ [fromName])).isSome
  parent : (tree.dirAt toDir).isSome
  free : ∀ dir, tree.dirAt toDir = some dir → toName ∉ dir.map Prod.fst
  apart : ¬fromDir ++ [fromName] <+: toDir
  normal : NormalizePathUtf8.newName toName.text = toName.text

namespace Move

variable {tree : Dir} (move : Move tree) (root : CanonicalPath)

def sourcePath : Path := (root.path ++ Path.ofNames move.fromDir).join (.ofStr move.fromName.text)

def targetPath : Path := (root.path ++ Path.ofNames move.toDir).join (.ofStr move.toName.text)

def after : Dir := tree.moveDir move.fromDir move.fromName move.toDir move.toName

def IsSkipped (skip : Skipper) : Prop :=
  match move.toDir with
  | [] => skip.TracksBucket move.toName.text
  | bucket :: _ => ∃ key, Key.fromBucket bucket.text (move.targetPath root) = some key ∧
      skip.TracksKey bucket.text key

/-- The directory gets another name in its parent, which is the root or has an address that
can be read back. -/
def StaysInPlace : Prop :=
  move.fromDir = move.toDir ∧
    ∀ bucket rest, move.toDir = bucket :: rest →
      ∃ text, root.path.toStr = some text ∧ ¬bucket.text <:+: text

/-- The event is handled, and unless it is skipped the tree mirrors the disk after the change
that is made of it. -/
def KeepsMirror (disk : Disk) (m : BucketMap) (fresh : Broker) (skip : Skipper) : Prop :=
  ∃ change skip',
    hdRenamePath disk root.path (move.sourcePath root) (move.targetPath root) skip =
        .ok (change, skip') ∧
      (¬move.IsSkipped root skip → ∃ c m', change = some c ∧ m.change fresh c = .ok m' ∧
        m'.Mirrors move.after)

/-! ### The disk before and after -/

theorem target_free : tree.dirAt (move.toDir ++ [move.toName]) = none := by
  rw [Entries.dirAt_append]
  cases hdir : tree.dirAt move.toDir with
  | none => rfl
  | some dir =>
      rw [Option.bind_some, Entries.dirAt_cons,
        Entries.subdir_eq_none_of_not_mem (move.free dir hdir)]
      rfl

theorem not_target_prefix_of_isSome {path : List Name} (hpath : (tree.dirAt path).isSome) :
    ¬move.toDir ++ [move.toName] <+: path := by
  rintro ⟨rest, rfl⟩
  rw [Entries.dirAt_append, move.target_free] at hpath
  cases hpath

theorem listing_after (hlabels : tree.LabelsDistinct) (path : List Name) :
    move.after.listing path =
      if move.toDir ++ [move.toName] <+: path then
        tree.listing (move.fromDir ++ move.fromName :: path.drop (move.toDir.length + 1))
      else if move.fromDir ++ [move.fromName] <+: path then none
      else tree.listing path := by
  obtain ⟨sub, hsub⟩ := Option.isSome_iff_exists.1 move.source
  exact Entries.listing_moveDir hlabels hsub move.parent move.apart path

theorem source_gone (hlabels : tree.LabelsDistinct) :
    move.after.dirAt (move.fromDir ++ [move.fromName]) = none := by
  have hlisting := move.listing_after hlabels (move.fromDir ++ [move.fromName])
  rw [if_neg (move.not_target_prefix_of_isSome move.source), if_pos List.prefix_rfl,
    Entries.listing, Option.map_eq_none_iff] at hlisting
  exact hlisting

theorem target_there (hlabels : tree.LabelsDistinct) :
    (move.after.dirAt (move.toDir ++ [move.toName])).isSome := by
  have hlisting := move.listing_after hlabels (move.toDir ++ [move.toName])
  have hdrop : (move.toDir ++ [move.toName]).drop (move.toDir.length + 1) = [] := by simp
  rw [if_pos List.prefix_rfl, hdrop] at hlisting
  rw [← Entries.isSome_listing, hlisting, Entries.isSome_listing]
  exact move.source

theorem kept_of_not_below (hlabels : tree.LabelsDistinct) {path : List Name}
    (hpath : (tree.dirAt path).isSome) (hbelow : ¬move.fromDir ++ [move.fromName] <+: path) :
    (move.after.dirAt path).isSome := by
  have hlisting := move.listing_after hlabels path
  rw [if_neg (move.not_target_prefix_of_isSome hpath), if_neg hbelow] at hlisting
  rwa [← Entries.isSome_listing, hlisting, Entries.isSome_listing]

/-! ### The flat store follows a move within one parent -/

variable {move}

theorem mirrorsPlaces_moveRoot {V : View} (hmirrors : MirrorsPlaces V tree)
    (hlabels : tree.LabelsDistinct) (hfrom : move.fromDir = []) (hto : move.toDir = []) :
    MirrorsPlaces (V.moveRoot move.fromName.text move.toName.text) move.after := by
  constructor
  · intro bucket path
    simp only [move.listing_after hlabels, FlatMap.moveRoot, hfrom, hto, List.nil_append,
      List.cons_prefix_cons, List.nil_prefix, and_true, Name.text_inj]
    split_ifs with htarget hsource
    · exact hmirrors.places move.fromName path
    · exact .none
    · exact hmirrors.places bucket path
  · intro bucket key hsome
    rw [FlatMap.moveRoot] at hsome
    split_ifs at hsome with htarget hsource
    · obtain ⟨-, path, -, hpath⟩ := hmirrors.named _ key hsome
      exact ⟨move.toName, path, htarget, hpath⟩
    · cases hsome
    · exact hmirrors.named bucket key hsome

theorem mirrorsPlaces_movePath {V : View} (hmirrors : MirrorsPlaces V tree)
    (hlabels : tree.LabelsDistinct) {bucket : Name} {dir : List Name}
    (hfrom : move.fromDir = bucket :: dir) (hto : move.toDir = bucket :: dir) :
    MirrorsPlaces (V.movePath bucket.text (dir.map Name.text) move.fromName.text
      move.toName.text) move.after := by
  have hprefix : ∀ (name : Name) (path : List Name),
      dir.map Name.text ++ [name.text] <+: path.map Name.text ↔ dir ++ [name] <+: path := by
    intro name path
    rw [← List.prefix_map_iff_of_injective Name.text_injective, List.map_append]
    rfl
  constructor
  · intro bucket' path
    rw [move.listing_after hlabels, FlatMap.movePath, hfrom, hto]
    by_cases hbucket : bucket = bucket'
    · subst hbucket
      simp only [if_true, List.cons_append, List.cons_prefix_cons, true_and, hprefix,
        List.length_cons, List.drop_succ_cons, List.length_map]
      split_ifs with htarget hsource
      · have hplace := hmirrors.places bucket (dir ++ move.fromName :: path.drop (dir.length + 1))
        simpa using hplace
      · exact .none
      · exact hmirrors.places bucket path
    · have htext : bucket.text ≠ bucket'.text := fun h => hbucket (Name.ext h)
      rw [if_neg htext, if_neg (by simp [List.cons_prefix_cons, hbucket]),
        if_neg (by simp [List.cons_prefix_cons, hbucket])]
      exact hmirrors.places bucket' path
  · intro bucket' key hsome
    rw [FlatMap.movePath] at hsome
    split_ifs at hsome with hbucket htarget hsource
    · obtain ⟨rest, hrest⟩ := htarget
      -- the place was that of a key below the old name
      have hslash : ∀ s ∈ dir.map Name.text ++ move.fromName.text :: rest, '/' ∉ s := by
        intro s hs
        rcases List.mem_append.1 hs with hdir | hbelow
        · exact (isSegment_map_text dir s hdir).2.1
        · rcases List.mem_cons.1 hbelow with rfl | hbelow
          · exact move.fromName.slash_not_mem
          · exact key.slash_not_mem_path s (hrest ▸ List.mem_append_right _ hbelow)
      have hdrop : key.path.drop ((dir.map Name.text).length + 1) = rest := by
        rw [← hrest, List.append_assoc, List.drop_length_add_append, List.singleton_append,
          List.drop_succ_cons, List.drop_zero]
      obtain ⟨key', hkey'⟩ := Key.exists_path hslash
        (List.mem_append_right _ List.mem_cons_self) move.fromName.text_ne_dot
      rw [hdrop, ← hkey'] at hsome
      obtain ⟨b, path, -, hpath⟩ := hmirrors.named _ key' hsome
      obtain ⟨-, below, -, -, hbelow⟩ := List.map_eq_append_iff.1 (hpath.trans hkey')
      obtain ⟨name, tail, -, -, htail⟩ := List.map_eq_cons_iff.1 hbelow
      refine ⟨bucket, dir ++ move.toName :: tail, hbucket, ?_⟩
      rw [← hrest, List.map_append, List.map_cons, htail, List.append_assoc,
        List.singleton_append]
    · cases hsome
    · exact hmirrors.named bucket' key (hbucket ▸ hsome)
    · exact hmirrors.named bucket' key hsome

/-! ### What the event gives -/

section Event

variable (move) (disk : Disk) (skip : Skipper)

theorem hdRenamePath_of_root (hto : move.toDir = []) :
    hdRenamePath disk root.path (move.sourcePath root) (move.targetPath root) skip =
      .ok (if (skip.bucketSkipped move.toName.text).1 then none
          else some (.nameBucket move.fromName.text move.toName.text),
        (skip.bucketSkipped move.toName.text).2) := by
  have hparent : root.path ++ Path.ofNames move.toDir = root.path := by
    rw [hto]
    simp [Path.ofNames]
  have hfrom : fileNameStr (move.sourcePath root) = .ok move.fromName.text := by
    rw [fileNameStr, sourcePath, Path.join, Path.fileName_append_singleton, Option.bind_some,
      OsStr.toStr_ofStr, unwrap_some]
  rw [targetPath, hdRenamePath_of_normal move.normal, if_pos hparent, hfrom, ok_bind]
  split_ifs <;> rfl

theorem hdRenamePath_of_bucket {bucket : Name} {dir : List Name}
    (hto : move.toDir = bucket :: dir) :
    hdRenamePath disk root.path (move.sourcePath root) (move.targetPath root) skip =
      unwrap (Key.fromBucket bucket.text (move.targetPath root)) >>= fun key =>
        if (skip.keySkipped bucket.text key).1 then
          .ok (none, (skip.keySkipped bucket.text key).2)
        else unwrap (Key.fromBucket bucket.text (move.sourcePath root)) >>= fun keyFrom =>
          .ok (some (.nameKey bucket.text keyFrom move.toName.text),
            (skip.keySkipped bucket.text key).2) := by
  have hparent : root.path ++ Path.ofNames move.toDir ≠ root.path := by
    rw [hto]
    simp [Path.ofNames]
  have hbucket : bucketOf root.path (move.targetPath root) = .ok bucket.text := by
    have hpath : move.targetPath root =
        root.path ++ .ofStr bucket.text :: (Path.ofNames dir ++ [.ofStr move.toName.text]) := by
      rw [targetPath, hto, Path.join]
      simp [Path.ofNames]
    rw [hpath, bucketOf_append, OsStr.toStr_ofStr, unwrap_some]
  have hresult : hdRenamePath disk root.path (move.sourcePath root) (move.targetPath root) skip =
      _ := hdRenamePath_of_normal move.normal
  rw [hresult, if_neg hparent]
  change bucketOf root.path (move.targetPath root) >>= _ = _
  rw [hbucket, ok_bind]
  rfl

end Event

end Move

/-! ## Places that vanish -/

namespace BucketMap

variable {m m' : BucketMap} {fresh : Broker} {bucket b : Bucket} {place : List Segment}

/-- The places that a renamed key takes away are below its own, and its new one was free. -/
theorem of_vanished_nameKey {key : Key} {toName : Segment}
    (hchange : m.change fresh (.nameKey bucket key toName) = .ok m')
    (hbefore : (m.view b place).isSome) (hafter : m'.view b place = none) :
    b = bucket ∧ key.parentLeaf.1 ++ [key.parentLeaf.2] <+: place ∧
      m.view bucket (key.parentLeaf.1 ++ [toName]) = none ∧
        m'.view = m.view.movePath bucket key.parentLeaf.1 key.parentLeaf.2 toName := by
  rw [change_nameKey] at hchange
  obtain rfl | ⟨entry, write, keys, keys', hborrow, hkeys, hresult, rfl⟩ :=
    eq_or_write_of_withKeys hchange
  · simp [hafter] at hbefore
  have hfree := isSome_lookup_iff hborrow hkeys toName
  cases hto : keys.lookup toName with
  | some taken => simp [hto] at hresult
  | none =>
      rw [hto, Option.isSome_none, if_neg (by simp)] at hresult
      obtain rfl := Option.some.inj hresult
      rw [hto, Option.isSome_none, eq_comm, Option.isSome_eq_false_iff, Option.isNone_iff_eq_none]
        at hfree
      cases hfrom : keys.lookup key.parentLeaf.2 with
      | none =>
          -- a new place takes none away
          rw [hfrom, Option.getD_none, view_insert_default fresh hborrow hkeys hfrom hto,
            FlatMap.addPlace, FlatMap.update] at hafter
          split_ifs at hafter
          simp [hafter] at hbefore
      | some child =>
          rw [Option.getD_some, view_insert_erase hborrow hkeys hfrom]
          rw [hfrom, Option.getD_some, view_insert_erase hborrow hkeys hfrom,
            FlatMap.movePath] at hafter
          split_ifs at hafter with hbucket htarget hsource
          · obtain ⟨rest, rfl⟩ := htarget
            rw [← hbucket, view_append_of_none hfree] at hbefore
            cases hbefore
          · exact ⟨hbucket.symm, hsource, hfree, rfl⟩
          · rw [← hbucket, hafter] at hbefore
            cases hbefore
          · rw [hafter] at hbefore
            cases hbefore

theorem of_vanished_nameBucket {fromName toName : Bucket}
    (hchange : m.change fresh (.nameBucket fromName toName) = .ok m')
    (hfree : m.view toName [] = none)
    (hbefore : (m.view b place).isSome) (hafter : m'.view b place = none) :
    b = fromName ∧ m'.view = m.view.moveRoot fromName toName := by
  rcases view_of_nameBucket hchange with hview | hview
  · simp [← hview, hafter] at hbefore
  · refine ⟨?_, hview⟩
    rw [hview, FlatMap.moveRoot] at hafter
    split_ifs at hafter with htarget hsource
    · rw [← htarget, ← List.nil_append place, view_append_of_none hfree] at hbefore
      cases hbefore
    · exact hsource.symm
    · rw [hafter] at hbefore
      cases hbefore

end BucketMap

/-! ## Which moves are mirrored -/

namespace Move

variable {tree : Dir} {move : Move tree} {root : CanonicalPath} {disk : Disk} {m : BucketMap}
  {fresh : Broker} {skip : Skipper}

/-- What comes to the root has to come from there: the change has no other place for it. -/
theorem keepsMirror_of_root (hlabels : tree.LabelsDistinct) (hmirrors : m.Mirrors tree)
    (hto : move.toDir = []) :
    move.KeepsMirror root disk m fresh skip ↔ move.IsSkipped root skip ∨ move.fromDir = [] := by
  have hskipped : move.IsSkipped root skip ↔ (skip.bucketSkipped move.toName.text).1 = true := by
    rw [Skipper.bucketSkipped_fst_iff, IsSkipped, hto]
  have hplaces := BucketMap.mirrors_iff.1 hmirrors
  have hfree : m.view move.toName.text [] = none := by
    have htarget := move.target_free
    rw [hto] at htarget
    exact (hplaces.eq_none_iff move.toName []).2 htarget
  rw [KeepsMirror, hdRenamePath_of_root move root disk skip hto]
  constructor
  · rintro ⟨change, skip', hresult, hmirrored⟩
    rw [or_iff_not_imp_left]
    intro hunmarked
    obtain ⟨c, m', rfl, hchange, hafter⟩ := hmirrored hunmarked
    rw [hskipped] at hunmarked
    rw [if_neg hunmarked] at hresult
    obtain ⟨hc, -⟩ := Prod.mk.inj (Except.ok.inj hresult)
    obtain rfl := Option.some.inj hc
    cases hfrom : move.fromDir with
    | nil => rfl
    | cons bucket dir =>
        -- the bucket that the name of the moved directory is taken for is still there
        have hsource := move.source
        have hgone := move.source_gone hlabels
        rw [hfrom, List.cons_append] at hsource hgone
        have hbefore := (hplaces.isSome_iff bucket (dir ++ [move.fromName])).2 hsource
        have hvanished := ((BucketMap.mirrors_iff.1 hafter).eq_none_iff bucket
          (dir ++ [move.fromName])).2 hgone
        obtain ⟨hbucket, hview⟩ := BucketMap.of_vanished_nameBucket hchange hfree hbefore hvanished
        have hthere : (tree.dirAt [bucket]).isSome :=
          Entries.isSome_dirAt_of_append hsource
        have hkept := move.kept_of_not_below hlabels hthere (by
          rw [hfrom]
          intro hbelow
          simpa using hbelow.length_le)
        have hstill := ((BucketMap.mirrors_iff.1 hafter).isSome_iff bucket []).2 hkept
        have hother : move.toName.text ≠ bucket.text := by
          intro htext
          have htaken := (hplaces.isSome_iff bucket []).2 hthere
          rw [← htext, List.map_nil, hfree] at htaken
          cases htaken
        rw [hview, FlatMap.moveRoot, if_neg hother, if_pos hbucket.symm] at hstill
        cases hstill
  · rintro (hmarked | hfrom)
    · exact ⟨_, _, rfl, fun hunmarked => absurd hmarked hunmarked⟩
    · refine ⟨_, _, rfl, fun hunmarked => ?_⟩
      rw [hskipped] at hunmarked
      have hsource := move.source
      rw [hfrom] at hsource
      obtain ⟨m', hchange, hview⟩ := BucketMap.view_nameBucket m fresh
        ((hplaces.isSome_iff move.fromName []).2 hsource) move.toName.text
      refine ⟨_, m', if_neg hunmarked, hchange, BucketMap.mirrors_iff.2 ?_⟩
      rw [hview]
      exact mirrorsPlaces_moveRoot hplaces hlabels hfrom hto

theorem exists_names_of_target {bucket : Bucket} {key : Key}
    (hkey : Key.fromBucket bucket (move.targetPath root) = some key) :
    ∃ above, root.path = Path.ofNames above := by
  have hpath : move.targetPath root =
      root.path ++ Path.ofNames (move.toDir ++ [move.toName]) := by
    rw [targetPath, Path.join, ofNames_append, List.append_assoc]
    rfl
  have hcomponents : ∀ comp ∈ move.targetPath root, OsStr.IsComponent comp := by
    intro comp hcomp
    rw [hpath] at hcomp
    rcases List.mem_append.1 hcomp with hroot | hbelow
    · exact root.components comp hroot
    · exact isComponent_ofNames comp hbelow
  obtain ⟨names, hnames⟩ := names_of_components hcomponents (Key.isSome_toStr_of_fromBucket hkey)
  obtain ⟨above, -, -, habove, -⟩ := List.map_eq_append_iff.1 (hnames.symm.trans hpath)
  exact ⟨above, habove.symm⟩

section Keys

variable {above : List Name} (habove : root.path = Path.ofNames above) {bucket : Name}
  {dir : List Name}

include habove

theorem fromBucket_target (hto : move.toDir = bucket :: dir) :
    Key.fromBucket bucket.text (move.targetPath root) =
      some (Key.decoded above bucket ((dir ++ [move.toName]).map Name.text)) := by
  rw [← Key.fromBucket_below, targetPath, habove, hto, Path.join]
  simp [Path.ofNames]

theorem fromBucket_source (hfrom : move.fromDir = bucket :: dir) :
    Key.fromBucket bucket.text (move.sourcePath root) =
      some (Key.decoded above bucket ((dir ++ [move.fromName]).map Name.text)) := by
  rw [← Key.fromBucket_below, sourcePath, habove, hfrom, Path.join]
  simp [Path.ofNames]

end Keys

section Bucket

variable (hlabels : tree.LabelsDistinct) (hplaces : MirrorsPlaces m.view tree) {bucket : Name}
  {dir above : List Name} (hto : move.toDir = bucket :: dir)
  (habove : root.path = Path.ofNames above)

include hlabels hplaces hto habove

/-- If the change takes the moved directory from the tree, the key that was read is that of
the directory, and if the change puts it where it is, the directory is still in its parent. -/
theorem staysInPlace_of_mirrors {m' : BucketMap} {keyFrom : Key}
    (hkeyFrom : Key.fromBucket bucket.text (move.sourcePath root) = some keyFrom)
    (hchange : m.change fresh (.nameKey bucket.text keyFrom move.toName.text) = .ok m')
    (hafter : MirrorsPlaces m'.view move.after) :
    move.fromDir = bucket :: dir ∧ ¬bucket.text <:+: Path.render (above.map Name.text) := by
  have hsource := move.source
  have hgone := move.source_gone hlabels
  cases hfrom : move.fromDir with
  | nil =>
      -- a bucket is below no key
      rw [hfrom, List.nil_append] at hsource hgone
      obtain ⟨-, hbelow, -⟩ := BucketMap.of_vanished_nameKey hchange
        ((hplaces.isSome_iff move.fromName []).2 hsource)
        ((hafter.eq_none_iff move.fromName []).2 hgone)
      simp at hbelow
  | cons b parent =>
      rw [hfrom, List.cons_append] at hsource hgone
      obtain ⟨hbucket, hbelow, htaken, hview⟩ := BucketMap.of_vanished_nameKey hchange
        ((hplaces.isSome_iff b _).2 hsource) ((hafter.eq_none_iff b _).2 hgone)
      obtain rfl : b = bucket := Name.ext hbucket
      rw [fromBucket_source habove hfrom, Option.some.injEq] at hkeyFrom
      obtain ⟨more, hmore, hleaf⟩ := Key.exists_parentLeaf_decoded above b
      rw [← hkeyFrom, hleaf] at hbelow htaken hview
      -- the key is no longer than the path of the directory
      obtain rfl : more = [] := by
        have hlength := hbelow.length_le
        simp only [List.length_append, List.length_map, List.length_singleton] at hlength
        exact List.length_eq_zero_iff.1 (by omega)
      rw [List.nil_append] at htaken hview
      have hthere := move.target_there hlabels
      rw [hto, List.cons_append, ← hafter.isSome_iff, hview, FlatMap.movePath, if_pos rfl] at hthere
      split_ifs at hthere with htarget hbelow'
      · rw [List.map_append, List.map_singleton, List.prefix_concat_iff] at htarget
        rcases htarget with hsame | hdeeper
        · rw [List.append_cancel_right_eq] at hsame
          rw [List.map_injective_iff.2 Name.text_injective hsame]
          exact ⟨rfl, hmore rfl⟩
        · -- the new name of the key was free, so the new parent is not below it
          have hparent := move.parent
          obtain ⟨rest, hrest⟩ := hdeeper
          rw [hto, ← hplaces.isSome_iff, ← hrest, BucketMap.view_append_of_none htaken] at hparent
          cases hparent
      · cases hthere
      · have htarget := move.target_free
        rw [hto, List.cons_append, ← hplaces.eq_none_iff] at htarget
        rw [htarget] at hthere
        cases hthere

theorem exists_mirrors_of_staysInPlace (fresh : Broker) (hfrom : move.fromDir = bucket :: dir)
    (habsent : ¬bucket.text <:+: Path.render (above.map Name.text)) :
    ∃ keyFrom m', Key.fromBucket bucket.text (move.sourcePath root) = some keyFrom ∧
      m.change fresh (.nameKey bucket.text keyFrom move.toName.text) = .ok m' ∧
        m'.Mirrors move.after := by
  have hleaf : (Key.decoded above bucket ((dir ++ [move.fromName]).map Name.text)).parentLeaf =
      (dir.map Name.text, move.fromName.text) := by
    rw [Key.decoded_of_not_occurs habsent, List.map_append, List.map_singleton,
      Key.parentLeaf_ofPath (isSegment_map_text dir) (IsName.isSegment move.fromName.isName)]
  have hpresent : (m.entryAt bucket.text (dir.map Name.text ++ [move.fromName.text])).isSome := by
    have hsource := move.source
    rw [hfrom, List.cons_append, ← hplaces.isSome_iff, BucketMap.view_eq_map_entryAt,
      Option.isSome_map, List.map_append] at hsource
    exact hsource
  have hfree : m.view bucket.text (dir.map Name.text ++ [move.toName.text]) = none := by
    have htarget := move.target_free
    rw [hto, List.cons_append, ← hplaces.eq_none_iff, List.map_append] at htarget
    exact htarget
  obtain ⟨m', hchange, hview⟩ := BucketMap.view_nameKey fresh hleaf hpresent hfree
  refine ⟨_, m', fromBucket_source habove hfrom, hchange, ?_⟩
  rw [BucketMap.mirrors_iff, hview]
  exact mirrorsPlaces_movePath hplaces hlabels hfrom hto

end Bucket

/-- What comes to a directory in a bucket has to come from there, and the keys of the bucket
have to be read as they are. -/
theorem keepsMirror_of_bucket (hlabels : tree.LabelsDistinct) (hmirrors : m.Mirrors tree)
    {bucket : Name} {dir : List Name} (hto : move.toDir = bucket :: dir) :
    move.KeepsMirror root disk m fresh skip ↔
      move.IsSkipped root skip ∨ move.fromDir = bucket :: dir ∧
        ∃ text, root.path.toStr = some text ∧ ¬bucket.text <:+: text := by
  have hskipped : move.IsSkipped root skip ↔ ∃ key,
      Key.fromBucket bucket.text (move.targetPath root) = some key ∧
        (skip.keySkipped bucket.text key).1 = true := by
    simp only [Skipper.keySkipped_fst_iff, IsSkipped, hto]
  have hplaces := BucketMap.mirrors_iff.1 hmirrors
  rw [KeepsMirror, hdRenamePath_of_bucket move root disk skip hto]
  constructor
  · rintro ⟨change, skip', hresult, hmirrored⟩
    rw [or_iff_not_imp_left]
    intro hunmarked
    obtain ⟨c, m', rfl, hchange, hafter⟩ := hmirrored hunmarked
    obtain ⟨key, hkey, hresult⟩ := bind_eq_ok hresult
    rw [unwrap_eq_ok_iff] at hkey
    rw [if_neg fun hfound => hunmarked (hskipped.2 ⟨key, hkey, hfound⟩)] at hresult
    obtain ⟨keyFrom, hkeyFrom, hresult⟩ := bind_eq_ok hresult
    rw [unwrap_eq_ok_iff] at hkeyFrom
    obtain ⟨hc, -⟩ := Prod.mk.inj (Except.ok.inj hresult)
    obtain rfl := Option.some.inj hc
    obtain ⟨above, habove⟩ := exists_names_of_target hkey
    obtain ⟨hfrom, habsent⟩ := staysInPlace_of_mirrors hlabels hplaces hto habove hkeyFrom hchange
      (BucketMap.mirrors_iff.1 hafter)
    exact ⟨hfrom, _, by rw [habove, Path.toStr_ofNames], habsent⟩
  · intro hkept
    by_cases hmarked : move.IsSkipped root skip
    · obtain ⟨key, hkey, hfound⟩ := hskipped.1 hmarked
      refine ⟨none, (skip.keySkipped bucket.text key).2, ?_,
        fun hunmarked => absurd hmarked hunmarked⟩
      rw [hkey, unwrap_some, ok_bind, if_pos hfound]
    · obtain ⟨hfrom, text, htext, habsent⟩ := hkept.resolve_left hmarked
      obtain ⟨above, habove⟩ := names_of_components root.components (by rw [htext]; rfl)
      rw [habove, Path.toStr_ofNames, Option.some.injEq] at htext
      rw [← htext] at habsent
      have hkey := fromBucket_target habove hto
      obtain ⟨keyFrom, m', hkeyFrom, hchange, hmirrored⟩ :=
        exists_mirrors_of_staysInPlace hlabels hplaces hto habove fresh hfrom habsent
      have hunfound := fun hfound => hmarked (hskipped.2 ⟨_, hkey, hfound⟩)
      refine ⟨some (.nameKey bucket.text keyFrom move.toName.text), (skip.keySkipped bucket.text
        (Key.decoded above bucket ((dir ++ [move.toName]).map Name.text))).2, ?_,
        fun _ => ⟨_, m', rfl, hchange, hmirrored⟩⟩
      rw [hkey, unwrap_some, ok_bind, if_neg hunfound, hkeyFrom, unwrap_some, ok_bind]

/-- After an event the tree mirrors the disk exactly if the event is skipped or the directory
stays in its parent and its key can be read back. -/
theorem keepsMirror_iff (root : CanonicalPath) (disk : Disk) (move : Move tree) (m : BucketMap)
    (fresh : Broker) (skip : Skipper) (hlabels : tree.LabelsDistinct)
    (hmirrors : m.Mirrors tree) :
    move.KeepsMirror root disk m fresh skip ↔
      move.IsSkipped root skip ∨ move.StaysInPlace root := by
  cases hto : move.toDir with
  | nil => rw [keepsMirror_of_root hlabels hmirrors hto, StaysInPlace, hto]; simp
  | cons bucket dir => rw [keepsMirror_of_bucket hlabels hmirrors hto, StaysInPlace, hto]; simp

/-! ### The buckets `a` and `b`, and the directory `x` of `a` -/

theorem isName_a : IsName ['a'] := by decide

theorem isName_b : IsName ['b'] := by decide

theorem isName_x : IsName ['x'] := by decide

def nameA : Name := ⟨['a'], isName_a⟩

def nameB : Name := ⟨['b'], isName_b⟩

def nameX : Name := ⟨['x'], isName_x⟩

def treeAB : Dir := [(nameA, .dir [(nameX, .dir [])]), (nameB, .dir [])]

def mapAB : BucketMap :=
  { BucketMap.new rootPathD.path 0 with
    tree := [(['a'], { objects := none, keys := some [(['x'], .default 3)], broker := 1 }),
      (['b'], .default 2)] }

theorem labelsDistinct_treeAB : Entries.LabelsDistinct treeAB := by
  have hnil : Entries.LabelsDistinct ([] : Dir) := .intro List.nodup_nil (by simp)
  refine .intro (by decide) fun name sub hmem => ?_
  rcases List.mem_cons.1 hmem with heq | hmem
  · cases heq
    exact .singleton_dir (List.nodup_singleton _) hnil
  · cases List.mem_singleton.1 hmem
    exact hnil

theorem mirrors_mapAB : mapAB.Mirrors treeAB := by
  have hempty : ∀ broker, EntryMirrors (.default broker) [] := fun broker =>
    entryMirrors_of_keysMirror ⟨List.nodup_nil, fun _ => Iff.rfl⟩ (fun _ => rfl) (.refl [])
  have hx : KeysMirror [(nameX, .dir [])] [] [(['x'], .default 3)] :=
    (KeysMirror.refl _).dir_cons (by simp) (hempty 3)
  have ha : EntryMirrors { objects := none, keys := some [(['x'], .default 3)], broker := 1 }
      [(nameX, .dir [])] :=
    entryMirrors_of_keysMirror ⟨List.nodup_nil, fun _ => Iff.rfl⟩ (fun _ => rfl) hx
  apply BucketMap.mirrors_of_keysMirror
  exact ((KeysMirror.refl _).dir_cons (by decide) (hempty 2)).dir_cons (by decide) ha

def renameInA : Move treeAB where
  fromDir := [nameA]
  fromName := nameX
  toDir := [nameA]
  toName := nameB
  source := by decide
  parent := by decide
  free := by
    intro dir hdir
    obtain rfl := Option.some.inj hdir
    decide
  apart := by decide
  normal := by decide

def moveToB : Move treeAB where
  fromDir := [nameA]
  fromName := nameX
  toDir := [nameB]
  toName := nameX
  source := by decide
  parent := by decide
  free := by
    intro dir hdir
    obtain rfl := Option.some.inj hdir
    exact List.not_mem_nil
  apart := by decide
  normal := by decide

theorem renameInA_keeps_mirror :
    renameInA.KeepsMirror rootPathD EventWatcher.quietDisk mapAB 4 Skipper.new := by
  refine (keepsMirror_iff rootPathD _ renameInA mapAB 4 Skipper.new labelsDistinct_treeAB
    mirrors_mapAB).2 (.inr ⟨rfl, fun bucket rest hto => ?_⟩)
  obtain ⟨rfl, rfl⟩ := List.cons.inj hto
  exact ⟨['/', 'd'], by decide, by decide⟩

/-- The path of `x` in `a` has no key in the bucket `b`: it is unwrapped, and the handler
panics. -/
theorem moveToB_panics :
    mapAB.Mirrors treeAB ∧
      hdRenamePath EventWatcher.quietDisk rootPathD.path (moveToB.sourcePath rootPathD)
        (moveToB.targetPath rootPathD) Skipper.new = .error .unwrapNone ∧
      ¬moveToB.KeepsMirror rootPathD EventWatcher.quietDisk mapAB 4 Skipper.new := by
  have hpanics : hdRenamePath EventWatcher.quietDisk rootPathD.path (moveToB.sourcePath rootPathD)
      (moveToB.targetPath rootPathD) Skipper.new = .error .unwrapNone := by
    decide
  refine ⟨mirrors_mapAB, hpanics, ?_⟩
  rintro ⟨change, skip', hresult, -⟩
  cases hpanics.symm.trans hresult

end Move

end WsHyper.Directory
