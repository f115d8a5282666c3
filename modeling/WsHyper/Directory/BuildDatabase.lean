import WsHyper.Directory.Agreement
import WsHyper.Directory.BuildMirror

/-!
# The database after the start-up build

Over normalised names the walk renames nothing, and the build keeps exactly the
documents found for a file.  So the documents inserted for new files are gone
again, and so is what was stored for a bucket whose key is cut wrongly: database
and tree correspond exactly if every file had its document before.
-/

namespace WsHyper.Directory

open WsHyper.Lib

/-- No entry needs another name, and no two have the same. -/
structure NamesNormal (dir : Dir) : Prop where
  names_nodup : (dir.map Prod.fst).Nodup
  normal : ∀ entry ∈ dir, normalName entry = entry.1.text

/-- One document for every object of the tree and no other, those of the files that
are still there kept. -/
structure Synchronised (m : BucketMap) (before after : Collection) : Prop where
  one : ∀ bucket key name, m.Holds bucket key name →
    ∃! d, d ∈ after.docs ∧ (d.bucket, d.key, d.object.fileName) = (bucket, key, name)
  no_other : ∀ d ∈ after.docs, m.Holds d.bucket d.key d.object.fileName
  kept : ∀ bucket key name d, m.Holds bucket key name →
    LocalStorage.getObjectFilename before bucket key name = some d → d ∈ after.docs

def treeAddress (file : BucketFile) : Bucket × Key × Str :=
  (file.1.text, Key.ofPath (file.2.1.map Name.text), file.2.2.1.text)

/-- Every file has its document, and its bucket's name does not occur in the root. -/
def DocumentsPresent (root : List Name) (ls : Collection) (dir : Dir) : Prop :=
  ∀ file ∈ bucketFiles dir,
    ¬file.1.text <:+: Path.render (root.map Name.text) ∧
      ∃ d ∈ ls.docs, (d.bucket, d.key, d.object.fileName) = treeAddress file

/-! ## Over normalised names nothing is renamed -/

theorem NamesNormal.normalisable {dir : Dir} (h : NamesNormal dir) : NamesNormalisable dir where
  names_nodup := h.names_nodup
  forms_nodup := by
    have htexts : dir.map normalName = (dir.map Prod.fst).map Name.text := by
      rw [List.map_map]
      exact List.map_congr_left h.normal
    rw [htexts]
    exact h.names_nodup.map Name.text_injective
  forms_ne_nil := by
    intro entry hmem
    rw [h.normal entry hmem]
    exact entry.1.text_ne_nil

theorem NamesNormal.tail {entry : DirEntry} {rest : Dir} (h : NamesNormal (entry :: rest)) :
    NamesNormal rest where
  names_nodup := h.names_nodup.of_cons
  normal e he := h.normal e (List.mem_cons_of_mem _ he)

theorem NamesNormal.newNameOf_eq {entry : DirEntry} {rest : Dir}
    (h : NamesNormal (entry :: rest)) : newNameOf entry rest = some entry.1 := by
  have hnormal := h.normal entry List.mem_cons_self
  have hname : IsName (normalName entry) := hnormal ▸ entry.1.isName
  have hfree : normalName entry ∉ rest.map fun e => e.1.text := by
    rw [hnormal]
    intro hmem
    obtain ⟨e, he, htext⟩ := List.mem_map.1 hmem
    exact (List.nodup_cons.1 h.names_nodup).1 (List.mem_map.2 ⟨e, he, Name.ext htext⟩)
  rw [newNameOf, dif_pos hname, if_neg hfree]
  exact congrArg some (Name.ext hnormal)

theorem seen_eq_self {dir : Dir} (hnormal : Entries.Everywhere NamesNormal dir) :
    seen dir = dir := by
  induction dir using Entries.inductionOn with
  | nil => rw [seen]
  | file name info rest ih =>
      rw [seen, hnormal.here.newNameOf_eq, ih (hnormal.tail fun _ _ h => h.tail)]
      rfl
  | dir name sub rest ihsub ih =>
      rw [seen, hnormal.here.newNameOf_eq, ih (hnormal.tail fun _ _ h => h.tail)]
      simp only [seenNode, ihsub (hnormal.inner List.mem_cons_self)]

section Build

variable {sys : System} {m m' : BucketMap} {root : List Name} {dir disk : Dir}
  {ls ls' : Collection}

theorem seenRoot_eq_self (hnormal : Entries.Everywhere NamesNormal dir) :
    seenRoot dir = dir := by
  rw [seenRoot]
  calc
    _ = dir.map id := by
      apply List.map_congr_left
      rintro ⟨name, node⟩ hmem
      cases node with
      | file info => rfl
      | dir sub => rw [seenNode, seen_eq_self (hnormal.inner hmem), id]
    _ = dir := List.map_id dir

theorem normalisable_of_normal (hnormal : Entries.Everywhere NamesNormal dir) :
    ∀ name sub, (name, .dir sub) ∈ dir → Entries.Everywhere NamesNormalisable sub :=
  fun _ _ hmem => (hnormal.inner hmem).mono fun _ h => h.normalisable

theorem labelsDistinct_of_normal (hnormal : Entries.Everywhere NamesNormal dir) :
    ∀ name sub, (name, .dir sub) ∈ dir → Entries.LabelsDistinct sub :=
  fun _ _ hmem => (hnormal.inner hmem).mono fun _ h => h.names_nodup

theorem rootNormalised_of_normal (honly : ∀ entry ∈ dir, ∃ sub, entry.2 = .dir sub)
    (hnormal : Entries.Everywhere NamesNormal dir) : RootNormalised dir where
  names_nodup := hnormal.here.names_nodup
  normal := by
    rintro ⟨name, node⟩ hmem
    obtain ⟨sub, hsub⟩ := honly _ hmem
    obtain rfl : node = .dir sub := hsub
    exact hnormal.here.normal _ hmem

/-! ## A file at the root stops the build -/

theorem dir_mem_of_rename {name target x : Name} {toName : Str} {sub : Dir}
    (hfile : ∀ s, (name, .dir s) ∉ dir) (hrename : dir.rename name toName = some (disk, target))
    (hmem : (x, .dir sub) ∈ disk) : (x, .dir sub) ∈ dir := by
  rw [Dir.rename] at hrename
  split at hrename
  · split at hrename
    · cases hrename
    · dsimp only at hrename
      split_ifs at hrename with hsame hreplace
      · obtain ⟨rfl, -⟩ := Prod.mk.inj (Option.some.inj hrename)
        exact hmem
      · obtain ⟨rfl, -⟩ := Prod.mk.inj (Option.some.inj hrename)
        obtain ⟨⟨n, node⟩, he, heq⟩ := List.mem_map.1 hmem
        have hn : (n, node) ∈ dir := List.mem_of_mem_filter he
        split_ifs at heq with hname
        · obtain ⟨-, rfl⟩ := Prod.mk.inj heq
          obtain rfl : n = name := hname
          exact absurd hn (hfile sub)
        · rw [← heq]
          exact hn
  · cases hrename

theorem listBucket_eq_ok {path : Path} {name : Name} {buckets buckets' : List (Bucket × Name)}
    (hround : listBucket sys path (buckets, dir) name = .ok (buckets', disk)) :
    ∃ b, buckets' = buckets ++ [(b, name)] ∧
      (disk = dir ∨ NormalizePathUtf8.newName name.text ≠ name.text ∧
        ∃ toName target, dir.rename name toName = some (disk, target)) := by
  have hyes : ∀ toName, NormalizePathUtf8.newName name.text ≠ name.text →
      (buckets ++ [(toName, name)], ((dir.rename name toName).map Prod.fst).getD dir) =
        (buckets', disk) →
      ∃ b, buckets' = buckets ++ [(b, name)] ∧
        (disk = dir ∨ NormalizePathUtf8.newName name.text ≠ name.text ∧
          ∃ toName target, dir.rename name toName = some (disk, target)) := by
    intro toName hname hpair
    obtain ⟨rfl, hdisk⟩ := Prod.mk.inj hpair
    refine ⟨toName, rfl, ?_⟩
    cases hrename : dir.rename name toName with
    | none =>
        rw [hrename] at hdisk
        exact .inl hdisk.symm
    | some renamed =>
        rw [hrename] at hdisk
        obtain rfl : renamed.1 = disk := hdisk
        exact .inr ⟨hname, toName, renamed.2, hrename⟩
  unfold listBucket at hround
  simp only [Path.join, NormalizePathUtf8.run_append_singleton] at hround
  by_cases hempty : NormalizePathUtf8.newName name.text ≠ []
  · by_cases hsame : name.text ≠ NormalizePathUtf8.newName name.text
    · simp only [if_pos hempty, if_pos hsame] at hround
      exact hyes _ (Ne.symm hsame) (Except.ok.inj hround)
    · simp only [if_pos hempty, if_neg hsame] at hround
      obtain ⟨rfl, rfl⟩ := Prod.mk.inj (Except.ok.inj hround)
      exact ⟨_, rfl, .inl rfl⟩
  · simp only [if_neg hempty, if_true] at hround
    refine hyes _ ?_ (Except.ok.inj hround)
    rw [not_not.1 hempty]
    exact Ne.symm name.text_ne_nil

/-- Every entry of the root is taken for a bucket, and none becomes a directory. -/
theorem foldlM_listBucket_eq_ok {path : Path} {names : List Name}
    {buckets buckets' : List (Bucket × Name)}
    (hnames : ∀ name ∈ names, NormalizePathUtf8.newName name.text = name.text ∨
      ∀ s, (name, .dir s) ∉ dir)
    (hlist : names.foldlM (listBucket sys path) (buckets, dir) = .ok (buckets', disk)) :
    (∀ bucket ∈ buckets, bucket ∈ buckets') ∧ (∀ name ∈ names, ∃ b, (b, name) ∈ buckets') ∧
      ∀ x s, (x, .dir s) ∈ disk → (x, .dir s) ∈ dir := by
  induction names generalizing buckets dir with
  | nil =>
      obtain ⟨rfl, rfl⟩ := Prod.mk.inj (Except.ok.inj hlist)
      exact ⟨fun _ h => h, by simp, fun _ _ h => h⟩
  | cons name names ih =>
      rw [List.foldlM_cons] at hlist
      obtain ⟨⟨buckets₁, dir₁⟩, hround, hrest⟩ := bind_eq_ok hlist
      obtain ⟨b, rfl, hleft⟩ := listBucket_eq_ok hround
      have hdirs : ∀ x s, (x, .dir s) ∈ dir₁ → (x, .dir s) ∈ dir := by
        intro x s hmem
        rcases hleft with rfl | ⟨hname, toName, target, hrename⟩
        · exact hmem
        · exact dir_mem_of_rename ((hnames name List.mem_cons_self).resolve_left hname)
            hrename hmem
      have hnames' : ∀ n ∈ names, NormalizePathUtf8.newName n.text = n.text ∨
          ∀ s, (n, .dir s) ∉ dir₁ := by
        intro n hn
        rcases hnames n (List.mem_cons_of_mem _ hn) with hnormal | hfile
        · exact .inl hnormal
        · exact .inr fun s hs => hfile s (hdirs n s hs)
      obtain ⟨hkept, hlisted, hdirs'⟩ := ih hnames' hrest
      refine ⟨fun bucket h => hkept bucket (List.mem_append_left _ h), ?_,
        fun x s h => hdirs x s (hdirs' x s h)⟩
      intro n hn
      rcases List.mem_cons.1 hn with rfl | hn
      · exact ⟨b, hkept _ (by simp)⟩
      · exact hlisted n hn

theorem not_completes_foldlM_buildBucket {path : Path} {fuel : Nat} {name : Name} {b : Bucket}
    {buckets : List (Bucket × Name)} {inner : AssocMap Bucket KeyEntry} {sync : Sync}
    (hbucket : (b, name) ∈ buckets) (hfile : ∀ s, (name, .dir s) ∉ dir) :
    ¬Completes (buckets.foldlM (buildBucket sys path fuel) (inner, dir, sync)) := by
  induction buckets generalizing inner dir sync with
  | nil => simp at hbucket
  | cons bucket buckets ih =>
      rw [List.foldlM_cons, completes_bind]
      rintro ⟨⟨inner₁, dir₁, sync₁⟩, hround, hrest⟩
      rw [buildBucket] at hround
      cases hsub : dir.subdir bucket.2 with
      | none => simp [hsub] at hround
      | some sub =>
          simp only [hsub] at hround
          obtain ⟨⟨entry, sub₁, sync'⟩, -, heq⟩ := bind_eq_ok hround
          obtain ⟨-, hpair⟩ := Prod.mk.inj (Except.ok.inj heq)
          obtain ⟨rfl, -⟩ := Prod.mk.inj hpair
          have hne : bucket.2 ≠ name := by
            rintro rfl
            exact hfile sub (Entries.mem_of_subdir hsub)
          rcases List.mem_cons.1 hbucket with rfl | hlater
          · exact hne rfl
          · refine ih hlater ?_ hrest
            intro s hmem
            obtain ⟨e, he, heq⟩ := List.mem_map.1 hmem
            split_ifs at heq with hname
            · exact hne (Prod.mk.inj heq).1
            · exact hfile s (heq ▸ he)

theorem only_dirs_of_build (hnormal : Entries.Everywhere NamesNormal dir)
    (hbuild : Completes (m.build sys dir ls)) : ∀ entry ∈ dir, ∃ sub, entry.2 = .dir sub := by
  have hnames : ∀ name ∈ dir.map Prod.fst,
      NormalizePathUtf8.newName name.text = name.text ∨ ∀ s, (name, .dir s) ∉ dir := by
    intro name hname
    by_cases hdir : ∃ s, (name, .dir s) ∈ dir
    · obtain ⟨s, hs⟩ := hdir
      exact .inl (hnormal.here.normal _ hs)
    · exact .inr (not_exists.1 hdir)
  rintro ⟨name, node⟩ hmem
  cases node with
  | dir sub => exact ⟨sub, rfl⟩
  | file info =>
      rw [BucketMap.build, completes_bind] at hbuild
      obtain ⟨⟨buckets, listed⟩, hlist, hrest⟩ := hbuild
      obtain ⟨-, hlisted, hdirs⟩ := foldlM_listBucket_eq_ok hnames hlist
      obtain ⟨b, hb⟩ := hlisted name (List.mem_map_of_mem hmem)
      have hfile : ∀ s, (name, .dir s) ∉ listed := by
        intro s hs
        have hlookup := AssocMap.lookup_of_mem hnormal.here.names_nodup hmem
        rw [AssocMap.lookup_of_mem hnormal.here.names_nodup (hdirs name s hs)] at hlookup
        cases hlookup
      obtain ⟨r, hr, -⟩ := completes_bind.1 hrest
      exact absurd ⟨r, hr⟩ (not_completes_foldlM_buildBucket hb hfile)

/-! ## The objects of the tree are the files of the disk -/

theorem mem_bucketFiles_iff_dirAt (hnodup : (dir.map Prod.fst).Nodup)
    (hlabels : ∀ name sub, (name, .dir sub) ∈ dir → Entries.LabelsDistinct sub)
    {file : BucketFile} :
    file ∈ bucketFiles dir ↔
      ∃ d, dir.dirAt (file.1 :: file.2.1) = some d ∧ file.2.2 ∈ d.files := by
  rw [mem_bucketFiles_iff]
  constructor
  · rintro ⟨sub, hmem, hfile⟩
    obtain ⟨rest, d, hpath, hd, hfile⟩ := (Entries.mem_filesAt_iff (hlabels _ _ hmem)).1 hfile
    rw [List.nil_append] at hpath
    refine ⟨d, ?_, hfile⟩
    rw [Entries.dirAt_cons, (Entries.subdir_eq_some_iff hnodup).2 hmem, Option.bind_some, hpath,
      hd]
  · rintro ⟨d, hd, hfile⟩
    rw [Entries.dirAt_cons, Option.bind_eq_some_iff] at hd
    obtain ⟨sub, hsub, hd⟩ := hd
    have hmem := Entries.mem_of_subdir hsub
    exact ⟨sub, hmem, (Entries.mem_filesAt_iff (hlabels _ _ hmem)).2 ⟨_, d, rfl, hd, hfile⟩⟩

theorem mem_items_iff {bucket : Bucket} {path : List Segment} {name : Str} :
    (∃ o ∈ m.view.items bucket path, o.fileName = name) ↔
      ∃ entry, m.entryAt bucket path = some entry ∧ name ∈ entry.fileNames := by
  rw [FlatMap.items, BucketMap.view_eq_map_entryAt]
  cases m.entryAt bucket path with
  | none => simp
  | some entry => simp [BucketMap.branching, KeyEntry.fileNames]

theorem holds_of_entryAt {bucket : Bucket} (path : List Segment) {entry : KeyEntry} {name : Str}
    (hentry : m.entryAt bucket path = some entry) (hname : name ∈ entry.fileNames) :
    m.Holds bucket (Key.ofPath path) name := by
  obtain ⟨o, ho, heq⟩ := mem_items_iff.2 ⟨entry, hentry, hname⟩
  exact ⟨path, o, ho, rfl, heq⟩

theorem KeysMirror.exists_dirAt (hkeys : KeysMirror dir [] m.tree) {bucket : Bucket}
    {path : List Segment} {entry : KeyEntry} (hentry : m.entryAt bucket path = some entry) :
    ∃ (b : Name) (names : List Name) (d : Dir), b.text = bucket ∧ names.map Name.text = path ∧
      dir.dirAt (b :: names) = some d ∧ SameFiles entry d := by
  rw [BucketMap.entryAt, Option.bind_eq_some_iff] at hentry
  obtain ⟨e, hlookup, hdescend⟩ := hentry
  obtain ⟨b, sub, rfl, hsub, hmirrors⟩ := hkeys.exists_name hlookup
  obtain ⟨names, rfl⟩ := hmirrors.named path (by rw [hdescend]; rfl)
  have hrel := hmirrors.entries names
  rw [hdescend] at hrel
  obtain ⟨d, hdir, hfiles⟩ := Branching.exists_of_rel_some_left hrel
  refine ⟨b, names, d, rfl, rfl, ?_, hfiles⟩
  rw [Entries.dirAt_cons, hsub, Option.bind_some, hdir]

theorem KeysMirror.exists_entryAt (hkeys : KeysMirror dir [] m.tree) {bucket : Name}
    {names : List Name} {d : Dir} (hdir : dir.dirAt (bucket :: names) = some d) :
    ∃ entry, m.entryAt bucket.text (names.map Name.text) = some entry ∧ SameFiles entry d := by
  have hrel : Option.Rel SameFiles (m.entryAt bucket.text (names.map Name.text))
      (dir.dirAt (bucket :: names)) := by
    rw [BucketMap.entryAt, Entries.dirAt_cons]
    exact Branching.rel_bind (hkeys.rel bucket) fun _ _ hentry => hentry.entries names
  rw [hdir] at hrel
  exact Branching.exists_of_rel_some_right hrel

theorem holds_iff_file (hnodup : (dir.map Prod.fst).Nodup)
    (hlabels : ∀ name sub, (name, .dir sub) ∈ dir → Entries.LabelsDistinct sub)
    (hkeys : KeysMirror dir [] m.tree) {bucket : Bucket} {key : Key} {name : Str} :
    m.Holds bucket key name ↔
      ∃ file ∈ bucketFiles dir, treeAddress file = (bucket, key, name) := by
  constructor
  · rintro ⟨path, o, ho, hkey, hname⟩
    obtain ⟨entry, hentry, hmem⟩ := mem_items_iff.1 ⟨o, ho, hname⟩
    obtain ⟨b, names, d, rfl, rfl, hdir, hfiles⟩ := hkeys.exists_dirAt hentry
    obtain ⟨n, info, hfile, rfl⟩ := mem_fileNames_iff.1 ((hfiles.2 name).1 hmem)
    refine ⟨(b, names, n, info), (mem_bucketFiles_iff_dirAt hnodup hlabels).2
      ⟨d, hdir, Entries.mem_files_iff.2 hfile⟩, ?_⟩
    rw [treeAddress, hkey]
  · rintro ⟨⟨b, names, n, info⟩, hfile, haddress⟩
    obtain ⟨d, hdir, hmem⟩ := (mem_bucketFiles_iff_dirAt hnodup hlabels).1 hfile
    simp only [treeAddress, Prod.mk.injEq] at haddress
    obtain ⟨rfl, hkey, rfl⟩ := haddress
    obtain ⟨entry, hentry, hfiles⟩ := hkeys.exists_entryAt hdir
    have hname := (hfiles.2 n.text).2
      (mem_fileNames_iff.2 ⟨n, info, Entries.mem_files_iff.1 hmem, rfl⟩)
    exact hkey ▸ holds_of_entryAt _ hentry hname

/-! ## Documents found and objects of the tree -/

theorem address_eq_treeAddress {file : BucketFile}
    (hroot : ¬file.1.text <:+: Path.render (root.map Name.text)) :
    address root file = treeAddress file := by
  rw [address, keyOf, Key.decoded_of_not_occurs hroot, treeAddress]

theorem foundDoc_congr {file file' : BucketFile} (h : address root file = address root file') :
    foundDoc root ls file = foundDoc root ls file' := by
  simp only [address, Prod.mk.injEq] at h
  rw [foundDoc, foundDoc, h.1, h.2.1, h.2.2]

/-- Where every object of the tree has a document that was found for a file, the
names of the buckets do not occur in the root and the documents were there before. -/
theorem documentsPresent_of_found
    (hfound : ∀ file ∈ bucketFiles dir, ∃ file' ∈ bucketFiles dir, ∃ d,
      foundDoc root ls file' = some d ∧
        (d.bucket, d.key, d.object.fileName) = treeAddress file) :
    DocumentsPresent root ls dir := by
  have hroot : ∀ n, ∀ file ∈ bucketFiles dir,
      (Path.below (file.2.1.map Name.text)).length = n →
        ¬file.1.text <:+: Path.render (root.map Name.text) := by
    intro n
    induction n using Nat.strongRecOn with
    | ind n ih =>
        intro file hfile hlength hoccurs
        obtain ⟨file', hfile', d, hd, haddress⟩ := hfound file hfile
        -- the document was stored for a file of the same bucket, less deep
        have hsame := (address_of_foundDoc hd).2.symm.trans haddress
        simp only [address, treeAddress, keyOf, Prod.mk.injEq, Name.text_inj] at hsame
        obtain ⟨hbucket, hkey, -⟩ := hsame
        rw [hbucket] at hkey
        have hlt := Key.below_length_lt_of_decoded_eq hoccurs hkey
        apply ih _ (hlength ▸ hlt) file' hfile' rfl
        rw [hbucket]
        exact hoccurs
  intro file hfile
  obtain ⟨file', hfile', d, hd, haddress⟩ := hfound file hfile
  exact ⟨hroot _ file hfile rfl, d, (address_of_foundDoc hd).1, haddress⟩

theorem found_of_documentsPresent (hpresent : DocumentsPresent root ls dir) :
    ∀ file ∈ bucketFiles dir, ∃ d, foundDoc root ls file = some d := by
  intro file hfile
  obtain ⟨hoccurs, d, hd, haddress⟩ := hpresent file hfile
  rw [← Option.isSome_iff_exists, foundDoc_isSome_iff, address_eq_treeAddress hoccurs]
  exact ⟨d, hd, haddress⟩

theorem synchronised_of_documentsPresent (hpresent : DocumentsPresent root ls dir)
    (hholds : ∀ bucket key name, m.Holds bucket key name ↔
      ∃ file ∈ bucketFiles dir, treeAddress file = (bucket, key, name))
    (hdocs : ∀ d, d ∈ ls'.docs ↔ ∃ file ∈ bucketFiles dir, foundDoc root ls file = some d) :
    Synchronised m ls ls' := by
  have haddress : ∀ file ∈ bucketFiles dir, address root file = treeAddress file :=
    fun file hfile => address_eq_treeAddress (hpresent file hfile).1
  refine ⟨?_, ?_, ?_⟩
  · intro bucket key name hheld
    obtain ⟨file, hfile, htree⟩ := (hholds bucket key name).1 hheld
    obtain ⟨d, hd⟩ := found_of_documentsPresent hpresent file hfile
    refine ⟨d, ⟨(hdocs d).2 ⟨file, hfile, hd⟩, ?_⟩, ?_⟩
    · rw [(address_of_foundDoc hd).2, haddress file hfile, htree]
    · rintro d' ⟨hd', heq⟩
      obtain ⟨file', hfile', hfound⟩ := (hdocs d').1 hd'
      have hsame : address root file' = address root file := by
        rw [← (address_of_foundDoc hfound).2, heq, haddress file hfile, htree]
      rw [foundDoc_congr hsame, hd] at hfound
      exact (Option.some.inj hfound).symm
  · intro d hd
    obtain ⟨file, hfile, hfound⟩ := (hdocs d).1 hd
    rw [hholds]
    refine ⟨file, hfile, ?_⟩
    rw [← haddress file hfile, (address_of_foundDoc hfound).2]
  · intro bucket key name d hheld hd
    obtain ⟨file, hfile, htree⟩ := (hholds bucket key name).1 hheld
    rw [← haddress file hfile] at htree
    simp only [address, Prod.mk.injEq] at htree
    refine (hdocs d).2 ⟨file, hfile, ?_⟩
    rw [foundDoc, htree.1, htree.2.1, htree.2.2, hd]

/-- The keys of a build that goes through stand for the disk, and the documents it
has kept are those found for a file. -/
theorem of_build_eq_ok (hpath : m.path = Path.ofNames root)
    (honly : ∀ entry ∈ dir, ∃ sub, entry.2 = .dir sub)
    (hnormal : Entries.Everywhere NamesNormal dir)
    (hbuild : m.build sys dir ls = .ok (m', disk, ls')) :
    KeysMirror dir [] m'.tree ∧
      ∀ d, d ∈ ls'.docs ↔ ∃ file ∈ bucketFiles dir, foundDoc root ls file = some d := by
  have hroot := rootNormalised_of_normal honly hnormal
  have hnorm := normalisable_of_normal hnormal
  have hkeys := (BucketMap.keysMirror_of_build hroot hnorm hbuild).1
  rw [seenRoot_eq_self hnormal] at hkeys
  rw [BucketMap.build_eq m ls hroot hnorm, seenRoot_eq_self hnormal] at hbuild
  obtain ⟨⟨inner, sync⟩, henter, heq⟩ := bind_eq_ok hbuild
  have heffect : _ = (bucketFiles dir).foldlM (syncFile sys root) { ls, objectIds := [] } :=
    enterBuckets_effect honly [] { ls, objectIds := [] }
  rw [← hpath, henter, ok_bind] at heffect
  cases heq
  exact ⟨hkeys, fun d => mem_synced_iff
    (nodup_addresses root hroot.names_nodup (labelsDistinct_of_normal hnormal)) heffect.symm⟩

end Build

theorem BucketMap.build_synchronises_ofNames_iff (sys : System) (m : BucketMap) (root : List Name)
    (dir : Dir) (ls : Collection) (hpath : m.path = Path.ofNames root)
    (hnormal : Entries.Everywhere NamesNormal dir) :
    (∃ m' disk ls', m.build sys dir ls = .ok (m', disk, ls') ∧ Synchronised m' ls ls') ↔
      (∀ entry ∈ dir, ∃ sub, entry.2 = .dir sub) ∧ DocumentsPresent root ls dir := by
  have hnodup := hnormal.here.names_nodup
  have hlabels := labelsDistinct_of_normal hnormal
  constructor
  · rintro ⟨m', disk, ls', hbuild, hsync⟩
    have honly := only_dirs_of_build hnormal ⟨_, hbuild⟩
    obtain ⟨hkeys, hdocs⟩ := of_build_eq_ok hpath honly hnormal hbuild
    refine ⟨honly, documentsPresent_of_found fun file hfile => ?_⟩
    obtain ⟨d, ⟨hd, haddress⟩, -⟩ := hsync.one _ _ _
      ((holds_iff_file hnodup hlabels hkeys).2 ⟨file, hfile, rfl⟩)
    obtain ⟨file', hfile', hfound⟩ := (hdocs d).1 hd
    exact ⟨file', hfile', d, hfound, haddress⟩
  · rintro ⟨honly, hpresent⟩
    have hfound := found_of_documentsPresent hpresent
    have hcompletes : Completes (m.build sys dir ls) := by
      rw [completes_build_iff sys ls hpath (rootNormalised_of_normal honly hnormal) honly
        (normalisable_of_normal hnormal), seenRoot_eq_self hnormal]
      intro file hfile
      exact .inl (Option.isSome_iff_exists.2 (hfound file hfile))
    obtain ⟨⟨m', disk, ls'⟩, hbuild⟩ := hcompletes
    obtain ⟨hkeys, hdocs⟩ := of_build_eq_ok hpath honly hnormal hbuild
    exact ⟨m', disk, ls', hbuild, synchronised_of_documentsPresent hpresent
      (fun _ _ _ => holds_iff_file hnodup hlabels hkeys) hdocs⟩

theorem synchronised_of_no_buckets {m : BucketMap} (ls : Collection) :
    Synchronised { m with tree := [] } ls (syncObjectWithDatabase ls []) := by
  have hnone : ∀ bucket key name, ¬BucketMap.Holds { m with tree := [] } bucket key name := by
    rintro bucket key name ⟨path, o, ho, -⟩
    rw [FlatMap.items_of_none _ _ rfl] at ho
    simp at ho
  refine ⟨fun bucket key name hheld => absurd hheld (hnone _ _ _), ?_,
    fun bucket key name d hheld => absurd hheld (hnone _ _ _)⟩
  intro d hd
  simp [syncObjectWithDatabase, Collection.deleteMany, Collection.keep] at hd

/-- After the start-up build over normalised names the database has one document for
each object of the tree and no other, exactly if the root holds only directories and,
unless it holds none, the root is text, every file had its document before, and no
bucket with a file has its name in the text of the root. -/
theorem BucketMap.build_synchronises_iff (sys : System) (m : BucketMap) (dir : Dir)
    (ls : Collection) (hpath : m.path.IsCanonical)
    (hnormal : Entries.Everywhere NamesNormal dir) :
    (∃ m' disk ls', m.build sys dir ls = .ok (m', disk, ls') ∧ Synchronised m' ls ls') ↔
      (∀ entry ∈ dir, ∃ sub, entry.2 = .dir sub) ∧
        (dir = [] ∨ ∃ root, m.path = Path.ofNames root ∧ DocumentsPresent root ls dir) := by
  by_cases hdir : dir = []
  · subst hdir
    refine iff_of_true ⟨_, _, _, rfl, synchronised_of_no_buckets ls⟩ ⟨?_, .inl rfl⟩
    intro entry hmem
    cases hmem
  · constructor
    · rintro ⟨m', disk, ls', hbuild, hsync⟩
      have honly := only_dirs_of_build hnormal ⟨_, hbuild⟩
      obtain ⟨root, htext⟩ := text_of_build hpath (rootNormalised_of_normal honly hnormal)
        (normalisable_of_normal hnormal) hdir hbuild
      have hpresent := (build_synchronises_ofNames_iff sys m root dir ls htext hnormal).1
        ⟨m', disk, ls', hbuild, hsync⟩
      exact ⟨honly, .inr ⟨root, htext, hpresent.2⟩⟩
    · rintro ⟨honly, hempty | ⟨root, htext, hpresent⟩⟩
      · exact absurd hempty hdir
      · exact (build_synchronises_ofNames_iff sys m root dir ls htext hnormal).2
          ⟨honly, hpresent⟩

def fileDir : Dir :=
  [(bucketB,
    .dir [(⟨['x'], by decide⟩, .file { metadata := none, checkSum := none })])]

theorem fileDir_normal : Entries.Everywhere NamesNormal fileDir :=
  .singleton_dir ⟨by decide, by decide⟩ (.intro ⟨by decide, by decide⟩ (by simp))

def fileKnown : Collection where
  docs :=
    [{ id := 0, bucket := ['b'], key := Key.root, object := .named ['x'], objectName := none }]
  nextId := 1
  ids_nodup := by decide
  ids_lt := by simp

theorem build_synchronises_fileKnown :
    ∃ m' disk ls', (BucketMap.new [OsStr.ofStr ['d']] 0).build .still fileDir fileKnown =
      .ok (m', disk, ls') ∧ Synchronised m' fileKnown ls' := by
  refine (BucketMap.build_synchronises_iff .still _ fileDir fileKnown
    (Path.isCanonical_ofNames [⟨['d'], by decide⟩]) fileDir_normal).2
    ⟨?_, .inr ⟨[⟨['d'], by decide⟩], rfl, ?_⟩⟩
  · intro entry hmem
    exact ⟨_, by rw [List.mem_singleton.1 hmem]⟩
  · intro file hfile
    simp only [bucketFiles, fileDir, Entries.filesAt, Entries.filesBelow, Entries.files,
      List.map_cons, List.map_nil, List.nil_append, List.append_nil, List.mem_singleton] at hfile
    subst hfile
    exact ⟨by decide, _, List.mem_singleton.2 rfl, rfl⟩

/-- The document of a file that the database does not know is inserted and deleted. -/
theorem new_document_deleted :
    Entries.Everywhere NamesNormal fileDir ∧
      ∃ m' disk ls', (BucketMap.new [OsStr.ofStr ['d']] 0).build .still fileDir .empty =
          .ok (m', disk, ls') ∧
        m'.Holds ['b'] Key.root ['x'] ∧ ls'.docs = [] ∧ ¬Synchronised m' .empty ls' := by
  refine ⟨fileDir_normal, _, _, _, rfl, holds_of_entryAt [] rfl (by decide), rfl, ?_⟩
  intro hsync
  obtain ⟨d, ⟨hd, -⟩, -⟩ :=
    hsync.one ['b'] Key.root ['x'] (holds_of_entryAt [] rfl (by decide))
  exact absurd hd List.not_mem_nil

end WsHyper.Directory
