import WsHyper.Directory.BuildDatabase
import WsHyper.Lib.Run

/-!
# Starting again

A start normalises names, keeps the documents of the files it finds and deletes the others.
What it leaves is settled: names are normal, and each document is one of a file.  A start
from there changes neither the disk nor the documents, however often it is repeated.
-/

namespace WsHyper.Directory

open WsHyper.Lib

/-- A disk and a database that a start leaves as they are. -/
structure Settled (root : List Name) (disk : Dir) (ls : Collection) : Prop where
  only : ∀ entry ∈ disk, ∃ sub, entry.2 = .dir sub
  normal : Entries.Everywhere NamesNormal disk
  /-- Each document is the one that is found for some file. -/
  docs : ∀ d ∈ ls.docs, ∃ file ∈ bucketFiles disk, foundDoc root ls file = some d
  objects : ∀ file ∈ bucketFiles disk,
    (foundDoc root ls file).isSome ∨ file.2.2.2.Expressible

/-! ## What is seen is normal -/

theorem normalName_seenNode {e : DirEntry} {name : Name} (htext : name.text = normalName e) :
    normalName (name, seenNode e.2) = name.text := by
  obtain ⟨from', node⟩ := e
  cases node with
  | file info =>
      rw [seenNode, normalName, htext, normalName, NormalizeFileUtf8.cleanName]
      exact cleanName_cleanName _
  | dir sub =>
      rw [seenNode, normalName, htext, normalName]
      exact newName_newName _

theorem namesNormal_seen {dir : Dir} (hnorm : NamesNormalisable dir) : NamesNormal (seen dir) where
  names_nodup := (nodup_labels_settled hnorm).sublist (labels_seen_sublist dir)
  normal := by
    rintro ⟨name, node⟩ hmem
    obtain ⟨e, -, htext, hnode⟩ := mem_seen hmem
    obtain rfl : node = seenNode e.2 := hnode
    exact normalName_seenNode htext

theorem normal_seen {dir : Dir} (hnorm : Entries.Everywhere NamesNormalisable dir) :
    Entries.Everywhere NamesNormal (seen dir) := by
  induction hnorm with
  | @intro dir hhere hinner ih =>
      refine .intro (namesNormal_seen hhere) ?_
      intro n s hmem
      obtain ⟨⟨name, node⟩, he, -, hnode⟩ := mem_seen hmem
      cases node with
      | file info => cases hnode
      | dir sub =>
          obtain rfl : s = seen sub := Node.dir.inj hnode
          exact ih name sub he

section Starts

variable {sys : System} {m m' : BucketMap} {root : List Name} {dir disk : Dir}
  {ls ls' : Collection}

theorem normal_seenRoot (hroot : RootNormalised dir)
    (honly : ∀ entry ∈ dir, ∃ sub, entry.2 = .dir sub)
    (hnorm : ∀ name sub, (name, .dir sub) ∈ dir → Entries.Everywhere NamesNormalisable sub) :
    Entries.Everywhere NamesNormal (seenRoot dir) := by
  refine .intro ⟨nodup_labels_seenRoot hroot, ?_⟩ ?_
  · rintro ⟨name, node⟩ hmem
    obtain ⟨e, he, heq⟩ := List.mem_map.1 hmem
    obtain ⟨rfl, rfl⟩ := Prod.mk.inj heq
    obtain ⟨sub, hsub⟩ := honly e he
    rw [hsub]
    exact hroot.normal e he
  · intro name sub hmem
    obtain ⟨⟨n, node⟩, he, heq⟩ := List.mem_map.1 hmem
    cases node with
    | file info => cases heq
    | dir s =>
        cases heq
        exact normal_seen (hnorm _ s he)

/-! ## The documents that are left -/

theorem foundDoc_of_kept
    (hdocs : ∀ d, d ∈ ls'.docs ↔ ∃ file ∈ bucketFiles disk, foundDoc root ls file = some d)
    {file : BucketFile} (hfile : file ∈ bucketFiles disk) :
    foundDoc root ls' file = foundDoc root ls file := by
  have hkept (d : Document) (hd : foundDoc root ls' file = some d) :
      foundDoc root ls file = some d := by
    obtain ⟨hmem, haddress⟩ := address_of_foundDoc hd
    obtain ⟨other, hother, hfound⟩ := (hdocs d).1 hmem
    have hsame : address root other = address root file := by
      rw [← (address_of_foundDoc hfound).2, haddress]
    rw [← foundDoc_congr hsame, hfound]
  cases hfound : foundDoc root ls file with
  | none =>
      cases hd : foundDoc root ls' file with
      | none => rfl
      | some d =>
          rw [hkept d hd] at hfound
          cases hfound
  | some d =>
      have hsome : (foundDoc root ls' file).isSome := by
        rw [foundDoc_isSome_iff]
        exact ⟨d, (hdocs d).2 ⟨file, hfile, hfound⟩, (address_of_foundDoc hfound).2⟩
      obtain ⟨d', hd'⟩ := Option.isSome_iff_exists.1 hsome
      rw [hd', ← hfound, hkept d' hd']

/-- What is left are documents that were there, and of the new ones those with a known id. -/
theorem docs_of_build (hpath : m.path = Path.ofNames root)
    (honly : ∀ entry ∈ dir, ∃ sub, entry.2 = .dir sub) (hroot : RootNormalised dir)
    (hnorm : ∀ name sub, (name, .dir sub) ∈ dir → Entries.Everywhere NamesNormalisable sub)
    (hbuild : m.build sys dir ls = .ok (m', disk, ls')) :
    (∀ d, d ∈ ls'.docs ↔
        ∃ file ∈ bucketFiles (seenRoot dir), foundDoc root ls file = some d) ∧
      ∃ added keep, ls'.docs = (ls.docs ++ added).filter keep ∧
        ∀ d ∈ added, ls.nextId ≤ d.id := by
  have hdistinct := nodup_addresses root (nodup_labels_seenRoot hroot)
    (labelsDistinct_seenRoot hnorm)
  rw [BucketMap.build_eq m ls hroot hnorm] at hbuild
  obtain ⟨⟨inner, sync⟩, henter, heq⟩ := bind_eq_ok hbuild
  have heffect : _ =
      (bucketFiles (seenRoot dir)).foldlM (syncFile sys root) { ls, objectIds := [] } :=
    enterBuckets_effect (only_dirs_seenRoot honly) [] { ls, objectIds := [] }
  rw [← hpath, henter, ok_bind] at heffect
  cases heq
  refine ⟨fun d => mem_synced_iff hdistinct heffect.symm, ?_⟩
  obtain ⟨⟨-, added, hdocs, hids⟩, -⟩ := sync_eq_ok hdistinct heffect.symm
  exact ⟨added, _, by rw [← hdocs]; rfl, hids⟩

/-- A start that goes through leaves a settled disk and database, if all renames do. -/
theorem settled_of_build (hpath : m.path = Path.ofNames root)
    (honly : ∀ entry ∈ dir, ∃ sub, entry.2 = .dir sub) (hroot : RootNormalised dir)
    (hnorm : ∀ name sub, (name, .dir sub) ∈ dir → Entries.Everywhere NamesNormalisable sub)
    (hthrough : ∀ name sub, (name, .dir sub) ∈ dir → Entries.Everywhere RenamesGoThrough sub)
    (hbuild : m.build sys dir ls = .ok (m', disk, ls')) : Settled root disk ls' := by
  obtain ⟨-, hdisk⟩ := BucketMap.keysMirror_of_build hroot hnorm hbuild
  obtain ⟨hdocs, -⟩ := docs_of_build hpath honly hroot hnorm hbuild
  have hcompletes := (BucketMap.completes_build_iff sys ls hpath hroot honly hnorm).1
    ⟨_, hbuild⟩
  rw [← seenRoot_eq_settledRoot hthrough] at hdisk
  subst hdisk
  refine ⟨only_dirs_seenRoot honly, normal_seenRoot hroot honly hnorm, ?_, ?_⟩
  · intro d hd
    obtain ⟨file, hfile, hfound⟩ := (hdocs d).1 hd
    exact ⟨file, hfile, (foundDoc_of_kept hdocs hfile).trans hfound⟩
  · intro file hfile
    rw [foundDoc_of_kept hdocs hfile]
    exact hcompletes file hfile

/-! ## A start from there -/

theorem NamesNormal.renamesGoThrough (hnormal : NamesNormal dir) : RenamesGoThrough dir := by
  constructor
  · intro entry hmem
    rw [hnormal.normal entry hmem]
    exact entry.1.isName
  · have hnames := hnormal.names_nodup
    rw [List.nodup_iff_pairwise_ne, List.pairwise_map] at hnames
    refine hnames.imp_of_mem fun {entry later} hentry _ hne heq => hne (Name.ext ?_)
    rw [← heq, hnormal.normal entry hentry]

theorem settledRoot_eq_self (hnormal : Entries.Everywhere NamesNormal dir) :
    settledRoot dir = dir := by
  have hthrough : ∀ name sub, (name, .dir sub) ∈ dir → Entries.Everywhere RenamesGoThrough sub :=
    fun _ _ hmem => (hnormal.inner hmem).mono fun _ h => h.renamesGoThrough
  rw [← seenRoot_eq_settledRoot hthrough, seenRoot_eq_self hnormal]

theorem Settled.start (hsettled : Settled root disk ls) (hpath : m.path = Path.ofNames root)
    (sys : System) :
    ∃ m' ls', m.build sys disk ls = .ok (m', disk, ls') ∧ m'.Mirrors disk ∧
      ls'.docs = ls.docs := by
  have hroot := rootNormalised_of_normal hsettled.only hsettled.normal
  have hnorm := normalisable_of_normal hsettled.normal
  have hobjects := hsettled.objects
  rw [← seenRoot_eq_self hsettled.normal] at hobjects
  obtain ⟨⟨m', disk', ls'⟩, hbuild⟩ :=
    (BucketMap.completes_build_iff sys ls hpath hroot hsettled.only hnorm).2 hobjects
  obtain ⟨hkeys, hdisk⟩ := BucketMap.keysMirror_of_build hroot hnorm hbuild
  obtain ⟨hdocs, added, keep, hfilter, hids⟩ :=
    docs_of_build hpath hsettled.only hroot hnorm hbuild
  rw [seenRoot_eq_self hsettled.normal] at hkeys hdocs
  rw [settledRoot_eq_self hsettled.normal] at hdisk
  subst hdisk
  have hsame : ∀ d, d ∈ ls'.docs ↔ d ∈ ls.docs := by
    intro d
    rw [hdocs]
    constructor
    · rintro ⟨file, -, hfound⟩
      exact (address_of_foundDoc hfound).1
    · exact hsettled.docs d
  refine ⟨m', ls', hbuild, BucketMap.mirrors_of_keysMirror hkeys, ?_⟩
  have hkept : ls.docs.filter keep = ls.docs := by
    refine List.filter_eq_self.2 fun d hd => ?_
    have hd' := (hsame d).2 hd
    rw [hfilter] at hd'
    exact (List.mem_filter.1 hd').2
  have hgone : added.filter keep = [] := by
    refine List.filter_eq_nil_iff.2 fun d hd hkeep => ?_
    have hd' : d ∈ ls'.docs := by
      rw [hfilter]
      exact List.mem_filter.2 ⟨List.mem_append_right _ hd, hkeep⟩
    exact absurd (ls.ids_lt d ((hsame d).1 hd')) (Nat.not_lt.2 (hids d hd))
  rw [hfilter, List.filter_append, hkept, hgone, List.append_nil]

theorem Settled.congr (hsettled : Settled root disk ls) (hdocs : ls'.docs = ls.docs) :
    Settled root disk ls' := by
  have hfound (file : BucketFile) : foundDoc root ls' file = foundDoc root ls file := by
    simp only [foundDoc, LocalStorage.getObjectFilename, Collection.findOne, hdocs]
  refine ⟨hsettled.only, hsettled.normal, ?_, ?_⟩
  · intro d hd
    rw [hdocs] at hd
    simp only [hfound]
    exact hsettled.docs d hd
  · simp only [hfound]
    exact hsettled.objects

end Starts

def StartStep (path : Path) (before : Dir × Collection) (start : System × Broker)
    (after : Dir × Collection) : Prop :=
  ∃ m', (BucketMap.new path start.2).build start.1 before.1 before.2 =
    .ok (m', after.1, after.2) ∧ m'.Mirrors after.1

theorem Settled.starts {root : List Name} {path : Path} {disk : Dir} {ls : Collection}
    (hsettled : Settled root disk ls) (hpath : path = Path.ofNames root)
    (starts : List (System × Broker)) :
    ∃ ls', Run (StartStep path) (disk, ls) starts (disk, ls') ∧ ls'.docs = ls.docs := by
  induction starts generalizing ls with
  | nil => exact ⟨ls, .nil _, rfl⟩
  | cons start starts ih =>
      have hnew : (BucketMap.new path start.2).path = Path.ofNames root := hpath
      obtain ⟨m', next, hbuild, hmirrors, hdocs⟩ := hsettled.start hnew start.1
      obtain ⟨ls', hrun, hdocs'⟩ := ih (hsettled.congr hdocs)
      exact ⟨ls', .cons ⟨m', hbuild, hmirrors⟩ hrun, hdocs'.trans hdocs⟩

/-- After a first start in which all renames go through, the service can be started again as
often as one likes: each start goes through with a tree that mirrors the disk, and the disk
and the documents stay as the first one left them. -/
theorem starts_settle {sys : System} {m m' : BucketMap} {root : List Name} {dir disk : Dir}
    {ls ls' : Collection} (hpath : m.path = Path.ofNames root)
    (honly : ∀ entry ∈ dir, ∃ sub, entry.2 = .dir sub) (hroot : RootNormalised dir)
    (hnorm : ∀ name sub, (name, .dir sub) ∈ dir → Entries.Everywhere NamesNormalisable sub)
    (hthrough : ∀ name sub, (name, .dir sub) ∈ dir → Entries.Everywhere RenamesGoThrough sub)
    (hbuild : m.build sys dir ls = .ok (m', disk, ls')) (starts : List (System × Broker)) :
    ∃ ls'', Run (StartStep m.path) (disk, ls') starts (disk, ls'') ∧ ls''.docs = ls'.docs :=
  (settled_of_build hpath honly hroot hnorm hthrough hbuild).starts hpath starts

def dashFile : Dir :=
  [(bucketB, .dir [(⟨['-', 'x'], by decide⟩, .file { metadata := none, checkSum := none })])]

theorem build_dashFile :
    ∃ m' ls, (BucketMap.new [OsStr.ofStr ['d']] 0).build .still dashFile .empty =
      .ok (m', fileDir, ls) ∧ ls.docs = [] := ⟨_, _, rfl, rfl⟩

/-- The file is called `x` from the first start on. -/
theorem dashFile_settles :
    ∃ ls ls', Run (StartStep [OsStr.ofStr ['d']]) (fileDir, ls) [(.still, 1), (.still, 2)]
      (fileDir, ls') ∧ ls'.docs = [] := by
  have hinner {P : Dir → Prop}
      (hhere : P [(⟨['-', 'x'], by decide⟩, .file { metadata := none, checkSum := none })]) :
      ∀ name sub, (name, .dir sub) ∈ dashFile → Entries.Everywhere P sub := by
    intro name sub hmem
    obtain ⟨rfl, hnode⟩ := Prod.mk.inj (List.mem_singleton.1 hmem)
    obtain rfl := Node.dir.inj hnode
    exact .intro hhere (by simp)
  have hpath : (BucketMap.new [OsStr.ofStr ['d']] 0).path =
      Path.ofNames [⟨['d'], by decide⟩] := rfl
  have honly : ∀ entry ∈ dashFile, ∃ sub, entry.2 = .dir sub := by
    intro entry hmem
    exact ⟨_, by rw [List.mem_singleton.1 hmem]⟩
  obtain ⟨m', ls, hbuild, hnone⟩ := build_dashFile
  obtain ⟨ls', hrun, hdocs⟩ := starts_settle hpath honly ⟨by decide, by decide⟩
    (hinner ⟨by decide, by decide, by decide⟩) (hinner ⟨by decide, by simp⟩) hbuild
    [(.still, 1), (.still, 2)]
  exact ⟨ls, ls', hrun, hdocs.trans hnone⟩

end WsHyper.Directory
