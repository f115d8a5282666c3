import WsHyper.Directory.BuildSync
import WsHyper.Directory.FlatView

/-!
# The built tree and the disk

After the start-up build the tree mirrors the disk, if every rename went through
and every file without a document has times an object can hold.  The walk always
mirrors what it has seen; an entry whose rename fails stays on disk under a name
that nothing seen can have.
-/

namespace WsHyper.Directory

open WsHyper.Lib

def Dir.fileNames (dir : Dir) : List Str := dir.files.map fun file => file.1.text

def KeyEntry.fileNames (entry : KeyEntry) : List Str :=
  (entry.objects.getD []).map Object.fileName

/-- An entry has one object for every file of a directory, and no other. -/
def SameFiles (entry : KeyEntry) (dir : Dir) : Prop :=
  entry.fileNames.Nodup ∧ ∀ name, name ∈ entry.fileNames ↔ name ∈ dir.fileNames

/-- The tree has an entry for every directory below the root, with its files, and
no other entry. -/
structure BucketMap.Mirrors (m : BucketMap) (disk : Dir) : Prop where
  entries : ∀ (bucket : Name) (path : List Name),
    Option.Rel SameFiles (m.getEntry bucket.text (Key.ofPath (path.map Name.text)))
      (disk.dirAt (bucket :: path))
  named : ∀ bucket key, (m.getEntry bucket key).isSome →
    ∃ (b : Name) (path : List Name), b.text = bucket ∧ path.map Name.text = key.path

/-- Every normal form is a name, and none is the name of a directory entry listed later. -/
def RenamesGoThrough (dir : Dir) : Prop :=
  (∀ entry ∈ dir, IsName (normalName entry)) ∧
    dir.Pairwise fun entry later => normalName entry ≠ later.1.text

def normalAddress (root : List Name) (file : BucketFile) : Bucket × Key × Str :=
  (file.1.text,
    Key.decoded root file.1 (file.2.1.map fun name => NormalizePathUtf8.newName name.text),
    NormalizeFileUtf8.cleanName file.2.2.1.text)

/-- Every file has a document or times that an object can hold. -/
def ObjectsAvailable (root : List Name) (ls : Collection) (dir : Dir) : Prop :=
  ∀ file ∈ bucketFiles dir,
    (∃ d ∈ ls.docs, (d.bucket, d.key, d.object.fileName) = normalAddress root file) ∨
      file.2.2.2.Expressible

/-! ## The walk mirrors what it enters -/

structure EntryMirrors (entry : KeyEntry) (dir : Dir) : Prop where
  entries : ∀ path : List Name,
    Option.Rel SameFiles (BucketMap.branching.descend entry (path.map Name.text))
      (dir.dirAt path)
  named : ∀ segments, (BucketMap.branching.descend entry segments).isSome →
    ∃ path : List Name, path.map Name.text = segments

def KeysMirror (dir : Dir) (keys keys' : AssocMap Segment KeyEntry) : Prop :=
  ∀ segment,
    (∃ name sub entry, name.text = segment ∧ dir.subdir name = some sub ∧
      keys'.lookup segment = some entry ∧ EntryMirrors entry sub) ∨
    ((∀ name : Name, name.text = segment → dir.subdir name = none) ∧
      keys'.lookup segment = keys.lookup segment)

theorem KeysMirror.refl (keys : AssocMap Segment KeyEntry) : KeysMirror [] keys keys := by
  intro segment
  exact .inr ⟨fun _ _ => rfl, rfl⟩

theorem KeysMirror.file_cons {name : Name} {info : FileInfo} {rest : Dir}
    {keys keys' : AssocMap Segment KeyEntry} (hname : name ∉ rest.map Prod.fst)
    (hrest : KeysMirror rest keys keys') :
    KeysMirror ((name, .file info) :: rest) keys keys' := by
  intro segment
  rcases hrest segment with ⟨n, sub, entry, htext, hsub, hlookup, hentry⟩ | ⟨hnone, hlookup⟩
  · refine .inl ⟨n, sub, entry, htext, ?_, hlookup, hentry⟩
    have hne : name ≠ n := by
      rintro rfl
      rw [Entries.subdir_eq_none_of_not_mem hname] at hsub
      cases hsub
    rw [Entries.subdir_file_cons, if_neg hne, hsub]
  · refine .inr ⟨fun n htext => ?_, hlookup⟩
    rw [Entries.subdir_file_cons, hnone n htext, ite_self]

theorem KeysMirror.dir_cons {name : Name} {sub rest : Dir} {entry : KeyEntry}
    {keys keys' : AssocMap Segment KeyEntry} (hname : name ∉ rest.map Prod.fst)
    (hentry : EntryMirrors entry sub)
    (hrest : KeysMirror rest (keys.insert name.text entry) keys') :
    KeysMirror ((name, .dir sub) :: rest) keys keys' := by
  intro segment
  rcases hrest segment with ⟨n, s, e, htext, hsub, hlookup, he⟩ | ⟨hnone, hlookup⟩
  · refine .inl ⟨n, s, e, htext, ?_, hlookup, he⟩
    have hne : name ≠ n := by
      rintro rfl
      rw [Entries.subdir_eq_none_of_not_mem hname] at hsub
      cases hsub
    rw [Entries.subdir_dir_cons, if_neg hne, hsub]
  · rw [AssocMap.lookup_insert] at hlookup
    by_cases hsegment : name.text = segment
    · rw [if_pos hsegment] at hlookup
      refine .inl ⟨name, sub, entry, hsegment, ?_, hlookup, hentry⟩
      rw [Entries.subdir_dir_cons, if_pos rfl]
    · rw [if_neg hsegment] at hlookup
      refine .inr ⟨fun n htext => ?_, hlookup⟩
      have hne : name ≠ n := by
        rintro rfl
        exact hsegment htext
      rw [Entries.subdir_dir_cons, if_neg hne, hnone n htext]

/-- Keys made over an empty map stand for the sub-directories and nothing else. -/
theorem KeysMirror.rel {dir : Dir} {keys : AssocMap Segment KeyEntry}
    (hkeys : KeysMirror dir [] keys) (name : Name) :
    Option.Rel EntryMirrors (keys.lookup name.text) (dir.subdir name) := by
  rcases hkeys name.text with ⟨n, sub, entry, htext, hsub, hlookup, hentry⟩ | ⟨hnone, hlookup⟩
  · obtain rfl : n = name := Name.ext htext
    rw [hsub, hlookup]
    exact .some hentry
  · rw [hnone name rfl, hlookup]
    exact .none

theorem KeysMirror.exists_name {dir : Dir} {keys : AssocMap Segment KeyEntry}
    (hkeys : KeysMirror dir [] keys) {segment : Segment} {entry : KeyEntry}
    (hlookup : keys.lookup segment = some entry) :
    ∃ name sub, name.text = segment ∧ dir.subdir name = some sub ∧ EntryMirrors entry sub := by
  rcases hkeys segment with ⟨n, sub, e, htext, hsub, hlookup', he⟩ | ⟨-, hnone⟩
  · rw [hlookup] at hlookup'
    obtain rfl := Option.some.inj hlookup'
    exact ⟨n, sub, htext, hsub, he⟩
  · rw [hlookup] at hnone
    cases hnone

theorem entryMirrors_of_keysMirror {entry : KeyEntry} {dir : Dir}
    {keys : AssocMap Segment KeyEntry} (hfiles : SameFiles entry dir)
    (hchild : ∀ segment, BucketMap.branching.child entry segment = keys.lookup segment)
    (hkeys : KeysMirror dir [] keys) : EntryMirrors entry dir := by
  constructor
  · intro path
    cases path with
    | nil => exact .some hfiles
    | cons name path =>
        rw [List.map_cons, Branching.descend_cons, hchild, Entries.dirAt_cons]
        exact Branching.rel_bind (hkeys.rel name) fun _ _ hsub => hsub.entries path
  · intro segments hsome
    cases segments with
    | nil => exact ⟨[], rfl⟩
    | cons segment segments =>
        rw [Branching.descend_cons, hchild] at hsome
        cases hlookup : keys.lookup segment with
        | none => simp [hlookup] at hsome
        | some e =>
            rw [hlookup, Option.bind_some] at hsome
            obtain ⟨name, sub, rfl, -, he⟩ := hkeys.exists_name hlookup
            obtain ⟨path, rfl⟩ := he.named segments hsome
            exact ⟨name :: path, rfl⟩

section Entering

variable {sys : System} {bucket : Bucket} {sync sync' : Sync}

theorem fileNames_of_syncObjects {key : Key} {parent : Path} {files : List (Name × FileInfo)}
    {objects : List Object}
    (hsync : syncObjects sys bucket key parent files sync = .ok (objects, sync')) :
    objects.map Object.fileName = files.map fun file => file.1.text := by
  induction files generalizing objects sync sync' with
  | nil =>
      obtain ⟨rfl, -⟩ := Prod.mk.inj (Except.ok.inj hsync)
      rfl
  | cons file files ih =>
      obtain ⟨⟨object, sync₁⟩, hobject, hrest⟩ := bind_eq_ok hsync
      obtain ⟨⟨objects', sync₂⟩, hobjects, heq⟩ := bind_eq_ok hrest
      obtain ⟨rfl, -⟩ := Prod.mk.inj (Except.ok.inj heq)
      rw [List.map_cons, List.map_cons, ih hobjects]
      congr 1
      rw [syncObject] at hobject
      split at hobject
      · next d hfound =>
          -- the document was found by this very name
          obtain ⟨rfl, -⟩ := Prod.mk.inj (Except.ok.inj hobject)
          exact (LocalStorage.of_getObjectFilename hfound).2.2.2
      · obtain ⟨object', hnew, hpair⟩ := bind_eq_ok hobject
        obtain ⟨rfl, -⟩ := Prod.mk.inj (Except.ok.inj hpair)
        exact Object.fileName_of_new_join hnew

theorem closeEntry_eq_ok {path : Path} {files : List (Name × FileInfo)}
    {keys : AssocMap Segment KeyEntry} {entry : KeyEntry}
    (hclose : closeEntry sys bucket path files keys sync = .ok (entry, sync')) :
    entry.fileNames = files.map (fun file => file.1.text) ∧
      ∀ segment, BucketMap.branching.child entry segment = keys.lookup segment := by
  obtain ⟨key, -, hrest⟩ := bind_eq_ok hclose
  obtain ⟨⟨objects, sync₁⟩, hobjects, heq⟩ := bind_eq_ok hrest
  obtain ⟨rfl, -⟩ := Prod.mk.inj (Except.ok.inj heq)
  constructor
  · rw [← fileNames_of_syncObjects hobjects, KeyEntry.fileNames]
    by_cases hempty : objects = []
    · simp [hempty]
    · simp [hempty]
  · intro segment
    by_cases hempty : keys = []
    · simp [Branching.child, BucketMap.branching, hempty]
    · simp [Branching.child, BucketMap.branching, hempty]

theorem isSome_toStr_of_enter {path : Path} {dir : Dir} {result : KeyEntry × Sync}
    (henter : enter sys bucket path dir sync = .ok result) : path.toStr.isSome := by
  obtain ⟨_, _, hclose⟩ := bind_eq_ok henter
  obtain ⟨key, hkey, -⟩ := bind_eq_ok hclose
  exact Key.isSome_toStr_of_fromBucket (unwrap_eq_ok_iff.1 hkey)

theorem sameFiles_of_eq {entry : KeyEntry} {dir : Dir} (hnodup : (dir.map Prod.fst).Nodup)
    (hfiles : entry.fileNames = dir.fileNames) : SameFiles entry dir := by
  refine ⟨?_, fun name => by rw [hfiles]⟩
  have hlabels := hnodup.sublist (Entries.files_labels_sublist dir)
  rw [hfiles, Dir.fileNames, ← Function.comp_def Name.text, ← List.map_map]
  exact hlabels.map Name.text_injective

theorem entryMirrors_of_enter {path : Path} {dir : Dir} {entry : KeyEntry}
    (hlabels : dir.LabelsDistinct)
    (hkeys : ∀ keys sync₁, enterKeys sys bucket path dir [] sync = .ok (keys, sync₁) →
      KeysMirror dir [] keys)
    (henter : enter sys bucket path dir sync = .ok (entry, sync')) : EntryMirrors entry dir := by
  obtain ⟨⟨keys, sync₁⟩, hk, hclose⟩ := bind_eq_ok henter
  obtain ⟨hfiles, hchild⟩ := closeEntry_eq_ok hclose
  exact entryMirrors_of_keysMirror (sameFiles_of_eq hlabels.here hfiles) hchild
    (hkeys keys sync₁ hk)

theorem keysMirror_of_enterKeys {path : Path} {dir : Dir}
    {keys keys' : AssocMap Segment KeyEntry} (hlabels : dir.LabelsDistinct)
    (henter : enterKeys sys bucket path dir keys sync = .ok (keys', sync')) :
    KeysMirror dir keys keys' := by
  induction dir using Entries.inductionOn generalizing path keys keys' sync sync' with
  | nil =>
      rw [enterKeys] at henter
      obtain ⟨rfl, -⟩ := Prod.mk.inj (Except.ok.inj henter)
      exact .refl _
  | file name info rest ih =>
      rw [enterKeys] at henter
      exact (ih hlabels.tail henter).file_cons (List.nodup_cons.1 hlabels.here).1
  | dir name sub rest ihsub ih =>
      have hsub : Entries.LabelsDistinct sub := hlabels.inner List.mem_cons_self
      rw [enterKeys_dir_cons] at henter
      obtain ⟨⟨entry, sync₁⟩, hentry, hrest⟩ := bind_eq_ok henter
      have hmirrors := entryMirrors_of_enter hsub (fun _ _ h => ihsub hsub h) hentry
      exact (ih hlabels.tail hrest).dir_cons (List.nodup_cons.1 hlabels.here).1 hmirrors

theorem keysMirror_of_enterBuckets {root : Path} {dir : Dir}
    {inner inner' : AssocMap Bucket KeyEntry} (hnodup : (dir.map Prod.fst).Nodup)
    (hlabels : ∀ name sub, (name, .dir sub) ∈ dir → Entries.LabelsDistinct sub)
    (henter : enterBuckets sys root dir inner sync = .ok (inner', sync')) :
    KeysMirror dir inner inner' := by
  induction dir generalizing inner sync with
  | nil =>
      obtain ⟨rfl, -⟩ := Prod.mk.inj (Except.ok.inj henter)
      exact .refl _
  | cons entry rest ih =>
      obtain ⟨name, node⟩ := entry
      obtain ⟨hname, htail⟩ := List.nodup_cons.1 hnodup
      cases node with
      | file info => cases henter
      | dir sub =>
          have hsub := hlabels name sub List.mem_cons_self
          rw [enterBuckets] at henter
          obtain ⟨⟨e, sync₁⟩, he, hrest⟩ := bind_eq_ok henter
          have hmirrors := entryMirrors_of_enter hsub
            (fun _ _ h => keysMirror_of_enterKeys hsub h) he
          have hlater := ih htail (fun n s hmem => hlabels n s (List.mem_cons_of_mem _ hmem)) hrest
          exact hlater.dir_cons hname hmirrors

end Entering

/-- The tree made by the walk mirrors the buckets that were entered. -/
theorem BucketMap.mirrors_of_keysMirror {m : BucketMap} {dir : Dir}
    (htree : KeysMirror dir [] m.tree) : m.Mirrors dir := by
  constructor
  · intro bucket path
    rw [getEntry_eq, Key.path_ofPath (isSegment_map_text path), entryAt, Entries.dirAt_cons]
    exact Branching.rel_bind (htree.rel bucket) fun _ _ hentry => hentry.entries path
  · intro bucket key hsome
    rw [getEntry_eq, entryAt] at hsome
    cases hlookup : m.tree.lookup bucket with
    | none => simp [hlookup] at hsome
    | some entry =>
        rw [hlookup, Option.bind_some] at hsome
        obtain ⟨name, sub, rfl, -, hentry⟩ := htree.exists_name hlookup
        obtain ⟨path, hpath⟩ := hentry.named _ hsome
        exact ⟨name, path, rfl, hpath⟩

/-! ## What is seen and what is left on disk -/

theorem renamesGoThrough_cons {entry : DirEntry} {rest : Dir} :
    RenamesGoThrough (entry :: rest) ↔
      (newNameOf entry rest).isSome ∧ RenamesGoThrough rest := by
  have hnew : (newNameOf entry rest).isSome ↔
      IsName (normalName entry) ∧ ∀ later ∈ rest, normalName entry ≠ later.1.text := by
    rw [newNameOf]
    by_cases hisName : IsName (normalName entry)
    · rw [dif_pos hisName]
      by_cases htaken : normalName entry ∈ rest.map fun e => e.1.text
      · rw [if_pos htaken]
        obtain ⟨later, hlater, heq⟩ := List.mem_map.1 htaken
        simp only [Option.isSome_none, Bool.false_eq_true, false_iff, not_and]
        exact fun _ hall => hall later hlater heq.symm
      · rw [if_neg htaken]
        simp only [Option.isSome_some, true_iff]
        exact ⟨hisName, fun later hlater heq => htaken (List.mem_map.2 ⟨later, hlater, heq.symm⟩)⟩
    · rw [dif_neg hisName]
      simp [hisName]
  rw [hnew, RenamesGoThrough, RenamesGoThrough, List.forall_mem_cons, List.pairwise_cons]
  tauto

theorem exists_newName_of_everywhere {entry : DirEntry} {rest : Dir}
    (hthrough : Entries.Everywhere RenamesGoThrough (entry :: rest)) :
    (∃ n, newNameOf entry rest = some n) ∧ Entries.Everywhere RenamesGoThrough rest :=
  ⟨Option.isSome_iff_exists.1 (renamesGoThrough_cons.1 hthrough.here).1,
    hthrough.tail fun _ _ h => (renamesGoThrough_cons.1 h).2⟩

theorem renamesGoThrough_of_forall {dir : Dir}
    (hall : ∀ front entry rest, dir = front ++ entry :: rest → (newNameOf entry rest).isSome) :
    RenamesGoThrough dir := by
  induction dir with
  | nil => exact ⟨by simp, List.Pairwise.nil⟩
  | cons entry rest ih =>
      refine renamesGoThrough_cons.2 ⟨hall [] entry rest rfl, ih ?_⟩
      intro front e rest' hrest
      exact hall (entry :: front) e rest' (by rw [hrest, List.cons_append])

/-- If all renames go through, what is seen is what is left on disk. -/
theorem seen_eq_settled {dir : Dir} (hthrough : Entries.Everywhere RenamesGoThrough dir) :
    seen dir = settled dir := by
  induction dir using Entries.inductionOn with
  | nil => simp [seen, settled]
  | file name info rest ih =>
      obtain ⟨⟨n, hn⟩, htail⟩ := exists_newName_of_everywhere hthrough
      rw [seen, settled, hn, ih htail]
      rfl
  | dir name sub rest ihsub ih =>
      obtain ⟨⟨n, hn⟩, htail⟩ := exists_newName_of_everywhere hthrough
      rw [seen, settled, hn, ih htail]
      simp only [seenNode, settledNode, ihsub (hthrough.inner List.mem_cons_self)]

theorem mem_settled_of_fails {entry : DirEntry} {rest : Dir}
    (hfails : newNameOf entry rest = none) (front : Dir) :
    entry ∈ settled (front ++ entry :: rest) := by
  induction front with
  | nil =>
      rw [List.nil_append, settled, hfails]
      exact List.mem_cons_self
  | cons e front ih =>
      rw [List.cons_append, settled]
      cases newNameOf e (front ++ entry :: rest) with
      | none => exact List.mem_cons_of_mem _ ih
      | some n => exact List.mem_cons_of_mem _ ih

theorem mem_of_newNameOf {entry : DirEntry} {rest : Dir} {n : Name}
    (hnew : newNameOf entry rest = some n) (front : Dir) :
    (n, seenNode entry.2) ∈ seen (front ++ entry :: rest) ∧
      (n, settledNode entry.2) ∈ settled (front ++ entry :: rest) := by
  induction front with
  | nil =>
      rw [List.nil_append, seen, settled, hnew]
      exact ⟨List.mem_cons_self, List.mem_cons_self⟩
  | cons e front ih =>
      rw [List.cons_append, seen, settled]
      cases newNameOf e (front ++ entry :: rest) with
      | none => exact ⟨ih.1, List.mem_cons_of_mem _ ih.2⟩
      | some m => exact ⟨List.mem_cons_of_mem _ ih.1, List.mem_cons_of_mem _ ih.2⟩

def SameNames (dir dir' : Dir) : Prop :=
  ∀ path : List Name,
    Option.Rel (fun d d' => ∀ name, name ∈ Dir.fileNames d ↔ name ∈ Dir.fileNames d')
      (dir.dirAt path) (dir'.dirAt path)

theorem NamesNormalisable.of_append {front rest : Dir} (h : NamesNormalisable (front ++ rest)) :
    NamesNormalisable rest := by
  induction front with
  | nil => exact h
  | cons e front ih => exact ih h.tail

theorem mem_fileNames_iff {dir : Dir} {name : Str} :
    name ∈ dir.fileNames ↔ ∃ n info, (n, .file info) ∈ dir ∧ n.text = name := by
  rw [Dir.fileNames, List.mem_map]
  constructor
  · rintro ⟨⟨n, info⟩, hmem, rfl⟩
    exact ⟨n, info, Entries.mem_files_iff.1 hmem, rfl⟩
  · rintro ⟨n, info, hmem, rfl⟩
    exact ⟨(n, info), Entries.mem_files_iff.2 hmem, rfl⟩

theorem newNameOf_isSome_of_sameNames {front rest : Dir} {entry : DirEntry}
    (hnorm : NamesNormalisable (front ++ entry :: rest))
    (hsame : SameNames (seen (front ++ entry :: rest)) (settled (front ++ entry :: rest))) :
    (newNameOf entry rest).isSome := by
  rw [Option.isSome_iff_ne_none]
  intro hfails
  obtain ⟨name, node⟩ := entry
  have hunclean := hnorm.of_append.cleanName_ne_of_fails hfails
  have hleft := mem_settled_of_fails hfails front
  -- nothing that is seen has the name that stays on disk
  have hunseen : ∀ node', (name, node') ∉ seen (front ++ (name, node) :: rest) := by
    intro node' hmem
    obtain ⟨e, -, htext, -⟩ := mem_seen hmem
    apply hunclean
    rw [htext, cleanName_normalName]
  cases node with
  | file info =>
      have hfiles := hsame []
      rw [Entries.dirAt_nil, Entries.dirAt_nil] at hfiles
      obtain ⟨d, hd, hnames⟩ := Branching.exists_of_rel_some_left hfiles
      obtain rfl := Option.some.inj hd
      obtain ⟨n, info', hmem, htext⟩ := mem_fileNames_iff.1
        ((hnames name.text).2 (mem_fileNames_iff.2 ⟨name, info, hleft, rfl⟩))
      obtain rfl := Name.ext htext
      exact hunseen _ hmem
  | dir sub =>
      have hdirs := hsame [name]
      have hsub := (Entries.subdir_eq_some_iff (nodup_labels_settled hnorm)).2 hleft
      rw [Entries.dirAt_cons, Entries.dirAt_cons, hsub, Option.bind_some,
        Entries.dirAt_nil] at hdirs
      obtain ⟨d, hd, -⟩ := Branching.exists_of_rel_some_right hdirs
      obtain ⟨s, hs, -⟩ := Option.bind_eq_some_iff.1 hd
      exact hunseen _ (Entries.mem_of_subdir hs)

theorem renamesGoThrough_of_sameNames {dir : Dir}
    (hnorm : Entries.Everywhere NamesNormalisable dir)
    (hsame : SameNames (seen dir) (settled dir)) : Entries.Everywhere RenamesGoThrough dir := by
  induction hnorm with
  | @intro dir hhere hinner ih =>
      have hall : ∀ front entry rest, dir = front ++ entry :: rest →
          (newNameOf entry rest).isSome := by
        rintro front entry rest rfl
        exact newNameOf_isSome_of_sameNames hhere hsame
      constructor
      · exact renamesGoThrough_of_forall hall
      · intro name sub hmem
        obtain ⟨front, rest, rfl⟩ := List.append_of_mem hmem
        obtain ⟨n, hn⟩ := Option.isSome_iff_exists.1 (hall front _ rest rfl)
        obtain ⟨hseen, hsettled⟩ := mem_of_newNameOf hn front
        apply ih name sub hmem
        intro path
        have hpath := hsame (n :: path)
        have hnodup := nodup_labels_settled hhere
        rw [Entries.dirAt_cons, Entries.dirAt_cons,
          (Entries.subdir_eq_some_iff (hnodup.sublist (labels_seen_sublist _))).2 hseen,
          (Entries.subdir_eq_some_iff hnodup).2 hsettled] at hpath
        exact hpath

/-! ## Addresses of files -/

section Addresses

theorem files_seen {dir : Dir} (hthrough : RenamesGoThrough dir) :
    (seen dir).files.map (fun file => (file.1.text, file.2)) =
      dir.files.map fun file => (NormalizeFileUtf8.cleanName file.1.text, file.2) := by
  induction dir with
  | nil => simp [seen, Entries.files]
  | cons entry rest ih =>
      obtain ⟨hnew, htail⟩ := renamesGoThrough_cons.1 hthrough
      obtain ⟨n, hn⟩ := Option.isSome_iff_exists.1 hnew
      obtain ⟨name, node⟩ := entry
      rw [seen, hn]
      cases node with
      | file info =>
          have htext := (text_of_newNameOf hn).1
          rw [normalName] at htext
          simp only [seenNode, Entries.files, List.map_cons, htext, ih htail]
      | dir sub => exact ih htail

def plainFile (file : List Name × Name × FileInfo) : List Segment × Str × FileInfo :=
  (file.1.map Name.text, file.2.1.text, file.2.2)

def normalFile (file : List Name × Name × FileInfo) : List Segment × Str × FileInfo :=
  (file.1.map fun name => NormalizePathUtf8.newName name.text,
    NormalizeFileUtf8.cleanName file.2.1.text, file.2.2)

theorem own_seen {dir : Dir} (hthrough : RenamesGoThrough dir) {path path' : List Name}
    (hpath : path'.map Name.text = path.map fun name => NormalizePathUtf8.newName name.text) :
    ((seen dir).files.map fun file => (path', file)).map plainFile =
      (dir.files.map fun file => (path, file)).map normalFile := by
  have hfiles := congrArg (List.map fun f => (path'.map Name.text, f)) (files_seen hthrough)
  rw [List.map_map, List.map_map] at hfiles ⊢
  rw [hpath] at hfiles
  simpa [plainFile, normalFile, Function.comp_def, hpath] using hfiles

theorem filesBelow_seen {dir : Dir} (hthrough : Entries.Everywhere RenamesGoThrough dir)
    {path path' : List Name}
    (hpath : path'.map Name.text = path.map fun name => NormalizePathUtf8.newName name.text) :
    (Entries.filesBelow path' (seen dir)).map plainFile =
      (Entries.filesBelow path dir).map normalFile := by
  induction dir using Entries.inductionOn generalizing path path' with
  | nil => simp [seen, Entries.filesBelow]
  | file name info rest ih =>
      obtain ⟨⟨n, hn⟩, htail⟩ := exists_newName_of_everywhere hthrough
      rw [seen, hn]
      simp only [seenNode, Entries.filesBelow]
      exact ih htail hpath
  | dir name sub rest ihsub ih =>
      obtain ⟨⟨n, hn⟩, htail⟩ := exists_newName_of_everywhere hthrough
      have hsub := hthrough.inner (List.mem_cons_self : (name, Node.dir sub) ∈ _)
      have htext := (text_of_newNameOf hn).1
      rw [normalName] at htext
      have hpath' : (path' ++ [n]).map Name.text =
          (path ++ [name]).map fun name => NormalizePathUtf8.newName name.text := by
        rw [List.map_append, List.map_append, hpath, List.map_singleton, List.map_singleton, htext]
      rw [seen, hn]
      simp only [seenNode, Entries.filesBelow, List.map_append]
      rw [ihsub hsub hpath', own_seen hsub.here hpath', ih htail hpath]

theorem filesAt_seen {dir : Dir} (hthrough : Entries.Everywhere RenamesGoThrough dir) :
    (Entries.filesAt [] (seen dir)).map plainFile =
      (Entries.filesAt [] dir).map normalFile := by
  have hnil : ([] : List Name).map Name.text =
      ([] : List Name).map fun name => NormalizePathUtf8.newName name.text := rfl
  rw [Entries.filesAt, Entries.filesAt, List.map_append, List.map_append,
    filesBelow_seen hthrough hnil, own_seen hthrough.here hnil]

/-- The files that the walk comes to are the files of the disk, under their normal names. -/
theorem bucketFiles_seenRoot (root : List Name) {dir : Dir}
    (hthrough : ∀ name sub, (name, .dir sub) ∈ dir → Entries.Everywhere RenamesGoThrough sub) :
    (bucketFiles (seenRoot dir)).map (fun file => (address root file, file.2.2.2)) =
      (bucketFiles dir).map fun file => (normalAddress root file, file.2.2.2) := by
  induction dir with
  | nil => rfl
  | cons entry rest ih =>
      obtain ⟨bucket, node⟩ := entry
      have hrest := ih fun n s hmem => hthrough n s (List.mem_cons_of_mem _ hmem)
      cases node with
      | file info => exact hrest
      | dir sub =>
          have hfiles := filesAt_seen (hthrough bucket sub List.mem_cons_self)
          have hbucket := congrArg (List.map fun f : List Segment × Str × FileInfo =>
            ((bucket.text, Key.decoded root bucket f.1, f.2.1), f.2.2)) hfiles
          rw [List.map_map, List.map_map] at hbucket
          rw [seenRoot_dir_cons, bucketFiles, bucketFiles, List.map_append, List.map_append, hrest,
            List.map_map, List.map_map]
          congr 1

end Addresses

/-! ## The start-up build -/

section Build

variable {sys : System} {dir : Dir}

theorem nodup_labels_seenRoot (hroot : RootNormalised dir) :
    ((seenRoot dir).map Prod.fst).Nodup := by
  rw [seenRoot, List.map_map]
  exact hroot.names_nodup

theorem labelsDistinct_seenRoot
    (hnorm : ∀ name sub, (name, .dir sub) ∈ dir → Entries.Everywhere NamesNormalisable sub) :
    ∀ name sub, (name, .dir sub) ∈ seenRoot dir → Entries.LabelsDistinct sub := by
  intro name sub hmem
  obtain ⟨⟨n, node⟩, he, heq⟩ := List.mem_map.1 hmem
  cases node with
  | file info => cases heq
  | dir s =>
      cases heq
      exact labelsDistinct_seen (hnorm n s he)

theorem only_dirs_seenRoot (honly : ∀ entry ∈ dir, ∃ sub, entry.2 = .dir sub) :
    ∀ entry ∈ seenRoot dir, ∃ sub, entry.2 = .dir sub := by
  intro entry hmem
  obtain ⟨e, he, rfl⟩ := List.mem_map.1 hmem
  obtain ⟨sub, hsub⟩ := honly e he
  exact ⟨seen sub, by rw [hsub]; rfl⟩

/-- What a build that goes through leaves: keys for all that was seen, and the disk. -/
theorem BucketMap.keysMirror_of_build {m m' : BucketMap} {ls ls' : Collection} {disk : Dir}
    (hroot : RootNormalised dir)
    (hnorm : ∀ name sub, (name, .dir sub) ∈ dir → Entries.Everywhere NamesNormalisable sub)
    (hbuild : m.build sys dir ls = .ok (m', disk, ls')) :
    KeysMirror (seenRoot dir) [] m'.tree ∧ disk = settledRoot dir := by
  rw [build_eq m ls hroot hnorm] at hbuild
  obtain ⟨⟨inner, sync⟩, henter, heq⟩ := bind_eq_ok hbuild
  cases heq
  exact ⟨keysMirror_of_enterBuckets (nodup_labels_seenRoot hroot)
    (labelsDistinct_seenRoot hnorm) henter, rfl⟩

theorem BucketMap.text_of_build {m : BucketMap} {ls : Collection}
    {result : BucketMap × Dir × Collection} (hpath : m.path.IsCanonical)
    (hroot : RootNormalised dir)
    (hnorm : ∀ name sub, (name, .dir sub) ∈ dir → Entries.Everywhere NamesNormalisable sub)
    (hne : dir ≠ []) (hbuild : m.build sys dir ls = .ok result) :
    ∃ root, m.path = Path.ofNames root := by
  rw [build_eq m ls hroot hnorm] at hbuild
  obtain ⟨_, hbuckets, -⟩ := bind_eq_ok hbuild
  cases dir with
  | nil => exact absurd rfl hne
  | cons entry rest =>
      obtain ⟨name, node⟩ := entry
      cases node with
      | file info => cases hbuckets
      | dir sub =>
          rw [seenRoot_dir_cons, enterBuckets] at hbuckets
          obtain ⟨_, henter, -⟩ := bind_eq_ok hbuckets
          have htext := isSome_toStr_of_enter henter
          exact Path.exists_eq_ofNames hpath (Path.isSome_toStr_of_append htext)

theorem BucketMap.completes_build_iff (sys : System) {m : BucketMap} {root : List Name}
    (ls : Collection) (hpath : m.path = Path.ofNames root) (hroot : RootNormalised dir)
    (honly : ∀ entry ∈ dir, ∃ sub, entry.2 = .dir sub)
    (hnorm : ∀ name sub, (name, .dir sub) ∈ dir → Entries.Everywhere NamesNormalisable sub) :
    Completes (m.build sys dir ls) ↔
      ∀ file ∈ bucketFiles (seenRoot dir),
        (foundDoc root ls file).isSome ∨ file.2.2.2.Expressible := by
  have hdistinct := nodup_addresses root (nodup_labels_seenRoot hroot)
    (labelsDistinct_seenRoot hnorm)
  rw [build_eq m ls hroot hnorm, completes_bind_ok, hpath, ← completes_bind_ok (f := Prod.snd),
    enterBuckets_effect (only_dirs_seenRoot honly)]
  exact completes_sync_iff hdistinct

theorem objectsAvailable_iff {root : List Name} {ls : Collection}
    (hthrough : ∀ name sub, (name, .dir sub) ∈ dir → Entries.Everywhere RenamesGoThrough sub) :
    (∀ file ∈ bucketFiles (seenRoot dir),
        (foundDoc root ls file).isSome ∨ file.2.2.2.Expressible) ↔
      ObjectsAvailable root ls dir := by
  have hfiles := bucketFiles_seenRoot root hthrough
  have hplain := List.forall_mem_map (l := bucketFiles (seenRoot dir))
    (f := fun file => (address root file, file.2.2.2))
    (P := fun f => (∃ d ∈ ls.docs, (d.bucket, d.key, d.object.fileName) = f.1) ∨ f.2.Expressible)
  have hnormal := List.forall_mem_map (l := bucketFiles dir)
    (f := fun file => (normalAddress root file, file.2.2.2))
    (P := fun f => (∃ d ∈ ls.docs, (d.bucket, d.key, d.object.fileName) = f.1) ∨ f.2.Expressible)
  rw [hfiles] at hplain
  simp only [foundDoc_isSome_iff]
  exact hplain.symm.trans hnormal

theorem sameNames_of_rel {entry : Option KeyEntry} {dir₁ dir₂ : Option Dir}
    (h₁ : Option.Rel SameFiles entry dir₁) (h₂ : Option.Rel SameFiles entry dir₂) :
    Option.Rel (fun d d' => ∀ name, name ∈ Dir.fileNames d ↔ name ∈ Dir.fileNames d')
      dir₁ dir₂ := by
  cases h₁ with
  | none =>
      cases h₂
      exact .none
  | some hfiles₁ =>
      cases h₂ with
      | some hfiles₂ => exact .some fun name => (hfiles₁.2 name).symm.trans (hfiles₂.2 name)

theorem subdir_seenRoot (hroot : RootNormalised dir) {name : Name} {sub : Dir}
    (hmem : (name, .dir sub) ∈ dir) :
    (seenRoot dir).subdir name = some (seen sub) ∧
      (settledRoot dir).subdir name = some (settled sub) := by
  have hlabels : ((settledRoot dir).map Prod.fst).Nodup := by
    rw [settledRoot, List.map_map]
    exact hroot.names_nodup
  constructor
  · exact (Entries.subdir_eq_some_iff (nodup_labels_seenRoot hroot)).2
      (List.mem_map.2 ⟨_, hmem, rfl⟩)
  · exact (Entries.subdir_eq_some_iff hlabels).2 (List.mem_map.2 ⟨_, hmem, rfl⟩)

theorem seenRoot_eq_settledRoot
    (hthrough : ∀ name sub, (name, .dir sub) ∈ dir → Entries.Everywhere RenamesGoThrough sub) :
    seenRoot dir = settledRoot dir := by
  apply List.map_congr_left
  rintro ⟨name, node⟩ hmem
  cases node with
  | file info => rfl
  | dir sub => simp only [seenNode, settledNode, seen_eq_settled (hthrough name sub hmem)]

theorem BucketMap.build_mirrors_ofNames_iff (sys : System) (m : BucketMap) (root : List Name)
    (dir : Dir) (ls : Collection) (hpath : m.path = Path.ofNames root)
    (honly : ∀ entry ∈ dir, ∃ sub, entry.2 = .dir sub) (hroot : RootNormalised dir)
    (hnorm : ∀ name sub, (name, .dir sub) ∈ dir → Entries.Everywhere NamesNormalisable sub) :
    (∃ m' disk ls', m.build sys dir ls = .ok (m', disk, ls') ∧ m'.Mirrors disk) ↔
      (∀ name sub, (name, .dir sub) ∈ dir → Entries.Everywhere RenamesGoThrough sub) ∧
        ObjectsAvailable root ls dir := by
  have hcompletes := completes_build_iff sys ls hpath hroot honly hnorm
  constructor
  · rintro ⟨m', disk, ls', hbuild, hmirrors⟩
    obtain ⟨hkeys, rfl⟩ := keysMirror_of_build hroot hnorm hbuild
    have hseen := mirrors_of_keysMirror hkeys
    have hthrough : ∀ name sub, (name, .dir sub) ∈ dir →
        Entries.Everywhere RenamesGoThrough sub := by
      intro name sub hmem
      apply renamesGoThrough_of_sameNames (hnorm name sub hmem)
      intro path
      obtain ⟨hsub, hsub'⟩ := subdir_seenRoot hroot hmem
      have hrel := sameNames_of_rel (hseen.entries name path) (hmirrors.entries name path)
      rwa [Entries.dirAt_cons, Entries.dirAt_cons, hsub, hsub'] at hrel
    exact ⟨hthrough, (objectsAvailable_iff hthrough).1 (hcompletes.1 ⟨_, hbuild⟩)⟩
  · rintro ⟨hthrough, havailable⟩
    obtain ⟨⟨m', disk, ls'⟩, hbuild⟩ :=
      hcompletes.2 ((objectsAvailable_iff hthrough).2 havailable)
    obtain ⟨hkeys, rfl⟩ := keysMirror_of_build hroot hnorm hbuild
    refine ⟨m', _, ls', hbuild, ?_⟩
    rw [← seenRoot_eq_settledRoot hthrough]
    exact mirrors_of_keysMirror hkeys

/-- The start-up build leaves a tree that mirrors the disk exactly if every rename
goes through and, unless there is no bucket, the root is text and every file has a
document or times that an object can hold. -/
theorem BucketMap.build_mirrors_iff (sys : System) (m : BucketMap) (dir : Dir)
    (ls : Collection) (hpath : m.path.IsCanonical)
    (honly : ∀ entry ∈ dir, ∃ sub, entry.2 = .dir sub) (hroot : RootNormalised dir)
    (hnorm : ∀ name sub, (name, .dir sub) ∈ dir → Entries.Everywhere NamesNormalisable sub) :
    (∃ m' disk ls', m.build sys dir ls = .ok (m', disk, ls') ∧ m'.Mirrors disk) ↔
      (∀ name sub, (name, .dir sub) ∈ dir → Entries.Everywhere RenamesGoThrough sub) ∧
        (dir = [] ∨ ∃ root, m.path = Path.ofNames root ∧ ObjectsAvailable root ls dir) := by
  by_cases hdir : dir = []
  · subst hdir
    refine iff_of_true ⟨_, _, _, rfl, mirrors_of_keysMirror (.refl _)⟩ ⟨?_, .inl rfl⟩
    intro name sub hmem
    cases hmem
  · constructor
    · rintro ⟨m', disk, ls', hbuild, hmirrors⟩
      obtain ⟨root, htext⟩ := text_of_build hpath hroot hnorm hdir hbuild
      obtain ⟨hthrough, havailable⟩ := (build_mirrors_ofNames_iff sys m root dir ls htext honly
        hroot hnorm).1 ⟨m', disk, ls', hbuild, hmirrors⟩
      exact ⟨hthrough, .inr ⟨root, htext, havailable⟩⟩
    · rintro ⟨hthrough, hempty | ⟨root, htext, havailable⟩⟩
      · exact absurd hempty hdir
      · exact (build_mirrors_ofNames_iff sys m root dir ls htext honly hroot hnorm).2
          ⟨hthrough, havailable⟩

def System.still : System :=
  { now := fun _ => .epoch
    nanoid := fun _ => []
    broker := fun _ => 0 }

def bucketB : Name := ⟨['b'], by decide⟩

def dashDir : Dir :=
  [(bucketB, .dir [(⟨['-', 'k'], by decide⟩, .dir [])])]

theorem build_mirrors_dashDir :
    ∃ m' disk ls', (BucketMap.new [OsStr.ofStr ['d']] 0).build .still dashDir .empty =
      .ok (m', disk, ls') ∧ m'.Mirrors disk := by
  have honly : ∀ P : Dir → Prop, P [] → P [(⟨['-', 'k'], by decide⟩, .dir [])] →
      ∀ name sub, (name, .dir sub) ∈ dashDir → Entries.Everywhere P sub := by
    intro P hnil hdash name sub hmem
    obtain ⟨rfl, hnode⟩ := Prod.mk.inj (List.mem_singleton.1 hmem)
    obtain rfl := Node.dir.inj hnode
    exact .singleton_dir hdash (.intro hnil (by simp))
  refine (BucketMap.build_mirrors_iff .still _ dashDir .empty
    (Path.isCanonical_ofNames [⟨['d'], by decide⟩]) ?_ ⟨by decide, by decide⟩
    (honly _ ⟨by decide, by decide, by decide⟩ ⟨by decide, by decide, by decide⟩)).2
    ⟨honly _ ⟨by simp, by simp⟩ ⟨by decide, by simp⟩, .inr ⟨[⟨['d'], by decide⟩], rfl, ?_⟩⟩
  · intro entry hmem
    exact ⟨_, by rw [List.mem_singleton.1 hmem]⟩
  · simp [ObjectsAvailable, bucketFiles, dashDir, Entries.filesAt, Entries.filesBelow,
      Entries.files]

/-- The bucket `b` with the directory `-.`, whose normal form is `.`. -/
def dotDir : Dir :=
  [(bucketB, .dir [(⟨['-', '.'], by decide⟩, .dir [])])]

/-- The directory `-.` cannot be called `.` and is left out of the tree. -/
theorem dot_left_out :
    (∀ entry ∈ dotDir, ∃ sub, entry.2 = .dir sub) ∧ RootNormalised dotDir ∧
      (∀ name sub, (name, .dir sub) ∈ dotDir → Entries.Everywhere NamesNormalisable sub) ∧
      ∃ m' disk ls', (BucketMap.new [OsStr.ofStr ['d']] 0).build .still dotDir .empty =
          .ok (m', disk, ls') ∧
        disk.dirAt [bucketB, ⟨['-', '.'], by decide⟩] = some [] ∧
        m'.getEntry ['b'] ['-', '.'] = none ∧ ¬m'.Mirrors disk := by
  refine ⟨?_, ⟨by decide, by decide⟩, ?_, _, _, _, rfl, rfl, rfl, ?_⟩
  · intro entry hmem
    exact ⟨_, by rw [List.mem_singleton.1 hmem]⟩
  · intro name sub hmem
    obtain ⟨rfl, hnode⟩ := Prod.mk.inj (List.mem_singleton.1 hmem)
    obtain rfl := Node.dir.inj hnode
    exact .singleton_dir ⟨by decide, by decide, by decide⟩
      (.intro ⟨by decide, by decide, by decide⟩ (by simp))
  · intro hmirrors
    have hrel := hmirrors.entries bucketB [⟨['-', '.'], by decide⟩]
    cases hrel

end Build

end WsHyper.Directory
