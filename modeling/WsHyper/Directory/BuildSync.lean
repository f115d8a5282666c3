import WsHyper.Directory.BuildWalk
import WsHyper.Directory.Decode

/-!
# What the walk does to the database

The walk synchronises one file after the other: `syncFile`, folded over the files
of the tree.  No two files have the same bucket, key and name, so each round finds
what the database held at the start.  An id is noted for every document found,
and for none that is inserted, so what is kept in the end are the documents found.
-/

namespace WsHyper.Directory

open WsHyper.Lib

abbrev BucketFile := Name × List Name × Name × FileInfo

def bucketFiles : Dir → List BucketFile
  | [] => []
  | (_, .file _) :: rest => bucketFiles rest
  | (bucket, .dir sub) :: rest =>
      (Entries.filesAt [] sub).map (fun file => (bucket, file)) ++ bucketFiles rest

section

variable (sys : System) (root : List Name)

def keyOf (file : BucketFile) : Key := Key.decoded root file.1 (file.2.1.map Name.text)

def foundDoc (ls : Collection) (file : BucketFile) : Option Document :=
  LocalStorage.getObjectFilename ls file.1.text (keyOf root file) file.2.2.1.text

def syncFile (sync : Sync) (file : BucketFile) : Except Panic Sync :=
  syncObject sys file.1.text (keyOf root file) (Path.ofNames (root ++ file.1 :: file.2.1))
    file.2.2 sync >>= fun r => .ok r.2

end

/-! ## The walk file by file -/

section Effect

variable {sys : System} {root : List Name} {bucket : Name}

theorem join_ofNames (segments : List Name) (name : Name) :
    (Path.ofNames (root ++ bucket :: segments)).join (OsStr.ofStr name.text) =
      Path.ofNames (root ++ bucket :: (segments ++ [name])) := by
  simp [Path.join, Path.ofNames]

theorem syncObjects_effect (segments : List Name) (files : List (Name × FileInfo))
    (sync : Sync) :
    (syncObjects sys bucket.text (Key.decoded root bucket (segments.map Name.text))
        (Path.ofNames (root ++ bucket :: segments)) files sync >>= fun r => .ok r.2) =
      (files.map fun file => (bucket, segments, file)).foldlM (syncFile sys root) sync := by
  induction files generalizing sync with
  | nil => rfl
  | cons file files ih =>
      rw [List.map_cons, List.foldlM_cons, syncFile, syncObjects]
      simp only [bind_assoc, ok_bind]
      congr 1
      funext r
      exact ih r.2

theorem closeEntry_effect (segments : List Name) (files : List (Name × FileInfo))
    (keys : AssocMap Segment KeyEntry) (sync : Sync) :
    (closeEntry sys bucket.text (Path.ofNames (root ++ bucket :: segments)) files keys sync >>=
        fun r => .ok r.2) =
      (files.map fun file => (bucket, segments, file)).foldlM (syncFile sys root) sync := by
  rw [closeEntry, Key.fromBucket_below, ← syncObjects_effect]
  simp only [unwrap_some, bind_assoc, ok_bind]
  rfl

theorem enterKeys_effect (segments : List Name) (dir : Dir) (keys : AssocMap Segment KeyEntry)
    (sync : Sync) :
    (enterKeys sys bucket.text (Path.ofNames (root ++ bucket :: segments)) dir keys sync >>=
        fun r => .ok r.2) =
      ((Entries.filesBelow segments dir).map fun file => (bucket, file)).foldlM
        (syncFile sys root) sync := by
  induction dir using Entries.inductionOn generalizing segments keys sync with
  | nil =>
      rw [enterKeys, Entries.filesBelow]
      rfl
  | file name info rest ih =>
      rw [enterKeys, Entries.filesBelow]
      exact ih segments keys sync
  | dir name sub rest ihsub ih =>
      have hown : (Entries.files sub).map ((fun file => (bucket, file)) ∘
          fun file => (segments ++ [name], file)) =
          (Entries.files sub).map fun file => (bucket, segments ++ [name], file) := rfl
      rw [Entries.filesBelow, List.map_append, List.map_append, List.map_map, hown,
        List.foldlM_append, List.foldlM_append, ← ihsub _ [] sync, enterKeys, join_ofNames]
      simp only [bind_assoc, ok_bind]
      congr 1
      funext r
      rw [← closeEntry_effect _ _ r.1]
      simp only [bind_assoc, ok_bind]
      congr 1
      funext r'
      exact ih segments _ r'.2

theorem enter_effect (dir : Dir) (sync : Sync) :
    (enter sys bucket.text (Path.ofNames (root ++ [bucket])) dir sync >>= fun r => .ok r.2) =
      ((Entries.filesAt [] dir).map fun file => (bucket, file)).foldlM
        (syncFile sys root) sync := by
  rw [enter, Entries.filesAt, List.map_append, List.foldlM_append, ← enterKeys_effect [] dir []]
  simp only [bind_assoc, ok_bind]
  congr 1
  funext r
  rw [closeEntry_effect [], List.map_map]
  rfl

theorem enterBuckets_effect {dir : Dir} (honly : ∀ entry ∈ dir, ∃ sub, entry.2 = .dir sub)
    (inner : AssocMap Bucket KeyEntry) (sync : Sync) :
    (enterBuckets sys (Path.ofNames root) dir inner sync >>= fun r => .ok r.2) =
      (bucketFiles dir).foldlM (syncFile sys root) sync := by
  induction dir generalizing inner sync with
  | nil => rfl
  | cons entry rest ih =>
      obtain ⟨name, node⟩ := entry
      obtain ⟨sub, hsub⟩ := honly (name, node) List.mem_cons_self
      obtain rfl : node = .dir sub := hsub
      have hpath : (Path.ofNames root).join (OsStr.ofStr name.text) =
          Path.ofNames (root ++ [name]) := by
        simp [Path.join, Path.ofNames]
      rw [enterBuckets, bucketFiles, List.foldlM_append, ← enter_effect, hpath]
      simp only [bind_assoc, ok_bind]
      congr 1
      funext r
      exact ih (fun e he => honly e (List.mem_cons_of_mem _ he)) _ r.2

end Effect

/-! ## No two files share bucket, key and name -/

section Distinct

def address (root : List Name) (file : BucketFile) : Bucket × Key × Str :=
  (file.1.text, keyOf root file, file.2.2.1.text)

theorem address_inj {root : List Name} {file file' : BucketFile}
    (heq : address root file = address root file') :
    (file.1, Entries.place file.2) = (file'.1, Entries.place file'.2) := by
  obtain ⟨bucket, segments, name, info⟩ := file
  obtain ⟨bucket', segments', name', info'⟩ := file'
  simp only [address, Prod.mk.injEq, Name.text_inj] at heq
  obtain ⟨rfl, hkey, rfl⟩ := heq
  obtain rfl : segments = segments' := Key.decoded_injOn hkey
  rfl

theorem mem_bucketFiles_iff {file : BucketFile} {dir : Dir} :
    file ∈ bucketFiles dir ↔
      ∃ sub, (file.1, .dir sub) ∈ dir ∧ file.2 ∈ Entries.filesAt [] sub := by
  induction dir with
  | nil => simp [bucketFiles]
  | cons entry rest ih =>
      obtain ⟨bucket, node⟩ := entry
      cases node with
      | file info => simp [bucketFiles, ih]
      | dir sub =>
          rw [bucketFiles, List.mem_append, ih]
          constructor
          · rintro (hfirst | ⟨s, hs, hfile⟩)
            · obtain ⟨f, hf, rfl⟩ := List.mem_map.1 hfirst
              exact ⟨sub, List.mem_cons_self, hf⟩
            · exact ⟨s, List.mem_cons_of_mem _ hs, hfile⟩
          · rintro ⟨s, hs, hfile⟩
            rcases List.mem_cons.1 hs with heq | hrest
            · obtain ⟨rfl, hnode⟩ := Prod.mk.inj heq
              obtain rfl := Node.dir.inj hnode
              exact .inl (List.mem_map.2 ⟨file.2, hfile, rfl⟩)
            · exact .inr ⟨s, hrest, hfile⟩

theorem nodup_bucketFiles {dir : Dir} (hnodup : (dir.map Prod.fst).Nodup)
    (hlabels : ∀ name sub, (name, .dir sub) ∈ dir → Entries.LabelsDistinct sub) :
    ((bucketFiles dir).map fun file => (file.1, Entries.place file.2)).Nodup := by
  induction dir with
  | nil => exact List.nodup_nil
  | cons entry rest ih =>
      obtain ⟨bucket, node⟩ := entry
      obtain ⟨hbucket, htail⟩ := List.nodup_cons.1 hnodup
      have hrest := ih htail fun n s hmem => hlabels n s (List.mem_cons_of_mem _ hmem)
      cases node with
      | file info => exact hrest
      | dir sub =>
          rw [bucketFiles, List.map_append, List.map_map]
          apply List.Nodup.append _ hrest
          · intro p hfirst hlater
            obtain ⟨f, -, rfl⟩ := List.mem_map.1 hfirst
            obtain ⟨g, hg, hplace⟩ := List.mem_map.1 hlater
            obtain ⟨s, hs, -⟩ := mem_bucketFiles_iff.1 hg
            have hsame : g.1 = bucket := congrArg Prod.fst hplace
            exact hbucket (List.mem_map.2 ⟨_, hs, hsame⟩)
          · have hplaces :=
              Entries.nodup_places_filesAt (hlabels bucket sub List.mem_cons_self) []
            have hpair : (Entries.filesAt [] sub).map
                ((fun file : BucketFile => (file.1, Entries.place file.2)) ∘
                  fun file => (bucket, file)) =
                ((Entries.filesAt [] sub).map Entries.place).map (bucket, ·) := by
              rw [List.map_map]
              rfl
            rw [hpair]
            exact hplaces.map fun _ _ h => (Prod.mk.inj h).2

theorem nodup_addresses (root : List Name) {dir : Dir} (hnodup : (dir.map Prod.fst).Nodup)
    (hlabels : ∀ name sub, (name, .dir sub) ∈ dir → Entries.LabelsDistinct sub) :
    ((bucketFiles dir).map (address root)).Nodup := by
  have hplaces := nodup_bucketFiles hnodup hlabels
  rw [List.nodup_iff_pairwise_ne, List.pairwise_map] at hplaces ⊢
  exact hplaces.imp fun hne heq => hne (address_inj heq)

end Distinct

/-! ## What the rounds find -/

/-- The collection after inserts: all it had, and more under later ids. -/
def Collection.Extends (ls ls' : Collection) : Prop :=
  ls.nextId ≤ ls'.nextId ∧
    ∃ added, ls'.docs = ls.docs ++ added ∧ ∀ d ∈ added, ls.nextId ≤ d.id

theorem Collection.Extends.refl (ls : Collection) : ls.Extends ls :=
  ⟨Nat.le_refl _, [], by simp, by simp⟩

theorem Collection.Extends.trans {ls ls' ls'' : Collection} (h : ls.Extends ls')
    (h' : ls'.Extends ls'') : ls.Extends ls'' := by
  obtain ⟨hle, added, hdocs, hids⟩ := h
  obtain ⟨hle', added', hdocs', hids'⟩ := h'
  refine ⟨Nat.le_trans hle hle', added ++ added', by rw [hdocs', hdocs, List.append_assoc], ?_⟩
  intro d hd
  rcases List.mem_append.1 hd with hd | hd
  · exact hids d hd
  · exact Nat.le_trans hle (hids' d hd)

section Rounds

variable {sys : System} {root : List Name} {sync sync' : Sync} {file : BucketFile}

theorem foundDoc_isSome_iff {ls : Collection} :
    (foundDoc root ls file).isSome ↔
      ∃ d ∈ ls.docs, (d.bucket, d.key, d.object.fileName) = address root file := by
  rw [foundDoc, LocalStorage.getObjectFilename, Collection.findOne, List.find?_isSome]
  simp only [Collection.indexed, decide_eq_true_eq, address, Prod.mk.injEq]

theorem address_of_foundDoc {ls : Collection} {d : Document}
    (hfound : foundDoc root ls file = some d) :
    d ∈ ls.docs ∧ (d.bucket, d.key, d.object.fileName) = address root file := by
  obtain ⟨hmem, hbucket, hkey, hname⟩ := LocalStorage.of_getObjectFilename hfound
  exact ⟨hmem, by rw [address, hbucket, hkey, hname]⟩

theorem syncFile_found {d : Document} (hfound : foundDoc root sync.ls file = some d) :
    syncFile sys root sync file =
      .ok { sync with objectIds := sync.objectIds ++ [d.id] } := by
  rw [syncFile, syncObject]
  rw [foundDoc] at hfound
  simp only [hfound, ok_bind]

theorem syncFile_missing (hmissing : foundDoc root sync.ls file = none) :
    syncFile sys root sync file =
      let path := (Path.ofNames (root ++ file.1 :: file.2.1)).join (OsStr.ofStr file.2.2.1.text)
      Object.new (sys.now path) path file.2.2.2 .system >>= fun object =>
        .ok { sync with
          ls := (LocalStorage.newObject sync.ls file.1.text (keyOf root file) object).getD
            sync.ls } := by
  rw [syncFile, syncObject]
  rw [foundDoc] at hmissing
  simp only [hmissing, bind_assoc]
  rfl

theorem completes_syncFile_iff (sys : System) :
    Completes (syncFile sys root sync file) ↔
      (foundDoc root sync.ls file).isSome ∨ file.2.2.2.Expressible := by
  cases hfound : foundDoc root sync.ls file with
  | some d =>
      rw [syncFile_found hfound]
      simp
  | none =>
      simp only [syncFile_missing hfound, completes_bind, Option.isSome_none, Bool.false_eq_true,
        false_or]
      rw [← Object.completes_new_iff (sys.now _) (Path.ofNames (root ++ file.1 :: file.2.1))
        file.2.2.1.text file.2.2.2 .system]
      constructor
      · rintro ⟨object, hnew, -⟩
        exact ⟨object, hnew⟩
      · rintro ⟨object, hnew⟩
        exact ⟨object, hnew, completes_ok _⟩

theorem inserted_of_missing (hmissing : foundDoc root sync.ls file = none)
    (hround : syncFile sys root sync file = .ok sync') :
    sync'.objectIds = sync.objectIds ∧ sync.ls.nextId ≤ sync'.ls.nextId ∧
      ∃ added, sync'.ls.docs = sync.ls.docs ++ added ∧
        ∀ d ∈ added, sync.ls.nextId ≤ d.id ∧
          (d.bucket, d.key, d.object.fileName) = address root file := by
  rw [syncFile_missing hmissing] at hround
  obtain ⟨object, hnew, hsync⟩ := bind_eq_ok hround
  have hname : object.fileName = file.2.2.1.text := Object.fileName_of_new_join hnew
  obtain rfl := Except.ok.inj hsync
  refine ⟨rfl, ?_⟩
  rw [LocalStorage.newObject, Collection.insertOne]
  split_ifs
  · exact ⟨Nat.le_refl _, [], (List.append_nil _).symm, by simp⟩
  · refine ⟨Nat.le_succ _, _, rfl, fun d hd => ?_⟩
    obtain rfl := List.mem_singleton.1 hd
    exact ⟨Nat.le_refl _, by rw [address, ← hname]⟩

/-- A round leaves what the other files are looked up by as it was. -/
theorem foundDoc_of_syncFile (hround : syncFile sys root sync file = .ok sync')
    {other : BucketFile} (hother : address root file ≠ address root other) :
    foundDoc root sync'.ls other = foundDoc root sync.ls other := by
  cases hfound : foundDoc root sync.ls file with
  | some d =>
      rw [syncFile_found hfound] at hround
      obtain rfl := Except.ok.inj hround
      rfl
  | none =>
      obtain ⟨-, -, added, hdocs, hadded⟩ := inserted_of_missing hfound hround
      have hnone : added.find?
          (Collection.indexed other.1.text (keyOf root other) other.2.2.1.text) = none := by
        rw [List.find?_eq_none]
        intro d hd hmatch
        obtain ⟨hbucket, hkey, hname⟩ := of_decide_eq_true hmatch
        apply hother
        rw [← (hadded d hd).2, address, hbucket, hkey, hname]
      simp only [foundDoc, LocalStorage.getObjectFilename, Collection.findOne, hdocs,
        List.find?_append, hnone, Option.or_none]

theorem extends_of_syncFile (hround : syncFile sys root sync file = .ok sync') :
    sync.ls.Extends sync'.ls := by
  cases hfound : foundDoc root sync.ls file with
  | some d =>
      rw [syncFile_found hfound] at hround
      obtain rfl := Except.ok.inj hround
      exact .refl _
  | none =>
      obtain ⟨-, hnext, added, hdocs, hadded⟩ := inserted_of_missing hfound hround
      exact ⟨hnext, added, hdocs, fun d hd => (hadded d hd).1⟩

theorem objectIds_of_syncFile (hround : syncFile sys root sync file = .ok sync') :
    sync'.objectIds =
      sync.objectIds ++ ((foundDoc root sync.ls file).map Document.id).toList := by
  cases hfound : foundDoc root sync.ls file with
  | some d =>
      rw [syncFile_found hfound] at hround
      obtain rfl := Except.ok.inj hround
      rfl
  | none =>
      obtain ⟨hids, -⟩ := inserted_of_missing hfound hround
      rw [hids]
      simp

end Rounds

section Run

variable {sys : System} {root : List Name} {files : List BucketFile} {sync sync' : Sync}

/-- After the first round, the other files still find what they found before it. -/
theorem foundDoc_eq_of_nodup {file : BucketFile}
    (hdistinct : ((file :: files).map (address root)).Nodup)
    (hround : syncFile sys root sync file = .ok sync') :
    ∀ other ∈ files, foundDoc root sync'.ls other = foundDoc root sync.ls other := by
  intro other hother
  apply foundDoc_of_syncFile hround
  intro heq
  exact (List.nodup_cons.1 hdistinct).1 (List.mem_map.2 ⟨other, hother, heq.symm⟩)

/-- The walk goes through if each file has a document or an object can be made. -/
theorem completes_sync_iff (hdistinct : (files.map (address root)).Nodup) :
    Completes (files.foldlM (syncFile sys root) sync) ↔
      ∀ file ∈ files, (foundDoc root sync.ls file).isSome ∨ file.2.2.2.Expressible := by
  induction files generalizing sync with
  | nil => simp [pure, Except.pure]
  | cons file files ih =>
      rw [List.foldlM_cons, completes_bind, List.forall_mem_cons, ← completes_syncFile_iff sys]
      constructor
      · rintro ⟨sync', hround, hrest⟩
        refine ⟨⟨sync', hround⟩, fun other hother => ?_⟩
        rw [← foundDoc_eq_of_nodup hdistinct hround other hother]
        exact (ih hdistinct.of_cons).1 hrest other hother
      · rintro ⟨⟨sync', hround⟩, hrest⟩
        refine ⟨sync', hround, (ih hdistinct.of_cons).2 fun other hother => ?_⟩
        rw [foundDoc_eq_of_nodup hdistinct hround other hother]
        exact hrest other hother

theorem sync_eq_ok (hdistinct : (files.map (address root)).Nodup)
    (hrun : files.foldlM (syncFile sys root) sync = .ok sync') :
    sync.ls.Extends sync'.ls ∧
      sync'.objectIds =
        sync.objectIds ++ (files.filterMap (foundDoc root sync.ls)).map Document.id := by
  induction files generalizing sync with
  | nil =>
      obtain rfl := Except.ok.inj hrun
      exact ⟨.refl _, by simp⟩
  | cons file files ih =>
      rw [List.foldlM_cons] at hrun
      obtain ⟨next, hround, hrest⟩ := bind_eq_ok hrun
      obtain ⟨hextends, hids⟩ := ih hdistinct.of_cons hrest
      refine ⟨(extends_of_syncFile hround).trans hextends, ?_⟩
      have hsame : files.filterMap (foundDoc root next.ls) =
          files.filterMap (foundDoc root sync.ls) :=
        List.filterMap_congr (foundDoc_eq_of_nodup hdistinct hround)
      rw [hids, hsame, objectIds_of_syncFile hround, List.append_assoc, List.filterMap_cons]
      cases foundDoc root sync.ls file with
      | none => rfl
      | some d => rfl

/-- What is kept in the end are the documents found for a file. -/
theorem mem_synced_iff {ls : Collection} (hdistinct : (files.map (address root)).Nodup)
    (hrun : files.foldlM (syncFile sys root) { ls, objectIds := [] } = .ok sync')
    {d : Document} :
    d ∈ (syncObjectWithDatabase sync'.ls sync'.objectIds).docs ↔
      ∃ file ∈ files, foundDoc root ls file = some d := by
  obtain ⟨⟨-, added, hdocs, hadded⟩, hids⟩ := sync_eq_ok hdistinct hrun
  have hkept : d ∈ (syncObjectWithDatabase sync'.ls sync'.objectIds).docs ↔
      d ∈ ls.docs ++ added ∧ d.id ∈ (files.filterMap (foundDoc root ls)).map Document.id := by
    rw [syncObjectWithDatabase, Collection.deleteMany, Collection.keep, List.mem_filter, hdocs,
      hids]
    simp
  rw [hkept]
  constructor
  · rintro ⟨hd, hid⟩
    obtain ⟨d', hd', heq⟩ := List.mem_map.1 hid
    obtain ⟨file, hfile, hfound⟩ := List.mem_filterMap.1 hd'
    obtain ⟨hmem', -⟩ := address_of_foundDoc hfound
    have hlt := ls.ids_lt d' hmem'
    rcases List.mem_append.1 hd with hold | hnew
    · -- ids tell the documents of the start apart
      obtain rfl := List.inj_on_of_nodup_map ls.ids_nodup hmem' hold heq
      exact ⟨file, hfile, hfound⟩
    · have hle := hadded d hnew
      rw [← heq] at hle
      exact absurd hlt (Nat.not_lt.2 hle)
  · rintro ⟨file, hfile, hfound⟩
    obtain ⟨hmem, -⟩ := address_of_foundDoc hfound
    exact ⟨List.mem_append_left _ hmem,
      List.mem_map_of_mem (List.mem_filterMap.2 ⟨file, hfile, hfound⟩)⟩

end Run

end WsHyper.Directory
