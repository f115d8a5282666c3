import WsHyper.Directory.BuildWalk

/-!
# The listing of the buckets

`list_buckets_and_normalize` gives every entry of the root as a bucket, plain files as
well, with the path the entry had before it was renamed.  What `build` then opens is there
exactly if all entries are directories that need no other name.
-/

namespace WsHyper.Directory

open WsHyper.Lib

/-- After the listing every bucket is an existing directory at `root/bucket`, and so it is
when `build` comes to it and opens its path. -/
structure PointsAtDisk (sys : System) (root : Path) (dir : Dir) (ls : Collection) : Prop where
  listed : ∀ buckets after, listBucketsAndNormalize sys root dir = .ok (buckets, after) →
    ∀ bucket ∈ buckets, root.join (.ofStr bucket.2.text) = root.join (.ofStr bucket.1) ∧
      (after.subdir bucket.2).isSome
  opened : ∀ buckets after, listBucketsAndNormalize sys root dir = .ok (buckets, after) →
    ∀ front bucket back, buckets = front ++ bucket :: back →
      ∀ inner current sync,
        front.foldlM (buildBucket sys root dir.height) ([], after, { ls, objectIds := [] }) =
            .ok (inner, current, sync) →
          (current.subdir bucket.2).isSome

/-- All entries are directories under normal names. -/
def OnlyNormalBuckets (dir : Dir) : Prop :=
  ∀ name ∈ dir.map Prod.fst,
    NormalizePathUtf8.newName name.text = name.text ∧ (dir.subdir name).isSome

instance (dir : Dir) : Decidable (OnlyNormalBuckets dir) :=
  inferInstanceAs (Decidable (∀ name ∈ dir.map Prod.fst, _ ∧ _))

section Listing

variable (sys : System) (root : Path)

def listedBucket (name : Name) : Bucket :=
  NormalizePathUtf8.finalName (sys.nanoid (root.join (.ofStr name.text))) name.text

theorem exists_listBucket (acc : List (Bucket × Name) × Dir) (name : Name) :
    ∃ after, listBucket sys root acc name =
      .ok (acc.1 ++ [(listedBucket sys root name, name)], after) := by
  have hne : (OsStr.ofStr name.text).toStringLossy ≠ [] := by
    rw [OsStr.toStringLossy_ofStr]
    exact name.text_ne_nil
  rw [listBucket, listedBucket, NormalizePathUtf8.run_new_join _ _ _ hne,
    OsStr.toStringLossy_ofStr]
  split_ifs with hname
  · rw [← hname]
    exact ⟨_, rfl⟩
  · exact ⟨_, rfl⟩

theorem exists_foldlM_listBucket (names : List Name) (acc : List (Bucket × Name) × Dir) :
    ∃ after, names.foldlM (listBucket sys root) acc =
      .ok (acc.1 ++ names.map (fun name => (listedBucket sys root name, name)), after) := by
  induction names generalizing acc with
  | nil => exact ⟨acc.2, by rw [List.map_nil, List.append_nil]; rfl⟩
  | cons name names ih =>
      obtain ⟨first, hfirst⟩ := exists_listBucket sys root acc name
      obtain ⟨after, hrest⟩ := ih (acc.1 ++ [(listedBucket sys root name, name)], first)
      refine ⟨after, ?_⟩
      rw [List.foldlM_cons, hfirst, ok_bind, hrest]
      simp

variable {sys root}

end Listing

/-! ## What the loop of `build` opens -/

theorem isSome_subdir_set {dir : Dir} {other : Name} (hother : (dir.subdir other).isSome)
    (name : Name) (sub : Dir) : ((dir.set name (.dir sub)).subdir other).isSome := by
  induction dir with
  | nil => exact hother
  | cons entry dir ih =>
      obtain ⟨label, node⟩ := entry
      rw [Dir.set, List.map_cons, ← Dir.set]
      by_cases hlabel : label = name
      · rw [if_pos hlabel, Entries.subdir_dir_cons]
        split_ifs with hname
        · rfl
        · refine ih ?_
          cases node <;> simpa [hlabel, hname] using hother
      · rw [if_neg hlabel]
        cases node with
        | file info =>
            rw [Entries.subdir_file_cons] at hother ⊢
            split_ifs at hother ⊢ with hname
            · cases hother
            · exact ih hother
        | dir entries =>
            rw [Entries.subdir_dir_cons] at hother ⊢
            split_ifs at hother ⊢ with hname
            · rfl
            · exact ih hother

section Opening

variable {sys : System} {root : Path} {dir : Dir} {ls : Collection}

theorem isSome_subdir_of_buildBucket {fuel : Nat} {acc acc' : AssocMap Bucket KeyEntry × Dir × Sync}
    {bucket : Bucket × Name} {other : Name} (hother : (acc.2.1.subdir other).isSome)
    (hbuild : buildBucket sys root fuel acc bucket = .ok acc') :
    (acc'.2.1.subdir other).isSome := by
  rw [buildBucket] at hbuild
  dsimp only at hbuild
  cases hsub : acc.2.1.subdir bucket.2 with
  | none => simp [hsub] at hbuild
  | some sub =>
      rw [hsub] at hbuild
      obtain ⟨⟨entry, sub', sync⟩, -, hresult⟩ := bind_eq_ok hbuild
      obtain rfl := Except.ok.inj hresult
      exact isSome_subdir_set hother bucket.2 sub'

/-- A directory that the listing has left is there at every round of `build`. -/
theorem isSome_subdir_of_foldlM {fuel : Nat} {buckets : List (Bucket × Name)} {other : Name}
    {acc acc' : AssocMap Bucket KeyEntry × Dir × Sync} (hother : (acc.2.1.subdir other).isSome)
    (hbuild : buckets.foldlM (buildBucket sys root fuel) acc = .ok acc') :
    (acc'.2.1.subdir other).isSome :=
  foldlM_keeps (I := fun acc => (acc.2.1.subdir other).isSome)
    (fun _ _ _ hacc hround => isSome_subdir_of_buildBucket hacc hround) hother hbuild

theorem listBucketsAndNormalize_of_only (honly : OnlyNormalBuckets dir) :
    listBucketsAndNormalize sys root dir =
      .ok (dir.map (fun entry => (entry.1.text, entry.1)), dir) := by
  rw [listBucketsAndNormalize, foldlM_listBucket, List.nil_append]
  intro entry hentry
  exact (honly entry.1 (List.mem_map.2 ⟨entry, hentry, rfl⟩)).1

/-- The listing points at what is on disk exactly if the root holds nothing but directories
under normal names. -/
theorem pointsAtDisk_iff (sys : System) (root : Path) (dir : Dir) (ls : Collection) :
    PointsAtDisk sys root dir ls ↔ OnlyNormalBuckets dir := by
  constructor
  · intro hpoints
    have hnormal : ∀ name ∈ dir.map Prod.fst,
        NormalizePathUtf8.newName name.text = name.text := by
      intro name hname
      obtain ⟨after, hlist⟩ := exists_foldlM_listBucket sys root (dir.map Prod.fst) ([], dir)
      have hmem := List.mem_map_of_mem
        (f := fun name => (listedBucket sys root name, name)) hname
      have hpath := (hpoints.listed _ _ hlist _ (List.mem_append_right _ hmem)).1
      rw [Path.join, Path.join, List.append_cancel_left_eq, List.singleton_inj,
        OsStr.ofStr_injective.eq_iff] at hpath
      exact (finalName_eq_self_iff name.text_ne_nil).1 hpath.symm
    have hlist : listBucketsAndNormalize sys root dir = _ :=
      foldlM_listBucket (fun entry hentry => hnormal _ (List.mem_map.2 ⟨entry, hentry, rfl⟩)) _ _
    refine fun name hname => ⟨hnormal name hname, ?_⟩
    obtain ⟨entry, hentry, rfl⟩ := List.mem_map.1 hname
    exact (hpoints.listed _ _ hlist _
      (List.mem_append_right _ (List.mem_map.2 ⟨entry, hentry, rfl⟩))).2
  · intro honly
    have hlist : ∀ buckets after, listBucketsAndNormalize sys root dir = .ok (buckets, after) →
        buckets = dir.map (fun entry => (entry.1.text, entry.1)) ∧ after = dir := by
      intro buckets after heq
      rw [listBucketsAndNormalize_of_only honly] at heq
      obtain ⟨hbuckets, hafter⟩ := Prod.ext_iff.1 (Except.ok.inj heq)
      exact ⟨hbuckets.symm, hafter.symm⟩
    have hthere : ∀ bucket ∈ dir.map (fun entry => (entry.1.text, entry.1)),
        bucket.1 = bucket.2.text ∧ (dir.subdir bucket.2).isSome := by
      intro bucket hbucket
      obtain ⟨entry, hentry, rfl⟩ := List.mem_map.1 hbucket
      exact ⟨rfl, (honly entry.1 (List.mem_map.2 ⟨entry, hentry, rfl⟩)).2⟩
    refine ⟨fun buckets after heq bucket hbucket => ?_, ?_⟩
    · obtain ⟨rfl, rfl⟩ := hlist buckets after heq
      obtain ⟨hname, hdir⟩ := hthere bucket hbucket
      rw [hname]
      exact ⟨rfl, hdir⟩
    · intro buckets after heq front bucket back hbuckets inner current sync hbuild
      obtain ⟨rfl, rfl⟩ := hlist buckets after heq
      have hmem := hbuckets ▸ List.mem_append_right front (List.mem_cons_self (l := back))
      exact isSome_subdir_of_foldlM (hthere bucket hmem).2 hbuild

theorem isName_f : IsName ['f'] := by decide

/-- The root `/` with the plain file `f`: it is listed as a bucket and opened. -/
theorem file_not_opened :
    ¬PointsAtDisk ⟨fun _ => .epoch, fun _ => [], fun _ => 0⟩ []
      [(⟨['f'], isName_f⟩, .file ⟨none, none⟩)] .empty := by
  intro hpoints
  have hopened := (hpoints.listed _ _ rfl (['f'], ⟨['f'], isName_f⟩) (by decide)).2
  exact absurd hopened (by decide)

end Opening

end WsHyper.Directory
