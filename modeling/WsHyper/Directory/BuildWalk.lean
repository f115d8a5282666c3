import WsHyper.Directory.NormalForms

/-!
# The walk over the tree as it is seen

`seen` is the tree with the entries under their new names, those left out whose
rename fails, and `settled` the disk the walk leaves behind.  `enter` walks a
tree whose names are settled, with no renames and no fuel.  Building an entry is
entering what is seen: `buildKeyEntry_eq`.
-/

namespace WsHyper.Directory

open WsHyper.Lib

mutual

/-- An entry below a directory, under the name it already has. -/
def seenNode : Node Name FileInfo → Node Name FileInfo
  | .file info => .file info
  | .dir sub => .dir (seen sub)

def seen : Dir → Dir
  | [] => []
  | (name, node) :: rest =>
      match newNameOf (name, node) rest with
      | some n => (n, seenNode node) :: seen rest
      | none => seen rest

end

mutual

def settledNode : Node Name FileInfo → Node Name FileInfo
  | .file info => .file info
  | .dir sub => .dir (settled sub)

def settled : Dir → Dir
  | [] => []
  | (name, node) :: rest =>
      match newNameOf (name, node) rest with
      | some n => (n, settledNode node) :: settled rest
      | none => (name, node) :: settled rest

end

theorem mem_seen {entry : DirEntry} {dir : Dir} (hmem : entry ∈ seen dir) :
    ∃ e ∈ dir, entry.1.text = normalName e ∧ entry.2 = seenNode e.2 := by
  induction dir with
  | nil => simp [seen] at hmem
  | cons e rest ih =>
      rw [seen] at hmem
      have hlater : entry ∈ seen rest →
          ∃ e' ∈ e :: rest, entry.1.text = normalName e' ∧ entry.2 = seenNode e'.2 := by
        intro hrest
        obtain ⟨e', he', htext, hnode⟩ := ih hrest
        exact ⟨e', List.mem_cons_of_mem _ he', htext, hnode⟩
      cases hnew : newNameOf e rest with
      | none =>
          rw [hnew] at hmem
          exact hlater hmem
      | some n =>
          rw [hnew] at hmem
          rcases List.mem_cons.1 hmem with rfl | hrest
          · exact ⟨e, List.mem_cons_self, (text_of_newNameOf hnew).1, rfl⟩
          · exact hlater hrest

theorem mem_labels_settled {n : Name} {dir : Dir} (hmem : n ∈ (settled dir).map Prod.fst) :
    ∃ e ∈ dir, e.1 = n ∨ n.text = normalName e := by
  induction dir with
  | nil => simp [settled] at hmem
  | cons e rest ih =>
      rw [settled] at hmem
      have hlater : n ∈ (settled rest).map Prod.fst →
          ∃ e' ∈ e :: rest, e'.1 = n ∨ n.text = normalName e' := by
        intro hrest
        obtain ⟨e', he', h⟩ := ih hrest
        exact ⟨e', List.mem_cons_of_mem _ he', h⟩
      cases hnew : newNameOf e rest with
      | none =>
          rw [hnew] at hmem
          rcases List.mem_cons.1 hmem with rfl | hrest
          · exact ⟨e, List.mem_cons_self, .inl rfl⟩
          · exact hlater hrest
      | some m =>
          rw [hnew] at hmem
          rcases List.mem_cons.1 hmem with rfl | hrest
          · exact ⟨e, List.mem_cons_self, .inr (text_of_newNameOf hnew).1⟩
          · exact hlater hrest

theorem file_mem_settled {n : Name} {info : FileInfo} {dir : Dir}
    (hmem : (n, .file info) ∈ seen dir) : (n, .file info) ∈ settled dir := by
  induction dir with
  | nil => simp [seen] at hmem
  | cons e rest ih =>
      rw [seen] at hmem
      rw [settled]
      cases hnew : newNameOf e rest with
      | none =>
          rw [hnew] at hmem
          exact List.mem_cons_of_mem _ (ih hmem)
      | some m =>
          rw [hnew] at hmem
          rcases List.mem_cons.1 hmem with heq | hrest
          · obtain ⟨name, node⟩ := e
            cases node with
            | file info' =>
                rw [heq]
                exact List.mem_cons_self
            | dir sub => cases heq
          · exact List.mem_cons_of_mem _ (ih hrest)

theorem nodup_labels_settled {dir : Dir} (hnorm : NamesNormalisable dir) :
    ((settled dir).map Prod.fst).Nodup := by
  induction dir with
  | nil => simp [settled]
  | cons e rest ih =>
      obtain ⟨name, node⟩ := e
      -- the round of the first entry keeps it apart from all later ones
      have hapart : Apart ([] ++ [((newNameOf (name, node) rest).getD name, node)]) rest :=
        Apart.step hnorm (fun d hd => by simp at hd) node
      have hfresh : (newNameOf (name, node) rest).getD name ∉ (settled rest).map Prod.fst := by
        intro hmem
        obtain ⟨e', he', h⟩ := mem_labels_settled hmem
        obtain ⟨hname, htext⟩ := hapart _ (List.mem_singleton.2 rfl) e' he'
        rcases h with heq | heq
        · exact hname heq.symm
        · exact htext heq
      rw [settled]
      cases hnew : newNameOf (name, node) rest with
      | none =>
          rw [hnew] at hfresh
          exact List.nodup_cons.2 ⟨hfresh, ih hnorm.tail⟩
      | some n =>
          rw [hnew] at hfresh
          exact List.nodup_cons.2 ⟨hfresh, ih hnorm.tail⟩

theorem labels_seen_sublist (dir : Dir) :
    ((seen dir).map Prod.fst).Sublist ((settled dir).map Prod.fst) := by
  induction dir with
  | nil => simp [seen]
  | cons e rest ih =>
      rw [seen, settled]
      cases newNameOf e rest with
      | none => exact ih.cons e.1
      | some n => exact ih.cons_cons n

theorem labelsDistinct_seen {dir : Dir} (hnorm : Entries.Everywhere NamesNormalisable dir) :
    (seen dir).LabelsDistinct := by
  induction hnorm with
  | @intro dir hhere hinner ih =>
      refine .intro ((nodup_labels_settled hhere).sublist (labels_seen_sublist dir)) ?_
      intro n s hmem
      obtain ⟨⟨name, node⟩, he, -, hnode⟩ := mem_seen hmem
      cases node with
      | file info => cases hnode
      | dir sub =>
          obtain rfl : s = seen sub := Node.dir.inj hnode
          exact ih name sub he

theorem fileInfo_settled {dir : Dir} (hnorm : NamesNormalisable dir) :
    (((seen dir).files.map Prod.fst).map fun n => (n, Dir.fileInfo (settled dir) n)) =
      (seen dir).files := by
  rw [List.map_map]
  calc
    _ = (seen dir).files.map id := by
      apply List.map_congr_left
      rintro ⟨n, info⟩ hfile
      have hmem := file_mem_settled (Entries.mem_files_iff.1 hfile)
      rw [Function.comp_apply, Dir.fileInfo,
        AssocMap.lookup_of_mem (nodup_labels_settled hnorm) hmem]
      rfl
    _ = (seen dir).files := List.map_id _

section Walk

variable (sys : System) (bucket : Bucket)

def enterKeys : Path → Dir → AssocMap Segment KeyEntry → Sync →
    Except Panic (AssocMap Segment KeyEntry × Sync)
  | _, [], keys, sync => .ok (keys, sync)
  | path, (_, .file _) :: rest, keys, sync => enterKeys path rest keys sync
  | path, (name, .dir sub) :: rest, keys, sync => do
      let path' := path.join (OsStr.ofStr name.text)
      let (subkeys, sync) ← enterKeys path' sub [] sync
      let (entry, sync) ← closeEntry sys bucket path' (Entries.files sub) subkeys sync
      enterKeys path rest (keys.insert name.text entry) sync

def enter (path : Path) (dir : Dir) (sync : Sync) : Except Panic (KeyEntry × Sync) := do
  let (keys, sync) ← enterKeys sys bucket path dir [] sync
  closeEntry sys bucket path dir.files keys sync

theorem enterKeys_dir_cons (path : Path) (name : Name) (sub rest : Dir)
    (keys : AssocMap Segment KeyEntry) (sync : Sync) :
    enterKeys sys bucket path ((name, .dir sub) :: rest) keys sync =
      enter sys bucket (path.join (OsStr.ofStr name.text)) sub sync >>= fun r =>
        enterKeys sys bucket path rest (keys.insert name.text r.1) r.2 := by
  rw [enterKeys, enter, bind_assoc]

/-! ## The loop of the source -/

variable {sys bucket}
variable {recurse : Path → Dir → Sync → Except Panic (KeyEntry × Dir × Sync)} {path : Path}
  {done rest : Dir} {name n : Name} {objects : List Name} {keys : AssocMap Segment KeyEntry}
  {sync : Sync} {walk : Walk} {dir : Dir}

theorem Dir.set_append_cons (hdone : n ∉ done.map Prod.fst) (hrest : n ∉ rest.map Prod.fst)
    (node node' : Node Name FileInfo) :
    Dir.set (done ++ (n, node) :: rest) n node' = done ++ (n, node') :: rest := by
  rw [Dir.set, AssocMap.map_append_cons hdone hrest]

theorem visit_of_none (h : fileNameNormalize sys path walk.dir name = .ok none) :
    visit sys recurse path walk name = .ok walk := by
  rw [visit, h, ok_bind]
  rfl

theorem visit_of_file (h : fileNameNormalize sys path walk.dir name = .ok (some (dir, n)))
    (hsub : dir.subdir n = none) :
    visit sys recurse path walk name =
      .ok { walk with dir, objects := walk.objects ++ [n] } := by
  rw [visit, h, ok_bind]
  simp only [hsub]
  rfl

theorem visit_of_dir {sub : Dir}
    (h : fileNameNormalize sys path walk.dir name = .ok (some (dir, n)))
    (hsub : dir.subdir n = some sub) :
    visit sys recurse path walk name =
      recurse (path.join (OsStr.ofStr n.text)) sub walk.sync >>= fun r =>
        .ok { walk with
          dir := dir.set n (.dir r.2.1)
          keys := walk.keys.insert n.text r.1
          sync := r.2.2 } := by
  rw [visit, h, ok_bind]
  simp only [hsub]
  rfl

theorem visit_fails {node : Node Name FileInfo}
    (hnorm : NamesNormalisable ((name, node) :: rest))
    (hapart : Apart done ((name, node) :: rest)) (hnew : newNameOf (name, node) rest = none) :
    visit sys recurse path ⟨done ++ (name, node) :: rest, objects, keys, sync⟩ name =
      .ok ⟨done ++ (name, node) :: rest, objects, keys, sync⟩ := by
  apply visit_of_none
  rw [fileNameNormalize_round path hnorm hapart, hnew, Option.map_none]

theorem visit_file {info : FileInfo} (hnorm : NamesNormalisable ((name, .file info) :: rest))
    (hapart : Apart done ((name, .file info) :: rest))
    (hnew : newNameOf (name, .file info) rest = some n) :
    visit sys recurse path ⟨done ++ (name, .file info) :: rest, objects, keys, sync⟩ name =
      .ok ⟨done ++ (n, .file info) :: rest, objects ++ [n], keys, sync⟩ := by
  have hn := hapart.form_not_mem (text_of_newNameOf hnew).1
  have hnormalize : fileNameNormalize sys path (done ++ (name, .file info) :: rest) name =
      .ok (some (done ++ (n, .file info) :: rest, n)) := by
    rw [fileNameNormalize_round path hnorm hapart, hnew, Option.map_some]
  rw [visit_of_file hnormalize (Entries.subdir_append_file hn info rest)]

theorem visit_dir {sub : Dir} (hnorm : NamesNormalisable ((name, .dir sub) :: rest))
    (hapart : Apart done ((name, .dir sub) :: rest))
    (hnew : newNameOf (name, .dir sub) rest = some n) :
    visit sys recurse path ⟨done ++ (name, .dir sub) :: rest, objects, keys, sync⟩ name =
      recurse (path.join (OsStr.ofStr n.text)) sub sync >>= fun r =>
        .ok ⟨done ++ (n, .dir r.2.1) :: rest, objects, keys.insert n.text r.1, r.2.2⟩ := by
  have hn := hapart.form_not_mem (text_of_newNameOf hnew).1
  have hn' := (text_of_newNameOf hnew).2
  have hnormalize : fileNameNormalize sys path (done ++ (name, .dir sub) :: rest) name =
      .ok (some (done ++ (n, .dir sub) :: rest, n)) := by
    rw [fileNameNormalize_round path hnorm hapart, hnew, Option.map_some]
  rw [visit_of_dir hnormalize (Entries.subdir_append_dir hn sub rest)]
  simp only [Dir.set_append_cons hn hn']

/-- The loop, with its recursive calls as specified, enters the keys that are seen. -/
theorem foldlM_visit (hnorm : NamesNormalisable rest) (hapart : Apart done rest)
    (hrec : ∀ name sub, (name, .dir sub) ∈ rest → ∀ path sync,
      recurse path sub sync =
        enter sys bucket path (seen sub) sync >>= fun r => .ok (r.1, settled sub, r.2)) :
    (rest.map Prod.fst).foldlM (visit sys recurse path) ⟨done ++ rest, objects, keys, sync⟩ =
      enterKeys sys bucket path (seen rest) keys sync >>= fun r =>
        .ok ⟨done ++ settled rest, objects ++ (seen rest).files.map Prod.fst, r.1, r.2⟩ := by
  induction rest generalizing done objects keys sync with
  | nil => simp [seen, settled, enterKeys, Entries.files, pure, Except.pure]
  | cons e rest ih =>
      obtain ⟨name, node⟩ := e
      have hrec' : ∀ name sub, (name, .dir sub) ∈ rest → ∀ path sync,
          recurse path sub sync =
            enter sys bucket path (seen sub) sync >>= fun r => .ok (r.1, settled sub, r.2) :=
        fun name sub hmem => hrec name sub (List.mem_cons_of_mem _ hmem)
      have hstep := fun node' => hapart.step hnorm node'
      rw [List.map_cons, List.foldlM_cons, seen, settled]
      cases hnew : newNameOf (name, node) rest with
      | none =>
          simp only [hnew, Option.getD_none] at hstep
          rw [visit_fails hnorm hapart hnew, ok_bind, List.append_cons,
            ih hnorm.tail (hstep node) hrec']
          simp only [List.append_assoc, List.singleton_append]
      | some n =>
          simp only [hnew, Option.getD_some] at hstep
          cases node with
          | file info =>
              rw [visit_file hnorm hapart hnew, ok_bind, List.append_cons,
                ih hnorm.tail (hstep (.file info)) hrec']
              simp only [List.append_assoc, List.singleton_append, seenNode, settledNode,
                enterKeys, Entries.files, List.map_cons]
          | dir sub =>
              rw [visit_dir hnorm hapart hnew, hrec name sub List.mem_cons_self]
              simp only [seenNode, settledNode, enterKeys_dir_cons, bind_assoc, ok_bind,
                Entries.files]
              congr 1
              funext r
              rw [List.append_cons, ih hnorm.tail (hstep (.dir (settled sub))) hrec']
              simp only [List.append_assoc, List.singleton_append]

theorem buildKeyEntry_eq {fuel : Nat} {dir : Dir} (hfuel : dir.height < fuel)
    (hnorm : Entries.Everywhere NamesNormalisable dir) (path : Path) (sync : Sync) :
    buildKeyEntry sys bucket fuel path dir sync =
      enter sys bucket path (seen dir) sync >>= fun r => .ok (r.1, settled dir, r.2) := by
  induction fuel generalizing dir path sync with
  | zero => omega
  | succ fuel ih =>
      have hrec : ∀ name sub, (name, .dir sub) ∈ dir → ∀ path sync,
          buildKeyEntry sys bucket fuel path sub sync =
            enter sys bucket path (seen sub) sync >>= fun r => .ok (r.1, settled sub, r.2) := by
        intro name sub hmem
        have hheight := Entries.height_lt_of_mem hmem
        exact ih (by omega) (hnorm.inner hmem)
      have hloop : (dir.map Prod.fst).foldlM (visit sys (buildKeyEntry sys bucket fuel) path)
          ⟨[] ++ dir, [], [], sync⟩ = _ :=
        foldlM_visit hnorm.here (fun d hd => by simp at hd) hrec
      rw [List.nil_append] at hloop
      rw [buildKeyEntry, hloop, enter, bind_assoc, bind_assoc]
      simp only [ok_bind, List.nil_append, fileInfo_settled hnorm.here]
      rfl

end Walk

/-! ## The buckets -/

/-- The names of the buckets are normal forms of directories, and all different. -/
structure RootNormalised (dir : Dir) : Prop where
  names_nodup : (dir.map Prod.fst).Nodup
  normal : ∀ entry ∈ dir, NormalizePathUtf8.newName entry.1.text = entry.1.text

def seenRoot (dir : Dir) : Dir := dir.map fun entry => (entry.1, seenNode entry.2)

def settledRoot (dir : Dir) : Dir := dir.map fun entry => (entry.1, settledNode entry.2)

@[simp] theorem seenRoot_dir_cons (name : Name) (sub rest : Dir) :
    seenRoot ((name, .dir sub) :: rest) = (name, .dir (seen sub)) :: seenRoot rest := rfl

@[simp] theorem settledRoot_dir_cons (name : Name) (sub rest : Dir) :
    settledRoot ((name, .dir sub) :: rest) = (name, .dir (settled sub)) :: settledRoot rest := rfl

def enterBuckets (sys : System) (root : Path) : Dir → AssocMap Bucket KeyEntry → Sync →
    Except Panic (AssocMap Bucket KeyEntry × Sync)
  | [], inner, sync => .ok (inner, sync)
  | (_, .file _) :: _, _, _ => .error .unwrapErr
  | (name, .dir sub) :: rest, inner, sync =>
      enter sys name.text (root.join (OsStr.ofStr name.text)) sub sync >>= fun r =>
        enterBuckets sys root rest (inner.insert name.text r.1) r.2

section Buckets

variable {sys : System} {root : Path}

theorem foldlM_listBucket {rest : Dir}
    (hnormal : ∀ entry ∈ rest, NormalizePathUtf8.newName entry.1.text = entry.1.text)
    (buckets : List (Bucket × Name)) (dir : Dir) :
    (rest.map Prod.fst).foldlM (listBucket sys root) (buckets, dir) =
      .ok (buckets ++ rest.map (fun entry => (entry.1.text, entry.1)), dir) := by
  induction rest generalizing buckets with
  | nil => simp [pure, Except.pure]
  | cons entry rest ih =>
      have hname := hnormal entry List.mem_cons_self
      have hround : listBucket sys root (buckets, dir) entry.1 =
          .ok (buckets ++ [(entry.1.text, entry.1)], dir) := by
        simp only [listBucket, Path.join, NormalizePathUtf8.run_append_singleton, hname,
          if_pos entry.1.text_ne_nil, ne_eq, not_true_eq_false, if_false]
      rw [List.map_cons, List.foldlM_cons, hround, ok_bind,
        ih fun e he => hnormal e (List.mem_cons_of_mem _ he)]
      simp

theorem listBucketsAndNormalize_eq {dir : Dir} (hroot : RootNormalised dir) :
    listBucketsAndNormalize sys root dir =
      .ok (dir.map (fun entry => (entry.1.text, entry.1)), dir) := by
  rw [listBucketsAndNormalize, foldlM_listBucket hroot.normal, List.nil_append]

theorem foldlM_buildBucket {fuel : Nat} {done rest : Dir} {inner : AssocMap Bucket KeyEntry}
    {sync : Sync} (hnodup : (rest.map Prod.fst).Nodup)
    (hdone : ∀ name ∈ rest.map Prod.fst, name ∉ done.map Prod.fst)
    (hfuel : rest.height ≤ fuel)
    (hnorm : ∀ name sub, (name, .dir sub) ∈ rest → Entries.Everywhere NamesNormalisable sub) :
    (rest.map fun entry => (entry.1.text, entry.1)).foldlM (buildBucket sys root fuel)
        (inner, done ++ rest, sync) =
      enterBuckets sys root (seenRoot rest) inner sync >>= fun r =>
        .ok (r.1, done ++ settledRoot rest, r.2) := by
  induction rest generalizing done inner sync with
  | nil => rfl
  | cons entry rest ih =>
      obtain ⟨name, node⟩ := entry
      obtain ⟨hname, htail⟩ := List.nodup_cons.1 hnodup
      have hname' : name ∉ done.map Prod.fst := hdone name List.mem_cons_self
      rw [List.map_cons, List.foldlM_cons, buildBucket]
      cases node with
      | file info =>
          simp only [Entries.subdir_append_file hname']
          rfl
      | dir sub =>
          rw [Entries.height, Node.height] at hfuel
          have hdone' : ∀ n ∈ rest.map Prod.fst,
              n ∉ (done ++ [(name, Node.dir (settled sub))]).map Prod.fst := by
            intro n hn hmem
            rw [List.map_append, List.mem_append] at hmem
            rcases hmem with hold | hnew
            · exact hdone n (List.mem_cons_of_mem _ hn) hold
            · rw [List.mem_singleton.1 hnew] at hn
              exact hname hn
          simp only [Entries.subdir_append_dir hname', Dir.set_append_cons hname' hname]
          rw [buildKeyEntry_eq (by omega) (hnorm name sub List.mem_cons_self)]
          rw [seenRoot_dir_cons, settledRoot_dir_cons, enterBuckets]
          simp only [bind_assoc, ok_bind]
          congr 1
          funext r
          rw [List.append_cons, pure_bind, ih htail hdone' (by omega)
            fun n s hmem => hnorm n s (List.mem_cons_of_mem _ hmem)]
          simp only [List.append_assoc, List.singleton_append]

/-- The start-up build over buckets with normalised names. -/
theorem BucketMap.build_eq (m : BucketMap) {dir : Dir} (ls : Collection)
    (hroot : RootNormalised dir)
    (hnorm : ∀ name sub, (name, .dir sub) ∈ dir → Entries.Everywhere NamesNormalisable sub) :
    m.build sys dir ls =
      enterBuckets sys m.path (seenRoot dir) [] { ls, objectIds := [] } >>= fun r =>
        .ok ({ m with tree := r.1 }, settledRoot dir,
          syncObjectWithDatabase r.2.ls r.2.objectIds) := by
  have hloop : (dir.map fun entry => (entry.1.text, entry.1)).foldlM
      (buildBucket sys m.path dir.height) ([], [] ++ dir, { ls, objectIds := [] }) = _ :=
    foldlM_buildBucket hroot.names_nodup (by simp) (Nat.le_refl _) hnorm
  rw [List.nil_append] at hloop
  rw [build, listBucketsAndNormalize_eq hroot, ok_bind]
  simp only [hloop, bind_assoc, ok_bind, List.nil_append]
  rfl

end Buckets

end WsHyper.Directory
