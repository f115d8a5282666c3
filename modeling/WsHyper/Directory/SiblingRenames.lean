import WsHyper.Directory.BuildMirror

/-!
# Renames among siblings

`file_name_normalize` renames an entry to its normal form without looking whether a sibling
has this name already, and `rename` silently replaces a file.  The walk over a directory
renames to free names only exactly if the names under which it leaves the entries are
distinct and no entry takes the name of one that comes later.
-/

namespace WsHyper.Directory

open WsHyper.Lib

/-! ## What must not happen -/

section Runs

variable (sys : System)

/-- The name that `file_name_normalize` calls `rename` with, if it does. -/
def renameTarget (parent : Path) (dir : Dir) (name : Name) : Option Str :=
  let path := parent.join (OsStr.ofStr name.text)
  let des :=
    if (dir.subdir name).isSome then NormalizePathUtf8.run true (sys.nanoid path) path
    else NormalizeFileUtf8.run (sys.nanoid path) path
  match des with
  | .ok (.yes rename) => some rename.toName
  | _ => none

/-- In every round of the loop over a directory, a rename is to a name that no sibling has
at that time; `Inner` is what is asked of the directories that are entered. -/
def RoundsFree (recurse : Path → Dir → Sync → Except Panic (KeyEntry × Dir × Sync))
    (Inner : Path → Dir → Sync → Prop) (path : Path) : List Name → Walk → Prop
  | [], _ => True
  | name :: names, walk =>
      (∀ toName, renameTarget sys path walk.dir name = some toName →
        toName ∉ walk.dir.map fun entry => entry.1.text) ∧
      (∀ dir fileName sub, fileNameNormalize sys path walk.dir name = .ok (some (dir, fileName)) →
        dir.subdir fileName = some sub →
          Inner (path.join (OsStr.ofStr fileName.text)) sub walk.sync) ∧
      ∀ walk', visit sys recurse path walk name = .ok walk' →
        RoundsFree recurse Inner path names walk'

/-- `build_key_entry` renames to free names, in the directory and in all below. -/
def RenamesToFree (bucket : Bucket) : Nat → Path → Dir → Sync → Prop
  | 0, _, _, _ => True
  | fuel + 1, path, dir, sync =>
      RoundsFree sys (buildKeyEntry sys bucket fuel) (RenamesToFree bucket fuel) path
        (dir.map Prod.fst) { dir, objects := [], keys := [], sync }

/-- No rename is onto a sibling, and afterwards all entries are there with their contents. -/
structure LosesNoFile (bucket : Bucket) (fuel : Nat) (path : Path) (dir : Dir) (sync : Sync) :
    Prop where
  free : RenamesToFree sys bucket fuel path dir sync
  kept : ∀ entry after sync',
    buildKeyEntry sys bucket fuel path dir sync = .ok (entry, after, sync') →
      Entries.SameContents dir after ∧ after.LabelsDistinct

/-! ## Where the names come out -/

def formOf (path : Path) (entry : DirEntry) : Str :=
  let nanoid := sys.nanoid (path.join (OsStr.ofStr entry.1.text))
  match entry.2 with
  | .file _ => NormalizeFileUtf8.newName nanoid entry.1.text
  | .dir _ => NormalizePathUtf8.finalName nanoid entry.1.text

/-- The name under which an entry is left; one that no entry can have is not taken. -/
def leftAs (path : Path) (entry : DirEntry) : Name :=
  if h : IsName (formOf sys path entry) then ⟨formOf sys path entry, h⟩ else entry.1

/-- No two entries are left under one name, and none takes the name of one that comes later
in the listing; so it is in all directories that are entered. -/
inductive SettlesApart : Path → Dir → Prop
  | intro {path : Path} {dir : Dir}
      (hhere : dir.Pairwise fun entry later =>
        leftAs sys path entry ≠ later.1 ∧ leftAs sys path entry ≠ leftAs sys path later)
      (hinner : ∀ name sub, (name, .dir sub) ∈ dir → IsName (formOf sys path (name, .dir sub)) →
        SettlesApart (path.join (OsStr.ofStr (formOf sys path (name, .dir sub)))) sub) :
      SettlesApart path dir

end Runs

/-! ## One round -/

section Round

variable {sys : System} {path : Path} {done rest : Dir} {name : Name} {node : Node Name FileInfo}

theorem decision_of_lookup {dir : Dir} (hlookup : dir.lookup name = some node) :
    (if (dir.subdir name).isSome then
        NormalizePathUtf8.run true (sys.nanoid (path.join (OsStr.ofStr name.text)))
          (path.join (OsStr.ofStr name.text))
      else NormalizeFileUtf8.run (sys.nanoid (path.join (OsStr.ofStr name.text)))
        (path.join (OsStr.ofStr name.text))) =
      .ok (if name.text = formOf sys path (name, node) then .not name.text
        else .yes ⟨path, name.text, formOf sys path (name, node)⟩) := by
  cases node with
  | file info =>
      have hsubdir : dir.subdir name = none := by rw [Entries.subdir, hlookup]
      have hform : formOf sys path (name, .file info) = NormalizeFileUtf8.newName
          (sys.nanoid (path.join (OsStr.ofStr name.text))) name.text := rfl
      rw [hsubdir, Option.isSome_none, if_neg (by simp), hform]
      refine (NormalizeFileUtf8.run_append_singleton path name.text _).trans ?_
      rw [ite_not]
      split_ifs with hsame
      · rfl
      · rfl
  | dir sub =>
      have hsubdir : dir.subdir name = some sub := by rw [Entries.subdir, hlookup]
      have hform : formOf sys path (name, .dir sub) = NormalizePathUtf8.finalName
          (sys.nanoid (path.join (OsStr.ofStr name.text))) name.text := rfl
      have hrun := NormalizePathUtf8.run_new_join
        (sys.nanoid (path.join (OsStr.ofStr name.text))) path (OsStr.ofStr name.text)
      rw [OsStr.toStringLossy_ofStr] at hrun
      rw [hsubdir, Option.isSome_some, if_pos rfl, hrun name.text_ne_nil, hform]
      split_ifs with hsame
      · rfl
      · rfl

theorem renameTarget_of_lookup {dir : Dir} (hlookup : dir.lookup name = some node) :
    renameTarget sys path dir name =
      if name.text = formOf sys path (name, node) then none
      else some (formOf sys path (name, node)) := by
  rw [renameTarget]
  rw [decision_of_lookup hlookup]
  by_cases hsame : name.text = formOf sys path (name, node)
  · rw [if_pos hsame, if_pos hsame]
  · rw [if_neg hsame, if_neg hsame]

theorem fileNameNormalize_of_lookup {dir : Dir} (hlookup : dir.lookup name = some node) :
    fileNameNormalize sys path dir name =
      .ok (if name.text = formOf sys path (name, node) then some (dir, name)
        else dir.rename name (formOf sys path (name, node))) := by
  rw [fileNameNormalize]
  rw [decision_of_lookup hlookup]
  by_cases hsame : name.text = formOf sys path (name, node)
  · rw [if_pos hsame, if_pos hsame]
  · rw [if_neg hsame, if_neg hsame]

theorem leftAs_of_not_isName {entry : DirEntry} (hform : ¬IsName (formOf sys path entry)) :
    leftAs sys path entry = entry.1 := dif_neg hform

theorem text_leftAs {entry : DirEntry} (hform : IsName (formOf sys path entry)) :
    (leftAs sys path entry).text = formOf sys path entry := by
  rw [leftAs, dif_pos hform]

structure LeavesFree (sys : System) (path : Path) (done : Dir) (entry : DirEntry) (rest : Dir) :
    Prop where
  front : leftAs sys path entry ∉ done.map Prod.fst
  back : leftAs sys path entry ∉ rest.map Prod.fst

section Nodup

variable (hdone : name ∉ done.map Prod.fst) (hrest : name ∉ rest.map Prod.fst)

include hdone hrest

/-- A rename is to a free name exactly if the entry is left under one. -/
theorem leavesFree_iff :
    (∀ toName, renameTarget sys path (done ++ (name, node) :: rest) name = some toName →
        toName ∉ (done ++ (name, node) :: rest).map fun entry => entry.1.text) ↔
      LeavesFree sys path done (name, node) rest := by
  rw [renameTarget_of_lookup (AssocMap.lookup_append_cons hdone node rest)]
  by_cases hsame : name.text = formOf sys path (name, node)
  · rw [if_pos hsame]
    have hleft : leftAs sys path (name, node) = name :=
      Name.ext ((text_leftAs (hsame ▸ name.isName)).trans hsame.symm)
    exact iff_of_true (fun toName h => by cases h) ⟨by rwa [hleft], by rwa [hleft]⟩
  · rw [if_neg hsame]
    by_cases hform : IsName (formOf sys path (name, node))
    · have hmem : ∀ dir : Dir, formOf sys path (name, node) ∈ dir.map (fun entry => entry.1.text) ↔
          leftAs sys path (name, node) ∈ dir.map Prod.fst := by
        intro dir
        simp only [List.mem_map, ← text_leftAs hform, Name.text_inj]
      simp only [Option.some.injEq, forall_eq', hmem, List.map_append, List.map_cons,
        List.mem_append, List.mem_cons, Ne.symm hsame, not_or, not_false_eq_true, true_and]
      exact ⟨fun h => ⟨h.1, h.2⟩, fun h => ⟨h.front, h.back⟩⟩
    · have hleft : leftAs sys path (name, node) = name := leftAs_of_not_isName hform
      refine iff_of_true (fun toName h hmem => ?_) ⟨by rwa [hleft], by rwa [hleft]⟩
      obtain ⟨entry, -, htext⟩ := List.mem_map.1 hmem
      rw [← Option.some.inj h] at htext
      exact hform (htext ▸ entry.1.isName)

theorem fileNameNormalize_free (hfree : LeavesFree sys path done (name, node) rest) :
    fileNameNormalize sys path (done ++ (name, node) :: rest) name =
      .ok (if IsName (formOf sys path (name, node)) then
        some (done ++ (leftAs sys path (name, node), node) :: rest, leftAs sys path (name, node))
        else none) := by
  rw [fileNameNormalize_of_lookup (AssocMap.lookup_append_cons hdone node rest)]
  by_cases hform : IsName (formOf sys path (name, node))
  · rw [if_pos hform]
    have htext := text_leftAs hform
    by_cases hsame : name.text = formOf sys path (name, node)
    · rw [if_pos hsame, show leftAs sys path (name, node) = name from
        Name.ext (htext.trans hsame.symm)]
    · have hne : leftAs sys path (name, node) ≠ name := by
        intro hleft
        rw [← htext, hleft] at hsame
        exact hsame rfl
      rw [if_neg hsame, ← htext, Dir.rename_of_free hdone hrest hfree.front hfree.back hne]
  · have hsame : name.text ≠ formOf sys path (name, node) :=
      fun hsame => hform (hsame ▸ name.isName)
    rw [if_neg hsame, if_neg hform, Dir.rename_of_not_isName hform]

end Nodup

end Round

/-! ## The loop over a directory -/

section Loop

variable {sys : System} {recurse : Path → Dir → Sync → Except Panic (KeyEntry × Dir × Sync)}
  {Inner : Path → Dir → Sync → Prop} {path : Path} {done rest dir : Dir} {name n : Name}
  {node : Node Name FileInfo} {walk : Walk} {objects : List Name}
  {keys : AssocMap Segment KeyEntry} {sync : Sync}

/-- What a round makes of an entry: a directory is entered unless its rename fails. -/
inductive Becomes (sys : System)
    (recurse : Path → Dir → Sync → Except Panic (KeyEntry × Dir × Sync)) (path : Path)
    (sync : Sync) : DirEntry → Node Name FileInfo → Prop
  | file (name : Name) (info : FileInfo) :
      Becomes sys recurse path sync (name, .file info) (.file info)
  | leftOut (name : Name) (sub : Dir) (hform : ¬IsName (formOf sys path (name, .dir sub))) :
      Becomes sys recurse path sync (name, .dir sub) (.dir sub)
  | entered (name : Name) (sub sub' : Dir) (sync' : Sync) (entry : KeyEntry)
      (hform : IsName (formOf sys path (name, .dir sub)))
      (hrecurse : recurse (path.join (OsStr.ofStr (formOf sys path (name, .dir sub)))) sub sync =
        .ok (entry, sub', sync')) :
      Becomes sys recurse path sync (name, .dir sub) (.dir sub')

section Nodup

variable (hdone : name ∉ done.map Prod.fst) (hrest : name ∉ rest.map Prod.fst)
  (hfree : LeavesFree sys path done (name, node) rest)

include hdone hrest hfree

theorem visit_eq_ok {walk' : Walk}
    (h : visit sys recurse path ⟨done ++ (name, node) :: rest, objects, keys, sync⟩ name =
      .ok walk') :
    ∃ node' objects' keys' sync',
      walk' = ⟨done ++ (leftAs sys path (name, node), node') :: rest, objects', keys', sync'⟩ ∧
        Becomes sys recurse path sync (name, node) node' := by
  have hnormalize := fileNameNormalize_free hdone hrest hfree
  by_cases hform : IsName (formOf sys path (name, node))
  · rw [if_pos hform] at hnormalize
    cases node with
    | file info =>
        rw [visit_of_file hnormalize (Entries.subdir_append_file hfree.front info rest)] at h
        obtain rfl := Except.ok.inj h
        exact ⟨_, _, _, _, rfl, .file name info⟩
    | dir sub =>
        rw [visit_of_dir hnormalize (Entries.subdir_append_dir hfree.front sub rest)] at h
        obtain ⟨⟨entry, sub', sync'⟩, hrecurse, h⟩ := bind_eq_ok h
        dsimp only at h
        rw [Dir.set_append_cons hfree.front hfree.back] at h
        rw [text_leftAs hform] at hrecurse
        exact ⟨_, _, _, _, (Except.ok.inj h).symm,
          .entered name sub sub' sync' entry hform hrecurse⟩
  · rw [if_neg hform] at hnormalize
    rw [visit_of_none hnormalize] at h
    obtain rfl := Except.ok.inj h
    have hleft : leftAs sys path (name, node) = name := leftAs_of_not_isName hform
    refine ⟨node, _, _, _, by rw [hleft], ?_⟩
    cases node with
    | file info => exact .file name info
    | dir sub => exact .leftOut name sub hform

theorem forall_inner_iff :
    (∀ dir fileName sub,
        fileNameNormalize sys path (done ++ (name, node) :: rest) name =
          .ok (some (dir, fileName)) →
        dir.subdir fileName = some sub →
          Inner (path.join (OsStr.ofStr fileName.text)) sub sync) ↔
      ∀ sub, node = .dir sub → IsName (formOf sys path (name, node)) →
        Inner (path.join (OsStr.ofStr (formOf sys path (name, node)))) sub sync := by
  rw [fileNameNormalize_free hdone hrest hfree]
  by_cases hform : IsName (formOf sys path (name, node))
  · rw [if_pos hform]
    have hsub : ∀ sub, node = .dir sub ↔
        Entries.subdir (done ++ (leftAs sys path (name, node), node) :: rest)
          (leftAs sys path (name, node)) = some sub := by
      intro sub
      cases node with
      | file info => simp [Entries.subdir_append_file hfree.front]
      | dir sub' => simp [Entries.subdir_append_dir hfree.front]
    rw [← text_leftAs hform]
    constructor
    · intro hinner sub hnode _
      exact hinner _ _ sub rfl ((hsub sub).1 hnode)
    · intro hinner dir fileName sub hnormalize hfound
      obtain ⟨rfl, rfl⟩ := Prod.mk.inj (Option.some.inj (Except.ok.inj hnormalize))
      exact hinner sub ((hsub sub).2 hfound) (leftAs sys path (name, node)).isName
  · rw [if_neg hform]
    simp [hform]

end Nodup

/-- The entries still to come are left under names that are taken by none before them. -/
def ApartFrom (sys : System) (path : Path) (taken : List Name) (rest : Dir) : Prop :=
  (rest.Pairwise fun entry later =>
    leftAs sys path entry ≠ later.1 ∧ leftAs sys path entry ≠ leftAs sys path later) ∧
    ∀ entry ∈ rest, leftAs sys path entry ∉ taken

def InnerApart (sys : System) (path : Path) (rest : Dir) : Prop :=
  ∀ name sub, (name, .dir sub) ∈ rest → IsName (formOf sys path (name, .dir sub)) →
    SettlesApart sys (path.join (OsStr.ofStr (formOf sys path (name, .dir sub)))) sub

theorem settlesApart_iff :
    SettlesApart sys path dir ↔ ApartFrom sys path [] dir ∧ InnerApart sys path dir := by
  constructor
  · rintro ⟨hhere, hinner⟩
    exact ⟨⟨hhere, fun entry _ => List.not_mem_nil⟩, hinner⟩
  · rintro ⟨⟨hhere, -⟩, hinner⟩
    exact .intro hhere hinner

theorem apartFrom_cons {entry : DirEntry} (node' : Node Name FileInfo) :
    ApartFrom sys path (done.map Prod.fst) (entry :: rest) ↔
      LeavesFree sys path done entry rest ∧
        ApartFrom sys path ((done ++ [(leftAs sys path entry, node')]).map Prod.fst) rest := by
  simp only [ApartFrom, List.pairwise_cons, List.forall_mem_cons, List.map_append,
    List.map_cons, List.map_nil, List.mem_append, List.mem_singleton, not_or]
  constructor
  · rintro ⟨⟨hentry, hrest⟩, hdone, htaken⟩
    refine ⟨⟨hdone, fun hmem => ?_⟩, hrest, fun later hlater => ⟨htaken later hlater, ?_⟩⟩
    · obtain ⟨later, hlater, heq⟩ := List.mem_map.1 hmem
      exact (hentry later hlater).1 heq.symm
    · exact Ne.symm (hentry later hlater).2
  · rintro ⟨⟨hdone, hback⟩, hrest, htaken⟩
    refine ⟨⟨fun later hlater => ⟨fun heq => ?_, ?_⟩, hrest⟩, hdone, fun later hlater =>
      (htaken later hlater).1⟩
    · exact hback (List.mem_map.2 ⟨later, hlater, heq.symm⟩)
    · exact Ne.symm (htaken later hlater).2

theorem innerApart_cons :
    InnerApart sys path ((name, node) :: rest) ↔
      (∀ sub, node = .dir sub → IsName (formOf sys path (name, node)) →
        SettlesApart sys (path.join (OsStr.ofStr (formOf sys path (name, node)))) sub) ∧
        InnerApart sys path rest := by
  constructor
  · intro hinner
    refine ⟨?_, fun name' sub hmem => hinner name' sub (List.mem_cons_of_mem _ hmem)⟩
    rintro sub rfl hform
    exact hinner name sub List.mem_cons_self hform
  · rintro ⟨hentry, hrest⟩ name' sub hmem
    rcases List.mem_cons.1 hmem with heq | hmem
    · obtain ⟨rfl, rfl⟩ := Prod.mk.inj heq
      exact hentry sub rfl
    · exact hrest name' sub hmem

theorem not_mem_of_nodup (hnodup : ((done ++ (name, node) :: rest).map Prod.fst).Nodup) :
    name ∉ done.map Prod.fst ∧ name ∉ rest.map Prod.fst := by
  rw [List.map_append, List.map_cons, List.nodup_middle, List.nodup_cons, List.mem_append,
    not_or] at hnodup
  exact hnodup.1

theorem nodup_of_leavesFree (hnodup : ((done ++ (name, node) :: rest).map Prod.fst).Nodup)
    (hfree : LeavesFree sys path done (name, node) rest) (node' : Node Name FileInfo) :
    ((done ++ [(leftAs sys path (name, node), node')] ++ rest).map Prod.fst).Nodup := by
  rw [List.map_append, List.map_cons, List.nodup_middle, List.nodup_cons] at hnodup
  rw [List.append_assoc, List.singleton_append, List.map_append, List.map_cons,
    List.nodup_middle, List.nodup_cons, List.mem_append, not_or]
  exact ⟨⟨hfree.front, hfree.back⟩, hnodup.2⟩

/-- Entries that settle apart are renamed to free names. -/
theorem roundsFree_of_apart (hnodup : ((done ++ rest).map Prod.fst).Nodup)
    (hrec : ∀ name sub, (name, .dir sub) ∈ rest → ∀ path sync,
      SettlesApart sys path sub → Inner path sub sync)
    (hapart : ApartFrom sys path (done.map Prod.fst) rest) (hinner : InnerApart sys path rest) :
    RoundsFree sys recurse Inner path (rest.map Prod.fst) ⟨done ++ rest, objects, keys, sync⟩ := by
  induction rest generalizing done objects keys sync with
  | nil => trivial
  | cons entry rest ih =>
      obtain ⟨name, node⟩ := entry
      obtain ⟨hdone, hrest⟩ := not_mem_of_nodup hnodup
      have hfree := ((apartFrom_cons node).1 hapart).1
      rw [innerApart_cons] at hinner
      refine ⟨(leavesFree_iff hdone hrest).2 hfree, (forall_inner_iff hdone hrest hfree).2 ?_,
        fun walk' hvisit => ?_⟩
      · rintro sub rfl hform
        exact hrec name sub List.mem_cons_self _ sync (hinner.1 sub rfl hform)
      · obtain ⟨node', objects', keys', sync', rfl, -⟩ := visit_eq_ok hdone hrest hfree hvisit
        rw [List.append_cons]
        exact ih (nodup_of_leavesFree hnodup hfree node')
          (fun name sub hmem => hrec name sub (List.mem_cons_of_mem _ hmem))
          ((apartFrom_cons node').1 hapart).2 hinner.2

theorem apart_of_roundsFree (hnodup : ((done ++ rest).map Prod.fst).Nodup)
    (hrec : ∀ name sub, (name, .dir sub) ∈ rest → ∀ path sync result,
      recurse path sub sync = .ok result → Inner path sub sync → SettlesApart sys path sub)
    (hloop : (rest.map Prod.fst).foldlM (visit sys recurse path)
      ⟨done ++ rest, objects, keys, sync⟩ = .ok walk)
    (hrounds : RoundsFree sys recurse Inner path (rest.map Prod.fst)
      ⟨done ++ rest, objects, keys, sync⟩) :
    ApartFrom sys path (done.map Prod.fst) rest ∧ InnerApart sys path rest := by
  induction rest generalizing done objects keys sync with
  | nil => exact ⟨⟨.nil, by simp⟩, by simp [InnerApart]⟩
  | cons entry rest ih =>
      obtain ⟨name, node⟩ := entry
      obtain ⟨hdone, hrest⟩ := not_mem_of_nodup hnodup
      obtain ⟨htarget, hinner, hlater⟩ := hrounds
      have hfree := (leavesFree_iff hdone hrest).1 htarget
      rw [forall_inner_iff hdone hrest hfree] at hinner
      rw [List.map_cons, List.foldlM_cons] at hloop
      obtain ⟨walk', hvisit, hloop⟩ := bind_eq_ok hloop
      have hround := hlater walk' hvisit
      obtain ⟨node', objects', keys', sync', rfl, hbecomes⟩ :=
        visit_eq_ok hdone hrest hfree hvisit
      rw [List.append_cons] at hloop hround
      obtain ⟨hapart, hin⟩ := ih (nodup_of_leavesFree hnodup hfree node')
        (fun name sub hmem => hrec name sub (List.mem_cons_of_mem _ hmem)) hloop hround
      refine ⟨(apartFrom_cons node').2 ⟨hfree, hapart⟩, innerApart_cons.2 ⟨?_, hin⟩⟩
      rintro sub rfl hform
      cases hbecomes with
      | leftOut _ _ hform' => exact absurd hform hform'
      | entered _ _ sub' sync' entry _ hrecurse =>
          exact hrec name sub List.mem_cons_self _ sync _ hrecurse (hinner sub rfl hform)

theorem Becomes.keeps {node' : Node Name FileInfo} {rest' : Dir}
    (hbecomes : Becomes sys recurse path sync (name, node) node')
    (hdistinct : ∀ sub, node = .dir sub → Entries.LabelsDistinct sub)
    (hrec : ∀ sub, node = .dir sub → IsName (formOf sys path (name, node)) →
      ∀ entry after sync',
        recurse (path.join (OsStr.ofStr (formOf sys path (name, node)))) sub sync =
          .ok (entry, after, sync') →
        Entries.SameContents sub after ∧ Entries.LabelsDistinct after)
    (hsame : Entries.SameContents rest rest') (name' : Name) :
    Entries.SameContents ((name, node) :: rest) ((name', node') :: rest') ∧
      ∀ sub, node' = .dir sub → Entries.LabelsDistinct sub := by
  cases hbecomes with
  | file _ info => exact ⟨.file _ _ info hsame, by simp⟩
  | leftOut _ sub _ =>
      refine ⟨.dir _ _ (.refl sub) hsame, ?_⟩
      rintro sub' heq
      obtain rfl := Node.dir.inj heq
      exact hdistinct sub rfl
  | entered _ sub sub' sync' entry hform hrecurse =>
      obtain ⟨hsub, hsub'⟩ := hrec sub rfl hform entry sub' sync' hrecurse
      refine ⟨.dir _ _ hsub hsame, ?_⟩
      rintro sub'' heq
      obtain rfl := Node.dir.inj heq
      exact hsub'

/-- A loop over entries that settle apart keeps every one with its contents. -/
theorem kept_of_apart (hnodup : ((done ++ rest).map Prod.fst).Nodup)
    (hdistinct : ∀ name sub, (name, .dir sub) ∈ rest → Entries.LabelsDistinct sub)
    (hrec : ∀ name sub, (name, .dir sub) ∈ rest → ∀ path sync entry after sync',
      recurse path sub sync = .ok (entry, after, sync') → SettlesApart sys path sub →
        Entries.SameContents sub after ∧ Entries.LabelsDistinct after)
    (hloop : (rest.map Prod.fst).foldlM (visit sys recurse path)
      ⟨done ++ rest, objects, keys, sync⟩ = .ok walk)
    (hapart : ApartFrom sys path (done.map Prod.fst) rest) (hinner : InnerApart sys path rest) :
    ∃ rest', walk.dir = done ++ rest' ∧ Entries.SameContents rest rest' ∧
      ((done ++ rest').map Prod.fst).Nodup ∧
        ∀ name sub, (name, .dir sub) ∈ rest' → Entries.LabelsDistinct sub := by
  induction rest generalizing done objects keys sync with
  | nil =>
      obtain rfl := Except.ok.inj hloop
      exact ⟨[], rfl, .nil, hnodup, by simp⟩
  | cons entry rest ih =>
      obtain ⟨name, node⟩ := entry
      obtain ⟨hdone, hrest⟩ := not_mem_of_nodup hnodup
      have hfree := ((apartFrom_cons node).1 hapart).1
      rw [innerApart_cons] at hinner
      rw [List.map_cons, List.foldlM_cons] at hloop
      obtain ⟨walk', hvisit, hloop⟩ := bind_eq_ok hloop
      obtain ⟨node', objects', keys', sync', rfl, hbecomes⟩ :=
        visit_eq_ok hdone hrest hfree hvisit
      rw [List.append_cons] at hloop
      obtain ⟨rest', hwalk, hsame, hnodup', hdistinct'⟩ := ih
        (nodup_of_leavesFree hnodup hfree node')
        (fun name sub hmem => hdistinct name sub (List.mem_cons_of_mem _ hmem))
        (fun name sub hmem => hrec name sub (List.mem_cons_of_mem _ hmem)) hloop
        ((apartFrom_cons node').1 hapart).2 hinner.2
      rw [List.append_assoc, List.singleton_append] at hwalk hnodup'
      have hdistinct₁ : ∀ sub, node = .dir sub → Entries.LabelsDistinct sub := by
        rintro sub rfl
        exact hdistinct name sub List.mem_cons_self
      have hnode := hbecomes.keeps hdistinct₁
        (by
          rintro sub rfl hform entry after sync' hrecurse
          exact hrec name sub List.mem_cons_self _ sync entry after sync' hrecurse
            (hinner.1 sub rfl hform))
        hsame (leftAs sys path (name, node))
      refine ⟨_, hwalk, hnode.1, hnodup', fun name' sub hmem => ?_⟩
      rcases List.mem_cons.1 hmem with heq | hmem
      · exact hnode.2 sub (Prod.mk.inj heq).2.symm
      · exact hdistinct' name' sub hmem

end Loop

/-! ## The whole walk -/

section Pass

variable {sys : System} {bucket : Bucket} {fuel : Nat} {path : Path} {dir : Dir} {sync : Sync}

theorem buildKeyEntry_eq_ok {entry : KeyEntry} {after : Dir} {sync' : Sync}
    (hpass : buildKeyEntry sys bucket (fuel + 1) path dir sync = .ok (entry, after, sync')) :
    ∃ walk, (dir.map Prod.fst).foldlM (visit sys (buildKeyEntry sys bucket fuel) path)
      ⟨dir, [], [], sync⟩ = .ok walk ∧ after = walk.dir := by
  rw [buildKeyEntry] at hpass
  obtain ⟨walk, hloop, hpass⟩ := bind_eq_ok hpass
  obtain ⟨⟨entry', sync₁⟩, -, hpass⟩ := bind_eq_ok hpass
  obtain ⟨-, hrest⟩ := Prod.mk.inj (Except.ok.inj hpass)
  exact ⟨walk, hloop, (Prod.mk.inj hrest).1.symm⟩

theorem renamesToFree_of_settlesApart (hdistinct : dir.LabelsDistinct)
    (hapart : SettlesApart sys path dir) : RenamesToFree sys bucket fuel path dir sync := by
  induction fuel generalizing path dir sync with
  | zero => trivial
  | succ fuel ih =>
      obtain ⟨hhere, hinner⟩ := settlesApart_iff.1 hapart
      have hnodup : (([] ++ dir : Dir).map Prod.fst).Nodup := hdistinct.here
      exact roundsFree_of_apart hnodup
        (fun name sub hmem path sync hsub => ih (hdistinct.inner hmem) hsub) hhere hinner

theorem settlesApart_of_renamesToFree {result : KeyEntry × Dir × Sync}
    (hdistinct : dir.LabelsDistinct)
    (hpass : buildKeyEntry sys bucket fuel path dir sync = .ok result)
    (hfree : RenamesToFree sys bucket fuel path dir sync) : SettlesApart sys path dir := by
  induction fuel generalizing path dir sync result with
  | zero => cases hpass
  | succ fuel ih =>
      obtain ⟨walk, hloop, -⟩ := buildKeyEntry_eq_ok hpass
      have hnodup : (([] ++ dir : Dir).map Prod.fst).Nodup := hdistinct.here
      exact settlesApart_iff.2 (apart_of_roundsFree hnodup
        (fun name sub hmem path sync result hsub hfree => ih (hdistinct.inner hmem) hsub hfree)
        hloop hfree)

theorem sameContents_of_settlesApart {entry : KeyEntry} {after : Dir} {sync' : Sync}
    (hdistinct : dir.LabelsDistinct)
    (hpass : buildKeyEntry sys bucket fuel path dir sync = .ok (entry, after, sync'))
    (hapart : SettlesApart sys path dir) : dir.SameContents after ∧ after.LabelsDistinct := by
  induction fuel generalizing path dir sync entry after sync' with
  | zero => cases hpass
  | succ fuel ih =>
      obtain ⟨walk, hloop, rfl⟩ := buildKeyEntry_eq_ok hpass
      obtain ⟨hhere, hinner⟩ := settlesApart_iff.1 hapart
      have hhere' : (([] ++ dir : Dir).map Prod.fst).Nodup := hdistinct.here
      obtain ⟨rest', hwalk, hsame, hnodup, hdistinct'⟩ := kept_of_apart hhere'
        (fun name sub hmem => hdistinct.inner hmem)
        (fun name sub hmem path sync entry after sync' hsub happart =>
          ih (hdistinct.inner hmem) hsub happart) hloop hhere hinner
      rw [hwalk]
      exact ⟨hsame, .intro hnodup hdistinct'⟩

/-- A walk over a directory whose names settle apart keeps every file, and of those that
come to their end no other does. -/
theorem losesNoFile_iff (sys : System) (bucket : Bucket) (fuel : Nat) (path : Path) (dir : Dir)
    (sync : Sync) (hdistinct : dir.LabelsDistinct) :
    (SettlesApart sys path dir → LosesNoFile sys bucket fuel path dir sync) ∧
      (Completes (buildKeyEntry sys bucket fuel path dir sync) →
        (LosesNoFile sys bucket fuel path dir sync ↔ SettlesApart sys path dir)) := by
  have hkeeps : SettlesApart sys path dir → LosesNoFile sys bucket fuel path dir sync := by
    intro hapart
    exact ⟨renamesToFree_of_settlesApart hdistinct hapart, fun entry after sync' hpass =>
      sameContents_of_settlesApart hdistinct hpass hapart⟩
  refine ⟨hkeeps, fun ⟨result, hpass⟩ => ⟨fun hloses => ?_, hkeeps⟩⟩
  exact settlesApart_of_renamesToFree hdistinct hpass hloses.free

theorem isName_q : IsName ['q'] := by decide

theorem isName_dash_q : IsName ['-', 'q'] := by decide

theorem isName_dash_r : IsName ['-', 'r'] := by decide

/-- The files `-q` and `-r` are kept as `q` and `r`. -/
theorem dash_q_dash_r_kept :
    LosesNoFile .still ['b'] 1 [OsStr.ofStr ['b']]
      [(⟨['-', 'q'], isName_dash_q⟩, .file ⟨none, none⟩),
        (⟨['-', 'r'], isName_dash_r⟩, .file ⟨none, none⟩)] ⟨.empty, []⟩ := by
  refine (losesNoFile_iff .still ['b'] 1 _ _ _ (.intro (by decide) (by simp))).1
    (.intro (by decide) (by simp))

/-- The file `-q` takes the place of `q`, whose contents are gone. -/
theorem q_replaced :
    (∃ entry sync', buildKeyEntry .still ['b'] 1 [OsStr.ofStr ['b']]
        [(⟨['-', 'q'], isName_dash_q⟩, .file ⟨none, some ['1']⟩),
          (⟨['q'], isName_q⟩, .file ⟨none, some ['2']⟩)] ⟨.empty, []⟩ =
        .ok (entry, [(⟨['q'], isName_q⟩, .file ⟨none, some ['1']⟩)], sync')) ∧
      ¬LosesNoFile .still ['b'] 1 [OsStr.ofStr ['b']]
        [(⟨['-', 'q'], isName_dash_q⟩, .file ⟨none, some ['1']⟩),
          (⟨['q'], isName_q⟩, .file ⟨none, some ['2']⟩)] ⟨.empty, []⟩ := by
  have hpass : ∃ entry sync', buildKeyEntry .still ['b'] 1 [OsStr.ofStr ['b']]
      [(⟨['-', 'q'], isName_dash_q⟩, .file ⟨none, some ['1']⟩),
        (⟨['q'], isName_q⟩, .file ⟨none, some ['2']⟩)] ⟨.empty, []⟩ =
      .ok (entry, [(⟨['q'], isName_q⟩, .file ⟨none, some ['1']⟩)], sync') := ⟨_, _, rfl⟩
  refine ⟨hpass, fun hloses => ?_⟩
  obtain ⟨entry, sync', hpass⟩ := hpass
  have hlength := (hloses.kept entry _ sync' hpass).1.length_eq
  cases hlength

end Pass

end WsHyper.Directory
