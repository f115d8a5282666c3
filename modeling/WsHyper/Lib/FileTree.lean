import WsHyper.Lib.AssocMap
import Mathlib.Data.List.Nodup

/-!
# Trees of files

The entries of a directory, each under its label, are files with their data or
directories again.  `dirAt` follows a path of labels and `filesAt` lists every
file with the path of its directory, the files of a directory after those of the
directories in it.  Where the labels of every directory are distinct, the listing
holds exactly what the paths lead to, each once.
-/

namespace WsHyper.Lib

inductive Node (κ α : Type)
  | file (info : α)
  | dir (entries : List (κ × Node κ α))

abbrev Entries (κ α : Type) := List (κ × Node κ α)

variable {κ α : Type}

/-! ## How many directories lie inside each other -/

mutual

def Node.height : Node κ α → Nat
  | .file _ => 0
  | .dir entries => Entries.height entries + 1

def Entries.height : Entries κ α → Nat
  | [] => 0
  | (_, node) :: entries => max (Node.height node) (Entries.height entries)

end

namespace Entries

def files : Entries κ α → List (κ × α)
  | [] => []
  | (name, .file info) :: entries => (name, info) :: files entries
  | (_, .dir _) :: entries => files entries

def filesBelow (path : List κ) : Entries κ α → List (List κ × κ × α)
  | [] => []
  | (_, .file _) :: entries => filesBelow path entries
  | (name, .dir sub) :: entries =>
      filesBelow (path ++ [name]) sub ++
        (files sub).map (fun file => (path ++ [name], file)) ++ filesBelow path entries

def filesAt (path : List κ) (entries : Entries κ α) : List (List κ × κ × α) :=
  filesBelow path entries ++ entries.files.map fun file => (path, file)

/-- Proof by induction over a directory and all below it. -/
theorem inductionOn {P : Entries κ α → Prop} (entries : Entries κ α) (nil : P [])
    (file : ∀ name info rest, P rest → P ((name, .file info) :: rest))
    (dir : ∀ name sub rest, P sub → P rest → P ((name, .dir sub) :: rest)) : P entries :=
  match entries with
  | [] => nil
  | (name, .file info) :: rest => file name info rest (inductionOn rest nil file dir)
  | (name, .dir sub) :: rest =>
      dir name sub rest (inductionOn sub nil file dir) (inductionOn rest nil file dir)

/-- The same files and directories in the same order, under whatever labels. -/
inductive SameContents : Entries κ α → Entries κ α → Prop
  | nil : SameContents [] []
  | file (name name' : κ) (info : α) {rest rest' : Entries κ α}
      (hrest : SameContents rest rest') :
      SameContents ((name, .file info) :: rest) ((name', .file info) :: rest')
  | dir (name name' : κ) {sub sub' rest rest' : Entries κ α} (hsub : SameContents sub sub')
      (hrest : SameContents rest rest') :
      SameContents ((name, .dir sub) :: rest) ((name', .dir sub') :: rest')

theorem SameContents.refl (entries : Entries κ α) : SameContents entries entries := by
  induction entries using inductionOn with
  | nil => exact .nil
  | file name info rest ih => exact .file name name info ih
  | dir name sub rest ihsub ihrest => exact .dir name name ihsub ihrest

theorem SameContents.length_eq {entries entries' : Entries κ α}
    (h : SameContents entries entries') : entries.length = entries'.length := by
  induction h with
  | nil => rfl
  | file name name' info _ ih => simp [ih]
  | dir name name' _ _ _ ih => simp [ih]

section Lookup

variable [DecidableEq κ]

def subdir (entries : Entries κ α) (name : κ) : Option (Entries κ α) :=
  match entries.lookup name with
  | some (.dir sub) => some sub
  | _ => none

def dirAt (entries : Entries κ α) : List κ → Option (Entries κ α)
  | [] => some entries
  | name :: path => (entries.subdir name).bind fun sub => dirAt sub path

end Lookup

/-- `P` holds of the directory and of every one below. -/
inductive Everywhere (P : Entries κ α → Prop) : Entries κ α → Prop
  | intro {entries : Entries κ α} (hhere : P entries)
      (hinner : ∀ name sub, (name, .dir sub) ∈ entries → Everywhere P sub) :
      Everywhere P entries

theorem Everywhere.here {P : Entries κ α → Prop} {entries : Entries κ α}
    (h : Everywhere P entries) : P entries := by
  cases h
  assumption

theorem Everywhere.inner {P : Entries κ α → Prop} {entries : Entries κ α}
    (h : Everywhere P entries) {name : κ} {sub : Entries κ α}
    (hmem : (name, .dir sub) ∈ entries) : Everywhere P sub := by
  cases h with
  | intro _ hinner => exact hinner name sub hmem

theorem Everywhere.mono {P Q : Entries κ α → Prop} (hPQ : ∀ entries, P entries → Q entries)
    {entries : Entries κ α} (h : Everywhere P entries) : Everywhere Q entries := by
  induction h with
  | intro hhere _ ih => exact .intro (hPQ _ hhere) ih

theorem Everywhere.singleton_dir {P : Entries κ α → Prop} {name : κ} {sub : Entries κ α}
    (hhere : P [(name, .dir sub)]) (hsub : Everywhere P sub) :
    Everywhere P [(name, .dir sub)] := by
  apply Everywhere.intro hhere
  intro name' sub' hmem
  obtain ⟨rfl, hnode⟩ := Prod.mk.inj (List.mem_singleton.1 hmem)
  obtain rfl := Node.dir.inj hnode
  exact hsub

theorem Everywhere.tail {P : Entries κ α → Prop}
    (hP : ∀ entry entries, P (entry :: entries) → P entries) {entry : κ × Node κ α}
    {entries : Entries κ α} (h : Everywhere P (entry :: entries)) : Everywhere P entries :=
  .intro (hP entry entries h.here) fun _ _ hmem => h.inner (List.mem_cons_of_mem _ hmem)

theorem height_lt_of_mem {entries : Entries κ α} {name : κ} {sub : Entries κ α}
    (hmem : (name, .dir sub) ∈ entries) : height sub < height entries := by
  induction entries with
  | nil => simp at hmem
  | cons entry entries ih =>
      obtain ⟨n, node⟩ := entry
      rcases List.mem_cons.1 hmem with heq | htail
      · obtain ⟨rfl, rfl⟩ := Prod.mk.inj heq
        rw [height, Node.height]
        omega
      · have hlt := ih htail
        rw [height]
        omega

theorem mem_files_iff {entries : Entries κ α} {name : κ} {info : α} :
    (name, info) ∈ files entries ↔ (name, .file info) ∈ entries := by
  induction entries with
  | nil => simp [files]
  | cons entry entries ih =>
      obtain ⟨n, node⟩ := entry
      cases node with
      | file i => simp [files, ih]
      | dir sub => simp [files, ih]

/-- No two entries of a directory under one label, in no directory. -/
abbrev LabelsDistinct : Entries κ α → Prop :=
  Everywhere fun entries => (entries.map Prod.fst).Nodup

theorem LabelsDistinct.tail {entry : κ × Node κ α} {entries : Entries κ α}
    (h : LabelsDistinct (entry :: entries)) : LabelsDistinct entries :=
  Everywhere.tail (fun _ _ hnodup => hnodup.of_cons) h

section Lookup

variable [DecidableEq κ] {entries : Entries κ α}

@[simp] theorem subdir_file_cons (name other : κ) (info : α) :
    subdir ((name, .file info) :: entries) other =
      if name = other then none else subdir entries other := by
  rw [subdir, AssocMap.lookup_cons_eq]
  split_ifs with hname
  · rfl
  · rfl

@[simp] theorem subdir_dir_cons (name other : κ) (sub : Entries κ α) :
    subdir ((name, .dir sub) :: entries) other =
      if name = other then some sub else subdir entries other := by
  rw [subdir, AssocMap.lookup_cons_eq]
  split_ifs with hname
  · rfl
  · rfl

theorem subdir_append_file {front : Entries κ α} {name : κ} (hname : name ∉ front.map Prod.fst)
    (info : α) (back : Entries κ α) :
    subdir (front ++ (name, .file info) :: back) name = none := by
  rw [subdir, AssocMap.lookup_append_cons hname]

theorem subdir_append_dir {front : Entries κ α} {name : κ} (hname : name ∉ front.map Prod.fst)
    (sub back : Entries κ α) :
    subdir (front ++ (name, .dir sub) :: back) name = some sub := by
  rw [subdir, AssocMap.lookup_append_cons hname]

theorem subdir_eq_none_of_not_mem {name : κ} (hname : name ∉ entries.map Prod.fst) :
    entries.subdir name = none := by
  rw [subdir, AssocMap.lookup_eq_none_of_not_mem hname]

theorem mem_of_subdir {name : κ} {sub : Entries κ α} (hsub : entries.subdir name = some sub) :
    (name, .dir sub) ∈ entries := by
  rw [subdir] at hsub
  split at hsub
  · next hlookup =>
      obtain rfl := Option.some.inj hsub
      exact AssocMap.mem_of_lookup hlookup
  · simp at hsub

theorem subdir_eq_some_iff (hnodup : (entries.map Prod.fst).Nodup) {name : κ}
    {sub : Entries κ α} :
    entries.subdir name = some sub ↔ (name, .dir sub) ∈ entries := by
  constructor
  · exact mem_of_subdir
  · intro hmem
    rw [subdir, AssocMap.lookup_of_mem hnodup hmem]

@[simp] theorem dirAt_nil : entries.dirAt [] = some entries := rfl

theorem dirAt_cons (name : κ) (path : List κ) :
    entries.dirAt (name :: path) = (entries.subdir name).bind fun sub => sub.dirAt path := rfl

theorem dirAt_file_cons {name : κ} (hname : name ∉ entries.map Prod.fst) (info : α) (label : κ)
    (path : List κ) :
    dirAt ((name, .file info) :: entries) (label :: path) = entries.dirAt (label :: path) := by
  rw [dirAt_cons, dirAt_cons, subdir_file_cons]
  split_ifs with heq
  · rw [← heq, subdir_eq_none_of_not_mem hname]
  · rfl

end Lookup

/-! ## The listing of all files -/

theorem exists_label_of_mem_filesBelow {path : List κ} {entries : Entries κ α}
    {file : List κ × κ × α} (hmem : file ∈ filesBelow path entries) :
    ∃ name ∈ entries.map Prod.fst, path ++ [name] <+: file.1 := by
  induction entries using inductionOn generalizing path with
  | nil => simp [filesBelow] at hmem
  | file name info entries ih =>
      rw [filesBelow] at hmem
      obtain ⟨n, hn, hpre⟩ := ih hmem
      exact ⟨n, List.mem_cons_of_mem _ hn, hpre⟩
  | dir name sub entries ihsub ih =>
      rw [filesBelow, List.mem_append, List.mem_append] at hmem
      rcases hmem with (hdeep | hown) | hrest
      · obtain ⟨n, -, hpre⟩ := ihsub hdeep
        exact ⟨name, by simp, (List.prefix_append _ _).trans hpre⟩
      · obtain ⟨f, -, rfl⟩ := List.mem_map.1 hown
        exact ⟨name, by simp, List.prefix_rfl⟩
      · obtain ⟨n, hn, hpre⟩ := ih hrest
        exact ⟨n, List.mem_cons_of_mem _ hn, hpre⟩

theorem append_singleton_inj_of_prefix {path file : List κ} {a b : κ}
    (ha : path ++ [a] <+: file) (hb : path ++ [b] <+: file) : a = b := by
  obtain ⟨u, hu⟩ := ha
  obtain ⟨v, hv⟩ := hb
  have heq : path ++ (a :: u) = path ++ (b :: v) := by
    rw [List.append_assoc] at hu hv
    exact hu.trans hv.symm
  exact (List.cons.inj (List.append_cancel_left heq)).1

def place (file : List κ × κ × α) : List κ × κ := (file.1, file.2.1)

theorem files_labels_sublist (entries : Entries κ α) :
    (entries.files.map Prod.fst).Sublist (entries.map Prod.fst) := by
  induction entries with
  | nil => exact List.Sublist.slnil
  | cons entry entries ih =>
      obtain ⟨name, node⟩ := entry
      cases node with
      | file info => exact ih.cons_cons name
      | dir sub => exact ih.cons name

theorem nodup_places_own {entries : Entries κ α} (hnodup : (entries.map Prod.fst).Nodup)
    (path : List κ) :
    ((entries.files.map fun file => (path, file)).map place).Nodup := by
  have hlabels := hnodup.sublist (files_labels_sublist entries)
  have hplaces : (entries.files.map fun file => (path, file)).map place =
      (entries.files.map Prod.fst).map (path, ·) := by
    simp [place, Function.comp_def]
  rw [hplaces]
  exact hlabels.map fun _ _ h => (Prod.mk.inj h).2

theorem disjoint_places_below_own (path : List κ) (entries : Entries κ α)
    (own : List (κ × α)) :
    ((filesBelow path entries).map place).Disjoint
      ((own.map fun file => (path, file)).map place) := by
  intro p hdeep hown
  obtain ⟨f, hf, rfl⟩ := List.mem_map.1 hdeep
  obtain ⟨g, hg, hplace⟩ := List.mem_map.1 hown
  obtain ⟨file, -, rfl⟩ := List.mem_map.1 hg
  obtain ⟨n, -, hpre⟩ := exists_label_of_mem_filesBelow hf
  have hpath : path = f.1 := congrArg Prod.fst hplace
  have hlength := hpre.length_le
  rw [← hpath, List.length_append, List.length_singleton] at hlength
  omega

theorem nodup_places_filesBelow {path : List κ} {entries : Entries κ α}
    (hlabels : LabelsDistinct entries) : ((filesBelow path entries).map place).Nodup := by
  induction entries using inductionOn generalizing path with
  | nil => simp [filesBelow]
  | file name info entries ih =>
      rw [filesBelow]
      exact ih hlabels.tail
  | dir name sub entries ihsub ih =>
      have hsub : LabelsDistinct sub := hlabels.inner List.mem_cons_self
      rw [filesBelow, List.map_append, List.map_append]
      apply List.Nodup.append
      · apply List.Nodup.append (ihsub hsub) (nodup_places_own hsub.here _)
        exact disjoint_places_below_own _ sub (files sub)
      · exact ih hlabels.tail
      · -- behind `name` no other label of the directory leads
        intro p hfront hrest
        obtain ⟨g, hg, hplace⟩ := List.mem_map.1 hrest
        obtain ⟨n, hn, hpre⟩ := exists_label_of_mem_filesBelow hg
        have hname : path ++ [name] <+: p.1 := by
          rcases List.mem_append.1 hfront with hdeep | hown
          · obtain ⟨f, hf, rfl⟩ := List.mem_map.1 hdeep
            obtain ⟨m, -, hpre'⟩ := exists_label_of_mem_filesBelow hf
            exact (List.prefix_append _ _).trans hpre'
          · obtain ⟨f, hf, rfl⟩ := List.mem_map.1 hown
            obtain ⟨file, -, rfl⟩ := List.mem_map.1 hf
            exact List.prefix_rfl
        have hp : p.1 = g.1 := by rw [← hplace]; rfl
        rw [hp] at hname
        have heq := append_singleton_inj_of_prefix hname hpre
        exact (List.nodup_cons.1 hlabels.here).1 (heq ▸ hn)

theorem nodup_places_filesAt {entries : Entries κ α} (hlabels : LabelsDistinct entries)
    (path : List κ) : ((filesAt path entries).map place).Nodup := by
  rw [filesAt, List.map_append]
  exact (nodup_places_filesBelow hlabels).append (nodup_places_own hlabels.here path)
    (disjoint_places_below_own path entries entries.files)

section Lookup

variable [DecidableEq κ]

theorem mem_filesBelow_iff {path : List κ} {entries : Entries κ α}
    (hlabels : LabelsDistinct entries) {file : List κ × κ × α} :
    file ∈ filesBelow path entries ↔
      ∃ name rest dir, file.1 = path ++ name :: rest ∧
        entries.dirAt (name :: rest) = some dir ∧ file.2 ∈ dir.files := by
  induction entries using inductionOn generalizing path with
  | nil => simp [filesBelow, dirAt_cons, subdir]
  | file name info entries ih =>
      have hname := (List.nodup_cons.1 hlabels.here).1
      rw [filesBelow, ih hlabels.tail]
      simp only [dirAt_file_cons hname]
  | dir name sub entries ihsub ih =>
      have hname := (List.nodup_cons.1 hlabels.here).1
      have hsub : LabelsDistinct sub := hlabels.inner List.mem_cons_self
      rw [filesBelow, List.mem_append, List.mem_append, ihsub hsub, ih hlabels.tail]
      constructor
      · rintro ((⟨n, rest, dir, hpath, hdir, hfile⟩ | hown) | ⟨n, rest, dir, hpath, hdir, hfile⟩)
        · refine ⟨name, n :: rest, dir, by simp [hpath], ?_, hfile⟩
          rw [dirAt_cons, subdir_dir_cons, if_pos rfl, Option.bind_some, hdir]
        · obtain ⟨f, hf, rfl⟩ := List.mem_map.1 hown
          refine ⟨name, [], sub, rfl, ?_, hf⟩
          rw [dirAt_cons, subdir_dir_cons, if_pos rfl, Option.bind_some, dirAt_nil]
        · refine ⟨n, rest, dir, hpath, ?_, hfile⟩
          have hne : name ≠ n := by
            rintro rfl
            rw [dirAt_cons, subdir_eq_none_of_not_mem hname] at hdir
            simp at hdir
          rw [dirAt_cons, subdir_dir_cons, if_neg hne]
          exact hdir
      · rintro ⟨n, rest, dir, hpath, hdir, hfile⟩
        rw [dirAt_cons, subdir_dir_cons] at hdir
        split_ifs at hdir with hn
        · subst hn
          rw [Option.bind_some] at hdir
          cases rest with
          | nil =>
              obtain rfl := Option.some.inj hdir
              refine .inl (.inr (List.mem_map.2 ⟨file.2, hfile, ?_⟩))
              rw [← hpath]
          | cons m rest =>
              exact .inl (.inl ⟨m, rest, dir, by simp [hpath], hdir, hfile⟩)
        · exact .inr ⟨n, rest, dir, hpath, hdir, hfile⟩

/-- The listing holds the files that the paths lead to. -/
theorem mem_filesAt_iff {path : List κ} {entries : Entries κ α}
    (hlabels : LabelsDistinct entries) {file : List κ × κ × α} :
    file ∈ filesAt path entries ↔
      ∃ rest dir, file.1 = path ++ rest ∧ entries.dirAt rest = some dir ∧
        file.2 ∈ dir.files := by
  rw [filesAt, List.mem_append, mem_filesBelow_iff hlabels]
  constructor
  · rintro (⟨name, rest, dir, hpath, hdir, hfile⟩ | hown)
    · exact ⟨name :: rest, dir, hpath, hdir, hfile⟩
    · obtain ⟨f, hf, rfl⟩ := List.mem_map.1 hown
      exact ⟨[], entries, by simp, rfl, hf⟩
  · rintro ⟨rest, dir, hpath, hdir, hfile⟩
    cases rest with
    | nil =>
        obtain rfl := Option.some.inj hdir
        refine .inr (List.mem_map.2 ⟨file.2, hfile, ?_⟩)
        rw [← List.append_nil path, ← hpath]
    | cons name rest => exact .inl ⟨name, rest, dir, hpath, hdir, hfile⟩

end Lookup

end Entries

end WsHyper.Lib
