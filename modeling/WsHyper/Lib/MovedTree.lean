import WsHyper.Lib.FileTree

/-!
# Moving a directory

`moveDir` takes a directory out of one directory and puts it into another.  Read place by
place, what lay below the old path lies below the new one, and nothing else changes.
-/

namespace WsHyper.Lib

namespace Entries

variable {κ α : Type} [DecidableEq κ]

def listing (entries : Entries κ α) (path : List κ) : Option (List (κ × α)) :=
  (entries.dirAt path).map files

def updateAt (f : Entries κ α → Entries κ α) : List κ → Entries κ α → Entries κ α
  | [], entries => f entries
  | name :: path, entries => entries.map fun entry =>
      match entry with
      | (label, .dir sub) =>
          if label = name then (label, .dir (updateAt f path sub)) else (label, .dir sub)
      | (label, .file info) => (label, .file info)

/-- The directory `from/fromName` becomes `to/toName`. -/
def moveDir (entries : Entries κ α) (fromDir : List κ) (fromName : κ) (toDir : List κ)
    (toName : κ) : Entries κ α :=
  match entries.dirAt (fromDir ++ [fromName]) with
  | none => entries
  | some sub =>
      updateAt (fun dir => (toName, .dir sub) :: dir) toDir
        (updateAt (AssocMap.erase fromName) fromDir entries)

variable {entries : Entries κ α}

theorem dirAt_append (path rest : List κ) :
    entries.dirAt (path ++ rest) = (entries.dirAt path).bind fun sub => sub.dirAt rest := by
  induction path generalizing entries with
  | nil => rfl
  | cons name path ih =>
      rw [List.cons_append, dirAt_cons, dirAt_cons]
      cases entries.subdir name with
      | none => rfl
      | some sub => exact ih

theorem isSome_dirAt_of_append {path rest : List κ}
    (hpath : (entries.dirAt (path ++ rest)).isSome) : (entries.dirAt path).isSome := by
  rw [dirAt_append] at hpath
  exact Option.isSome_of_isSome_bind hpath

@[simp] theorem isSome_listing (path : List κ) :
    (entries.listing path).isSome = (entries.dirAt path).isSome := Option.isSome_map

theorem LabelsDistinct.dirAt (hlabels : entries.LabelsDistinct) {path : List κ}
    {sub : Entries κ α} (hsub : entries.dirAt path = some sub) : sub.LabelsDistinct := by
  induction path generalizing entries with
  | nil =>
      obtain rfl := Option.some.inj hsub
      exact hlabels
  | cons name path ih =>
      rw [dirAt_cons, Option.bind_eq_some_iff] at hsub
      obtain ⟨inner, hinner, hsub⟩ := hsub
      exact ih (hlabels.inner (mem_of_subdir hinner)) hsub

/-! ## Updates -/

section Update

variable (f : Entries κ α → Entries κ α)

theorem subdir_updateAt_cons (name label : κ) (path : List κ) :
    (updateAt f (name :: path) entries).subdir label =
      if label = name then (entries.subdir label).map (updateAt f path)
      else entries.subdir label := by
  induction entries with
  | nil => simp [updateAt, subdir]
  | cons entry entries ih =>
      obtain ⟨n, node⟩ := entry
      rw [updateAt] at ih ⊢
      cases node with
      | file info =>
          rw [List.map_cons, subdir_file_cons, subdir_file_cons, ih]
          split_ifs <;> rfl
      | dir sub =>
          by_cases hname : n = name
          · subst hname
            simp only [List.map_cons, if_true, subdir_dir_cons, ih]
            by_cases hlabel : n = label
            · simp [hlabel]
            · simp [hlabel, Ne.symm hlabel]
          · simp only [List.map_cons, if_neg hname, subdir_dir_cons, ih]
            by_cases hlabel : n = label
            · subst hlabel
              simp [hname]
            · simp [hlabel]

theorem files_updateAt_cons (name : κ) (path : List κ) :
    files (updateAt f (name :: path) entries) = files entries := by
  induction entries with
  | nil => rfl
  | cons entry entries ih =>
      obtain ⟨n, node⟩ := entry
      rw [updateAt] at ih ⊢
      cases node with
      | file info => simp [files, ih]
      | dir sub =>
          simp only [List.map_cons]
          split_ifs with hname
          · simp [files, ih]
          · simp [files, ih]

theorem dirAt_updateAt_below (path rest : List κ) :
    (updateAt f path entries).dirAt (path ++ rest) =
      (entries.dirAt path).bind fun dir => (f dir).dirAt rest := by
  induction path generalizing entries with
  | nil => rfl
  | cons name path ih =>
      rw [List.cons_append, dirAt_cons, dirAt_cons, subdir_updateAt_cons, if_pos rfl]
      cases entries.subdir name with
      | none => rfl
      | some sub => exact ih

theorem listing_updateAt_of_not_below {path place : List κ} (hplace : ¬path <+: place) :
    (updateAt f path entries).listing place = entries.listing place := by
  induction path generalizing entries place with
  | nil => exact absurd (List.nil_prefix) hplace
  | cons name path ih =>
      cases place with
      | nil => rw [listing, listing, dirAt_nil, dirAt_nil, Option.map_some, Option.map_some,
          files_updateAt_cons]
      | cons label place =>
          rw [listing, listing, dirAt_cons, dirAt_cons, subdir_updateAt_cons]
          split_ifs with hlabel
          · subst hlabel
            rw [List.cons_prefix_cons, and_iff_right rfl] at hplace
            cases entries.subdir label with
            | none => rfl
            | some sub => exact ih hplace
          · rfl

end Update

/-! ## Moves -/

section Move

variable {fromDir toDir : List κ} {fromName toName : κ} {sub : Entries κ α}

omit [DecidableEq κ] in
theorem append_singleton_prefix_iff {dir rest : List κ} {name label : κ} :
    dir ++ [name] <+: dir ++ label :: rest ↔ name = label := by
  simp [List.prefix_append_right_inj, List.cons_prefix_cons]

omit [DecidableEq κ] in
theorem not_isPrefix_append_singleton (dir : List κ) (name : κ) :
    ¬dir ++ [name] <+: dir ++ [] := by
  intro hprefix
  have hlength := hprefix.length_le
  simp only [List.length_append, List.length_singleton, List.length_nil] at hlength
  omega

theorem subdir_erase (name label : κ) :
    subdir (AssocMap.erase name entries) label =
      if label = name then none else entries.subdir label := by
  rw [subdir]
  split_ifs with hlabel
  · rw [hlabel, AssocMap.lookup_erase_self]
  · rw [AssocMap.lookup_erase_of_ne hlabel]
    rfl

theorem files_erase_of_subdir (hnodup : (entries.map Prod.fst).Nodup)
    (hsub : entries.subdir fromName = some sub) :
    files (AssocMap.erase fromName entries) = files entries := by
  induction entries with
  | nil => rfl
  | cons entry entries ih =>
      obtain ⟨name, node⟩ := entry
      obtain ⟨hname, htail⟩ := List.nodup_cons.1 hnodup
      by_cases heq : name = fromName
      · subst heq
        have hrest : AssocMap.erase name ((name, node) :: entries) = entries := by
          rw [AssocMap.erase, List.filter_cons_of_neg (by simp)]
          exact AssocMap.erase_eq_self hname
        cases node with
        | file info => simp at hsub
        | dir inner => rw [hrest, files]
      · have hrest : AssocMap.erase fromName ((name, node) :: entries) =
            (name, node) :: AssocMap.erase fromName entries := by
          rw [AssocMap.erase, List.filter_cons_of_pos (by simpa using heq)]
          rfl
        rw [hrest]
        cases node with
        | file info =>
            rw [subdir_file_cons, if_neg heq] at hsub
            rw [files, files, ih htail hsub]
        | dir inner =>
            rw [subdir_dir_cons, if_neg heq] at hsub
            rw [files, files, ih htail hsub]

theorem listing_erased (hlabels : entries.LabelsDistinct)
    (hsub : entries.dirAt (fromDir ++ [fromName]) = some sub) (path : List κ) :
    (updateAt (AssocMap.erase fromName) fromDir entries).listing path =
      if fromDir ++ [fromName] <+: path then none else entries.listing path := by
  by_cases hbelow : fromDir <+: path
  · obtain ⟨rest, rfl⟩ := hbelow
    rw [dirAt_append, Option.bind_eq_some_iff] at hsub
    obtain ⟨dir, hdir, hsub⟩ := hsub
    rw [listing, listing, dirAt_updateAt_below, dirAt_append, hdir, Option.bind_some,
      Option.bind_some]
    rw [dirAt_cons, Option.bind_eq_some_iff] at hsub
    obtain ⟨inner, hinner, -⟩ := hsub
    cases rest with
    | nil =>
        rw [dirAt_nil, dirAt_nil, Option.map_some, Option.map_some,
          files_erase_of_subdir (hlabels.dirAt hdir).here hinner,
          if_neg (not_isPrefix_append_singleton _ _)]
    | cons label rest =>
        rw [dirAt_cons, dirAt_cons, subdir_erase]
        by_cases hlabel : label = fromName
        · subst hlabel
          rw [if_pos rfl, if_pos (append_singleton_prefix_iff.2 rfl)]
          rfl
        · rw [if_neg hlabel, if_neg (mt append_singleton_prefix_iff.1 (Ne.symm hlabel))]
  · rw [listing_updateAt_of_not_below _ hbelow, if_neg]
    exact fun hpath => hbelow ((List.prefix_append _ _).trans hpath)

/-- Read place by place, the directory is below its new path and nowhere else. -/
theorem listing_moveDir (hlabels : entries.LabelsDistinct)
    (hsub : entries.dirAt (fromDir ++ [fromName]) = some sub) (hto : (entries.dirAt toDir).isSome)
    (hapart : ¬fromDir ++ [fromName] <+: toDir) (path : List κ) :
    (entries.moveDir fromDir fromName toDir toName).listing path =
      if toDir ++ [toName] <+: path then
        entries.listing (fromDir ++ fromName :: path.drop (toDir.length + 1))
      else if fromDir ++ [fromName] <+: path then none
      else entries.listing path := by
  rw [moveDir, hsub]
  by_cases hbelow : toDir <+: path
  · obtain ⟨rest, rfl⟩ := hbelow
    have hparent := listing_erased hlabels hsub toDir
    rw [if_neg hapart, listing, listing] at hparent
    obtain ⟨dir, hdir⟩ : ∃ dir, (updateAt (AssocMap.erase fromName) fromDir entries).dirAt toDir =
        some dir := by
      rw [← Option.isSome_iff_exists, ← Option.isSome_map (f := files), hparent, Option.isSome_map]
      exact hto
    have hlisting := listing_erased hlabels hsub (toDir ++ rest)
    rw [listing, dirAt_append, hdir, Option.bind_some] at hlisting
    rw [listing, dirAt_updateAt_below, hdir, Option.bind_some]
    cases rest with
    | nil =>
        rw [dirAt_nil, Option.map_some] at hlisting ⊢
        rw [files, hlisting, if_neg (not_isPrefix_append_singleton toDir _)]
    | cons label rest =>
        rw [dirAt_cons, subdir_dir_cons]
        by_cases hlabel : toName = label
        · rw [if_pos hlabel, if_pos (append_singleton_prefix_iff.2 hlabel), Option.bind_some,
            List.drop_length_add_append, List.drop_succ_cons, List.drop_zero, listing,
            ← List.singleton_append, ← List.append_assoc, dirAt_append, hsub, Option.bind_some]
        · rw [if_neg hlabel, if_neg (mt append_singleton_prefix_iff.1 hlabel), ← hlisting,
            dirAt_cons]
  · have habove : ¬toDir ++ [toName] <+: path :=
      fun hpath => hbelow ((List.prefix_append _ _).trans hpath)
    simp only [listing_updateAt_of_not_below _ hbelow, listing_erased hlabels hsub, if_neg habove]

end Move

end Entries

end WsHyper.Lib
