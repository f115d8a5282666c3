import WsHyper.Directory.Build

/-!
# Renaming the entries of a directory

What one round of the start-up loop does to a directory in which no two entries
have one normal form and none an empty one.  A normal form is its own normal
form, so a taken target is the directory of a later round and stops the rename of
a file; `newNameOf` is the name an entry gets, `none` where the rename fails.
-/

namespace WsHyper.Directory

open WsHyper.Lib WsHyper.Lib.Text

abbrev DirEntry := Name × Node Name FileInfo

def normalName : DirEntry → Str
  | (name, .file _) => NormalizeFileUtf8.cleanName name.text
  | (name, .dir _) => NormalizePathUtf8.newName name.text

/-- No entry normalises to the empty name and no two to the same one. -/
structure NamesNormalisable (dir : Dir) : Prop where
  names_nodup : (dir.map Prod.fst).Nodup
  forms_nodup : (dir.map normalName).Nodup
  forms_ne_nil : ∀ entry ∈ dir, normalName entry ≠ []

/-- The name of an entry after its round; `rest` holds the entries of later rounds. -/
def newNameOf (entry : DirEntry) (rest : Dir) : Option Name :=
  if h : IsName (normalName entry) then
    if normalName entry ∈ rest.map fun e => e.1.text then none else some ⟨normalName entry, h⟩
  else none

/-! ## Normal forms -/

theorem trimStart_eq_self {text : Str} (hhead : text.head? ≠ some '-') :
    trimStart '-' text = text := by
  cases text with
  | nil => rfl
  | cons c cs =>
      have hc : c ≠ '-' := by simpa using hhead
      simp [trimStart, hc]

theorem head?_trimStart (text : Str) : (trimStart '-' text).head? ≠ some '-' := by
  intro hhead
  have hnot := List.head?_dropWhile_not (fun c => decide (c = '-')) text
  rw [trimStart] at hhead
  rw [hhead] at hnot
  simp at hnot

theorem nameAllowed_of_mem_newName {text : Str} {c : Char}
    (hc : c ∈ NormalizePathUtf8.newName text) : nameAllowed c = true := by
  rw [NormalizePathUtf8.newName, List.mem_map] at hc
  obtain ⟨d, -, rfl⟩ := hc
  split_ifs with hd
  · exact hd
  · decide

theorem cleanName_eq_self {text : Str} (hhead : text.head? ≠ some '-')
    (hvalid : Char.ofNat 0xFFFD ∉ text) : NormalizeFileUtf8.cleanName text = text := by
  rw [NormalizeFileUtf8.cleanName, trimStart_eq_self hhead]
  calc
    _ = text.map id := by
      apply List.map_congr_left
      intro c hc
      have hne : c ≠ Char.ofNat 0xFFFD := fun heq => hvalid (heq ▸ hc)
      rw [if_neg hne, id]
    _ = text := List.map_id text

theorem head?_cleanName (text : Str) :
    (NormalizeFileUtf8.cleanName text).head? ≠ some '-' := by
  intro hhead
  rw [NormalizeFileUtf8.cleanName, List.head?_map, Option.map_eq_some_iff] at hhead
  obtain ⟨c, hc, hdash⟩ := hhead
  split_ifs at hdash with hvalid
  · exact absurd hdash (by decide)
  · rw [hdash] at hc
    exact head?_trimStart text hc

theorem cleanName_cleanName (text : Str) :
    NormalizeFileUtf8.cleanName (NormalizeFileUtf8.cleanName text) =
      NormalizeFileUtf8.cleanName text := by
  apply cleanName_eq_self (head?_cleanName text)
  · intro hmem
    rw [NormalizeFileUtf8.cleanName, List.mem_map] at hmem
    obtain ⟨c, -, hc⟩ := hmem
    split_ifs at hc with hvalid
    · exact absurd hc (by decide)
    · exact hvalid hc

theorem cleanName_newName (text : Str) :
    NormalizeFileUtf8.cleanName (NormalizePathUtf8.newName text) =
      NormalizePathUtf8.newName text := by
  apply cleanName_eq_self
  · intro hhead
    have hdash := nameAllowed_of_mem_newName (List.mem_of_head? hhead)
    exact absurd hdash (by decide)
  · intro hmem
    have hvalid := nameAllowed_of_mem_newName hmem
    exact absurd hvalid (by decide)

theorem newName_newName (text : Str) :
    NormalizePathUtf8.newName (NormalizePathUtf8.newName text) =
      NormalizePathUtf8.newName text := by
  have hhead : (NormalizePathUtf8.newName text).head? ≠ some '-' := by
    intro hhead
    have hdash := nameAllowed_of_mem_newName (List.mem_of_head? hhead)
    exact absurd hdash (by decide)
  calc
    _ = (NormalizePathUtf8.newName text).map id := by
      rw [NormalizePathUtf8.newName, trimStart_eq_self hhead]
      apply List.map_congr_left
      intro c hc
      rw [if_pos (nameAllowed_of_mem_newName hc), id]
    _ = NormalizePathUtf8.newName text := List.map_id _

def NormalizePathUtf8.finalName (nanoid name : Str) : Str :=
  if newName name ≠ [] then newName name else invalidName ++ nanoid

theorem newName_invalidName_append_ne (nanoid : Str) :
    NormalizePathUtf8.newName (NormalizePathUtf8.invalidName ++ nanoid) ≠
      NormalizePathUtf8.invalidName ++ nanoid := by
  intro heq
  have hdash : '-' ∈ NormalizePathUtf8.newName (NormalizePathUtf8.invalidName ++ nanoid) := by
    rw [heq]
    exact List.mem_append_left _ (by decide)
  exact absurd (nameAllowed_of_mem_newName hdash) (by decide)

theorem newName_invalidName_append_ne_nil (nanoid : Str) :
    NormalizePathUtf8.newName (NormalizePathUtf8.invalidName ++ nanoid) ≠ [] := by
  simp [NormalizePathUtf8.newName, NormalizePathUtf8.invalidName, trimStart]

/-- A directory goes by its own name exactly if that is a normal one. -/
theorem finalName_eq_self_iff {nanoid name : Str} (hne : name ≠ []) :
    NormalizePathUtf8.finalName nanoid name = name ↔ NormalizePathUtf8.newName name = name := by
  rw [NormalizePathUtf8.finalName]
  split_ifs with hempty
  · rfl
  · refine iff_of_false (fun heq => ?_) fun heq => hempty (by rwa [heq])
    rw [← heq] at hempty
    exact hempty (newName_invalidName_append_ne_nil nanoid)

theorem finalName_ne_nil (nanoid name : Str) : NormalizePathUtf8.finalName nanoid name ≠ [] := by
  rw [NormalizePathUtf8.finalName]
  split_ifs with hempty
  · exact hempty
  · simp [NormalizePathUtf8.invalidName]

/-- A final name is final exactly if it was not made up. -/
theorem finalName_finalName_iff (nanoid name : Str) :
    NormalizePathUtf8.finalName nanoid (NormalizePathUtf8.finalName nanoid name) =
        NormalizePathUtf8.finalName nanoid name ↔
      NormalizePathUtf8.newName name ≠ [] := by
  rw [finalName_eq_self_iff (finalName_ne_nil nanoid name), NormalizePathUtf8.finalName]
  split_ifs with hempty
  · exact iff_of_true (newName_newName name) hempty
  · exact iff_of_false (newName_invalidName_append_ne nanoid) hempty

theorem NormalizePathUtf8.run_new_join (nanoid : Str) (parent : Path) (entry : OsStr)
    (hne : entry.toStringLossy ≠ []) :
    run true nanoid (parent.join entry) =
      if entry.toStringLossy = finalName nanoid entry.toStringLossy then
        .ok (.not entry.toStringLossy)
      else .ok (.yes ⟨parent, entry.toStringLossy, finalName nanoid entry.toStringLossy⟩) := by
  rw [run, Path.join, Path.fileName_append_singleton, Option.map_some]
  simp only [renameTo_append_singleton, if_true]
  by_cases hempty : newName entry.toStringLossy ≠ []
  · rw [finalName, if_pos hempty, if_pos hempty]
    by_cases hname : entry.toStringLossy = newName entry.toStringLossy
    · rw [if_neg (not_not.2 hname), if_pos hname, ← hname]
    · rw [if_pos hname, if_neg hname]
  · have hname : entry.toStringLossy ≠ finalName nanoid entry.toStringLossy := by
      intro hself
      rw [(finalName_eq_self_iff hne).1 hself.symm] at hempty
      exact hempty hne
    rw [if_neg hempty, if_neg hname, finalName, if_neg hempty]

theorem trimStart_eq_newName (text : Str) (hreplaced : '_' ∉ NormalizePathUtf8.newName text) :
    trimStart '-' text = NormalizePathUtf8.newName text := by
  rw [NormalizePathUtf8.newName] at hreplaced ⊢
  calc
    _ = (trimStart '-' text).map id := (List.map_id _).symm
    _ = _ := by
      apply List.map_congr_left
      intro c hc
      split_ifs with hallowed
      · rfl
      · have hmem := List.mem_map_of_mem (f := fun c => if nameAllowed c then c else '_') hc
        rw [if_neg hallowed] at hmem
        exact absurd hmem hreplaced

/-- A normal form is the normal form of a file. -/
@[simp] theorem cleanName_normalName (entry : DirEntry) :
    NormalizeFileUtf8.cleanName (normalName entry) = normalName entry := by
  obtain ⟨name, node⟩ := entry
  cases node with
  | file info => exact cleanName_cleanName name.text
  | dir sub => exact cleanName_newName name.text

theorem normalName_of_dir (entry : DirEntry) {name : Name} {sub : Dir}
    (htext : entry.1.text = normalName (name, .dir sub)) :
    normalName entry = normalName (name, .dir sub) := by
  obtain ⟨other, node⟩ := entry
  cases node with
  | file info => rw [normalName, htext, cleanName_normalName]
  | dir sub' => rw [normalName, htext, normalName, newName_newName]

theorem normalName_of_file {entry : DirEntry} {name : Name} (info : FileInfo)
    (htext : name.text = normalName entry) : normalName (name, .file info) = normalName entry := by
  rw [normalName, htext, cleanName_normalName]

theorem isName_newName {name : Name} (hclean : NormalizeFileUtf8.cleanName name.text = name.text)
    (hne : NormalizePathUtf8.newName name.text ≠ []) :
    IsName (NormalizePathUtf8.newName name.text) := by
  have hhead : name.text.head? ≠ some '-' := by
    rw [← hclean]
    intro hhead
    have htwice := head?_cleanName name.text
    exact htwice hhead
  refine ⟨hne, fun hslash => ?_, fun hdot => ?_, fun hdots => ?_⟩
  · exact absurd (nameAllowed_of_mem_newName hslash) (by decide)
  · have htrim := trimStart_eq_newName name.text (by rw [hdot]; decide)
    rw [trimStart_eq_self hhead, hdot] at htrim
    exact name.isName.2.2.1 htrim
  · have htrim := trimStart_eq_newName name.text (by rw [hdots]; decide)
    rw [trimStart_eq_self hhead, hdots] at htrim
    exact name.isName.2.2.2 htrim

/-! ## One round of the loop -/

/-- What the rounds so far have left keeps out of the way of the rounds to come. -/
def Apart (done rest : Dir) : Prop :=
  ∀ d ∈ done, ∀ e ∈ rest, d.1 ≠ e.1 ∧ d.1.text ≠ normalName e

section Round

variable {sys : System} {done rest : Dir} {name : Name} {node : Node Name FileInfo}

theorem not_mem_labels_iff {dir : Dir} : name ∉ dir.map Prod.fst ↔ ∀ e ∈ dir, e.1 ≠ name := by
  rw [List.mem_map, not_exists]
  constructor
  · intro h e he heq
    exact h e ⟨he, heq⟩
  · rintro h e ⟨he, heq⟩
    exact h e he heq

theorem Apart.name_not_mem (hapart : Apart done ((name, node) :: rest)) :
    name ∉ done.map Prod.fst :=
  not_mem_labels_iff.2 fun d hd => (hapart d hd (name, node) List.mem_cons_self).1

theorem Apart.form_not_mem (hapart : Apart done ((name, node) :: rest)) {target : Name}
    (htarget : target.text = normalName (name, node)) : target ∉ done.map Prod.fst := by
  rw [not_mem_labels_iff]
  intro d hd heq
  apply (hapart d hd (name, node) List.mem_cons_self).2
  rw [heq, htarget]

theorem NamesNormalisable.tail {entry : DirEntry} (h : NamesNormalisable (entry :: rest)) :
    NamesNormalisable rest :=
  { names_nodup := h.names_nodup.of_cons
    forms_nodup := h.forms_nodup.of_cons
    forms_ne_nil := fun e he => h.forms_ne_nil e (List.mem_cons_of_mem _ he) }

theorem NamesNormalisable.name_not_mem (h : NamesNormalisable ((name, node) :: rest)) :
    name ∉ rest.map Prod.fst :=
  (List.nodup_cons.1 h.names_nodup).1

theorem NamesNormalisable.normalName_ne {entry later : DirEntry}
    (h : NamesNormalisable (entry :: rest)) (hlater : later ∈ rest) :
    normalName entry ≠ normalName later := by
  intro heq
  exact (List.nodup_cons.1 h.forms_nodup).1 (List.mem_map.2 ⟨later, hlater, heq.symm⟩)

/-- Only a file can find its new name taken, and only by a directory. -/
theorem NamesNormalisable.of_taken {entry : DirEntry}
    (h : NamesNormalisable (entry :: rest))
    (htaken : normalName entry ∈ rest.map fun e => e.1.text) :
    ∃ info, entry.2 = .file info ∧ ∃ later sub, (later, .dir sub) ∈ rest ∧
      later.text = normalName entry := by
  obtain ⟨⟨later, node'⟩, hlater, htext⟩ := List.mem_map.1 htaken
  obtain ⟨name, node⟩ := entry
  cases node with
  | dir sub =>
      have hsame := normalName_of_dir (later, node') htext
      exact absurd hsame.symm (h.normalName_ne hlater)
  | file info =>
      cases node' with
      | file info' =>
          have hsame := normalName_of_file info' htext
          exact absurd hsame.symm (h.normalName_ne hlater)
      | dir sub => exact ⟨info, rfl, later, sub, hlater, htext⟩

/-- An entry whose rename fails has no name that a file could have in the end. -/
theorem NamesNormalisable.cleanName_ne_of_fails (h : NamesNormalisable ((name, node) :: rest))
    (hfails : newNameOf (name, node) rest = none) :
    NormalizeFileUtf8.cleanName name.text ≠ name.text := by
  intro hclean
  have hisName : IsName (normalName (name, node)) := by
    cases node with
    | file info =>
        rw [normalName, hclean]
        exact name.isName
    | dir sub => exact isName_newName hclean (h.forms_ne_nil _ List.mem_cons_self)
  rw [newNameOf, dif_pos hisName] at hfails
  split_ifs at hfails with htaken
  obtain ⟨info, hfile, later, sub, hlater, htext⟩ := h.of_taken htaken
  obtain rfl : node = .file info := hfile
  rw [normalName, hclean, Name.text_inj] at htext
  exact h.name_not_mem (List.mem_map.2 ⟨_, hlater, htext⟩)

theorem text_of_newNameOf {entry : DirEntry} {n : Name} (hnew : newNameOf entry rest = some n) :
    n.text = normalName entry ∧ n ∉ rest.map Prod.fst := by
  rw [newNameOf] at hnew
  split_ifs at hnew with hisName htaken
  obtain rfl := Option.some.inj hnew
  refine ⟨rfl, fun hmem => htaken ?_⟩
  obtain ⟨e, he, hname⟩ := List.mem_map.1 hmem
  exact List.mem_map.2 ⟨e, he, by rw [hname]⟩

theorem Apart.step (hnorm : NamesNormalisable ((name, node) :: rest))
    (hapart : Apart done ((name, node) :: rest)) (node' : Node Name FileInfo) :
    Apart (done ++ [((newNameOf (name, node) rest).getD name, node')]) rest := by
  intro d hd e he
  rcases List.mem_append.1 hd with hold | hnew
  · exact hapart d hold e (List.mem_cons_of_mem _ he)
  rw [List.mem_singleton.1 hnew]
  cases hname : newNameOf (name, node) rest with
  | some n =>
      obtain ⟨htext, hfree⟩ := text_of_newNameOf hname
      refine ⟨fun heq => hfree (List.mem_map.2 ⟨e, he, heq.symm⟩), ?_⟩
      rw [Option.getD_some, htext]
      exact hnorm.normalName_ne he
  | none =>
      refine ⟨fun heq => hnorm.name_not_mem (List.mem_map.2 ⟨e, he, heq.symm⟩), ?_⟩
      rw [Option.getD_none]
      intro heq
      apply hnorm.cleanName_ne_of_fails hname
      rw [heq, cleanName_normalName]

/-! ### `rename` and `file_name_normalize` -/

theorem Dir.rename_of_free {target : Name} (hname : name ∉ done.map Prod.fst)
    (hname' : name ∉ rest.map Prod.fst) (htarget : target ∉ done.map Prod.fst)
    (htarget' : target ∉ rest.map Prod.fst) (hne : target ≠ name) :
    Dir.rename (done ++ (name, node) :: rest) name target.text =
      some (done ++ (target, node) :: rest, target) := by
  have hfree : target ∉ (done ++ (name, node) :: rest).map Prod.fst := by
    rw [List.map_append, List.mem_append, List.map_cons, List.mem_cons]
    rintro (hmem | heq | hmem)
    · exact htarget hmem
    · exact hne heq
    · exact htarget' hmem
  rw [rename, dif_pos target.isName]
  simp only [AssocMap.lookup_append_cons hname, if_neg hne,
    AssocMap.lookup_eq_none_of_not_mem hfree, canReplace, if_true,
    AssocMap.erase_eq_self hfree]
  rw [AssocMap.map_append_cons hname hname']

theorem Dir.rename_of_not_isName {dir : Dir} {toName : Str} (htarget : ¬IsName toName) :
    dir.rename name toName = none := dif_neg htarget

/-- A file never replaces a directory. -/
theorem Dir.rename_onto_dir {dir : Dir} {info : FileInfo} {target : Name} {sub : Dir}
    (hfile : dir.lookup name = some (.file info)) (hdir : dir.lookup target = some (.dir sub)) :
    dir.rename name target.text = none := by
  have hne : target ≠ name := by
    rintro rfl
    rw [hfile] at hdir
    cases hdir
  rw [rename, dif_pos target.isName]
  simp only [hfile, hdir, if_neg hne, canReplace]
  rfl

theorem fileNameNormalize_eq {dir : Dir} (parent : Path) (hlookup : dir.lookup name = some node)
    (hne : normalName (name, node) ≠ []) :
    fileNameNormalize sys parent dir name =
      .ok (if name.text = normalName (name, node) then some (dir, name)
        else dir.rename name (normalName (name, node))) := by
  unfold fileNameNormalize
  cases node with
  | file info =>
      have hsubdir : dir.subdir name = none := by rw [Entries.subdir, hlookup]
      rw [normalName] at hne ⊢
      simp only [hsubdir, Option.isSome_none, Bool.false_eq_true, if_false, Path.join,
        NormalizeFileUtf8.run_append_singleton, NormalizeFileUtf8.newName_of_cleanName hne]
      by_cases hsame : name.text = NormalizeFileUtf8.cleanName name.text
      · rw [if_neg (not_not.2 hsame), if_pos hsame]
      · rw [if_pos hsame, if_neg hsame]
  | dir sub =>
      have hsubdir : dir.subdir name = some sub := by rw [Entries.subdir, hlookup]
      rw [normalName] at hne ⊢
      simp only [hsubdir, Option.isSome_some, if_true, Path.join,
        NormalizePathUtf8.run_append_singleton, if_pos hne]
      by_cases hsame : name.text = NormalizePathUtf8.newName name.text
      · rw [if_neg (not_not.2 hsame), if_pos hsame]
      · rw [if_pos hsame, if_neg hsame]

theorem fileNameNormalize_round (parent : Path)
    (hnorm : NamesNormalisable ((name, node) :: rest))
    (hapart : Apart done ((name, node) :: rest)) :
    fileNameNormalize sys parent (done ++ (name, node) :: rest) name =
      .ok ((newNameOf (name, node) rest).map fun n => (done ++ (n, node) :: rest, n)) := by
  have hname := hapart.name_not_mem
  have hlookup := AssocMap.lookup_append_cons hname node rest
  have hname' := hnorm.name_not_mem
  rw [fileNameNormalize_eq parent hlookup (hnorm.forms_ne_nil _ List.mem_cons_self)]
  congr 1
  by_cases hsame : name.text = normalName (name, node)
  · cases hnew : newNameOf (name, node) rest with
    | none =>
        -- a name that is its own normal form does not fail
        have hclean := hnorm.cleanName_ne_of_fails hnew
        rw [hsame, cleanName_normalName] at hclean
        exact absurd rfl hclean
    | some n =>
        obtain rfl : n = name := Name.ext ((text_of_newNameOf hnew).1.trans hsame.symm)
        rw [if_pos hsame]
        rfl
  · rw [if_neg hsame]
    by_cases hisName : IsName (normalName (name, node))
    · by_cases htaken : normalName (name, node) ∈ rest.map fun e => e.1.text
      · obtain ⟨info, hfile, later, sub, hlater, htext⟩ := hnorm.of_taken htaken
        obtain rfl : node = .file info := hfile
        have hdir : (done ++ (name, .file info) :: rest).lookup later = some (.dir sub) := by
          have hne : name ≠ later := by
            rintro rfl
            exact hsame htext
          rw [List.lookup_append, AssocMap.lookup_eq_none_of_not_mem (hapart.form_not_mem htext),
            Option.none_or, AssocMap.lookup_cons_eq, if_neg hne,
            AssocMap.lookup_of_mem hnorm.tail.names_nodup hlater]
        rw [newNameOf, dif_pos hisName, if_pos htaken, ← htext, Dir.rename_onto_dir hlookup hdir]
        rfl
      · have hnew : newNameOf (name, node) rest = some ⟨_, hisName⟩ := by
          rw [newNameOf, dif_pos hisName, if_neg htaken]
        have hne : (⟨_, hisName⟩ : Name) ≠ name := fun heq => hsame (congrArg Name.text heq).symm
        rw [hnew]
        exact Dir.rename_of_free hname hname' (hapart.form_not_mem rfl)
          (text_of_newNameOf hnew).2 hne
    · rw [newNameOf, dif_neg hisName, Dir.rename_of_not_isName hisName]
      rfl

end Round

end WsHyper.Directory
