import WsHyper.Directory.LegalNames

/-!
# Where a rename starts

The normalisers read the name of an entry lossily, and `from` is what they have read.  A
rename then starts at `parent.join(from)`, which is the entry only where nothing was lost.
-/

namespace WsHyper.Directory

open WsHyper.Lib

/-- A rename that is decided for an entry starts at this entry. -/
def NamesItsEntry (normalizer : Normalizer) (id : Nanoid normalizer.idLength) (parent : Path)
    (entry : OsStr) : Prop :=
  ∀ rename, normalizer.run id (parent.join entry) = .ok (.yes rename) →
    Path.joined rename.parent rename.fromName = parent.join entry

theorem replacement_mem_toStringLossy {entry : OsStr} (hentry : entry.toStr = none) :
    Char.ofNat 0xFFFD ∈ entry.toStringLossy := by
  by_contra hvalid
  rw [← OsStr.ofStr_toStringLossy hvalid, OsStr.toStr_ofStr] at hentry
  cases hentry

namespace Normalizer

variable (normalizer : Normalizer) (id : Nanoid normalizer.idLength) (parent : Path)

theorem replacement_not_mem_clean (text : Str) : Char.ofNat 0xFFFD ∉ normalizer.clean text := by
  cases normalizer with
  | path newPath =>
      intro hmem
      exact absurd (nameAllowed_of_mem_newName hmem) (by decide)
  | file =>
      intro hmem
      obtain ⟨c, -, hc⟩ := List.mem_map.1 hmem
      split_ifs at hc with hreplaced
      · exact absurd hc (by decide)
      · exact hreplaced hc

theorem clean_ne_nil_of_replacement_mem {text : Str} (hmem : Char.ofNat 0xFFFD ∈ text) :
    normalizer.clean text ≠ [] := by
  intro hempty
  rw [clean_eq_nil_iff, Text.trimStart, List.dropWhile_eq_nil_iff] at hempty
  exact absurd (hempty _ hmem) (by decide)

theorem eq_of_run_yes {entry : OsStr} {rename : Rename}
    (hrun : normalizer.run id (parent.join entry) = .ok (.yes rename)) :
    rename.parent = parent ∧ rename.fromName = entry.toStringLossy := by
  rw [normalizer.run_join] at hrun
  have hdecision := Except.ok.inj hrun
  split_ifs at hdecision with hempty hname
  · obtain rfl := RenameDecision.yes.inj hdecision
    exact ⟨rfl, rfl⟩
  · cases hfallback : normalizer.fallback id with
    | none => simp [hfallback] at hdecision
    | some toName =>
        rw [hfallback] at hdecision
        obtain rfl := RenameDecision.yes.inj hdecision
        exact ⟨rfl, rfl⟩

/-- A name that is no text is always renamed. -/
theorem exists_run_yes_of_not_text {entry : OsStr} (hentry : entry.toStr = none) :
    ∃ rename, normalizer.run id (parent.join entry) = .ok (.yes rename) := by
  have hmem := replacement_mem_toStringLossy hentry
  have hname : entry.toStringLossy ≠ normalizer.clean entry.toStringLossy := by
    intro hname
    rw [hname] at hmem
    exact normalizer.replacement_not_mem_clean _ hmem
  rw [normalizer.run_join, if_pos (normalizer.clean_ne_nil_of_replacement_mem hmem), if_pos hname]
  exact ⟨_, rfl⟩

end Normalizer

/-- The rename of an entry starts at it exactly if the name of the entry is text. -/
theorem namesItsEntry_iff (normalizer : Normalizer) (id : Nanoid normalizer.idLength)
    (parent : Path) (entry : Subtype OsStr.IsComponent) :
    NamesItsEntry normalizer id parent entry ↔ entry.val.toStr.isSome := by
  have hchild := (legalChild_of_isName parent (isName_toStringLossy entry.property)).child
  constructor
  · intro hnames
    by_contra htext
    rw [Option.not_isSome_iff_eq_none] at htext
    obtain ⟨rename, hrun⟩ := normalizer.exists_run_yes_of_not_text id parent htext
    have hsource := hnames rename hrun
    obtain ⟨hparent, hfrom⟩ := normalizer.eq_of_run_yes id parent hrun
    rw [hparent, hfrom, hchild, Path.join, Path.join, List.append_cancel_left_eq,
      List.singleton_inj] at hsource
    rw [← hsource, OsStr.toStr_ofStr] at htext
    cases htext
  · intro htext rename hrun
    obtain ⟨text, htext⟩ := Option.isSome_iff_exists.1 htext
    obtain ⟨hparent, hfrom⟩ := normalizer.eq_of_run_yes id parent hrun
    rw [hparent, hfrom, hchild, OsStr.eq_ofStr_of_toStr htext, OsStr.toStringLossy_ofStr]

/-- The file whose name is the byte `FF` is to be renamed from U+FFFD, another entry. -/
theorem byte_names_another_entry :
    ¬NamesItsEntry .file (.ofAs 24) [] [.invalid [0xFF]] := by
  intro hnames
  have hsource := hnames ⟨[], [Char.ofNat 0xFFFD], ['_']⟩ (by decide)
  exact absurd hsource (by decide)

end WsHyper.Directory
