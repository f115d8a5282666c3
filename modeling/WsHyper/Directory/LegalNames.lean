import WsHyper.Directory.KeyPieces
import WsHyper.Directory.NormalForms
import Mathlib.Data.List.TakeWhile

/-!
# Names that normalisation gives

Both normalisers drop the leading `-` of a name and put `_` for what they do not allow;
where nothing is left, a name is made up from a random id.  What is behind the `-` decides
whether the result is the name of an entry, and whether a second run leaves it alone.
-/

namespace WsHyper.Directory

open WsHyper.Lib WsHyper.Lib.Text

def defaultLengthNanoid : Nat := 21

/-- The alphabet that `nanoid!` draws from. -/
def nanoidSafe (c : Char) : Bool := c.isAlphanum || c = '_' || c = '-'

/-- What `nanoid!(length)` may give. -/
structure Nanoid (length : Nat) where
  text : Str
  length_eq : text.length = length
  safe : ∀ c ∈ text, nanoidSafe c = true

def Nanoid.ofAs (length : Nat) : Nanoid length where
  text := List.replicate length 'a'
  length_eq := List.length_replicate
  safe := by
    intro c hc
    rw [List.eq_of_mem_replicate hc]
    rfl

theorem Nanoid.slash_not_mem {length : Nat} (id : Nanoid length) : '/' ∉ id.text := by
  intro hslash
  exact absurd (id.safe '/' hslash) (by decide)

theorem Nanoid.replacement_not_mem {length : Nat} (id : Nanoid length) :
    Char.ofNat 0xFFFD ∉ id.text := by
  intro hreplacement
  exact absurd (id.safe _ hreplacement) (by decide)

inductive Normalizer
  | path (newPath : Bool)
  | file
  deriving DecidableEq

def RenameDecision.name : RenameDecision → Option Str
  | .yes rename => some rename.toName
  | .not fileName => some fileName
  | _ => none

/-- The components of `parent.join(name)`, for a name without a leading `/`. -/
def Path.joined (parent : Path) (name : Str) : Path := parent ++ OsStr.pieces (.ofStr name)

namespace Normalizer

def idLength : Normalizer → Nat
  | path _ => defaultLengthNanoid
  | file => 24

def run : (normalizer : Normalizer) → Nanoid normalizer.idLength → Path →
    Except RenameError RenameDecision
  | path newPath, id => NormalizePathUtf8.run newPath id.text
  | file, id => NormalizeFileUtf8.run id.text

/-- `run` on `parent.join(name)`; a path that ends in `..` has no file name. -/
def runJoined (normalizer : Normalizer) (id : Nanoid normalizer.idLength) (parent : Path)
    (name : Str) : Except RenameError RenameDecision :=
  if (Path.joined parent name).fileName = some OsStr.dotDot then
    .error (.invalidPath (Path.joined parent name))
  else normalizer.run id (Path.joined parent name)

/-- What the characters of a name give; it may be empty. -/
def clean : Normalizer → Str → Str
  | path _ => NormalizePathUtf8.newName
  | file => NormalizeFileUtf8.cleanName

/-- The name for an entry of which nothing is left. -/
def fallback : (normalizer : Normalizer) → Nanoid normalizer.idLength → Option Str
  | path true, id => some (NormalizePathUtf8.invalidName ++ id.text)
  | path false, _ => none
  | file, id => some (id.text ++ NormalizeFileUtf8.unknown)

def KeepsFallback : (normalizer : Normalizer) → Nanoid normalizer.idLength → Prop
  | path newPath, _ => newPath = false
  | file, id => id.text.head? ≠ some '-'

end Normalizer

/-- A renamed entry is not renamed again, and an entry is kept only under its own name. -/
structure SettlesAtOnce (normalizer : Normalizer) (id : Nanoid normalizer.idLength)
    (parent : CanonicalPath) (name : Name) : Prop where
  yes : ∀ rename,
    normalizer.run id (parent.path.join (.ofStr name.text)) = .ok (.yes rename) →
      ∀ id', normalizer.runJoined id' rename.parent rename.toName = .ok (.not rename.toName)
  not : ∀ kept,
    normalizer.run id (parent.path.join (.ofStr name.text)) = .ok (.not kept) → kept = name.text

/-- The name of an entry, which leads from its parent to a child and is not the key `.`. -/
structure LegalChild (parent : Path) (name : Str) : Prop where
  isName : IsName name
  child : Path.joined parent name = parent.join (.ofStr name)
  notRoot : Key.isRoot name = false

/-- The name that is decided for an entry can be the name of an entry. -/
def GivesLegalName (normalizer : Normalizer) (id : Nanoid normalizer.idLength) (parent : Path)
    (entry : OsStr) : Prop :=
  ∀ decision, normalizer.run id (parent.join entry) = .ok decision →
    ∀ name, decision.name = some name → LegalChild parent name

/-! ## Names of entries -/

theorem isName_of_append {front back : Str} (hfront : '/' ∉ front) (hback : '/' ∉ back)
    (hlength : 2 < front.length + back.length) : IsName (front ++ back) := by
  have hlong : ∀ text : Str, text.length ≤ 2 → front ++ back ≠ text := by
    rintro text htext rfl
    rw [List.length_append] at htext
    omega
  refine ⟨hlong [] (by simp), fun hslash => ?_, hlong _ (by simp), hlong _ (by simp)⟩
  rcases List.mem_append.1 hslash with hmem | hmem
  · exact hfront hmem
  · exact hback hmem

theorem isName_toStringLossy {entry : OsStr} (hentry : entry.IsComponent) :
    IsName entry.toStringLossy := by
  have hchar : ∀ c : Char, c ≠ Char.ofNat 0xFFFD → c ∈ entry.toStringLossy → .char c ∈ entry := by
    intro c hc hmem
    obtain ⟨unit, hunit, heq⟩ := List.mem_map.1 hmem
    cases unit with
    | char d =>
        obtain rfl : d = c := heq
        exact hunit
    | invalid bytes => exact absurd heq.symm hc
  have hdots : ∀ n, entry.toStringLossy = List.replicate n '.' →
      entry = List.replicate n OsStr.dot := by
    intro n hlossy
    obtain ⟨hlength, hall⟩ := List.eq_replicate_iff.1 hlossy
    refine List.eq_replicate_iff.2 ⟨by rwa [OsStr.toStringLossy, List.length_map] at hlength, ?_⟩
    intro unit hunit
    have hdot := hall _ (List.mem_map.2 ⟨unit, hunit, rfl⟩)
    cases unit with
    | char d => exact congrArg OsUnit.char hdot
    | invalid bytes => exact absurd (show Char.ofNat 0xFFFD = '.' from hdot) (by decide)
  exact ⟨mt (hdots 0) hentry.1.1, mt (hchar '/' (by decide)) hentry.1.2.1,
    mt (hdots 1) hentry.1.2.2, mt (hdots 2) hentry.2⟩

theorem legalChild_of_isName (parent : Path) {name : Str} (hname : IsName name) :
    LegalChild parent name := by
  refine ⟨hname, ?_, decide_eq_false hname.2.2.1⟩
  rw [Path.joined, pieces_name ⟨name, hname⟩]
  rfl

/-! ## What a name is cleaned to -/

namespace Normalizer

variable (normalizer : Normalizer) (id : Nanoid normalizer.idLength) (parent : Path)

theorem clean_clean (text : Str) :
    normalizer.clean (normalizer.clean text) = normalizer.clean text := by
  cases normalizer with
  | path newPath => exact newName_newName text
  | file => exact cleanName_cleanName text

/-- Of the characters behind the leading `-`, a `.` is kept and nothing becomes one. -/
theorem clean_eq_map (text : Str) :
    ∃ f : Char → Char, (∀ c, f c = '.' ↔ c = '.') ∧ (∀ c, f c = '/' → c = '/') ∧
      normalizer.clean text = (trimStart '-' text).map f := by
  cases normalizer with
  | path newPath =>
      refine ⟨fun c => if nameAllowed c then c else '_', fun c => ?_, fun c hc => ?_, rfl⟩
      · dsimp only
        split_ifs with hallowed
        · rfl
        · refine iff_of_false (by decide) ?_
          rintro rfl
          exact hallowed (by decide)
      · dsimp only at hc
        split_ifs at hc with hallowed
        · exact hc
        · exact absurd hc (by decide)
  | file =>
      refine ⟨fun c => if c = Char.ofNat 0xFFFD then '_' else c, fun c => ?_, fun c hc => ?_, rfl⟩
      · dsimp only
        split_ifs with hvalid
        · refine iff_of_false (by decide) ?_
          rw [hvalid]
          decide
        · rfl
      · dsimp only at hc
        split_ifs at hc with hvalid
        · exact absurd hc (by decide)
        · exact hc

/-- A name is cleaned to dots, or to nothing, only if that is behind its leading `-`. -/
theorem clean_eq_dots_iff (text : Str) (n : Nat) :
    normalizer.clean text = List.replicate n '.' ↔
      trimStart '-' text = List.replicate n '.' := by
  obtain ⟨f, hdot, -, hclean⟩ := normalizer.clean_eq_map text
  rw [hclean, List.eq_replicate_iff, List.eq_replicate_iff, List.length_map,
    List.forall_mem_map]
  simp only [hdot]

theorem clean_eq_nil_iff (text : Str) :
    normalizer.clean text = [] ↔ trimStart '-' text = [] :=
  normalizer.clean_eq_dots_iff text 0

theorem slash_not_mem_clean {text : Str} (hslash : '/' ∉ text) :
    '/' ∉ normalizer.clean text := by
  obtain ⟨f, -, hkept, hclean⟩ := normalizer.clean_eq_map text
  rw [hclean, List.mem_map]
  rintro ⟨c, hc, heq⟩
  obtain rfl := hkept c heq
  exact hslash ((List.dropWhile_suffix _).subset hc)

theorem isName_clean_iff {text : Str} (hslash : '/' ∉ text)
    (hne : normalizer.clean text ≠ []) :
    IsName (normalizer.clean text) ↔
      trimStart '-' text ≠ ['.'] ∧ trimStart '-' text ≠ ['.', '.'] := by
  have hdot := normalizer.clean_eq_dots_iff text 1
  have hdots := normalizer.clean_eq_dots_iff text 2
  simp only [List.replicate] at hdot hdots
  constructor
  · intro hname
    exact ⟨mt hdot.2 hname.2.2.1, mt hdots.2 hname.2.2.2⟩
  · rintro ⟨hne_dot, hne_dots⟩
    exact ⟨hne, normalizer.slash_not_mem_clean hslash, mt hdot.1 hne_dot, mt hdots.1 hne_dots⟩

/-! ## What one run decides -/

theorem isName_fallback {name : Str} (hname : normalizer.fallback id = some name) :
    IsName name := by
  cases normalizer with
  | path newPath =>
      cases newPath with
      | false => cases hname
      | true =>
          obtain rfl := Option.some.inj hname
          refine isName_of_append (by decide) id.slash_not_mem ?_
          simp [NormalizePathUtf8.invalidName]
          omega
  | file =>
      obtain rfl := Option.some.inj hname
      refine isName_of_append id.slash_not_mem (by decide) ?_
      simp [NormalizeFileUtf8.unknown]

theorem clean_fallback_iff {name : Str} (hname : normalizer.fallback id = some name) :
    normalizer.clean name = name ↔ normalizer.KeepsFallback id := by
  cases normalizer with
  | path newPath =>
      cases newPath with
      | false => cases hname
      | true =>
          obtain rfl := Option.some.inj hname
          exact iff_of_false (newName_invalidName_append_ne id.text) (by simp [KeepsFallback])
  | file =>
      obtain rfl := Option.some.inj hname
      constructor
      · intro hclean hhead
        apply head?_cleanName (id.text ++ NormalizeFileUtf8.unknown)
        rw [show NormalizeFileUtf8.cleanName _ = _ from hclean, List.head?_append, hhead]
        rfl
      · intro hhead
        refine cleanName_eq_self ?_ ?_
        · rw [List.head?_append]
          cases htext : id.text with
          | nil => decide
          | cons c cs => simpa [KeepsFallback, htext] using hhead
        · rw [List.mem_append]
          rintro (hmem | hmem)
          · exact id.replacement_not_mem hmem
          · exact absurd hmem (by decide)

theorem run_join (entry : OsStr) :
    normalizer.run id (parent.join entry) = .ok (
      if normalizer.clean entry.toStringLossy ≠ [] then
        if entry.toStringLossy ≠ normalizer.clean entry.toStringLossy then
          .yes ⟨parent, entry.toStringLossy, normalizer.clean entry.toStringLossy⟩
        else .not entry.toStringLossy
      else match normalizer.fallback id with
        | some toName => .yes ⟨parent, entry.toStringLossy, toName⟩
        | none => .needRestore) := by
  have hfile : (Path.join parent entry).fileName.map OsStr.toStringLossy =
      some entry.toStringLossy := by
    rw [Path.join, Path.fileName_append_singleton, Option.map_some]
  cases normalizer with
  | path newPath =>
      rw [run, NormalizePathUtf8.run, hfile, clean]
      dsimp only
      rw [Path.join, renameTo_append_singleton, renameTo_append_singleton]
      split_ifs with hempty hname hnew
      · rfl
      · rw [← not_not.1 hname]
      · rw [hnew]
        rfl
      · rw [Bool.not_eq_true] at hnew
        rw [hnew]
        rfl
  | file =>
      rw [run, NormalizeFileUtf8.run, hfile, clean]
      dsimp only
      rw [Path.join, renameTo_append_singleton, NormalizeFileUtf8.newName]
      by_cases hempty : NormalizeFileUtf8.cleanName entry.toStringLossy ≠ []
      · rw [if_pos hempty, if_pos hempty]
        split_ifs with hname
        · rfl
        · rw [← not_not.1 hname]
      · have hname : entry.toStringLossy ≠ id.text ++ NormalizeFileUtf8.unknown := by
          intro hname
          have hdashes := (clean_eq_nil_iff .file _).1 (not_not.1 hempty)
          rw [trimStart, List.dropWhile_eq_nil_iff] at hdashes
          have hdot := hdashes '.' (by rw [hname]; exact List.mem_append_right _ (by decide))
          exact absurd hdot (by decide)
        rw [if_neg hempty, if_neg hempty, if_pos hname]
        rfl

/-! ## The run after a rename -/

theorem runJoined_of_isName {name : Str} (hname : IsName name) :
    normalizer.runJoined id parent name = normalizer.run id (parent.join (.ofStr name)) := by
  have hjoined : Path.joined parent name = parent.join (.ofStr name) := by
    rw [Path.joined, pieces_name ⟨name, hname⟩]
    rfl
  have hdots : (Path.join parent (.ofStr name)).fileName ≠ some OsStr.dotDot := by
    rw [Path.join, Path.fileName_append_singleton, Ne, Option.some.injEq]
    exact (OsStr.isComponent_ofStr_iff.2 hname).2
  rw [runJoined, hjoined, if_neg hdots]

theorem eq_of_run_not {entry : OsStr} {kept : Str}
    (hkept : normalizer.run id (parent.join entry) = .ok (.not kept)) :
    kept = entry.toStringLossy := by
  rw [run_join, Except.ok.injEq] at hkept
  split_ifs at hkept
  · exact (RenameDecision.not.inj hkept).symm
  · cases hfallback : normalizer.fallback id <;> simp [hfallback] at hkept

/-- A name is kept exactly if it is as it is cleaned to. -/
theorem run_eq_not_iff {text : Str} (hne : text ≠ []) :
    normalizer.run id (parent.join (.ofStr text)) = .ok (.not text) ↔
      normalizer.clean text = text := by
  rw [run_join, OsStr.toStringLossy_ofStr, Except.ok.injEq]
  split_ifs with hempty hname
  · exact iff_of_false (by simp) (Ne.symm hname)
  · exact iff_of_true rfl (not_not.1 hname).symm
  · refine iff_of_false ?_ fun hclean => hempty (by rwa [hclean])
    cases normalizer.fallback id <;> simp

theorem runJoined_eq_not_iff (parent : CanonicalPath) {name : Str} (hne : name ≠ [])
    (hslash : '/' ∉ name) :
    normalizer.runJoined id parent.path name = .ok (.not name) ↔
      IsName name ∧ normalizer.clean name = name := by
  by_cases hname : IsName name
  · rw [normalizer.runJoined_of_isName id parent.path hname,
      normalizer.run_eq_not_iff id parent.path hne, and_iff_right hname]
  · refine iff_of_false (fun hkept => ?_) (fun h => hname h.1)
    have hreserved : name = ['.'] ∨ name = ['.', '.'] := by
      rw [IsName] at hname
      tauto
    rcases hreserved with rfl | rfl
    · -- the run is about the parent itself
      have hjoined : Path.joined parent.path ['.'] = parent.path := by
        rw [Path.joined, show OsStr.pieces (.ofStr ['.']) = [] by decide, List.append_nil]
      rw [runJoined, hjoined] at hkept
      split_ifs at hkept
      rcases List.eq_nil_or_concat parent.path with hroot | ⟨above, entry, hparent⟩
      · rw [hroot] at hkept
        cases normalizer <;> cases hkept
      · rw [List.concat_eq_append] at hparent
        have hentry := parent.components entry (by rw [hparent]; simp)
        rw [hparent] at hkept
        have hdot := normalizer.eq_of_run_not id above hkept
        exact (isName_toStringLossy hentry).2.2.1 hdot.symm
    · rw [runJoined, Path.joined, pieces_dots, if_pos (Path.fileName_append_singleton _ _)] at hkept
      cases hkept

end Normalizer

/-! ## Every name -/

section Every

variable (normalizer : Normalizer) (id : Nanoid normalizer.idLength)

variable {normalizer id} in
/-- Once it is renamed, a name is settled exactly if it can be taken and is kept then. -/
theorem settlesAtOnce_of_yes {parent : CanonicalPath} {name : Name} {toName : Str}
    (hrun : normalizer.run id (parent.path.join (.ofStr name.text)) =
      .ok (.yes ⟨parent.path, name.text, toName⟩)) (hne : toName ≠ []) (hslash : '/' ∉ toName) :
    SettlesAtOnce normalizer id parent name ↔ IsName toName ∧ normalizer.clean toName = toName := by
  constructor
  · intro hsettles
    exact (normalizer.runJoined_eq_not_iff id parent hne hslash).1 (hsettles.yes _ hrun id)
  · intro hname
    refine ⟨fun rename hyes id' => ?_, fun kept hkept => ?_⟩
    · obtain rfl := RenameDecision.yes.inj (Except.ok.inj (hrun.symm.trans hyes))
      exact (normalizer.runJoined_eq_not_iff id' parent hne hslash).2 hname
    · cases hrun.symm.trans hkept

variable {normalizer id} in
theorem settlesAtOnce_of_not_yes {parent : CanonicalPath} {name : Name}
    (hrun : ∀ rename, normalizer.run id (parent.path.join (.ofStr name.text)) ≠
      .ok (.yes rename)) : SettlesAtOnce normalizer id parent name := by
  refine ⟨fun rename hyes => absurd hyes (hrun rename), fun kept hkept => ?_⟩
  rw [normalizer.eq_of_run_not id parent.path hkept, OsStr.toStringLossy_ofStr]

/-- One run settles a name exactly if what is behind its leading `-` is neither `.` nor
`..`, and nothing is behind them only where the made up name is kept. -/
theorem settlesAtOnce_iff (parent : CanonicalPath) (name : Name) :
    SettlesAtOnce normalizer id parent name ↔
      trimStart '-' name.text ≠ ['.'] ∧ trimStart '-' name.text ≠ ['.', '.'] ∧
        (trimStart '-' name.text = [] → normalizer.KeepsFallback id) := by
  have hrun := normalizer.run_join id parent.path (.ofStr name.text)
  rw [OsStr.toStringLossy_ofStr] at hrun
  by_cases hempty : normalizer.clean name.text = []
  · rw [if_neg (not_not.2 hempty)] at hrun
    rw [(normalizer.clean_eq_nil_iff name.text).1 hempty]
    cases hfallback : normalizer.fallback id with
    | none =>
        have hkeeps : normalizer.KeepsFallback id := by
          match normalizer, id with
          | .path false, id => rfl
        rw [hfallback] at hrun
        have hsettles : SettlesAtOnce normalizer id parent name := by
          apply settlesAtOnce_of_not_yes
          intro rename hyes
          cases hrun.symm.trans hyes
        simp [hsettles, hkeeps]
    | some toName =>
        rw [hfallback] at hrun
        have hname := normalizer.isName_fallback id hfallback
        rw [settlesAtOnce_of_yes hrun hname.1 hname.2.1, and_iff_right hname,
          normalizer.clean_fallback_iff id hfallback]
        simp
  · rw [if_pos hempty] at hrun
    have hrest := mt (normalizer.clean_eq_nil_iff name.text).2 hempty
    rw [← and_assoc, and_iff_left fun hnil => absurd hnil hrest,
      ← normalizer.isName_clean_iff name.slash_not_mem hempty]
    by_cases hsame : name.text = normalizer.clean name.text
    · rw [if_neg (not_not.2 hsame)] at hrun
      refine iff_of_true (settlesAtOnce_of_not_yes fun rename hyes => ?_) (hsame ▸ name.isName)
      cases hrun.symm.trans hyes
    · rw [if_pos hsame] at hrun
      rw [settlesAtOnce_of_yes hrun hempty (normalizer.slash_not_mem_clean name.slash_not_mem),
        and_iff_left (normalizer.clean_clean name.text)]

/-- A new directory `-` is renamed to `INVALID_NAME-..`, and that to `INVALID_NAME_..`. -/
theorem dash_not_settled :
    ¬SettlesAtOnce (.path true) (.ofAs 21) ⟨[], by simp⟩ ⟨['-'], by decide⟩ := by
  intro hsettles
  have hagain := hsettles.yes ⟨[], ['-'], NormalizePathUtf8.invalidName ++ List.replicate 21 'a'⟩
    (by decide) (.ofAs 21)
  exact absurd hagain (by decide)

/-- The name that is decided is legal exactly if what is behind the leading `-` of the
entry is neither `.` nor `..`. -/
theorem givesLegalName_iff (parent : Path) (entry : Subtype OsStr.IsComponent) :
    GivesLegalName normalizer id parent entry ↔
      trimStart '-' entry.val.toStringLossy ≠ ['.'] ∧
        trimStart '-' entry.val.toStringLossy ≠ ['.', '.'] := by
  have hentry := isName_toStringLossy entry.property
  have hrun := normalizer.run_join id parent entry
  by_cases hempty : normalizer.clean entry.val.toStringLossy = []
  · rw [if_neg (not_not.2 hempty)] at hrun
    rw [(normalizer.clean_eq_nil_iff _).1 hempty]
    refine iff_of_true (fun decision hdecision name hname => ?_) (by decide)
    obtain rfl := Except.ok.inj (hrun.symm.trans hdecision)
    cases hfallback : normalizer.fallback id with
    | none => simp [hfallback, RenameDecision.name] at hname
    | some toName =>
        rw [hfallback] at hname
        obtain rfl := Option.some.inj hname
        exact legalChild_of_isName parent (normalizer.isName_fallback id hfallback)
  · rw [if_pos hempty] at hrun
    rw [← normalizer.isName_clean_iff hentry.2.1 hempty]
    have hgives : ∀ name, LegalChild parent name ↔ IsName name :=
      fun name => ⟨LegalChild.isName, legalChild_of_isName parent⟩
    rw [GivesLegalName, hrun]
    by_cases hsame : entry.val.toStringLossy = normalizer.clean entry.val.toStringLossy
    · rw [if_neg (not_not.2 hsame)]
      simp [RenameDecision.name, hgives, ← hsame]
    · rw [if_pos hsame]
      simp [RenameDecision.name, hgives]

/-- A file `-.` is to be called `.`, which is no child of its directory. -/
theorem dash_dot_not_legal :
    ¬GivesLegalName .file (.ofAs 24) [] (.ofStr ['-', '.']) := by
  intro hgives
  have hlegal := hgives (.yes ⟨[], ['-', '.'], ['.']⟩) (by decide) ['.'] rfl
  exact hlegal.isName.2.2.1 rfl

end Every

end WsHyper.Directory
