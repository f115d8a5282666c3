import WsHyper.Directory.Decode
import WsHyper.Lib.FileSystem

/-!
# Pieces of keys

A key is walked as the pieces of its text.  A key that was read behind the name of its
bucket has the pieces that stand there in the path.
-/

namespace WsHyper.Directory

open WsHyper.Lib

/-! ## Names -/

theorem isPiece_text (name : Name) : PathText.IsPiece '/' '.' name.text :=
  ⟨name.text_ne_nil, name.slash_not_mem, name.text_ne_dot⟩

theorem isComponent_ofNames {names : List Name} :
    ∀ comp ∈ Path.ofNames names, OsStr.IsComponent comp := by
  intro comp hcomp
  obtain ⟨name, -, rfl⟩ := List.mem_map.1 hcomp
  exact OsStr.isComponent_ofStr_iff.2 name.isName

theorem ofStr_append (front back : Str) :
    OsStr.ofStr (front ++ back) = OsStr.ofStr front ++ OsStr.ofStr back :=
  List.map_append

theorem ofStr_below (names : List Name) :
    OsStr.ofStr (Path.below (names.map Name.text)) =
      PathText.below OsStr.slash (Path.ofNames names) := by
  induction names with
  | nil => rfl
  | cons name names ih =>
      rw [List.map_cons, Path.below_cons, ofStr_append, ih]
      exact (PathText.below_cons _ _).symm

theorem names_of_components {path : Path} (hpath : ∀ comp ∈ path, OsStr.IsComponent comp)
    (htext : path.toStr.isSome) : ∃ names, path = Path.ofNames names := by
  refine Path.exists_eq_ofNames (fun comp hcomp text hcomptext => ?_) htext
  have hcomponent := hpath comp hcomp
  rwa [OsStr.eq_ofStr_of_toStr hcomptext, OsStr.isComponent_ofStr_iff] at hcomponent

theorem ofNames_append (front back : List Name) :
    Path.ofNames (front ++ back) = Path.ofNames front ++ Path.ofNames back :=
  List.map_append

theorem ne_dotDot_ofNames {names : List Name} :
    ∀ piece ∈ Path.ofNames names, piece ≠ OsStr.dotDot :=
  fun piece hpiece => (isComponent_ofNames piece hpiece).2

/-! ## Texts and their pieces -/

theorem pieces_append_below (front : Str) (names : List Name) :
    OsStr.pieces (.ofStr (front ++ Path.below (names.map Name.text))) =
      OsStr.pieces (.ofStr front) ++ Path.ofNames names := by
  rw [ofStr_append, ofStr_below]
  exact PathText.pieces_append_below (fun comp hcomp => (isComponent_ofNames comp hcomp).1) _

theorem pieces_append_slash (front back : Str) :
    OsStr.pieces (.ofStr (front ++ '/' :: back)) =
      OsStr.pieces (.ofStr front) ++ OsStr.pieces (.ofStr back) := by
  rw [ofStr_append]
  exact PathText.pieces_append_sep _ _

theorem pieces_name (name : Name) : OsStr.pieces (.ofStr name.text) = [.ofStr name.text] :=
  PathText.pieces_of_isPiece (OsStr.isComponent_ofStr_iff.2 name.isName).1

theorem eq_of_mem_pieces {part : Str} {piece : OsStr} (hpart : '/' ∉ part)
    (hpiece : piece ∈ OsStr.pieces (.ofStr part)) : piece = .ofStr part := by
  have hslash : OsStr.slash ∉ OsStr.ofStr part := by simpa [OsStr.ofStr, OsStr.slash] using hpart
  rw [OsStr.pieces, PathText.pieces_of_not_mem hslash] at hpiece
  split_ifs at hpiece
  · exact List.mem_singleton.1 hpiece
  · exact absurd hpiece List.not_mem_nil

theorem pieces_dots : OsStr.pieces (.ofStr ['.', '.']) = [OsStr.dotDot] := by decide

/-! ## Keys that are read from a path -/

theorem pieces_ofRest (rest : Str) :
    OsStr.pieces (.ofStr (Key.ofRest rest)) = OsStr.pieces (.ofStr rest) := by
  have hdot : OsStr.pieces (.ofStr Key.root) = [] := by decide
  cases rest with
  | nil => exact hdot
  | cons c rest =>
      by_cases hc : c = '/'
      · subst hc
        have hstrip : OsStr.pieces (.ofStr ('/' :: rest)) = OsStr.pieces (.ofStr rest) :=
          PathText.pieces_cons_sep _
        rw [hstrip, Key.ofRest]
        simp only [Text.stripPrefix, List.cons_prefix_cons, List.nil_prefix, and_self, if_true,
          List.length_singleton, List.drop_succ_cons, List.drop_zero]
        split_ifs with hrest
        · rw [hdot, hrest]
          rfl
        · rfl
      · rw [Key.ofRest]
        simp [Text.stripPrefix, Ne.symm hc]

theorem pieces_ofPath_key (segments : List Name) :
    OsStr.pieces (.ofStr (Key.ofPath (segments.map Name.text))) = Path.ofNames segments := by
  have hnames : ∀ s ∈ segments.map Name.text, s ≠ [] := by
    intro s hs
    obtain ⟨name, -, rfl⟩ := List.mem_map.1 hs
    exact name.text_ne_nil
  rw [← Key.ofRest_below hnames, pieces_ofRest, ← List.nil_append (Path.below _),
    pieces_append_below]
  rfl

theorem not_infix_render (names : List Name) :
    ¬['/', '/'] <:+: Path.render (names.map Name.text) := by
  rw [Path.render]
  split_ifs with hroot
  · intro hinfix
    exact absurd hinfix.length_le (by decide)
  · refine PathText.not_infix_below '.' ?_
    intro comp hcomp
    obtain ⟨name, -, rfl⟩ := List.mem_map.1 hcomp
    exact isPiece_text name

theorem ofRest_eq_cons_slash {rest key : Str} (hkey : Key.ofRest rest = '/' :: key) :
    rest = '/' :: '/' :: key := by
  rw [Key.ofRest] at hkey
  split_ifs at hkey with hempty
  · cases hkey
  · rw [Text.stripPrefix] at hkey
    split_ifs at hkey with hslash
    · obtain ⟨tail, rfl⟩ := hslash
      simpa using hkey
    · exact absurd ⟨key, hkey.symm⟩ hslash

theorem isAbsolute_of_fromBucket {names : List Name} {bucket : Bucket} {key : Key}
    (hkey : Key.fromBucket bucket (Path.ofNames names) = some key) :
    PathText.isAbsolute '/' key = false := by
  rw [Key.fromBucket, Path.toStr_ofNames, Option.bind_some, Option.map_eq_some_iff] at hkey
  obtain ⟨⟨before, after⟩, hsplit, rfl⟩ := hkey
  by_contra habsolute
  rw [Bool.not_eq_false, PathText.isAbsolute, decide_eq_true_eq] at habsolute
  obtain ⟨tail, htail⟩ := List.head?_eq_some_iff.1 habsolute
  have htail : Key.ofRest after = '/' :: tail := htail
  apply not_infix_render names
  rw [Text.append_of_splitOnce hsplit, ofRest_eq_cons_slash htail]
  exact ⟨before ++ bucket, tail, by simp⟩

theorem isAbsolute_ofStr (text : Str) :
    PathText.isAbsolute OsStr.slash (OsStr.ofStr text) = PathText.isAbsolute '/' text := by
  cases text <;> simp [PathText.isAbsolute, OsStr.ofStr, OsStr.slash]

theorem ofRest_of_head {rest : Str} (hrest : rest ≠ []) (hhead : ¬['/'] <+: rest) :
    Key.ofRest rest = rest := by
  rw [Key.ofRest, Text.stripPrefix, if_neg hhead]
  exact if_neg hrest

/-- The lone `/` of the topmost directory holds no name. -/
theorem splitOnce_render (bucket : Name) (root : List Name) :
    Text.splitOnce bucket.text (Path.render (root.map Name.text)) =
      Text.splitOnce bucket.text (Path.below (root.map Name.text)) := by
  cases root with
  | cons name root => simp [Path.render]
  | nil =>
      have habsent : ¬bucket.text <:+: Path.below ([] : List Str) := by
        simp [bucket.text_ne_nil]
      rw [List.map_nil, Text.splitOnce_eq_none_iff.2 habsent,
        Text.splitOnce_eq_none_iff.2 (mt (Path.infix_render_iff bucket []).1 habsent)]

theorem exists_rest_of_occurs {root : List Name} {bucket : Name}
    (hoccurs : bucket.text <:+: Path.render (root.map Name.text)) :
    ∃ before part, ∃ more : List Name, '/' ∉ part ∧
      Text.splitOnce bucket.text (Path.below (root.map Name.text)) =
        some (before, part ++ Path.below (more.map Name.text)) := by
  rw [Key.infix_root_iff] at hoccurs
  obtain ⟨⟨before, rest⟩, hsplit⟩ := Option.ne_none_iff_exists'.1
    (mt Text.splitOnce_eq_none_iff.1 (not_not.2 hoccurs))
  have hslash : ∀ comp ∈ root.map Name.text, '/' ∉ comp := by
    intro comp hcomp
    obtain ⟨name, -, rfl⟩ := List.mem_map.1 hcomp
    exact name.slash_not_mem
  obtain ⟨part, more, hpart, ⟨front, hmore⟩, hrest⟩ :=
    PathText.exists_rest_of_below hslash (before ++ bucket.text)
      (by simp [bucket.text_ne_nil]) (Text.append_of_splitOnce hsplit)
  obtain ⟨-, names, -, -, rfl⟩ := List.map_eq_append_iff.1 hmore.symm
  exact ⟨before, part, names, hpart, by rw [hsplit, hrest]; rfl⟩

end WsHyper.Directory
