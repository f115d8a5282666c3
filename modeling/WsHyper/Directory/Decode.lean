import WsHyper.Directory.Key

/-!
# Reading bucket and key back from a path

`Bucket.findBucket` climbs from a path to the child of the root, and
`Key.fromBucket` cuts the text of the path at the first occurrence of the
bucket's name.  That occurrence lies at the latest in the bucket's own
component, so what is cut off depends on root and bucket alone: `leftover` is
the text between the occurrence and the end of the bucket's component, and it is
empty exactly when the name does not occur in the root.
-/

namespace WsHyper.Directory

open WsHyper.Lib WsHyper.Lib.Text

namespace Bucket

/-- The loop of `findBucket`, on the components from the last to the first. -/
def findBucketLoop (root : Path) : List OsStr → Except Panic (Option Bucket)
  | [] => .ok none
  | child :: parent =>
      if parent.reverse = root then do
        let name ← unwrap child.toStr
        return some name
      else findBucketLoop root parent

def findBucket (root path : Path) : Except Panic (Option Bucket) :=
  findBucketLoop root path.reverse

theorem findBucket_append (root rest : Path) (child : OsStr) :
    findBucket root (root ++ child :: rest) = (unwrap child.toStr).map some := by
  induction rest using List.reverseRecOn with
  | nil =>
      simp only [findBucket, findBucketLoop, List.reverse_append, List.reverse_cons,
        List.reverse_nil, List.nil_append, List.cons_append, List.reverse_reverse, if_true]
      cases unwrap child.toStr <;> rfl
  | append_singleton rest last ih =>
      have hne : root ++ child :: rest ≠ root := by simp
      have hreverse : (root ++ child :: (rest ++ [last])).reverse =
          last :: (root ++ child :: rest).reverse := by simp
      rw [findBucket, hreverse, findBucketLoop, List.reverse_reverse, if_neg hne]
      exact ih

theorem eq_of_findBucket_append {root rest : Path} {child : OsStr} {bucket : Str}
    (hfind : findBucket root (root ++ child :: rest) = .ok (some bucket)) :
    child = .ofStr bucket := by
  rw [findBucket_append] at hfind
  cases htext : child.toStr with
  | none =>
      rw [htext] at hfind
      cases hfind
  | some text =>
      rw [htext] at hfind
      rw [OsStr.eq_ofStr_of_toStr htext, Option.some.inj (Except.ok.inj hfind)]

theorem findBucket_below (root rest : List Name) (bucket : Name) :
    findBucket (Path.ofNames root) (Path.ofNames (root ++ bucket :: rest)) =
      .ok (some bucket.text) := by
  rw [Path.ofNames, Path.ofNames, List.map_append, List.map_cons, findBucket_append,
    OsStr.toStr_ofStr]
  rfl

/-- One round of the loop, with the parent and the file name of the path it stands at. -/
theorem findBucket_join (root parent : Path) (child : OsStr) :
    findBucket root (parent.join child) =
      if parent = root then (unwrap child.toStr).map some else findBucket root parent := by
  rw [findBucket, Path.join, List.reverse_append, List.reverse_singleton, List.singleton_append,
    findBucketLoop, List.reverse_reverse]
  split_ifs with hparent
  · cases unwrap child.toStr <;> rfl
  · rfl

theorem findBucket_eq_none {root path : Path}
    (hpath : ¬∃ child rest, path = root ++ child :: rest) : findBucket root path = .ok none := by
  induction path using List.reverseRecOn with
  | nil => rfl
  | append_singleton parent child ih =>
      have hne : parent ≠ root := by
        rintro rfl
        exact hpath ⟨child, [], rfl⟩
      have hparent : ¬∃ child rest, parent = root ++ child :: rest := by
        rintro ⟨first, rest, rfl⟩
        exact hpath ⟨first, rest ++ [child], by simp⟩
      rw [← Path.join, findBucket_join, if_neg hne, ih hparent]

theorem ofNames_eq_append_cons_iff {root path : List Name} :
    (∃ child rest, Path.ofNames path = Path.ofNames root ++ child :: rest) ↔
      ∃ child rest, path = root ++ child :: rest := by
  constructor
  · rintro ⟨child, rest, heq⟩
    obtain ⟨above, below, rfl, habove, hbelow⟩ := List.map_eq_append_iff.1 heq
    obtain ⟨name, names, rfl, -, -⟩ := List.map_eq_cons_iff.1 hbelow
    exact ⟨name, names, by rw [Path.ofNames_injective habove]⟩
  · rintro ⟨child, rest, rfl⟩
    exact ⟨.ofStr child.text, Path.ofNames rest, by simp [Path.ofNames]⟩

theorem findBucket_iff (root path : List Name) :
    (∀ bucket, findBucket (Path.ofNames root) (Path.ofNames path) = .ok (some bucket) ↔
      ∃ child rest, path = root ++ child :: rest ∧ child.text = bucket) ∧
    (findBucket (Path.ofNames root) (Path.ofNames path) = .ok none ↔
      ¬∃ child rest, path = root ++ child :: rest) := by
  by_cases hpath : ∃ child rest, path = root ++ child :: rest
  · obtain ⟨child, rest, rfl⟩ := hpath
    rw [findBucket_below]
    refine ⟨fun bucket => ?_, ?_⟩
    · simp only [Except.ok.injEq, Option.some.injEq, List.append_cancel_left_eq, List.cons.injEq]
      constructor
      · rintro rfl
        exact ⟨child, rest, ⟨rfl, rfl⟩, rfl⟩
      · rintro ⟨name, names, ⟨rfl, rfl⟩, htext⟩
        exact htext
    · constructor
      · intro hnone
        cases hnone
      · intro hnot
        exact absurd ⟨child, rest, rfl⟩ hnot
  · rw [findBucket_eq_none (mt ofNames_eq_append_cons_iff.1 hpath)]
    refine ⟨fun bucket => ⟨?_, ?_⟩, fun _ => hpath, fun _ => rfl⟩
    · intro hsome
      cases hsome
    · rintro ⟨child, rest, heq, -⟩
      exact absurd ⟨child, rest, heq⟩ hpath

end Bucket

namespace Key

variable (root : List Name) (bucket : Name)

/-- The text from the first occurrence of the bucket's name in `root/bucket` on,
the occurrence itself left out. -/
def leftover : Str :=
  ((splitOnce bucket.text (Path.below (root.map Name.text) ++ '/' :: bucket.text)).map
    Prod.snd).getD []

/-- The key that the directory `segments` of the bucket is given. -/
def decoded (segments : List Segment) : Key :=
  ofRest (leftover root bucket ++ Path.below segments)

theorem infix_root_iff :
    bucket.text <:+: Path.render (root.map Name.text) ↔
      bucket.text <:+: Path.below (root.map Name.text) :=
  Path.infix_render_iff bucket _

theorem splitOnce_root_bucket :
    ∃ before, splitOnce bucket.text (Path.below (root.map Name.text) ++ '/' :: bucket.text) =
      some (before, leftover root bucket) := by
  have hfound : splitOnce bucket.text
      (Path.below (root.map Name.text) ++ '/' :: bucket.text) ≠ none := by
    rw [Ne, splitOnce_eq_none_iff, not_not]
    exact ⟨Path.below (root.map Name.text) ++ ['/'], [], by simp⟩
  obtain ⟨parts, hparts⟩ := Option.ne_none_iff_exists'.1 hfound
  exact ⟨parts.1, by rw [leftover, hparts]; rfl⟩

theorem fromBucket_below (segments : List Name) :
    fromBucket bucket.text (Path.ofNames (root ++ bucket :: segments)) =
      some (decoded root bucket (segments.map Name.text)) := by
  obtain ⟨before, hsplit⟩ := splitOnce_root_bucket root bucket
  have htext : (Path.ofNames (root ++ bucket :: segments)).toStr =
      some (Path.below (root.map Name.text) ++ '/' :: bucket.text ++
        Path.below (segments.map Name.text)) := by
    rw [Path.toStr_ofNames, List.map_append, List.map_cons, Path.render_append_cons]
    simp
  rw [fromBucket, htext, Option.bind_some,
    splitOnce_append (Path.below (segments.map Name.text)) hsplit, Option.map_some, decoded]

theorem leftover_of_not_occurs (hroot : ¬bucket.text <:+: Path.render (root.map Name.text)) :
    leftover root bucket = [] := by
  rw [infix_root_iff] at hroot
  have hsplit := splitOnce_append_cons bucket.slash_not_mem bucket.text_ne_nil hroot []
  rw [List.append_nil] at hsplit
  rw [leftover, hsplit]
  rfl

theorem leftover_of_splitOnce {before rest : Str}
    (hsplit : splitOnce bucket.text (Path.below (root.map Name.text)) = some (before, rest)) :
    leftover root bucket = rest ++ '/' :: bucket.text := by
  rw [leftover, splitOnce_append ('/' :: bucket.text) hsplit]
  rfl

theorem leftover_of_occurs (hroot : bucket.text <:+: Path.render (root.map Name.text)) :
    ∃ rest, leftover root bucket = rest ++ '/' :: bucket.text := by
  rw [infix_root_iff] at hroot
  obtain ⟨parts, hparts⟩ := Option.ne_none_iff_exists'.1
    (show splitOnce bucket.text (Path.below (root.map Name.text)) ≠ none by
      rw [Ne, splitOnce_eq_none_iff, not_not]
      exact hroot)
  exact ⟨parts.2, leftover_of_splitOnce root bucket hparts⟩

variable {root bucket}

theorem decoded_of_not_occurs (hroot : ¬bucket.text <:+: Path.render (root.map Name.text))
    (segments : List Name) :
    decoded root bucket (segments.map Name.text) = ofPath (segments.map Name.text) := by
  rw [decoded, leftover_of_not_occurs root bucket hroot, List.nil_append]
  apply ofRest_below
  intro s hs
  obtain ⟨name, -, rfl⟩ := List.mem_map.1 hs
  exact name.text_ne_nil

/-- With the bucket's name in the root, the key read back is the text behind
that occurrence, and it is longer than what the segments add to the path. -/
theorem decoded_of_occurs (hroot : bucket.text <:+: Path.render (root.map Name.text)) :
    ∃ rest : Str, rest ≠ [] ∧ rest ≠ ['.'] ∧
      ∀ segments, decoded root bucket segments = rest ++ Path.below segments := by
  obtain ⟨rest, hrest⟩ := leftover_of_occurs root bucket hroot
  have hne := bucket.text_ne_nil
  cases rest with
  | nil =>
      refine ⟨bucket.text, hne, bucket.text_ne_dot, fun segments => ?_⟩
      simp [decoded, hrest, ofRest, stripPrefix, hne]
  | cons c cs =>
      by_cases hc : c = '/'
      · refine ⟨cs ++ '/' :: bucket.text, by simp, ?_, fun segments => ?_⟩
        · cases cs <;> simp [hne]
        · simp [decoded, hrest, ofRest, stripPrefix, hc]
      · refine ⟨c :: cs ++ '/' :: bucket.text, by simp, by simp, fun segments => ?_⟩
        simp [decoded, hrest, ofRest, stripPrefix, Ne.symm hc]

theorem below_length_lt_of_decoded_eq
    (hroot : bucket.text <:+: Path.render (root.map Name.text)) {xs ys : List Segment}
    (heq : decoded root bucket xs = ofPath ys) :
    (Path.below xs).length < (Path.below ys).length := by
  obtain ⟨rest, hne, hdot, hdecoded⟩ := decoded_of_occurs hroot
  rw [hdecoded] at heq
  have hrest : 0 < rest.length := List.length_pos_iff.2 hne
  by_cases hys : ys = []
  · -- the key `.` is not a text that still holds the bucket's component
    subst hys
    have hlength := congrArg List.length heq
    simp only [ofPath_nil, Key.root, List.length_append, List.length_singleton] at hlength
    have hbelow : Path.below xs = [] := List.length_eq_zero_iff.1 (by omega)
    rw [hbelow, List.append_nil] at heq
    exact absurd heq hdot
  · rw [← ofPath_eq_tail_below hys, ← heq]
    simp only [List.length_cons, List.length_append]
    omega

theorem decoded_injOn {xs ys : List Name}
    (heq : decoded root bucket (xs.map Name.text) = decoded root bucket (ys.map Name.text)) :
    xs = ys := by
  by_cases hroot : bucket.text <:+: Path.render (root.map Name.text)
  · obtain ⟨rest, -, -, hdecoded⟩ := decoded_of_occurs hroot
    rw [hdecoded, hdecoded, List.append_cancel_left_eq] at heq
    exact List.map_injective_iff.2 Name.text_injective
      (Path.below_injOn (fun s hs => (isSegment_map_text xs s hs).2.1)
        (fun s hs => (isSegment_map_text ys s hs).2.1) heq)
  · rw [decoded_of_not_occurs hroot, decoded_of_not_occurs hroot] at heq
    exact List.map_injective_iff.2 Name.text_injective
      (ofPath_injOn (isSegment_map_text xs) (isSegment_map_text ys) heq)

theorem exists_parentLeaf_decoded (above : List Name) (bucket : Name) :
    ∃ more : List Segment,
      (more = [] → ¬bucket.text <:+: Path.render (above.map Name.text)) ∧
        ∀ (dir : List Name) (name : Name),
          (decoded above bucket ((dir ++ [name]).map Name.text)).parentLeaf =
            (more ++ dir.map Name.text, name.text) := by
  by_cases hoccurs : bucket.text <:+: Path.render (above.map Name.text)
  · obtain ⟨rest, hne, hdot, hdecoded⟩ := decoded_of_occurs hoccurs
    have hpath : path rest ≠ [] := by
      intro hnil
      rw [← ofPath_path rest, hnil] at hdot
      exact hdot rfl
    refine ⟨path rest, fun h => absurd h hpath, fun dir name => ?_⟩
    have hslash : ∀ s ∈ path rest ++ dir.map Name.text, '/' ∉ s := by
      intro s hs
      rcases List.mem_append.1 hs with hrest | hdir
      · exact slash_not_mem_path rest s hrest
      · exact (isSegment_map_text dir s hdir).2.1
    have hroot : ofPath (path rest ++ dir.map Name.text) ≠ root := by
      cases dir with
      | nil => rwa [List.map_nil, List.append_nil, ofPath_path]
      | cons first dir =>
          exact ofPath_ne_root hslash (List.mem_append_right _ List.mem_cons_self)
            first.text_ne_dot
    have hkey : decoded above bucket ((dir ++ [name]).map Name.text) =
        ofPath (path rest ++ dir.map Name.text) ++ '/' :: name.text := by
      rw [hdecoded, ← ofPath_append_below hpath, ofPath_path]
      simp
    rw [hkey, parentLeaf, rsplitOnce_append_cons _ name.slash_not_mem]
    simp only [path_ofPath_of_ne_root hslash hroot]
  · refine ⟨[], fun _ => hoccurs, fun dir name => ?_⟩
    rw [decoded_of_not_occurs hoccurs, List.map_append, List.map_singleton,
      parentLeaf_ofPath (isSegment_map_text dir) (IsName.isSegment name.isName), List.nil_append]

variable (root bucket)

theorem fromBucket_eq_ofPath_iff (segments : List Name) :
    fromBucket bucket.text (Path.ofNames (root ++ bucket :: segments)) =
        some (ofPath (segments.map Name.text)) ↔
      ¬bucket.text <:+: Path.render (root.map Name.text) := by
  rw [fromBucket_below, Option.some.injEq]
  constructor
  · intro heq hroot
    have hlt := below_length_lt_of_decoded_eq hroot heq
    exact absurd hlt (Nat.lt_irrefl _)
  · intro hroot
    exact decoded_of_not_occurs hroot segments

/-- The root `/data` and its bucket `a`: the key of the bucket reads `ta/a`. -/
theorem fromBucket_data_a :
    fromBucket ['a'] (Path.ofNames
        [⟨['d', 'a', 't', 'a'], by decide⟩, ⟨['a'], by decide⟩]) =
      some ['t', 'a', '/', 'a'] ∧
    fromBucket ['a'] (Path.ofNames
        [⟨['d', 'a', 't', 'a'], by decide⟩, ⟨['a'], by decide⟩]) ≠
      some (ofPath []) := by
  decide

end Key

end WsHyper.Directory
