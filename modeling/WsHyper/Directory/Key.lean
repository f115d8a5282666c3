import WsHyper.Lib.Panic
import WsHyper.Lib.Path

/-!
# Buckets, keys and segments

A bucket is a directory below the watched root, a key the path of a directory
inside its bucket as one text, with `.` for the bucket itself, and a segment one
component of a key.  `Key.fromBucket` cuts the key out of the text of a whole
path, at the first place where the name of the bucket occurs.
-/

namespace WsHyper.Directory

open WsHyper.Lib WsHyper.Lib.Text

abbrev Bucket := Str

abbrev Segment := Str

abbrev Key := Str

/-- A segment as a directory entry can be called, `..` apart. -/
def IsSegment (segment : Segment) : Prop :=
  segment ≠ [] ∧ '/' ∉ segment ∧ segment ≠ ['.']

instance (segment : Segment) : Decidable (IsSegment segment) :=
  inferInstanceAs (Decidable (_ ∧ _ ∧ _))

theorem IsName.isSegment {text : Str} (h : IsName text) : IsSegment text :=
  ⟨h.1, h.2.1, h.2.2.1⟩

theorem isSegment_map_text (names : List Name) : ∀ s ∈ names.map Name.text, IsSegment s := by
  intro s hs
  obtain ⟨name, -, rfl⟩ := List.mem_map.1 hs
  exact IsName.isSegment name.isName

namespace Key

def root : Key := ['.']

def isRoot (key : Key) : Bool := key = root

/-- The iterator over the segments of a key: the text split at every `/`. -/
def intoIter (key : Key) : List Segment := key.splitOn '/'

/-- The key that the text behind the name of the bucket stands for. -/
def ofRest (rest : Str) : Key :=
  let key := stripPrefix ['/'] rest
  if key = [] then root else key

def fromBucket (bucket : Bucket) (path : Path) : Option Key :=
  path.toStr.bind fun text => (splitOnce bucket text).map fun parts => ofRest parts.2

def path (key : Key) : List Segment :=
  if key.isRoot then [] else key.intoIter

def ofPath (segments : List Segment) : Key :=
  if segments = [] then root else ['/'].intercalate segments

/-- `.`, or segments joined by `/`. -/
def WellFormed (key : Key) : Prop :=
  ∃ segments : List Segment, (∀ s ∈ segments, IsSegment s) ∧ key = ofPath segments

/-- The way to the parent of a key, and its last segment. -/
def parentLeaf (key : Key) : List Segment × Segment :=
  match rsplitOnce '/' key with
  | some (parent, leaf) => (path parent, leaf)
  | none => ([], key)

theorem isSome_toStr_of_fromBucket {bucket : Bucket} {path : Path} {key : Key}
    (hkey : fromBucket bucket path = some key) : path.toStr.isSome := by
  rw [fromBucket] at hkey
  cases htext : path.toStr with
  | none => simp [htext] at hkey
  | some text => rfl

@[simp] theorem path_root : path root = [] := rfl

@[simp] theorem ofPath_nil : ofPath [] = root := rfl

theorem ofPath_of_ne_nil {segments : List Segment} (hne : segments ≠ []) :
    ofPath segments = ['/'].intercalate segments := if_neg hne

@[simp] theorem ofPath_singleton (segment : Segment) : ofPath [segment] = segment := by
  simp [ofPath]

theorem ofPath_ne_root {segments : List Segment} (hslash : ∀ s ∈ segments, '/' ∉ s)
    {segment : Segment} (hmem : segment ∈ segments) (hsegment : segment ≠ ['.']) :
    ofPath segments ≠ root := by
  intro heq
  have hne : segments ≠ [] := List.ne_nil_of_mem hmem
  have hsplit := List.splitOn_intercalate '/' hslash hne
  rw [← ofPath_of_ne_nil hne, heq, show root.splitOn '/' = [['.']] by decide] at hsplit
  rw [← hsplit, List.mem_singleton] at hmem
  exact hsegment hmem

theorem path_ofPath_of_ne_root {segments : List Segment} (hslash : ∀ s ∈ segments, '/' ∉ s)
    (hroot : ofPath segments ≠ root) : path (ofPath segments) = segments := by
  have hne : segments ≠ [] := by
    rintro rfl
    exact hroot rfl
  rw [path, isRoot, decide_eq_false hroot, if_neg (by simp), intoIter, ofPath_of_ne_nil hne]
  exact List.splitOn_intercalate '/' hslash hne

theorem path_ofPath {segments : List Segment} (hsegments : ∀ s ∈ segments, IsSegment s) :
    path (ofPath segments) = segments := by
  cases segments with
  | nil => rfl
  | cons s ss =>
      have hslash : ∀ x ∈ s :: ss, '/' ∉ x := fun x hx => (hsegments x hx).2.1
      exact path_ofPath_of_ne_root hslash
        (ofPath_ne_root hslash List.mem_cons_self (hsegments s List.mem_cons_self).2.2)

/-- Of labels without `/`, only no label and a single `.` share a key. -/
theorem ofPath_inj_of_ne_root {xs ys : List Segment} (hxs : ∀ s ∈ xs, '/' ∉ s)
    (hys : ∀ s ∈ ys, '/' ∉ s) (hroot : ofPath ys ≠ root) (heq : ofPath xs = ofPath ys) :
    xs = ys := by
  rw [← path_ofPath_of_ne_root hxs (heq ▸ hroot), heq, path_ofPath_of_ne_root hys hroot]

theorem ofPath_injOn {xs ys : List Segment} (hxs : ∀ s ∈ xs, IsSegment s)
    (hys : ∀ s ∈ ys, IsSegment s) (heq : ofPath xs = ofPath ys) : xs = ys := by
  rw [← path_ofPath hxs, heq, path_ofPath hys]

@[simp] theorem ofPath_path (key : Key) : ofPath key.path = key := by
  rw [path, isRoot]
  by_cases hroot : key = root
  · simp [hroot]
  · rw [decide_eq_false hroot, if_neg (by simp), intoIter,
      ofPath_of_ne_nil (List.splitOn_ne_nil '/' key)]
    exact List.intercalate_splitOn '/'

theorem ofPath_append_singleton {parent : List Segment} (hne : parent ≠ []) (leaf : Segment) :
    ofPath (parent ++ [leaf]) = ofPath parent ++ '/' :: leaf := by
  rw [ofPath_of_ne_nil (by simp), ofPath_of_ne_nil hne,
    intercalate_append ['/'] hne (by simp)]
  simp

theorem slash_not_mem_path (key : Key) : ∀ s ∈ key.path, '/' ∉ s := by
  intro s hs
  rw [path] at hs
  split_ifs at hs
  · cases hs
  · exact not_mem_of_mem_splitOn hs

theorem exists_path {segments : List Segment} (hslash : ∀ s ∈ segments, '/' ∉ s)
    {segment : Segment} (hmem : segment ∈ segments) (hsegment : segment ≠ ['.']) :
    ∃ key : Key, key.path = segments :=
  ⟨ofPath segments, path_ofPath_of_ne_root hslash (ofPath_ne_root hslash hmem hsegment)⟩

theorem parentLeaf_ofPath {parent : List Segment} {leaf : Segment}
    (hparent : ∀ s ∈ parent, IsSegment s) (hleaf : IsSegment leaf) :
    parentLeaf (ofPath (parent ++ [leaf])) = (parent, leaf) := by
  by_cases hne : parent = []
  · subst hne
    simp [parentLeaf, rsplitOnce_eq_none_iff.2 hleaf.2.1]
  · rw [ofPath_append_singleton hne, parentLeaf,
      rsplitOnce_append_cons _ hleaf.2.1]
    simp [path_ofPath hparent]

theorem ofPath_append_below {front : List Segment} (hne : front ≠ []) (segments : List Segment) :
    ofPath front ++ Path.below segments = ofPath (front ++ segments) := by
  induction segments generalizing front with
  | nil => simp
  | cons s segments ih =>
      calc
        _ = ofPath (front ++ [s]) ++ Path.below segments := by
          rw [ofPath_append_singleton hne, Path.below_cons, List.append_assoc]
        _ = ofPath (front ++ s :: segments) := by
          rw [ih (by simp), List.append_assoc, List.singleton_append]

theorem ofPath_eq_tail_below {segments : List Segment} (hne : segments ≠ []) :
    '/' :: ofPath segments = Path.below segments := by
  rw [ofPath_of_ne_nil hne, Path.below_of_ne_nil hne]

theorem ofRest_below {segments : List Segment} (hsegments : ∀ s ∈ segments, s ≠ []) :
    ofRest (Path.below segments) = ofPath segments := by
  by_cases hne : segments = []
  · subst hne
    rfl
  · rw [← ofPath_eq_tail_below hne, ofRest]
    have hkey : ofPath segments ≠ [] := by
      cases segments with
      | nil => exact absurd rfl hne
      | cons s ss =>
          have hs : s ≠ [] := hsegments s (by simp)
          cases ss with
          | nil => simpa using hs
          | cons s' ss => simp [ofPath, List.intercalate_cons_of_ne_nil]
    simp [stripPrefix, hkey]

end Key

end WsHyper.Directory
