import WsHyper.Directory.Manager
import WsHyper.Directory.Simulation

/-!
# Agreement of tree and database

Tree and database agree if they hold the same objects under the same bucket, key
and name, where the key of a directory is its whole path.  Renaming a key moves a
subtree in one step in the tree, while `set_name_key` rewrites the documents of
this very key to the bare new segment: the two agree afterwards exactly if no
document lies below the key, and none in it unless it is at the top of its bucket.
-/

namespace WsHyper.Directory

open WsHyper.Lib WsHyper.Lib.Text

def BucketMap.Holds (m : BucketMap) (bucket : Bucket) (key : Key) (name : Str) : Prop :=
  ∃ path, ∃ o ∈ m.view.items bucket path, Key.ofPath path = key ∧ o.fileName = name

def Collection.Holds (ls : Collection) (bucket : Bucket) (key : Key) (name : Str) : Prop :=
  ∃ d ∈ ls.docs, d.bucket = bucket ∧ d.key = key ∧ d.object.fileName = name

def Agree (m : BucketMap) (ls : Collection) : Prop :=
  ∀ bucket key name, m.Holds bucket key name ↔ ls.Holds bucket key name

/-- No label of the tree contains `/`. -/
def BucketMap.LabelsSlashFree (m : BucketMap) : Prop := m.view.LabelsIn fun s => '/' ∉ s

/-- Every label of the tree is one that a directory entry can have. -/
def BucketMap.LabelsPlain (m : BucketMap) : Prop := m.view.LabelsIn IsSegment

theorem BucketMap.LabelsPlain.slashFree {m : BucketMap} (h : m.LabelsPlain) :
    m.LabelsSlashFree :=
  fun bucket path hsome s hs => (h bucket path hsome s hs).2.1

namespace Key

theorem ofPath_append {xs ys : List Segment} (hxs : xs ≠ []) (hys : ys ≠ []) :
    ofPath (xs ++ ys) = ofPath xs ++ '/' :: ofPath ys := by
  rw [ofPath_of_ne_nil (by simp [hxs]), ofPath_of_ne_nil hxs, ofPath_of_ne_nil hys,
    intercalate_append ['/'] hxs hys]
  simp

/-- A key whose text starts with another one and `/` is the key of a place below. -/
theorem below_of_slash_prefix {xs ys : List Segment} (hxs : ∀ s ∈ xs, '/' ∉ s)
    (hys : ∀ s ∈ ys, '/' ∉ s) (hne : ys ≠ [])
    (hslash : ofPath ys ++ ['/'] <+: ofPath xs) : ∃ s rest, xs = ys ++ s :: rest := by
  obtain ⟨text, htext⟩ := hslash
  have hxsne : xs ≠ [] := by
    rintro rfl
    have hroot := congrArg (fun t => '/' ∈ t) htext
    simp [ofPath_nil, Key.root] at hroot
  have hsplit := List.splitOn_intercalate '/' hxs hxsne
  rw [← ofPath_of_ne_nil hxsne, ← htext, List.append_assoc, List.singleton_append,
    List.splitOn_append_cons_self, ofPath_of_ne_nil hne,
    List.splitOn_intercalate '/' hys hne] at hsplit
  cases hrest : text.splitOn '/' with
  | nil => exact absurd hrest (List.splitOn_ne_nil '/' text)
  | cons s rest => exact ⟨s, rest, by rw [← hsplit, hrest]⟩

def renamed (key : Key) (toName : Segment) : Key :=
  match rsplitOnce '/' key with
  | some (parent, _) => parent ++ '/' :: toName
  | none => toName

end Key

def moveKey (bucket : Bucket) (fromKey : Key) (toName : Segment) (d : Document) : Document :=
  if d.bucket = bucket ∧ d.key = fromKey then { d with key := fromKey.renamed toName }
  else if d.bucket = bucket ∧ fromKey ++ ['/'] <+: d.key then
    { d with key := fromKey.renamed toName ++ d.key.drop fromKey.length }
  else d

/-- No document below the key, and none in it unless the key has one segment. -/
def NoDocumentLost (ls : Collection) (bucket : Bucket) (fromKey : Key) : Prop :=
  (∀ d ∈ ls.docs, d.bucket = bucket → ¬fromKey ++ ['/'] <+: d.key) ∧
    ('/' ∉ fromKey ∨ ∀ d ∈ ls.docs, d.bucket = bucket → d.key ≠ fromKey)

/-! ## Renaming a key -/

theorem BucketMap.isSome_view_of_mem {m : BucketMap} {bucket : Bucket} {path : List Segment}
    {o : Object} (ho : o ∈ m.view.items bucket path) : (m.view bucket path).isSome := by
  rw [FlatMap.items] at ho
  cases hview : m.view bucket path with
  | none => simp [hview] at ho
  | some content => rfl

theorem BucketMap.slash_not_mem_of_mem {m : BucketMap} (hlabels : m.LabelsSlashFree)
    {bucket : Bucket} {path : List Segment} {o : Object} (ho : o ∈ m.view.items bucket path) :
    ∀ s ∈ path, '/' ∉ s :=
  hlabels bucket path (isSome_view_of_mem ho)

theorem BucketMap.holds_ofPath_iff {m : BucketMap} (hlabels : m.LabelsSlashFree)
    {bucket : Bucket} {path : List Segment} (hpath : ∀ s ∈ path, '/' ∉ s)
    (hroot : Key.ofPath path ≠ Key.root) {name : Str} :
    m.Holds bucket (Key.ofPath path) name ↔
      ∃ o ∈ m.view.items bucket path, o.fileName = name := by
  constructor
  · rintro ⟨path', o, ho, hkey, hname⟩
    have hsame := Key.ofPath_inj_of_ne_root (BucketMap.slash_not_mem_of_mem hlabels ho) hpath
      hroot hkey
    exact ⟨o, hsame ▸ ho, hname⟩
  · rintro ⟨o, ho, hname⟩
    exact ⟨path, o, ho, rfl, hname⟩

/-- With plain labels a key stands for one place, the one it splits into. -/
theorem BucketMap.holds_iff {m : BucketMap} (hplain : m.LabelsPlain) {bucket : Bucket}
    {key : Key} {name : Str} :
    m.Holds bucket key name ↔ ∃ o ∈ m.view.items bucket key.path, o.fileName = name := by
  constructor
  · rintro ⟨path, o, ho, rfl, hname⟩
    have hpath : (Key.ofPath path).path = path :=
      Key.path_ofPath (hplain bucket path (isSome_view_of_mem ho))
    exact ⟨o, hpath.symm ▸ ho, hname⟩
  · rintro ⟨o, ho, hname⟩
    exact ⟨key.path, o, ho, Key.ofPath_path key, hname⟩

theorem LocalStorage.holds_setNameKey {ls : Collection} {bucket : Bucket} {fromKey : Key}
    {toName : Segment} {bucket' : Bucket} {key : Key} {name : Str} :
    (LocalStorage.setNameKey ls bucket fromKey toName).Holds bucket' key name ↔
      ∃ d ∈ ls.docs, d.bucket = bucket' ∧ d.object.fileName = name ∧
        key = if d.bucket = bucket ∧ d.key = fromKey then toName else d.key := by
  constructor
  · rintro ⟨d', hd', hbucket, hkey, hname⟩
    obtain ⟨d, hd, rfl⟩ := List.mem_map.1 hd'
    refine ⟨d, hd, ?_⟩
    by_cases hmatch : d.bucket = bucket ∧ d.key = fromKey
    · simp only [decide_eq_true hmatch, if_true] at hbucket hkey hname
      exact ⟨hbucket, hname, by rw [if_pos hmatch, hkey]⟩
    · simp only [decide_eq_false hmatch] at hbucket hkey hname
      exact ⟨hbucket, hname, by rw [if_neg hmatch, ← hkey]; rfl⟩
  · rintro ⟨d, hd, hbucket, hname, hkey⟩
    refine ⟨_, List.mem_map_of_mem hd, ?_⟩
    by_cases hmatch : d.bucket = bucket ∧ d.key = fromKey
    · simp only [decide_eq_true hmatch, if_true]
      exact ⟨hbucket, by rw [hkey, if_pos hmatch], hname⟩
    · simp only [decide_eq_false hmatch]
      exact ⟨hbucket, by rw [hkey, if_neg hmatch]; rfl, hname⟩

section Renaming

variable {m m' : BucketMap} {ls : Collection} {bucket : Bucket} {parent : List Segment}
  {leaf toName : Segment}

theorem holds_movePath_iff (hview : m'.view = m.view.movePath bucket parent leaf toName)
    (hfree : m.view bucket (parent ++ [toName]) = none) {bucket' : Bucket} {key : Key}
    {name : Str} :
    m'.Holds bucket' key name ↔
      (bucket = bucket' ∧ ∃ rest, ∃ o ∈ m.view.items bucket (parent ++ leaf :: rest),
        Key.ofPath (parent ++ toName :: rest) = key ∧ o.fileName = name) ∨
      ∃ path, ∃ o ∈ m.view.items bucket' path,
        ¬(bucket = bucket' ∧ parent ++ [leaf] <+: path) ∧ Key.ofPath path = key ∧
          o.fileName = name := by
  rw [BucketMap.Holds, hview]
  simp only [FlatMap.mem_items_movePath]
  constructor
  · rintro ⟨path, o, ⟨hbucket, rest, rfl, ho⟩ | ⟨-, hfrom, ho⟩, hkey, hname⟩
    · exact .inl ⟨hbucket, rest, o, ho, hkey, hname⟩
    · exact .inr ⟨path, o, ho, hfrom, hkey, hname⟩
  · rintro (⟨hbucket, rest, o, ho, hkey, hname⟩ | ⟨path, o, ho, hfrom, hkey, hname⟩)
    · exact ⟨_, o, .inl ⟨hbucket, rest, rfl, ho⟩, hkey, hname⟩
    · refine ⟨path, o, .inr ⟨?_, hfrom, ho⟩, hkey, hname⟩
      -- nothing was in the place that the directory moves to
      rintro ⟨rfl, rest, rfl⟩
      have hnone := BucketMap.view_append_of_none hfree rest
      rw [FlatMap.items_of_none _ _ hnone] at ho
      simp at ho

/-- If the two agree afterwards, the directory had objects only at the top of its
bucket and not below. -/
theorem object_at_top_of_agree (hlabels : m.LabelsSlashFree) (hagree : Agree m ls)
    (hto : IsSegment toName)
    (hfree : m.view bucket (parent ++ [toName]) = none)
    (hview : m'.view = m.view.movePath bucket parent leaf toName)
    (hagree' : Agree m'
      (LocalStorage.setNameKey ls bucket (Key.ofPath (parent ++ [leaf])) toName))
    {rest : List Segment} {o : Object}
    (ho : o ∈ m.view.items bucket (parent ++ leaf :: rest)) : parent = [] ∧ rest = [] := by
  have hpath := BucketMap.slash_not_mem_of_mem hlabels ho
  rw [List.forall_mem_append, List.forall_mem_cons] at hpath
  have hpath' : ∀ s ∈ parent ++ toName :: rest, '/' ∉ s := by
    rw [List.forall_mem_append, List.forall_mem_cons]
    exact ⟨hpath.1, hto.2.1, hpath.2.2⟩
  have hmoved : m'.Holds bucket (Key.ofPath (parent ++ toName :: rest)) o.fileName :=
    (holds_movePath_iff hview hfree).2 (.inl ⟨rfl, rest, o, ho, rfl, rfl⟩)
  obtain ⟨d, hd, hbucket, hname, hkey⟩ :=
    LocalStorage.holds_setNameKey.1 ((hagree' _ _ _).1 hmoved)
  split_ifs at hkey with hmatch
  · -- a rewritten document has a key of one segment
    have hlist : parent ++ toName :: rest = [toName] := by
      apply Key.ofPath_inj_of_ne_root hpath' (by simpa using hto.2.1)
      · rw [Key.ofPath_singleton]
        exact hto.2.2
      · rw [hkey, Key.ofPath_singleton]
    cases parent with
    | nil => exact ⟨rfl, by simpa using hlist⟩
    | cons s parent => simp at hlist
  · -- no other document was in the place that the directory moves to
    have hheld : m.Holds bucket (Key.ofPath (parent ++ toName :: rest)) o.fileName :=
      (hagree _ _ _).2 ⟨d, hd, hbucket, hkey.symm, hname⟩
    have hroot := Key.ofPath_ne_root hpath' (List.mem_append_right _ List.mem_cons_self) hto.2.2
    obtain ⟨o', ho', -⟩ := (BucketMap.holds_ofPath_iff hlabels hpath' hroot).1 hheld
    have hnone := BucketMap.view_append_of_none hfree rest
    rw [List.append_assoc, List.singleton_append] at hnone
    rw [FlatMap.items_of_none _ _ hnone] at ho'
    simp at ho'

theorem noDocumentLost_of_agree (hlabels : m.LabelsSlashFree) (hagree : Agree m ls)
    (hfrom : ∀ s ∈ parent ++ [leaf], IsSegment s) (hto : IsSegment toName)
    (hfree : m.view bucket (parent ++ [toName]) = none)
    (hview : m'.view = m.view.movePath bucket parent leaf toName)
    (hagree' : Agree m'
      (LocalStorage.setNameKey ls bucket (Key.ofPath (parent ++ [leaf])) toName)) :
    NoDocumentLost ls bucket (Key.ofPath (parent ++ [leaf])) := by
  have hslash : ∀ s ∈ parent ++ [leaf], '/' ∉ s := fun s hs => (hfrom s hs).2.1
  have hroot : Key.ofPath (parent ++ [leaf]) ≠ Key.root :=
    Key.ofPath_ne_root hslash List.mem_concat_self (hfrom leaf List.mem_concat_self).2.2
  have htop : ∀ {rest : List Segment} {o : Object},
      o ∈ m.view.items bucket (parent ++ leaf :: rest) → parent = [] ∧ rest = [] :=
    object_at_top_of_agree hlabels hagree hto hfree hview hagree'
  constructor
  · rintro d hd hbucket hbelow
    obtain ⟨path, o, ho, hkey, -⟩ : m.Holds bucket d.key d.object.fileName :=
      (hagree _ _ _).2 ⟨d, hd, hbucket, rfl, rfl⟩
    obtain ⟨s, rest, rfl⟩ := Key.below_of_slash_prefix
      (BucketMap.slash_not_mem_of_mem hlabels ho) hslash (by simp) (hkey ▸ hbelow)
    rw [List.append_assoc, List.singleton_append] at ho
    exact absurd (htop ho).2 (by simp)
  · by_cases hparent : parent = []
    · left
      rw [hparent, List.nil_append, Key.ofPath_singleton]
      exact (hfrom leaf (by simp)).2.1
    · right
      rintro d hd hbucket hkey
      have hheld : m.Holds bucket (Key.ofPath (parent ++ [leaf])) d.object.fileName :=
        (hagree _ _ _).2 ⟨d, hd, hbucket, hkey, rfl⟩
      obtain ⟨o, ho, -⟩ := (BucketMap.holds_ofPath_iff hlabels hslash hroot).1 hheld
      exact hparent (htop ho).1

theorem object_at_top_of_noDocumentLost (hagree : Agree m ls)
    (hlost : NoDocumentLost ls bucket (Key.ofPath (parent ++ [leaf]))) {rest : List Segment}
    {o : Object} (ho : o ∈ m.view.items bucket (parent ++ leaf :: rest)) :
    parent = [] ∧ rest = [] := by
  obtain ⟨hbelow, htop⟩ := hlost
  obtain ⟨d, hd, hbucket, hkey, -⟩ : ls.Holds bucket (Key.ofPath (parent ++ leaf :: rest))
      o.fileName := (hagree _ _ _).1 ⟨_, o, ho, rfl, rfl⟩
  have hrest : rest = [] := by
    by_contra hne
    apply hbelow d hd hbucket
    have hleaf : parent ++ [leaf] ≠ [] := by simp
    have hkeys := Key.ofPath_append hleaf hne
    rw [List.append_assoc, List.singleton_append] at hkeys
    rw [hkey, hkeys]
    exact ⟨Key.ofPath rest, by simp⟩
  refine ⟨?_, hrest⟩
  by_contra hne
  rw [hrest] at hkey
  rcases htop with hslash | hnone
  · rw [Key.ofPath_append hne (by simp)] at hslash
    simp at hslash
  · exact hnone d hd hbucket hkey

theorem agree_of_noDocumentLost (hlabels : m.LabelsSlashFree) (hagree : Agree m ls)
    (hfrom : ∀ s ∈ parent ++ [leaf], IsSegment s)
    (hfree : m.view bucket (parent ++ [toName]) = none)
    (hview : m'.view = m.view.movePath bucket parent leaf toName)
    (hlost : NoDocumentLost ls bucket (Key.ofPath (parent ++ [leaf]))) :
    Agree m' (LocalStorage.setNameKey ls bucket (Key.ofPath (parent ++ [leaf])) toName) := by
  have hslash : ∀ s ∈ parent ++ [leaf], '/' ∉ s := fun s hs => (hfrom s hs).2.1
  have hroot : Key.ofPath (parent ++ [leaf]) ≠ Key.root :=
    Key.ofPath_ne_root hslash List.mem_concat_self (hfrom leaf List.mem_concat_self).2.2
  have htop : ∀ {rest : List Segment} {o : Object},
      o ∈ m.view.items bucket (parent ++ leaf :: rest) → parent = [] ∧ rest = [] :=
    object_at_top_of_noDocumentLost hagree hlost
  intro bucket' key name
  rw [holds_movePath_iff hview hfree, LocalStorage.holds_setNameKey]
  constructor
  · rintro (⟨rfl, rest, o, ho, rfl, hname⟩ | ⟨path, o, ho, hnot, rfl, hname⟩)
    · obtain ⟨rfl, rfl⟩ := htop ho
      obtain ⟨d, hd, hbucket, hkey, hname'⟩ : ls.Holds bucket (Key.ofPath [leaf]) o.fileName :=
        (hagree _ _ _).1 ⟨_, o, ho, rfl, rfl⟩
      refine ⟨d, hd, hbucket, hname'.trans hname, ?_⟩
      rw [if_pos ⟨hbucket, hkey⟩]
      simp
    · obtain ⟨d, hd, hbucket, hkey, hname'⟩ : ls.Holds bucket' (Key.ofPath path) o.fileName :=
        (hagree _ _ _).1 ⟨path, o, ho, rfl, rfl⟩
      refine ⟨d, hd, hbucket, hname'.trans hname, ?_⟩
      rw [if_neg, hkey]
      rintro ⟨hbucket', hkey'⟩
      have hpath := Key.ofPath_inj_of_ne_root (BucketMap.slash_not_mem_of_mem hlabels ho) hslash
        hroot (hkey.symm.trans hkey')
      exact hnot ⟨hbucket'.symm.trans hbucket, hpath ▸ List.prefix_rfl⟩
  · rintro ⟨d, hd, hbucket, hname, hkey⟩
    split_ifs at hkey with hmatch
    · have hheld : m.Holds bucket (Key.ofPath (parent ++ [leaf])) d.object.fileName :=
        (hagree _ _ _).2 ⟨d, hd, hmatch.1, hmatch.2, rfl⟩
      obtain ⟨o, ho, hname'⟩ := (BucketMap.holds_ofPath_iff hlabels hslash hroot).1 hheld
      obtain ⟨rfl, -⟩ := htop ho
      refine .inl ⟨hmatch.1.symm.trans hbucket, [], o, ho, ?_, hname'.trans hname⟩
      simp [hkey]
    · obtain ⟨path, o, ho, hpath, hname'⟩ : m.Holds bucket' d.key d.object.fileName :=
        (hagree _ _ _).2 ⟨d, hd, hbucket, rfl, rfl⟩
      refine .inr ⟨path, o, ho, ?_, hpath.trans hkey.symm, hname'.trans hname⟩
      rintro ⟨rfl, rest, rfl⟩
      rw [List.append_assoc, List.singleton_append] at ho
      obtain ⟨-, rfl⟩ := htop ho
      exact hmatch ⟨hbucket, by rw [← hpath, List.append_nil]⟩

theorem docs_of_noDocumentLost {fromKey : Key} (hlost : NoDocumentLost ls bucket fromKey) :
    (LocalStorage.setNameKey ls bucket fromKey toName).docs =
      ls.docs.map (moveKey bucket fromKey toName) := by
  apply List.map_congr_left
  intro d hd
  obtain ⟨hbelow, htop⟩ := hlost
  rw [moveKey]
  by_cases hmatch : d.bucket = bucket ∧ d.key = fromKey
  · rcases htop with hslash | hnone
    · rw [if_pos hmatch, Key.renamed, rsplitOnce_eq_none_iff.2 hslash]
      simp [hmatch]
    · exact absurd hmatch.2 (hnone d hd hmatch.1)
  · have hnot : ¬(d.bucket = bucket ∧ fromKey ++ ['/'] <+: d.key) :=
      fun h => hbelow d hd h.1 h.2
    rw [if_neg hmatch, if_neg hnot]
    simp [hmatch]

end Renaming

/-- Tree and database agree after a key got its new name exactly if no document
was below the key, nor in it at a depth of two or more; then every document moved
with its directory. -/
theorem nameKey_agree_iff (manager : Manager) (fresh : Broker) (bucket : Bucket)
    (fromKey : Key) (toName : Segment) (hlabels : manager.state.LabelsSlashFree)
    (hagree : Agree manager.state manager.localStorage) (hkey : fromKey.WellFormed)
    (htarget : manager.state.TargetPresent (.nameKey bucket fromKey toName)) :
    ∃ manager', manager.handleChange fresh (.nameKey bucket fromKey toName) = .ok manager' ∧
      (Agree manager'.state manager'.localStorage ↔
        NoDocumentLost manager.localStorage bucket fromKey) ∧
      (NoDocumentLost manager.localStorage bucket fromKey →
        manager'.localStorage.docs =
          manager.localStorage.docs.map (moveKey bucket fromKey toName)) := by
  obtain ⟨hroot, hpresent, hto, hfree⟩ := htarget
  have hpath := BucketMap.path_eq_parentLeaf hkey hroot
  obtain ⟨segments, hfrom, rfl⟩ := hkey
  rw [BucketMap.getEntry_eq] at hpresent
  rw [Key.path_ofPath hfrom] at hpath hpresent hfree
  cases hleaf : (Key.ofPath segments).parentLeaf with
  | mk parent leaf =>
      rw [hleaf] at hpath
      subst hpath
      rw [List.dropLast_concat] at hfree
      obtain ⟨m', hchange, hview⟩ := BucketMap.view_nameKey fresh hleaf hpresent hfree
      refine ⟨⟨m', LocalStorage.setNameKey manager.localStorage bucket
        (Key.ofPath (parent ++ [leaf])) toName⟩, ?_, ?_, docs_of_noDocumentLost⟩
      · rw [Manager.handleChange, hchange]
        rfl
      · constructor
        · exact noDocumentLost_of_agree hlabels hagree hfrom hto hfree hview
        · exact agree_of_noDocumentLost hlabels hagree hfrom hfree hview

/-! ## A nested key -/

def nestedDocument : Document :=
  { id := 0, bucket := ['b'], key := ['k', '/', 'l'], object := .named ['x'], objectName := none }

def nestedManager : Manager where
  state := BucketMap.nestedTree
  localStorage :=
    { docs := [nestedDocument], nextId := 1, ids_nodup := by decide, ids_lt := by decide }

theorem view_single {entry child : KeyEntry} {segment : Segment}
    (hkeys : entry.keys = some [(segment, child)]) (s : Segment) (path : List Segment) :
    BucketMap.branching.view entry (s :: path) =
      if segment = s then BucketMap.branching.view child path else none := by
  rw [Branching.view_cons, Branching.child]
  by_cases hs : segment = s <;> simp [BucketMap.branching, hkeys, hs]

theorem view_no_keys {entry : KeyEntry} (hkeys : entry.keys = none) (s : Segment)
    (path : List Segment) : BucketMap.branching.view entry (s :: path) = none := by
  rw [Branching.view_cons, Branching.child]
  simp [BucketMap.branching, hkeys]

theorem view_nestedTree (bucket : Bucket) (path : List Segment) :
    BucketMap.nestedTree.view bucket path =
      if ['b'] = bucket then
        if [] = path then some (0, 1)
        else if [['k']] = path then some (0, 2)
        else if [['k'], ['l']] = path then some ({Object.named ['x']}, 3)
        else none
      else none := by
  rw [BucketMap.view, BucketMap.nestedTree, AssocMap.lookup_cons_eq]
  by_cases hbucket : ['b'] = bucket
  · rw [if_pos hbucket, if_pos hbucket, Option.bind_some]
    rcases path with _ | ⟨s, _ | ⟨t, _ | ⟨u, path⟩⟩⟩
    · rfl
    · rw [view_single rfl]
      by_cases hs : ['k'] = s <;> simp [hs, BucketMap.branching]
    · rw [view_single rfl, view_single rfl]
      by_cases hs : ['k'] = s <;> by_cases ht : ['l'] = t <;> simp [hs, ht, BucketMap.branching]
    · rw [view_single rfl, view_single rfl, view_no_keys rfl]
      simp
  · simp [hbucket]

theorem nestedTree_labelsPlain : BucketMap.nestedTree.LabelsPlain := by
  intro bucket path hsome
  rw [view_nestedTree] at hsome
  split_ifs at hsome with hbucket hroot hk hl
  · rw [← hroot]
    decide
  · rw [← hk]
    decide
  · rw [← hl]
    decide
  · simp at hsome
  · simp at hsome

theorem nestedTree_labelsSlashFree : BucketMap.nestedTree.LabelsSlashFree :=
  nestedTree_labelsPlain.slashFree

theorem mem_items_nestedTree {bucket : Bucket} {path : List Segment} {o : Object} :
    o ∈ BucketMap.nestedTree.view.items bucket path ↔
      bucket = ['b'] ∧ path = [['k'], ['l']] ∧ o = .named ['x'] := by
  rw [FlatMap.items, view_nestedTree]
  split_ifs with hbucket hroot hk hl
  · simp [← hroot]
  · simp [← hk]
  · simp [← hl, hbucket]
  · simp [Ne.symm hl]
  · simp [Ne.symm hbucket]

theorem nestedManager_agree : Agree nestedManager.state nestedManager.localStorage := by
  intro bucket key name
  constructor
  · rintro ⟨path, o, ho, hkey, hname⟩
    obtain ⟨rfl, rfl, rfl⟩ := mem_items_nestedTree.1 ho
    exact ⟨nestedDocument, by simp [nestedManager], rfl, hkey, hname⟩
  · rintro ⟨d, hd, hbucket, hkey, hname⟩
    obtain rfl : d = nestedDocument := by simpa [nestedManager] using hd
    exact ⟨_, _, mem_items_nestedTree.2 ⟨hbucket.symm, rfl, rfl⟩, hkey, hname⟩

theorem nameKey_nestedManager :
    ∃ manager', nestedManager.handleChange 4 (.nameKey ['b'] ['k', '/', 'l'] ['z']) =
        .ok manager' ∧
      (Agree manager'.state manager'.localStorage ↔
        NoDocumentLost nestedManager.localStorage ['b'] ['k', '/', 'l']) ∧
      (NoDocumentLost nestedManager.localStorage ['b'] ['k', '/', 'l'] →
        manager'.localStorage.docs =
          nestedManager.localStorage.docs.map (moveKey ['b'] ['k', '/', 'l'] ['z'])) :=
  nameKey_agree_iff nestedManager 4 ['b'] ['k', '/', 'l'] ['z'] nestedTree_labelsSlashFree
    nestedManager_agree ⟨[['k'], ['l']], by decide, rfl⟩ ⟨by decide, rfl, by decide, rfl⟩

/-- The key `k/l` gets the name `z`: the tree has its object in `k/z`, the
database under the key `z`. -/
theorem nested_document_lost :
    nestedManager.state.LabelsSlashFree ∧
      Agree nestedManager.state nestedManager.localStorage ∧
      nestedManager.state.TargetPresent (.nameKey ['b'] ['k', '/', 'l'] ['z']) ∧
      ∃ manager', nestedManager.handleChange 4 (.nameKey ['b'] ['k', '/', 'l'] ['z']) =
          .ok manager' ∧
        manager'.localStorage.docs = [{ nestedDocument with key := ['z'] }] ∧
        ¬Agree manager'.state manager'.localStorage := by
  refine ⟨nestedTree_labelsSlashFree, nestedManager_agree, ⟨by decide, rfl, by decide, rfl⟩, _,
    rfl, rfl, ?_⟩
  intro hagree
  obtain ⟨d, hd, -, hkey, -⟩ := (hagree ['b'] ['k', '/', 'z'] ['x']).1
    ⟨[['k'], ['z']], .named ['x'], by decide, rfl, rfl⟩
  change d ∈ [{ nestedDocument with key := ['z'] }] at hd
  rw [List.mem_singleton.1 hd] at hkey
  exact absurd hkey (by decide)

end WsHyper.Directory
