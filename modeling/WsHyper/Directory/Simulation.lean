import WsHyper.Directory.FlatView

/-!
# The tree simulates the flat store

A change over well-formed keys whose target is present succeeds and has exactly
its effect on the view: `view_change`.  Keys are cut into parent and last segment
by the source; for a well-formed key this is the cut of its path.
-/

namespace WsHyper.Directory

open WsHyper.Lib WsHyper.Lib.Text

/-- Every key of the change is `.` or plain segments joined by `/`. -/
def Change.WellFormed : Change → Prop
  | .newObject _ key _ | .newKey _ key | .nameObject _ key _ _ | .nameKey _ key _
  | .deleteObject _ key _ | .deleteKey _ key => key.WellFormed
  | .newBucket _ | .nameBucket _ _ | .deleteBucket _ => True

/-- What a change does to the flat store. -/
def Change.Effect (fresh : Broker) (V V' : View) : Change → Prop
  | .newObject bucket key object => V' = V.addItem bucket key.path object
  | .newKey bucket key => V' = V.addPlace bucket key.path fresh
  | .newBucket bucket => V' = V.addPlace bucket [] fresh
  | .nameObject bucket key fromName toName =>
      ∃ o ∈ V.items bucket key.path, o.fileName = fromName ∧
        V' = V.replaceItem bucket key.path o { o with fileName := toName }
  | .nameBucket fromName toName => V' = V.moveRoot fromName toName
  | .nameKey bucket fromKey toName =>
      ∃ parent leaf, fromKey.path = parent ++ [leaf] ∧
        V' = V.movePath bucket parent leaf toName
  | .deleteObject bucket key fileName =>
      ∃ o ∈ V.items bucket key.path, o.fileName = fileName ∧
        V' = V.eraseItem bucket key.path o
  | .deleteKey bucket key => V' = V.drop bucket key.path
  | .deleteBucket bucket => V' = V.drop bucket []

namespace BucketMap

def TargetPresent (m : BucketMap) : Change → Prop
  | .newObject bucket key _ => (m.getEntry bucket key).isSome
  | .newKey bucket key =>
      key ≠ Key.root ∧
        ∃ entry, m.entryAt bucket key.path.dropLast = some entry ∧ entry.keys.isSome
  | .newBucket _ => True
  | .nameObject bucket key fromName _ => (m.getObject bucket key fromName).isSome
  | .nameBucket fromName toName =>
      (m.tree.lookup fromName).isSome ∧ m.tree.lookup toName = none
  | .nameKey bucket fromKey toName =>
      fromKey ≠ Key.root ∧ (m.getEntry bucket fromKey).isSome ∧ IsSegment toName ∧
        m.view bucket (fromKey.path.dropLast ++ [toName]) = none
  | .deleteObject bucket key fileName => (m.getObject bucket key fileName).isSome
  | .deleteKey bucket key => key ≠ Key.root ∧ (m.getEntry bucket key).isSome
  | .deleteBucket bucket => (m.tree.lookup bucket).isSome

/-! ## Objects and parents in the view -/

theorem items_eq {m : BucketMap} {bucket : Bucket} {key : Key} :
    m.view.items bucket key.path =
      (((m.getEntry bucket key).bind KeyEntry.objects).getD [] : List Object) := by
  rw [FlatMap.items, view_eq_map_entryAt, getEntry_eq]
  cases m.entryAt bucket key.path <;> simp [branching]

theorem getObject_isSome_iff {m : BucketMap} {bucket : Bucket} {key : Key} {name : Str} :
    (m.getObject bucket key name).isSome ↔
      ∃ o ∈ m.view.items bucket key.path, o.fileName = name := by
  rw [items_eq, getObject]
  cases m.getEntry bucket key with
  | none => simp
  | some entry =>
      cases hobjects : entry.objects with
      | none => simp [hobjects]
      | some objects => simp [hobjects, List.find?_isSome]

theorem getObject_eq_none_iff {m : BucketMap} {bucket : Bucket} {key : Key}
    {name : Str} :
    m.getObject bucket key name = none ↔
      ∀ o ∈ m.view.items bucket key.path, o.fileName ≠ name := by
  rw [← Option.not_isSome_iff_eq_none, getObject_isSome_iff]
  simp

theorem path_eq_parentLeaf {key : Key} (hkey : key.WellFormed) (hroot : key ≠ Key.root) :
    key.path = key.parentLeaf.1 ++ [key.parentLeaf.2] := by
  obtain ⟨segments, hsegments, rfl⟩ := hkey
  have hne : segments ≠ [] := by
    rintro rfl
    exact hroot rfl
  obtain ⟨parent, leaf, rfl⟩ : ∃ parent leaf, segments = parent ++ [leaf] :=
    ⟨_, _, (List.dropLast_concat_getLast hne).symm⟩
  have hparent : ∀ s ∈ parent, IsSegment s := fun s hs => hsegments s (by simp [hs])
  rw [Key.parentLeaf_ofPath hparent (hsegments leaf (by simp)), Key.path_ofPath hsegments]

theorem exists_keys_of_child {m : BucketMap} {bucket : Bucket} {parent : List Segment}
    {leaf : Segment} (hchild : (m.entryAt bucket (parent ++ [leaf])).isSome) :
    ∃ entry write keys child, m.borrowAt bucket parent = some (entry, write) ∧
      entry.keys = some keys ∧ keys.lookup leaf = some child := by
  obtain ⟨child, hchild⟩ := Option.isSome_iff_exists.1 hchild
  rw [entryAt_append_singleton, Option.bind_eq_some_iff] at hchild
  obtain ⟨entry, hentry, hleaf⟩ := hchild
  rw [Branching.child, Option.bind_eq_some_iff] at hleaf
  obtain ⟨keys, hkeys, hlookup⟩ := hleaf
  obtain ⟨write, hborrow⟩ := exists_borrowAt hentry
  exact ⟨entry, write, keys, child, hborrow, hkeys, hlookup⟩

/-! ## The changes of keys, with their target present -/

section KeyChanges

variable {m : BucketMap} (fresh : Broker) {bucket : Bucket} {key : Key}
  {parent : List Segment} {leaf : Segment}

theorem view_newKey (hleaf : key.parentLeaf = (parent, leaf)) {entry : KeyEntry}
    (hentry : m.entryAt bucket parent = some entry) (hkeys : entry.keys.isSome) :
    ∃ m', m.change fresh (.newKey bucket key) = .ok m' ∧
      m'.view = m.view.addPlace bucket (parent ++ [leaf]) fresh := by
  obtain ⟨keys, hkeys⟩ := Option.isSome_iff_exists.1 hkeys
  obtain ⟨write, hborrow⟩ := exists_borrowAt hentry
  rw [change_newKey, hleaf, withKeys_of_keys hborrow hkeys]
  exact ⟨_, rfl, view_orInsert fresh hborrow hkeys leaf⟩

theorem view_nameKey (hleaf : key.parentLeaf = (parent, leaf))
    (hpresent : (m.entryAt bucket (parent ++ [leaf])).isSome) {toName : Segment}
    (hfree : m.view bucket (parent ++ [toName]) = none) :
    ∃ m', m.change fresh (.nameKey bucket key toName) = .ok m' ∧
      m'.view = m.view.movePath bucket parent leaf toName := by
  obtain ⟨entry, write, keys, child, hborrow, hkeys, hchild⟩ := exists_keys_of_child hpresent
  have hnone : (keys.lookup toName).isSome = false := by
    rw [isSome_lookup_iff hborrow hkeys, hfree, Option.isSome_none]
  rw [change_nameKey, hleaf, withKeys_of_keys hborrow hkeys, hnone]
  refine ⟨_, rfl, ?_⟩
  rw [hchild, Option.getD_some]
  exact view_insert_erase hborrow hkeys hchild toName

theorem view_deleteKey (hleaf : key.parentLeaf = (parent, leaf))
    (hpresent : (m.entryAt bucket (parent ++ [leaf])).isSome) :
    ∃ m', m.change fresh (.deleteKey bucket key) = .ok m' ∧
      m'.view = m.view.drop bucket (parent ++ [leaf]) := by
  obtain ⟨entry, write, keys, child, hborrow, hkeys, hchild⟩ := exists_keys_of_child hpresent
  rw [change_deleteKey, hleaf, withKeys_of_keys hborrow hkeys, hchild]
  exact ⟨_, rfl, view_erase hborrow hkeys leaf⟩

end KeyChanges

/-- A change whose target is present has exactly its effect on the view. -/
theorem view_change (m : BucketMap) (fresh : Broker) (c : Change) (hkeys : c.WellFormed)
    (htarget : m.TargetPresent c) :
    ∃ m', m.change fresh c = .ok m' ∧ c.Effect fresh m.view m'.view := by
  cases c with
  | newObject bucket key object => exact view_newObject m fresh bucket key object
  | newKey bucket key =>
      obtain ⟨hroot, entry, hentry, hsome⟩ := htarget
      have hpath := path_eq_parentLeaf hkeys hroot
      rw [hpath, List.dropLast_concat] at hentry
      obtain ⟨m', hchange, hview⟩ := view_newKey fresh rfl hentry hsome
      refine ⟨m', hchange, ?_⟩
      rwa [Change.Effect, hpath]
  | newBucket bucket => exact view_newBucket m fresh bucket
  | nameObject bucket key fromName toName =>
      exact view_nameObject m fresh (getObject_isSome_iff.1 htarget) toName
  | nameBucket fromName toName =>
      exact view_nameBucket m fresh (isSome_view_nil m fromName ▸ htarget.1) toName
  | nameKey bucket fromKey toName =>
      obtain ⟨hroot, hpresent, -, hfree⟩ := htarget
      have hpath := path_eq_parentLeaf hkeys hroot
      rw [getEntry_eq, hpath] at hpresent
      rw [hpath, List.dropLast_concat] at hfree
      obtain ⟨m', hchange, hview⟩ := view_nameKey fresh rfl hpresent hfree
      exact ⟨m', hchange, _, _, hpath, hview⟩
  | deleteObject bucket key fileName =>
      exact view_deleteObject m fresh (getObject_isSome_iff.1 htarget)
  | deleteKey bucket key =>
      obtain ⟨hroot, hpresent⟩ := htarget
      have hpath := path_eq_parentLeaf hkeys hroot
      rw [getEntry_eq, hpath] at hpresent
      obtain ⟨m', hchange, hview⟩ := view_deleteKey fresh rfl hpresent
      refine ⟨m', hchange, ?_⟩
      rwa [Change.Effect, hpath]
  | deleteBucket bucket => exact view_deleteBucket m fresh bucket

def nestedTree : BucketMap :=
  let leaf : KeyEntry := { objects := some [.named ['x']], keys := none, broker := 3 }
  let parent : KeyEntry := { objects := none, keys := some [(['l'], leaf)], broker := 2 }
  { new [] 0 with
    tree := [(['b'], { objects := none, keys := some [(['k'], parent)], broker := 1 })] }

theorem view_change_nestedTree :
    ∃ m', nestedTree.change 4 (.nameKey ['b'] ['k', '/', 'l'] ['z']) = .ok m' ∧
      (Change.nameKey ['b'] ['k', '/', 'l'] ['z']).Effect 4 nestedTree.view m'.view :=
  view_change nestedTree 4 _ ⟨[['k'], ['l']], by decide, rfl⟩ ⟨by decide, rfl, by decide, rfl⟩

end BucketMap

end WsHyper.Directory
