import WsHyper.Directory.ChangeRuns

/-!
# Names of objects

The database has a unique index over bucket, key and name; the tree has no such
check.  `namesUnique_run_iff` says for every run when no entry ever holds two
objects of one name: exactly if no `NewObject` and no `NameObject` brings in a
name that its entry already holds.
-/

namespace WsHyper.Directory

open WsHyper.Lib WsHyper.Lib.Text

namespace BucketMap

/-- No entry holds two objects of one name. -/
def NamesUnique (m : BucketMap) : Prop := m.view.Distinct Object.fileName

def NameFree (m : BucketMap) (c : Broker × Change) : Prop :=
  match c.2 with
  | .newObject bucket key object => m.getObject bucket key object.fileName = none
  | .nameObject bucket key fromName toName =>
      m.getObject bucket key fromName = none ∨ toName = fromName ∨
        m.getObject bucket key toName = none
  | _ => True

variable {m m' : BucketMap}

/-! ## Changes of buckets and keys move the objects of an entry as a whole -/

section Moves

variable {fresh : Broker} {bucket : Bucket}

theorem rearranges_of_newKey {key : Key} (hstep : m.Step (fresh, .newKey bucket key) m') :
    m.view.Rearranges m'.view := by
  rcases view_of_newKey hstep with hview | ⟨-, hview⟩
  · rw [hview]
    exact FlatMap.rearranges_refl _
  · rw [hview]
    exact FlatMap.rearranges_addPlace _ _ _

theorem rearranges_of_nameKey {fromKey : Key} {toName : Segment}
    (hstep : m.Step (fresh, .nameKey bucket fromKey toName) m') :
    m.view.Rearranges m'.view := by
  rcases view_of_nameKey hstep with hview | ⟨-, hview | hview⟩
  · rw [hview]
    exact FlatMap.rearranges_refl _
  · rw [hview]
    exact FlatMap.rearranges_addPlace _ _ _
  · rw [hview]
    exact FlatMap.rearranges_movePath _ _ _ _

theorem rearranges_of_deleteKey {key : Key}
    (hstep : m.Step (fresh, .deleteKey bucket key) m') : m.view.Rearranges m'.view := by
  rcases view_of_deleteKey hstep with hview | hview
  · rw [hview]
    exact FlatMap.rearranges_refl _
  · rw [hview]
    exact FlatMap.rearranges_drop _ _

theorem rearranges_of_nameBucket {fromName toName : Bucket}
    (hstep : m.Step (fresh, .nameBucket fromName toName) m') :
    m.view.Rearranges m'.view := by
  rcases view_of_nameBucket hstep with hview | hview
  · rw [hview]
    exact FlatMap.rearranges_refl _
  · rw [hview]
    exact FlatMap.rearranges_moveRoot _ _

end Moves

/-! ## One step -/

section Step

variable {fresh : Broker}

theorem forall_step_iff {c : Change} {m'' : BucketMap} (hchange : m.change fresh c = .ok m'') :
    (∀ m', m.Step (fresh, c) m' → m'.NamesUnique) ↔ m''.NamesUnique := by
  constructor
  · exact fun h => h m'' hchange
  · intro h m' hstep
    rwa [step_deterministic m (fresh, c) m' m'' hstep hchange]

theorem step_newObject_iff {bucket : Bucket} {key : Key} {object : Object}
    (hunique : m.NamesUnique) :
    (∀ m', m.Step (fresh, .newObject bucket key object) m' → m'.NamesUnique) ↔
      m.NameFree (fresh, .newObject bucket key object) := by
  obtain ⟨m'', hchange, hview⟩ := view_newObject m fresh bucket key object
  rw [forall_step_iff hchange, NamesUnique, hview]
  simp only [NameFree, getObject_eq_none_iff]
  cases hplace : m.view bucket key.path with
  | none =>
      rw [FlatMap.addItem, FlatMap.update_eq_self (by simp [hplace]),
        FlatMap.items_of_none _ _ hplace]
      exact iff_of_true hunique (by simp)
  | some content =>
      exact FlatMap.distinct_addItem_iff hunique (by rw [hplace, Option.isSome_some])

theorem step_nameObject_iff {bucket : Bucket} {key : Key} {fromName toName : Str}
    (hunique : m.NamesUnique) :
    (∀ m', m.Step (fresh, .nameObject bucket key fromName toName) m' → m'.NamesUnique) ↔
      m.NameFree (fresh, .nameObject bucket key fromName toName) := by
  simp only [NameFree]
  cases hobject : m.getObject bucket key fromName with
  | none =>
      have habsent := view_nameObject_of_absent m fresh (getObject_eq_none_iff.1 hobject) toName
      rw [forall_step_iff habsent]
      exact iff_of_true hunique (.inl rfl)
  | some object =>
      have hpresent := getObject_isSome_iff.1 (hobject ▸ Option.isSome_some)
      obtain ⟨m'', hchange, o, ho, rfl, hview⟩ := view_nameObject m fresh hpresent toName
      rw [forall_step_iff hchange, NamesUnique, hview,
        FlatMap.distinct_replaceItem_iff hunique ho, ← getObject_eq_none_iff]
      simp

theorem deleteObject_namesUnique {bucket : Bucket} {key : Key} {fileName : Str}
    (hunique : m.NamesUnique) :
    ∀ m', m.Step (fresh, .deleteObject bucket key fileName) m' → m'.NamesUnique := by
  cases hobject : m.getObject bucket key fileName with
  | none =>
      rw [forall_step_iff
        (view_deleteObject_of_absent m fresh (getObject_eq_none_iff.1 hobject))]
      exact hunique
  | some object =>
      have hpresent := getObject_isSome_iff.1 (hobject ▸ Option.isSome_some)
      obtain ⟨m'', hchange, o, -, -, hview⟩ := view_deleteObject m fresh hpresent
      rw [forall_step_iff hchange, NamesUnique, hview]
      exact FlatMap.Distinct.eraseItem hunique

end Step

theorem step_namesUnique_iff (c : Broker × Change) (hunique : m.NamesUnique) :
    (∀ m', m.Step c m' → m'.NamesUnique) ↔ m.NameFree c := by
  obtain ⟨fresh, c⟩ := c
  have hrearranged : (∀ m', m.Step (fresh, c) m' → m.view.Rearranges m'.view) →
      ∀ m', m.Step (fresh, c) m' → m'.NamesUnique :=
    fun h m' hstep => FlatMap.Distinct.of_rearranges hunique (h m' hstep)
  cases c with
  | newObject bucket key object => exact step_newObject_iff hunique
  | nameObject bucket key fromName toName => exact step_nameObject_iff hunique
  | deleteObject bucket key fileName =>
      exact iff_of_true (deleteObject_namesUnique hunique) trivial
  | newKey bucket key =>
      exact iff_of_true (hrearranged fun _ => rearranges_of_newKey) trivial
  | nameKey bucket fromKey toName =>
      exact iff_of_true (hrearranged fun _ => rearranges_of_nameKey) trivial
  | deleteKey bucket key =>
      exact iff_of_true (hrearranged fun _ => rearranges_of_deleteKey) trivial
  | nameBucket fromName toName =>
      exact iff_of_true (hrearranged fun _ => rearranges_of_nameBucket) trivial
  | newBucket bucket =>
      obtain ⟨m'', hchange, hview⟩ := view_newBucket m fresh bucket
      rw [forall_step_iff hchange, NamesUnique, hview]
      exact iff_of_true (hunique.of_rearranges (FlatMap.rearranges_addPlace _ _ _)) trivial
  | deleteBucket bucket =>
      obtain ⟨m'', hchange, hview⟩ := view_deleteBucket m fresh bucket
      rw [forall_step_iff hchange, NamesUnique, hview]
      exact iff_of_true (hunique.of_rearranges (FlatMap.rearranges_drop _ _)) trivial

/-- The names of every entry stay distinct along a run exactly if they are so at
its start and every name that a step brings in is free. -/
theorem namesUnique_run_iff (m : BucketMap) (changes : List (Broker × Change)) :
    EachState Step NamesUnique m changes ↔
      m.NamesUnique ∧ EachStep Step NameFree m changes :=
  eachState_iff fun _ c hunique => step_namesUnique_iff c hunique

/-- A file moved over another: both objects stay, under one name. -/
theorem nameObject_onto_taken_name :
    (new [] 0).NamesUnique ∧
      ¬EachState Step NamesUnique (new [] 0)
        [(1, .newBucket ['b']), (2, .newObject ['b'] Key.root (.named ['x'])),
          (3, .newObject ['b'] Key.root (.named ['y'])),
          (4, .nameObject ['b'] Key.root ['x'] ['y'])] := by
  constructor
  · intro bucket path
    exact Multiset.nodup_zero
  · intro hunique
    have hlast := hunique _ _ List.prefix_rfl
      (.cons rfl (.cons rfl (.cons rfl (.cons rfl (.nil _)))))
    have htwice := hlast ['b'] []
    revert htwice
    decide

end BucketMap

end WsHyper.Directory
