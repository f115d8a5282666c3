import WsHyper.Lib.Run
import WsHyper.Directory.Simulation

/-!
# Runs of changes

A run applies changes one after the other, each with the broker that it may
start.  `run_applies_iff` says when a run comes to its end without a panic and
without touching the tree where a change cannot be applied: exactly if every
step finds a safe tree.  Entries without keys are what is not safe.
-/

namespace WsHyper.Directory

open WsHyper.Lib WsHyper.Lib.Text

namespace BucketMap

def Step (m : BucketMap) (c : Broker × Change) (m' : BucketMap) : Prop :=
  m.change c.1 c.2 = .ok m'

def SameTree (m m' : BucketMap) : Prop :=
  ∀ bucket, m'.tree.lookup bucket = m.tree.lookup bucket

def childAt (m : BucketMap) (bucket : Bucket) (key : Key) (segment : Segment) :
    Option KeyEntry :=
  m.entryAt bucket (key.parentLeaf.1 ++ [segment])

/-- What the change refers to is missing, or the new name of a bucket or key is taken. -/
def Inapplicable (m : BucketMap) : Change → Prop
  | .newObject bucket key _ => m.getEntry bucket key = none
  | .newKey bucket key => m.entryAt bucket key.parentLeaf.1 = none
  | .newBucket _ => False
  | .nameObject bucket key fromName _ => m.getObject bucket key fromName = none
  | .nameBucket fromName toName =>
      m.tree.lookup fromName = none ∨ (m.tree.lookup toName).isSome
  | .nameKey bucket fromKey toName =>
      m.childAt bucket fromKey fromKey.parentLeaf.2 = none ∨
        (m.childAt bucket fromKey toName).isSome
  | .deleteObject bucket key fileName => m.getObject bucket key fileName = none
  | .deleteKey bucket key => m.childAt bucket key key.parentLeaf.2 = none
  | .deleteBucket bucket => m.tree.lookup bucket = none

def ParentHasKeys (m : BucketMap) (bucket : Bucket) (key : Key) : Prop :=
  ∀ entry, m.entryAt bucket key.parentLeaf.1 = some entry → entry.keys.isSome

/-- What a tree must meet for a change to be safe. -/
def Safe (m : BucketMap) (c : Broker × Change) : Prop :=
  match c.2 with
  | .newKey bucket key | .deleteKey bucket key => m.ParentHasKeys bucket key
  | .nameKey bucket fromKey toName =>
      m.ParentHasKeys bucket fromKey ∧
        ((m.entryAt bucket fromKey.parentLeaf.1).isSome →
          (m.childAt bucket fromKey fromKey.parentLeaf.2).isSome ∨
            (m.childAt bucket fromKey toName).isSome)
  | .nameBucket fromName toName =>
      fromName = toName ∨ m.tree.lookup fromName = none ∨ m.tree.lookup toName = none
  | _ => True

def LeavesInapplicable (m : BucketMap) (c : Broker × Change) : Prop :=
  m.Inapplicable c.2 → ∀ m', m.Step c m' → m.SameTree m'

theorem step_deterministic (m : BucketMap) (c : Broker × Change) (m₁ m₂ : BucketMap)
    (h₁ : m.Step c m₁) (h₂ : m.Step c m₂) : m₁ = m₂ :=
  Except.ok.inj (h₁.symm.trans h₂)

theorem SameTree.view_eq {m m' : BucketMap} (h : m.SameTree m') : m'.view = m.view := by
  funext bucket path
  rw [view, view, h bucket]

@[simp] theorem sameTree_refl (m : BucketMap) : m.SameTree m := fun _ => rfl

/-- A step can be taken, and leaves the tree where it cannot be applied. -/
def Meets (m : BucketMap) (c : Broker × Change) : Prop :=
  ∃ m', m.Step c m' ∧ (m.Inapplicable c.2 → m.SameTree m')

section Steps

variable {m m' : BucketMap} {fresh : Broker} {c : Change}

theorem meets_of_eq (hchange : m.change fresh c = .ok m) : m.Meets (fresh, c) :=
  ⟨m, hchange, fun _ => sameTree_refl m⟩

theorem meets_of_applicable (hcompletes : Completes (m.change fresh c))
    (happlicable : ¬m.Inapplicable c) : m.Meets (fresh, c) := by
  obtain ⟨m', hchange⟩ := hcompletes
  exact ⟨m', hchange, fun h => absurd h happlicable⟩

theorem not_meets_of_panic (hchange : m.change fresh c = .error .unwrapNone) :
    ¬m.Meets (fresh, c) := by
  rintro ⟨m', hstep, -⟩
  rw [Step, hchange] at hstep
  cases hstep

theorem childAt_eq {bucket : Bucket} {key : Key} {entry : KeyEntry}
    (hentry : m.entryAt bucket key.parentLeaf.1 = some entry) (segment : Segment) :
    m.childAt bucket key segment = branching.child entry segment := by
  rw [childAt, entryAt_append_singleton, hentry, Option.bind_some]

theorem child_of_keys {entry : KeyEntry} {keys : AssocMap Segment KeyEntry}
    (hkeys : entry.keys = some keys) (segment : Segment) :
    branching.child entry segment = keys.lookup segment := by
  simp [Branching.child, branching, hkeys]

/-- The source unwraps the keys of the parent of every key it changes. -/
inductive ParentCase (m : BucketMap) (bucket : Bucket) (key : Key) : Prop
  | absent (hentry : m.entryAt bucket key.parentLeaf.1 = none)
  | noKeys (entry : KeyEntry) (hentry : m.entryAt bucket key.parentLeaf.1 = some entry)
      (hkeys : entry.keys = none)
  | keys (entry : KeyEntry) (write : KeyEntry → BucketMap) (keys : AssocMap Segment KeyEntry)
      (hentry : m.entryAt bucket key.parentLeaf.1 = some entry)
      (hborrow : m.borrowAt bucket key.parentLeaf.1 = some (entry, write))
      (hkeys : entry.keys = some keys)

theorem parentCase (m : BucketMap) (bucket : Bucket) (key : Key) :
    ParentCase m bucket key := by
  cases hentry : m.entryAt bucket key.parentLeaf.1 with
  | none => exact .absent hentry
  | some entry =>
      cases hkeys : entry.keys with
      | none => exact .noKeys entry hentry hkeys
      | some keys =>
          obtain ⟨write, hborrow⟩ := exists_borrowAt hentry
          exact .keys entry write keys hentry hborrow hkeys

variable (m fresh)

theorem meets_newKey_iff (bucket : Bucket) (key : Key) :
    m.Meets (fresh, .newKey bucket key) ↔ m.ParentHasKeys bucket key := by
  cases parentCase m bucket key with
  | absent hentry =>
      refine iff_of_true (meets_of_eq ?_) (by simp [ParentHasKeys, hentry])
      rw [change_newKey, withKeys_of_absent hentry]
  | noKeys entry hentry hkeys =>
      refine iff_of_false (not_meets_of_panic ?_) (by simp [ParentHasKeys, hentry, hkeys])
      rw [change_newKey, withKeys_of_no_keys hentry hkeys]
  | keys entry write keys hentry hborrow hkeys =>
      refine iff_of_true (meets_of_applicable ?_ ?_) (by simp [ParentHasKeys, hentry, hkeys])
      · rw [change_newKey, withKeys_of_keys hborrow hkeys]
        exact completes_ok _
      · simp [Inapplicable, hentry]

theorem meets_deleteKey_iff (bucket : Bucket) (key : Key) :
    m.Meets (fresh, .deleteKey bucket key) ↔ m.ParentHasKeys bucket key := by
  cases parentCase m bucket key with
  | absent hentry =>
      refine iff_of_true (meets_of_eq ?_) (by simp [ParentHasKeys, hentry])
      rw [change_deleteKey, withKeys_of_absent hentry]
  | noKeys entry hentry hkeys =>
      refine iff_of_false (not_meets_of_panic ?_) (by simp [ParentHasKeys, hentry, hkeys])
      rw [change_deleteKey, withKeys_of_no_keys hentry hkeys]
  | keys entry write keys hentry hborrow hkeys =>
      refine iff_of_true ?_ (by simp [ParentHasKeys, hentry, hkeys])
      have hchild := childAt_eq hentry key.parentLeaf.2
      rw [child_of_keys hkeys] at hchild
      cases hleaf : keys.lookup key.parentLeaf.2 with
      | none =>
          apply meets_of_eq
          rw [change_deleteKey, withKeys_of_keys hborrow hkeys, hleaf]
          rfl
      | some child =>
          refine meets_of_applicable ?_ ?_
          · rw [change_deleteKey, withKeys_of_keys hborrow hkeys, hleaf]
            exact completes_ok _
          · simp [Inapplicable, hchild, hleaf]

theorem meets_nameKey_iff (bucket : Bucket) (fromKey : Key) (toName : Segment) :
    m.Meets (fresh, .nameKey bucket fromKey toName) ↔
      m.Safe (fresh, .nameKey bucket fromKey toName) := by
  cases parentCase m bucket fromKey with
  | absent hentry =>
      refine iff_of_true (meets_of_eq ?_) (by simp [Safe, ParentHasKeys, hentry])
      rw [change_nameKey, withKeys_of_absent hentry]
  | noKeys entry hentry hkeys =>
      refine iff_of_false (not_meets_of_panic ?_) (by simp [Safe, ParentHasKeys, hentry, hkeys])
      rw [change_nameKey, withKeys_of_no_keys hentry hkeys]
  | keys entry write keys hentry hborrow hkeys =>
      have hchild : ∀ segment, m.childAt bucket fromKey segment = keys.lookup segment := by
        intro segment
        rw [childAt_eq hentry, child_of_keys hkeys]
      cases hto : keys.lookup toName with
      | some taken =>
          refine iff_of_true (meets_of_eq ?_)
            (by simp [Safe, ParentHasKeys, hentry, hkeys, hchild, hto])
          rw [change_nameKey, withKeys_of_keys hborrow hkeys, hto]
          rfl
      | none =>
          cases hfrom : keys.lookup fromKey.parentLeaf.2 with
          | some child =>
              refine iff_of_true (meets_of_applicable ?_ ?_)
                (by simp [Safe, ParentHasKeys, hentry, hkeys, hchild, hfrom])
              · rw [change_nameKey, withKeys_of_keys hborrow hkeys, hto, hfrom]
                exact completes_ok _
              · simp [Inapplicable, hchild, hto, hfrom]
          | none =>
              -- the missing source leaves a new entry under the new name
              refine iff_of_false ?_ (by simp [Safe, hentry, hchild, hto, hfrom])
              rintro ⟨m', hstep, hleaves⟩
              have hsame := hleaves (by simp [Inapplicable, hchild, hfrom])
              have hview := hsame.view_eq
              rw [Step, change_nameKey, withKeys_of_keys hborrow hkeys, hto, hfrom] at hstep
              obtain rfl := Except.ok.inj hstep
              rw [Option.getD_none, view_insert_default fresh hborrow hkeys hfrom hto] at hview
              have hplace := congrFun (congrFun hview bucket)
                (fromKey.parentLeaf.1 ++ [toName])
              rw [FlatMap.addPlace_at, view_eq_map_entryAt, ← childAt, hchild, hto] at hplace
              cases hplace

theorem meets_nameBucket_iff (fromName toName : Bucket) :
    m.Meets (fresh, .nameBucket fromName toName) ↔
      m.Safe (fresh, .nameBucket fromName toName) := by
  cases hfrom : m.tree.lookup fromName with
  | none =>
      refine iff_of_true (meets_of_eq ?_) (by simp [Safe, hfrom])
      simp [change, hfrom]
  | some entry =>
      have hchange : m.change fresh (.nameBucket fromName toName) =
          .ok { m with tree := (m.tree.erase fromName).insert toName entry } := by
        simp [change, hfrom]
      by_cases hname : fromName = toName
      · subst hname
        refine iff_of_true ⟨_, hchange, fun _ bucket => ?_⟩ (by simp [Safe])
        rw [AssocMap.lookup_insert]
        by_cases hbucket : fromName = bucket
        · simp [← hbucket, hfrom]
        · simp [hbucket, AssocMap.lookup_erase_of_ne (Ne.symm hbucket)]
      · cases hto : m.tree.lookup toName with
        | none =>
            refine iff_of_true (meets_of_applicable ⟨_, hchange⟩ ?_) (by simp [Safe, hto])
            simp [Inapplicable, hfrom, hto]
        | some taken =>
            -- the entry of `toName` is overwritten, and `fromName` is gone
            refine iff_of_false ?_ (by simp [Safe, hname, hfrom, hto])
            rintro ⟨m', hstep, hleaves⟩
            have hsame := hleaves (by simp [Inapplicable, hto]) fromName
            rw [Step, hchange] at hstep
            obtain rfl := Except.ok.inj hstep
            rw [AssocMap.lookup_insert_of_ne hname, AssocMap.lookup_erase_self, hfrom] at hsame
            cases hsame

theorem meets_iff_safe (c : Broker × Change) : m.Meets c ↔ m.Safe c := by
  obtain ⟨fresh, c⟩ := c
  cases c with
  | newObject bucket key object =>
      refine iff_of_true ?_ trivial
      cases hentry : m.getEntry bucket key with
      | none =>
          apply meets_of_eq
          rw [getEntry_eq] at hentry
          simp [change, getMutEntry_eq, borrowAt_eq_none_iff.2 hentry]
      | some entry =>
          obtain ⟨m', hchange, -⟩ := view_newObject m fresh bucket key object
          exact meets_of_applicable ⟨_, hchange⟩ (by simp [Inapplicable, hentry])
  | newKey bucket key => exact meets_newKey_iff m fresh bucket key
  | newBucket bucket =>
      exact iff_of_true (meets_of_applicable ⟨_, rfl⟩ (by simp [Inapplicable])) trivial
  | nameObject bucket key fromName toName =>
      refine iff_of_true ?_ trivial
      cases hobject : m.getObject bucket key fromName with
      | none =>
          apply meets_of_eq
          apply view_nameObject_of_absent
          exact getObject_eq_none_iff.1 hobject
      | some object =>
          obtain ⟨m', hchange, -⟩ := view_nameObject m fresh
            (getObject_isSome_iff.1 (by rw [hobject, Option.isSome_some])) toName
          exact meets_of_applicable ⟨_, hchange⟩ (by simp [Inapplicable, hobject])
  | nameBucket fromName toName => exact meets_nameBucket_iff m fresh fromName toName
  | nameKey bucket fromKey toName => exact meets_nameKey_iff m fresh bucket fromKey toName
  | deleteObject bucket key fileName =>
      refine iff_of_true ?_ trivial
      cases hobject : m.getObject bucket key fileName with
      | none =>
          apply meets_of_eq
          apply view_deleteObject_of_absent
          exact getObject_eq_none_iff.1 hobject
      | some object =>
          obtain ⟨m', hchange, -⟩ := view_deleteObject m fresh
            (getObject_isSome_iff.1 (by rw [hobject, Option.isSome_some]))
          exact meets_of_applicable ⟨_, hchange⟩ (by simp [Inapplicable, hobject])
  | deleteKey bucket key => exact meets_deleteKey_iff m fresh bucket key
  | deleteBucket bucket =>
      refine iff_of_true ⟨_, rfl, fun hinapplicable bucket' => ?_⟩ trivial
      by_cases hbucket : bucket' = bucket
      · subst hbucket
        rw [AssocMap.lookup_erase_self]
        exact hinapplicable.symm
      · rw [AssocMap.lookup_erase_of_ne hbucket]

end Steps

/-- A run ends without a panic, and leaves the tree where a change cannot be
applied, exactly if each of its steps finds a safe tree. -/
theorem run_applies_iff (m : BucketMap) (changes : List (Broker × Change)) :
    ((∃ m', Run Step m changes m') ∧ EachStep Step LeavesInapplicable m changes) ↔
      EachStep Step Safe m changes := by
  rw [exists_run_iff step_deterministic, ← eachStep_and]
  apply eachStep_congr
  intro m c
  rw [← meets_iff_safe]
  constructor
  · rintro ⟨⟨m', hstep⟩, hleaves⟩
    exact ⟨m', hstep, fun h => hleaves h m' hstep⟩
  · rintro ⟨m', hstep, hsame⟩
    refine ⟨⟨m', hstep⟩, fun h m'' hstep' => ?_⟩
    rw [← step_deterministic m c m' m'' hstep hstep']
    exact hsame h

/-- The first key of a new bucket panics: `KeyEntry::default` has no keys. -/
theorem newKey_in_new_bucket_panics :
    (do
      let m ← (new [] 0).change 1 (.newBucket ['b'])
      m.change 2 (.newKey ['b'] ['k'])) = .error .unwrapNone ∧
    ¬∃ m', Run Step (new [] 0)
      [(1, .newBucket ['b']), (2, .newKey ['b'] ['k'])] m' := by
  refine ⟨rfl, ?_⟩
  rintro ⟨m'', hrun⟩
  obtain ⟨m, hfirst, hrun⟩ := run_cons_iff.1 hrun
  obtain ⟨m', hsecond, -⟩ := run_cons_iff.1 hrun
  obtain rfl := Except.ok.inj hfirst
  cases hsecond

end BucketMap

end WsHyper.Directory
