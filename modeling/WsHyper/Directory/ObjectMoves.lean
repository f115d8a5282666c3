import WsHyper.Directory.Places
import WsHyper.Directory.UniqueNames

/-!
# Where an object is after a change

A change that renames a bucket, a key or an object takes the objects along.  An object is
lost only where it is deleted, or something above it, or where a bucket is renamed onto
its bucket.  Whatever is done in between, the tree holds it at the address it came to, and
as long as names are unique it holds no other.
-/

namespace WsHyper.Directory

open WsHyper.Lib WsHyper.Lib.Text

structure ObjectAddress where
  bucket : Bucket
  path : List Segment
  name : Str
  deriving DecidableEq

namespace ObjectAddress

def place (address : ObjectAddress) : Place := (address.bucket, address.path)

def HasName (name : Str) (content : Multiset Object × Broker) : Prop :=
  ∃ object ∈ content.1, object.fileName = name

def HeldIn (address : ObjectAddress) (V : View) : Prop := V.At (HasName address.name) address.place

end ObjectAddress

/-- The address after a change; none where the object is lost. -/
def Change.carry (V : View) (address : ObjectAddress) : Change → Option ObjectAddress
  | .nameObject bucket key fromName toName =>
      if address = ⟨bucket, key.path, fromName⟩ then some { address with name := toName }
      else some address
  | .deleteObject bucket key fileName =>
      if address = ⟨bucket, key.path, fileName⟩ then none else some address
  | change => (change.carryPlace V address.place).map fun place =>
      { address with bucket := place.1, path := place.2 }

def Change.Announces (V : View) (address : ObjectAddress) (change : Change) : Prop :=
  ∃ bucket key object, change = .newObject bucket key object ∧
    (V bucket (Key.path key)).isSome ∧ address = ⟨bucket, Key.path key, object.fileName⟩

/-! ## What the changes of objects do to the addresses -/

namespace ObjectAddress

variable {address : ObjectAddress} {V : View} {bucket : Bucket} {path : List Segment}
  {object object' : Object}

theorem heldIn_iff :
    address.HeldIn V ↔
      ∃ object ∈ V.items address.bucket address.path, object.fileName = address.name := by
  rw [HeldIn, FlatMap.At, place, FlatMap.items]
  cases V address.bucket address.path <;> simp [HasName]

theorem heldIn_addItem :
    address.HeldIn (V.addItem bucket path object) ↔
      address.HeldIn V ∨ (V bucket path).isSome ∧ address = ⟨bucket, path, object.fileName⟩ := by
  obtain ⟨bucket', path', name⟩ := address
  rw [heldIn_iff, heldIn_iff, FlatMap.addItem, FlatMap.items_update]
  simp only [ObjectAddress.mk.injEq]
  split_ifs with hplace
  · obtain ⟨rfl, rfl⟩ := hplace
    cases hcontent : V bucket path with
    | none => simp [FlatMap.items_of_none _ _ hcontent]
    | some content =>
        simp only [FlatMap.items, hcontent, Option.map_some, Option.getD_some,
          Multiset.mem_cons, exists_eq_or_imp, Option.isSome_some, true_and]
        rw [or_comm, eq_comm]
  · constructor
    · exact .inl
    · rintro (hheld | ⟨-, rfl, rfl, -⟩)
      · exact hheld
      · exact absurd ⟨rfl, rfl⟩ hplace

theorem HeldIn.eraseItem (hheld : address.HeldIn V)
    (hother : address ≠ ⟨bucket, path, object.fileName⟩) :
    address.HeldIn (V.eraseItem bucket path object) := by
  obtain ⟨held, hmem, hname⟩ := heldIn_iff.1 hheld
  refine heldIn_iff.2 ⟨held, ?_, hname⟩
  rw [FlatMap.eraseItem, FlatMap.items_update]
  split_ifs with hplace
  · obtain ⟨rfl, rfl⟩ := hplace
    have hne : held ≠ object := by
      rintro rfl
      exact hother (by rw [hname])
    cases hcontent : V address.bucket address.path with
    | none => simp [FlatMap.items_of_none _ _ hcontent] at hmem
    | some content =>
        rw [Option.map_some, Option.map_some, Option.getD_some, Multiset.mem_erase_of_ne hne]
        simpa [FlatMap.items, hcontent] using hmem
  · exact hmem

theorem heldIn_eraseItem (hunique : V.Distinct Object.fileName)
    (hobject : object ∈ V.items bucket path) :
    address.HeldIn (V.eraseItem bucket path object) ↔
      address.HeldIn V ∧ address ≠ ⟨bucket, path, object.fileName⟩ := by
  constructor
  · intro hheld
    obtain ⟨held, hmem, hname⟩ := heldIn_iff.1 hheld
    rw [FlatMap.eraseItem, FlatMap.items_update] at hmem
    split_ifs at hmem with hplace
    · obtain ⟨rfl, rfl⟩ := hplace
      have hcontent : held ∈ (V.items address.bucket address.path).erase object := by
        cases hcontent : V address.bucket address.path with
        | none => simp [hcontent] at hmem
        | some content => simpa [FlatMap.items, hcontent] using hmem
      refine ⟨heldIn_iff.2 ⟨held, Multiset.mem_of_mem_erase hcontent, hname⟩, ?_⟩
      rintro haddress
      have hnodup := hunique address.bucket address.path
      rw [← Multiset.cons_erase hobject, Multiset.map_cons, Multiset.nodup_cons] at hnodup
      refine hnodup.1 (Multiset.mem_map.2 ⟨held, hcontent, ?_⟩)
      rw [hname, haddress]
    · refine ⟨heldIn_iff.2 ⟨held, hmem, hname⟩, ?_⟩
      rintro rfl
      exact hplace ⟨rfl, rfl⟩
  · rintro ⟨hheld, hother⟩
    exact hheld.eraseItem hother

theorem replaceItem_eq :
    V.replaceItem bucket path object object' =
      (V.eraseItem bucket path object).addItem bucket path object' := by
  funext bucket' path'
  simp only [FlatMap.replaceItem, FlatMap.addItem, FlatMap.eraseItem, FlatMap.update, and_self,
    if_true, Option.map_map]
  split_ifs
  · rfl
  · rfl

theorem heldIn_replaceItem (hobject : object ∈ V.items bucket path) :
    address.HeldIn (V.replaceItem bucket path object object') ↔
      address = ⟨bucket, path, object'.fileName⟩ ∨
        address.HeldIn (V.eraseItem bucket path object) := by
  have hplace : (V.eraseItem bucket path object bucket path).isSome := by
    rw [FlatMap.eraseItem, FlatMap.update, if_pos ⟨rfl, rfl⟩, Option.isSome_map]
    by_contra hnone
    rw [FlatMap.items_of_none _ _ (by simpa using hnone)] at hobject
    simp at hobject
  rw [replaceItem_eq, heldIn_addItem, or_comm, and_iff_right hplace]

end ObjectAddress

/-! ## One change -/

namespace BucketMap

open ObjectAddress

variable {m m' : BucketMap} {fresh : Broker} {change : Change} {address address' : ObjectAddress}

def Reached (m : BucketMap) (change : Change) (address' : ObjectAddress) : Prop :=
  ∃ address, address.HeldIn m.view ∧ change.carry m.view address = some address'

/-- The changes of buckets and keys take an object along with its entry. -/
theorem reached_iff_brings (hchange : ¬change.OfObject) :
    m.Reached change address' ↔ m.Brings (HasName address'.name) change address'.place := by
  have hcarry (address : ObjectAddress) : change.carry m.view address =
      (change.carryPlace m.view address.place).map fun place =>
        { address with bucket := place.1, path := place.2 } := by
    cases change with
    | newObject bucket key object => exact absurd trivial hchange
    | nameObject bucket key fromName toName => exact absurd trivial hchange
    | deleteObject bucket key fileName => exact absurd trivial hchange
    | _ => rfl
  constructor
  · rintro ⟨address, hheld, haddress⟩
    rw [hcarry, Option.map_eq_some_iff] at haddress
    obtain ⟨place, hplace, rfl⟩ := haddress
    exact ⟨address.place, hheld, hplace⟩
  · rintro ⟨place, hat, hplace⟩
    refine ⟨⟨place.1, place.2, address'.name⟩, hat, ?_⟩
    rw [hcarry, show ObjectAddress.place ⟨place.1, place.2, address'.name⟩ = place from rfl,
      hplace]
    rfl

theorem reached_iff_of_still
    (hcarry : ∀ address, address.HeldIn m.view → change.carry m.view address = some address) :
    m.Reached change address' ↔ address'.HeldIn m.view := by
  constructor
  · rintro ⟨address, hheld, haddress⟩
    rwa [← Option.some.inj ((hcarry address hheld).symm.trans haddress)]
  · intro hheld
    exact ⟨address', hheld, hcarry address' hheld⟩

theorem held_iff_of_nameObject {bucket : Bucket} {key : Key} {fromName toName : Str}
    (hunique : m.NamesUnique)
    (hstep : m.Step (fresh, .nameObject bucket key fromName toName) m') :
    address'.HeldIn m'.view ↔ m.Reached (.nameObject bucket key fromName toName) address' := by
  by_cases hpresent : ∃ o ∈ m.view.items bucket key.path, o.fileName = fromName
  · obtain ⟨m'', hchange, object, hobject, rfl, hview⟩ :=
      view_nameObject m fresh hpresent toName
    obtain rfl := Except.ok.inj (hchange.symm.trans hstep)
    rw [hview, heldIn_replaceItem hobject, heldIn_eraseItem hunique hobject]
    constructor
    · rintro (rfl | ⟨hheld, hother⟩)
      · exact ⟨⟨bucket, key.path, object.fileName⟩, heldIn_iff.2 ⟨object, hobject, rfl⟩,
          by rw [Change.carry, if_pos rfl]⟩
      · exact ⟨address', hheld, by rw [Change.carry, if_neg hother]⟩
    · rintro ⟨address, hheld, hcarry⟩
      rw [Change.carry] at hcarry
      split_ifs at hcarry with hsame
      · subst hsame
        exact .inl (Option.some.inj hcarry).symm
      · obtain rfl := Option.some.inj hcarry
        exact .inr ⟨hheld, hsame⟩
  · have hsame := view_nameObject_of_absent m fresh (by simpa using hpresent) toName
    obtain rfl := Except.ok.inj (hsame.symm.trans hstep)
    refine (reached_iff_of_still fun address hheld => ?_).symm
    rw [Change.carry, if_neg]
    rintro rfl
    exact hpresent (heldIn_iff.1 hheld)

theorem held_iff_of_deleteObject {bucket : Bucket} {key : Key} {fileName : Str}
    (hunique : m.NamesUnique)
    (hstep : m.Step (fresh, .deleteObject bucket key fileName) m') :
    address'.HeldIn m'.view ↔ m.Reached (.deleteObject bucket key fileName) address' := by
  by_cases hpresent : ∃ o ∈ m.view.items bucket key.path, o.fileName = fileName
  · obtain ⟨m'', hchange, object, hobject, rfl, hview⟩ := view_deleteObject m fresh hpresent
    obtain rfl := Except.ok.inj (hchange.symm.trans hstep)
    rw [hview, heldIn_eraseItem hunique hobject]
    constructor
    · rintro ⟨hheld, hother⟩
      exact ⟨address', hheld, by rw [Change.carry, if_neg hother]⟩
    · rintro ⟨address, hheld, hcarry⟩
      rw [Change.carry] at hcarry
      split_ifs at hcarry with hsame
      obtain rfl := Option.some.inj hcarry
      exact ⟨hheld, hsame⟩
  · have hsame := view_deleteObject_of_absent m fresh (by simpa using hpresent)
    obtain rfl := Except.ok.inj (hsame.symm.trans hstep)
    refine (reached_iff_of_still fun address hheld => ?_).symm
    rw [Change.carry, if_neg]
    rintro rfl
    exact hpresent (heldIn_iff.1 hheld)

/-- After a change the tree holds what the change carried on or announced, and nothing else. -/
theorem held_iff_of_step (hunique : m.NamesUnique) (hstep : m.Step (fresh, change) m') :
    address'.HeldIn m'.view ↔
      m.Reached change address' ∨ change.Announces m.view address' := by
  have hquiet (hnew : ∀ bucket key object, change ≠ .newObject bucket key object) :
      ¬change.Announces m.view address' := by
    rintro ⟨bucket, key, object, hchange, -⟩
    exact hnew bucket key object hchange
  by_cases hobject : change.OfObject
  · cases change with
    | newObject bucket key object =>
        obtain ⟨m'', hchange, hview⟩ := view_newObject m fresh bucket key object
        obtain rfl := Except.ok.inj (hchange.symm.trans hstep)
        rw [hview, heldIn_addItem, reached_iff_of_still fun _ _ => rfl]
        refine or_congr_right ⟨fun ⟨hplace, haddress⟩ => ⟨_, _, _, rfl, hplace, haddress⟩, ?_⟩
        rintro ⟨bucket', key', object', hsame, hplace, haddress⟩
        obtain ⟨rfl, rfl, rfl⟩ := Change.newObject.inj hsame
        exact ⟨hplace, haddress⟩
    | nameObject bucket key fromName toName =>
        rw [or_iff_left (hquiet (by simp)), held_iff_of_nameObject hunique hstep]
    | deleteObject bucket key fileName =>
        rw [or_iff_left (hquiet (by simp)), held_iff_of_deleteObject hunique hstep]
    | _ => exact absurd hobject id
  · have hnone : ¬HasName address'.name (0, fresh) := by simp [HasName]
    have hnew : ∀ bucket key object, change ≠ .newObject bucket key object := by
      rintro bucket key object rfl
      exact hobject trivial
    rw [or_iff_left (hquiet hnew), reached_iff_brings hobject, HeldIn,
      at_iff_of_step hobject hstep]
    exact or_iff_left fun h => hnone h.2

/-! ## Runs of changes -/

def Carries : BucketMap × ObjectAddress → Broker × Change → BucketMap × ObjectAddress → Prop :=
  Carrying Step fun m c address => c.2.carry m.view address

/-- One of the changes brought an object, and the later ones carried it here. -/
def AnnouncedIn (m : BucketMap) (changes : List (Broker × Change))
    (place : BucketMap × ObjectAddress) : Prop :=
  ∃ before c after m₁ m₂ address, changes = before ++ c :: after ∧ Run Step m before m₁ ∧
    m₁.Step c m₂ ∧ c.2.Announces m₁.view address ∧ Run Carries (m₂, address) after place

theorem announcedIn_cons_iff {c : Broker × Change} {changes : List (Broker × Change)}
    {m₁ : BucketMap} {place : BucketMap × ObjectAddress} (hstep : m.Step c m₁) :
    m.AnnouncedIn (c :: changes) place ↔
      (∃ address, c.2.Announces m.view address ∧ Run Carries (m₁, address) changes place) ∨
        m₁.AnnouncedIn changes place := by
  constructor
  · rintro ⟨before, c', after, m₂, m₃, address, hchanges, hbefore, hannounced, hnew, hafter⟩
    cases before with
    | nil =>
        obtain ⟨rfl, rfl⟩ := List.cons.inj hchanges
        obtain rfl := run_nil_iff.1 hbefore
        obtain rfl := step_deterministic _ _ _ _ hannounced hstep
        exact .inl ⟨address, hnew, hafter⟩
    | cons first before =>
        obtain ⟨rfl, rfl⟩ := List.cons.inj hchanges
        obtain ⟨m₄, hfirst, hbefore⟩ := run_cons_iff.1 hbefore
        obtain rfl := step_deterministic _ _ _ _ hfirst hstep
        exact .inr ⟨before, c', after, m₂, m₃, address, rfl, hbefore, hannounced, hnew, hafter⟩
  · rintro (⟨address, hnew, hafter⟩ |
      ⟨before, c', after, m₂, m₃, address, rfl, hbefore, hannounced, hnew, hafter⟩)
    · exact ⟨[], c, changes, m, m₁, address, rfl, .nil m, hstep, hnew, hafter⟩
    · exact ⟨c :: before, c', after, m₂, m₃, address, rfl, .cons hstep hbefore, hannounced, hnew,
        hafter⟩

theorem run_carries_cons_iff {c : Broker × Change} {changes : List (Broker × Change)}
    {m₁ : BucketMap} {place : BucketMap × ObjectAddress} (hstep : m.Step c m₁) :
    Run Carries (m, address) (c :: changes) place ↔
      ∃ address₁, c.2.carry m.view address = some address₁ ∧
        Run Carries (m₁, address₁) changes place :=
  run_carrying_cons_iff step_deterministic hstep

def treeWithX (bucket : Bucket) : BucketMap :=
  { new [] 0 with
    tree := [(bucket, { KeyEntry.default 1 with objects := some [.named ['x']] })] }

def changesToC : List (Broker × Change) :=
  [(1, .newBucket ['b']), (2, .newObject ['b'] Key.root (.named ['x'])),
    (3, .nameBucket ['b'] ['c'])]

theorem step_newBucketB :
    (new [] 0).Step (1, .newBucket ['b']) { new [] 0 with tree := [(['b'], .default 1)] } :=
  rfl

theorem step_newObjectX :
    Step { new [] 0 with tree := [(['b'], .default 1)] }
      (2, .newObject ['b'] Key.root (.named ['x'])) (treeWithX ['b']) :=
  rfl

theorem step_nameBucketC : (treeWithX ['b']).Step (3, .nameBucket ['b'] ['c']) (treeWithX ['c']) :=
  rfl

theorem namesUnique_changesToC : EachState Step NamesUnique (new [] 0) changesToC := by
  rw [eachState_iff fun _ c hunique => step_namesUnique_iff c hunique]
  refine ⟨fun _ _ => Multiset.nodup_zero, ?_⟩
  rw [changesToC, eachStep_cons_of_step step_deterministic step_newBucketB,
    eachStep_cons_of_step step_deterministic step_newObjectX,
    eachStep_cons_of_step step_deterministic step_nameBucketC]
  exact ⟨trivial, rfl, trivial, eachStep_nil⟩

end BucketMap

end WsHyper.Directory
