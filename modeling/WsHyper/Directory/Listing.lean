import WsHyper.Directory.Brokers

/-!
# What the tree lists

Who asks for an entry gets the names of its files.  For the changes to come it also matters
whether the entry has keys: without them `unwrap` panics, and no change gives keys to an
entry that has none.  An entry keeps its broker, so the brokers tell which entries have keys.
-/

namespace WsHyper.Directory

open WsHyper.Lib

/-- Names of files at some places, each place with a mark. -/
abbrev Listing := FlatMap Bucket Segment Str Bool

namespace BucketMap

/-- The names of the files of every entry, and whether it has keys. -/
def listing (m : BucketMap) : Listing := fun bucket path =>
  (m.entryAt bucket path).map fun entry =>
    ((entry.fileNames : Multiset Str), entry.keys.isSome)

def Tells (keyed : Broker → Bool) (entry : KeyEntry) : Prop :=
  keyed entry.broker = entry.keys.isSome

def KeyedBy (keyed : Broker → Bool) (m : BucketMap) : Prop :=
  ∀ bucket entry, m.tree.lookup bucket = some entry → branching.All (Tells keyed) entry

def FromOld (fresh : Broker) (old new : AssocMap Str KeyEntry) : Prop :=
  ∀ label entry, new.lookup label = some entry →
    (∃ label', old.lookup label' = some entry) ∨ entry = .default fresh

structure Becomes (fresh : Broker) (entry entry' : KeyEntry) : Prop where
  broker : entry'.broker = entry.broker
  keys : Option.Rel (FromOld fresh) entry.keys entry'.keys

variable {m m' : BucketMap} {fresh : Broker} {change : Change} {keyed : Broker → Bool}
  {bucket : Bucket} {path : List Segment} {entry entry' : KeyEntry}
  {write : KeyEntry → BucketMap}

theorem listing_eq_map (hkeyed : m.KeyedBy keyed) :
    m.listing = m.view.map Object.fileName keyed := by
  funext bucket path
  rw [listing, FlatMap.map, view_eq_map_entryAt]
  cases hentry : m.entryAt bucket path with
  | none => rfl
  | some entry =>
      obtain ⟨top, htop, hdescend⟩ := Option.bind_eq_some_iff.1 hentry
      have htells : keyed entry.broker = entry.keys.isSome :=
        hkeyed bucket top htop path entry hdescend
      simp only [Option.map_some, branching, htells]
      rfl

/-- With brokers of their own, the entries can be told apart by them. -/
theorem exists_keyedBy (hapart : m.BrokersApart) :
    ∃ keyed, m.KeyedBy keyed ∧
      ∀ broker, (∀ place, ¬m.view.At (HasBroker broker) place) → keyed broker = false := by
  classical
  let keyed (broker : Broker) : Bool := decide (∃ bucket path entry,
    m.entryAt bucket path = some entry ∧ entry.broker = broker ∧ entry.keys.isSome)
  have hat {bucket : Bucket} {path : List Segment} {entry : KeyEntry}
      (hentry : m.entryAt bucket path = some entry) :
      m.view.At (HasBroker entry.broker) (bucket, path) := by
    refine ⟨branching.data entry, ?_, rfl⟩
    rw [view_eq_map_entryAt, hentry]
    rfl
  refine ⟨keyed, fun bucket top htop path entry hdescend => ?_, fun broker hnowhere => ?_⟩
  · have hentry : m.entryAt bucket path = some entry := by
      rw [entryAt, htop, Option.bind_some, hdescend]
    rw [Tells, Bool.eq_iff_iff, decide_eq_true_iff]
    constructor
    · rintro ⟨bucket', path', entry', hentry', hbroker, hkeys⟩
      have hplace := hapart entry.broker (bucket', path') (bucket, path)
        (hbroker ▸ hat hentry') (hat hentry)
      obtain ⟨rfl, rfl⟩ := Prod.mk.inj hplace
      rwa [← Option.some.inj (hentry'.symm.trans hentry)]
    · exact fun hkeys => ⟨bucket, path, entry, hentry, rfl, hkeys⟩
  · rw [decide_eq_false_iff_not]
    rintro ⟨bucket, path, entry, hentry, rfl, -⟩
    exact hnowhere _ (hat hentry)

/-! ## What a change leaves -/

section FromOld

variable {old : AssocMap Str KeyEntry}

theorem fromOld_refl : FromOld fresh old old :=
  fun label _ hlookup => .inl ⟨label, hlookup⟩

theorem fromOld_erase (label : Str) : FromOld fresh old (old.erase label) :=
  fun label' _ hlookup => .inl ⟨label', AssocMap.lookup_of_lookup_erase hlookup⟩

theorem fromOld_orInsert (label : Str) :
    FromOld fresh old (old.orInsert label (.default fresh)) := by
  intro label' entry hlookup
  rw [AssocMap.lookup_orInsert] at hlookup
  split_ifs at hlookup with hlabel
  · cases hold : old.lookup label with
    | none => exact .inr (by simpa [hold] using hlookup.symm)
    | some entry' => exact .inl ⟨label, by simpa [hold] using hlookup⟩
  · exact .inl ⟨label', hlookup⟩

theorem fromOld_move (label label' : Str) :
    FromOld fresh old ((old.erase label).insert label'
      ((old.lookup label).getD (.default fresh))) := by
  intro other entry hlookup
  rw [AssocMap.lookup_insert] at hlookup
  split_ifs at hlookup with hlabel
  · cases hold : old.lookup label with
    | none => exact .inr (by simpa [hold] using hlookup.symm)
    | some entry' => exact .inl ⟨label, by simpa [hold] using hlookup⟩
  · exact .inl ⟨other, AssocMap.lookup_of_lookup_erase hlookup⟩

end FromOld

theorem becomes_withObjects (objects : Option (List Object)) :
    Becomes fresh entry { entry with objects } where
  broker := rfl
  keys := by
    cases entry.keys with
    | none => exact .none
    | some keys => exact .some fromOld_refl

theorem becomes_of_withKeys {body : AssocMap Segment KeyEntry → Option (AssocMap Segment KeyEntry)}
    (hbody : ∀ keys keys', body keys = some keys' → FromOld fresh keys keys')
    (hchange : m.withKeys (m.borrowAt bucket path) body = .ok m') :
    m' = m ∨ ∃ entry write entry', m.borrowAt bucket path = some (entry, write) ∧
      Becomes fresh entry entry' ∧ m' = write entry' := by
  obtain rfl | ⟨entry, write, keys, keys', hborrow, hkeys, hresult, rfl⟩ :=
    eq_or_write_of_withKeys hchange
  · exact .inl rfl
  · have hbecomes : Becomes fresh entry { entry with keys := some keys' } := by
      refine ⟨rfl, ?_⟩
      rw [hkeys]
      exact .some (hbody keys keys' hresult)
    exact .inr ⟨entry, write, _, hborrow, hbecomes, rfl⟩

/-- A change exchanges buckets, or it writes an entry where it borrowed one. -/
theorem change_cases (hchange : m.change fresh change = .ok m') :
    (∃ tree, FromOld fresh m.tree tree ∧ m' = { m with tree }) ∨
      ∃ bucket path entry write entry', m.borrowAt bucket path = some (entry, write) ∧
        Becomes fresh entry entry' ∧ m' = write entry' := by
  have hkeys {bucket : Bucket} {path : List Segment}
      (hwrite : m' = m ∨ ∃ entry write entry', m.borrowAt bucket path = some (entry, write) ∧
        Becomes fresh entry entry' ∧ m' = write entry') :
      (∃ tree, FromOld fresh m.tree tree ∧ m' = { m with tree }) ∨
        ∃ bucket path entry write entry', m.borrowAt bucket path = some (entry, write) ∧
          Becomes fresh entry entry' ∧ m' = write entry' := by
    rcases hwrite with rfl | hwrite
    · exact .inl ⟨m'.tree, fromOld_refl, rfl⟩
    · exact .inr ⟨bucket, path, hwrite⟩
  cases change with
  | newObject bucket key object =>
      rw [BucketMap.change, getMutEntry_eq] at hchange
      cases hborrow : m.borrowAt bucket key.path with
      | none =>
          rw [hborrow] at hchange
          exact .inl ⟨m.tree, fromOld_refl, (Except.ok.inj hchange).symm⟩
      | some found =>
          rw [hborrow] at hchange
          exact .inr ⟨bucket, key.path, found.1, found.2, _, hborrow, becomes_withObjects _,
            (Except.ok.inj hchange).symm⟩
  | nameObject bucket key fromName toName =>
      rw [BucketMap.change, getMutEntry_eq] at hchange
      split at hchange
      · exact .inl ⟨m.tree, fromOld_refl, (Except.ok.inj hchange).symm⟩
      · next entry write hborrow =>
          split at hchange
          · exact .inr ⟨bucket, key.path, entry, write, _, hborrow, becomes_withObjects _,
              (Except.ok.inj hchange).symm⟩
          · exact .inl ⟨m.tree, fromOld_refl, (Except.ok.inj hchange).symm⟩
  | deleteObject bucket key fileName =>
      rw [BucketMap.change, getMutEntry_eq] at hchange
      split at hchange
      · exact .inl ⟨m.tree, fromOld_refl, (Except.ok.inj hchange).symm⟩
      · next entry write hborrow =>
          split at hchange
          · exact .inl ⟨m.tree, fromOld_refl, (Except.ok.inj hchange).symm⟩
          · split at hchange
            · exact .inr ⟨bucket, key.path, entry, write, _, hborrow, becomes_withObjects _,
                (Except.ok.inj hchange).symm⟩
            · exact .inl ⟨m.tree, fromOld_refl, (Except.ok.inj hchange).symm⟩
  | newBucket bucket =>
      exact .inl ⟨_, fromOld_orInsert bucket, (Except.ok.inj hchange).symm⟩
  | nameBucket fromName toName =>
      rw [BucketMap.change] at hchange
      cases hfrom : m.tree.lookup fromName with
      | none =>
          rw [hfrom] at hchange
          exact .inl ⟨m.tree, fromOld_refl, (Except.ok.inj hchange).symm⟩
      | some old =>
          rw [hfrom] at hchange
          have hmove : FromOld fresh m.tree ((m.tree.erase fromName).insert toName
              ((m.tree.lookup fromName).getD (.default fresh))) := fromOld_move fromName toName
          rw [hfrom, Option.getD_some] at hmove
          exact .inl ⟨_, hmove, (Except.ok.inj hchange).symm⟩
  | deleteBucket bucket =>
      exact .inl ⟨_, fromOld_erase bucket, (Except.ok.inj hchange).symm⟩
  | newKey bucket key =>
      rw [change_newKey] at hchange
      refine hkeys (becomes_of_withKeys (fun keys keys' hresult => ?_) hchange)
      obtain rfl := Option.some.inj hresult
      exact fromOld_orInsert _
  | nameKey bucket fromKey toName =>
      rw [change_nameKey] at hchange
      refine hkeys (becomes_of_withKeys (fun keys keys' hresult => ?_) hchange)
      split_ifs at hresult
      obtain rfl := Option.some.inj hresult
      exact fromOld_move _ _
  | deleteKey bucket key =>
      rw [change_deleteKey] at hchange
      refine hkeys (becomes_of_withKeys (fun keys keys' hresult => ?_) hchange)
      split_ifs at hresult
      obtain rfl := Option.some.inj hresult
      exact fromOld_erase _

/-! ## What every change keeps -/

theorem path_of_change (hchange : m.change fresh change = .ok m') : m'.path = m.path := by
  rcases change_cases hchange with
    ⟨tree, -, rfl⟩ | ⟨bucket, path, entry, write, entry', hborrow, -, rfl⟩
  · rfl
  · simp only [borrowAt, Option.bind_eq_some_iff, Option.map_eq_some_iff, Prod.mk.injEq] at hborrow
    obtain ⟨top, -, found, -, -, rfl⟩ := hborrow
    rfl

theorem all_tells_default (hfresh : keyed fresh = false) :
    branching.All (Tells keyed) (.default fresh) :=
  Branching.all_of_children hfresh fun _ _ hchild => by cases hchild

theorem all_tells_of_fromOld (hfresh : keyed fresh = false) {old new : AssocMap Str KeyEntry}
    (hnew : FromOld fresh old new)
    (hold : ∀ label entry, old.lookup label = some entry → branching.All (Tells keyed) entry) :
    ∀ label entry, new.lookup label = some entry → branching.All (Tells keyed) entry := by
  intro label entry hlookup
  rcases hnew label entry hlookup with ⟨label', hlookup'⟩ | rfl
  · exact hold label' entry hlookup'
  · exact all_tells_default hfresh

theorem Becomes.all_tells (hbecomes : Becomes fresh entry entry') (hfresh : keyed fresh = false)
    (hall : branching.All (Tells keyed) entry) : branching.All (Tells keyed) entry' := by
  obtain ⟨hbroker, hkeys⟩ := hbecomes
  have htells : keyed entry.broker = entry.keys.isSome := hall.here
  have hold {keys : AssocMap Segment KeyEntry} (hentry : entry.keys = some keys) :
      ∀ label child, keys.lookup label = some child → branching.All (Tells keyed) child := by
    intro label child hlookup
    have hchild : branching.child entry label = some child := by
      rw [child_of_keys hentry, hlookup]
    exact hall.child hchild
  apply Branching.all_of_children
  · rw [Tells, hbroker, htells, Bool.eq_iff_iff]
    exact Branching.isSome_iff_of_rel hkeys
  · intro label child hchild
    cases hentry : entry.keys with
    | none =>
        rw [hentry] at hkeys
        cases hkeys' : entry'.keys with
        | none => simp [Branching.child, branching, hkeys'] at hchild
        | some keys' =>
            rw [hkeys'] at hkeys
            cases hkeys
    | some keys =>
        rw [hentry] at hkeys
        obtain ⟨keys', hkeys', hnew⟩ := Branching.exists_of_rel_some_left hkeys
        rw [child_of_keys hkeys'] at hchild
        exact all_tells_of_fromOld hfresh hnew (hold hentry) label child hchild

theorem keyedBy_write (hkeyed : m.KeyedBy keyed)
    (hborrow : m.borrowAt bucket path = some (entry, write))
    (hall : branching.All (Tells keyed) entry → branching.All (Tells keyed) entry') :
    (write entry').KeyedBy keyed := by
  simp only [borrowAt, Option.bind_eq_some_iff, Option.map_eq_some_iff, Prod.mk.injEq,
    Prod.exists] at hborrow
  obtain ⟨top, htop, found, write', hfound, rfl, rfl⟩ := hborrow
  have htells := hkeyed bucket top htop
  intro bucket' entry'' hlookup
  rw [AssocMap.lookup_insert] at hlookup
  split_ifs at hlookup
  · obtain rfl := Option.some.inj hlookup
    have hbelow : branching.All (Tells keyed) found := by
      intro place child hdescend
      apply htells (path ++ place) child
      rw [Branching.descend_append, branching.descend_of_borrow hfound, Option.bind_some, hdescend]
    refine branching.all_put ?_ hfound htells (hall hbelow)
    intro t map map' hmap ht
    have hmap' : t.keys = some map := hmap
    rwa [Tells, hmap'] at ht
  · exact hkeyed bucket' entry'' hlookup

theorem keyedBy_of_change (hfresh : keyed fresh = false) (hkeyed : m.KeyedBy keyed)
    (hchange : m.change fresh change = .ok m') : m'.KeyedBy keyed := by
  rcases change_cases hchange with
    ⟨tree, hnew, rfl⟩ | ⟨bucket, path, entry, write, entry', hborrow, hbecomes, rfl⟩
  · exact all_tells_of_fromOld hfresh hnew hkeyed
  · exact keyedBy_write hkeyed hborrow (hbecomes.all_tells hfresh)

end BucketMap

end WsHyper.Directory
