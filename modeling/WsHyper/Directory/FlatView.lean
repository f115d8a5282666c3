import WsHyper.Directory.BucketMap
import WsHyper.Directory.FlatMap
import Mathlib.Data.List.Perm.Basic

/-!
# The tree as a flat store

`BucketMap.view` maps every bucket and path of segments that the tree holds to
the objects there, in no order, and the broker.  Each change has its effect on
the view; the lemmas of the first part say, for any tree and any key, what the
view is after a change that went through.  `view_change` puts them together for
a change whose target is present.
-/

namespace WsHyper.Directory

open WsHyper.Lib WsHyper.Lib.Text

abbrev View := FlatMap Bucket Segment Object Broker

namespace BucketMap

def view (m : BucketMap) : View :=
  fun bucket path => (m.tree.lookup bucket).bind fun entry => branching.view entry path

def entryAt (m : BucketMap) (bucket : Bucket) (path : List Segment) : Option KeyEntry :=
  (m.tree.lookup bucket).bind fun entry => branching.descend entry path

def borrowAt (m : BucketMap) (bucket : Bucket) (path : List Segment) :
    Option (KeyEntry × (KeyEntry → BucketMap)) :=
  (m.tree.lookup bucket).bind fun entry =>
    (branching.borrow entry path).map fun found =>
      (found.1, fun u => { m with tree := m.tree.insert bucket (found.2 u) })

theorem view_eq_map_entryAt (m : BucketMap) (bucket : Bucket) (path : List Segment) :
    m.view bucket path = (m.entryAt bucket path).map branching.data := by
  rw [view, entryAt]
  cases m.tree.lookup bucket <;> rfl

@[simp] theorem isSome_view_nil (m : BucketMap) (bucket : Bucket) :
    (m.view bucket []).isSome = (m.tree.lookup bucket).isSome := by
  rw [view]
  cases m.tree.lookup bucket <;> rfl

theorem entryAt_append_singleton (m : BucketMap) (bucket : Bucket) (path : List Segment)
    (segment : Segment) :
    m.entryAt bucket (path ++ [segment]) =
      (m.entryAt bucket path).bind fun entry => branching.child entry segment := by
  rw [entryAt, entryAt]
  cases m.tree.lookup bucket with
  | none => rfl
  | some entry => simp [Branching.descend_append]

theorem view_append_of_none {m : BucketMap} {bucket : Bucket} {path : List Segment}
    (hnone : m.view bucket path = none) (rest : List Segment) :
    m.view bucket (path ++ rest) = none := by
  rw [view] at hnone ⊢
  cases hlookup : m.tree.lookup bucket with
  | none => rfl
  | some entry =>
      rw [hlookup, Option.bind_some, Branching.view, Option.map_eq_none_iff] at hnone
      exact branching.view_append_of_none hnone rest

/-! ## Walking by key is walking by path -/

theorem foldlM_eq_descend (entry : KeyEntry) (path : List Segment) :
    path.foldlM (fun entry segment => do
      let keys ← entry.keys
      keys.lookup segment) entry = branching.descend entry path := by
  induction path generalizing entry with
  | nil => rfl
  | cons segment path ih =>
      rw [List.foldlM_cons, Branching.descend_cons]
      cases hchild : branching.child entry segment with
      | none =>
          rw [show (do let keys ← entry.keys; keys.lookup segment) = none from hchild]
          rfl
      | some entry' =>
          rw [show (do let keys ← entry.keys; keys.lookup segment) = some entry' from hchild]
          exact ih entry'

theorem getEntry_eq (m : BucketMap) (bucket : Bucket) (key : Key) :
    m.getEntry bucket key = m.entryAt bucket key.path := by
  rw [getEntry, entryAt, Key.path]
  by_cases hroot : key.isRoot
  · rw [if_pos hroot, if_pos hroot]
    cases m.tree.lookup bucket <;> rfl
  · rw [if_neg hroot, if_neg hroot]
    cases m.tree.lookup bucket with
    | none => rfl
    | some entry => exact foldlM_eq_descend entry key.intoIter

theorem getMutBucket_eq (m : BucketMap) (bucket : Bucket) :
    m.getMutBucket bucket = m.borrowAt bucket [] := by
  rw [getMutBucket, borrowAt]
  cases m.tree.lookup bucket <;> rfl

theorem getMutEntry_eq (m : BucketMap) (bucket : Bucket) (key : Key) :
    m.getMutEntry bucket key = m.borrowAt bucket key.path := by
  rw [getMutEntry, Key.path]
  by_cases hroot : key.isRoot
  · rw [if_pos hroot, if_pos hroot, getMutBucket_eq]
  · rw [if_neg hroot, if_neg hroot, getMutBucket, borrowAt]
    cases m.tree.lookup bucket with
    | none => rfl
    | some entry =>
        cases hborrow : branching.borrow entry key.intoIter with
        | none => simp [hborrow]
        | some found => simp [hborrow]

/-- Both ways to the parent of a key lead along the same path. -/
theorem getMutParent_eq (m : BucketMap) (bucket : Bucket) (key : Key) :
    m.getMutParent bucket key =
      (m.borrowAt bucket key.parentLeaf.1, key.parentLeaf.2) := by
  rw [getMutParent, Key.parentLeaf]
  cases rsplitOnce '/' key with
  | none => simp [getMutBucket_eq]
  | some parts => simp [getMutEntry_eq]

/-! ## Reading after a write -/

variable {m : BucketMap} {bucket : Bucket} {path : List Segment} {entry : KeyEntry}
  {write : KeyEntry → BucketMap}

theorem borrowAt_eq_none_iff :
    m.borrowAt bucket path = none ↔ m.entryAt bucket path = none := by
  rw [borrowAt, entryAt]
  cases m.tree.lookup bucket with
  | none => simp
  | some entry => simp [Branching.borrow_eq_none_iff]

theorem entryAt_of_borrowAt (hborrow : m.borrowAt bucket path = some (entry, write)) :
    m.entryAt bucket path = some entry := by
  rw [borrowAt] at hborrow
  rw [entryAt]
  cases hlookup : m.tree.lookup bucket with
  | none => simp [hlookup] at hborrow
  | some e =>
      simp only [hlookup, Option.bind_some, Option.map_eq_some_iff, Prod.mk.injEq] at hborrow
      obtain ⟨found, hfound, rfl, -⟩ := hborrow
      exact branching.descend_of_borrow hfound

theorem exists_borrowAt (hentry : m.entryAt bucket path = some entry) :
    ∃ write, m.borrowAt bucket path = some (entry, write) := by
  cases hborrow : m.borrowAt bucket path with
  | none => simp [borrowAt_eq_none_iff.1 hborrow] at hentry
  | some found =>
      obtain ⟨entry', write⟩ := found
      have hentry' := entryAt_of_borrowAt hborrow
      obtain rfl := Option.some.inj (hentry.symm.trans hentry')
      exact ⟨write, rfl⟩

theorem view_of_borrowAt (hborrow : m.borrowAt bucket path = some (entry, write))
    (place : List Segment) : m.view bucket (path ++ place) = branching.view entry place := by
  have hentry := entryAt_of_borrowAt hborrow
  rw [entryAt, Option.bind_eq_some_iff] at hentry
  obtain ⟨e, hlookup, hdescend⟩ := hentry
  rw [view, hlookup, Option.bind_some, branching.view_append hdescend]

/-- A write shows in its bucket below the borrowed path, and nowhere else. -/
theorem view_write (hborrow : m.borrowAt bucket path = some (entry, write))
    (entry' : KeyEntry) (bucket' : Bucket) (place : List Segment) :
    (write entry').view bucket' place =
      if bucket = bucket' ∧ path <+: place then
        branching.view entry' (place.drop path.length)
      else m.view bucket' place := by
  rw [borrowAt] at hborrow
  cases hlookup : m.tree.lookup bucket with
  | none => simp [hlookup] at hborrow
  | some e =>
      simp only [hlookup, Option.bind_some, Option.map_eq_some_iff, Prod.mk.injEq] at hborrow
      obtain ⟨found, hfound, rfl, rfl⟩ := hborrow
      by_cases hbucket : bucket = bucket'
      · subst hbucket
        simp [view, hlookup, branching.view_put hfound]
      · simp [view, AssocMap.lookup_insert, hbucket]

theorem view_withObjects (entry : KeyEntry) (objects : Option (List Object))
    (place : List Segment) :
    branching.view { entry with objects } place =
      if place = [] then some ((objects.getD [] : Multiset Object), entry.broker)
      else branching.view entry place := by
  cases place with
  | nil => rfl
  | cons segment place => rfl

theorem view_withKeys (entry : KeyEntry) (keys : AssocMap Segment KeyEntry)
    (place : List Segment) :
    branching.view { entry with keys := some keys } place =
      match place with
      | [] => branching.view entry []
      | segment :: place => (keys.lookup segment).bind fun e => branching.view e place := by
  cases place with
  | nil => rfl
  | cons segment place =>
      have := branching.view_withKeys_cons entry keys segment place
      exact this

@[simp] theorem data_default (fresh : Broker) :
    branching.data (KeyEntry.default fresh) = (0, fresh) := rfl

theorem view_default (fresh : Broker) (place : List Segment) :
    branching.view (KeyEntry.default fresh) place =
      if place = [] then some (0, fresh) else none := by
  cases place <;> rfl

/-- Exchanging the objects of a borrowed entry updates one place of the view. -/
theorem view_write_objects (hborrow : m.borrowAt bucket path = some (entry, write))
    (objects : Option (List Object)) :
    (write { entry with objects }).view =
      m.view.update bucket path
        (some ((objects.getD [] : Multiset Object), entry.broker)) := by
  funext bucket' place
  rw [view_write hborrow, FlatMap.update]
  by_cases hbucket : bucket = bucket'
  · subst hbucket
    by_cases hpre : path <+: place
    · obtain ⟨rest, rfl⟩ := hpre
      rw [if_pos ⟨rfl, List.prefix_append _ _⟩, List.drop_left, view_withObjects,
        view_of_borrowAt hborrow]
      by_cases hrest : rest = [] <;> simp [hrest]
    · have hne : path ≠ place := fun heq => hpre (heq ▸ List.prefix_rfl)
      simp [hpre, hne]
  · simp [hbucket]

theorem view_at_of_borrowAt (hborrow : m.borrowAt bucket path = some (entry, write)) :
    m.view bucket path = some ((entry.objects.getD [] : Multiset Object), entry.broker) := by
  have hview := view_of_borrowAt hborrow []
  rwa [List.append_nil] at hview

/-- Exchanging the keys of a borrowed entry changes the view below the labels
whose value changed. -/
theorem view_write_keys (hborrow : m.borrowAt bucket path = some (entry, write))
    (keys : AssocMap Segment KeyEntry) (segment : Segment) (rest : List Segment) :
    (write { entry with keys := some keys }).view bucket (path ++ segment :: rest) =
      (keys.lookup segment).bind fun e => branching.view e rest := by
  rw [view_write hborrow, if_pos ⟨rfl, List.prefix_append _ _⟩, List.drop_left, view_withKeys]

theorem view_write_keys_self (hborrow : m.borrowAt bucket path = some (entry, write))
    (keys : AssocMap Segment KeyEntry) :
    (write { entry with keys := some keys }).view bucket path = m.view bucket path := by
  rw [view_write hborrow, if_pos ⟨rfl, List.prefix_rfl⟩, List.drop_length, view_withKeys,
    view_at_of_borrowAt hborrow]
  rfl

theorem view_write_outside (hborrow : m.borrowAt bucket path = some (entry, write))
    (entry' : KeyEntry) {bucket' : Bucket} {place : List Segment}
    (hplace : ¬(bucket = bucket' ∧ path <+: place)) :
    (write entry').view bucket' place = m.view bucket' place := by
  rw [view_write hborrow, if_neg hplace]

theorem view_through_keys (hborrow : m.borrowAt bucket path = some (entry, write))
    {keys : AssocMap Segment KeyEntry} (hkeys : entry.keys = some keys) (segment : Segment)
    (rest : List Segment) :
    m.view bucket (path ++ segment :: rest) =
      (keys.lookup segment).bind fun e => branching.view e rest := by
  rw [view_of_borrowAt hborrow, Branching.view_cons, Branching.child]
  simp [branching, hkeys]

theorem isSome_lookup_iff (hborrow : m.borrowAt bucket path = some (entry, write))
    {keys : AssocMap Segment KeyEntry} (hkeys : entry.keys = some keys) (segment : Segment) :
    (keys.lookup segment).isSome = (m.view bucket (path ++ [segment])).isSome := by
  rw [view_through_keys hborrow hkeys]
  cases keys.lookup segment <;> rfl

/-! ## Renaming and removing the first object of a name -/

theorem setFileName_eq_none_iff {fromName toName : Str} {objects : List Object} :
    setFileName fromName toName objects = none ↔
      ∀ o ∈ objects, o.fileName ≠ fromName := by
  induction objects with
  | nil => simp [setFileName]
  | cons object objects ih =>
      rw [setFileName]
      split_ifs with hname <;> simp [hname, ih]

theorem coe_of_setFileName {fromName toName : Str} {objects objects' : List Object}
    (hset : setFileName fromName toName objects = some objects') :
    ∃ o ∈ objects, o.fileName = fromName ∧
      (objects' : Multiset Object) =
        { o with fileName := toName } ::ₘ (objects : Multiset Object).erase o := by
  induction objects generalizing objects' with
  | nil => simp [setFileName] at hset
  | cons object objects ih =>
      rw [setFileName] at hset
      split_ifs at hset with hname
      · cases hset
        exact ⟨object, by simp, hname, by simp⟩
      · rw [Option.map_eq_some_iff] at hset
        obtain ⟨rest, hrest, rfl⟩ := hset
        obtain ⟨o, ho, hoName, hcoe⟩ := ih hrest
        have hne : object ≠ o := fun heq => hname (heq ▸ hoName)
        refine ⟨o, List.mem_cons_of_mem _ ho, hoName, ?_⟩
        rw [← Multiset.cons_coe, ← Multiset.cons_coe, hcoe,
          Multiset.erase_cons_tail _ hne, Multiset.cons_swap]

theorem swapRemove_append_singleton (objects : List Object) (last : Object) (idx : Nat) :
    swapRemove (objects ++ [last]) idx = ((objects ++ [last]).set idx last).dropLast := by
  simp [swapRemove]

theorem coe_swapRemove {objects : List Object} {idx : Nat} (hidx : idx < objects.length) :
    (swapRemove objects idx : Multiset Object) =
      (objects : Multiset Object).erase objects[idx] := by
  induction objects using List.reverseRecOn with
  | nil => simp at hidx
  | append_singleton objects last _ =>
      rw [swapRemove_append_singleton]
      simp only [List.length_append, List.length_singleton] at hidx
      rcases Nat.lt_or_ge idx objects.length with hlt | hge
      · have hperm := List.set_perm_cons_eraseIdx hlt last
        have hperm' := List.getElem_cons_eraseIdx_perm hlt
        rw [List.set_append_left _ _ hlt, List.dropLast_concat, Multiset.coe_erase,
          Multiset.coe_eq_coe, List.getElem_append_left hlt]
        -- both sides are the objects without the removed one, and the last
        have hconcat : List.Perm (objects ++ [last])
            (objects[idx] :: last :: objects.eraseIdx idx) :=
          (List.perm_append_singleton _ _).trans
            ((hperm'.symm.cons last).trans (List.Perm.swap _ _ _))
        have herase := hconcat.erase objects[idx]
        rw [List.erase_cons_head] at herase
        exact hperm.trans herase.symm
      · have heq : idx = objects.length := by omega
        subst heq
        rw [List.set_append_right _ _ (Nat.le_refl _), Multiset.coe_erase,
          Multiset.coe_eq_coe]
        simp only [Nat.sub_self, List.set_cons_zero, List.dropLast_concat,
          List.getElem_concat_length]
        have herase := (List.perm_append_singleton last objects).erase last
        rw [List.erase_cons_head] at herase
        exact herase.symm

/-! ## The effect of each change on the view -/

section Effects

variable (m) (fresh : Broker)

theorem view_newObject (bucket : Bucket) (key : Key) (object : Object) :
    ∃ m', m.change fresh (.newObject bucket key object) = .ok m' ∧
      m'.view = m.view.addItem bucket key.path object := by
  rw [change, getMutEntry_eq]
  cases hborrow : m.borrowAt bucket key.path with
  | none =>
      refine ⟨m, rfl, ?_⟩
      have hview : m.view bucket key.path = none := by
        rw [view_eq_map_entryAt, borrowAt_eq_none_iff.1 hborrow]
        rfl
      rw [FlatMap.addItem, FlatMap.update_eq_self (by simp [hview])]
  | some found =>
      refine ⟨_, rfl, ?_⟩
      rw [view_write_objects hborrow, FlatMap.addItem, view_at_of_borrowAt hborrow]
      congr 2
      simp only [Option.getD_some, Prod.mk.injEq, and_true, Multiset.cons_coe]
      exact Multiset.coe_eq_coe.2 (List.perm_append_singleton _ _)

theorem view_newBucket (bucket : Bucket) :
    ∃ m', m.change fresh (.newBucket bucket) = .ok m' ∧
      m'.view = m.view.addPlace bucket [] fresh := by
  refine ⟨_, rfl, ?_⟩
  funext bucket' place
  rw [FlatMap.addPlace, FlatMap.update, view, view, AssocMap.lookup_orInsert]
  by_cases hbucket : bucket = bucket'
  · subst hbucket
    rw [if_pos rfl, view]
    cases m.tree.lookup bucket with
    | none =>
        cases place with
        | nil => simp
        | cons segment place => simp [view_default]
    | some entry => cases place <;> simp
  · simp [hbucket, view]

theorem view_deleteBucket (bucket : Bucket) :
    ∃ m', m.change fresh (.deleteBucket bucket) = .ok m' ∧
      m'.view = m.view.drop bucket [] := by
  refine ⟨_, rfl, ?_⟩
  funext bucket' place
  rw [FlatMap.drop, view, view]
  by_cases hbucket : bucket = bucket'
  · subst hbucket
    simp
  · simp [hbucket, AssocMap.lookup_erase_of_ne (Ne.symm hbucket)]

theorem view_nameObject_of_absent {bucket : Bucket} {key : Key} {fromName : Str}
    (habsent : ∀ o ∈ m.view.items bucket key.path, o.fileName ≠ fromName) (toName : Str) :
    m.change fresh (.nameObject bucket key fromName toName) = .ok m := by
  rw [change, getMutEntry_eq]
  cases hborrow : m.borrowAt bucket key.path with
  | none => rfl
  | some found =>
      rw [FlatMap.items, view_at_of_borrowAt hborrow] at habsent
      cases hobjects : found.1.objects with
      | none => simp [hobjects]
      | some objects =>
          have hnone : setFileName fromName toName objects = none :=
            setFileName_eq_none_iff.2 (by simpa [hobjects] using habsent)
          simp [hobjects, hnone]

theorem view_nameObject {bucket : Bucket} {key : Key} {fromName : Str}
    (hpresent : ∃ o ∈ m.view.items bucket key.path, o.fileName = fromName) (toName : Str) :
    ∃ m', m.change fresh (.nameObject bucket key fromName toName) = .ok m' ∧
      ∃ o ∈ m.view.items bucket key.path, o.fileName = fromName ∧
        m'.view = m.view.replaceItem bucket key.path o { o with fileName := toName } := by
  rw [change, getMutEntry_eq]
  cases hborrow : m.borrowAt bucket key.path with
  | none =>
      rw [FlatMap.items, view_eq_map_entryAt, borrowAt_eq_none_iff.1 hborrow] at hpresent
      simp at hpresent
  | some found =>
      have hview := view_at_of_borrowAt hborrow
      rw [FlatMap.items, hview] at hpresent ⊢
      simp only [Option.map_some, Option.getD_some, Multiset.mem_coe] at hpresent ⊢
      cases hobjects : found.1.objects with
      | none => simp [hobjects] at hpresent
      | some objects =>
          rw [hobjects, Option.getD_some] at hpresent
          cases hset : setFileName fromName toName objects with
          | none =>
              obtain ⟨o, ho, hname⟩ := hpresent
              exact absurd hname (setFileName_eq_none_iff.1 hset o ho)
          | some objects' =>
              obtain ⟨o, ho, hname, hcoe⟩ := coe_of_setFileName hset
              refine ⟨_, by rw [Option.bind_some, hset], o, ho, hname, ?_⟩
              rw [view_write_objects hborrow, FlatMap.replaceItem, hview, hobjects]
              simp [hcoe]

theorem view_deleteObject_of_absent {bucket : Bucket} {key : Key} {fileName : Str}
    (habsent : ∀ o ∈ m.view.items bucket key.path, o.fileName ≠ fileName) :
    m.change fresh (.deleteObject bucket key fileName) = .ok m := by
  rw [change, getMutEntry_eq]
  cases hborrow : m.borrowAt bucket key.path with
  | none => rfl
  | some found =>
      rw [FlatMap.items, view_at_of_borrowAt hborrow] at habsent
      cases hobjects : found.1.objects with
      | none => simp [hobjects]
      | some objects =>
          have hnone : (objects.findIdx? fun o => o.fileName = fileName) = none := by
            simpa [hobjects] using habsent
          simp [hobjects, hnone]

theorem view_deleteObject {bucket : Bucket} {key : Key} {fileName : Str}
    (hpresent : ∃ o ∈ m.view.items bucket key.path, o.fileName = fileName) :
    ∃ m', m.change fresh (.deleteObject bucket key fileName) = .ok m' ∧
      ∃ o ∈ m.view.items bucket key.path, o.fileName = fileName ∧
        m'.view = m.view.eraseItem bucket key.path o := by
  rw [change, getMutEntry_eq]
  cases hborrow : m.borrowAt bucket key.path with
  | none =>
      rw [FlatMap.items, view_eq_map_entryAt, borrowAt_eq_none_iff.1 hborrow] at hpresent
      simp at hpresent
  | some found =>
      have hview := view_at_of_borrowAt hborrow
      rw [FlatMap.items, hview] at hpresent ⊢
      simp only [Option.map_some, Option.getD_some, Multiset.mem_coe] at hpresent ⊢
      cases hobjects : found.1.objects with
      | none => simp [hobjects] at hpresent
      | some objects =>
          rw [hobjects, Option.getD_some] at hpresent
          cases hfind : objects.findIdx? fun o => o.fileName = fileName with
          | none =>
              obtain ⟨o, ho, hname⟩ := hpresent
              exact absurd hname (by simpa using List.findIdx?_eq_none_iff.1 hfind o ho)
          | some idx =>
              obtain ⟨hidx, hname, -⟩ := List.findIdx?_eq_some_iff_getElem.1 hfind
              refine ⟨_, by simp only [hfind]; rfl, objects[idx], List.getElem_mem hidx,
                by simpa using hname, ?_⟩
              rw [view_write_objects hborrow, FlatMap.eraseItem, hview, hobjects]
              simp [coe_swapRemove hidx]

theorem change_nameBucket_of_absent {fromName : Bucket}
    (habsent : m.view fromName [] = none) (toName : Bucket) :
    m.change fresh (.nameBucket fromName toName) = .ok m := by
  rw [change]
  cases hlookup : m.tree.lookup fromName with
  | none => rfl
  | some entry => simp [view, hlookup] at habsent

theorem view_nameBucket {fromName : Bucket} (hpresent : (m.view fromName []).isSome)
    (toName : Bucket) :
    ∃ m', m.change fresh (.nameBucket fromName toName) = .ok m' ∧
      m'.view = m.view.moveRoot fromName toName := by
  rw [change]
  cases hlookup : m.tree.lookup fromName with
  | none => simp [view, hlookup] at hpresent
  | some entry =>
      refine ⟨_, rfl, ?_⟩
      funext bucket' place
      rw [FlatMap.moveRoot, view, view, view, AssocMap.lookup_insert]
      by_cases hto : toName = bucket'
      · simp [hto, hlookup]
      · by_cases hfrom : fromName = bucket'
        · subst hfrom
          simp [hto]
        · simp [hto, hfrom, AssocMap.lookup_erase_of_ne (Ne.symm hfrom)]

/-! The changes of keys borrow the entry at the parent's path. -/

theorem change_newKey (bucket : Bucket) (key : Key) :
    m.change fresh (.newKey bucket key) =
      m.withKeys (m.borrowAt bucket key.parentLeaf.1) fun keys =>
        some (keys.orInsert key.parentLeaf.2 (.default fresh)) := by
  rw [change, getMutParent_eq]

theorem change_nameKey (bucket : Bucket) (fromKey : Key) (toName : Segment) :
    m.change fresh (.nameKey bucket fromKey toName) =
      m.withKeys (m.borrowAt bucket fromKey.parentLeaf.1) fun keys =>
        if (keys.lookup toName).isSome then none
        else some ((keys.erase fromKey.parentLeaf.2).insert toName
          ((keys.lookup fromKey.parentLeaf.2).getD (.default fresh))) := by
  rw [change, getMutParent_eq]

theorem change_deleteKey (bucket : Bucket) (key : Key) :
    m.change fresh (.deleteKey bucket key) =
      m.withKeys (m.borrowAt bucket key.parentLeaf.1) fun keys =>
        if (keys.lookup key.parentLeaf.2).isSome then
          some (keys.erase key.parentLeaf.2)
        else none := by
  rw [change, getMutParent_eq]

variable {m}

theorem withKeys_of_absent (habsent : m.entryAt bucket path = none)
    (body : AssocMap Segment KeyEntry → Option (AssocMap Segment KeyEntry)) :
    m.withKeys (m.borrowAt bucket path) body = .ok m := by
  rw [borrowAt_eq_none_iff.2 habsent, withKeys]

theorem withKeys_of_no_keys (hentry : m.entryAt bucket path = some entry)
    (hkeys : entry.keys = none)
    (body : AssocMap Segment KeyEntry → Option (AssocMap Segment KeyEntry)) :
    m.withKeys (m.borrowAt bucket path) body = .error .unwrapNone := by
  obtain ⟨write, hborrow⟩ := exists_borrowAt hentry
  rw [hborrow, withKeys, hkeys]
  rfl

theorem withKeys_of_keys (hborrow : m.borrowAt bucket path = some (entry, write))
    {keys : AssocMap Segment KeyEntry} (hkeys : entry.keys = some keys)
    (body : AssocMap Segment KeyEntry → Option (AssocMap Segment KeyEntry)) :
    m.withKeys (m.borrowAt bucket path) body =
      match body keys with
      | none => .ok m
      | some keys' => .ok (write { entry with keys := some keys' }) := by
  rw [hborrow, withKeys, hkeys]
  change (match body keys with
    | none => pure m
    | some keys' => pure (write { entry with keys := some keys' })) = _
  cases body keys <;> rfl

/-- Without a panic, `withKeys` leaves the tree or writes new keys to the entry. -/
theorem eq_or_write_of_withKeys {m' : BucketMap}
    {body : AssocMap Segment KeyEntry → Option (AssocMap Segment KeyEntry)}
    (hchange : m.withKeys (m.borrowAt bucket path) body = .ok m') :
    m' = m ∨ ∃ entry write keys keys', m.borrowAt bucket path = some (entry, write) ∧
      entry.keys = some keys ∧ body keys = some keys' ∧
        m' = write { entry with keys := some keys' } := by
  cases hborrow : m.borrowAt bucket path with
  | none =>
      rw [hborrow, withKeys] at hchange
      exact .inl (Except.ok.inj hchange).symm
  | some found =>
      obtain ⟨entry, write⟩ := found
      cases hkeys : entry.keys with
      | none =>
          rw [withKeys_of_no_keys (entryAt_of_borrowAt hborrow) hkeys] at hchange
          cases hchange
      | some keys =>
          rw [withKeys_of_keys hborrow hkeys] at hchange
          cases hresult : body keys with
          | none =>
              rw [hresult] at hchange
              exact .inl (Except.ok.inj hchange).symm
          | some keys' =>
              rw [hresult] at hchange
              exact .inr ⟨entry, write, keys, keys', rfl, hkeys, hresult,
                (Except.ok.inj hchange).symm⟩

theorem view_orInsert (hborrow : m.borrowAt bucket path = some (entry, write))
    {keys : AssocMap Segment KeyEntry} (hkeys : entry.keys = some keys) (segment : Segment) :
    (write { entry with keys := some (keys.orInsert segment (.default fresh)) }).view =
      m.view.addPlace bucket (path ++ [segment]) fresh := by
  apply FlatMap.ext_below bucket path
  · intro bucket' place hplace
    rw [view_write_outside hborrow _ hplace, FlatMap.addPlace_outside _ _ _ _ _ hplace]
  · rw [view_write_keys_self hborrow, FlatMap.addPlace_self]
  · intro segment' rest
    rw [view_write_keys hborrow, AssocMap.lookup_orInsert, FlatMap.addPlace_below,
      view_through_keys hborrow hkeys, view_through_keys hborrow hkeys]
    by_cases hsegment : segment = segment'
    · subst hsegment
      cases keys.lookup segment with
      | none => cases rest <;> simp [view_default]
      | some e => cases rest <;> simp
    · simp [hsegment]

theorem view_erase (hborrow : m.borrowAt bucket path = some (entry, write))
    {keys : AssocMap Segment KeyEntry} (hkeys : entry.keys = some keys) (segment : Segment) :
    (write { entry with keys := some (keys.erase segment) }).view =
      m.view.drop bucket (path ++ [segment]) := by
  apply FlatMap.ext_below bucket path
  · intro bucket' place hplace
    rw [view_write_outside hborrow _ hplace, FlatMap.drop_outside _ _ _ _ hplace]
  · rw [view_write_keys_self hborrow, FlatMap.drop_self]
  · intro segment' rest
    rw [view_write_keys hborrow, FlatMap.drop_below, view_through_keys hborrow hkeys]
    by_cases hsegment : segment = segment'
    · subst hsegment
      simp
    · simp [hsegment, AssocMap.lookup_erase_of_ne (Ne.symm hsegment)]

theorem view_insert_erase (hborrow : m.borrowAt bucket path = some (entry, write))
    {keys : AssocMap Segment KeyEntry} (hkeys : entry.keys = some keys) {segment : Segment}
    {child : KeyEntry} (hchild : keys.lookup segment = some child) (toName : Segment) :
    (write { entry with keys := some ((keys.erase segment).insert toName child) }).view =
      m.view.movePath bucket path segment toName := by
  apply FlatMap.ext_below bucket path
  · intro bucket' place hplace
    rw [view_write_outside hborrow _ hplace, FlatMap.movePath_outside _ _ _ _ _ hplace]
  · rw [view_write_keys_self hborrow, FlatMap.movePath_self]
  · intro segment' rest
    rw [view_write_keys hborrow, AssocMap.lookup_insert, FlatMap.movePath_below,
      view_through_keys hborrow hkeys, view_through_keys hborrow hkeys, hchild]
    by_cases hto : toName = segment'
    · simp [hto]
    · by_cases hsegment : segment = segment'
      · simp [hto, hsegment]
      · simp [hto, hsegment, AssocMap.lookup_erase_of_ne (Ne.symm hsegment)]

theorem view_insert_default (hborrow : m.borrowAt bucket path = some (entry, write))
    {keys : AssocMap Segment KeyEntry} (hkeys : entry.keys = some keys)
    {segment toName : Segment} (hsegment : keys.lookup segment = none)
    (hto : keys.lookup toName = none) :
    (write { entry with
        keys := some ((keys.erase segment).insert toName (.default fresh)) }).view =
      m.view.addPlace bucket (path ++ [toName]) fresh := by
  apply FlatMap.ext_below bucket path
  · intro bucket' place hplace
    rw [view_write_outside hborrow _ hplace, FlatMap.addPlace_outside _ _ _ _ _ hplace]
  · rw [view_write_keys_self hborrow, FlatMap.addPlace_self]
  · intro segment' rest
    rw [view_write_keys hborrow, AssocMap.lookup_insert, FlatMap.addPlace_below,
      view_through_keys hborrow hkeys, view_through_keys hborrow hkeys]
    by_cases hname : toName = segment'
    · subst hname
      rw [hto]
      cases rest <;> simp [view_default]
    · by_cases hfrom : segment = segment'
      · subst hfrom
        simp [hname, hsegment]
      · simp [hname, AssocMap.lookup_erase_of_ne (Ne.symm hfrom)]

/-! What a change of keys or of a bucket's name did to the view, if it went through. -/

variable {m' : BucketMap} {key : Key} {fresh}

theorem view_of_newKey (hchange : m.change fresh (.newKey bucket key) = .ok m') :
    m'.view = m.view ∨
      (m.view bucket key.parentLeaf.1).isSome ∧
        m'.view = m.view.addPlace bucket (key.parentLeaf.1 ++ [key.parentLeaf.2]) fresh := by
  rw [change_newKey] at hchange
  obtain rfl | ⟨entry, write, keys, keys', hborrow, hkeys, hresult, rfl⟩ :=
    eq_or_write_of_withKeys hchange
  · exact .inl rfl
  obtain rfl := Option.some.inj hresult
  right
  rw [view_orInsert fresh hborrow hkeys, view_at_of_borrowAt hborrow]
  exact ⟨rfl, rfl⟩

theorem view_of_nameKey {toName : Segment}
    (hchange : m.change fresh (.nameKey bucket key toName) = .ok m') :
    m'.view = m.view ∨
      (m.view bucket key.parentLeaf.1).isSome ∧
        (m'.view = m.view.addPlace bucket (key.parentLeaf.1 ++ [toName]) fresh ∨
          m'.view = m.view.movePath bucket key.parentLeaf.1 key.parentLeaf.2 toName) := by
  rw [change_nameKey] at hchange
  obtain rfl | ⟨entry, write, keys, keys', hborrow, hkeys, hresult, rfl⟩ :=
    eq_or_write_of_withKeys hchange
  · exact .inl rfl
  right
  rw [view_at_of_borrowAt hborrow]
  refine ⟨rfl, ?_⟩
  cases hto : keys.lookup toName with
  | some taken => simp [hto] at hresult
  | none =>
      rw [hto, Option.isSome_none, if_neg (by simp)] at hresult
      obtain rfl := Option.some.inj hresult
      cases hfrom : keys.lookup key.parentLeaf.2 with
      | none =>
          left
          rw [Option.getD_none, view_insert_default fresh hborrow hkeys hfrom hto]
      | some child =>
          right
          rw [Option.getD_some, view_insert_erase hborrow hkeys hfrom]

theorem view_of_deleteKey (hchange : m.change fresh (.deleteKey bucket key) = .ok m') :
    m'.view = m.view ∨
      m'.view = m.view.drop bucket (key.parentLeaf.1 ++ [key.parentLeaf.2]) := by
  rw [change_deleteKey] at hchange
  obtain rfl | ⟨entry, write, keys, keys', hborrow, hkeys, hresult, rfl⟩ :=
    eq_or_write_of_withKeys hchange
  · exact .inl rfl
  split_ifs at hresult
  obtain rfl := Option.some.inj hresult
  exact .inr (view_erase hborrow hkeys _)

theorem view_of_nameBucket {fromName toName : Bucket}
    (hchange : m.change fresh (.nameBucket fromName toName) = .ok m') :
    m'.view = m.view ∨ m'.view = m.view.moveRoot fromName toName := by
  cases hview : m.view fromName [] with
  | none =>
      rw [change_nameBucket_of_absent m fresh hview] at hchange
      obtain rfl := Except.ok.inj hchange
      exact .inl rfl
  | some content =>
      obtain ⟨m'', hmoved, hmove⟩ := view_nameBucket m fresh (by rw [hview]; rfl) toName
      obtain rfl := Except.ok.inj (hchange.symm.trans hmoved)
      exact .inr hmove

end Effects

end BucketMap

end WsHyper.Directory
