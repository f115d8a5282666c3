import WsHyper.Directory.ChangeRuns

/-!
# Renames onto taken names

`NameKey` looks whether its target is there and leaves the tree as it is.  `NameBucket`
looks, reports it and goes on; `NameObject` does not look.  A rename onto a free name gives
every bucket, key and object one place of its own, where it is found as before.
-/

namespace WsHyper.Directory

open WsHyper.Lib

inductive NameChange
  | nameObject (bucket : Bucket) (key : Key) (fromName toName : Str)
  | nameBucket (fromName toName : Bucket)
  | nameKey (bucket : Bucket) (fromKey : Key) (toName : Segment)

abbrev Place := Bucket × List Segment

namespace NameChange

def toChange : NameChange → Change
  | nameObject bucket key fromName toName => .nameObject bucket key fromName toName
  | nameBucket fromName toName => .nameBucket fromName toName
  | nameKey bucket fromKey toName => .nameKey bucket fromKey toName

def place : NameChange → Place → Place
  | nameObject _ _ _ _, address => address
  | nameBucket fromName toName, (b, path) => if b = fromName then (toName, path) else (b, path)
  | nameKey bucket fromKey toName, (b, path) =>
      if bucket = b ∧ fromKey.parentLeaf.1 ++ [fromKey.parentLeaf.2] <+: path then
        (b, fromKey.parentLeaf.1 ++ toName :: path.drop (fromKey.parentLeaf.1.length + 1))
      else (b, path)

def objectName : NameChange → Place → Str → Str
  | nameObject bucket key fromName toName, address, name =>
      if address = (bucket, key.path) ∧ name = fromName then toName else name
  | _, _, name => name

/-- The target is the name of another bucket, another key of the same parent or another
object of the same entry. -/
def Taken (m : BucketMap) : NameChange → Prop
  | nameObject bucket key fromName toName =>
      toName ≠ fromName ∧ (m.getObject bucket key toName).isSome
  | nameBucket fromName toName => toName ≠ fromName ∧ (m.tree.lookup toName).isSome
  | nameKey bucket fromKey toName =>
      toName ≠ fromKey.parentLeaf.2 ∧ (m.childAt bucket fromKey toName).isSome

/-- There is nothing to rename, or the change looks for its target. -/
def LooksOrMisses (m : BucketMap) : NameChange → Prop
  | nameObject bucket key fromName _ => m.getObject bucket key fromName = none
  | nameBucket fromName _ => m.tree.lookup fromName = none
  | nameKey _ _ _ => True

end NameChange

def findObject (objects : List Object) (name : Str) : Option Object :=
  objects.find? fun object => object.fileName = name

/-- The objects of an entry, in their order, and its broker. -/
def KeyEntry.content (entry : KeyEntry) : List Object × Broker :=
  (entry.objects.getD [], entry.broker)

namespace BucketMap

def contentAt (m : BucketMap) (address : Place) : Option (List Object × Broker) :=
  (m.entryAt address.1 address.2).map KeyEntry.content

end BucketMap

/-- Everything is found where the rename puts it, and nothing meets there. -/
structure Relocated (m m' : BucketMap) (c : NameChange) : Prop where
  found : ∀ address objects broker, m.contentAt address = some (objects, broker) →
    ∃ objects', m'.contentAt (c.place address) = some (objects', broker) ∧
      ∀ name object, findObject objects name = some object →
        findObject objects' (c.objectName address name) =
          some { object with fileName := c.objectName address name }
  placesApart : ∀ a b, (m.contentAt a).isSome → (m.contentAt b).isSome →
    c.place a = c.place b → a = b
  namesApart : ∀ address objects broker, m.contentAt address = some (objects, broker) →
    ∀ name name', (findObject objects name).isSome → (findObject objects name').isSome →
      c.objectName address name = c.objectName address name' → name = name'

/-- A taken name stops the change, and no change loses anything. -/
structure NeverOverwrites (m : BucketMap) (fresh : Broker) (c : NameChange) : Prop where
  taken : c.Taken m → m.change fresh c.toChange = .ok m
  kept : ∀ m', m.change fresh c.toChange = .ok m' → m' = m ∨ Relocated m m' c

theorem findObject_cons (object : Object) (objects : List Object) (name : Str) :
    findObject (object :: objects) name =
      if object.fileName = name then some object else findObject objects name := by
  rw [findObject, List.find?_cons]
  by_cases hname : object.fileName = name
  · simp [hname]
  · simp [hname, findObject]

theorem findObject_some {objects : List Object} {name : Str} {object : Object}
    (hfind : findObject objects name = some object) :
    object ∈ objects ∧ object.fileName = name := by
  refine ⟨List.mem_of_find?_eq_some hfind, ?_⟩
  simpa using List.find?_some hfind

theorem findObject_eq_none_iff {objects : List Object} {name : Str} :
    findObject objects name = none ↔ ∀ o ∈ objects, o.fileName ≠ name := by
  simp [findObject]

theorem findObject_setFileName {fromName toName : Str} {objects objects' : List Object}
    (hset : setFileName fromName toName objects = some objects')
    (hfree : toName = fromName ∨ ∀ o ∈ objects, o.fileName ≠ toName) {name : Str}
    {object : Object} (hfind : findObject objects name = some object) :
    findObject objects' (if name = fromName then toName else name) =
      some { object with fileName := if name = fromName then toName else name } := by
  induction objects generalizing objects' with
  | nil => cases hset
  | cons first objects ih =>
      rw [setFileName] at hset
      rw [findObject_cons] at hfind
      split_ifs at hset with hfirst
      · obtain rfl := Option.some.inj hset
        by_cases hname : name = fromName
        · rw [if_pos (hfirst.trans hname.symm)] at hfind
          obtain rfl := Option.some.inj hfind
          rw [if_pos hname, findObject_cons, if_pos rfl]
        · rw [if_neg fun heq => hname (heq.symm.trans hfirst)] at hfind
          obtain ⟨hmem, rfl⟩ := findObject_some hfind
          have hother : toName ≠ object.fileName := by
            intro heq
            rcases hfree with hsame | hfree
            · exact hname (heq.symm.trans hsame)
            · exact hfree object (List.mem_cons_of_mem _ hmem) heq.symm
          rw [if_neg hname, findObject_cons, if_neg hother]
          exact hfind
      · obtain ⟨rest, hrest, rfl⟩ := Option.map_eq_some_iff.1 hset
        by_cases hname : first.fileName = name
        · rw [if_pos hname] at hfind
          obtain rfl := Option.some.inj hfind
          rw [if_neg fun heq => hfirst (hname.trans heq), findObject_cons, if_pos hname, ← hname]
        · rw [if_neg hname] at hfind
          have hother : first.fileName ≠ if name = fromName then toName else name := by
            split_ifs with hsame
            · rcases hfree with rfl | hfree
              · exact hfirst
              · exact hfree first List.mem_cons_self
            · exact hname
          rw [findObject_cons, if_neg hother]
          exact ih hrest (hfree.imp_right fun h o ho => h o (List.mem_cons_of_mem _ ho)) hfind

theorem setFileName_ne {fromName toName : Str} {objects : List Object}
    (hne : toName ≠ fromName) : setFileName fromName toName objects ≠ some objects := by
  induction objects with
  | nil => simp [setFileName]
  | cons object objects ih =>
      rw [setFileName]
      split_ifs with hname
      · intro heq
        have hobject := (List.cons.inj (Option.some.inj heq)).1
        apply hne
        rw [← hname, ← hobject]
      · intro heq
        obtain ⟨rest, hrest, hcons⟩ := Option.map_eq_some_iff.1 heq
        exact ih (hrest.trans (congrArg some (List.cons.inj hcons).2))

namespace BucketMap

variable {m : BucketMap} {bucket : Bucket} {path : List Segment} {entry : KeyEntry}
  {write : KeyEntry → BucketMap}

theorem getObject_eq (m : BucketMap) (bucket : Bucket) (key : Key) (name : Str) :
    m.getObject bucket key name =
      (m.contentAt (bucket, key.path)).bind fun content => findObject content.1 name := by
  rw [getObject, getEntry_eq, contentAt]
  cases m.entryAt bucket key.path with
  | none => rfl
  | some entry =>
      cases hobjects : entry.objects with
      | none => simp [hobjects, KeyEntry.content, findObject]
      | some objects => simp [hobjects, KeyEntry.content, findObject]

theorem contentAt_write (hborrow : m.borrowAt bucket path = some (entry, write))
    (entry' : KeyEntry) (b : Bucket) (place : List Segment) :
    (write entry').contentAt (b, place) =
      if bucket = b ∧ path <+: place then
        (branching.descend entry' (place.drop path.length)).map KeyEntry.content
      else m.contentAt (b, place) := by
  rw [borrowAt] at hborrow
  cases hlookup : m.tree.lookup bucket with
  | none => simp [hlookup] at hborrow
  | some e =>
      simp only [hlookup, Option.bind_some, Option.map_eq_some_iff, Prod.mk.injEq] at hborrow
      obtain ⟨found, hfound, rfl, rfl⟩ := hborrow
      have hput := branching.map_descend_put KeyEntry.content (fun _ _ => rfl) hfound entry' place
      by_cases hbucket : bucket = b
      · subst hbucket
        simp [contentAt, entryAt, hlookup, hput]
      · simp [contentAt, entryAt, AssocMap.lookup_insert, hbucket]

theorem contentAt_write_keys_self (hborrow : m.borrowAt bucket path = some (entry, write))
    (keys : AssocMap Segment KeyEntry) :
    (write { entry with keys := some keys }).contentAt (bucket, path) =
      m.contentAt (bucket, path) := by
  rw [contentAt_write hborrow, if_pos ⟨rfl, List.prefix_rfl⟩, List.drop_length, contentAt,
    entryAt_of_borrowAt hborrow]
  rfl

theorem contentAt_write_keys (hborrow : m.borrowAt bucket path = some (entry, write))
    (keys : AssocMap Segment KeyEntry) (segment : Segment) (rest : List Segment) :
    (write { entry with keys := some keys }).contentAt (bucket, path ++ segment :: rest) =
      ((keys.lookup segment).bind fun e => branching.descend e rest).map KeyEntry.content := by
  rw [contentAt_write hborrow, if_pos ⟨rfl, List.prefix_append _ _⟩, List.drop_left]
  rfl

theorem contentAt_of_borrowAt (hborrow : m.borrowAt bucket path = some (entry, write))
    (place : List Segment) :
    m.contentAt (bucket, path ++ place) =
      (branching.descend entry place).map KeyEntry.content := by
  have hentry := entryAt_of_borrowAt hborrow
  rw [entryAt, Option.bind_eq_some_iff] at hentry
  obtain ⟨e, hlookup, hdescend⟩ := hentry
  rw [contentAt, entryAt, hlookup, Option.bind_some, Branching.descend_append, hdescend,
    Option.bind_some]

theorem contentAt_through_keys (hborrow : m.borrowAt bucket path = some (entry, write))
    {keys : AssocMap Segment KeyEntry} (hkeys : entry.keys = some keys) (segment : Segment)
    (rest : List Segment) :
    m.contentAt (bucket, path ++ segment :: rest) =
      ((keys.lookup segment).bind fun e => branching.descend e rest).map KeyEntry.content := by
  rw [contentAt_of_borrowAt hborrow, Branching.descend_cons, Branching.child]
  simp [branching, hkeys]

theorem contentAt_borrowed (hborrow : m.borrowAt bucket path = some (entry, write)) :
    m.contentAt (bucket, path) = some entry.content := by
  have hcontent := contentAt_of_borrowAt hborrow []
  rwa [List.append_nil] at hcontent

theorem contentAt_write_objects (hborrow : m.borrowAt bucket path = some (entry, write))
    (objects : List Object) (address : Place) :
    (write { entry with objects := some objects }).contentAt address =
      if address = (bucket, path) then some (objects, entry.broker)
      else m.contentAt address := by
  obtain ⟨b, place⟩ := address
  rw [contentAt_write hborrow]
  by_cases hbelow : bucket = b ∧ path <+: place
  · obtain ⟨rfl, rest, rfl⟩ := hbelow
    rw [if_pos ⟨rfl, List.prefix_append _ _⟩, List.drop_left, contentAt_of_borrowAt hborrow]
    cases rest with
    | nil => simp [KeyEntry.content]
    | cons segment rest =>
        rw [if_neg (by simp)]
        rfl
  · rw [if_neg hbelow, if_neg]
    rintro ⟨rfl, rfl⟩
    exact hbelow ⟨rfl, List.prefix_rfl⟩

end BucketMap

/-! ## Where things are after a rename -/

theorem relocated_of_moves {m m' : BucketMap} {c : NameChange}
    (hnames : ∀ address name, c.objectName address name = name)
    (hmoves : ∀ address, (m.contentAt address).isSome →
      m'.contentAt (c.place address) = m.contentAt address)
    (hapart : ∀ a b, (m.contentAt a).isSome → (m.contentAt b).isSome →
      c.place a = c.place b → a = b) : Relocated m m' c := by
  refine ⟨fun address objects broker hcontent => ?_, hapart, ?_⟩
  · refine ⟨objects, ?_, fun name object hfind => ?_⟩
    · rw [hmoves address (by rw [hcontent]; rfl), hcontent]
    · rw [hnames, hfind]
      obtain ⟨-, rfl⟩ := findObject_some hfind
      rfl
  · intro address objects broker _ name name' _ _ hname
    rwa [hnames, hnames] at hname

section Bucket

variable {m m' : BucketMap} {fresh : Broker} {fromName toName : Bucket}

theorem contentAt_isSome {address : Place} (hsome : (m.contentAt address).isSome) :
    (m.tree.lookup address.1).isSome := by
  rw [BucketMap.contentAt, BucketMap.entryAt] at hsome
  cases hlookup : m.tree.lookup address.1 with
  | none => simp [hlookup] at hsome
  | some entry => rfl

theorem relocated_nameBucket (hfree : toName = fromName ∨ m.tree.lookup toName = none)
    (hchange : m.change fresh (.nameBucket fromName toName) = .ok m') :
    m' = m ∨ Relocated m m' (.nameBucket fromName toName) := by
  rw [BucketMap.change] at hchange
  cases hlookup : m.tree.lookup fromName with
  | none =>
      rw [hlookup] at hchange
      exact .inl (Except.ok.inj hchange).symm
  | some entry =>
      rw [hlookup] at hchange
      obtain rfl := Except.ok.inj hchange
      right
      -- no other bucket has the new name
      have hother : ∀ address : Place, (m.contentAt address).isSome →
          address.1 ≠ fromName → address.1 ≠ toName := by
        intro address hsome hfrom hto
        have hthere := contentAt_isSome hsome
        rcases hfree with rfl | hfree
        · exact hfrom hto
        · rw [hto, hfree] at hthere
          cases hthere
      refine relocated_of_moves (fun _ _ => rfl) (fun address hsome => ?_) ?_
      · obtain ⟨b, path⟩ := address
        by_cases hfrom : b = fromName
        · subst hfrom
          rw [NameChange.place, if_pos rfl, BucketMap.contentAt, BucketMap.contentAt,
            BucketMap.entryAt, BucketMap.entryAt, AssocMap.lookup_insert, if_pos rfl, hlookup]
        · rw [NameChange.place, if_neg hfrom, BucketMap.contentAt, BucketMap.contentAt,
            BucketMap.entryAt, BucketMap.entryAt, AssocMap.lookup_insert,
            if_neg (Ne.symm (hother _ hsome hfrom)), AssocMap.lookup_erase_of_ne hfrom]
      · rintro ⟨b, path⟩ ⟨b', path'⟩ hsome hsome' hplace
        simp only [NameChange.place] at hplace
        split_ifs at hplace with hfrom hfrom' hfrom'
        · rw [hfrom, hfrom', (Prod.mk.inj hplace).2]
        · exact absurd (Prod.mk.inj hplace).1.symm (hother _ hsome' hfrom')
        · exact absurd (Prod.mk.inj hplace).1 (hother _ hsome hfrom)
        · exact hplace

end Bucket

section Key

variable {m m' : BucketMap} {fresh : Broker} {bucket : Bucket} {fromKey : Key}
  {toName : Segment}

/-- Only what is below the parent of the key moves. -/
theorem place_of_not_below {address : Place}
    (hbelow : ¬∃ s rest, address = (bucket, fromKey.parentLeaf.1 ++ s :: rest)) :
    (NameChange.nameKey bucket fromKey toName).place address = address := by
  obtain ⟨b, path⟩ := address
  rw [NameChange.place, if_neg]
  rintro ⟨rfl, rest, rfl⟩
  exact hbelow ⟨fromKey.parentLeaf.2, rest, by simp⟩

theorem place_below (s : Segment) (rest : List Segment) :
    (NameChange.nameKey bucket fromKey toName).place
        (bucket, fromKey.parentLeaf.1 ++ s :: rest) =
      (bucket, fromKey.parentLeaf.1 ++
        (if fromKey.parentLeaf.2 = s then toName else s) :: rest) := by
  rw [NameChange.place]
  by_cases hs : fromKey.parentLeaf.2 = s
  · simp [hs, List.prefix_append_right_inj]
  · simp [hs, List.prefix_append_right_inj, List.cons_prefix_cons]

theorem eq_of_place_eq {a b : Place}
    (ha : ∀ s rest, a = (bucket, fromKey.parentLeaf.1 ++ s :: rest) → s ≠ toName)
    (hb : ∀ s rest, b = (bucket, fromKey.parentLeaf.1 ++ s :: rest) → s ≠ toName)
    (hplace : (NameChange.nameKey bucket fromKey toName).place a =
      (NameChange.nameKey bucket fromKey toName).place b) : a = b := by
  by_cases hbelow : ∃ s rest, a = (bucket, fromKey.parentLeaf.1 ++ s :: rest)
  · obtain ⟨s, rest, rfl⟩ := hbelow
    rw [place_below] at hplace
    by_cases hbelow' : ∃ s rest, b = (bucket, fromKey.parentLeaf.1 ++ s :: rest)
    · obtain ⟨t, rest', rfl⟩ := hbelow'
      rw [place_below, Prod.mk.injEq, List.append_cancel_left_eq, List.cons.injEq] at hplace
      obtain ⟨-, hlabel, rfl⟩ := hplace
      split_ifs at hlabel with hleaf hleaf' hleaf'
      · rw [← hleaf, ← hleaf']
      · exact absurd hlabel.symm (hb t rest rfl)
      · exact absurd hlabel (ha s rest rfl)
      · rw [hlabel]
    · rw [place_of_not_below hbelow'] at hplace
      exact absurd ⟨_, _, hplace.symm⟩ hbelow'
  · rw [place_of_not_below hbelow] at hplace
    by_cases hbelow' : ∃ s rest, b = (bucket, fromKey.parentLeaf.1 ++ s :: rest)
    · obtain ⟨t, rest', rfl⟩ := hbelow'
      rw [place_below] at hplace
      exact absurd ⟨_, _, hplace⟩ hbelow
    · rwa [place_of_not_below hbelow'] at hplace

theorem relocated_nameKey (hchange : m.change fresh (.nameKey bucket fromKey toName) = .ok m') :
    m' = m ∨ Relocated m m' (.nameKey bucket fromKey toName) := by
  rw [BucketMap.change_nameKey] at hchange
  obtain rfl | ⟨entry, write, keys, keys', hborrow, hkeys, hresult, rfl⟩ :=
    BucketMap.eq_or_write_of_withKeys hchange
  · exact .inl rfl
  right
  cases hto : keys.lookup toName with
  | some taken => simp [hto] at hresult
  | none =>
      rw [hto, Option.isSome_none, if_neg (by simp)] at hresult
      obtain rfl := Option.some.inj hresult
      -- no other key of the parent has the new name
      have hother : ∀ s rest,
          (m.contentAt (bucket, fromKey.parentLeaf.1 ++ s :: rest)).isSome → s ≠ toName := by
        rintro s rest hsome rfl
        rw [BucketMap.contentAt_through_keys hborrow hkeys, hto] at hsome
        cases hsome
      refine relocated_of_moves (fun _ _ => rfl) (fun address hsome => ?_) ?_
      · by_cases hbelow : ∃ s rest, address = (bucket, fromKey.parentLeaf.1 ++ s :: rest)
        · obtain ⟨s, rest, rfl⟩ := hbelow
          have hs := hother s rest hsome
          rw [place_below, BucketMap.contentAt_write_keys hborrow,
            BucketMap.contentAt_through_keys hborrow hkeys] at *
          rw [AssocMap.lookup_insert]
          by_cases hleaf : fromKey.parentLeaf.2 = s
          · rw [if_pos hleaf, if_pos rfl, hleaf]
            cases hchild : keys.lookup s with
            | none => simp [hchild] at hsome
            | some child => rfl
          · rw [if_neg hleaf, if_neg (Ne.symm hs), AssocMap.lookup_erase_of_ne (Ne.symm hleaf)]
        · rw [place_of_not_below hbelow]
          obtain ⟨b, path⟩ := address
          by_cases hparent : bucket = b ∧ fromKey.parentLeaf.1 <+: path
          · obtain ⟨rfl, rest, rfl⟩ := hparent
            cases rest with
            | nil => rw [List.append_nil, BucketMap.contentAt_write_keys_self hborrow]
            | cons s rest => exact absurd ⟨s, rest, rfl⟩ hbelow
          · rw [BucketMap.contentAt_write hborrow, if_neg hparent]
      · exact fun a b hsome hsome' => eq_of_place_eq (fun s rest h => hother s rest (h ▸ hsome))
          (fun s rest h => hother s rest (h ▸ hsome'))

end Key

section Object

variable {m m' : BucketMap} {fresh : Broker} {bucket : Bucket} {key : Key}
  {fromName toName : Str}

theorem eq_or_write_of_nameObject
    (hchange : m.change fresh (.nameObject bucket key fromName toName) = .ok m') :
    (m' = m ∧ m.getObject bucket key fromName = none) ∨
      ∃ entry write objects', m.borrowAt bucket key.path = some (entry, write) ∧
        setFileName fromName toName (entry.objects.getD []) = some objects' ∧
          m' = write { entry with objects := some objects' } := by
  rw [BucketMap.change, BucketMap.getMutEntry_eq] at hchange
  rw [BucketMap.getObject_eq]
  cases hborrow : m.borrowAt bucket key.path with
  | none =>
      rw [hborrow] at hchange
      refine .inl ⟨(Except.ok.inj hchange).symm, ?_⟩
      rw [BucketMap.contentAt, BucketMap.borrowAt_eq_none_iff.1 hborrow]
      rfl
  | some found =>
      obtain ⟨entry, write⟩ := found
      have hbind : entry.objects.bind (setFileName fromName toName) =
          setFileName fromName toName (entry.objects.getD []) := by
        cases entry.objects <;> rfl
      rw [hborrow] at hchange
      simp only [hbind] at hchange
      cases hset : setFileName fromName toName (entry.objects.getD []) with
      | none =>
          rw [hset] at hchange
          refine .inl ⟨(Except.ok.inj hchange).symm, ?_⟩
          rw [BucketMap.contentAt_borrowed hborrow]
          exact findObject_eq_none_iff.2 (BucketMap.setFileName_eq_none_iff.1 hset)
      | some objects' =>
          rw [hset] at hchange
          exact .inr ⟨entry, write, objects', rfl, hset, (Except.ok.inj hchange).symm⟩

theorem relocated_nameObject
    (hfree : toName = fromName ∨ m.getObject bucket key toName = none)
    (hchange : m.change fresh (.nameObject bucket key fromName toName) = .ok m') :
    m' = m ∨ Relocated m m' (.nameObject bucket key fromName toName) := by
  obtain ⟨hsame, -⟩ | ⟨entry, write, objects', hborrow, hset, rfl⟩ :=
    eq_or_write_of_nameObject hchange
  · exact .inl hsame
  right
  have hfree : toName = fromName ∨ findObject (entry.objects.getD []) toName = none := by
    rwa [BucketMap.getObject_eq, BucketMap.contentAt_borrowed hborrow] at hfree
  refine ⟨fun address objects broker hcontent => ?_, fun a b _ _ hplace => hplace, ?_⟩
  · rw [NameChange.place, BucketMap.contentAt_write_objects hborrow]
    by_cases hhere : address = (bucket, key.path)
    · rw [hhere, BucketMap.contentAt_borrowed hborrow] at hcontent
      obtain ⟨rfl, rfl⟩ := Prod.mk.inj (Option.some.inj hcontent)
      refine ⟨objects', if_pos hhere, fun name object hfind => ?_⟩
      simp only [NameChange.objectName, hhere, true_and]
      exact findObject_setFileName hset (hfree.imp_right findObject_eq_none_iff.1) hfind
    · refine ⟨objects, by rw [if_neg hhere, hcontent], fun name object hfind => ?_⟩
      simp only [NameChange.objectName, hhere, false_and, if_false]
      obtain ⟨-, rfl⟩ := findObject_some hfind
      exact hfind
  · intro address objects broker hcontent name name' hname hname' hsame
    by_cases hhere : address = (bucket, key.path)
    · rw [hhere, BucketMap.contentAt_borrowed hborrow] at hcontent
      obtain ⟨rfl, rfl⟩ := Prod.mk.inj (Option.some.inj hcontent)
      -- no other object that is found has the new name
      have hother : ∀ n, (findObject (entry.objects.getD []) n).isSome → n ≠ fromName →
          n ≠ toName := by
        rintro n hfound hfrom rfl
        rcases hfree with heq | hnone
        · exact hfrom heq
        · rw [hnone] at hfound
          cases hfound
      simp only [NameChange.objectName, hhere, true_and] at hsame
      split_ifs at hsame with hfrom hfrom' hfrom'
      · rw [hfrom, hfrom']
      · exact absurd hsame.symm (hother name' hname' hfrom')
      · exact absurd hsame (hother name hname hfrom)
      · exact hsame
    · simpa only [NameChange.objectName, hhere, false_and, if_false] using hsame

end Object

/-! ## Every rename -/

/-- A taken name stops a change that looks, or that has nothing to rename. -/
theorem change_of_taken {m : BucketMap} {c : NameChange} (fresh : Broker) (htaken : c.Taken m)
    (hlooks : c.LooksOrMisses m) : m.change fresh c.toChange = .ok m := by
  cases c with
  | nameObject bucket key fromName toName =>
      exact BucketMap.view_nameObject_of_absent m fresh
        (BucketMap.getObject_eq_none_iff.1 hlooks) toName
  | nameBucket fromName toName =>
      refine BucketMap.change_nameBucket_of_absent m fresh ?_ toName
      rw [BucketMap.view, show m.tree.lookup fromName = none from hlooks, Option.bind_none]
  | nameKey bucket fromKey toName =>
      obtain ⟨entry, write, keys, child, hborrow, hkeys, hchild⟩ :=
        BucketMap.exists_keys_of_child htaken.2
      rw [NameChange.toChange, BucketMap.change_nameKey, BucketMap.withKeys_of_keys hborrow hkeys,
        hchild]
      rfl

theorem change_ne_of_taken {m : BucketMap} {c : NameChange} (fresh : Broker) (htaken : c.Taken m)
    (hlooks : ¬c.LooksOrMisses m) : m.change fresh c.toChange ≠ .ok m := by
  intro hchange
  cases c with
  | nameObject bucket key fromName toName =>
      obtain ⟨-, hmisses⟩ | ⟨entry, write, objects', hborrow, hset, hwrite⟩ :=
        eq_or_write_of_nameObject hchange
      · exact hlooks hmisses
      · have hcontent := BucketMap.contentAt_write_objects hborrow objects' (bucket, key.path)
        rw [if_pos rfl, ← hwrite, BucketMap.contentAt_borrowed hborrow] at hcontent
        have hobjects := (Prod.mk.inj (Option.some.inj hcontent)).1
        exact setFileName_ne htaken.1 (hobjects ▸ hset)
  | nameBucket fromName toName =>
      obtain ⟨entry, hentry⟩ := Option.ne_none_iff_exists'.1 hlooks
      rw [NameChange.toChange, BucketMap.change, hentry] at hchange
      have htree := congrArg (fun m => m.tree.lookup fromName) (Except.ok.inj hchange)
      dsimp only at htree
      rw [AssocMap.lookup_insert, if_neg htaken.1, AssocMap.lookup_erase_self, hentry] at htree
      cases htree
  | nameKey bucket fromKey toName => exact hlooks trivial

end WsHyper.Directory
