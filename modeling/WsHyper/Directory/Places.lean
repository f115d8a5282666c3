import WsHyper.Directory.TakenNames

/-!
# Where a change takes an entry

The changes of buckets and keys take whole entries from place to place.  What is said here
of an entry holds whatever is read in it: its objects, or the broker of its observers.
-/

namespace WsHyper.Directory

open WsHyper.Lib WsHyper.Lib.Text

/-! ## Contents of a flat store -/

namespace FlatMap

variable {β κ ω ρ : Type*} {Q : Multiset ω × ρ → Prop} {V V' : FlatMap β κ ω ρ}
  {place place' : β × List κ} {b : β} {p : List κ} {tag : ρ}

/-- There is something at the place, and it meets `Q`. -/
def At (Q : Multiset ω × ρ → Prop) (V : FlatMap β κ ω ρ) (place : β × List κ) : Prop :=
  ∃ content, V place.1 place.2 = some content ∧ Q content

theorem At.ne_none (hat : V.At Q place) : V place.1 place.2 ≠ none := by
  obtain ⟨content, hcontent, -⟩ := hat
  simp [hcontent]

theorem at_congr (hplace : V' place'.1 place'.2 = V place.1 place.2) :
    V'.At Q place' ↔ V.At Q place := by
  rw [At, At, hplace]

variable [DecidableEq β] [DecidableEq κ]

theorem at_update_map {f : Multiset ω × ρ → Multiset ω × ρ}
    (hf : ∀ content, Q (f content) ↔ Q content) :
    (V.update b p ((V b p).map f)).At Q place ↔ V.At Q place := by
  rw [At, At, update]
  split_ifs with hplace
  · obtain ⟨rfl, rfl⟩ := hplace
    cases V place.1 place.2 <;> simp [hf]
  · rfl

theorem at_addPlace :
    (V.addPlace b p tag).At Q place ↔
      V.At Q place ∨ V b p = none ∧ place = (b, p) ∧ Q (0, tag) := by
  obtain ⟨b', p'⟩ := place
  rw [At, At, addPlace, update]
  dsimp only
  split_ifs with hplace
  · obtain ⟨rfl, rfl⟩ := hplace
    cases V b p <;> simp
  · refine (or_iff_left ?_).symm
    rintro ⟨-, hsame, -⟩
    obtain ⟨rfl, rfl⟩ := Prod.mk.inj hsame
    exact hplace ⟨rfl, rfl⟩

theorem at_drop :
    (V.drop b p).At Q place ↔ V.At Q place ∧ ¬(place.1 = b ∧ p <+: place.2) := by
  rw [At, At, drop]
  split_ifs with hplace
  · exact iff_of_false (by simp) fun h => h.2 ⟨hplace.1.symm, hplace.2⟩
  · exact (and_iff_left fun h => hplace ⟨h.1.symm, h.2⟩).symm

omit [DecidableEq κ] in
theorem at_moveRoot {c : β} :
    (V.moveRoot b c).At Q place ↔
      place.1 = c ∧ V.At Q (b, place.2) ∨ place.1 ≠ c ∧ place.1 ≠ b ∧ V.At Q place := by
  simp only [At, moveRoot]
  split_ifs with hto hfrom
  · simp [hto]
  · simp [Ne.symm hto, hfrom]
  · simp [Ne.symm hto, Ne.symm hfrom]

theorem at_movePath {s s' : κ} :
    (V.movePath b p s s').At Q place ↔
      (place.1 = b ∧ ∃ rest, place.2 = p ++ s' :: rest ∧ V.At Q (b, p ++ s :: rest)) ∨
        ¬(place.1 = b ∧ p ++ [s'] <+: place.2) ∧ ¬(place.1 = b ∧ p ++ [s] <+: place.2) ∧
          V.At Q place := by
  obtain ⟨b', p'⟩ := place
  by_cases hbucket : b = b'
  swap
  · have hsame : V.movePath b p s s' b' p' = V b' p' := by rw [movePath, if_neg hbucket]
    have hkept : (V.movePath b p s s').At Q (b', p') ↔ V.At Q (b', p') := at_congr hsame
    simp [hkept, Ne.symm hbucket]
  subst hbucket
  by_cases hto : p ++ [s'] <+: p'
  · obtain ⟨rest, rfl⟩ := hto
    have hmoved : V.movePath b p s s' b (p ++ s' :: rest) = V b (p ++ s :: rest) := by
      rw [movePath_below, if_pos rfl]
    simp [At, hmoved]
  · have hother : ∀ rest, p' ≠ p ++ s' :: rest := by
      rintro rest rfl
      exact hto ⟨rest, by simp⟩
    by_cases hfrom : p ++ [s] <+: p'
    · simp [At, movePath, hto, hfrom, hother]
    · simp [At, movePath, hto, hfrom, hother]

end FlatMap

/-! ## Places of a change -/

/-- Where the entry of a place is after a change; none where it is lost. -/
def Change.carryPlace (V : View) (place : Place) : Change → Option Place
  | .nameBucket fromName toName =>
      if place.1 = fromName then some (toName, place.2)
      else if place.1 = toName ∧ V fromName [] ≠ none then none
      else some place
  | .nameKey bucket fromKey toName =>
      let parent := fromKey.parentLeaf.1
      if place.1 = bucket ∧ parent ++ [fromKey.parentLeaf.2] <+: place.2 ∧
          V bucket (parent ++ [toName]) = none then
        some (bucket, parent ++ toName :: place.2.drop (parent.length + 1))
      else some place
  | .deleteKey bucket key =>
      if place.1 = bucket ∧ key.parentLeaf.1 ++ [key.parentLeaf.2] <+: place.2 then none
      else some place
  | .deleteBucket bucket => if place.1 = bucket then none else some place
  | .newObject _ _ _ | .newKey _ _ | .newBucket _ | .nameObject _ _ _ _
  | .deleteObject _ _ _ => some place

def Change.Makes (V : View) (place : Place) : Change → Prop
  | .newBucket bucket => V bucket [] = none ∧ place = (bucket, [])
  | .newKey bucket key =>
      V bucket key.parentLeaf.1 ≠ none ∧
        V bucket (key.parentLeaf.1 ++ [key.parentLeaf.2]) = none ∧
          place = (bucket, key.parentLeaf.1 ++ [key.parentLeaf.2])
  | .nameKey bucket fromKey toName =>
      -- a missing source still makes an entry
      V bucket fromKey.parentLeaf.1 ≠ none ∧
        V bucket (fromKey.parentLeaf.1 ++ [fromKey.parentLeaf.2]) = none ∧
          V bucket (fromKey.parentLeaf.1 ++ [toName]) = none ∧
            place = (bucket, fromKey.parentLeaf.1 ++ [toName])
  | .newObject _ _ _ | .nameObject _ _ _ _ | .nameBucket _ _ | .deleteObject _ _ _
  | .deleteKey _ _ | .deleteBucket _ => False

def Change.OfObject : Change → Prop
  | .newObject _ _ _ | .nameObject _ _ _ _ | .deleteObject _ _ _ => True
  | .newKey _ _ | .newBucket _ | .nameBucket _ _ | .nameKey _ _ _ | .deleteKey _ _
  | .deleteBucket _ => False

namespace BucketMap

variable {m m' : BucketMap} {fresh : Broker} {change : Change} {place place' : Place}
  {Q : Multiset Object × Broker → Prop} {bucket : Bucket}

def Brings (m : BucketMap) (Q : Multiset Object × Broker → Prop) (change : Change)
    (place' : Place) : Prop :=
  ∃ place, m.view.At Q place ∧ change.carryPlace m.view place = some place'

theorem brings_iff_of_still
    (hcarry : ∀ place, m.view place.1 place.2 ≠ none →
      change.carryPlace m.view place = some place) :
    m.Brings Q change place' ↔ m.view.At Q place' := by
  constructor
  · rintro ⟨place, hat, hplace⟩
    rwa [← Option.some.inj ((hcarry place hat.ne_none).symm.trans hplace)]
  · intro hat
    exact ⟨place', hat, hcarry place' hat.ne_none⟩

theorem not_below_of_none {above : List Segment} (hnone : m.view bucket above = none)
    (hsome : m.view place.1 place.2 ≠ none) : ¬(place.1 = bucket ∧ above <+: place.2) := by
  rintro ⟨hbucket, rest, hrest⟩
  have hgone := view_append_of_none hnone rest
  rw [hrest, ← hbucket] at hgone
  exact hsome hgone

theorem isSome_entryAt_of_view {path : List Segment} (hsome : m.view bucket path ≠ none) :
    (m.entryAt bucket path).isSome := by
  rw [view_eq_map_entryAt] at hsome
  rwa [← Option.isSome_map (f := branching.data), Option.isSome_iff_ne_none]

theorem drop_below (parent rest : List Segment) (leaf : Segment) :
    (parent ++ leaf :: rest).drop (parent.length + 1) = rest := by
  simp [List.drop_append]

theorem at_iff_of_nameBucket {fromName toName : Bucket}
    (hstep : m.Step (fresh, .nameBucket fromName toName) m') :
    m'.view.At Q place' ↔ m.Brings Q (.nameBucket fromName toName) place' := by
  by_cases hfrom : m.view fromName [] = none
  · have hsame := change_nameBucket_of_absent m fresh hfrom toName
    obtain rfl := Except.ok.inj (hsame.symm.trans hstep)
    refine (brings_iff_of_still fun place hsome => ?_).symm
    have hother : place.1 ≠ fromName :=
      fun hbucket => not_below_of_none hfrom hsome ⟨hbucket, List.nil_prefix⟩
    rw [Change.carryPlace, if_neg hother, if_neg fun h => h.2 hfrom]
  · obtain ⟨m'', hchange, hview⟩ :=
      view_nameBucket m fresh (Option.isSome_iff_ne_none.2 hfrom) toName
    obtain rfl := Except.ok.inj (hchange.symm.trans hstep)
    rw [hview, FlatMap.at_moveRoot]
    constructor
    · rintro (⟨rfl, hat⟩ | ⟨hto, hother, hat⟩)
      · exact ⟨_, hat, by rw [Change.carryPlace, if_pos rfl]⟩
      · exact ⟨place', hat, by rw [Change.carryPlace, if_neg hother, if_neg fun h => hto h.1]⟩
    · rintro ⟨place, hat, hcarry⟩
      rw [Change.carryPlace] at hcarry
      split_ifs at hcarry with hsource htarget
      · obtain rfl := Option.some.inj hcarry
        exact .inl ⟨rfl, by rwa [← hsource]⟩
      · obtain rfl := Option.some.inj hcarry
        exact .inr ⟨fun h => htarget ⟨h, hfrom⟩, hsource, hat⟩

theorem eq_of_nameKey_taken {fromKey : Key} {toName : Segment}
    (hstep : m.Step (fresh, .nameKey bucket fromKey toName) m')
    (htaken : m.view bucket (fromKey.parentLeaf.1 ++ [toName]) ≠ none) : m' = m := by
  rw [Step, change_nameKey] at hstep
  obtain hsame | ⟨entry, write, keys, keys', hborrow, hkeys, hresult, -⟩ :=
    eq_or_write_of_withKeys hstep
  · exact hsame
  · rw [if_pos (by rwa [isSome_lookup_iff hborrow hkeys, Option.isSome_iff_ne_none])] at hresult
    cases hresult

/-- The entry that a change of keys goes through with has keys, if it is there. -/
theorem exists_borrowed {path : List Segment}
    {body : AssocMap Segment KeyEntry → Option (AssocMap Segment KeyEntry)}
    (hstep : m.withKeys (m.borrowAt bucket path) body = .ok m')
    (hsome : m.view bucket path ≠ none) :
    ∃ entry write keys, m.borrowAt bucket path = some (entry, write) ∧
      entry.keys = some keys := by
  obtain ⟨entry, hentry⟩ := Option.isSome_iff_exists.1 (isSome_entryAt_of_view hsome)
  obtain ⟨write, hborrow⟩ := exists_borrowAt hentry
  cases hkeys : entry.keys with
  | none =>
      rw [withKeys_of_no_keys hentry hkeys] at hstep
      cases hstep
  | some keys => exact ⟨entry, write, keys, hborrow, hkeys⟩

theorem view_of_newKey_of_parent {key : Key} (hstep : m.Step (fresh, .newKey bucket key) m')
    (hparent : m.view bucket key.parentLeaf.1 ≠ none) :
    m'.view = m.view.addPlace bucket (key.parentLeaf.1 ++ [key.parentLeaf.2]) fresh := by
  have hchange := hstep
  rw [Step, change_newKey] at hchange
  obtain ⟨entry, write, keys, hborrow, hkeys⟩ := exists_borrowed hchange hparent
  rw [withKeys_of_keys hborrow hkeys] at hchange
  obtain rfl := Except.ok.inj hchange
  exact view_orInsert fresh hborrow hkeys _

theorem view_of_nameKey_of_parent {fromKey : Key} {toName : Segment}
    (hstep : m.Step (fresh, .nameKey bucket fromKey toName) m')
    (hparent : m.view bucket fromKey.parentLeaf.1 ≠ none)
    (hsource : m.view bucket (fromKey.parentLeaf.1 ++ [fromKey.parentLeaf.2]) = none)
    (hfree : m.view bucket (fromKey.parentLeaf.1 ++ [toName]) = none) :
    m'.view = m.view.addPlace bucket (fromKey.parentLeaf.1 ++ [toName]) fresh := by
  have hchange := hstep
  rw [Step, change_nameKey] at hchange
  obtain ⟨entry, write, keys, hborrow, hkeys⟩ := exists_borrowed hchange hparent
  have hnone {segment : Segment} (hview : m.view bucket (fromKey.parentLeaf.1 ++ [segment]) =
      none) : keys.lookup segment = none := by
    rw [← Option.not_isSome_iff_eq_none, isSome_lookup_iff hborrow hkeys, hview]
    simp
  rw [withKeys_of_keys hborrow hkeys, hnone hsource, hnone hfree] at hchange
  obtain rfl := Except.ok.inj hchange
  exact view_insert_default fresh hborrow hkeys (hnone hsource) (hnone hfree)

theorem at_iff_of_newKey {key : Key} (hstep : m.Step (fresh, .newKey bucket key) m') :
    m'.view.At Q place' ↔
      m.view.At Q place' ∨ Change.Makes m.view place' (.newKey bucket key) ∧ Q (0, fresh) := by
  by_cases hparent : m.view bucket key.parentLeaf.1 = none
  · have hview : m'.view = m.view := by
      rcases view_of_newKey hstep with hview | ⟨hsome, -⟩
      · exact hview
      · simp [hparent] at hsome
    rw [hview]
    exact (or_iff_left fun h => h.1.1 hparent).symm
  · rw [view_of_newKey_of_parent hstep hparent, FlatMap.at_addPlace]
    simp only [Change.Makes, ne_eq, hparent, not_false_eq_true, true_and, and_assoc]

theorem at_iff_of_deleteKey {key : Key} (hstep : m.Step (fresh, .deleteKey bucket key) m') :
    m'.view.At Q place' ↔ m.Brings Q (.deleteKey bucket key) place' := by
  by_cases hsource : m.view bucket (key.parentLeaf.1 ++ [key.parentLeaf.2]) = none
  · have hstill : m.Brings Q (.deleteKey bucket key) place' ↔ m.view.At Q place' :=
      brings_iff_of_still fun place hsome => if_neg (not_below_of_none hsource hsome)
    rw [hstill]
    rcases view_of_deleteKey hstep with hview | hview
    · rw [hview]
    · rw [hview, FlatMap.at_drop]
      exact and_iff_left_of_imp fun hat => not_below_of_none hsource hat.ne_none
  · have hleaf : key.parentLeaf = (key.parentLeaf.1, key.parentLeaf.2) := rfl
    obtain ⟨m'', hchange, hview⟩ :=
      view_deleteKey fresh hleaf (isSome_entryAt_of_view hsource)
    obtain rfl := Except.ok.inj (hchange.symm.trans hstep)
    rw [hview, FlatMap.at_drop]
    constructor
    · rintro ⟨hat, hbelow⟩
      exact ⟨place', hat, if_neg hbelow⟩
    · rintro ⟨place, hat, hcarry⟩
      rw [Change.carryPlace] at hcarry
      split_ifs at hcarry with hbelow
      obtain rfl := Option.some.inj hcarry
      exact ⟨hat, hbelow⟩

theorem at_iff_of_nameKey_moved {fromKey : Key} {toName : Segment}
    (hsource : m.view bucket (fromKey.parentLeaf.1 ++ [fromKey.parentLeaf.2]) ≠ none)
    (hfree : m.view bucket (fromKey.parentLeaf.1 ++ [toName]) = none)
    (hstep : m.Step (fresh, .nameKey bucket fromKey toName) m') :
    m'.view.At Q place' ↔ m.Brings Q (.nameKey bucket fromKey toName) place' := by
  have hleaf : fromKey.parentLeaf = (fromKey.parentLeaf.1, fromKey.parentLeaf.2) := rfl
  obtain ⟨m'', hchange, hview⟩ :=
    view_nameKey fresh hleaf (isSome_entryAt_of_view hsource) hfree
  obtain rfl := Except.ok.inj (hchange.symm.trans hstep)
  rw [hview, FlatMap.at_movePath]
  constructor
  · rintro (⟨rfl, rest, hpath, hat⟩ | ⟨-, hold, hat⟩)
    · refine ⟨_, hat, ?_⟩
      rw [Change.carryPlace, if_pos ⟨rfl, ⟨rest, by simp⟩, hfree⟩, drop_below, ← hpath]
    · exact ⟨place', hat, if_neg fun h => hold ⟨h.1, h.2.1⟩⟩
  · rintro ⟨place, hat, hcarry⟩
    rw [Change.carryPlace] at hcarry
    split_ifs at hcarry with hbelow
    · obtain ⟨rfl, ⟨rest, hrest⟩, -⟩ := hbelow
      obtain rfl := Option.some.inj hcarry
      refine .inl ⟨rfl, _, rfl, ?_⟩
      have hpath : fromKey.parentLeaf.1 ++ fromKey.parentLeaf.2 ::
          place.2.drop (fromKey.parentLeaf.1.length + 1) = place.2 := by
        rw [← hrest, List.append_assoc, List.singleton_append, drop_below]
      rwa [hpath]
    · obtain rfl := Option.some.inj hcarry
      exact .inr ⟨not_below_of_none hfree hat.ne_none, fun h => hbelow ⟨h.1, h.2, hfree⟩, hat⟩

theorem at_iff_of_nameKey {fromKey : Key} {toName : Segment}
    (hstep : m.Step (fresh, .nameKey bucket fromKey toName) m') :
    m'.view.At Q place' ↔
      m.Brings Q (.nameKey bucket fromKey toName) place' ∨
        Change.Makes m.view place' (.nameKey bucket fromKey toName) ∧ Q (0, fresh) := by
  by_cases hfree : m.view bucket (fromKey.parentLeaf.1 ++ [toName]) = none
  swap
  · obtain rfl := eq_of_nameKey_taken hstep hfree
    have hstill : Brings m' Q (.nameKey bucket fromKey toName) place' ↔ m'.view.At Q place' :=
      brings_iff_of_still fun place _ => if_neg fun h => hfree h.2.2
    rw [hstill]
    exact (or_iff_left fun h => hfree h.1.2.2.1).symm
  by_cases hsource : m.view bucket (fromKey.parentLeaf.1 ++ [fromKey.parentLeaf.2]) = none
  swap
  · rw [at_iff_of_nameKey_moved hsource hfree hstep]
    exact (or_iff_left fun h => hsource h.1.2.1).symm
  have hstill : m.Brings Q (.nameKey bucket fromKey toName) place' ↔ m.view.At Q place' :=
    brings_iff_of_still fun place hsome =>
      if_neg fun h => not_below_of_none hsource hsome ⟨h.1, h.2.1⟩
  rw [hstill]
  by_cases hparent : m.view bucket fromKey.parentLeaf.1 = none
  · have hview : m'.view = m.view := by
      rcases view_of_nameKey hstep with hview | ⟨hsome, -⟩
      · exact hview
      · simp [hparent] at hsome
    rw [hview]
    exact (or_iff_left fun h => h.1.1 hparent).symm
  · rw [view_of_nameKey_of_parent hstep hparent hsource hfree, FlatMap.at_addPlace]
    simp only [Change.Makes, ne_eq, hparent, hsource, hfree, not_false_eq_true, true_and]

/-- What is at a place after a change of buckets or keys was taken there with its entry, or
the change made an entry. -/
theorem at_iff_of_step (hchange : ¬change.OfObject) (hstep : m.Step (fresh, change) m') :
    m'.view.At Q place' ↔
      m.Brings Q change place' ∨ change.Makes m.view place' ∧ Q (0, fresh) := by
  cases change with
  | newObject bucket key object => exact absurd trivial hchange
  | nameObject bucket key fromName toName => exact absurd trivial hchange
  | deleteObject bucket key fileName => exact absurd trivial hchange
  | newKey bucket key =>
      rw [brings_iff_of_still fun _ _ => rfl]
      exact at_iff_of_newKey hstep
  | newBucket bucket =>
      obtain ⟨m'', hnew, hview⟩ := view_newBucket m fresh bucket
      obtain rfl := Except.ok.inj (hnew.symm.trans hstep)
      rw [brings_iff_of_still fun _ _ => rfl, hview, FlatMap.at_addPlace]
      simp only [Change.Makes, and_assoc]
  | nameBucket fromName toName =>
      rw [at_iff_of_nameBucket hstep]
      exact (or_iff_left fun h => h.1).symm
  | nameKey bucket fromKey toName => exact at_iff_of_nameKey hstep
  | deleteKey bucket key =>
      rw [at_iff_of_deleteKey hstep]
      exact (or_iff_left fun h => h.1).symm
  | deleteBucket bucket =>
      obtain ⟨m'', hdelete, hview⟩ := view_deleteBucket m fresh bucket
      obtain rfl := Except.ok.inj (hdelete.symm.trans hstep)
      rw [hview, FlatMap.at_drop, or_iff_left fun h => h.1]
      constructor
      · rintro ⟨hat, hother⟩
        exact ⟨place', hat, if_neg fun h => hother ⟨h, List.nil_prefix⟩⟩
      · rintro ⟨place, hat, hcarry⟩
        rw [Change.carryPlace] at hcarry
        split_ifs at hcarry with hsame
        obtain rfl := Option.some.inj hcarry
        exact ⟨hat, fun h => hsame h.1⟩

end BucketMap

end WsHyper.Directory
