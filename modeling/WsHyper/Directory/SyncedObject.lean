import WsHyper.Directory.LocalStorage

/-!
# Synchronising a stored object

`sync_object` reads the document of an object, collects with `diff!` the fields
that changed against a fresh object, and sets them.  A field of text changed when
it differs; a time changed when the stored one is later.  So of two different
instants the earlier stays, and the document shows the later one only where the
times do not differ.
-/

namespace WsHyper.Directory

open WsHyper.Lib

namespace OffsetDateTime

/-- The nanoseconds since the Unix epoch, by which times are compared. -/
def instant (time : OffsetDateTime) : Int := time.unixTimestamp * 1000000000 + time.nanosecond

end OffsetDateTime

/-- `change` of what can be compared: `ne`. -/
def change {α : Type} [DecidableEq α] (stored fresh : α) : Bool := decide (stored ≠ fresh)

/-- `change` of the three times, as `impl_canged!` has it. -/
def changeTime (stored fresh : Option OffsetDateTime) : Bool :=
  (fresh.bind fun x => stored.map fun y => decide (x.instant < y.instant)).getD false

/-- The document that goes with `$set`: the fields that are in it, with their values. -/
structure ToUpdate where
  fileName : Option Str
  seenBy : Option (Option (List Str))
  takenBy : Option (Option (List Str))
  modified : Option ObjectModified
  accessed : Option ObjectAccessed
  created : Option ObjectCreated

def diffField {α : Type} (changed encodes : Bool) (fresh : α) : Except Panic (Option α) :=
  if changed then
    if encodes then .ok (some fresh) else .error .unwrapErr
  else .ok none

def diff (tmp obj : Object) : Except Panic ToUpdate := do
  let fileName ← diffField (change tmp.fileName obj.fileName) true obj.fileName
  let seenBy ← diffField (change tmp.seenBy obj.seenBy) true obj.seenBy
  let takenBy ← diffField (change tmp.takenBy obj.takenBy) true obj.takenBy
  let modified ← diffField (changeTime tmp.modified obj.modified) (encodesTime obj.modified)
    obj.modified
  let accessed ← diffField (changeTime tmp.accessed obj.accessed) (encodesTime obj.accessed)
    obj.accessed
  let created ← diffField (changeTime tmp.created obj.created) (encodesTime obj.created)
    obj.created
  return { fileName, seenBy, takenBy, modified, accessed, created }

/-- `$set`, on the fields `object.*` of a document. -/
def ToUpdate.set (update : ToUpdate) (d : Document) : Document :=
  { d with
    object := { d.object with
      fileName := update.fileName.getD d.object.fileName
      seenBy := update.seenBy.getD d.object.seenBy
      takenBy := update.takenBy.getD d.object.takenBy
      modified := update.modified.getD d.object.modified
      accessed := update.accessed.getD d.object.accessed
      created := update.created.getD d.object.created } }

/-- An empty `$set` changes nothing. -/
def LocalStorage.syncObject (ls : Collection) (bucket : Bucket) (key : Key) (obj : Object) :
    Except Panic Collection := do
  let tmp ← unwrap (ls.findOne (Collection.indexed bucket key obj.fileName))
  let toUpdate ← diff tmp.object obj
  return ls.updateOne (Collection.indexed bucket key obj.fileName) toUpdate.set fun _ => rfl

/-! ## A single field -/

theorem diffField_eq_ok_iff {α : Type} {changed encodes : Bool} {fresh : α} {value : Option α} :
    diffField changed encodes fresh = .ok value ↔
      (changed = true → encodes = true) ∧ value = if changed then some fresh else none := by
  cases changed <;> cases encodes <;> simp [diffField, eq_comm]

theorem getD_change {α : Type} [DecidableEq α] (stored fresh : α) :
    (if change stored fresh then some fresh else none).getD stored = fresh := by
  by_cases heq : stored = fresh <;> simp [change, heq]

def syncedTime (stored fresh : Option OffsetDateTime) : Option OffsetDateTime :=
  if changeTime stored fresh then fresh else stored

theorem getD_changeTime (stored fresh : Option OffsetDateTime) :
    (if changeTime stored fresh then some fresh else none).getD stored =
      syncedTime stored fresh := by
  unfold syncedTime
  split_ifs <;> rfl

theorem changeTime_some (s f : OffsetDateTime) :
    changeTime (some s) (some f) = decide (f.instant < s.instant) := rfl

theorem syncedTime_some (s f : OffsetDateTime) :
    ∃ r, syncedTime (some s) (some f) = some r ∧ r.instant = min s.instant f.instant := by
  rw [syncedTime, changeTime_some]
  by_cases hlt : f.instant < s.instant
  · rw [if_pos (by simpa using hlt)]
    exact ⟨f, rfl, (min_eq_right hlt.le).symm⟩
  · rw [if_neg (by simpa using hlt)]
    exact ⟨s, rfl, (min_eq_left (not_lt.1 hlt)).symm⟩

def IsLater (stored fresh result : Option OffsetDateTime) : Prop :=
  ∀ s ∈ stored, ∀ f ∈ fresh,
    ∃ r ∈ result, (r = s ∨ r = f) ∧ r.instant = max s.instant f.instant

def SameInstant (stored fresh : Option OffsetDateTime) : Prop :=
  ∀ s ∈ stored, ∀ f ∈ fresh, s.instant = f.instant

theorem changeTime_of_sameInstant {stored fresh : Option OffsetDateTime}
    (hsame : SameInstant stored fresh) : changeTime stored fresh = false := by
  cases stored with
  | none => cases fresh <;> rfl
  | some s =>
      cases fresh with
      | none => rfl
      | some f =>
          rw [changeTime_some, hsame s rfl f rfl]
          simp

theorem isLater_syncedTime_iff (stored fresh : Option OffsetDateTime) :
    IsLater stored fresh (syncedTime stored fresh) ↔ SameInstant stored fresh := by
  constructor
  · rintro hlater s rfl f rfl
    obtain ⟨r, hr, -, hmax⟩ := hlater s rfl f rfl
    obtain ⟨r', hr', hmin⟩ := syncedTime_some s f
    obtain rfl := Option.some.inj (hr'.symm.trans hr)
    -- the earlier is the later of the two only if they are the same
    omega
  · rintro hsame s rfl f rfl
    have heq := hsame s rfl f rfl
    refine ⟨s, ?_, .inl rfl, by omega⟩
    rw [syncedTime, changeTime_of_sameInstant hsame]
    rfl

/-! ## The document -/

def syncedObject (stored obj : Object) : Object :=
  { stored with
    fileName := obj.fileName
    seenBy := obj.seenBy
    takenBy := obj.takenBy
    modified := syncedTime stored.modified obj.modified
    accessed := syncedTime stored.accessed obj.accessed
    created := syncedTime stored.created obj.created }

theorem set_of_diff {d : Document} {obj : Object} {update : ToUpdate}
    (hdiff : diff d.object obj = .ok update) :
    update.set d = { d with object := syncedObject d.object obj } := by
  obtain ⟨fileName, hfileName, hdiff⟩ := bind_eq_ok hdiff
  obtain ⟨seenBy, hseenBy, hdiff⟩ := bind_eq_ok hdiff
  obtain ⟨takenBy, htakenBy, hdiff⟩ := bind_eq_ok hdiff
  obtain ⟨modified, hmodified, hdiff⟩ := bind_eq_ok hdiff
  obtain ⟨accessed, haccessed, hdiff⟩ := bind_eq_ok hdiff
  obtain ⟨created, hcreated, hdiff⟩ := bind_eq_ok hdiff
  obtain rfl := Except.ok.inj hdiff
  rw [(diffField_eq_ok_iff.1 hfileName).2, (diffField_eq_ok_iff.1 hseenBy).2,
    (diffField_eq_ok_iff.1 htakenBy).2, (diffField_eq_ok_iff.1 hmodified).2,
    (diffField_eq_ok_iff.1 haccessed).2, (diffField_eq_ok_iff.1 hcreated).2]
  simp only [ToUpdate.set, syncedObject, getD_change, getD_changeTime]

theorem completes_diff {stored obj : Object} (hmodified : SameInstant stored.modified obj.modified)
    (haccessed : SameInstant stored.accessed obj.accessed)
    (hcreated : SameInstant stored.created obj.created) : Completes (diff stored obj) := by
  have htext : ∀ {α : Type} [DecidableEq α] (a b : α),
      diffField (change a b) true b = .ok (if change a b then some b else none) :=
    fun a b => diffField_eq_ok_iff.2 ⟨fun _ => rfl, rfl⟩
  have htime : ∀ {a b : Option OffsetDateTime}, SameInstant a b →
      diffField (changeTime a b) (encodesTime b) b = .ok none := by
    intro a b hsame
    rw [changeTime_of_sameInstant hsame]
    rfl
  rw [diff, htext, htext, htext, htime hmodified, htime haccessed, htime hcreated]
  exact ⟨_, rfl⟩

theorem updateFirst_eq_map {filter : Document → Bool} {update : Document → Document}
    {docs : List Document} {d : Document} (hids : (docs.map Document.id).Nodup)
    (hfound : docs.find? filter = some d) :
    Collection.updateFirst filter update docs =
      docs.map fun other => if other.id = d.id then update d else other := by
  induction docs with
  | nil => cases hfound
  | cons first docs ih =>
      rw [List.map_cons, List.nodup_cons] at hids
      rw [Collection.updateFirst, List.map_cons]
      by_cases hfirst : filter first = true
      · rw [List.find?_cons_of_pos hfirst] at hfound
        obtain rfl := Option.some.inj hfound
        have hrest : ∀ other ∈ docs, other.id ≠ first.id := fun other hother heq =>
          hids.1 (heq ▸ List.mem_map_of_mem hother)
        rw [if_pos hfirst, if_pos rfl]
        congr 1
        calc
          docs = docs.map id := (List.map_id docs).symm
          _ = _ := List.map_congr_left fun other hother => (if_neg (hrest other hother)).symm
      · rw [List.find?_cons_of_neg hfirst] at hfound
        have hne : first.id ≠ d.id := fun heq =>
          hids.1 (heq ▸ List.mem_map_of_mem (List.mem_of_find?_eq_some hfound))
        rw [if_neg hfirst, if_neg hne, ih hids.2 hfound]

def Collection.replaced (ls : Collection) (result : Document) : List Document :=
  ls.docs.map fun d => if d.id = result.id then result else d

namespace LocalStorage

variable {ls ls' : Collection} {bucket : Bucket} {key : Key} {obj : Object} {stored : Document}

theorem docs_of_syncObject
    (hstored : getObjectFilename ls bucket key obj.fileName = some stored)
    (hsync : syncObject ls bucket key obj = .ok ls') :
    ls'.docs = ls.replaced { stored with object := syncedObject stored.object obj } := by
  rw [getObjectFilename] at hstored
  rw [syncObject, hstored, unwrap_some, ok_bind] at hsync
  obtain ⟨update, hdiff, hsync⟩ := bind_eq_ok hsync
  obtain rfl := Except.ok.inj hsync
  calc
    _ = ls.docs.map fun d => if d.id = stored.id then update.set stored else d :=
      updateFirst_eq_map ls.ids_nodup hstored
    _ = _ := by rw [set_of_diff hdiff, Collection.replaced]

theorem completes_syncObject
    (hstored : getObjectFilename ls bucket key obj.fileName = some stored)
    (hdiff : Completes (diff stored.object obj)) : Completes (syncObject ls bucket key obj) := by
  rw [getObjectFilename] at hstored
  rw [syncObject, hstored, unwrap_some, ok_bind, completes_bind]
  obtain ⟨update, hupdate⟩ := hdiff
  exact ⟨update, hupdate, completes_ok _⟩

structure Synchronised (stored : Document) (obj : Object) (result : Document) : Prop where
  modified : IsLater stored.object.modified obj.modified result.object.modified
  accessed : IsLater stored.object.accessed obj.accessed result.object.accessed
  created : IsLater stored.object.created obj.created result.object.created
  seenBy : result.object.seenBy = obj.seenBy
  takenBy : result.object.takenBy = obj.takenBy
  others : result = { stored with
    object := { stored.object with
      seenBy := result.object.seenBy
      takenBy := result.object.takenBy
      modified := result.object.modified
      accessed := result.object.accessed
      created := result.object.created } }

theorem synchronised_syncedObject_iff (hname : stored.object.fileName = obj.fileName) :
    Synchronised stored obj { stored with object := syncedObject stored.object obj } ↔
      SameInstant stored.object.modified obj.modified ∧
        SameInstant stored.object.accessed obj.accessed ∧
          SameInstant stored.object.created obj.created := by
  constructor
  · intro hsynced
    exact ⟨(isLater_syncedTime_iff _ _).1 hsynced.modified,
      (isLater_syncedTime_iff _ _).1 hsynced.accessed,
      (isLater_syncedTime_iff _ _).1 hsynced.created⟩
  · rintro ⟨hmodified, haccessed, hcreated⟩
    exact {
      modified := (isLater_syncedTime_iff _ _).2 hmodified
      accessed := (isLater_syncedTime_iff _ _).2 haccessed
      created := (isLater_syncedTime_iff _ _).2 hcreated
      seenBy := rfl
      takenBy := rfl
      others := by simp only [syncedObject, ← hname] }

theorem sameInstant_of_synchronised {result : Document}
    (hstored : getObjectFilename ls bucket key obj.fileName = some stored)
    (hsync : syncObject ls bucket key obj = .ok ls') (hdocs : ls'.docs = ls.replaced result)
    (hsynced : Synchronised stored obj result) :
    SameInstant stored.object.modified obj.modified ∧
      SameInstant stored.object.accessed obj.accessed ∧
        SameInstant stored.object.created obj.created := by
  obtain ⟨hmem, -, -, hname⟩ := of_getObjectFilename hstored
  have hid : result.id = stored.id := by rw [hsynced.others]
  -- both lists of documents have the result at the place of the stored one
  have heq := List.map_inj_left.1 (hdocs.symm.trans (docs_of_syncObject hstored hsync)) stored hmem
  rw [if_pos hid.symm, if_pos rfl] at heq
  exact (synchronised_syncedObject_iff hname).1 (heq ▸ hsynced)

theorem syncObject_iff
    (hstored : getObjectFilename ls bucket key obj.fileName = some stored) :
    (∃ ls' result, syncObject ls bucket key obj = .ok ls' ∧ ls'.docs = ls.replaced result ∧
        Synchronised stored obj result) ↔
      SameInstant stored.object.modified obj.modified ∧
        SameInstant stored.object.accessed obj.accessed ∧
          SameInstant stored.object.created obj.created := by
  constructor
  · rintro ⟨ls', result, hsync, hdocs, hsynced⟩
    exact sameInstant_of_synchronised hstored hsync hdocs hsynced
  · rintro ⟨hmodified, haccessed, hcreated⟩
    obtain ⟨-, -, -, hname⟩ := of_getObjectFilename hstored
    obtain ⟨ls', hsync⟩ :=
      completes_syncObject hstored (completes_diff hmodified haccessed hcreated)
    exact ⟨ls', _, hsync, docs_of_syncObject hstored hsync,
      (synchronised_syncedObject_iff hname).2 ⟨hmodified, haccessed, hcreated⟩⟩

private def fileAt (modified : OffsetDateTime) (seenBy : Option (List Str)) : Object :=
  { Object.named ['f'] with modified := some modified, seenBy }

private def storedAt (modified : OffsetDateTime) : Document :=
  { id := 0, bucket := ['b'], key := ['.'], object := fileAt modified none, objectName := none }

private def holdingAt (modified : OffsetDateTime) : Collection :=
  { docs := [storedAt modified], nextId := 1, ids_nodup := by simp, ids_lt := by simp [storedAt] }

/-- A file that two users have seen since, and nobody wrote. -/
theorem syncObject_seen :
    ∃ ls' result, syncObject (holdingAt ⟨100, 0, -3⟩) ['b'] ['.']
          (fileAt ⟨100, 0, -3⟩ (some [['u'], ['v']])) = .ok ls' ∧
        ls'.docs = (holdingAt ⟨100, 0, -3⟩).replaced result ∧
        Synchronised (storedAt ⟨100, 0, -3⟩) (fileAt ⟨100, 0, -3⟩ (some [['u'], ['v']]))
          result := by
  have hstored : getObjectFilename (holdingAt ⟨100, 0, -3⟩) ['b'] ['.'] ['f'] =
      some (storedAt ⟨100, 0, -3⟩) := by decide
  exact (syncObject_iff hstored).2 ⟨by simp [SameInstant, storedAt, fileAt],
    by simp [SameInstant, storedAt, fileAt, Object.named],
    by simp [SameInstant, storedAt, fileAt, Object.named]⟩

/-- A file that was written after it was stored keeps the time of the earlier write. -/
theorem syncObject_written_later :
    getObjectFilename (holdingAt ⟨100, 0, -3⟩) ['b'] ['.'] ['f'] = some (storedAt ⟨100, 0, -3⟩) ∧
    (syncObject (holdingAt ⟨100, 0, -3⟩) ['b'] ['.'] (fileAt ⟨200, 0, -3⟩ none)).map
        Collection.docs = .ok [storedAt ⟨100, 0, -3⟩] ∧
    ¬∃ ls' result, syncObject (holdingAt ⟨100, 0, -3⟩) ['b'] ['.'] (fileAt ⟨200, 0, -3⟩ none) =
          .ok ls' ∧
        ls'.docs = (holdingAt ⟨100, 0, -3⟩).replaced result ∧
        Synchronised (storedAt ⟨100, 0, -3⟩) (fileAt ⟨200, 0, -3⟩ none) result := by
  have hstored : getObjectFilename (holdingAt ⟨100, 0, -3⟩) ['b'] ['.'] ['f'] =
      some (storedAt ⟨100, 0, -3⟩) := by decide
  refine ⟨hstored, by decide, ?_⟩
  rintro ⟨ls', result, hsync, hdocs, hsynced⟩
  have hsame := (sameInstant_of_synchronised hstored hsync hdocs hsynced).1
  exact absurd (hsame ⟨100, 0, -3⟩ rfl ⟨200, 0, -3⟩ rfl) (by decide)

/-- A file with an older time of its last write takes the document back in time. -/
example :
    (syncObject (holdingAt ⟨200, 0, -3⟩) ['b'] ['.'] (fileAt ⟨100, 0, -3⟩ none)).map
      Collection.docs = .ok [storedAt ⟨100, 0, -3⟩] := by
  decide

end LocalStorage

end WsHyper.Directory
