import WsHyper.Directory.Agreement
import WsHyper.Directory.UniqueNames
import Mathlib.Data.Multiset.Filter

/-!
# The life of buckets and objects

What tree and database have in common is the set of names they hold, each under
its bucket and key.  A change that makes or removes a bucket, a key or an object,
or names a bucket, does the same to this set in both, so they stay in agreement
along every run of such changes.  Each change is described on sets of names once;
the tree and the collection both carry it out.
-/

namespace WsHyper.Directory

open WsHyper.Lib WsHyper.Lib.Text

/-! ## Sets of names -/

abbrev Names := Bucket → Key → Str → Prop

namespace Names

def insert (N : Names) (bucket : Bucket) (key : Key) (name : Str) : Names :=
  fun b k n => (b = bucket ∧ k = key ∧ n = name) ∨ N b k n

def erase (N : Names) (bucket : Bucket) (key : Key) (name : Str) : Names :=
  fun b k n => N b k n ∧ ¬(b = bucket ∧ k = key ∧ n = name)

/-- What is in one bucket moves to another, in place of what was there. -/
def moveBucket (N : Names) (fromName toName : Bucket) : Names :=
  fun b k n => if b = toName then N fromName k n else b ≠ fromName ∧ N b k n

def dropBucket (N : Names) (bucket : Bucket) : Names :=
  fun b k n => b ≠ bucket ∧ N b k n

theorem moveBucket_of_empty {N : Names} {fromName toName : Bucket}
    (hfrom : ∀ k n, ¬N fromName k n) (hto : ∀ k n, ¬N toName k n) :
    N.moveBucket fromName toName = N := by
  funext b k n
  rw [moveBucket, eq_iff_iff]
  split_ifs with hb
  · rw [hb]
    exact iff_of_false (hfrom k n) (hto k n)
  · rw [and_iff_right_iff_imp]
    rintro hheld rfl
    exact hfrom k n hheld

end Names

/-! ## The tree -/

namespace BucketMap

variable {m m' : BucketMap} {fresh : Broker} {bucket : Bucket} {key : Key}

/-- What the tree holds is told by the objects in its places. -/
theorem holds_eq_of_items (hitems : m'.view.items = m.view.items) : m'.Holds = m.Holds := by
  funext b k n
  rw [Holds, Holds, hitems]

theorem holds_addItem (hplain : m.LabelsPlain) {object : Object}
    (hplace : (m.view bucket key.path).isSome)
    (hview : m'.view = m.view.addItem bucket key.path object) :
    m'.Holds = Names.insert m.Holds bucket key object.fileName := by
  have hplain' : m'.LabelsPlain := by
    rw [LabelsPlain, hview]
    exact .update_map hplain _
  obtain ⟨content, hcontent⟩ := Option.isSome_iff_exists.1 hplace
  funext b k n
  rw [Names.insert, eq_iff_iff, holds_iff hplain', holds_iff hplain, hview, FlatMap.addItem,
    FlatMap.items_update]
  by_cases hsame : bucket = b ∧ key.path = k.path
  · have hkey : key = k := by rw [← Key.ofPath_path key, hsame.2, Key.ofPath_path]
    obtain ⟨rfl, -⟩ := hsame
    subst hkey
    simp [FlatMap.items, hcontent, eq_comm]
  · have hdiffers : ¬(b = bucket ∧ k = key ∧ n = object.fileName) := by
      rintro ⟨rfl, rfl, -⟩
      exact hsame ⟨rfl, rfl⟩
    simp [hsame, hdiffers]

theorem holds_eraseItem (hplain : m.LabelsPlain) (hnames : m.NamesUnique) {object : Object}
    (hobject : object ∈ m.view.items bucket key.path)
    (hview : m'.view = m.view.eraseItem bucket key.path object) :
    m'.Holds = Names.erase m.Holds bucket key object.fileName := by
  have hplain' : m'.LabelsPlain := by
    rw [LabelsPlain, hview]
    exact .update_map hplain _
  obtain ⟨content, hcontent⟩ := Option.isSome_iff_exists.1 (isSome_view_of_mem hobject)
  have hnodup := hnames bucket key.path
  have hitems : m.view.items bucket key.path = content.1 := by simp [FlatMap.items, hcontent]
  rw [hitems] at hobject hnodup
  funext b k n
  rw [Names.erase, eq_iff_iff, holds_iff hplain', holds_iff hplain, hview, FlatMap.eraseItem,
    FlatMap.items_update]
  by_cases hsame : bucket = b ∧ key.path = k.path
  · have hkey : key = k := by rw [← Key.ofPath_path key, hsame.2, Key.ofPath_path]
    obtain ⟨rfl, -⟩ := hsame
    subst hkey
    -- with distinct names, erasing the object erases its name
    have herase := Multiset.map_erase_of_mem Object.fileName content.1 hobject
    have hmem : (∃ o ∈ content.1.erase object, o.fileName = n) ↔
        n ∈ (content.1.map Object.fileName).erase object.fileName := by
      rw [← herase, Multiset.mem_map]
    simp only [and_self, if_true, hcontent, Option.map_some, Option.getD_some, hitems, true_and]
    rw [hmem, Multiset.Nodup.mem_erase_iff hnodup, Multiset.mem_map]
    exact and_comm
  · have hdiffers : ¬(b = bucket ∧ k = key ∧ n = object.fileName) := by
      rintro ⟨rfl, rfl, -⟩
      exact hsame ⟨rfl, rfl⟩
    simp [hsame, hdiffers]

theorem erase_of_absent (hplain : m.LabelsPlain) {fileName : Str}
    (habsent : ∀ o ∈ m.view.items bucket key.path, o.fileName ≠ fileName) :
    Names.erase m.Holds bucket key fileName = m.Holds := by
  funext b k n
  rw [Names.erase, eq_iff_iff, and_iff_left_iff_imp]
  rintro hheld ⟨rfl, rfl, rfl⟩
  obtain ⟨o, ho, hname⟩ := (holds_iff hplain).1 hheld
  exact habsent o ho hname

theorem not_holds_of_absent (habsent : m.view bucket [] = none) (k : Key) (n : Str) :
    ¬m.Holds bucket k n := by
  rintro ⟨path, o, ho, -, -⟩
  have hnone := view_append_of_none habsent path
  rw [List.nil_append] at hnone
  rw [FlatMap.items_of_none _ _ hnone] at ho
  simp at ho

theorem holds_moveRoot {fromName toName : Bucket}
    (hview : m'.view = m.view.moveRoot fromName toName) :
    m'.Holds = Names.moveBucket m.Holds fromName toName := by
  funext b k n
  rw [Holds, hview, Names.moveBucket, eq_iff_iff]
  by_cases hto : toName = b
  · simp [FlatMap.items, FlatMap.moveRoot, hto, Holds]
  · by_cases hfrom : fromName = b
    · simp [FlatMap.items, FlatMap.moveRoot, hto, hfrom, Ne.symm hto]
    · simp [FlatMap.items, FlatMap.moveRoot, hto, hfrom, Ne.symm hto, Ne.symm hfrom, Holds]

theorem holds_drop_bucket (hview : m'.view = m.view.drop bucket []) :
    m'.Holds = Names.dropBucket m.Holds bucket := by
  funext b k n
  rw [Holds, hview, Names.dropBucket, eq_iff_iff]
  by_cases hb : bucket = b
  · simp [FlatMap.items, FlatMap.drop, hb]
  · simp [FlatMap.items, FlatMap.drop, hb, Ne.symm hb, Holds]

end BucketMap

/-! ## The collection -/

/-- What the unique index of the collection is over. -/
def Document.triple (d : Document) : Bucket × Key × Str := (d.bucket, d.key, d.object.fileName)

/-- No two documents with one bucket, key and name. -/
def Collection.Indexed (ls : Collection) : Prop := (ls.docs.map Document.triple).Nodup

theorem mem_eraseP_iff {α β : Type*} [DecidableEq β] {f : α → β} {xs : List α}
    (hnodup : (xs.map f).Nodup) {a : β} {x : α} :
    x ∈ xs.eraseP (fun y => f y = a) ↔ x ∈ xs ∧ f x ≠ a := by
  constructor
  · intro hx
    have hmem := List.mem_of_mem_eraseP hx
    refine ⟨hmem, ?_⟩
    rintro rfl
    obtain ⟨y, before, after, -, hy, hxs, herase⟩ :=
      List.exists_of_eraseP (p := fun y => f y = f x) hmem (by simp)
    rw [herase] at hx
    rw [hxs, List.map_append, List.map_cons, of_decide_eq_true hy] at hnodup
    have hnot := (List.nodup_middle.1 hnodup).notMem
    apply hnot
    rw [← List.map_append]
    exact List.mem_map_of_mem hx
  · rintro ⟨hx, hne⟩
    exact (List.mem_eraseP_of_neg (by simpa using hne)).2 hx

namespace LocalStorage

variable {ls : Collection} {bucket : Bucket} {key : Key}

theorem holds_iff_triple {b : Bucket} {k : Key} {n : Str} :
    ls.Holds b k n ↔ ∃ d ∈ ls.docs, d.triple = (b, k, n) := by
  simp only [Collection.Holds, Document.triple, Prod.mk.injEq]

theorem indexed_eq_decide (bucket : Bucket) (key : Key) (fileName : Str) :
    Collection.indexed bucket key fileName =
      fun d => decide (d.triple = (bucket, key, fileName)) := by
  funext d
  simp [Collection.indexed, Document.triple]

theorem newObject_of_absent (hindexed : ls.Indexed) {object : Object}
    (hencodes : object.encodes = true) (habsent : ¬ls.Holds bucket key object.fileName) :
    ((newObject ls bucket key object).getD ls).Holds =
        Names.insert ls.Holds bucket key object.fileName ∧
      ((newObject ls bucket key object).getD ls).Indexed := by
  have hnone : ls.docs.any (Collection.indexed bucket key object.fileName) = false := by
    rw [List.any_eq_false]
    intro d hd hmatch
    simp only [Collection.indexed, decide_eq_true_eq] at hmatch
    exact habsent ⟨d, hd, hmatch⟩
  rw [newObject, Collection.insertOne, if_neg (by simp [hencodes, hnone]), Option.getD_some]
  constructor
  · funext b k n
    simp only [Collection.Holds, Names.insert, List.mem_append, List.mem_singleton, eq_iff_iff]
    constructor
    · rintro ⟨d, hd | rfl, rfl, rfl, rfl⟩
      · exact .inr ⟨d, hd, rfl, rfl, rfl⟩
      · exact .inl ⟨rfl, rfl, rfl⟩
    · rintro (⟨rfl, rfl, rfl⟩ | ⟨d, hd, hd'⟩)
      · exact ⟨_, .inr rfl, rfl, rfl, rfl⟩
      · exact ⟨d, .inl hd, hd'⟩
  · rw [Collection.Indexed, List.map_append, List.map_singleton]
    apply List.Nodup.append hindexed (List.nodup_singleton _)
    intro t ht hnew
    rw [List.mem_singleton] at hnew
    subst hnew
    exact habsent (holds_iff_triple.2 (List.mem_map.1 ht))

theorem deleteObject_holds (hindexed : ls.Indexed) (fileName : Str) :
    (deleteObject ls bucket key fileName).Holds = Names.erase ls.Holds bucket key fileName ∧
      (deleteObject ls bucket key fileName).Indexed := by
  constructor
  · funext b k n
    rw [eq_iff_iff, holds_iff_triple, Names.erase, holds_iff_triple, deleteObject,
      Collection.deleteOne, Collection.keep, indexed_eq_decide]
    simp only [mem_eraseP_iff hindexed]
    constructor
    · rintro ⟨d, ⟨hd, hne⟩, htriple⟩
      refine ⟨⟨d, hd, htriple⟩, ?_⟩
      rintro ⟨rfl, rfl, rfl⟩
      exact hne htriple
    · rintro ⟨⟨d, hd, htriple⟩, hne⟩
      refine ⟨d, ⟨hd, ?_⟩, htriple⟩
      rw [htriple]
      simpa [Prod.ext_iff] using hne
  · exact hindexed.sublist (List.eraseP_sublist.map _)

theorem setNameBucket_holds (fromName : Bucket) {toName : Bucket} (hindexed : ls.Indexed)
    (hfree : ∀ k n, ¬ls.Holds toName k n) :
    (setNameBucket ls fromName toName).Holds = Names.moveBucket ls.Holds fromName toName ∧
      (setNameBucket ls fromName toName).Indexed := by
  have hmove : ∀ d : Document,
      (if decide (d.bucket = fromName) then { d with bucket := toName } else d).triple =
        (if d.bucket = fromName then toName else d.bucket, d.key, d.object.fileName) := by
    intro d
    by_cases hbucket : d.bucket = fromName <;> simp [Document.triple, hbucket]
  constructor
  · funext b k n
    simp only [holds_iff_triple, setNameBucket, Collection.updateMany, Collection.rewrite,
      List.mem_map, exists_exists_and_eq_and, hmove, Names.moveBucket, eq_iff_iff,
      Prod.mk.injEq]
    constructor
    · rintro ⟨d, hd, hb, rfl, rfl⟩
      split_ifs at hb with hfrom
      · rw [if_pos hb.symm]
        exact ⟨d, hd, by rw [← hfrom]; rfl⟩
      · have hto : b ≠ toName := fun h => hfree d.key d.object.fileName
          ⟨d, hd, hb.trans h, rfl, rfl⟩
        rw [if_neg hto]
        exact ⟨hb ▸ hfrom, d, hd, by rw [← hb]; rfl⟩
    · intro h
      split_ifs at h with hto
      · obtain ⟨d, hd, htriple⟩ := h
        obtain ⟨hb, hk, hn⟩ : d.bucket = fromName ∧ d.key = k ∧ d.object.fileName = n := by
          simpa [Document.triple] using htriple
        exact ⟨d, hd, by rw [if_pos hb, hto], hk, hn⟩
      · obtain ⟨hfrom, d, hd, htriple⟩ := h
        obtain ⟨hb, hk, hn⟩ : d.bucket = b ∧ d.key = k ∧ d.object.fileName = n := by
          simpa [Document.triple] using htriple
        exact ⟨d, hd, by rw [if_neg (hb ▸ hfrom), hb], hk, hn⟩
  · rw [Collection.Indexed, setNameBucket, Collection.updateMany, Collection.rewrite,
      List.map_map]
    apply List.Nodup.of_map (fun t => (if t.1 = toName then fromName else t.1, t.2))
    -- moving the bucket back gives the old triples
    rw [List.map_map, List.map_congr_left (g := Document.triple)]
    · exact hindexed
    · intro d hd
      have hto : d.bucket ≠ toName :=
        fun h => hfree d.key d.object.fileName ⟨d, hd, h, rfl, rfl⟩
      rw [Function.comp_apply, Function.comp_apply, hmove, Document.triple]
      by_cases hfrom : d.bucket = fromName <;> simp [hfrom, hto]

theorem deleteBucket_holds (hindexed : ls.Indexed) :
    (deleteBucket ls bucket).Holds = Names.dropBucket ls.Holds bucket ∧
      (deleteBucket ls bucket).Indexed := by
  constructor
  · funext b k n
    simp only [Collection.Holds, Names.dropBucket, deleteBucket, Collection.deleteMany,
      Collection.keep, List.mem_filter, eq_iff_iff]
    constructor
    · rintro ⟨d, ⟨hd, hne⟩, rfl, hrest⟩
      exact ⟨by simpa using hne, d, hd, rfl, hrest⟩
    · rintro ⟨hne, d, hd, rfl, hrest⟩
      exact ⟨d, ⟨hd, by simpa using hne⟩, rfl, hrest⟩
  · exact hindexed.sublist (List.filter_sublist.map _)

end LocalStorage

/-! ## Runs of the manager -/

/-- `handle` of one change, with the broker that it may start. -/
def Manager.Step (manager : Manager) (c : Broker × Change) (manager' : Manager) : Prop :=
  manager.handleChange c.1 c.2 = .ok manager'

theorem Manager.step_deterministic {manager manager₁ manager₂ : Manager} {c : Broker × Change}
    (h₁ : manager.Step c manager₁) (h₂ : manager.Step c manager₂) : manager₁ = manager₂ :=
  Except.ok.inj (h₁.symm.trans h₂)

/-- Tree and database hold the same names, and each of them once. -/
structure OneToOne (manager : Manager) : Prop where
  agree : Agree manager.state manager.localStorage
  names : manager.state.NamesUnique
  indexed : manager.localStorage.Indexed

/-- A change of the life of buckets, keys and objects, where it may come: an object
under a name that its entry does not hold, a key below an entry that has keys, a
bucket named as none is. -/
def BucketMap.LifeChange (m : BucketMap) : Change → Prop
  | .newObject bucket key object =>
      key.WellFormed ∧ (m.getEntry bucket key).isSome ∧
        m.getObject bucket key object.fileName = none
  | .newKey bucket key =>
      key.WellFormed ∧ key ≠ Key.root ∧
        ∃ entry, m.entryAt bucket key.path.dropLast = some entry ∧ entry.keys.isSome
  | .deleteObject _ key _ => key.WellFormed
  | .nameBucket _ toName => m.tree.lookup toName = none
  | .newBucket _ | .deleteBucket _ => True
  | .nameObject _ _ _ _ | .nameKey _ _ _ | .deleteKey _ _ => False

/-- The object of a new file has a document: its times have RFC 3339 texts. -/
def Change.Encodes : Change → Prop
  | .newObject _ _ object => object.encodes = true
  | _ => True

theorem BucketMap.labelsPlain_of_view {m : BucketMap} {V : View} (hview : m.view = V)
    (hV : V.LabelsIn IsSegment) : m.LabelsPlain := by
  rw [LabelsPlain, hview]
  exact hV

theorem agree_iff_holds {m : BucketMap} {ls : Collection} :
    Agree m ls ↔ m.Holds = ls.Holds := by
  constructor
  · intro h
    funext b k n
    exact propext (h b k n)
  · intro h b k n
    rw [h]

theorem OneToOne.of_holds {manager' : Manager} {N : Names} (htree : manager'.state.Holds = N)
    (hnames : manager'.state.NamesUnique)
    (hls : manager'.localStorage.Holds = N ∧ manager'.localStorage.Indexed) :
    OneToOne manager' :=
  ⟨agree_iff_holds.2 (htree.trans hls.1.symm), hnames, hls.2⟩

section Life

variable {manager : Manager} (fresh : Broker)

theorem handleChange_of_change {c : Change} {m' : BucketMap}
    (hchange : manager.state.change fresh c = .ok m') :
    manager.handleChange fresh c =
      .ok { state := m', localStorage := changeLocalStorage manager.localStorage c } := by
  rw [Manager.handleChange, hchange]
  rfl

theorem isSome_view_of_getEntry {m : BucketMap} {bucket : Bucket} {key : Key}
    (hentry : (m.getEntry bucket key).isSome) : (m.view bucket key.path).isSome := by
  rwa [BucketMap.view_eq_map_entryAt, Option.isSome_map, ← BucketMap.getEntry_eq]

theorem not_holds_of_getObject {m : BucketMap} (hplain : m.LabelsPlain) {bucket : Bucket}
    {key : Key} {name : Str} (habsent : m.getObject bucket key name = none) :
    ¬m.Holds bucket key name := by
  rw [BucketMap.holds_iff hplain, ← BucketMap.getObject_isSome_iff, habsent]
  simp

/-- A change that leaves every object in its place leaves all names. -/
theorem oneToOne_of_items {manager' : Manager} (hone : OneToOne manager)
    (hitems : manager'.state.view.items = manager.state.view.items)
    (hls : manager'.localStorage = manager.localStorage) : OneToOne manager' := by
  apply OneToOne.of_holds (BucketMap.holds_eq_of_items hitems)
  · intro bucket path
    rw [hitems]
    exact hone.names bucket path
  · rw [hls]
    exact ⟨(agree_iff_holds.1 hone.agree).symm, hone.indexed⟩

def Manager.KeepsStep (manager : Manager) (fresh : Broker) (c : Change) : Prop :=
  ∃ manager', manager.Step (fresh, c) manager' ∧ manager'.state.LabelsPlain ∧ OneToOne manager'

theorem keepsStep_of_change {c : Change} {m' : BucketMap}
    (hchange : manager.state.change fresh c = .ok m') (hplain : m'.LabelsPlain)
    (hone : OneToOne
      { state := m', localStorage := changeLocalStorage manager.localStorage c }) :
    manager.KeepsStep fresh c :=
  ⟨_, handleChange_of_change fresh hchange, hplain, hone⟩

section Changes

variable (hplain : manager.state.LabelsPlain) (hone : OneToOne manager)

include hplain hone

theorem keepsStep_newObject {bucket : Bucket} {key : Key} {object : Object}
    (hentry : (manager.state.getEntry bucket key).isSome)
    (habsent : manager.state.getObject bucket key object.fileName = none)
    (hencodes : object.encodes = true) :
    manager.KeepsStep fresh (.newObject bucket key object) := by
  have hholds := agree_iff_holds.1 hone.agree
  have hplace := isSome_view_of_getEntry hentry
  have hfree : ¬manager.localStorage.Holds bucket key object.fileName := by
    rw [← hholds]
    exact not_holds_of_getObject hplain habsent
  obtain ⟨m', hchange, hview⟩ := BucketMap.view_newObject manager.state fresh bucket key object
  apply keepsStep_of_change fresh hchange
    (BucketMap.labelsPlain_of_view hview (.update_map hplain _))
  apply OneToOne.of_holds (BucketMap.holds_addItem hplain hplace hview)
  · rw [BucketMap.NamesUnique, hview, FlatMap.distinct_addItem_iff hone.names hplace]
    exact BucketMap.getObject_eq_none_iff.1 habsent
  · rw [hholds]
    exact LocalStorage.newObject_of_absent hone.indexed hencodes hfree

/-- An object that has no document stands in the tree alone. -/
theorem encodes_of_newObject {bucket : Bucket} {key : Key} {object : Object}
    (hentry : (manager.state.getEntry bucket key).isSome)
    (habsent : manager.state.getObject bucket key object.fileName = none) {manager' : Manager}
    (hstep : manager.Step (fresh, .newObject bucket key object) manager')
    (hkept : OneToOne manager') : object.encodes = true := by
  by_contra hencodes
  rw [Bool.not_eq_true] at hencodes
  obtain ⟨m', hchange, hview⟩ := BucketMap.view_newObject manager.state fresh bucket key object
  have hls : changeLocalStorage manager.localStorage (.newObject bucket key object) =
      manager.localStorage := by
    rw [changeLocalStorage, LocalStorage.newObject, Collection.insertOne, hencodes]
    rfl
  obtain rfl := Manager.step_deterministic hstep (handleChange_of_change fresh hchange)
  have hheld : m'.Holds bucket key object.fileName := by
    rw [BucketMap.holds_addItem hplain (isSome_view_of_getEntry hentry) hview]
    exact .inl ⟨rfl, rfl, rfl⟩
  have hstored := (hkept.agree bucket key object.fileName).1 hheld
  rw [hls] at hstored
  exact not_holds_of_getObject hplain habsent ((hone.agree _ _ _).2 hstored)

theorem keepsStep_newKey {bucket : Bucket} {key : Key} (hkey : key.WellFormed)
    (hroot : key ≠ Key.root) {entry : KeyEntry}
    (hentry : manager.state.entryAt bucket key.path.dropLast = some entry)
    (hkeys : entry.keys.isSome) : manager.KeepsStep fresh (.newKey bucket key) := by
  obtain ⟨segments, hsegments, rfl⟩ := hkey
  have hpath := BucketMap.path_eq_parentLeaf ⟨segments, hsegments, rfl⟩ hroot
  rw [hpath, List.dropLast_concat] at hentry
  obtain ⟨m', hchange, hview⟩ := BucketMap.view_newKey fresh (Prod.eta _).symm hentry hkeys
  apply keepsStep_of_change fresh hchange
  · apply BucketMap.labelsPlain_of_view hview (.addPlace _ hplain _)
    rw [← hpath, Key.path_ofPath hsegments]
    exact hsegments
  · refine oneToOne_of_items hone ?_ rfl
    rw [hview, FlatMap.items_addPlace]

theorem keepsStep_newBucket (bucket : Bucket) : manager.KeepsStep fresh (.newBucket bucket) := by
  obtain ⟨m', hchange, hview⟩ := BucketMap.view_newBucket manager.state fresh bucket
  apply keepsStep_of_change fresh hchange
    (BucketMap.labelsPlain_of_view hview (.addPlace _ hplain (by simp)))
  refine oneToOne_of_items hone ?_ rfl
  rw [hview, FlatMap.items_addPlace]

theorem keepsStep_deleteObject (bucket : Bucket) {key : Key} (fileName : Str) :
    manager.KeepsStep fresh (.deleteObject bucket key fileName) := by
  have hholds := agree_iff_holds.1 hone.agree
  by_cases hheld : (manager.state.getObject bucket key fileName).isSome
  · have hpresent := BucketMap.getObject_isSome_iff.1 hheld
    obtain ⟨m', hchange, o, ho, rfl, hview⟩ :=
      BucketMap.view_deleteObject manager.state fresh hpresent
    apply keepsStep_of_change fresh hchange
      (BucketMap.labelsPlain_of_view hview (.update_map hplain _))
    apply OneToOne.of_holds (BucketMap.holds_eraseItem hplain hone.names ho hview)
    · rw [BucketMap.NamesUnique, hview]
      exact .eraseItem hone.names
    · rw [hholds]
      exact LocalStorage.deleteObject_holds hone.indexed o.fileName
  · rw [Option.not_isSome_iff_eq_none, BucketMap.getObject_eq_none_iff] at hheld
    have hchange := BucketMap.view_deleteObject_of_absent manager.state fresh hheld
    apply keepsStep_of_change fresh hchange hplain
    refine .of_holds ?_ hone.names (LocalStorage.deleteObject_holds hone.indexed fileName)
    rw [← hholds]
    exact (BucketMap.erase_of_absent hplain hheld).symm

theorem keepsStep_nameBucket (fromName : Bucket) {toName : Bucket}
    (hlookup : manager.state.tree.lookup toName = none) :
    manager.KeepsStep fresh (.nameBucket fromName toName) := by
  have hholds := agree_iff_holds.1 hone.agree
  have hto : manager.state.view toName [] = none := by
    rw [← Option.not_isSome_iff_eq_none, BucketMap.isSome_view_nil, hlookup]
    simp
  have hfree := BucketMap.not_holds_of_absent hto
  rw [hholds] at hfree
  have hls := LocalStorage.setNameBucket_holds fromName hone.indexed hfree
  cases hfrom : manager.state.view fromName [] with
  | none =>
      have hchange := BucketMap.change_nameBucket_of_absent manager.state fresh hfrom toName
      apply keepsStep_of_change fresh hchange hplain
      refine .of_holds ?_ hone.names hls
      have habsent := BucketMap.not_holds_of_absent hfrom
      rw [hholds] at habsent ⊢
      exact (Names.moveBucket_of_empty habsent hfree).symm
  | some content =>
      have hpresent : (manager.state.view fromName []).isSome := hfrom ▸ rfl
      obtain ⟨m', hchange, hview⟩ := BucketMap.view_nameBucket manager.state fresh hpresent toName
      apply keepsStep_of_change fresh hchange
        (BucketMap.labelsPlain_of_view hview (.moveRoot hplain _))
      refine .of_holds (BucketMap.holds_moveRoot hview) ?_ (hholds ▸ hls)
      rw [BucketMap.NamesUnique, hview]
      exact .of_rearranges hone.names (FlatMap.rearranges_moveRoot _ _)

theorem keepsStep_deleteBucket (bucket : Bucket) :
    manager.KeepsStep fresh (.deleteBucket bucket) := by
  have hholds := agree_iff_holds.1 hone.agree
  obtain ⟨m', hchange, hview⟩ := BucketMap.view_deleteBucket manager.state fresh bucket
  apply keepsStep_of_change fresh hchange (BucketMap.labelsPlain_of_view hview (.drop hplain))
  apply OneToOne.of_holds (BucketMap.holds_drop_bucket hview)
  · rw [BucketMap.NamesUnique, hview]
    exact .of_rearranges hone.names (FlatMap.rearranges_drop _ _)
  · rw [hholds]
    exact LocalStorage.deleteBucket_holds hone.indexed

/-- A change of the life of buckets, keys and objects goes through, and keeps both
in step, unless it brings an object that has no document. -/
theorem oneToOne_step {c : Change} (hlife : manager.state.LifeChange c) (hencodes : c.Encodes) :
    manager.KeepsStep fresh c := by
  cases c with
  | newObject bucket key object =>
      obtain ⟨-, hentry, habsent⟩ := hlife
      exact keepsStep_newObject fresh hplain hone hentry habsent hencodes
  | newKey bucket key =>
      obtain ⟨hkey, hroot, entry, hentry, hkeys⟩ := hlife
      exact keepsStep_newKey fresh hplain hone hkey hroot hentry hkeys
  | newBucket bucket => exact keepsStep_newBucket fresh hplain hone bucket
  | deleteObject bucket key fileName =>
      exact keepsStep_deleteObject fresh hplain hone bucket fileName
  | nameBucket fromName toName => exact keepsStep_nameBucket fresh hplain hone fromName hlife
  | deleteBucket bucket => exact keepsStep_deleteBucket fresh hplain hone bucket
  | nameObject bucket key fromName toName => exact absurd hlife id
  | nameKey bucket fromKey toName => exact absurd hlife id
  | deleteKey bucket key => exact absurd hlife id

theorem encodes_of_step {c : Change} (hlife : manager.state.LifeChange c) {manager' : Manager}
    (hstep : manager.Step (fresh, c) manager') (hkept : OneToOne manager') : c.Encodes := by
  cases c with
  | newObject bucket key object =>
      obtain ⟨-, hentry, habsent⟩ := hlife
      exact encodes_of_newObject fresh hplain hone hentry habsent hstep hkept
  | newBucket _ | newKey _ _ | nameObject _ _ _ _ | nameBucket _ _ | nameKey _ _ _
  | deleteObject _ _ _ | deleteKey _ _ | deleteBucket _ => exact trivial

end Changes

end Life

theorem nestedManager_oneToOne : OneToOne nestedManager where
  agree := nestedManager_agree
  names := by
    intro bucket path
    rw [FlatMap.items, nestedManager, view_nestedTree]
    split_ifs <;> simp
  indexed := List.nodup_singleton _

/-- The file `y`, modified at midnight of the first day of the year 10000, at -03:00. -/
private def fileOfYear10000 : FileInfo where
  metadata :=
    some {
      modified := some { secs := 253402311600, nanos := ⟨0, by decide⟩ }
      accessed := none
      created := none
      size := 0 }
  checkSum := some []

private def objectOfYear10000 : Object :=
  { Object.named ['y'] with
    modified := some {
      unixTimestamp := 253402311600, nanosecond := ⟨0, by decide⟩, offset := -3 } }

end WsHyper.Directory
