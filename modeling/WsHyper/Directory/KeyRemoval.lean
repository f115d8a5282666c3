import WsHyper.Directory.Agreement

/-!
# Removing a key

The tree drops the whole subtree of a deleted key, while `delete_key` removes the
documents of this very key.  The two agree afterwards exactly if no document lies
below the key.  The key `.` is the bucket itself, which `DeleteKey` never removes
from the tree.
-/

namespace WsHyper.Directory

open WsHyper.Lib WsHyper.Lib.Text

def Document.InOrBelow (d : Document) (bucket : Bucket) (key : Key) : Prop :=
  d.bucket = bucket ∧ (d.key = key ∨ key ++ ['/'] <+: d.key)

structure KeyDeleted (manager manager' : Manager) (bucket : Bucket) (key : Key) : Prop where
  gone : ∀ d ∈ manager'.localStorage.docs, ¬d.InOrBelow bucket key
  others : ∀ d : Document, ¬d.InOrBelow bucket key →
    (d ∈ manager'.localStorage.docs ↔ d ∈ manager.localStorage.docs)
  agree : Agree manager'.state manager'.localStorage

/-- No document below the key; and a bucket that is meant by `.` has keys, and no
document of its own. -/
def NothingBelow (manager : Manager) (bucket : Bucket) (key : Key) : Prop :=
  (∀ d ∈ manager.localStorage.docs, d.bucket = bucket → ¬key ++ ['/'] <+: d.key) ∧
    (key = Key.root →
      (∀ d ∈ manager.localStorage.docs, d.bucket = bucket → d.key ≠ Key.root) ∧
        ∃ entry, manager.state.getEntry bucket key = some entry ∧ entry.keys.isSome)

theorem LocalStorage.mem_deleteKey {ls : Collection} {bucket : Bucket} {key : Key}
    {d : Document} :
    d ∈ (LocalStorage.deleteKey ls bucket key).docs ↔
      d ∈ ls.docs ∧ ¬(d.bucket = bucket ∧ d.key = key) := by
  rw [LocalStorage.deleteKey, Collection.deleteMany, Collection.keep, List.mem_filter]
  simp only [Bool.not_eq_true', decide_eq_false_iff_not]

section Removing

variable {manager : Manager} {m' : BucketMap} {bucket : Bucket} {key : Key}

abbrev Manager.withoutKey (manager : Manager) (m' : BucketMap) (bucket : Bucket) (key : Key) :
    Manager :=
  { state := m', localStorage := LocalStorage.deleteKey manager.localStorage bucket key }

theorem docs_deleteKey_iff :
    ((∀ d ∈ (manager.withoutKey m' bucket key).localStorage.docs, ¬d.InOrBelow bucket key) ∧
        ∀ d : Document, ¬d.InOrBelow bucket key →
          (d ∈ (manager.withoutKey m' bucket key).localStorage.docs ↔
            d ∈ manager.localStorage.docs)) ↔
      ∀ d ∈ manager.localStorage.docs, d.bucket = bucket → ¬key ++ ['/'] <+: d.key := by
  simp only [LocalStorage.mem_deleteKey]
  constructor
  · rintro ⟨hgone, -⟩ d hd hbucket hbelow
    refine hgone d ⟨hd, ?_⟩ ⟨hbucket, .inr hbelow⟩
    -- a key is shorter than one below it
    rintro ⟨-, hkey⟩
    have hlength := hbelow.length_le
    rw [hkey, List.length_append, List.length_singleton] at hlength
    omega
  · intro hbelow
    constructor
    · rintro d ⟨hd, hnot⟩ ⟨hbucket, hkey | hslash⟩
      · exact hnot ⟨hbucket, hkey⟩
      · exact hbelow d hd hbucket hslash
    · intro d hnot
      rw [and_iff_left]
      rintro ⟨hbucket, hkey⟩
      exact hnot ⟨hbucket, .inl hkey⟩

theorem agree_deleteKey (hplain : manager.state.LabelsPlain)
    (hagree : Agree manager.state manager.localStorage) (hpath : key.path ≠ [])
    (hview : m'.view = manager.state.view.drop bucket key.path)
    (hbelow : ∀ d ∈ manager.localStorage.docs, d.bucket = bucket → ¬key ++ ['/'] <+: d.key) :
    Agree m' (LocalStorage.deleteKey manager.localStorage bucket key) := by
  have hplain' : m'.LabelsPlain := by
    rw [BucketMap.LabelsPlain, hview]
    exact .drop hplain
  intro bucket' key' name
  rw [BucketMap.holds_iff hplain', hview]
  constructor
  · rintro ⟨o, ho, hname⟩
    rw [FlatMap.items, FlatMap.drop] at ho
    split_ifs at ho with hplace
    · simp at ho
    · obtain ⟨d, hd, hbucket, hkey, hname'⟩ := (hagree bucket' key' name).1
        ((BucketMap.holds_iff hplain).2 ⟨o, ho, hname⟩)
      refine ⟨d, LocalStorage.mem_deleteKey.2 ⟨hd, ?_⟩, hbucket, hkey, hname'⟩
      rintro ⟨rfl, rfl⟩
      exact hplace ⟨hbucket, hkey ▸ List.prefix_rfl⟩
  · rintro ⟨d, hd, rfl, rfl, hname⟩
    obtain ⟨hd, hnot⟩ := LocalStorage.mem_deleteKey.1 hd
    obtain ⟨o, ho, hname'⟩ := (BucketMap.holds_iff hplain).1
      ((hagree d.bucket d.key name).2 ⟨d, hd, rfl, rfl, hname⟩)
    refine ⟨o, ?_, hname'⟩
    rw [FlatMap.items, FlatMap.drop, if_neg]
    · exact ho
    · rintro ⟨hbucket, rest, hrest⟩
      cases rest with
      | nil =>
          -- the very key
          apply hnot ⟨hbucket.symm, _⟩
          rw [← Key.ofPath_path d.key, ← hrest, List.append_nil, Key.ofPath_path]
      | cons s rest =>
          apply hbelow d hd hbucket.symm
          rw [← Key.ofPath_path d.key, ← hrest, Key.ofPath_append hpath (by simp),
            Key.ofPath_path]
          exact ⟨Key.ofPath (s :: rest), by simp⟩

theorem handleChange_deleteKey {fresh : Broker}
    (hchange : manager.state.change fresh (.deleteKey bucket key) = .ok m') :
    manager.handleChange fresh (.deleteKey bucket key) =
      .ok (manager.withoutKey m' bucket key) := by
  rw [Manager.handleChange, hchange]
  rfl

/-- The key `.` of a bucket is no label, so the tree stays as it is. -/
theorem change_deleteKey_root (hplain : manager.state.LabelsPlain) (fresh : Broker)
    {entry : KeyEntry} (hentry : manager.state.entryAt bucket [] = some entry) :
    manager.state.change fresh (.deleteKey bucket Key.root) =
      if entry.keys.isSome then .ok manager.state else .error .unwrapNone := by
  have hparent : Key.root.parentLeaf = ([], Key.root) := by decide
  rw [BucketMap.change_deleteKey, hparent]
  cases hkeys : entry.keys with
  | none => exact BucketMap.withKeys_of_no_keys hentry hkeys _
  | some keys =>
      obtain ⟨write, hborrow⟩ := BucketMap.exists_borrowAt hentry
      have hnone : (keys.lookup Key.root).isSome = false := by
        rw [BucketMap.isSome_lookup_iff hborrow hkeys, Bool.eq_false_iff]
        intro hlabel
        exact (hplain _ _ hlabel Key.root (by simp)).2.2 rfl
      rw [BucketMap.withKeys_of_keys hborrow hkeys, hnone]
      rfl

theorem deleteKey_root_iff (hplain : manager.state.LabelsPlain)
    (hagree : Agree manager.state manager.localStorage) (fresh : Broker)
    (hpresent : (manager.state.getEntry bucket Key.root).isSome) :
    (∃ manager', manager.handleChange fresh (.deleteKey bucket Key.root) = .ok manager' ∧
        KeyDeleted manager manager' bucket Key.root) ↔
      NothingBelow manager bucket Key.root := by
  obtain ⟨entry, hentry⟩ := Option.isSome_iff_exists.1 hpresent
  have hchange := change_deleteKey_root hplain fresh
    ((BucketMap.getEntry_eq manager.state bucket Key.root).symm.trans hentry)
  constructor
  · rintro ⟨manager', hok, hdeleted⟩
    by_cases hkeys : entry.keys.isSome
    · rw [if_pos hkeys] at hchange
      obtain rfl := Except.ok.inj ((handleChange_deleteKey hchange).symm.trans hok)
      refine ⟨docs_deleteKey_iff.1 ⟨hdeleted.gone, hdeleted.others⟩, fun _ => ?_⟩
      refine ⟨?_, entry, hentry, hkeys⟩
      intro d hd hbucket hkey
      -- the tree keeps the object of the document
      obtain ⟨d', hd', hbucket', hkey', -⟩ := (hdeleted.agree _ _ _).1
        ((hagree d.bucket d.key d.object.fileName).2 ⟨d, hd, rfl, rfl, rfl⟩)
      exact hdeleted.gone d' hd' ⟨hbucket'.trans hbucket, .inl (hkey'.trans hkey)⟩
    · rw [if_neg hkeys] at hchange
      rw [Manager.handleChange, hchange] at hok
      cases hok
  · rintro ⟨hbelow, hown⟩
    obtain ⟨hnone, entry', hentry', hkeys⟩ := hown rfl
    obtain rfl := Option.some.inj (hentry.symm.trans hentry')
    rw [if_pos hkeys] at hchange
    obtain ⟨hgone, hothers⟩ := docs_deleteKey_iff.2 hbelow
    refine ⟨_, handleChange_deleteKey hchange, hgone, hothers, ?_⟩
    intro bucket' key' name
    rw [hagree bucket' key' name]
    constructor
    · rintro ⟨d, hd, hbucket, hkey, hname⟩
      refine ⟨d, LocalStorage.mem_deleteKey.2 ⟨hd, ?_⟩, hbucket, hkey, hname⟩
      exact fun h => hnone d hd h.1 h.2
    · rintro ⟨d, hd, hbucket, hkey, hname⟩
      exact ⟨d, (LocalStorage.mem_deleteKey.1 hd).1, hbucket, hkey, hname⟩

theorem deleteKey_place_iff (hplain : manager.state.LabelsPlain)
    (hagree : Agree manager.state manager.localStorage) (fresh : Broker)
    (hpresent : (manager.state.getEntry bucket key).isSome) (hroot : key ≠ Key.root) :
    (∃ manager', manager.handleChange fresh (.deleteKey bucket key) = .ok manager' ∧
        KeyDeleted manager manager' bucket key) ↔
      NothingBelow manager bucket key := by
  rw [BucketMap.getEntry_eq] at hpresent
  have hsome : (manager.state.view bucket key.path).isSome := by
    rw [BucketMap.view_eq_map_entryAt, Option.isSome_map]
    exact hpresent
  have hkey : key.WellFormed :=
    ⟨key.path, hplain bucket key.path hsome, (Key.ofPath_path key).symm⟩
  have hpath := BucketMap.path_eq_parentLeaf hkey hroot
  obtain ⟨m', hchange, hview⟩ : ∃ m', manager.state.change fresh (.deleteKey bucket key) =
      .ok m' ∧ m'.view = manager.state.view.drop bucket key.path := by
    rw [hpath] at hpresent ⊢
    exact BucketMap.view_deleteKey fresh rfl hpresent
  have hok := handleChange_deleteKey hchange
  constructor
  · rintro ⟨manager', hok', hdeleted⟩
    obtain rfl := Except.ok.inj (hok.symm.trans hok')
    exact ⟨docs_deleteKey_iff.1 ⟨hdeleted.gone, hdeleted.others⟩, fun h => absurd h hroot⟩
  · rintro ⟨hbelow, -⟩
    obtain ⟨hgone, hothers⟩ := docs_deleteKey_iff.2 hbelow
    have hne : key.path ≠ [] := by simp [hpath]
    exact ⟨_, hok, hgone, hothers, agree_deleteKey hplain hagree hne hview hbelow⟩

end Removing

theorem deleteKey_agree_iff (manager : Manager) (fresh : Broker) (bucket : Bucket) (key : Key)
    (hplain : manager.state.LabelsPlain)
    (hagree : Agree manager.state manager.localStorage)
    (hpresent : (manager.state.getEntry bucket key).isSome) :
    (∃ manager', manager.handleChange fresh (.deleteKey bucket key) = .ok manager' ∧
        KeyDeleted manager manager' bucket key) ↔
      NothingBelow manager bucket key := by
  by_cases hroot : key = Key.root
  · subst hroot
    exact deleteKey_root_iff hplain hagree fresh hpresent
  · exact deleteKey_place_iff hplain hagree fresh hpresent hroot

theorem deleteKey_nestedManager :
    (∃ manager', nestedManager.handleChange 4 (.deleteKey ['b'] ['k', '/', 'l']) = .ok manager' ∧
        KeyDeleted nestedManager manager' ['b'] ['k', '/', 'l']) ↔
      NothingBelow nestedManager ['b'] ['k', '/', 'l'] :=
  deleteKey_agree_iff nestedManager 4 ['b'] ['k', '/', 'l'] nestedTree_labelsPlain
    nestedManager_agree rfl

/-- Of the objects of `nestedTree`, the tree drops the one in `k/l` with the key
`k`, while the database keeps its document. -/
theorem nested_document_kept :
    nestedManager.state.LabelsPlain ∧
      Agree nestedManager.state nestedManager.localStorage ∧
      (nestedManager.state.getEntry ['b'] ['k']).isSome ∧
      nestedDocument.InOrBelow ['b'] ['k'] ∧
      ∃ manager', nestedManager.handleChange 4 (.deleteKey ['b'] ['k']) = .ok manager' ∧
        manager'.localStorage.docs = [nestedDocument] ∧
        ¬Agree manager'.state manager'.localStorage := by
  obtain ⟨m', hchange, hview⟩ : ∃ m', nestedManager.state.change 4 (.deleteKey ['b'] ['k']) =
      .ok m' ∧ m'.view = nestedManager.state.view.drop ['b'] [['k']] :=
    BucketMap.view_deleteKey 4 rfl rfl
  refine ⟨nestedTree_labelsPlain, nestedManager_agree, rfl, ⟨rfl, .inr (by decide)⟩, _,
    handleChange_deleteKey hchange, rfl, ?_⟩
  intro hagree
  obtain ⟨path, o, ho, -, -⟩ := (hagree ['b'] ['k', '/', 'l'] ['x']).2
    ⟨nestedDocument, List.mem_singleton_self _, rfl, rfl, rfl⟩
  rw [FlatMap.items, hview, FlatMap.drop] at ho
  split_ifs at ho with hplace
  · simp at ho
  · obtain ⟨-, rfl, -⟩ := mem_items_nestedTree.1 ho
    exact hplace (by decide)

end WsHyper.Directory
