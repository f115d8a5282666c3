import WsHyper.Directory.Lifecycle

/-!
# Renaming an object

The tree gives the object its new name, while `set_name` writes the field
`object.name` of the document, whose object has its name in `object.file_name`.  So
the database keeps the old name: after a rename to a free name the two disagree,
and neither a lookup nor a removal under the new name finds the document.
-/

namespace WsHyper.Directory

open WsHyper.Lib WsHyper.Lib.Text

namespace LocalStorage

variable {ls : Collection} {bucket : Bucket} {key : Key}

theorem triple_mem_updateFirst {filter : Document → Bool} (update : Document → Document)
    (hupdate : ∀ d, (update d).triple = d.triple) (docs : List Document) :
    (Collection.updateFirst filter update docs).map Document.triple =
      docs.map Document.triple := by
  induction docs with
  | nil => rfl
  | cons d docs ih =>
      rw [Collection.updateFirst]
      split_ifs
      · rw [List.map_cons, List.map_cons, hupdate]
      · rw [List.map_cons, List.map_cons, ih]

/-- `set_name` leaves bucket, key and file name of every document. -/
theorem holds_setName (fromName toName : Str) :
    (setName ls bucket key fromName toName).Holds = ls.Holds := by
  funext b k n
  rw [eq_iff_iff, holds_iff_triple, holds_iff_triple, ← List.mem_map, ← List.mem_map, setName,
    Collection.updateOne, Collection.rewrite,
    triple_mem_updateFirst (fun d => { d with objectName := some toName }) fun _ => rfl]

theorem getObjectFilename_eq_none_iff {fileName : Str} :
    getObjectFilename ls bucket key fileName = none ↔ ¬ls.Holds bucket key fileName := by
  rw [getObjectFilename, Collection.findOne, List.find?_eq_none]
  simp [Collection.indexed, Collection.Holds]

theorem deleteObject_of_absent {fileName : Str} (habsent : ¬ls.Holds bucket key fileName) :
    (deleteObject ls bucket key fileName).docs = ls.docs := by
  apply List.eraseP_of_forall_not
  intro d hd hmatch
  simp only [Collection.indexed, decide_eq_true_eq] at hmatch
  exact habsent ⟨d, hd, hmatch⟩

end LocalStorage

theorem BucketMap.holds_replaceItem {m m' : BucketMap} {bucket : Bucket} {key : Key}
    {object object' : Object} (hobject : object ∈ m.view.items bucket key.path)
    (hview : m'.view = m.view.replaceItem bucket key.path object object') :
    m'.Holds bucket key object'.fileName := by
  obtain ⟨content, hcontent⟩ := Option.isSome_iff_exists.1 (isSome_view_of_mem hobject)
  refine ⟨key.path, object', ?_, Key.ofPath_path key, rfl⟩
  rw [hview, FlatMap.replaceItem, FlatMap.items_update, if_pos ⟨rfl, rfl⟩, hcontent]
  exact Multiset.mem_cons_self _ _

/-- When an object got a free name, tree and database disagree, and a run with this change
does not keep them in agreement: the database neither finds nor removes a document under
the new name. -/
theorem not_agree_nameObject (manager : Manager) (fresh : Broker) (bucket : Bucket)
    (key : Key) (fromName toName : Str) (changes : List (Broker × Change))
    (hplain : manager.state.LabelsPlain)
    (hagree : Agree manager.state manager.localStorage)
    (hfrom : (manager.state.getObject bucket key fromName).isSome)
    (hto : manager.state.getObject bucket key toName = none) :
    (∃ manager', manager.Step (fresh, .nameObject bucket key fromName toName) manager' ∧
        manager'.state.Holds bucket key toName ∧
        LocalStorage.getObjectFilename manager'.localStorage bucket key toName = none ∧
        (LocalStorage.deleteObject manager'.localStorage bucket key toName).docs =
          manager'.localStorage.docs) ∧
      ¬EachState Manager.Step (fun manager => Agree manager.state manager.localStorage) manager
        ((fresh, .nameObject bucket key fromName toName) :: changes) := by
  have hfree : ¬manager.localStorage.Holds bucket key toName := by
    rw [← hagree, BucketMap.holds_iff hplain, ← BucketMap.getObject_isSome_iff, hto]
    simp
  obtain ⟨m', hchange, object, hobject, -, hview⟩ :=
    BucketMap.view_nameObject manager.state fresh (BucketMap.getObject_isSome_iff.1 hfrom) toName
  have hstep := handleChange_of_change fresh hchange
  have hheld := BucketMap.holds_replaceItem hobject hview
  have hlost : ¬(changeLocalStorage manager.localStorage
      (.nameObject bucket key fromName toName)).Holds bucket key toName := by
    rw [changeLocalStorage, LocalStorage.holds_setName]
    exact hfree
  constructor
  · exact ⟨_, hstep, hheld, LocalStorage.getObjectFilename_eq_none_iff.2 hlost,
      LocalStorage.deleteObject_of_absent hlost⟩
  · intro hstates
    obtain ⟨-, hlater⟩ := eachState_cons.1 hstates
    have hagree' := hlater _ hstep [] _ List.nil_prefix (.nil _)
    exact hlost ((hagree' bucket key toName).1 hheld)

/-- The only object of `nestedTree` gets the name `y`. -/
theorem not_agree_nameObject_nestedManager :
    (∃ manager', nestedManager.Step (4, .nameObject ['b'] ['k', '/', 'l'] ['x'] ['y']) manager' ∧
        manager'.state.Holds ['b'] ['k', '/', 'l'] ['y'] ∧
        LocalStorage.getObjectFilename manager'.localStorage ['b'] ['k', '/', 'l'] ['y'] = none ∧
        (LocalStorage.deleteObject manager'.localStorage ['b'] ['k', '/', 'l'] ['y']).docs =
          manager'.localStorage.docs) ∧
      ¬EachState Manager.Step (fun manager => Agree manager.state manager.localStorage)
        nestedManager [(4, .nameObject ['b'] ['k', '/', 'l'] ['x'] ['y']),
          (5, .deleteObject ['b'] ['k', '/', 'l'] ['y'])] :=
  not_agree_nameObject nestedManager 4 ['b'] ['k', '/', 'l'] ['x'] ['y'] _ nestedTree_labelsPlain
    nestedManager_agree rfl rfl

/-- The object `x` in `k/l` becomes `y` in the tree and stays `x` in the database. -/
theorem nested_object_keeps_name :
    nestedManager.state.LabelsPlain ∧
      Agree nestedManager.state nestedManager.localStorage ∧
      (nestedManager.state.getObject ['b'] ['k', '/', 'l'] ['x']).isSome ∧
      nestedManager.state.getObject ['b'] ['k', '/', 'l'] ['y'] = none ∧
      ∃ manager',
        nestedManager.Step (4, .nameObject ['b'] ['k', '/', 'l'] ['x'] ['y']) manager' ∧
        (manager'.state.getObject ['b'] ['k', '/', 'l'] ['y']).isSome ∧
        manager'.localStorage.docs = [{ nestedDocument with objectName := some ['y'] }] ∧
        ¬Agree manager'.state manager'.localStorage := by
  refine ⟨nestedTree_labelsPlain, nestedManager_agree, rfl, rfl, _, rfl, rfl, rfl, ?_⟩
  intro hagree
  obtain ⟨d, hd, -, -, hname⟩ := (hagree ['b'] ['k', '/', 'l'] ['y']).1
    ⟨[['k'], ['l']], .named ['y'], by decide, rfl, rfl⟩
  change d ∈ [{ nestedDocument with objectName := some ['y'] }] at hd
  rw [List.mem_singleton.1 hd] at hname
  exact absurd hname (by decide)

end WsHyper.Directory
