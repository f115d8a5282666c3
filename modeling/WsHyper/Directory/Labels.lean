import WsHyper.Directory.Agreement
import WsHyper.Directory.BuildMirror
import WsHyper.Directory.ChangeRuns

/-!
# Labels of the tree

The build takes the labels of the tree from the names on disk, so each is one that
a directory entry can have; a change brings in the last segment of a key or the
new name of one, and a last segment is cut out behind the last `/`.  So the keys of
the database can be read back as places of every tree that the system comes to.
-/

namespace WsHyper.Directory

open WsHyper.Lib WsHyper.Lib.Text

def Change.NameSlashFree : Change → Prop
  | .nameKey _ _ toName => '/' ∉ toName
  | _ => True

def Change.NewLabelIn (P : Segment → Prop) : Change → Prop
  | .newKey _ key => P key.parentLeaf.2
  | .nameKey _ _ toName => P toName
  | _ => True

theorem Key.slash_not_mem_leaf (key : Key) : '/' ∉ key.parentLeaf.2 := by
  rw [Key.parentLeaf]
  cases hsplit : rsplitOnce '/' key with
  | none => exact rsplitOnce_eq_none_iff.1 hsplit
  | some parts => exact not_mem_of_rsplitOnce hsplit

namespace BucketMap

theorem labelsSlashFree_new (path : Path) (broker : Broker) :
    (new path broker).LabelsSlashFree := by
  intro bucket place hsome
  cases hsome

/-! ## After the build -/

section Build

variable {sys : System} {bucket : Bucket}

def EntryLabelsIn (P : Segment → Prop) (entry : KeyEntry) : Prop :=
  ∀ path, (branching.descend entry path).isSome → ∀ s ∈ path, P s

def KeysLabelsIn (P : Segment → Prop) (keys : AssocMap Segment KeyEntry) : Prop :=
  ∀ segment entry, keys.lookup segment = some entry → P segment ∧ EntryLabelsIn P entry

variable {P : Segment → Prop}

theorem keysLabelsIn_insert {keys : AssocMap Segment KeyEntry} (hkeys : KeysLabelsIn P keys)
    {segment : Segment} (hsegment : P segment) {entry : KeyEntry}
    (hentry : EntryLabelsIn P entry) : KeysLabelsIn P (keys.insert segment entry) := by
  intro s e hlookup
  rw [AssocMap.lookup_insert] at hlookup
  split_ifs at hlookup with hs
  · obtain rfl := Option.some.inj hlookup
    exact ⟨hs ▸ hsegment, hentry⟩
  · exact hkeys s e hlookup

theorem entryLabelsIn_of_keys {keys : AssocMap Segment KeyEntry} (hkeys : KeysLabelsIn P keys)
    {entry : KeyEntry}
    (hchild : ∀ segment, branching.child entry segment = keys.lookup segment) :
    EntryLabelsIn P entry := by
  intro path hsome
  cases path with
  | nil => simp
  | cons segment path =>
      rw [Branching.descend_cons, hchild] at hsome
      cases hlookup : keys.lookup segment with
      | none => simp [hlookup] at hsome
      | some e =>
          rw [hlookup, Option.bind_some] at hsome
          obtain ⟨hsegment, he⟩ := hkeys segment e hlookup
          exact List.forall_mem_cons.2 ⟨hsegment, he path hsome⟩

theorem keysLabelsIn_visit (hP : ∀ name : Name, P name.text)
    {recurse : Path → Dir → Sync → Except Panic (KeyEntry × Dir × Sync)}
    (hrecurse : ∀ path dir sync result, recurse path dir sync = .ok result →
      EntryLabelsIn P result.1)
    {path : Path} {walk walk' : Walk} {name : Name} (hkeys : KeysLabelsIn P walk.keys)
    (hvisit : visit sys recurse path walk name = .ok walk') : KeysLabelsIn P walk'.keys := by
  obtain ⟨found, -, hrest⟩ := bind_eq_ok hvisit
  cases found with
  | none =>
      obtain rfl := Except.ok.inj hrest
      exact hkeys
  | some renamed =>
      obtain ⟨dir, fileName⟩ := renamed
      simp only at hrest
      cases hsub : dir.subdir fileName with
      | none =>
          rw [hsub] at hrest
          obtain rfl := Except.ok.inj hrest
          exact hkeys
      | some sub =>
          rw [hsub] at hrest
          obtain ⟨result, hresult, heq⟩ := bind_eq_ok hrest
          obtain rfl := Except.ok.inj heq
          exact keysLabelsIn_insert hkeys (hP fileName) (hrecurse _ _ _ _ hresult)

theorem entryLabelsIn_of_buildKeyEntry (hP : ∀ name : Name, P name.text) {fuel : Nat}
    {path : Path} {dir : Dir} {sync : Sync} {result : KeyEntry × Dir × Sync}
    (hbuild : buildKeyEntry sys bucket fuel path dir sync = .ok result) :
    EntryLabelsIn P result.1 := by
  induction fuel generalizing path dir sync result with
  | zero => cases hbuild
  | succ fuel ih =>
      rw [buildKeyEntry] at hbuild
      obtain ⟨walk, hwalk, hrest⟩ := bind_eq_ok hbuild
      obtain ⟨⟨entry, sync'⟩, hclose, heq⟩ := bind_eq_ok hrest
      obtain rfl := Except.ok.inj heq
      refine entryLabelsIn_of_keys ?_ (closeEntry_eq_ok hclose).2
      refine foldlM_keeps (I := fun walk : Walk => KeysLabelsIn P walk.keys) ?_ ?_ hwalk
      · intro walk name walk' hkeys hvisit
        exact keysLabelsIn_visit hP (fun _ _ _ _ h => ih h) hkeys hvisit
      · intro segment e hlookup
        cases hlookup

/-- The labels that a build leaves are names on disk. -/
theorem labelsIn_of_build (hP : ∀ name : Name, P name.text) {m m' : BucketMap} {dir disk : Dir}
    {ls ls' : Collection} (hbuild : m.build sys dir ls = .ok (m', disk, ls')) :
    m'.view.LabelsIn P := by
  obtain ⟨listed, -, hrest⟩ := bind_eq_ok hbuild
  obtain ⟨⟨inner, built, sync⟩, hloop, heq⟩ := bind_eq_ok hrest
  cases heq
  have hentries : ∀ bucket entry, inner.lookup bucket = some entry → EntryLabelsIn P entry := by
    refine foldlM_keeps (I := fun acc : AssocMap Bucket KeyEntry × Dir × Sync =>
      ∀ bucket entry, acc.1.lookup bucket = some entry → EntryLabelsIn P entry) ?_ ?_ hloop
    · intro acc named acc' hacc hround
      rw [buildBucket] at hround
      cases hsub : acc.2.1.subdir named.2 with
      | none =>
          simp only [hsub] at hround
          cases hround
      | some sub =>
          simp only [hsub] at hround
          obtain ⟨⟨entry, sub', sync'⟩, hentry, heq⟩ := bind_eq_ok hround
          obtain rfl := Except.ok.inj heq
          intro bucket e hlookup
          rw [AssocMap.lookup_insert] at hlookup
          split_ifs at hlookup
          · obtain rfl := Option.some.inj hlookup
            exact entryLabelsIn_of_buildKeyEntry hP hentry
          · exact hacc bucket e hlookup
    · intro bucket entry hlookup
      cases hlookup
  intro bucket path hsome
  rw [view_eq_map_entryAt, Option.isSome_map, entryAt] at hsome
  cases hlookup : inner.lookup bucket with
  | none => simp [hlookup] at hsome
  | some entry =>
      simp only [hlookup, Option.bind_some] at hsome
      exact hentries bucket entry hlookup path hsome

theorem labelsPlain_of_build {m m' : BucketMap} {dir disk : Dir} {ls ls' : Collection}
    (hbuild : m.build sys dir ls = .ok (m', disk, ls')) : m'.LabelsPlain :=
  labelsIn_of_build (fun name => IsName.isSegment name.isName) hbuild

theorem labelsSlashFree_of_build {m m' : BucketMap} {dir disk : Dir} {ls ls' : Collection}
    (hbuild : m.build sys dir ls = .ok (m', disk, ls')) : m'.LabelsSlashFree :=
  (labelsPlain_of_build hbuild).slashFree

end Build

/-! ## Along a run of changes -/

variable {m m' : BucketMap}

theorem labelsIn_addPlace {P : Segment → Prop} {bucket : Bucket} {path : List Segment}
    {leaf : Segment} {fresh : Broker} (hlabels : m.view.LabelsIn P)
    (hpath : (m.view bucket path).isSome) (hleaf : P leaf) :
    (m.view.addPlace bucket (path ++ [leaf]) fresh).LabelsIn P := by
  apply FlatMap.LabelsIn.addPlace _ hlabels
  rw [List.forall_mem_append, List.forall_mem_singleton]
  exact ⟨hlabels bucket path hpath, hleaf⟩

/-- The labels of a tree are its old ones and those that the change brings in. -/
theorem labelsIn_step {P : Segment → Prop} {c : Broker × Change} (hlabels : m.view.LabelsIn P)
    (hname : c.2.NewLabelIn P) (hstep : m.Step c m') : m'.view.LabelsIn P := by
  obtain ⟨fresh, c⟩ := c
  have hresult : ∀ {V : View}, V.LabelsIn P → m'.view = V → m'.view.LabelsIn P := by
    rintro V hV rfl
    exact hV
  -- a change that always goes through
  have hdone : ∀ {V : View}, V.LabelsIn P →
      (∃ m'', m.change fresh c = .ok m'' ∧ m''.view = V) → m'.view.LabelsIn P := by
    rintro V hV ⟨m'', hchange, hview⟩
    rw [← Except.ok.inj (hstep.symm.trans hchange)] at hview
    exact hresult hV hview
  have hstays : m.change fresh c = .ok m → m'.view.LabelsIn P :=
    fun hchange => hdone hlabels ⟨m, hchange, rfl⟩
  cases c with
  | newObject bucket key object =>
      exact hdone (.update_map hlabels _) (view_newObject m fresh bucket key object)
  | newKey bucket key =>
      rcases view_of_newKey hstep with hview | ⟨hparent, hview⟩
      · exact hresult hlabels hview
      · exact hresult (labelsIn_addPlace hlabels hparent hname) hview
  | newBucket bucket =>
      exact hdone (.addPlace _ hlabels (by simp)) (view_newBucket m fresh bucket)
  | nameObject bucket key fromName toName =>
      by_cases hpresent : ∃ o ∈ m.view.items bucket key.path, o.fileName = fromName
      · obtain ⟨m'', hchange, o, -, -, hview⟩ := view_nameObject m fresh hpresent toName
        exact hdone (.update_map hlabels _) ⟨m'', hchange, hview⟩
      · exact hstays (view_nameObject_of_absent m fresh
          (fun o ho hname => hpresent ⟨o, ho, hname⟩) toName)
  | nameBucket fromName toName =>
      rcases view_of_nameBucket hstep with hview | hview
      · exact hresult hlabels hview
      · exact hresult (.moveRoot hlabels toName) hview
  | nameKey bucket fromKey toName =>
      rcases view_of_nameKey hstep with hview | ⟨hparent, hview | hview⟩
      · exact hresult hlabels hview
      · exact hresult (labelsIn_addPlace hlabels hparent hname) hview
      · exact hresult (.movePath _ hlabels hname) hview
  | deleteObject bucket key fileName =>
      by_cases hpresent : ∃ o ∈ m.view.items bucket key.path, o.fileName = fileName
      · obtain ⟨m'', hchange, o, -, -, hview⟩ := view_deleteObject m fresh hpresent
        exact hdone (.update_map hlabels _) ⟨m'', hchange, hview⟩
      · exact hstays (view_deleteObject_of_absent m fresh
          fun o ho hname => hpresent ⟨o, ho, hname⟩)
  | deleteKey bucket key =>
      rcases view_of_deleteKey hstep with hview | hview
      · exact hresult hlabels hview
      · exact hresult (.drop hlabels) hview
  | deleteBucket bucket =>
      exact hdone (.drop hlabels) (view_deleteBucket m fresh bucket)

theorem labelsSlashFree_step {c : Broker × Change} (hlabels : m.LabelsSlashFree)
    (hname : c.2.NameSlashFree) (hstep : m.Step c m') : m'.LabelsSlashFree := by
  apply labelsIn_step hlabels _ hstep
  obtain ⟨fresh, c⟩ := c
  cases c with
  | newKey bucket key => exact key.slash_not_mem_leaf
  | nameKey bucket fromKey toName => exact hname
  | _ => trivial

theorem labelsPlain_run {changes : List (Broker × Change)} (hlabels : m.LabelsPlain)
    (hnames : ∀ c ∈ changes, c.2.NewLabelIn IsSegment) :
    EachState Step LabelsPlain m changes := by
  have hsteps : EachStep Step (fun _ c => c.2.NewLabelIn IsSegment) m changes :=
    eachStep_of_forall_mem fun c hc _ => hnames c hc
  apply eachState_of_eachStep _ hlabels hsteps
  intro m c m' hlabels hname hstep
  exact labelsIn_step hlabels hname hstep

/-- Along a run no label ever contains `/`. -/
theorem labelsSlashFree_run {changes : List (Broker × Change)} (hlabels : m.LabelsSlashFree)
    (hnames : ∀ c ∈ changes, c.2.NameSlashFree) :
    EachState Step LabelsSlashFree m changes := by
  have hsteps : EachStep Step (fun _ c => c.2.NameSlashFree) m changes :=
    eachStep_of_forall_mem fun c hc _ => hnames c hc
  apply eachState_of_eachStep _ hlabels hsteps
  intro m c m' hlabels hname hstep
  exact labelsSlashFree_step hlabels hname hstep

end BucketMap

end WsHyper.Directory
