import WsHyper.Directory.BuildDatabase
import WsHyper.Directory.Places

/-!
# The brokers of entries

An entry of a tree that the service has built has a broker of its own, which goes with it:
where the changes take the entry, its broker is found, and nowhere else.
-/

namespace WsHyper.Directory

open WsHyper.Lib WsHyper.Lib.Text

namespace BucketMap

def HasBroker (broker : Broker) (content : Multiset Object × Broker) : Prop := content.2 = broker

def BrokersApart (m : BucketMap) : Prop :=
  ∀ broker place place', m.view.At (HasBroker broker) place →
    m.view.At (HasBroker broker) place' → place = place'

/-- The brokers that the changes may start are new ones. -/
def FreshFor (m : BucketMap) (changes : List (Broker × Change)) : Prop :=
  (changes.map Prod.fst).Nodup ∧
    ∀ c ∈ changes, ∀ place, ¬m.view.At (HasBroker c.1) place

def Takes : BucketMap × Place → Broker × Change → BucketMap × Place → Prop :=
  Carrying Step fun m c place => c.2.carryPlace m.view place

variable {m m₁ m' : BucketMap} {fresh broker : Broker} {change : Change} {place place' : Place}
  {c : Broker × Change} {changes later : List (Broker × Change)} {bucket : Bucket}

/-! ## One change -/

theorem at_hasBroker_of_object (hobject : change.OfObject) (hstep : m.Step (fresh, change) m') :
    m'.view.At (HasBroker broker) place ↔ m.view.At (HasBroker broker) place := by
  cases change with
  | newObject bucket key object =>
      obtain ⟨m'', hchange, hview⟩ := view_newObject m fresh bucket key object
      obtain rfl := Except.ok.inj (hchange.symm.trans hstep)
      rw [hview]
      exact FlatMap.at_update_map fun _ => Iff.rfl
  | nameObject bucket key fromName toName =>
      by_cases hpresent : ∃ o ∈ m.view.items bucket key.path, o.fileName = fromName
      · obtain ⟨m'', hchange, object, -, -, hview⟩ := view_nameObject m fresh hpresent toName
        obtain rfl := Except.ok.inj (hchange.symm.trans hstep)
        rw [hview]
        exact FlatMap.at_update_map fun _ => Iff.rfl
      · have hsame := view_nameObject_of_absent m fresh (by simpa using hpresent) toName
        rw [Except.ok.inj (hsame.symm.trans hstep)]
  | deleteObject bucket key fileName =>
      by_cases hpresent : ∃ o ∈ m.view.items bucket key.path, o.fileName = fileName
      · obtain ⟨m'', hchange, object, -, -, hview⟩ := view_deleteObject m fresh hpresent
        obtain rfl := Except.ok.inj (hchange.symm.trans hstep)
        rw [hview]
        exact FlatMap.at_update_map fun _ => Iff.rfl
      · have hsame := view_deleteObject_of_absent m fresh (by simpa using hpresent)
        rw [Except.ok.inj (hsame.symm.trans hstep)]
  | _ => exact absurd hobject id

/-- The broker of an entry came there with the entry, or was started for it. -/
theorem at_hasBroker_iff (hstep : m.Step (fresh, change) m') :
    m'.view.At (HasBroker broker) place' ↔
      m.Brings (HasBroker broker) change place' ∨
        change.Makes m.view place' ∧ fresh = broker := by
  by_cases hobject : change.OfObject
  · have hstill : m.Brings (HasBroker broker) change place' ↔
        m.view.At (HasBroker broker) place' := by
      refine brings_iff_of_still fun place _ => ?_
      cases change <;> first | rfl | exact absurd hobject id
    have hmakes : ¬change.Makes m.view place' := by
      cases change <;> first | exact id | exact absurd hobject id
    rw [hstill, or_iff_left fun h => hmakes h.1, at_hasBroker_of_object hobject hstep]
  · exact at_iff_of_step hobject hstep

theorem makes_unique (hmakes : change.Makes m.view place) (hmakes' : change.Makes m.view place') :
    place = place' := by
  cases change with
  | newBucket bucket => rw [hmakes.2, hmakes'.2]
  | newKey bucket key => rw [hmakes.2.2, hmakes'.2.2]
  | nameKey bucket fromKey toName => rw [hmakes.2.2.2, hmakes'.2.2.2]
  | _ => exact absurd hmakes id

theorem brokersApart_of_step (hapart : m.BrokersApart)
    (hnew : ∀ place, ¬m.view.At (HasBroker c.1) place) (hstep : m.Step c m') :
    m'.BrokersApart := by
  intro broker place place' hat hat'
  rw [at_hasBroker_iff hstep] at hat hat'
  rcases hat with ⟨first, hfirst, hplace⟩ | ⟨hmakes, rfl⟩
  · rcases hat' with ⟨second, hsecond, hplace'⟩ | ⟨-, rfl⟩
    · obtain rfl := hapart broker first second hfirst hsecond
      exact Option.some.inj (hplace.symm.trans hplace')
    · exact absurd hfirst (hnew first)
  · rcases hat' with ⟨second, hsecond, -⟩ | ⟨hmakes', -⟩
    · exact absurd hsecond (hnew second)
    · exact makes_unique hmakes hmakes'

theorem freshFor_of_step (hfresh : m.FreshFor (c :: changes)) (hstep : m.Step c m') :
    m'.FreshFor changes := by
  obtain ⟨hnodup, hnew⟩ := hfresh
  rw [List.map_cons, List.nodup_cons] at hnodup
  refine ⟨hnodup.2, fun later hlater place hat => ?_⟩
  rw [at_hasBroker_iff hstep] at hat
  rcases hat with ⟨first, hfirst, -⟩ | ⟨-, hsame⟩
  · exact hnew later (List.mem_cons_of_mem c hlater) first hfirst
  · refine hnodup.1 ?_
    rw [hsame]
    exact List.mem_map_of_mem hlater

/-! ## The tree at the start -/

section Built

variable {sys : System} {path : Path}

def BrokersFrom (sys : System) (path : Path) (entry : KeyEntry) : Prop :=
  ∀ keys content, branching.view entry keys = some content →
    content.2 = sys.broker (path ++ keys.map OsStr.ofStr)

theorem brokersFrom_of_closeEntry {files : List (Name × FileInfo)}
    {keys : AssocMap Segment KeyEntry} {sync sync' : Sync} {entry : KeyEntry}
    (hclose : closeEntry sys bucket path files keys sync = .ok (entry, sync'))
    (hkeys : ∀ segment child, keys.lookup segment = some child →
      BrokersFrom sys (path.join (.ofStr segment)) child) : BrokersFrom sys path entry := by
  obtain ⟨key, -, hrest⟩ := bind_eq_ok hclose
  obtain ⟨⟨objects, sync''⟩, -, hentry⟩ := bind_eq_ok hrest
  obtain ⟨rfl, -⟩ := Prod.mk.inj (Except.ok.inj hentry)
  intro place content hcontent
  cases place with
  | nil =>
      rw [Branching.view_nil, Option.some.injEq] at hcontent
      rw [← hcontent, List.map_nil, List.append_nil]
      rfl
  | cons segment place =>
      rw [Branching.view_cons, Option.bind_eq_some_iff] at hcontent
      obtain ⟨child, hchild, hcontent⟩ := hcontent
      have hlookup : keys.lookup segment = some child := by
        simp only [Branching.child, branching] at hchild
        split_ifs at hchild with hempty
        · cases hchild
        · exact hchild
      rw [hkeys segment child hlookup place content hcontent]
      simp [Path.join]

theorem brokersFrom_of_visit {recurse : Path → Dir → Sync → Except Panic (KeyEntry × Dir × Sync)}
    (hrecurse : ∀ path dir sync result, recurse path dir sync = .ok result →
      BrokersFrom sys path result.1) (walk : Walk) (name : Name) (walk' : Walk)
    (hkeys : ∀ segment child, walk.keys.lookup segment = some child →
      BrokersFrom sys (path.join (.ofStr segment)) child)
    (hvisit : visit sys recurse path walk name = .ok walk') :
    ∀ segment child, walk'.keys.lookup segment = some child →
      BrokersFrom sys (path.join (.ofStr segment)) child := by
  obtain ⟨found, -, hround⟩ := bind_eq_ok hvisit
  cases found with
  | none =>
      obtain rfl := Except.ok.inj hround
      exact hkeys
  | some found =>
      obtain ⟨dir, fileName⟩ := found
      dsimp only at hround
      cases hsub : dir.subdir fileName with
      | none =>
          rw [hsub] at hround
          obtain rfl := Except.ok.inj hround
          exact hkeys
      | some sub =>
          rw [hsub] at hround
          obtain ⟨⟨entry, sub', sync⟩, hentry, hwalk⟩ := bind_eq_ok hround
          obtain rfl := Except.ok.inj hwalk
          intro segment child hchild
          rw [AssocMap.lookup_insert] at hchild
          split_ifs at hchild with hname
          · obtain rfl := Option.some.inj hchild
            rw [← hname]
            exact hrecurse _ _ _ _ hentry
          · exact hkeys segment child hchild

theorem brokersFrom_of_buildKeyEntry {fuel : Nat} (path : Path) (dir : Dir) (sync : Sync)
    (result : KeyEntry × Dir × Sync)
    (hbuild : buildKeyEntry sys bucket fuel path dir sync = .ok result) :
    BrokersFrom sys path result.1 := by
  induction fuel generalizing path dir sync result with
  | zero => cases hbuild
  | succ fuel ih =>
      obtain ⟨walk, hwalk, hrest⟩ := bind_eq_ok hbuild
      obtain ⟨⟨entry, sync'⟩, hclose, hresult⟩ := bind_eq_ok hrest
      obtain rfl := Except.ok.inj hresult
      refine brokersFrom_of_closeEntry hclose ?_
      exact foldlM_keeps (brokersFrom_of_visit ih) (by simp) hwalk

theorem names_of_listBucket {names : List Name} {buckets buckets' : List (Bucket × Name)}
    {dir disk : Dir}
    (hlist : names.foldlM (listBucket sys path) (buckets, dir) = .ok (buckets', disk)) :
    buckets'.map Prod.snd = buckets.map Prod.snd ++ names := by
  induction names generalizing buckets dir with
  | nil =>
      obtain ⟨rfl, -⟩ := Prod.mk.inj (Except.ok.inj hlist)
      rw [List.append_nil]
  | cons name names ih =>
      rw [List.foldlM_cons] at hlist
      obtain ⟨⟨buckets₁, dir₁⟩, hround, hrest⟩ := bind_eq_ok hlist
      obtain ⟨b, rfl, -⟩ := listBucket_eq_ok hround
      rw [ih hrest]
      simp

theorem exists_listed_of_buildBucket {fuel : Nat} {buckets listed : List (Bucket × Name)}
    {inner inner' : AssocMap Bucket KeyEntry} {dir dir' : Dir} {sync sync' : Sync}
    (hsubset : ∀ bucket ∈ buckets, bucket ∈ listed)
    (hinner : ∀ b entry, inner.lookup b = some entry →
      ∃ name, (b, name) ∈ listed ∧ BrokersFrom sys (path.join (.ofStr name.text)) entry)
    (hloop : buckets.foldlM (buildBucket sys path fuel) (inner, dir, sync) =
      .ok (inner', dir', sync')) :
    ∀ b entry, inner'.lookup b = some entry →
      ∃ name, (b, name) ∈ listed ∧ BrokersFrom sys (path.join (.ofStr name.text)) entry := by
  induction buckets generalizing inner dir sync with
  | nil =>
      obtain ⟨rfl, -⟩ := Prod.mk.inj (Except.ok.inj hloop)
      exact hinner
  | cons bucket buckets ih =>
      obtain ⟨hlisted, hrest⟩ := List.forall_mem_cons.1 hsubset
      rw [List.foldlM_cons] at hloop
      obtain ⟨⟨inner₁, dir₁, sync₁⟩, hround, hlater⟩ := bind_eq_ok hloop
      refine ih hrest ?_ hlater
      simp only [buildBucket] at hround
      split at hround
      · cases hround
      · obtain ⟨⟨entry, sub, sync₂⟩, hentry, hresult⟩ := bind_eq_ok hround
        obtain ⟨rfl, -⟩ := Prod.mk.inj (Except.ok.inj hresult)
        intro b entry' hlookup
        rw [AssocMap.lookup_insert] at hlookup
        split_ifs at hlookup with hname
        · obtain rfl := Option.some.inj hlookup
          subst hname
          exact ⟨bucket.2, hlisted, brokersFrom_of_buildKeyEntry _ _ _ _ hentry⟩
        · exact hinner b entry' hlookup

/-- The entries of a tree that is built have brokers of their own. -/
theorem brokersApart_of_build {start : BucketMap} {dir disk : Dir} {ls ls' : Collection}
    (hinj : Function.Injective sys.broker) (hnodup : (dir.map Prod.fst).Nodup)
    (hbuild : start.build sys dir ls = .ok (m, disk, ls')) : m.BrokersApart := by
  obtain ⟨⟨buckets, listed⟩, hlist, hrest⟩ := bind_eq_ok hbuild
  obtain ⟨⟨inner, built, sync⟩, hloop, hresult⟩ := bind_eq_ok hrest
  obtain ⟨rfl, -⟩ := Prod.mk.inj (Except.ok.inj hresult)
  have hlisted := exists_listed_of_buildBucket (fun _ h => h) (by simp) hloop
  have hnames : (buckets.map Prod.snd).Nodup := by
    rw [names_of_listBucket hlist]
    simpa using hnodup
  rintro broker ⟨b, keys⟩ ⟨b', keys'⟩ ⟨content, hcontent, hbroker⟩ ⟨content', hcontent', hbroker'⟩
  simp only [view, Option.bind_eq_some_iff] at hcontent hcontent'
  obtain ⟨entry, hentry, hcontent⟩ := hcontent
  obtain ⟨entry', hentry', hcontent'⟩ := hcontent'
  obtain ⟨name, hmem, hfrom⟩ := hlisted b entry hentry
  obtain ⟨name', hmem', hfrom'⟩ := hlisted b' entry' hentry'
  have hpaths := hinj ((hfrom keys content hcontent).symm.trans
    ((hbroker.trans hbroker'.symm).trans (hfrom' keys' content' hcontent')))
  simp only [Path.join, List.append_assoc, List.append_cancel_left_eq, List.singleton_append,
    List.cons.injEq] at hpaths
  obtain ⟨hname, hkeys⟩ := hpaths
  obtain rfl := Name.ext (OsStr.ofStr_injective hname)
  have hsame := List.inj_on_of_nodup_map hnames hmem hmem' rfl
  rw [(Prod.mk.inj hsame).1, List.map_injective_iff.2 OsStr.ofStr_injective hkeys]

end Built

/-! ## Runs of changes -/

theorem nowhere_of_run (hrun : Run Step m changes m') (hother : ∀ c ∈ changes, c.1 ≠ broker)
    (hnowhere : ∀ place, ¬m.view.At (HasBroker broker) place) :
    ∀ place, ¬m'.view.At (HasBroker broker) place := by
  induction hrun with
  | nil m => exact hnowhere
  | cons hstep hrun ih =>
      obtain ⟨hfirst, hlater⟩ := List.forall_mem_cons.1 hother
      refine ih hlater fun place hat => ?_
      rw [at_hasBroker_iff hstep] at hat
      rcases hat with ⟨first, hat, -⟩ | ⟨-, hsame⟩
      · exact hnowhere first hat
      · exact hfirst hsame

theorem at_hasBroker_iff_of_run (hrun : Run Step m changes m') (hapart : m.BrokersApart)
    (hfresh : m.FreshFor changes) (hat : m.view.At (HasBroker broker) place) :
    m'.view.At (HasBroker broker) place' ↔ Run Takes (m, place) changes (m', place') := by
  induction hrun generalizing place with
  | nil m =>
      rw [run_nil_iff, Prod.mk.injEq, eq_self, true_and]
      constructor
      · exact hapart broker place place' hat
      · rintro rfl
        exact hat
  | @cons m m₁ m' c changes hstep hrun ih =>
      have hnew := hfresh.2 c List.mem_cons_self
      have hother : ∀ later ∈ c :: changes, later.1 ≠ broker := by
        rintro later hlater rfl
        exact hfresh.2 later hlater place hat
      rw [Takes, run_carrying_cons_iff step_deterministic hstep, ← Takes]
      cases hcarry : c.2.carryPlace m.view place with
      | some place₁ =>
          have hat₁ : m₁.view.At (HasBroker broker) place₁ :=
            (at_hasBroker_iff hstep).2 (.inl ⟨place, hat, hcarry⟩)
          rw [ih (brokersApart_of_step hapart hnew hstep) (freshFor_of_step hfresh hstep) hat₁]
          simp
      | none =>
          have hnowhere : ∀ place', ¬m₁.view.At (HasBroker broker) place' := by
            intro place' hat'
            rw [at_hasBroker_iff hstep] at hat'
            rcases hat' with ⟨first, hfirst, hplace⟩ | ⟨-, hsame⟩
            · obtain rfl := hapart broker first place hfirst hat
              rw [hcarry] at hplace
              cases hplace
            · exact hother c List.mem_cons_self hsame
          have hlater := fun later hmem => hother later (List.mem_cons_of_mem c hmem)
          simp [nowhere_of_run hrun hlater hnowhere place']

theorem brokersApart_of_run (hrun : Run Step m changes m') (hapart : m.BrokersApart)
    (hfresh : m.FreshFor (changes ++ later)) : m'.BrokersApart ∧ m'.FreshFor later := by
  induction hrun with
  | nil m => exact ⟨hapart, hfresh⟩
  | cons hstep hrun ih =>
      exact ih (brokersApart_of_step hapart (hfresh.2 _ List.mem_cons_self) hstep)
        (freshFor_of_step hfresh hstep)

/-- The broker that an entry has after some changes is found after others exactly where these
took the entry. -/
theorem broker_goes_with_entry {sys : System} {start built : BucketMap} {dir disk : Dir}
    {ls ls' : Collection} (hinj : Function.Injective sys.broker)
    (hnodup : (dir.map Prod.fst).Nodup) (hbuild : start.build sys dir ls = .ok (built, disk, ls'))
    (hfresh : built.FreshFor (changes ++ later)) (hbefore : Run Step built changes m)
    (hrun : Run Step m later m') (hat : m.view.At (HasBroker broker) place) :
    m'.BrokersApart ∧
      (m'.view.At (HasBroker broker) place' ↔ Run Takes (m, place) later (m', place')) := by
  obtain ⟨hapart, hlater⟩ :=
    brokersApart_of_run hbefore (brokersApart_of_build hinj hnodup hbuild) hfresh
  refine ⟨?_, at_hasBroker_iff_of_run hrun hapart hlater hat⟩
  rw [← List.append_nil later] at hlater
  exact (brokersApart_of_run hrun hapart hlater).1

end BucketMap

end WsHyper.Directory
