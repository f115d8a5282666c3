import WsHyper.Lib.AssocMap

/-!
# Walking and updating nested maps

A branching type holds, besides its own data, an optional map from labels to
values of the same type.  `descend` follows a list of labels; `borrow` is the
mutable form of the same walk: it gives the value reached and the function that
writes a new value back in its place.

`view` forgets the nesting: it maps every list of labels that leads somewhere to
the data found there.  The main lemma, `view_put`, says that a write through a
borrow changes the view below the borrowed place and nowhere else.
-/

namespace WsHyper.Lib

/-- A type whose values carry data and an optional map to further values. -/
structure Branching (κ δ τ : Type*) where
  /-- The map to the values below, if there is one. -/
  keys : τ → Option (AssocMap κ τ)
  /-- The value with another map. -/
  withKeys : τ → AssocMap κ τ → τ
  /-- The data of the value itself. -/
  data : τ → δ
  keys_withKeys : ∀ t map, keys (withKeys t map) = some map
  data_withKeys : ∀ t map, data (withKeys t map) = data t

namespace Branching

variable {κ δ τ : Type*} [BEq κ] (B : Branching κ δ τ)

def child (t : τ) (key : κ) : Option τ :=
  (B.keys t).bind fun map => map.lookup key

/-- The value that a list of labels leads to. -/
def descend (t : τ) : List κ → Option τ
  | [] => some t
  | key :: path => (B.child t key).bind fun t' => descend t' path

/-- The data at every list of labels that leads somewhere. -/
def view (t : τ) (path : List κ) : Option δ :=
  (B.descend t path).map B.data

@[simp] theorem descend_nil (t : τ) : B.descend t [] = some t := rfl

theorem descend_cons (t : τ) (key : κ) (path : List κ) :
    B.descend t (key :: path) = (B.child t key).bind fun t' => B.descend t' path := rfl

theorem descend_append (t : τ) (path path' : List κ) :
    B.descend t (path ++ path') = (B.descend t path).bind fun t' => B.descend t' path' := by
  induction path generalizing t with
  | nil => rfl
  | cons key path ih =>
      simp only [List.cons_append, descend_cons]
      cases B.child t key with
      | none => rfl
      | some t' => simpa using ih t'

@[simp] theorem descend_singleton (t : τ) (key : κ) :
    B.descend t [key] = B.child t key := by
  rw [descend_cons]
  cases B.child t key <;> rfl

@[simp] theorem view_nil (t : τ) : B.view t [] = some (B.data t) := rfl

theorem view_cons (t : τ) (key : κ) (path : List κ) :
    B.view t (key :: path) = (B.child t key).bind fun t' => B.view t' path := by
  rw [view, descend_cons]
  cases B.child t key <;> rfl

theorem view_append {t t' : τ} {path : List κ} (ht : B.descend t path = some t')
    (path' : List κ) : B.view t (path ++ path') = B.view t' path' := by
  simp [view, descend_append, ht]

theorem view_append_of_none {t : τ} {path : List κ} (ht : B.descend t path = none)
    (path' : List κ) : B.view t (path ++ path') = none := by
  simp [view, descend_append, ht]

theorem view_withKeys_cons (t : τ) (map : AssocMap κ τ) (key : κ) (path : List κ) :
    B.view (B.withKeys t map) (key :: path) =
      (map.lookup key).bind fun t' => B.view t' path := by
  simp [view_cons, child, B.keys_withKeys]

/-- `P` holds of the value and of every one below it. -/
def All (P : τ → Prop) (t : τ) : Prop := ∀ path t', B.descend t path = some t' → P t'

section All

variable {B} {P : τ → Prop} {t : τ}

theorem All.here (hall : B.All P t) : P t := hall [] t rfl

theorem All.child {t' : τ} {key : κ} (hall : B.All P t) (hchild : B.child t key = some t') :
    B.All P t' := by
  intro path u hdescend
  apply hall (key :: path) u
  rw [descend_cons, hchild, Option.bind_some, hdescend]

theorem all_of_children (hhere : P t)
    (hchildren : ∀ key t', B.child t key = some t' → B.All P t') : B.All P t := by
  intro path u hdescend
  cases path with
  | nil =>
      obtain rfl := Option.some.inj hdescend
      exact hhere
  | cons key path =>
      obtain ⟨t', hchild, hbelow⟩ := Option.bind_eq_some_iff.1 hdescend
      exact hchildren key t' hchild path u hbelow

end All

section Update

variable [LT κ] [DecidableLT κ]

/-- The value that a list of labels leads to, and how to write it back. -/
def borrow (t : τ) : List κ → Option (τ × (τ → τ))
  | [] => some (t, id)
  | key :: path =>
      (B.keys t).bind fun map =>
        (map.lookup key).bind fun t' =>
          (borrow t' path).map fun found =>
            (found.1, fun u => B.withKeys t (map.insert key (found.2 u)))

/-- The mutable walk reaches what the plain walk reaches. -/
theorem borrow_fst (t : τ) (path : List κ) :
    (B.borrow t path).map Prod.fst = B.descend t path := by
  induction path generalizing t with
  | nil => rfl
  | cons key path ih =>
      rw [borrow, descend_cons, child]
      cases B.keys t with
      | none => rfl
      | some map =>
          cases hlookup : map.lookup key with
          | none => simp [hlookup]
          | some t' => simpa [hlookup, Function.comp_def] using ih t'

theorem borrow_eq_none_iff {t : τ} {path : List κ} :
    B.borrow t path = none ↔ B.descend t path = none := by
  rw [← borrow_fst, Option.map_eq_none_iff]

theorem descend_of_borrow {t u : τ} {write : τ → τ} {path : List κ}
    (hborrow : B.borrow t path = some (u, write)) : B.descend t path = some u := by
  rw [← borrow_fst, hborrow]
  rfl

variable [LawfulBEq κ] [DecidableEq κ]

/-- A write through a borrow shows below the borrowed place, and only there. -/
theorem view_put {t u : τ} {write : τ → τ} {path : List κ}
    (hborrow : B.borrow t path = some (u, write)) (u' : τ) (place : List κ) :
    B.view (write u') place =
      if path <+: place then B.view u' (place.drop path.length)
      else B.view t place := by
  induction path generalizing t u write place with
  | nil =>
      obtain ⟨rfl, rfl⟩ : t = u ∧ id = write := by simpa [borrow] using hborrow
      simp
  | cons key path ih =>
      rw [borrow] at hborrow
      simp only [Option.bind_eq_some_iff, Option.map_eq_some_iff, Prod.mk.injEq,
        Prod.exists] at hborrow
      obtain ⟨map, hmap, t', hlookup, v, write', hborrow', rfl, rfl⟩ := hborrow
      cases place with
      | nil => simp [view, B.data_withKeys]
      | cons key' place =>
          rw [view_withKeys_cons, view_cons, child, hmap, AssocMap.lookup_insert]
          by_cases hkey : key = key'
          · subst hkey
            simp [hlookup, ih hborrow' place, List.cons_prefix_cons]
          · simp [hkey, List.cons_prefix_cons]

variable {δ' : Type*} (data' : τ → δ')

/-- So does it for other data that a write to the map leaves alone. -/
theorem map_descend_put {t u : τ} {write : τ → τ} {path : List κ}
    (hdata : ∀ t map, data' (B.withKeys t map) = data' t)
    (hborrow : B.borrow t path = some (u, write)) (u' : τ) (place : List κ) :
    (B.descend (write u') place).map data' =
      if path <+: place then (B.descend u' (place.drop path.length)).map data'
      else (B.descend t place).map data' := by
  let B' : Branching κ δ' τ := ⟨B.keys, B.withKeys, data', B.keys_withKeys, hdata⟩
  have hdescend : ∀ t path, B'.descend t path = B.descend t path := by
    intro t path
    induction path generalizing t with
    | nil => rfl
    | cons key path ih =>
        rw [descend_cons, descend_cons]
        exact congrArg _ (funext ih)
  have hborrow' : ∀ t path, B'.borrow t path = B.borrow t path := by
    intro t path
    induction path generalizing t with
    | nil => rfl
    | cons key path ih => simp only [borrow, ih, B']
  have hput := B'.view_put ((hborrow' t path).trans hborrow) u' place
  rwa [view, view, view, hdescend, hdescend, hdescend] at hput

theorem all_put {P : τ → Prop} {t u u' : τ} {write : τ → τ} {path : List κ}
    (hP : ∀ t map map', B.keys t = some map → P t → P (B.withKeys t map'))
    (hborrow : B.borrow t path = some (u, write)) (hall : B.All P t) (hwritten : B.All P u') :
    B.All P (write u') := by
  induction path generalizing t u write with
  | nil =>
      obtain ⟨rfl, rfl⟩ : t = u ∧ id = write := by simpa [borrow] using hborrow
      exact hwritten
  | cons key path ih =>
      rw [borrow] at hborrow
      simp only [Option.bind_eq_some_iff, Option.map_eq_some_iff, Prod.mk.injEq,
        Prod.exists] at hborrow
      obtain ⟨map, hmap, t', hlookup, v, write', hborrow', rfl, rfl⟩ := hborrow
      have hold : ∀ {key' t''}, map.lookup key' = some t'' → B.All P t'' := by
        intro key' t'' hlookup'
        have hchild : B.child t key' = some t'' := by
          rw [child, hmap, Option.bind_some, hlookup']
        exact hall.child hchild
      apply all_of_children (hP t map _ hmap hall.here)
      intro key' t'' hchild
      rw [child, B.keys_withKeys, Option.bind_some, AssocMap.lookup_insert] at hchild
      split_ifs at hchild with hkey
      · obtain rfl := Option.some.inj hchild
        exact ih hborrow' (hold hlookup)
      · exact hold hchild

end Update

/-! ## Optional values that are related -/

section Rel

variable {α β γ δ' : Type} {R : α → β → Prop} {a : Option α} {b : Option β}

theorem rel_bind {S : γ → δ' → Prop} {f : α → Option γ} {g : β → Option δ'}
    (hab : Option.Rel R a b) (hfg : ∀ x y, R x y → Option.Rel S (f x) (g y)) :
    Option.Rel S (a.bind f) (b.bind g) := by
  cases hab with
  | some hR => exact hfg _ _ hR
  | none => exact .none

theorem isSome_iff_of_rel (hab : Option.Rel R a b) : a.isSome ↔ b.isSome := by
  cases hab with
  | some hR => simp
  | none => simp

theorem exists_of_rel_some_left {x : α} (hab : Option.Rel R (some x) b) :
    ∃ y, b = some y ∧ R x y := by
  cases hab with
  | some hR => exact ⟨_, rfl, hR⟩

theorem exists_of_rel_some_right {y : β} (hab : Option.Rel R a (some y)) :
    ∃ x, a = some x ∧ R x y := by
  cases hab with
  | some hR => exact ⟨_, rfl, hR⟩

end Rel

end Branching

end WsHyper.Lib
