import Mathlib.Data.Multiset.MapFold
import Mathlib.Data.List.Infix

/-!
# Flat stores

What the nested tree is for: every place, a root label and a path below it,
holds a multiset of items and a tag, or nothing.  The operations are stated
place by place.  Labels, items and tags are arbitrary types.
-/

namespace WsHyper.Directory

/-- Items and a tag at some of the places `(root, path)`. -/
abbrev FlatMap (β κ ω ρ : Type*) := β → List κ → Option (Multiset ω × ρ)

namespace FlatMap

variable {β κ ω ρ : Type*} [DecidableEq β] [DecidableEq κ] [DecidableEq ω]

def update (V : FlatMap β κ ω ρ) (b : β) (p : List κ) (content : Option (Multiset ω × ρ)) :
    FlatMap β κ ω ρ :=
  fun b' q => if b = b' ∧ p = q then content else V b' q

def addItem (V : FlatMap β κ ω ρ) (b : β) (p : List κ) (item : ω) : FlatMap β κ ω ρ :=
  V.update b p ((V b p).map fun content => (item ::ₘ content.1, content.2))

def eraseItem (V : FlatMap β κ ω ρ) (b : β) (p : List κ) (item : ω) : FlatMap β κ ω ρ :=
  V.update b p ((V b p).map fun content => (content.1.erase item, content.2))

def replaceItem (V : FlatMap β κ ω ρ) (b : β) (p : List κ) (item item' : ω) :
    FlatMap β κ ω ρ :=
  V.update b p ((V b p).map fun content => (item' ::ₘ content.1.erase item, content.2))

/-- A place without items and with the tag `tag`, where there was none. -/
def addPlace (V : FlatMap β κ ω ρ) (b : β) (p : List κ) (tag : ρ) : FlatMap β κ ω ρ :=
  V.update b p (some ((V b p).getD (0, tag)))

/-- All places below `p ++ [s]` move below `p ++ [s']`. -/
def movePath (V : FlatMap β κ ω ρ) (b : β) (p : List κ) (s s' : κ) : FlatMap β κ ω ρ :=
  fun b' q =>
    if b = b' then
      if p ++ [s'] <+: q then V b (p ++ s :: q.drop (p.length + 1))
      else if p ++ [s] <+: q then none
      else V b q
    else V b' q

def moveRoot (V : FlatMap β κ ω ρ) (b c : β) : FlatMap β κ ω ρ :=
  fun b' q => if c = b' then V b q else if b = b' then none else V b' q

def drop (V : FlatMap β κ ω ρ) (b : β) (p : List κ) : FlatMap β κ ω ρ :=
  fun b' q => if b = b' ∧ p <+: q then none else V b' q

def items (V : FlatMap β κ ω ρ) (b : β) (p : List κ) : Multiset ω :=
  ((V b p).map Prod.fst).getD 0

/-! ## Reading the operations place by place -/

omit [DecidableEq ω]

theorem update_eq_self {V : FlatMap β κ ω ρ} {b : β} {p : List κ}
    {content : Option (Multiset ω × ρ)} (hcontent : V b p = content) :
    V.update b p content = V := by
  funext b' q
  rw [update]
  split_ifs with hplace
  · obtain ⟨rfl, rfl⟩ := hplace
    exact hcontent.symm
  · rfl

omit [DecidableEq β] [DecidableEq κ] in
/-- Two stores agree if they do outside the places below `p`, at `p`, and below. -/
theorem ext_below {V W : FlatMap β κ ω ρ} (b : β) (p : List κ)
    (houtside : ∀ b' q, ¬(b = b' ∧ p <+: q) → V b' q = W b' q)
    (hself : V b p = W b p)
    (hbelow : ∀ s rest, V b (p ++ s :: rest) = W b (p ++ s :: rest)) : V = W := by
  funext b' q
  by_cases hplace : b = b' ∧ p <+: q
  · obtain ⟨rfl, rest, rfl⟩ := hplace
    cases rest with
    | nil => simpa using hself
    | cons s rest => exact hbelow s rest
  · exact houtside b' q hplace

omit [DecidableEq β] [DecidableEq κ] in
theorem not_below_of_not_below {b b' : β} {p q : List κ} (hplace : ¬(b = b' ∧ p <+: q))
    (s : κ) : ¬(b = b' ∧ p ++ [s] <+: q) :=
  fun h => hplace ⟨h.1, (List.prefix_append _ _).trans h.2⟩

omit [DecidableEq β] [DecidableEq κ] in
theorem append_singleton_not_isPrefix (p : List κ) (s : κ) : ¬p ++ [s] <+: p := by
  intro h
  have := h.length_le
  simp only [List.length_append, List.length_singleton] at this
  omega

variable (V : FlatMap β κ ω ρ) (b : β) (p : List κ) (s s' t : κ) (rest : List κ) (tag : ρ)

theorem addPlace_outside {b' : β} {q : List κ} (hplace : ¬(b = b' ∧ p <+: q)) :
    V.addPlace b (p ++ [s]) tag b' q = V b' q := by
  rw [addPlace, update, if_neg]
  rintro ⟨rfl, rfl⟩
  exact hplace ⟨rfl, List.prefix_append _ _⟩

@[simp] theorem addPlace_at : V.addPlace b p tag b p = some ((V b p).getD (0, tag)) := by
  simp [addPlace, update]

@[simp] theorem addPlace_self : V.addPlace b (p ++ [s]) tag b p = V b p := by
  simp [addPlace, update]

theorem addPlace_below :
    V.addPlace b (p ++ [s]) tag b (p ++ t :: rest) =
      if s = t ∧ rest = [] then some ((V b (p ++ [s])).getD (0, tag))
      else V b (p ++ t :: rest) := by
  have hiff : p ++ [s] = p ++ t :: rest ↔ s = t ∧ rest = [] := by
    simp [eq_comm]
  simp [addPlace, update, hiff]

theorem drop_outside {b' : β} {q : List κ} (hplace : ¬(b = b' ∧ p <+: q)) :
    V.drop b (p ++ [s]) b' q = V b' q := by
  rw [drop, if_neg (not_below_of_not_below hplace s)]

@[simp] theorem drop_self : V.drop b (p ++ [s]) b p = V b p := by
  simp [drop, append_singleton_not_isPrefix]

theorem drop_below :
    V.drop b (p ++ [s]) b (p ++ t :: rest) =
      if s = t then none else V b (p ++ t :: rest) := by
  simp [drop, List.prefix_append_right_inj, List.cons_prefix_cons]

theorem movePath_outside {b' : β} {q : List κ} (hplace : ¬(b = b' ∧ p <+: q)) :
    V.movePath b p s s' b' q = V b' q := by
  by_cases hb : b = b'
  · subst hb
    have hnot : ∀ x, ¬p ++ [x] <+: q :=
      fun x hx => not_below_of_not_below hplace x ⟨rfl, hx⟩
    simp [movePath, hnot]
  · simp [movePath, hb]

@[simp] theorem movePath_self : V.movePath b p s s' b p = V b p := by
  simp [movePath, append_singleton_not_isPrefix]

theorem movePath_below :
    V.movePath b p s s' b (p ++ t :: rest) =
      if s' = t then V b (p ++ s :: rest)
      else if s = t then none
      else V b (p ++ t :: rest) := by
  have hdrop : (p ++ t :: rest).drop (p.length + 1) = rest := by
    rw [List.drop_append]
    simp
  simp [movePath, List.prefix_append_right_inj, List.cons_prefix_cons, hdrop]

/-! ## Labels of the places -/

def LabelsIn (P : κ → Prop) (V : FlatMap β κ ω ρ) : Prop :=
  ∀ b p, (V b p).isSome → ∀ s ∈ p, P s

section Labels

variable {V} {P : κ → Prop} {b p s'}

theorem LabelsIn.update (hV : V.LabelsIn P) {content : Option (Multiset ω × ρ)}
    (hp : content.isSome → ∀ s ∈ p, P s) : (V.update b p content).LabelsIn P := by
  intro b' q hsome
  rw [FlatMap.update] at hsome
  split_ifs at hsome with hplace
  · obtain ⟨rfl, rfl⟩ := hplace
    exact hp hsome
  · exact hV b' q hsome

theorem LabelsIn.update_map (hV : V.LabelsIn P)
    (f : Multiset ω × ρ → Multiset ω × ρ) : (V.update b p ((V b p).map f)).LabelsIn P := by
  apply hV.update
  rw [Option.isSome_map]
  exact hV b p

theorem LabelsIn.addPlace (hV : V.LabelsIn P) (hp : ∀ s ∈ p, P s) :
    (V.addPlace b p tag).LabelsIn P :=
  hV.update fun _ => hp

theorem LabelsIn.movePath (hV : V.LabelsIn P) (hs' : P s') :
    (V.movePath b p s s').LabelsIn P := by
  intro b' q hsome
  rw [FlatMap.movePath] at hsome
  split_ifs at hsome with hb hto hfrom
  · obtain ⟨rest, rfl⟩ := hto
    have hdrop : (p ++ [s'] ++ rest).drop (p.length + 1) = rest := by
      rw [List.drop_append]
      simp
    rw [hdrop] at hsome
    -- the place came from below the moved one
    have hold := hV b _ hsome
    rw [List.forall_mem_append, List.forall_mem_cons] at hold
    rw [List.forall_mem_append, List.forall_mem_append, List.forall_mem_singleton]
    exact ⟨⟨hold.1, hs'⟩, hold.2.2⟩
  · cases hsome
  · exact hV b q hsome
  · exact hV b' q hsome

omit [DecidableEq κ] in
theorem LabelsIn.moveRoot (hV : V.LabelsIn P) (c : β) : (V.moveRoot b c).LabelsIn P := by
  intro b' q hsome
  rw [FlatMap.moveRoot] at hsome
  split_ifs at hsome
  · exact hV b q hsome
  · cases hsome
  · exact hV b' q hsome

theorem LabelsIn.drop (hV : V.LabelsIn P) : (V.drop b p).LabelsIn P := by
  intro b' q hsome
  rw [FlatMap.drop] at hsome
  split_ifs at hsome
  · cases hsome
  · exact hV b' q hsome

end Labels

/-! ## Items that differ in a label -/

/-- The items of one place have different labels. -/
def Distinct {γ : Type*} (label : ω → γ) (V : FlatMap β κ ω ρ) : Prop :=
  ∀ b p, ((V.items b p).map label).Nodup

/-- Every place of `V'` has no items, or those of a place of `V`. -/
def Rearranges (V V' : FlatMap β κ ω ρ) : Prop :=
  ∀ b p, V'.items b p = 0 ∨ ∃ b₀ p₀, V'.items b p = V.items b₀ p₀

variable {V}

omit [DecidableEq β] [DecidableEq κ] in
theorem items_of_none (hnone : V b p = none) : V.items b p = 0 := by
  simp [items, hnone]

theorem items_update (content : Option (Multiset ω × ρ)) (b' : β) (q : List κ) :
    (V.update b p content).items b' q =
      if b = b' ∧ p = q then (content.map Prod.fst).getD 0 else V.items b' q := by
  rw [items, update]
  split_ifs <;> rfl

omit [DecidableEq β] [DecidableEq κ] in
@[simp] theorem rearranges_refl (V : FlatMap β κ ω ρ) : V.Rearranges V :=
  fun b p => .inr ⟨b, p, rfl⟩

@[simp] theorem items_addPlace : (V.addPlace b p tag).items = V.items := by
  funext b' q
  rw [addPlace, items_update]
  split_ifs with hplace
  · obtain ⟨rfl, rfl⟩ := hplace
    rw [items]
    cases V b p <;> rfl
  · rfl

theorem rearranges_addPlace : V.Rearranges (V.addPlace b p tag) := by
  intro b' q
  rw [items_addPlace]
  exact .inr ⟨b', q, rfl⟩

/-- The items of a moved path come from below `p ++ [s]`, all others stay. -/
theorem mem_items_movePath {o : ω} {b' : β} {q : List κ} :
    o ∈ (V.movePath b p s s').items b' q ↔
      (b = b' ∧ ∃ rest, q = p ++ s' :: rest ∧ o ∈ V.items b (p ++ s :: rest)) ∨
      (¬(b = b' ∧ p ++ [s'] <+: q) ∧ ¬(b = b' ∧ p ++ [s] <+: q) ∧ o ∈ V.items b' q) := by
  have hne : ¬p ++ [s'] <+: q → ∀ rest, q ≠ p ++ s' :: rest := by
    rintro hto rest rfl
    exact hto ⟨rest, by simp⟩
  rw [items, movePath]
  split_ifs with hb hto hfrom
  · obtain ⟨rest, rfl⟩ := hto
    simp [hb, items]
  · simp [hb, hfrom, hne hto]
  · simp [hb, hto, hfrom, hne hto, items]
  · simp [hb, items]

theorem rearranges_movePath : V.Rearranges (V.movePath b p s s') := by
  intro b' q
  rw [items, movePath]
  split_ifs
  · exact .inr ⟨_, _, rfl⟩
  · exact .inl rfl
  · exact .inr ⟨_, _, rfl⟩
  · exact .inr ⟨_, _, rfl⟩

omit [DecidableEq κ] in
theorem rearranges_moveRoot (c : β) : V.Rearranges (V.moveRoot b c) := by
  intro b' q
  rw [items, moveRoot]
  split_ifs
  · exact .inr ⟨_, _, rfl⟩
  · exact .inl rfl
  · exact .inr ⟨_, _, rfl⟩

theorem rearranges_drop : V.Rearranges (V.drop b p) := by
  intro b' q
  rw [items, drop]
  split_ifs
  · exact .inl rfl
  · exact .inr ⟨_, _, rfl⟩

section Distinct

variable {γ : Type*} {label : ω → γ} {V' : FlatMap β κ ω ρ} {b p}

omit [DecidableEq β] [DecidableEq κ] in
theorem Distinct.of_rearranges (hV : V.Distinct label) (hV' : V.Rearranges V') :
    V'.Distinct label := by
  intro b p
  rcases hV' b p with hzero | ⟨b₀, p₀, heq⟩
  · simp [hzero]
  · rw [heq]
    exact hV b₀ p₀

theorem distinct_update_iff (hV : V.Distinct label) (content : Multiset ω × ρ) :
    (V.update b p (some content)).Distinct label ↔ (content.1.map label).Nodup := by
  constructor
  · intro h
    have := h b p
    rwa [items_update, if_pos ⟨rfl, rfl⟩] at this
  · intro h b' q
    rw [items_update]
    split_ifs
    · exact h
    · exact hV b' q

variable [DecidableEq ω] {item item' : ω}

omit [DecidableEq ω] in
theorem distinct_addItem_iff (hV : V.Distinct label) (hsome : (V b p).isSome) :
    (V.addItem b p item).Distinct label ↔ ∀ o ∈ V.items b p, label o ≠ label item := by
  obtain ⟨content, hcontent⟩ := Option.isSome_iff_exists.1 hsome
  have hnodup := hV b p
  rw [items, hcontent] at hnodup
  rw [addItem, hcontent, Option.map_some, distinct_update_iff hV, Multiset.map_cons,
    Multiset.nodup_cons, items, hcontent]
  simpa using fun _ => hnodup

theorem Distinct.eraseItem (hV : V.Distinct label) : (V.eraseItem b p item).Distinct label := by
  rw [FlatMap.eraseItem]
  cases hcontent : V b p with
  | none => rwa [Option.map_none, update_eq_self hcontent]
  | some content =>
      have hnodup := hV b p
      rw [items, hcontent] at hnodup
      rw [Option.map_some, distinct_update_iff hV]
      exact Multiset.nodup_of_le (Multiset.map_le_map (Multiset.erase_le _ _)) hnodup

theorem distinct_replaceItem_iff (hV : V.Distinct label) (hitem : item ∈ V.items b p) :
    (V.replaceItem b p item item').Distinct label ↔
      label item' = label item ∨ ∀ o ∈ V.items b p, label o ≠ label item' := by
  have hnodup := hV b p
  rw [items] at hitem hnodup ⊢
  rw [replaceItem]
  cases hcontent : V b p with
  | none => simp [hcontent] at hitem
  | some content =>
      simp only [hcontent, Option.map_some, Option.getD_some] at hitem hnodup ⊢
      rw [distinct_update_iff hV, Multiset.map_cons, Multiset.nodup_cons]
      -- with the item taken out, its label is free
      rw [← Multiset.cons_erase hitem, Multiset.map_cons, Multiset.nodup_cons] at hnodup
      have hlabels : (∀ o ∈ content.1, label o ≠ label item') ↔
          label item' ≠ label item ∧ label item' ∉ (content.1.erase item).map label := by
        conv_lhs => rw [← Multiset.cons_erase hitem]
        simp only [Multiset.forall_mem_cons, Multiset.mem_map, not_exists, not_and, ne_comm]
      rw [hlabels]
      by_cases hsame : label item' = label item
      · simp [hsame, hnodup]
      · simp only [hsame, hnodup.2, and_true, false_or, not_false_eq_true, true_and, ne_eq]

end Distinct

/-! ## Other items and tags at the same places -/

section Map

variable {ω' ρ' : Type*} (f : ω → ω') (g : ρ → ρ')

def map (V : FlatMap β κ ω ρ) : FlatMap β κ ω' ρ' :=
  fun b p => (V b p).map fun content => (content.1.map f, g content.2)

variable {f g} {b p}

omit [DecidableEq β] [DecidableEq κ] in
theorem isSome_map : (V.map f g b p).isSome = (V b p).isSome := Option.isSome_map

omit [DecidableEq β] [DecidableEq κ] in
theorem items_map : (V.map f g).items b p = (V.items b p).map f := by
  rw [items, items, map]
  cases V b p <;> rfl

variable (V f g)

theorem map_update (content : Option (Multiset ω × ρ)) :
    (V.update b p content).map f g =
      (V.map f g).update b p (content.map fun c => (c.1.map f, g c.2)) := by
  funext b' q
  rw [map, update, update]
  split_ifs <;> rfl

theorem map_addPlace (tag : ρ) :
    (V.addPlace b p tag).map f g = (V.map f g).addPlace b p (g tag) := by
  rw [addPlace, map_update, addPlace, map]
  cases V b p <;> rfl

theorem map_addItem (item : ω) :
    (V.addItem b p item).map f g = (V.map f g).addItem b p (f item) := by
  rw [addItem, map_update, addItem, map]
  cases V b p with
  | none => rfl
  | some content => simp

theorem map_replaceItem [DecidableEq ω] [DecidableEq ω'] {item : ω}
    (hitem : item ∈ V.items b p) (item' : ω) :
    (V.replaceItem b p item item').map f g =
      (V.map f g).replaceItem b p (f item) (f item') := by
  rw [replaceItem, map_update, replaceItem, map]
  rw [items] at hitem
  cases hcontent : V b p with
  | none => rfl
  | some content =>
      rw [hcontent, Option.map_some, Option.getD_some] at hitem
      simp [Multiset.map_erase_of_mem f _ hitem]

omit [DecidableEq κ] in
theorem map_moveRoot (c : β) : (V.moveRoot b c).map f g = (V.map f g).moveRoot b c := by
  funext b' q
  simp only [map, moveRoot]
  split_ifs <;> rfl

theorem map_movePath (s s' : κ) :
    (V.movePath b p s s').map f g = (V.map f g).movePath b p s s' := by
  funext b' q
  simp only [map, movePath]
  split_ifs <;> rfl

theorem map_drop : (V.drop b p).map f g = (V.map f g).drop b p := by
  funext b' q
  simp only [map, drop]
  split_ifs <;> rfl

end Map

end FlatMap

end WsHyper.Directory
