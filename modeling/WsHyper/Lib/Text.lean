import Mathlib.Data.List.Infix
import Mathlib.Data.List.Basic

/-!
# Cutting and joining text

A text is a list of symbols.  The operations here are the ones string libraries
call `split_once`, `rsplit_once`, `strip_prefix`, `trim_start_matches`, `split`
and `join`; the last two are Lean's `List.splitOn` and `List.intercalate`.
The lemmas say where a text is cut, and that joining and cutting are inverse
to each other.
-/

namespace WsHyper.Lib.Text

variable {α : Type*} [DecidableEq α]

/-- The parts before and after the first occurrence of `pat`. -/
def splitOnce (pat : List α) : List α → Option (List α × List α)
  | [] => if pat = [] then some ([], []) else none
  | c :: cs =>
      if pat <+: c :: cs then some ([], (c :: cs).drop pat.length)
      else (splitOnce pat cs).map fun parts => (c :: parts.1, parts.2)

/-- The parts before and after the last occurrence of the symbol `sep`. -/
def rsplitOnce (sep : α) : List α → Option (List α × List α)
  | [] => none
  | c :: cs =>
      match rsplitOnce sep cs with
      | some (before, after) => some (c :: before, after)
      | none => if c = sep then some ([], cs) else none

/-- The text without one leading `pat`, or the text itself. -/
def stripPrefix (pat text : List α) : List α :=
  if pat <+: text then text.drop pat.length else text

/-- The text without its leading symbols `sep`. -/
def trimStart (sep : α) (text : List α) : List α :=
  text.dropWhile (· = sep)

/-! ## The first occurrence -/

theorem splitOnce_cons_of_not_isPrefix {pat : List α} {c : α} {cs : List α}
    (hpat : ¬pat <+: c :: cs) :
    splitOnce pat (c :: cs) =
      (splitOnce pat cs).map fun parts => (c :: parts.1, parts.2) := by
  simp [splitOnce, hpat]

theorem splitOnce_eq_none_iff {pat text : List α} :
    splitOnce pat text = none ↔ ¬pat <:+: text := by
  induction text with
  | nil => simp [splitOnce]
  | cons c cs ih =>
      by_cases hpat : pat <+: c :: cs
      · simp [splitOnce, hpat, hpat.isInfix]
      · simp [splitOnce, hpat, ih, List.infix_cons_iff]

theorem append_of_splitOnce {pat text before after : List α}
    (hsplit : splitOnce pat text = some (before, after)) :
    text = before ++ pat ++ after := by
  induction text generalizing before with
  | nil =>
      simp only [splitOnce] at hsplit
      split at hsplit <;> simp_all
  | cons c cs ih =>
      by_cases hpat : pat <+: c :: cs
      · simp only [splitOnce, if_pos hpat, Option.some.injEq, Prod.mk.injEq] at hsplit
        obtain ⟨rfl, rfl⟩ := hsplit
        obtain ⟨rest, hrest⟩ := hpat
        simp [← hrest]
      · rw [splitOnce_cons_of_not_isPrefix hpat] at hsplit
        simp only [Option.map_eq_some_iff, Prod.mk.injEq] at hsplit
        obtain ⟨⟨before', after'⟩, hcs, rfl, rfl⟩ := hsplit
        simp [ih hcs]

theorem splitOnce_append {pat text before after : List α} (more : List α)
    (hsplit : splitOnce pat text = some (before, after)) :
    splitOnce pat (text ++ more) = some (before, after ++ more) := by
  induction text generalizing before with
  | nil =>
      simp only [splitOnce] at hsplit
      split at hsplit
      · next hnil =>
          obtain ⟨rfl, rfl⟩ : [] = before ∧ [] = after := by simpa using hsplit
          subst hnil
          cases more <;> simp [splitOnce]
      · simp at hsplit
  | cons c cs ih =>
      by_cases hpat : pat <+: c :: cs
      · simp only [splitOnce, if_pos hpat, Option.some.injEq, Prod.mk.injEq] at hsplit
        obtain ⟨rfl, rfl⟩ := hsplit
        have hmore : pat <+: c :: cs ++ more := hpat.trans (List.prefix_append _ _)
        have hlength : pat.length ≤ (c :: cs).length := hpat.length_le
        rw [List.cons_append] at hmore
        rw [List.cons_append, splitOnce, if_pos hmore, ← List.cons_append,
          List.drop_append_of_le_length hlength]
      · rw [splitOnce_cons_of_not_isPrefix hpat] at hsplit
        simp only [Option.map_eq_some_iff, Prod.mk.injEq] at hsplit
        obtain ⟨⟨before', after'⟩, hcs, rfl, rfl⟩ := hsplit
        -- an occurrence that starts here would end inside the text already
        have hmore : ¬pat <+: c :: (cs ++ more) := by
          intro hstart
          apply hpat
          have hlength : pat.length ≤ (c :: cs).length := by
            have hparts := congrArg List.length (append_of_splitOnce hcs)
            simp only [List.length_append] at hparts
            simp only [List.length_cons]
            omega
          have htext : c :: cs <+: c :: (cs ++ more) := ⟨more, rfl⟩
          exact List.prefix_of_prefix_length_le hstart htext hlength
        rw [List.cons_append, splitOnce_cons_of_not_isPrefix hmore, ih hcs]
        rfl

/-- A pattern without the symbol `sep` that does not occur in `text` is first
found right after the separator that ends `text`. -/
theorem splitOnce_append_cons {pat text : List α} {sep : α} (hsep : sep ∉ pat)
    (hpat : pat ≠ []) (habsent : ¬pat <:+: text) (more : List α) :
    splitOnce pat (text ++ sep :: (pat ++ more)) = some (text ++ [sep], more) := by
  induction text with
  | nil =>
      have hstart : ¬pat <+: sep :: (pat ++ more) := by
        intro hstart
        cases pat with
        | nil => exact hpat rfl
        | cons p ps =>
            obtain ⟨rfl, -⟩ := List.cons_prefix_cons.1 hstart
            simp at hsep
      rw [List.nil_append, splitOnce_cons_of_not_isPrefix hstart]
      cases pat with
      | nil => exact absurd rfl hpat
      | cons p ps => simp [splitOnce]
  | cons c cs ih =>
      have habsent' : ¬pat <:+: cs := fun h => habsent (List.infix_cons h)
      have hstart : ¬pat <+: c :: (cs ++ sep :: (pat ++ more)) := by
        intro hstart
        rcases Nat.lt_or_ge (c :: cs).length pat.length with hlong | hshort
        · -- the occurrence would run over the separator
          apply hsep
          have hget : (pat[(c :: cs).length]?) = some sep := by
            obtain ⟨rest, hrest⟩ := hstart
            have := congrArg (fun l => l[(c :: cs).length]?) hrest
            rw [List.getElem?_append_left hlong] at this
            rw [this, ← List.cons_append, List.getElem?_append_right (Nat.le_refl _)]
            simp
          exact List.mem_of_getElem? hget
        · apply habsent
          exact (List.prefix_of_prefix_length_le hstart
            ⟨sep :: (pat ++ more), rfl⟩ hshort).isInfix
      rw [List.cons_append, splitOnce_cons_of_not_isPrefix hstart, ih habsent']
      rfl

omit [DecidableEq α] in
/-- A pattern cannot start inside a text without its first symbol. -/
theorem infix_of_infix_append {pat text rest : List α} {sep : α} (hsep : sep ∉ text)
    (hpat : sep :: pat <:+: text ++ rest) : sep :: pat <:+: rest := by
  induction text with
  | nil => exact hpat
  | cons c cs ih =>
      rw [List.mem_cons, not_or] at hsep
      rw [List.cons_append, List.infix_cons_iff, List.cons_prefix_cons] at hpat
      rcases hpat with ⟨hstart, -⟩ | hpat
      · exact absurd hstart hsep.1
      · exact ih hsep.2 hpat

theorem splitOnce_append_of_not_mem {pat text : List α} {sep : α} (hsep : sep ∉ text)
    (rest : List α) :
    splitOnce (sep :: pat) (text ++ (sep :: pat ++ rest)) = some (text, rest) := by
  induction text with
  | nil => simp [splitOnce]
  | cons c cs ih =>
      rw [List.mem_cons, not_or] at hsep
      have hstart : ¬sep :: pat <+: c :: (cs ++ (sep :: pat ++ rest)) := by
        rw [List.cons_prefix_cons]
        exact fun hstart => hsep.1 hstart.1
      rw [List.cons_append, splitOnce_cons_of_not_isPrefix hstart, ih hsep.2]
      rfl

omit [DecidableEq α] in
theorem prefix_append_cons_iff {pat front back : List α} {sep : α} (hsep : sep ∉ pat) :
    pat <+: front ++ sep :: back ↔ pat <+: front := by
  induction front generalizing pat with
  | nil =>
      cases pat with
      | nil => simp
      | cons p ps =>
          rw [List.mem_cons, not_or] at hsep
          simp [Ne.symm hsep.1]
  | cons c cs ih =>
      cases pat with
      | nil => simp
      | cons p ps =>
          rw [List.mem_cons, not_or] at hsep
          rw [List.cons_append, List.cons_prefix_cons, List.cons_prefix_cons, ih hsep.2]

/-! ## The last separator -/

omit [DecidableEq α] in
theorem not_prefix_append {pat front : List α} (hpat : ¬pat <+: front) (hfront : ¬front <+: pat)
    (rest : List α) : ¬pat <+: front ++ rest := by
  intro h
  rcases List.prefix_or_prefix_of_prefix h (List.prefix_append front rest) with h | h
  · exact hpat h
  · exact hfront h

omit [DecidableEq α] in
theorem append_ne {front text : List α} (hfront : ¬front <+: text) (rest : List α) :
    front ++ rest ≠ text := by
  rintro rfl
  exact hfront (List.prefix_append _ _)

theorem rsplitOnce_eq_none_iff {sep : α} {text : List α} :
    rsplitOnce sep text = none ↔ sep ∉ text := by
  induction text with
  | nil => simp [rsplitOnce]
  | cons c cs ih =>
      rw [rsplitOnce]
      cases hcs : rsplitOnce sep cs with
      | some parts =>
          have : sep ∈ cs := by
            by_contra hmem
            simp [ih.2 hmem] at hcs
          simp [this]
      | none =>
          have : sep ∉ cs := ih.1 hcs
          by_cases hc : c = sep
          · simp [hc]
          · simp [hc, this, Ne.symm hc]

theorem rsplitOnce_append_cons {sep : α} (before : List α) {after : List α}
    (hafter : sep ∉ after) :
    rsplitOnce sep (before ++ sep :: after) = some (before, after) := by
  induction before with
  | nil => simp [rsplitOnce, rsplitOnce_eq_none_iff.2 hafter]
  | cons c cs ih => simp [rsplitOnce, ih]

theorem not_mem_of_rsplitOnce {sep : α} {text before after : List α}
    (hsplit : rsplitOnce sep text = some (before, after)) : sep ∉ after := by
  induction text generalizing before with
  | nil => cases hsplit
  | cons c cs ih =>
      rw [rsplitOnce] at hsplit
      cases hcs : rsplitOnce sep cs with
      | some parts =>
          rw [hcs] at hsplit
          obtain ⟨-, rfl⟩ := Prod.mk.inj (Option.some.inj hsplit)
          exact ih hcs
      | none =>
          simp only [hcs] at hsplit
          split_ifs at hsplit
          obtain ⟨-, rfl⟩ := Prod.mk.inj (Option.some.inj hsplit)
          exact rsplitOnce_eq_none_iff.1 hcs

/-! ## Joining and splitting -/

omit [DecidableEq α] in
theorem cons_intercalate_eq_flatMap (sep : α) {parts : List (List α)}
    (hparts : parts ≠ []) :
    sep :: [sep].intercalate parts = parts.flatMap (sep :: ·) := by
  induction parts with
  | nil => exact absurd rfl hparts
  | cons part parts ih =>
      cases parts with
      | nil => simp
      | cons part' parts =>
          rw [List.intercalate_cons_of_ne_nil (by simp), List.flatMap_cons,
            ← ih (by simp)]
          simp

theorem splitOn_head (sep : α) (text : List α) :
    (text.splitOn sep)[0]? = some (text.takeWhile (· ≠ sep)) := by
  induction text with
  | nil => rfl
  | cons c cs ih =>
      rw [List.splitOn_cons_eq_if_modifyHead]
      by_cases hc : c = sep
      · simp [hc]
      · rw [if_neg (by simpa using hc), List.takeWhile_cons_of_pos (by simpa using hc)]
        cases hsplit : cs.splitOn sep with
        | nil => exact absurd hsplit (List.splitOn_ne_nil sep cs)
        | cons piece pieces =>
            rw [hsplit, List.getElem?_cons_zero, Option.some.injEq] at ih
            rw [List.modifyHead_cons, List.getElem?_cons_zero, ih]

theorem intercalate_injOn {sep : α} {xs ys : List (List α)}
    (hxs : ∀ x ∈ xs, sep ∉ x) (hys : ∀ y ∈ ys, sep ∉ y)
    (hxsne : xs ≠ []) (hysne : ys ≠ [])
    (heq : [sep].intercalate xs = [sep].intercalate ys) : xs = ys := by
  rw [← List.splitOn_intercalate sep hxs hxsne, heq,
    List.splitOn_intercalate sep hys hysne]

omit [DecidableEq α] in
theorem intercalate_append (sep : List α) {xs ys : List (List α)}
    (hxs : xs ≠ []) (hys : ys ≠ []) :
    sep.intercalate (xs ++ ys) = sep.intercalate xs ++ sep ++ sep.intercalate ys := by
  induction xs with
  | nil => exact absurd rfl hxs
  | cons x xs ih =>
      cases xs with
      | nil => simp [List.intercalate_cons_of_ne_nil hys]
      | cons x' xs =>
          have hrest := ih (by simp)
          simp only [List.cons_append] at hrest ⊢
          rw [List.intercalate_cons_cons, hrest, List.intercalate_cons_cons]
          simp

omit [DecidableEq α] in
theorem mem_intercalate {sep : List α} {parts : List (List α)} {a : α} :
    a ∈ sep.intercalate parts ↔
      (∃ part ∈ parts, a ∈ part) ∨ 2 ≤ parts.length ∧ a ∈ sep := by
  induction parts with
  | nil => simp
  | cons part parts ih =>
      cases parts with
      | nil => simp
      | cons part' parts =>
          rw [List.intercalate_cons_cons, List.mem_append, List.mem_append, ih]
          simp only [List.mem_cons, List.length_cons, exists_eq_or_imp]
          have hlength : 2 ≤ parts.length + 1 + 1 := by omega
          simp only [hlength, true_and]
          constructor
          · rintro ((ha | ha) | ((ha | ha) | ⟨-, ha⟩))
            · exact .inl (.inl ha)
            · exact .inr ha
            · exact .inl (.inr (.inl ha))
            · exact .inl (.inr (.inr ha))
            · exact .inr ha
          · rintro ((ha | ha | ha) | ha)
            · exact .inl (.inl ha)
            · exact .inr (.inl (.inl ha))
            · exact .inr (.inl (.inr ha))
            · exact .inl (.inr ha)

omit [DecidableEq α] in
/-- The rest of a separator can be counted to the parts behind it. -/
theorem intercalate_cons_sep (sep : α) (rest part : List α) (parts : List (List α)) :
    (sep :: rest).intercalate (part :: parts) =
      [sep].intercalate (part :: parts.map (rest ++ ·)) := by
  induction parts generalizing part with
  | nil => simp
  | cons part' parts ih =>
      rw [List.intercalate_cons_cons, ih, List.map_cons, List.intercalate_cons_cons]
      cases parts with
      | nil => simp
      | cons part'' parts => simp [List.intercalate_cons_cons]

omit [DecidableEq α] in
/-- Writing a separator before each part, and a lead before the first, is joining. -/
theorem flatten_mapIdx_lead (lead sep : List α) {parts : List (List α)} (hparts : parts ≠ []) :
    (parts.mapIdx fun i part => (if i = 0 then lead else sep) ++ part).flatten =
      lead ++ sep.intercalate parts := by
  induction parts generalizing lead with
  | nil => exact absurd rfl hparts
  | cons part parts ih =>
      rw [List.mapIdx_cons, List.flatten_cons, if_pos rfl]
      cases parts with
      | nil => simp
      | cons part' parts =>
          have hrest := ih sep (by simp)
          simp only [ite_self] at hrest
          simp only [Nat.add_one_ne_zero, if_false]
          rw [hrest, List.intercalate_cons_cons]
          simp

omit [DecidableEq α] in
theorem exists_intercalate_append_singleton (sep : List α) (parts : List (List α))
    (last : List α) : ∃ front, sep.intercalate (parts ++ [last]) = front ++ last := by
  by_cases hparts : parts = []
  · exact ⟨[], by simp [hparts]⟩
  · exact ⟨_, by rw [intercalate_append sep hparts (by simp), List.intercalate_singleton]⟩

theorem not_mem_of_mem_splitOn {sep : α} {text piece : List α}
    (hpiece : piece ∈ text.splitOn sep) : sep ∉ piece := by
  induction text generalizing piece with
  | nil =>
      rw [List.splitOn_nil, List.mem_singleton] at hpiece
      simp [hpiece]
  | cons c text ih =>
      rw [List.splitOn_cons_eq_if_modifyHead] at hpiece
      cases hsplit : text.splitOn sep with
      | nil => exact absurd hsplit (List.splitOn_ne_nil sep text)
      | cons first rest =>
          rw [hsplit] at hpiece ih
          split_ifs at hpiece with hc
          · rcases List.mem_cons.1 hpiece with rfl | hmem
            · exact List.not_mem_nil
            · exact ih hmem
          · rw [List.modifyHead_cons] at hpiece
            rcases List.mem_cons.1 hpiece with rfl | hmem
            · have hfirst : sep ∉ first := ih List.mem_cons_self
              have hne : c ≠ sep := by simpa using hc
              simp [hfirst, Ne.symm hne]
            · exact ih (List.mem_cons_of_mem _ hmem)

omit [DecidableEq α] in
/-- Two texts up to a first stop symbol are the same, and so is what begins with it. -/
theorem append_inj_of_stop {stop : α → Prop} {xs ys xs' ys' : List α}
    (hxs : ∀ c ∈ xs, ¬stop c) (hxs' : ∀ c ∈ xs', ¬stop c)
    (hys : ∃ c rest, ys = c :: rest ∧ stop c) (hys' : ∃ c rest, ys' = c :: rest ∧ stop c)
    (heq : xs ++ ys = xs' ++ ys') : xs = xs' ∧ ys = ys' := by
  induction xs generalizing xs' with
  | nil =>
      cases xs' with
      | nil => exact ⟨rfl, heq⟩
      | cons x xs' =>
          obtain ⟨c, rest, rfl, hstop⟩ := hys
          obtain ⟨rfl, -⟩ := List.cons.inj heq
          exact absurd hstop (hxs' c List.mem_cons_self)
  | cons x xs ih =>
      rw [List.forall_mem_cons] at hxs
      cases xs' with
      | nil =>
          obtain ⟨c, rest, rfl, hstop⟩ := hys'
          obtain ⟨rfl, -⟩ := List.cons.inj heq
          exact absurd hstop hxs.1
      | cons x' xs' =>
          rw [List.forall_mem_cons] at hxs'
          obtain ⟨rfl, hrest⟩ := List.cons.inj heq
          obtain ⟨rfl, htails⟩ := ih hxs.2 hxs'.2 hrest
          exact ⟨rfl, htails⟩

end WsHyper.Lib.Text
