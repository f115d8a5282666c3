import WsHyper.Lib.Text

/-!
# The text of a path

A path is a text with a separator `sep` between its parts.  Empty parts and those that
are a single `dot` lead nowhere; the other ones are its pieces.  `push` puts a relative
path behind a separator and lets an absolute one replace what was there.
-/

namespace WsHyper.Lib.PathText

open WsHyper.Lib

variable {α : Type*} [DecidableEq α] (sep dot : α)

def isAbsolute (path : List α) : Bool := path.head? = some sep

def push (path arg : List α) : List α :=
  if isAbsolute sep arg then arg
  else if path = [] ∨ path.getLast? = some sep then path ++ arg
  else path ++ sep :: arg

def pieces (path : List α) : List (List α) :=
  (path.splitOn sep).filter fun piece => piece ≠ [] ∧ piece ≠ [dot]

def IsPiece (piece : List α) : Prop := piece ≠ [] ∧ sep ∉ piece ∧ piece ≠ [dot]

/-- The text of the parts `comps` behind a path. -/
def below (comps : List (List α)) : List α := comps.flatMap (sep :: ·)

variable {sep dot} {path arg piece : List α} {comps : List (List α)}

theorem pieces_append_sep (path arg : List α) :
    pieces sep dot (path ++ sep :: arg) = pieces sep dot path ++ pieces sep dot arg := by
  rw [pieces, List.splitOn_append_cons_self, List.filter_append]
  rfl

@[simp] theorem pieces_nil : pieces sep dot [] = [] := by simp [pieces]

theorem pieces_cons_sep (path : List α) :
    pieces sep dot (sep :: path) = pieces sep dot path := by
  rw [← List.nil_append (sep :: path), pieces_append_sep, pieces_nil, List.nil_append]

theorem pieces_of_not_mem (hsep : sep ∉ piece) :
    pieces sep dot piece = if piece ≠ [] ∧ piece ≠ [dot] then [piece] else [] := by
  rw [pieces, List.splitOn_eq_singleton hsep, List.filter_singleton]
  simp

theorem pieces_of_isPiece (hpiece : IsPiece sep dot piece) :
    pieces sep dot piece = [piece] := by
  rw [pieces_of_not_mem hpiece.2.1, if_pos ⟨hpiece.1, hpiece.2.2⟩]

theorem not_mem_of_mem_splitOn (hmem : piece ∈ path.splitOn sep) : sep ∉ piece := by
  induction path generalizing piece with
  | nil => simp_all
  | cons c path ih =>
      rw [List.splitOn_cons_eq_if_modifyHead] at hmem
      split_ifs at hmem with hc
      · rcases List.mem_cons.1 hmem with rfl | hmem
        · exact List.not_mem_nil
        · exact ih hmem
      · obtain ⟨first, parts, hparts⟩ :=
          List.exists_cons_of_ne_nil (List.splitOn_ne_nil sep path)
        rw [hparts] at hmem ih
        rw [List.modifyHead_cons, List.mem_cons] at hmem
        rcases hmem with rfl | hmem
        · have hne : sep ≠ c := fun heq => hc (by simp [heq])
          simpa [hne] using ih List.mem_cons_self
        · exact ih (List.mem_cons_of_mem _ hmem)

theorem isPiece_of_mem_pieces (hmem : piece ∈ pieces sep dot path) : IsPiece sep dot piece := by
  rw [pieces, List.mem_filter, decide_eq_true_eq] at hmem
  exact ⟨hmem.2.1, not_mem_of_mem_splitOn hmem.1, hmem.2.2⟩

theorem pieces_push (hrelative : isAbsolute sep arg = false) :
    pieces sep dot (push sep path arg) = pieces sep dot path ++ pieces sep dot arg := by
  rw [push, if_neg (by simp [hrelative])]
  split_ifs with hend
  · rcases hend with rfl | hslash
    · simp
    · obtain ⟨front, rfl⟩ := List.getLast?_eq_some_iff.1 hslash
      rw [List.append_assoc, List.singleton_append, pieces_append_sep, pieces_append_sep,
        pieces_nil, List.append_nil]
  · exact pieces_append_sep path arg

theorem isAbsolute_push (hrelative : isAbsolute sep arg = false) :
    isAbsolute sep (push sep path arg) = isAbsolute sep path := by
  rw [push, if_neg (by simp [hrelative])]
  cases path with
  | nil => simpa [isAbsolute] using hrelative
  | cons c path => split_ifs <;> simp [isAbsolute]

theorem push_ne_nil (hpath : path ≠ []) (arg : List α) : push sep path arg ≠ [] := by
  rw [push]
  split_ifs with habsolute
  · rintro rfl
    simp [isAbsolute] at habsolute
  · simp [hpath]
  · simp

theorem isAbsolute_eq_false_of_not_mem (hsep : sep ∉ piece) : isAbsolute sep piece = false := by
  cases piece with
  | nil => simp [isAbsolute]
  | cons c piece =>
      have hne : c ≠ sep := by
        rintro rfl
        exact hsep List.mem_cons_self
      simp [isAbsolute, hne]

omit [DecidableEq α] in
@[simp] theorem below_nil : below sep ([] : List (List α)) = [] := rfl

omit [DecidableEq α] in
@[simp] theorem below_cons (comp : List α) (comps : List (List α)) :
    below sep (comp :: comps) = sep :: comp ++ below sep comps := by
  simp [below]

theorem pieces_append_below (hcomps : ∀ comp ∈ comps, IsPiece sep dot comp)
    (path : List α) : pieces sep dot (path ++ below sep comps) = pieces sep dot path ++ comps := by
  induction comps generalizing path with
  | nil => simp
  | cons comp comps ih =>
      rw [List.forall_mem_cons] at hcomps
      calc
        _ = pieces sep dot ((path ++ sep :: comp) ++ below sep comps) := by simp
        _ = pieces sep dot (path ++ sep :: comp) ++ comps := ih hcomps.2 _
        _ = pieces sep dot path ++ [comp] ++ comps := by
          rw [pieces_append_sep, pieces_of_isPiece hcomps.1]
        _ = _ := by simp

theorem not_infix_below (dot : α) (hcomps : ∀ comp ∈ comps, IsPiece sep dot comp) :
    ¬[sep, sep] <:+: below sep comps := by
  rintro ⟨front, back, htext⟩
  by_cases hne : comps = []
  · subst hne
    simp at htext
  have hbelow : (below sep comps).splitOn sep = [] :: comps := by
    rw [below, ← Text.cons_intercalate_eq_flatMap sep hne]
    calc
      _ = ([] ++ sep :: [sep].intercalate comps).splitOn sep := by rw [List.nil_append]
      _ = [[]] ++ ([sep].intercalate comps).splitOn sep := by
        rw [List.splitOn_append_cons_self, List.splitOn_nil]
      _ = [] :: comps := by
        rw [List.splitOn_intercalate sep (fun comp hcomp => (hcomps comp hcomp).2.1) hne]
        rfl
  have hcut : (below sep comps).splitOn sep =
      front.splitOn sep ++ [] :: back.splitOn sep := by
    rw [← htext]
    calc
      _ = (front ++ sep :: ([] ++ sep :: back)).splitOn sep := by simp
      _ = _ := by rw [List.splitOn_append_cons_self, List.splitOn_append_cons_self,
        List.splitOn_nil, List.singleton_append]
  obtain ⟨first, parts, hparts⟩ := List.exists_cons_of_ne_nil (List.splitOn_ne_nil sep front)
  rw [hbelow, hparts, List.cons_append, List.cons.injEq] at hcut
  exact (hcomps [] (by rw [hcut.2]; simp)).1 rfl

omit [DecidableEq α] in
theorem exists_rest_of_below (hcomps : ∀ comp ∈ comps, sep ∉ comp) (front : List α)
    {back : List α} (hfront : front ≠ []) (hcut : below sep comps = front ++ back) :
    ∃ part rest, sep ∉ part ∧ rest <:+ comps ∧ back = part ++ below sep rest := by
  induction comps generalizing front with
  | nil => simp_all
  | cons comp comps ih =>
      rw [List.forall_mem_cons] at hcomps
      obtain ⟨c, front, rfl⟩ := List.exists_cons_of_ne_nil hfront
      rw [below_cons, List.cons_append, List.cons_append, List.cons.injEq,
        List.append_eq_append_iff] at hcut
      obtain ⟨-, ⟨more, rfl, hback⟩ | ⟨part, rfl, rfl⟩⟩ := hcut
      · by_cases hmore : more = []
        · subst hmore
          exact ⟨[], comps, List.not_mem_nil, List.suffix_cons comp comps, hback.symm⟩
        · obtain ⟨part, rest, hpart, hrest, rfl⟩ := ih hcomps.2 more hmore hback
          exact ⟨part, rest, hpart, hrest.trans (List.suffix_cons comp comps), rfl⟩
      · exact ⟨part, comps, fun hpart => hcomps.1 (List.mem_append_right _ hpart),
          List.suffix_cons _ comps, rfl⟩

theorem rsplitOnce_push (dot : α) (hpath : path ≠ []) (hsep : sep ∉ piece) :
    ∃ front, Text.rsplitOnce sep (push sep path piece) = some (front, piece) ∧
      pieces sep dot front = pieces sep dot path := by
  rw [push, if_neg (by simp [isAbsolute_eq_false_of_not_mem hsep])]
  split_ifs with hend
  · obtain ⟨front, rfl⟩ := List.getLast?_eq_some_iff.1 (hend.resolve_left hpath)
    refine ⟨front, ?_, ?_⟩
    · rw [List.append_assoc, List.singleton_append]
      exact Text.rsplitOnce_append_cons front hsep
    · rw [pieces_append_sep, pieces_nil, List.append_nil]
  · exact ⟨path, Text.rsplitOnce_append_cons path hsep, rfl⟩

end WsHyper.Lib.PathText
