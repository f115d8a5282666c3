import WsHyper.Auth.Effects

/-!
# The text of statements

Statements are written piece by piece, and their values are kept in the order of the
pieces.  `updateForm` and `whereForm` are the texts that are meant: assignments and
conditions, each with the placeholder of its value.
-/

namespace WsHyper.Auth

open WsHyper.Lib WsHyper.Lib.Text Sql

/-! ## What is written -/

def placeholder (n : Nat) : Str := '$' :: Nat.toDigits 10 n

/-- `column = $n` or `column = ANY($n)`. -/
def comparison (any : Bool) (column : String) (n : Nat) : Str :=
  column.toList ++ " = ".toList ++
    if any then "ANY(".toList ++ placeholder n ++ [')'] else placeholder n

def pieceText (piece : Piece) : Str :=
  piece.lead.toList ++ ' ' :: comparison piece.any piece.column piece.placeholder

def Statement.text : Statement → Str
  | .insert table columns placeholders =>
      "INSERT INTO ".toList ++ table.toList ++ " (".toList ++
        [','].intercalate (columns.map String.toList) ++ ") VALUES (".toList ++
        [','].intercalate (placeholders.map placeholder) ++ [')']
  | .update table sets wheres =>
      "UPDATE ".toList ++ table.toList ++ " SET".toList ++
        sets.flatMap pieceText ++ wheres.flatMap pieceText
  | .delete table wheres =>
      "DELETE FROM ".toList ++ table.toList ++ wheres.flatMap pieceText

/-- A query, where `base` is the text of `T::query()`. -/
def Select.text (base : Str) (select : Select) : Str :=
  base ++ select.wheres.flatMap pieceText ++
    if select.groupBy = [] then []
    else " GROUP BY ".toList ++ [','].intercalate (select.groupBy.map String.toList)

/-! ## What is meant -/

def numbered (count : Nat) (columns : List (String × Bool)) : List Str :=
  columns.mapIdx fun i column => comparison column.2 column.1 (count + i + 1)

def whereForm (count : Nat) (columns : List (String × Bool)) : Str :=
  if columns = [] then []
  else " WHERE ".toList ++ " AND ".toList.intercalate (numbered count columns)

def updateForm (table : String) (columns conditions : List String) : Str :=
  "UPDATE ".toList ++ table.toList ++ " SET ".toList ++
    ", ".toList.intercalate (numbered 0 (columns.map (·, false))) ++
    whereForm columns.length (conditions.map (·, false))

def groupForm (columns : List String) : Str :=
  if columns = [] then []
  else " GROUP BY ".toList ++ [','].intercalate (columns.map String.toList)

theorem numbered_map {α : Type} (count : Nat) (f : α → String × Bool) (entries : List α) :
    numbered count (entries.map f) =
      entries.mapIdx fun i entry => comparison (f entry).2 (f entry).1 (count + i + 1) := by
  apply List.ext_getElem <;> simp [numbered]

/-! ## Placeholders -/

theorem dollar_not_mem_toDigits (n : Nat) : '$' ∉ Nat.toDigits 10 n := by
  intro hmem
  exact absurd (Nat.isDigit_of_mem_toDigits (by decide) (by decide) hmem) (by decide)

theorem eq_of_comparison_eq {front front' : Str} {column column' : String} {n n' : Nat}
    (heq : front ++ comparison false column n = front' ++ comparison false column' n') :
    n = n' := by
  have hlast : ∀ (front : Str) (column : String) (n : Nat),
      rsplitOnce '$' (front ++ comparison false column n) =
        some (front ++ column.toList ++ " = ".toList, Nat.toDigits 10 n) := by
    intro front column n
    rw [comparison, if_neg (by simp), placeholder, ← List.append_assoc, ← List.append_assoc,
      rsplitOnce_append_cons _ (dollar_not_mem_toDigits n)]
  have hdigits := congrArg (Option.map Prod.snd) (congrArg (rsplitOnce '$') heq)
  rw [hlast, hlast, Option.map_some, Option.map_some, Option.some.injEq] at hdigits
  have hnumber := congrArg (fun digits => Nat.ofDigitChars 10 digits 0) hdigits
  simpa using hnumber

theorem map_mapIdx {α β γ : Type} (f : β → γ) (g : Nat → α → β) (xs : List α) :
    (xs.mapIdx g).map f = xs.mapIdx fun i x => f (g i x) := by
  simp [List.mapIdx_eq_zipIdx_map]

/-- Pieces under a lead, `sep` between them, are comparisons that were joined. -/
theorem flatMap_pieceText {entries : HashMap} (hentries : entries ≠ []) (lead sep : String)
    (piece : Nat → String × Types → Piece)
    (hlead : ∀ i entry, (piece i entry).lead = if i = 0 then lead else sep) :
    (entries.mapIdx piece).flatMap pieceText =
      lead.toList ++ ' ' :: (sep.toList ++ [' ']).intercalate (entries.mapIdx fun i entry =>
        comparison (piece i entry).any (piece i entry).column (piece i entry).placeholder) := by
  have hjoin := flatten_mapIdx_lead (lead.toList ++ [' ']) (sep.toList ++ [' '])
    (show (entries.mapIdx fun i entry => comparison (piece i entry).any (piece i entry).column
      (piece i entry).placeholder) ≠ [] by simpa using hentries)
  rw [List.mapIdx_mapIdx] at hjoin
  rw [List.flatMap_def, map_mapIdx]
  calc
    _ = (entries.mapIdx fun i entry => (if i = 0 then lead.toList ++ [' '] else
          sep.toList ++ [' ']) ++ comparison (piece i entry).any (piece i entry).column
            (piece i entry).placeholder).flatten := by
      congr 2
      funext i entry
      rw [pieceText, hlead]
      split_ifs with hfirst
      · simp
      · simp
    _ = _ := hjoin
    _ = _ := by simp

/-! ## Updates -/

namespace UpdateOwn

/-- A call of `wh` for each condition. -/
def whs (update : UpdateOwn) (conditions : HashMap) : UpdateOwn :=
  conditions.foldl (fun update condition => update.wh condition.1 condition.2) update

/-- `from` with the conditions called before and after it, and `query`. -/
def run (τ : Type) [Table τ] (order order' : HashOrder) (items before after : HashMap) :
    Option (Statement × List Param) :=
  ((((new τ).whs before).from order items).whs after).query order'

theorem whs_eq {update : UpdateOwn} {conditions : HashMap}
    (hnodup : ((update.wheres.reverse ++ conditions).map Prod.fst).Nodup) :
    update.whs conditions = { update with wheres := conditions.reverse ++ update.wheres } := by
  induction conditions generalizing update with
  | nil => rfl
  | cons condition conditions ih =>
      have hnew : condition.1 ∉ update.wheres.map Prod.fst := by
        rw [List.map_append, List.map_cons, List.nodup_middle, List.nodup_cons,
          List.mem_append, not_or, List.map_reverse, List.mem_reverse] at hnodup
        exact hnodup.1.1
      have hwh : update.wh condition.1 condition.2 =
          { update with wheres := condition :: update.wheres } := by
        rw [wh, AssocMap.put, AssocMap.erase_eq_self hnew]
      rw [whs, List.foldl_cons, ← whs, hwh, ih (by simpa using hnodup)]
      simp

theorem run_eq {τ : Type} [Table τ] (order order' : HashOrder) {items before after : HashMap}
    (hitems : items ≠ []) (hnodup : ((before ++ after).map Prod.fst).Nodup) :
    run τ order order' items before after =
      some (.update (Table.name τ) ((order.arrange items).mapIdx setAt)
          ((order'.arrange (before ++ after).reverse).map (whereAt items.length)),
        (order.arrange items ++ order'.arrange (before ++ after).reverse).map
          fun entry => entry.2.bind) := by
  have hbefore : ((((new τ).wheres.reverse ++ before)).map Prod.fst).Nodup := by
    rw [List.map_append] at hnodup
    exact (List.nodup_append.1 hnodup).1
  have hafter : ((((new τ).whs before).from order items).wheres.reverse ++ after).map Prod.fst =
      (before ++ after).map Prod.fst := by
    rw [whs_eq hbefore]
    simp [UpdateOwn.from, new]
  have hne : (order.arrange items).map Prod.snd ≠ [] := by
    rw [Ne, List.map_eq_nil_iff, order.arrange_eq_nil_iff]
    exact hitems
  rw [run, whs_eq (hafter ▸ hnodup), whs_eq hbefore, query]
  simp only [UpdateOwn.from, new, List.nil_append, List.append_nil, List.reverse_append,
    List.length_map, (order.perm items).length_eq]
  rw [if_neg hne]
  simp [Function.comp_def]

end UpdateOwn

/-- The text names the columns of the map and of the conditions, and the values are bound in
the order of the columns. -/
def UpdateBinds (table : String) (columns conditions : HashMap)
    (result : Statement × List Param) : Prop :=
  ∃ sets wheres : HashMap, sets.Perm columns ∧ wheres.Perm conditions ∧
    Statement.text result.1 =
      updateForm table (sets.map Prod.fst) (wheres.map Prod.fst) ∧
    result.2 = (sets ++ wheres).map fun entry => entry.2.bind

section Update

variable {table : String} {sets wheres : HashMap}

theorem flatMap_sets (hsets : sets ≠ []) :
    (sets.mapIdx UpdateOwn.setAt).flatMap pieceText =
      ' ' :: ", ".toList.intercalate (numbered 0 ((sets.map Prod.fst).map (·, false))) := by
  have hlead : ∀ i entry, (UpdateOwn.setAt i entry).lead = if i = 0 then "" else "," := by
    intro i entry
    cases i with
    | zero => rfl
    | succ i => simp [UpdateOwn.setAt]
  rw [flatMap_pieceText hsets "" "," UpdateOwn.setAt hlead, List.map_map, numbered_map]
  simp [UpdateOwn.setAt]

theorem flatMap_wheres (hwheres : wheres.length ≤ 1) (count : Nat) :
    (wheres.map (UpdateOwn.whereAt count)).flatMap pieceText =
      whereForm count ((wheres.map Prod.fst).map (·, false)) := by
  match wheres, hwheres with
  | [], _ => rfl
  | [entry], _ => simp [whereForm, numbered, pieceText, UpdateOwn.whereAt]

/-- Two conditions end in one placeholder, where the text that is meant goes on counting. -/
theorem length_le_of_text_eq {front front' : Str} {count : Nat} {wheres' : List String}
    (hlength : wheres'.length = wheres.length)
    (htext : front ++ (wheres.map (UpdateOwn.whereAt count)).flatMap pieceText =
      front' ++ whereForm count (wheres'.map (·, false))) : wheres.length ≤ 1 := by
  rcases List.eq_nil_or_concat' wheres with rfl | ⟨ws, w, rfl⟩
  · simp
  rcases List.eq_nil_or_concat' wheres' with rfl | ⟨ws', w', rfl⟩
  · simp at hlength
  obtain ⟨joined, hjoined⟩ := exists_intercalate_append_singleton " AND ".toList
    (numbered count (ws'.map (·, false))) (comparison false w' (count + ws'.length + 1))
  have hmeant : whereForm count ((ws' ++ [w']).map (·, false)) =
      " WHERE ".toList ++ joined ++ comparison false w' (count + ws'.length + 1) := by
    rw [whereForm, if_neg (by simp), List.append_assoc, ← hjoined]
    simp [numbered]
  have hwritten : ((ws ++ [w]).map (UpdateOwn.whereAt count)).flatMap pieceText =
      (ws.map (UpdateOwn.whereAt count)).flatMap pieceText ++ " WHERE ".toList ++
        comparison false w.1 (count + 1) := by
    simp [pieceText, UpdateOwn.whereAt]
  rw [hmeant, hwritten, ← List.append_assoc, ← List.append_assoc front'] at htext
  have hcount := eq_of_comparison_eq htext
  simp only [List.length_append, List.length_singleton] at hlength ⊢
  omega

theorem text_update (pieces conditions : List Piece) :
    Statement.text (.update table pieces conditions) =
      "UPDATE ".toList ++ table.toList ++ " SET".toList ++ pieces.flatMap pieceText ++
        conditions.flatMap pieceText := rfl

theorem updateForm_eq (columns conditions : List String) :
    updateForm table columns conditions =
      "UPDATE ".toList ++ table.toList ++ " SET ".toList ++
        ", ".toList.intercalate (numbered 0 (columns.map (·, false))) ++
        whereForm columns.length (conditions.map (·, false)) := rfl

/-- A change is written as it is meant exactly if there is at most one condition. -/
theorem updateBinds_iff (τ : Type) [Table τ] (order order' : HashOrder)
    (items before after : HashMap) (hitems : items ≠ [])
    (hnodup : ((before ++ after).map Prod.fst).Nodup) :
    ∃ result, UpdateOwn.run τ order order' items before after = some result ∧
      (UpdateBinds (Table.name τ) items (before ++ after) result ↔
        (before ++ after).length ≤ 1) := by
  refine ⟨_, UpdateOwn.run_eq order order' hitems hnodup, ?_⟩
  have hsets : order.arrange items ≠ [] := by
    rw [Ne, order.arrange_eq_nil_iff]
    exact hitems
  have hperm : (order'.arrange (before ++ after).reverse).Perm (before ++ after) :=
    (order'.perm _).trans (List.reverse_perm _)
  have hlength := (order.perm items).length_eq
  constructor
  · rintro ⟨sets, wheres, hsets', hwheres, htext, -⟩
    dsimp only at htext
    rw [text_update, updateForm_eq, List.length_map, hsets'.length_eq] at htext
    have hcount : (wheres.map Prod.fst).length =
        (order'.arrange (before ++ after).reverse).length := by
      rw [List.length_map, hwheres.length_eq, hperm.length_eq]
    rw [← hperm.length_eq]
    exact length_le_of_text_eq hcount htext
  · intro hone
    refine ⟨order.arrange items, order'.arrange (before ++ after).reverse, order.perm items,
      hperm, ?_, rfl⟩
    dsimp only
    rw [text_update, updateForm_eq, flatMap_sets hsets, List.length_map, hlength,
      flatMap_wheres (by rwa [hperm.length_eq])]
    simp

/-- A change of one column under one condition. -/
theorem one_condition_binds :
    ∃ result, UpdateOwn.run User .inserted .inserted [("email", .optString none)] []
        [("id", .uuid Uuid.nil)] = some result ∧
      UpdateBinds "users" [("email", .optString none)] [("id", .uuid Uuid.nil)] result := by
  obtain ⟨result, hrun, hbinds⟩ := updateBinds_iff User .inserted .inserted
    [("email", .optString none)] [] [("id", .uuid Uuid.nil)] (by simp) (by simp)
  exact ⟨result, hrun, hbinds.2 (by simp)⟩

/-- Two conditions are written as `WHERE a = $2 WHERE b = $2`. -/
theorem two_conditions_share_placeholder :
    ∃ result, UpdateOwn.run User .inserted .inserted [("c", .optString none)] []
        [("b", .optString none), ("a", .optString none)] = some result ∧
      Statement.text result.1 = "UPDATE users SET c = $1 WHERE a = $2 WHERE b = $2".toList ∧
      ¬UpdateBinds "users" [("c", .optString none)]
        [("b", .optString none), ("a", .optString none)] result := by
  refine ⟨_, rfl, by decide, ?_⟩
  rintro ⟨sets, wheres, hsets, hwheres, htext, -⟩
  obtain rfl := List.perm_singleton.1 hsets
  have hlength : (wheres.map Prod.fst).length = 2 := by rw [List.length_map, hwheres.length_eq]; rfl
  have hfew : [("a", Types.optString none), ("b", Types.optString none)].length ≤ 1 :=
    length_le_of_text_eq hlength htext
  exact absurd hfew (by decide)

end Update

/-! ## Queries -/

inductive Call
  | wh (column : String) (value : Types)
  | whVecAny (column : String) (values : List Permissions)
  | groupBy (column : String)

structure Given where
  value : Types
  fromVecAny : Bool

def Call.condition : Call → Option (String × Given)
  | wh column value => some (column, ⟨value, false⟩)
  | whVecAny column values => some (column, ⟨.vecAnyPermission values, true⟩)
  | groupBy _ => none

def Types.isVecAny : Types → Bool
  | .vecAnyPermission _ => true
  | _ => false

def lastGiven (calls : List Call) (column : String) : Option Given :=
  (calls.filterMap Call.condition).reverse.lookup column

namespace QueryOwn

variable {τ : Type}

def call (query : QueryOwn τ) : Call → QueryOwn τ
  | .wh column value => query.wh column value
  | .whVecAny column values => query.whVecAny column values
  | .groupBy column => query.groupBy column

def calls (query : QueryOwn τ) (calls : List Call) : QueryOwn τ := calls.foldl call query

end QueryOwn

/-- The text compares every column that was given with the placeholder of its last value,
with `ANY` where `usesAny` says so, and groups by every column that was named. -/
def SelectBinds (usesAny : Given → Bool) (base : Str) (calls : List Call)
    (result : Select × List Param) : Prop :=
  ∃ (conditions : List (String × Given)) (groups : List String),
    (conditions.map Prod.fst).Nodup ∧
    (∀ column given, (column, given) ∈ conditions ↔ lastGiven calls column = some given) ∧
    groups.Nodup ∧ (∀ column, column ∈ groups ↔ Call.groupBy column ∈ calls) ∧
    Select.text base result.1 =
      base ++ whereForm 0 (conditions.map fun condition => (condition.1, usesAny condition.2)) ++
        groupForm groups ∧
    result.2 = conditions.map fun condition => condition.2.value.bind

section Select

variable {τ : Type} {query : QueryOwn τ} {calls : List Call}

structure Holds (calls : List Call) (query : QueryOwn τ) : Prop where
  columns_nodup : ((query.wheres.getD []).map Prod.fst).Nodup
  lookup_eq : ∀ column,
    (query.wheres.getD []).lookup column = (lastGiven calls column).map Given.value
  groupBys_nodup : query.groupBys.Nodup
  mem_groupBys : ∀ column, column ∈ query.groupBys ↔ Call.groupBy column ∈ calls

theorem lastGiven_append_singleton (calls : List Call) (call : Call) (column : String) :
    lastGiven (calls ++ [call]) column =
      match call.condition with
      | some (column', given) => if column' = column then some given else lastGiven calls column
      | none => lastGiven calls column := by
  rw [lastGiven, List.filterMap_append, List.reverse_append]
  cases hcondition : call.condition with
  | none => simp [hcondition, lastGiven]
  | some condition =>
      obtain ⟨column', given⟩ := condition
      simp [hcondition, lastGiven]

theorem Holds.wh (hquery : Holds calls query) {call : Call} {column : String} {given : Given}
    (hcall : call.condition = some (column, given))
    (hgroup : ∀ other, call ≠ .groupBy other) :
    Holds (calls ++ [call]) (query.wh column given.value) := by
  have hwheres : ((query.wh column given.value).wheres.getD []) =
      AssocMap.put column given.value (query.wheres.getD []) := by
    rw [QueryOwn.wh]
    cases query.wheres with
    | none => rfl
    | some map => rfl
  have hgroups : (query.wh column given.value).groupBys = query.groupBys := by
    rw [QueryOwn.wh]
    cases query.wheres with
    | none => rfl
    | some map => rfl
  refine ⟨?_, fun other => ?_, hgroups ▸ hquery.groupBys_nodup, fun other => ?_⟩
  · rw [hwheres, AssocMap.put, List.map_cons, List.nodup_cons]
    refine ⟨fun hmem => ?_, hquery.columns_nodup.sublist (List.filter_sublist.map _)⟩
    obtain ⟨entry, hentry, heq⟩ := List.mem_map.1 hmem
    exact (AssocMap.mem_erase.1 hentry).2 heq
  · rw [hwheres, AssocMap.lookup_put, lastGiven_append_singleton, hcall, hquery.lookup_eq]
    dsimp only
    split_ifs with hcolumn
    · rfl
    · rfl
  · rw [hgroups, hquery.mem_groupBys, List.mem_append, List.mem_singleton,
      or_iff_left (Ne.symm (hgroup other))]

theorem Holds.groupBy (hquery : Holds calls query) (column : String) :
    Holds (calls ++ [.groupBy column]) (query.groupBy column) := by
  refine ⟨hquery.columns_nodup, fun other => ?_, hquery.groupBys_nodup.insert, fun other => ?_⟩
  · rw [lastGiven_append_singleton]
    exact hquery.lookup_eq other
  · rw [QueryOwn.groupBy, List.mem_insert_iff, hquery.mem_groupBys]
    simp [or_comm]

theorem holds_calls (calls : List Call) :
    Holds calls ((QueryOwn.builder : QueryOwn τ).calls calls) := by
  induction calls using List.reverseRecOn with
  | nil =>
      exact ⟨List.nodup_nil, fun column => rfl, List.nodup_nil,
        by simp [QueryOwn.calls, QueryOwn.builder]⟩
  | append_singleton calls call ih =>
      rw [QueryOwn.calls, List.foldl_append, ← QueryOwn.calls]
      cases call with
      | wh column value =>
          have hcondition : (Call.wh column value).condition = some (column, ⟨value, false⟩) := rfl
          exact ih.wh hcondition (by simp)
      | whVecAny column values =>
          have hcondition : (Call.whVecAny column values).condition =
              some (column, ⟨.vecAnyPermission values, true⟩) := rfl
          exact ih.wh hcondition (by simp)
      | groupBy column => exact ih.groupBy column

def conditionsOf (calls : List Call) (order : HashOrder) (wheres : HashMap) :
    List (String × Given) :=
  (order.arrange wheres).map fun entry =>
    (entry.1, ⟨entry.2, ((lastGiven calls entry.1).map Given.fromVecAny).getD false⟩)

theorem mem_conditionsOf (hquery : Holds calls query) (order : HashOrder) (column : String)
    (given : Given) :
    (column, given) ∈ conditionsOf calls order (query.wheres.getD []) ↔
      lastGiven calls column = some given := by
  have hlookup := hquery.lookup_eq column
  have hmem : ∀ value, (column, value) ∈ order.arrange (query.wheres.getD []) ↔
      (query.wheres.getD []).lookup column = some value := by
    intro value
    rw [order.mem_arrange]
    exact ⟨AssocMap.lookup_of_mem hquery.columns_nodup, AssocMap.mem_of_lookup⟩
  rw [conditionsOf, List.mem_map]
  constructor
  · rintro ⟨⟨column', value⟩, hentry, heq⟩
    obtain ⟨rfl, rfl⟩ := Prod.mk.inj heq
    rw [hmem, hlookup, Option.map_eq_some_iff] at hentry
    obtain ⟨given, hgiven, rfl⟩ := hentry
    simp [hgiven]
  · intro hgiven
    refine ⟨(column, given.value), (hmem _).2 ?_, ?_⟩
    · rw [hlookup, hgiven, Option.map_some]
    · simp [hgiven]

theorem flatMap_whereAt (wheres : HashMap) :
    (wheres.mapIdx QueryOwn.whereAt).flatMap pieceText =
      whereForm 0 (wheres.map fun entry => (entry.1, entry.2.isVecAny)) := by
  by_cases hwheres : wheres = []
  · rw [hwheres]
    rfl
  · have hany : ∀ i entry, (QueryOwn.whereAt i entry).any = entry.2.isVecAny := by
      rintro i ⟨column, value⟩
      cases value <;> rfl
    rw [flatMap_pieceText hwheres " WHERE" " AND" QueryOwn.whereAt (fun _ _ => rfl), whereForm,
      if_neg (by simpa using hwheres), numbered_map]
    simp only [hany]
    simp [QueryOwn.whereAt]

/-- Every query is written and bound as its calls say, with `ANY` for the lists of
permissions that `wh_vec_any` makes. -/
theorem selectBinds (τ : Type) [QuerySelect τ] (order : HashOrder) (base : Str)
    (calls : List Call) :
    SelectBinds (fun given => given.value.isVecAny) base calls
      (((QueryOwn.builder : QueryOwn τ).calls calls).build order) := by
  have hquery := holds_calls (τ := τ) calls
  refine ⟨conditionsOf calls order _, order.arrange _, ?_, mem_conditionsOf hquery order,
    (order.perm _).nodup_iff.2 hquery.groupBys_nodup,
    fun column => (order.mem_arrange).trans (hquery.mem_groupBys column), ?_, ?_⟩
  · rw [conditionsOf, List.map_map]
    exact ((order.perm _).map Prod.fst).nodup_iff.2 hquery.columns_nodup
  · rw [Select.text, QueryOwn.build, groupForm, conditionsOf, List.map_map]
    dsimp only
    rw [flatMap_whereAt]
    rfl
  · rw [QueryOwn.build, conditionsOf, List.map_map]
    rfl

/-- A list of permissions that `wh` is handed is compared with `ANY` as well. -/
theorem wh_uses_any :
    ¬SelectBinds Given.fromVecAny [] [.wh "name" (.vecAnyPermission [])]
      (((QueryOwn.builder : QueryOwn User).calls [.wh "name" (.vecAnyPermission [])]).build
        .inserted) := by
  rintro ⟨conditions, groups, hnodup, hconditions, -, hgroups, htext, -⟩
  have hgiven : ∀ column given, (column, given) ∈ conditions ↔
      (column, given) = ("name", ⟨.vecAnyPermission [], false⟩) := by
    intro column given
    rw [hconditions]
    by_cases hcolumn : "name" = column
    · simp [lastGiven, Call.condition, hcolumn, eq_comm]
    · simp [lastGiven, Call.condition, hcolumn, Ne.symm hcolumn]
  have hone : conditions = [("name", ⟨.vecAnyPermission [], false⟩)] := by
    rw [← List.perm_singleton, List.perm_ext_iff_of_nodup (.of_map _ hnodup) (by simp)]
    rintro ⟨column, given⟩
    rw [hgiven, List.mem_singleton]
  have hnone : groups = [] := by
    rw [List.eq_nil_iff_forall_not_mem]
    intro column hmem
    simpa using (hgroups column).1 hmem
  rw [hone, hnone] at htext
  exact absurd htext (by decide)

end Select

end WsHyper.Auth
