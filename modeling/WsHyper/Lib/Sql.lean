import Mathlib.Data.List.Nodup
import Mathlib.Logic.Function.Basic
import WsHyper.Lib.Panic
import WsHyper.Lib.Path

/-!
# A small relational database

Tables of rows with typed columns, their constraints, and the statements that a
client sends: a row to insert, columns to set, rows to delete or to fetch.  A
statement comes as it is written, piece by piece and with placeholders, together
with the values that are bound to them.  It is checked against the schema first; a
statement that fails changes nothing, and one that does not leaves tables that
keep every constraint.
-/

namespace WsHyper.Lib

abbrev Uuid := { bytes : List UInt8 // bytes.length = 16 }

namespace Uuid

def nil : Uuid := ⟨List.replicate 16 0, rfl⟩

/-- `Uuid::from_slice`. -/
def fromSlice (bytes : List UInt8) : Option Uuid :=
  if h : bytes.length = 16 then some ⟨bytes, h⟩ else none

end Uuid

namespace Sql

inductive ColumnType
  | text
  | uuid
  | enum (name : String)
  | enumArray (name : String)
  deriving DecidableEq

inductive Value
  | null
  | text (text : Str)
  | uuid (uuid : Uuid)
  | label (label : String)
  | labels (labels : List (Option String))
  deriving DecidableEq

/-- A value that a client binds to a placeholder, with its type. -/
structure Param where
  type : ColumnType
  value : Value

abbrev Row := String → Value

abbrev Tables := String → List Row

/-- `ON DELETE SET NULL ON UPDATE CASCADE`. -/
structure ForeignKey where
  column : String
  table : String
  key : String

structure TableDef where
  name : String
  columns : List (String × ColumnType)
  primaryKey : List String
  unique : List String
  foreignKeys : List ForeignKey

inductive SqlError
  | syntaxError
  | unknownTable (name : String)
  | unknownColumn (name : String)
  | duplicateColumn
  | typeMismatch
  | invalidLabel (text : String)
  | noOperator
  | parameterCount
  | notNullViolation
  | uniqueViolation
  | foreignKeyViolation
  /-- A query that this model does not evaluate; no error of a database. -/
  | unsupported
  deriving DecidableEq

structure Schema where
  enums : String → List String
  tables : List TableDef
  /-- The triggers that run after a row was inserted into a table. -/
  afterInsert : String → Row → Tables → Except SqlError Tables

/-! ## Constraints -/

/-- `NULL` is of every type; a label has to be one of its enumeration. -/
def Value.hasType (enums : String → List String) : Value → ColumnType → Bool
  | .null, _ => true
  | .text _, .text => true
  | .uuid _, .uuid => true
  | .label l, .enum name => l ∈ enums name
  | .labels ls, .enumArray name => ls.all fun l => l.all (· ∈ enums name)
  | _, _ => false

namespace TableDef

/-- Two rows have the same value here only if it is `NULL`. -/
def UniqueIn (rows : List Row) (column : String) : Prop :=
  ((rows.map (· column)).filter (· ≠ .null)).Nodup

/-- The constraints that the rows of a table keep by themselves. -/
structure Keeps (d : TableDef) (enums : String → List String) (rows : List Row) : Prop where
  types : ∀ row ∈ rows, ∀ column ∈ d.columns, (row column.1).hasType enums column.2
  notNull : ∀ row ∈ rows, ∀ column ∈ d.primaryKey, row column ≠ .null
  primaryKey : (rows.map fun row => d.primaryKey.map row).Nodup
  unique : ∀ column ∈ d.unique, UniqueIn rows column

/-- Every reference is `NULL` or leads to a row. -/
def Refers (d : TableDef) (tables : Tables) : Prop :=
  ∀ fk ∈ d.foreignKeys, ∀ row ∈ tables d.name,
    row fk.column = .null ∨ ∃ target ∈ tables fk.table, target fk.key = row fk.column

instance (rows : List Row) (column : String) : Decidable (UniqueIn rows column) :=
  inferInstanceAs (Decidable (List.Nodup _))

instance (d : TableDef) (enums : String → List String) (rows : List Row) :
    Decidable (d.Keeps enums rows) :=
  decidable_of_iff
    ((∀ row ∈ rows, ∀ column ∈ d.columns, (row column.1).hasType enums column.2) ∧
      (∀ row ∈ rows, ∀ column ∈ d.primaryKey, row column ≠ .null) ∧
      (rows.map fun row => d.primaryKey.map row).Nodup ∧
      ∀ column ∈ d.unique, UniqueIn rows column)
    ⟨fun ⟨h₁, h₂, h₃, h₄⟩ => ⟨h₁, h₂, h₃, h₄⟩, fun ⟨h₁, h₂, h₃, h₄⟩ => ⟨h₁, h₂, h₃, h₄⟩⟩

instance (d : TableDef) (tables : Tables) : Decidable (d.Refers tables) :=
  inferInstanceAs (Decidable (∀ fk ∈ d.foreignKeys, ∀ row ∈ tables d.name,
    row fk.column = .null ∨ ∃ target ∈ tables fk.table, target fk.key = row fk.column))

end TableDef

def Schema.Valid (schema : Schema) (tables : Tables) : Prop :=
  ∀ d ∈ schema.tables, d.Keeps schema.enums (tables d.name) ∧ d.Refers tables

instance (schema : Schema) (tables : Tables) : Decidable (schema.Valid tables) :=
  inferInstanceAs (Decidable (∀ d ∈ schema.tables,
    d.Keeps schema.enums (tables d.name) ∧ d.Refers tables))

structure Database (schema : Schema) where
  tables : Tables
  valid : schema.Valid tables

/-- What a statement leaves, if it keeps the constraints. -/
def Schema.commit (schema : Schema) (tables : Tables) : Except SqlError (Database schema) :=
  if valid : schema.Valid tables then .ok { tables, valid }
  else if ∀ d ∈ schema.tables, ∀ row ∈ tables d.name, ∀ column ∈ d.primaryKey,
      row column ≠ .null then
    if ∀ d ∈ schema.tables, d.Refers tables then .error .uniqueViolation
    else .error .foreignKeyViolation
  else .error .notNullViolation

/-! ## Statements -/

/-- A piece of a statement: what is written before it, then `column = $n` or
`column = ANY($n)`. -/
structure Piece where
  lead : String
  column : String
  any : Bool
  placeholder : Nat
  deriving DecidableEq

inductive Statement
  | insert (table : String) (columns : List String) (placeholders : List Nat)
  | update (table : String) (sets wheres : List Piece)
  | delete (table : String) (wheres : List Piece)

/-- Where a query takes its rows from.  One over several tables is modelled as far
as its names are looked up: by table and column, each from a table it names. -/
inductive Source
  | all (table : String)
  | joined (columns : List (String × String))

structure Select where
  source : Source
  wheres : List Piece
  groupBy : List String

namespace Schema

variable (schema : Schema)

def table (name : String) : Except SqlError TableDef :=
  match schema.tables.find? (·.name = name) with
  | some d => .ok d
  | none => .error (.unknownTable name)

end Schema

def TableDef.columnType (d : TableDef) (column : String) : Except SqlError ColumnType :=
  match d.columns.lookup column with
  | some type => .ok type
  | none => .error (.unknownColumn column)

/-- The parameter of a placeholder; they are counted from one. -/
def bound (params : List Param) : Nat → Except SqlError Param
  | 0 => .error .syntaxError
  | n + 1 =>
      match params[n]? with
      | some param => .ok param
      | none => .error .parameterCount

namespace Schema

variable (schema : Schema)

/-- The value of a parameter in place of one of the given type. -/
def typed (param : Param) (type : ColumnType) : Except SqlError Value :=
  if param.type = type then
    if param.value.hasType schema.enums type then .ok param.value
    else .error (.invalidLabel (match param.value with | .label label => label | _ => ""))
  else .error .typeMismatch

/-- A condition, which `NULL` never meets. -/
def condition (d : TableDef) (params : List Param) (piece : Piece) :
    Except SqlError (Row → Bool) := do
  let type ← d.columnType piece.column
  let param ← bound params piece.placeholder
  if piece.any then
    match param.type, type with
    | .enumArray name, .enum name' =>
        if name = name' then do
          let value ← schema.typed param (.enumArray name)
          .ok fun row => match value, row piece.column with
            | .labels labels, .label label => some label ∈ labels
            | _, _ => false
        else .error .noOperator
    | _, _ => .error .noOperator
  else do
    let value ← schema.typed param type
    .ok fun row => value ≠ .null ∧ row piece.column = value

/-- `WHERE` stands before the first condition and `AND` before each other one. -/
def conditions (d : TableDef) (params : List Param) (pieces : List Piece) :
    Except SqlError (Row → Bool) := do
  if pieces.map Piece.lead = (pieces.mapIdx fun i _ => if i = 0 then " WHERE" else " AND") then
    let checks ← pieces.mapM (schema.condition d params)
    .ok fun row => checks.all (· row)
  else .error .syntaxError

def assignment (d : TableDef) (params : List Param)
    (entry : String × Nat) : Except SqlError (String × Value) := do
  let type ← d.columnType entry.1
  let param ← bound params entry.2
  let value ← schema.typed param type
  .ok (entry.1, value)

def assignments (d : TableDef) (params : List Param) (columns : List String)
    (placeholders : List Nat) : Except SqlError (List (String × Value)) := do
  if columns.length = placeholders.length then
    if columns.Nodup then
      (columns.zip placeholders).mapM (schema.assignment d params)
    else .error .duplicateColumn
  else .error .syntaxError

def assign (values : List (String × Value)) (row : Row) : Row := fun column =>
  (values.lookup column).getD (row column)

/-- References from other rows follow a change of keys; each change is told by the
key column before and after. -/
def follow (fk : ForeignKey) (changes : List (Row × Row)) (row : Row) : Row :=
  match changes.find? fun change =>
      change.1 fk.key = row fk.column ∧ row fk.column ≠ .null with
  | some change => Function.update row fk.column (change.2 fk.key)
  | none => row

def followAll (table : String) (changes : List (Row × Row)) (tables : Tables) : Tables :=
  fun name =>
    match schema.tables.find? (·.name = name) with
    | none => tables name
    | some d =>
        d.foreignKeys.foldl (fun rows fk =>
          if fk.table = table then rows.map (follow fk changes) else rows) (tables name)

end Schema

namespace Database

variable {schema : Schema} (db : Database schema)

/-- `INSERT`, with the defaults that the columns have at this time. -/
def insert (defaults : Row) (table : String) (columns : List String) (placeholders : List Nat)
    (params : List Param) : Except SqlError (Database schema × Nat) := do
  let d ← schema.table table
  let values ← schema.assignments d params columns placeholders
  let row := Schema.assign values defaults
  let inserted ← schema.commit (Function.update db.tables table (db.tables table ++ [row]))
  let tables ← schema.afterInsert table row inserted.tables
  let db ← schema.commit tables
  .ok (db, 1)

/-- `UPDATE`; a comma stands before each assignment but the first. -/
def update (table : String) (sets wheres : List Piece) (params : List Param) :
    Except SqlError (Database schema × Nat) := do
  let d ← schema.table table
  if sets ≠ [] ∧ sets.map Piece.lead = sets.mapIdx fun i _ => if i = 0 then "" else "," then
    let values ← schema.assignments d params (sets.map Piece.column) (sets.map Piece.placeholder)
    let chosen ← schema.conditions d params wheres
    let rows := db.tables table
    let changes := (rows.filter chosen).map fun row => (row, Schema.assign values row)
    let db ← schema.commit (schema.followAll table changes (Function.update db.tables table
      (rows.map fun row => if chosen row then Schema.assign values row else row)))
    .ok (db, changes.length)
  else .error .syntaxError

/-- `DELETE`; who refers to a deleted row refers to nothing afterwards. -/
def delete (table : String) (wheres : List Piece) (params : List Param) :
    Except SqlError (Database schema × Nat) := do
  let d ← schema.table table
  let chosen ← schema.conditions d params wheres
  let rows := db.tables table
  let changes := (rows.filter chosen).map fun row => (row, fun _ => Value.null)
  let db ← schema.commit (schema.followAll table changes (Function.update db.tables table
    (rows.filter fun row => !chosen row)))
  .ok (db, changes.length)

/-- What a statement leaves, and how many rows it affected. -/
def execute (defaults : Row) (statement : Statement) (params : List Param) :
    Except SqlError (Database schema × Nat) :=
  match statement with
  | .insert table columns placeholders => db.insert defaults table columns placeholders params
  | .update table sets wheres => db.update table sets wheres params
  | .delete table wheres => db.delete table wheres params

def fetch (select : Select) (params : List Param) : Except SqlError (List Row) :=
  match select.source with
  | .all table => do
      let d ← schema.table table
      let chosen ← schema.conditions d params select.wheres
      if select.groupBy = [] then .ok ((db.tables table).filter chosen)
      else .error .syntaxError
  | .joined columns => do
      let _ ← columns.mapM fun (table, column) => do
        let d ← schema.table table
        d.columnType column
      .error .unsupported

end Database

/-! ## What a statement does -/

section Statements

variable {schema : Schema} {db db' : Database schema} {tables : Tables} {name : String}
  {sets wheres : List Piece} {params : List Param} {columns : List String}
  {placeholders : List Nat} {defaults : Row} {n : Nat}

@[ext] theorem Database.ext (htables : db.tables = db'.tables) : db = db' := by
  cases db
  cases db'
  simp only at htables
  subst htables
  rfl

theorem commit_eq_ok_iff : schema.commit tables = .ok db ↔ db.tables = tables := by
  unfold Schema.commit
  constructor
  · intro h
    split_ifs at h with hvalid
    rw [← Except.ok.inj h]
  · rintro rfl
    rw [dif_pos db.valid]

theorem insert_eq_ok (h : db.insert defaults name columns placeholders params = .ok (db', n)) :
    ∃ d values inserted, schema.table name = .ok d ∧
      schema.assignments d params columns placeholders = .ok values ∧
      schema.commit (Function.update db.tables name
        (db.tables name ++ [Schema.assign values defaults])) = .ok inserted ∧
      schema.afterInsert name (Schema.assign values defaults) inserted.tables =
        .ok db'.tables := by
  unfold Database.insert at h
  obtain ⟨d, hd, h⟩ := bind_eq_ok h
  obtain ⟨values, hvalues, h⟩ := bind_eq_ok h
  obtain ⟨inserted, hinserted, h⟩ := bind_eq_ok h
  obtain ⟨tables, htables, h⟩ := bind_eq_ok h
  obtain ⟨last, hlast, h⟩ := bind_eq_ok h
  obtain ⟨rfl, -⟩ := Prod.mk.inj (Except.ok.inj h)
  rw [commit_eq_ok_iff] at hlast
  exact ⟨d, values, inserted, hd, hvalues, hinserted, by rw [htables, hlast]⟩

theorem update_eq_ok (h : db.update name sets wheres params = .ok (db', n)) :
    ∃ d values chosen, schema.table name = .ok d ∧
      schema.assignments d params (sets.map Piece.column) (sets.map Piece.placeholder) =
        .ok values ∧
      schema.conditions d params wheres = .ok chosen ∧
      n = ((db.tables name).filter chosen).length ∧
      db'.tables = schema.followAll name
        (((db.tables name).filter chosen).map fun row => (row, Schema.assign values row))
        (Function.update db.tables name
          ((db.tables name).map fun row =>
            if chosen row then Schema.assign values row else row)) := by
  unfold Database.update at h
  obtain ⟨d, hd, h⟩ := bind_eq_ok h
  split_ifs at h with hleads
  obtain ⟨values, hvalues, h⟩ := bind_eq_ok h
  obtain ⟨chosen, hchosen, h⟩ := bind_eq_ok h
  obtain ⟨last, hlast, h⟩ := bind_eq_ok h
  obtain ⟨rfl, rfl⟩ := Prod.mk.inj (Except.ok.inj h)
  rw [commit_eq_ok_iff] at hlast
  exact ⟨d, values, chosen, hd, hvalues, hchosen, by rw [List.length_map], hlast⟩

theorem typed_eq_ok_iff {param : Param} {type : ColumnType} {value : Value} :
    schema.typed param type = .ok value ↔
      param.type = type ∧ param.value.hasType schema.enums type ∧ value = param.value := by
  unfold Schema.typed
  constructor
  · intro h
    split_ifs at h with htype hvalue
    exact ⟨htype, hvalue, (Except.ok.inj h).symm⟩
  · rintro ⟨htype, hvalue, rfl⟩
    rw [if_pos htype, if_pos hvalue]

theorem conditions_singleton {d : TableDef} {column : String} {len : Nat} {param : Param}
    (htype : d.columnType column = .ok param.type) (hparam : params[len]? = some param)
    (hvalue : param.value.hasType schema.enums param.type) :
    schema.conditions d params
        [{ lead := " WHERE", column, any := false, placeholder := len + 1 }] =
      .ok fun row => param.value ≠ .null ∧ row column = param.value := by
  have hbound : bound params (len + 1) = .ok param := by
    rw [bound, hparam]
  have htyped : schema.typed param param.type = .ok param.value :=
    typed_eq_ok_iff.2 ⟨rfl, hvalue, rfl⟩
  have hcondition : schema.condition d params
      { lead := " WHERE", column, any := false, placeholder := len + 1 } =
        .ok fun row => param.value ≠ .null ∧ row column = param.value := by
    simp only [Schema.condition, htype, hbound, ok_bind, htyped, Bool.false_eq_true, if_false]
  simp [Schema.conditions, hcondition, pure, Except.pure]

theorem conditions_unknown {d : TableDef} {piece : Piece} {chosen : Row → Bool}
    (hcolumn : d.columns.lookup piece.column = none) (hmem : piece ∈ wheres) :
    schema.conditions d params wheres ≠ .ok chosen := by
  intro h
  unfold Schema.conditions at h
  split_ifs at h
  obtain ⟨checks, hchecks, -⟩ := bind_eq_ok h
  obtain ⟨check, hcheck⟩ := exists_of_mapM_eq_ok hchecks hmem
  simp only [Schema.condition, TableDef.columnType, hcolumn, error_bind] at hcheck
  cases hcheck

/-! ## References -/

variable {changes : List (Row × Row)} {fk : ForeignKey}

/-- Who refers to keys that stay needs not follow. -/
theorem follow_of_keys_kept (hkept : ∀ change ∈ changes, change.2 fk.key = change.1 fk.key)
    (row : Row) : Schema.follow fk changes row = row := by
  unfold Schema.follow
  split
  · rename_i change hfind
    have hmem := List.mem_of_find?_eq_some hfind
    have heq : change.1 fk.key = row fk.column := by
      have := List.find?_some hfind
      simp only [decide_eq_true_eq] at this
      exact this.1
    rw [hkept change hmem, heq, Function.update_eq_self]
  · rfl

theorem follow_of_forall_ne {row : Row}
    (hne : ∀ change ∈ changes, change.1 fk.key ≠ row fk.column) :
    Schema.follow fk changes row = row := by
  unfold Schema.follow
  split
  · rename_i change hfind
    have hmeets := List.find?_some hfind
    simp only [decide_eq_true_eq] at hmeets
    exact absurd hmeets.1 (hne change (List.mem_of_find?_eq_some hfind))
  · rfl

theorem follow_of_mem {row : Row} {change : Row × Row} (hmem : change ∈ changes)
    (hkey : change.1 fk.key = row fk.column) (hnotNull : row fk.column ≠ .null) :
    ∃ change ∈ changes, Schema.follow fk changes row =
      Function.update row fk.column (change.2 fk.key) := by
  unfold Schema.follow
  split
  · rename_i change' hfind
    exact ⟨change', List.mem_of_find?_eq_some hfind, rfl⟩
  · rename_i hfind
    rw [List.find?_eq_none] at hfind
    have hne := hfind change hmem
    simp only [decide_eq_true_eq] at hne
    exact absurd ⟨hkey, hnotNull⟩ hne

theorem followAll_apply_of_forall {d : TableDef}
    (hfind : schema.tables.find? (·.name = name) = some d)
    {table : String} (hstays : ∀ fk ∈ d.foreignKeys, fk.table = table →
      ∀ row ∈ tables name, Schema.follow fk changes row = row) :
    schema.followAll table changes tables name = tables name := by
  simp only [Schema.followAll, hfind]
  generalize tables name = rows at hstays
  generalize d.foreignKeys = fks at hstays
  induction fks with
  | nil => rfl
  | cons fk fks ih =>
      have hfirst : (if fk.table = table then rows.map (Schema.follow fk changes) else rows) =
          rows := by
        split_ifs with htable
        · conv_rhs => rw [← List.map_id rows]
          exact List.map_congr_left fun row hrow => hstays fk List.mem_cons_self htable row hrow
        · rfl
      rw [List.foldl_cons, hfirst]
      exact ih fun fk hfk => hstays fk (List.mem_cons_of_mem _ hfk)

theorem followAll_apply {table : String}
    (hrefers : ∀ d ∈ schema.tables, d.name = name → ∀ fk ∈ d.foreignKeys, fk.table ≠ table) :
    schema.followAll table changes tables name = tables name := by
  cases hfind : schema.tables.find? (·.name = name) with
  | none => simp only [Schema.followAll, hfind]
  | some d =>
      refine followAll_apply_of_forall hfind fun fk hfk htable => ?_
      exact absurd htable (hrefers d (List.mem_of_find?_eq_some hfind)
        (by simpa using List.find?_some hfind) fk hfk)

theorem followAll_eq_self {table : String}
    (hkept : ∀ d ∈ schema.tables, ∀ fk ∈ d.foreignKeys, fk.table = table →
      ∀ change ∈ changes, change.2 fk.key = change.1 fk.key) :
    schema.followAll table changes tables = tables := by
  funext name
  cases hfind : schema.tables.find? (·.name = name) with
  | none => simp only [Schema.followAll, hfind]
  | some d =>
      refine followAll_apply_of_forall hfind fun fk hfk htable row _ => ?_
      exact follow_of_keys_kept (hkept d (List.mem_of_find?_eq_some hfind) fk hfk htable) row

/-! ## Assignments -/

theorem assignment_eq_ok {d : TableDef} {entry : String × Nat} {value : String × Value}
    (h : schema.assignment d params entry = .ok value) :
    ∃ param, bound params entry.2 = .ok param ∧ d.columnType entry.1 = .ok param.type ∧
      param.value.hasType schema.enums param.type ∧ value = (entry.1, param.value) := by
  unfold Schema.assignment at h
  obtain ⟨type, htype, h⟩ := bind_eq_ok h
  obtain ⟨param, hparam, h⟩ := bind_eq_ok h
  obtain ⟨value', hvalue, h⟩ := bind_eq_ok h
  obtain ⟨rfl, hhas, rfl⟩ := typed_eq_ok_iff.1 hvalue
  exact ⟨param, hparam, htype, hhas, (Except.ok.inj h).symm⟩

/-- Each placeholder has its own parameter, and the values stand for the columns in
order. -/
theorem assignments_eq_ok {d : TableDef} {params' : List Param} {values : List (String × Value)}
    (h : schema.assignments d (params ++ params') columns
      ((List.range columns.length).map (· + 1)) = .ok values)
    (hlength : params.length = columns.length) :
    values = columns.zip (params.map Param.value) ∧
      ∀ column param, (column, param) ∈ columns.zip params →
        d.columnType column = .ok param.type ∧ param.value.hasType schema.enums param.type := by
  unfold Schema.assignments at h
  split_ifs at h with hsame hnodup
  obtain ⟨hvalues, heach⟩ := List.forall₂_iff_get.1 (mapM_eq_ok h)
  have hcount : values.length = columns.length := by
    rw [← hvalues]
    simp
  have hget (i : Nat) (hi : i < columns.length) : ∃ hi' : i < values.length,
      values[i] = (columns[i], params[i].value) ∧ d.columnType columns[i] = .ok params[i].type ∧
        params[i].value.hasType schema.enums params[i].type := by
    have hi' : i < values.length := by omega
    have hassigned : schema.assignment d (params ++ params') (columns[i], i + 1) =
        .ok values[i] := by
      have hstep := heach i (by simpa using hi) hi'
      simp only [List.get_eq_getElem, List.getElem_zip, List.getElem_map,
        List.getElem_range] at hstep
      exact hstep
    obtain ⟨param, hparam, htype, hhas, hvalue⟩ := assignment_eq_ok hassigned
    have hbound : params[i] = param := by
      simp only [bound, List.getElem?_append_left (by omega : i < params.length),
        List.getElem?_eq_getElem (by omega : i < params.length)] at hparam
      exact Except.ok.inj hparam
    subst hbound
    exact ⟨hi', hvalue, htype, hhas⟩
  constructor
  · refine List.ext_getElem (by simp [hcount, hlength]) fun i hi hi' => ?_
    obtain ⟨_, hvalue, _⟩ := hget i (by omega)
    rw [hvalue, List.getElem_zip, List.getElem_map]
  · intro column param hmem
    obtain ⟨i, hi, heq⟩ := List.getElem_of_mem hmem
    rw [List.getElem_zip, Prod.mk.injEq] at heq
    obtain ⟨rfl, rfl⟩ := heq
    rw [List.length_zip] at hi
    obtain ⟨_, _, htype, hhas⟩ := hget i (by omega)
    exact ⟨htype, hhas⟩

theorem assignments_ok {d : TableDef} (hlength : params.length = columns.length)
    (hnodup : columns.Nodup) (htyped : ∀ column param, (column, param) ∈ columns.zip params →
      d.columnType column = .ok param.type ∧ param.value.hasType schema.enums param.type) :
    schema.assignments d params columns ((List.range columns.length).map (· + 1)) =
      .ok (columns.zip (params.map Param.value)) := by
  unfold Schema.assignments
  rw [if_pos (by simp), if_pos hnodup]
  apply mapM_ok
  refine List.forall₂_iff_get.2 ⟨by simp [hlength], fun i hi hi' => ?_⟩
  have hi₁ : i < columns.length := by
    rw [List.length_zip] at hi
    omega
  have hi₂ : i < params.length := by omega
  obtain ⟨htype, hvalue⟩ := htyped columns[i] params[i]
    (List.mem_iff_getElem.2 ⟨i, by rw [List.length_zip]; omega, List.getElem_zip⟩)
  have hbound : bound params (i + 1) = .ok params[i] := by
    simp [bound, List.getElem?_eq_getElem hi₂]
  have hvalue' := typed_eq_ok_iff.2 ⟨rfl, hvalue, rfl⟩
  simp only [List.get_eq_getElem, List.getElem_zip, List.getElem_map, List.getElem_range,
    Schema.assignment, htype, ok_bind, hbound, hvalue']

theorem assign_of_notMem {values : List (String × Value)} {column : String} {row : Row}
    (hcolumn : column ∉ values.map Prod.fst) : Schema.assign values row column = row column := by
  rw [Schema.assign, List.lookup_eq_none_iff.2, Option.getD_none]
  intro entry hentry
  simp only [bne_iff_ne, ne_eq]
  rintro rfl
  exact hcolumn (List.mem_map_of_mem hentry)

/-! ## Rows that come and go -/

theorem TableDef.Keeps.sublist {d : TableDef} {enums : String → List String}
    {rows rows' : List Row} (hkeeps : d.Keeps enums rows) (hsub : rows'.Sublist rows) :
    d.Keeps enums rows' where
  types row hrow := hkeeps.types row (hsub.mem hrow)
  notNull row hrow := hkeeps.notNull row (hsub.mem hrow)
  primaryKey := hkeeps.primaryKey.sublist (hsub.map _)
  unique column hcolumn := (hkeeps.unique column hcolumn).sublist ((hsub.map _).filter _)

theorem TableDef.Keeps.concat {d : TableDef} {enums : String → List String} {rows : List Row}
    {row : Row} (hkeeps : d.Keeps enums rows)
    (htypes : ∀ column ∈ d.columns, (row column.1).hasType enums column.2)
    (hnotNull : ∀ column ∈ d.primaryKey, row column ≠ .null)
    (hkey : ∀ other ∈ rows, d.primaryKey.map other ≠ d.primaryKey.map row)
    (hunique : ∀ column ∈ d.unique, ∀ other ∈ rows, other column ≠ row column) :
    d.Keeps enums (rows ++ [row]) where
  types other hother := by
    rcases List.mem_append.1 hother with hother | hother
    · exact hkeeps.types other hother
    · rw [List.mem_singleton.1 hother]
      exact htypes
  notNull other hother := by
    rcases List.mem_append.1 hother with hother | hother
    · exact hkeeps.notNull other hother
    · rw [List.mem_singleton.1 hother]
      exact hnotNull
  primaryKey := by
    rw [List.map_append, List.map_singleton, ← List.concat_eq_append, List.nodup_concat]
    refine ⟨fun hmem => ?_, hkeeps.primaryKey⟩
    obtain ⟨other, hother, heq⟩ := List.mem_map.1 hmem
    exact hkey other hother heq
  unique column hcolumn := by
    rw [UniqueIn, List.map_append, List.filter_append]
    refine List.nodup_append.2 ⟨hkeeps.unique column hcolumn, ?_, ?_⟩
    · exact (List.nodup_singleton _).sublist List.filter_sublist
    · rintro value hvalue value' hvalue' rfl
      obtain ⟨other, hother, rfl⟩ := List.mem_map.1 (List.mem_filter.1 hvalue).1
      exact hunique column hcolumn other hother
        (List.mem_singleton.1 (List.mem_filter.1 hvalue').1)

end Statements

end Sql

end WsHyper.Lib
