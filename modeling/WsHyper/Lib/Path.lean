import WsHyper.Lib.Text
import Mathlib.Data.List.Basic

/-!
# Strings and paths of the operating system

An `OsStr` is the sequence of the characters and the ill-formed byte sequences
that a lossy decoder finds in it.  A `Path` is an absolute path without `.` and
`..`, as the list of its components from the root on; `Name` is a component that
is valid text.
-/

namespace WsHyper.Lib

/-- A Rust `str` as its characters. -/
abbrev Str := List Char

/-- A part of an operating system string: a character, or bytes that are none. -/
inductive OsUnit
  | char (c : Char)
  | invalid (bytes : List UInt8)
  deriving DecidableEq, Repr

abbrev OsStr := List OsUnit

namespace OsStr

def ofStr (text : Str) : OsStr := text.map .char

/-- `OsStr::to_str`. -/
def toStr : OsStr → Option Str
  | [] => some []
  | .char c :: rest => (toStr rest).map (c :: ·)
  | .invalid _ :: _ => none

/-- `OsStr::to_string_lossy`: bytes that are no text read as U+FFFD. -/
def toStringLossy (name : OsStr) : Str :=
  name.map fun
    | .char c => c
    | .invalid _ => Char.ofNat 0xFFFD

@[simp] theorem toStr_ofStr (text : Str) : toStr (ofStr text) = some text := by
  induction text with
  | nil => rfl
  | cons c cs ih =>
      rw [ofStr, List.map_cons, toStr, ← ofStr, ih]
      rfl

@[simp] theorem toStringLossy_ofStr (text : Str) : toStringLossy (ofStr text) = text := by
  simp [toStringLossy, ofStr, List.map_map, Function.comp_def]

/-- Without U+FFFD nothing was lost. -/
theorem ofStr_toStringLossy {name : OsStr} (hvalid : Char.ofNat 0xFFFD ∉ toStringLossy name) :
    ofStr (toStringLossy name) = name := by
  induction name with
  | nil => rfl
  | cons unit rest ih =>
      rw [toStringLossy, List.map_cons, ← toStringLossy, List.mem_cons, not_or] at hvalid
      rw [toStringLossy, List.map_cons, ← toStringLossy, ofStr, List.map_cons, ← ofStr,
        ih hvalid.2]
      cases unit with
      | char c => rfl
      | invalid bytes => exact absurd rfl hvalid.1

theorem ofStr_injective : Function.Injective ofStr :=
  List.map_injective_iff.2 fun _ _ h => OsUnit.char.inj h

theorem eq_ofStr_of_toStr {name : OsStr} {text : Str} (htext : toStr name = some text) :
    name = ofStr text := by
  induction name generalizing text with
  | nil =>
      obtain rfl := Option.some.inj htext
      rfl
  | cons unit rest ih =>
      cases unit with
      | invalid bytes => cases htext
      | char c =>
          rw [toStr, Option.map_eq_some_iff] at htext
          obtain ⟨cs, hrest, rfl⟩ := htext
          rw [ih hrest]
          rfl

end OsStr

def IsName (text : Str) : Prop :=
  text ≠ [] ∧ '/' ∉ text ∧ text ≠ ['.'] ∧ text ≠ ['.', '.']

instance (text : Str) : Decidable (IsName text) :=
  inferInstanceAs (Decidable (_ ∧ _ ∧ _ ∧ _))

/-- The name of a directory entry, as valid text. -/
structure Name where
  text : Str
  isName : IsName text
  deriving DecidableEq

namespace Name

theorem ext {a b : Name} (h : a.text = b.text) : a = b := by
  cases a
  cases b
  simp_all

theorem text_injective : Function.Injective Name.text := fun _ _ => ext

@[simp] theorem text_inj {a b : Name} : a.text = b.text ↔ a = b :=
  text_injective.eq_iff

theorem text_ne_nil (name : Name) : name.text ≠ [] := name.isName.1

theorem slash_not_mem (name : Name) : '/' ∉ name.text := name.isName.2.1

theorem text_ne_dot (name : Name) : name.text ≠ ['.'] := name.isName.2.2.1

end Name

/-- An absolute path, as its components from the root on. -/
abbrev Path := List OsStr

namespace Path

/-- The text that the components `comps` add to a path. -/
def below (comps : List Str) : Str := comps.flatMap ('/' :: ·)

/-- The text of an absolute path with components `comps`. -/
def render (comps : List Str) : Str :=
  if comps = [] then ['/'] else below comps

/-- `Path::to_str`. -/
def toStr (path : Path) : Option Str :=
  (path.mapM OsStr.toStr).map render

/-- `Path::parent`. -/
def parent (path : Path) : Option Path :=
  if path = [] then none else some path.dropLast

/-- `Path::file_name`. -/
def fileName (path : Path) : Option OsStr := path.getLast?

/-- `Path::join` with a single component. -/
def join (path : Path) (name : OsStr) : Path := path ++ [name]

def ofNames (names : List Name) : Path :=
  names.map fun name => OsStr.ofStr name.text

/-- A component that is text is a name, as in a path that was canonicalised. -/
def IsCanonical (path : Path) : Prop :=
  ∀ comp ∈ path, ∀ text, OsStr.toStr comp = some text → IsName text

@[simp] theorem parent_append_singleton (path : Path) (name : OsStr) :
    parent (path ++ [name]) = some path := by
  simp [parent]

@[simp] theorem fileName_append_singleton (path : Path) (name : OsStr) :
    fileName (path ++ [name]) = some name := by
  simp [fileName]

theorem ofNames_injective : Function.Injective ofNames :=
  List.map_injective_iff.2 fun _ _ h => Name.ext (OsStr.ofStr_injective h)

theorem mapM_toStr_ofNames (names : List Name) :
    (ofNames names).mapM OsStr.toStr = some (names.map Name.text) := by
  induction names with
  | nil => rfl
  | cons name names ih =>
      rw [ofNames, List.map_cons, ← ofNames, List.mapM_cons, OsStr.toStr_ofStr, ih]
      rfl

theorem toStr_ofNames (names : List Name) :
    toStr (ofNames names) = some (render (names.map Name.text)) := by
  rw [toStr, mapM_toStr_ofNames, Option.map_some]

theorem isCanonical_ofNames (names : List Name) : IsCanonical (ofNames names) := by
  intro comp hcomp text htext
  obtain ⟨name, -, rfl⟩ := List.mem_map.1 hcomp
  rw [OsStr.toStr_ofStr] at htext
  exact Option.some.inj htext ▸ name.isName

theorem exists_eq_ofNames {path : Path} (hpath : IsCanonical path)
    (htext : (toStr path).isSome) : ∃ names, path = ofNames names := by
  rw [toStr, Option.isSome_map] at htext
  induction path with
  | nil => exact ⟨[], rfl⟩
  | cons comp path ih =>
      rw [List.mapM_cons] at htext
      cases hcomp : OsStr.toStr comp with
      | none => simp [hcomp] at htext
      | some text =>
          cases hrest : path.mapM OsStr.toStr with
          | none => simp [hcomp, hrest] at htext
          | some texts =>
              obtain ⟨names, rfl⟩ := ih (fun c hc => hpath c (List.mem_cons_of_mem _ hc))
                (by rw [hrest, Option.isSome_some])
              have hname := hpath comp List.mem_cons_self text hcomp
              refine ⟨⟨text, hname⟩ :: names, ?_⟩
              rw [OsStr.eq_ofStr_of_toStr hcomp]
              rfl

theorem isSome_toStr_of_append {path rest : Path} (htext : (toStr (path ++ rest)).isSome) :
    (toStr path).isSome := by
  rw [toStr, Option.isSome_map, List.mapM_append] at htext
  rw [toStr, Option.isSome_map]
  cases hpath : path.mapM OsStr.toStr with
  | none => simp [hpath] at htext
  | some texts => rfl

theorem isSome_toStr_join {path : Path} {text : Str} :
    (toStr (path.join (OsStr.ofStr text))).isSome ↔ (toStr path).isSome := by
  rw [toStr, toStr, Option.isSome_map, Option.isSome_map, Path.join, List.mapM_append]
  cases path.mapM OsStr.toStr <;> simp

@[simp] theorem below_nil : below [] = [] := rfl

@[simp] theorem below_cons (comp : Str) (comps : List Str) :
    below (comp :: comps) = '/' :: comp ++ below comps := by
  simp [below]

@[simp] theorem below_append (xs ys : List Str) : below (xs ++ ys) = below xs ++ below ys := by
  simp [below]

theorem below_of_ne_nil {comps : List Str} (hcomps : comps ≠ []) :
    below comps = '/' :: ['/'].intercalate comps :=
  (Text.cons_intercalate_eq_flatMap '/' hcomps).symm

theorem below_injOn {xs ys : List Str} (hxs : ∀ x ∈ xs, '/' ∉ x) (hys : ∀ y ∈ ys, '/' ∉ y)
    (heq : below xs = below ys) : xs = ys := by
  cases xs with
  | nil => cases ys <;> simp_all
  | cons x xs =>
      cases ys with
      | nil => simp at heq
      | cons y ys =>
          rw [below_of_ne_nil (by simp), below_of_ne_nil (by simp), List.cons.injEq] at heq
          exact Text.intercalate_injOn hxs hys (by simp) (by simp) heq.2

@[simp] theorem render_append_cons (xs ys : List Str) (comp : Str) :
    render (xs ++ comp :: ys) = below (xs ++ comp :: ys) := by
  simp [render]

/-- A component occurs in the text of a path exactly when it occurs in the text
of its components; the lone `/` of the root holds none. -/
theorem infix_render_iff (name : Name) (comps : List Str) :
    name.text <:+: render comps ↔ name.text <:+: below comps := by
  cases comps with
  | cons c cs => simp [render]
  | nil =>
      have hne := name.text_ne_nil
      have hslash := name.slash_not_mem
      constructor
      · intro hoccurs
        obtain ⟨c, hc⟩ := List.exists_mem_of_ne_nil _ hne
        have hc' : c ∈ render [] := hoccurs.subset hc
        simp only [render, if_true, List.mem_singleton] at hc'
        exact absurd (hc' ▸ hc) hslash
      · intro hoccurs
        simp only [below_nil, List.infix_nil] at hoccurs
        exact absurd hoccurs hne

end Path

end WsHyper.Lib
