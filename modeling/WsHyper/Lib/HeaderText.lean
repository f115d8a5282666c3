import WsHyper.Lib.Path
import Mathlib.Data.List.TakeWhile

/-!
# The text of headers

A header value is any bytes; as a text it is read only if all of them are visible
characters of ASCII.  Texts from headers are trimmed and taken apart at separators.
-/

namespace WsHyper.Lib

/-! ## Header values -/

abbrev HeaderValue := List UInt8

/-- Names are in lower case; `get` finds the first value of a name. -/
abbrev HeaderMap := List (String × HeaderValue)

def HeaderMap.get (headers : HeaderMap) (name : String) : Option HeaderValue :=
  headers.lookup name

namespace HeaderMap

/-- The values that the name has so far are dropped. -/
def insert (headers : HeaderMap) (name : String) (value : HeaderValue) : HeaderMap :=
  (name, value) :: headers.filter fun entry => entry.1 != name

/-- The names of `more`, each inserted. -/
def extend (headers more : HeaderMap) : HeaderMap :=
  more.foldl (fun headers entry => headers.insert entry.1 entry.2) headers

@[simp] theorem get_insert_self (headers : HeaderMap) (name : String) (value : HeaderValue) :
    (headers.insert name value).get name = some value := by
  rw [get, insert, List.lookup_cons, beq_self_eq_true]

theorem get_insert_of_ne (headers : HeaderMap) {name other : String} (value : HeaderValue)
    (hne : other ≠ name) : (headers.insert name value).get other = headers.get other := by
  rw [get, insert, List.lookup_cons, beq_eq_false_iff_ne.2 hne]
  change List.lookup other (headers.filter fun entry => entry.1 != name) =
    List.lookup other headers
  induction headers with
  | nil => rfl
  | cons entry headers ih =>
      obtain ⟨key, kept⟩ := entry
      by_cases hkey : key = name
      · subst hkey
        rw [List.filter_cons_of_neg (by simp), ih, List.lookup_cons, beq_eq_false_iff_ne.2 hne]
      · rw [List.filter_cons_of_pos (by simpa using hkey), List.lookup_cons, List.lookup_cons, ih]

theorem nodup_insert {headers : HeaderMap} (hnodup : (headers.map Prod.fst).Nodup) (name : String)
    (value : HeaderValue) : ((headers.insert name value).map Prod.fst).Nodup := by
  rw [insert, List.map_cons, List.nodup_cons]
  refine ⟨?_, hnodup.sublist (List.filter_sublist.map Prod.fst)⟩
  intro hmem
  obtain ⟨entry, hentry, hname⟩ := List.mem_map.1 hmem
  have hne := (List.mem_filter.1 hentry).2
  rw [hname, bne_self_eq_false] at hne
  cases hne

theorem get_extend {headers more : HeaderMap} (hnodup : (more.map Prod.fst).Nodup)
    (name : String) : (headers.extend more).get name = (more.get name).or (headers.get name) := by
  induction more generalizing headers with
  | nil => rfl
  | cons entry more ih =>
      obtain ⟨key, value⟩ := entry
      rw [List.map_cons, List.nodup_cons] at hnodup
      have hstep : headers.extend ((key, value) :: more) = (headers.insert key value).extend more :=
        rfl
      rw [hstep, ih hnodup.2]
      by_cases hkey : name = key
      · subst hkey
        have habsent : get more name = none := by
          rw [get, List.lookup_eq_none_iff]
          rintro ⟨other, kept⟩ hentry
          simp only [bne_iff_ne]
          rintro rfl
          exact hnodup.1 (List.mem_map.2 ⟨(name, kept), hentry, rfl⟩)
        rw [habsent, get_insert_self, get, List.lookup_cons, beq_self_eq_true]
        rfl
      · have hother : get ((key, value) :: more) name = get more name := by
          rw [get, List.lookup_cons, beq_eq_false_iff_ne.2 hkey]
          rfl
        rw [get_insert_of_ne headers value hkey, hother]

end HeaderMap

namespace HeaderValue

/-- `to_str`, of visible characters only. -/
def toStr (value : HeaderValue) : Option Str :=
  if value.all fun b => b = 9 ∨ 32 ≤ b ∧ b < 127 then
    some (value.map fun b => Char.ofNat b.toNat)
  else none

/-- The bytes of a text. -/
def ofStr (text : Str) : HeaderValue := text.flatMap String.utf8EncodeChar

end HeaderValue

def IsVisibleChar (c : Char) : Prop := c.toNat = 9 ∨ 32 ≤ c.toNat ∧ c.toNat < 127

instance (c : Char) : Decidable (IsVisibleChar c) := inferInstanceAs (Decidable (_ ∨ _ ∧ _))

/-- A text that a header can carry as text. -/
def IsVisibleText (text : Str) : Prop := ∀ c ∈ text, IsVisibleChar c

instance (text : Str) : Decidable (IsVisibleText text) :=
  List.decidableBAll IsVisibleChar text

namespace HeaderValue

theorem utf8EncodeChar_of_visible {c : Char} (hvisible : IsVisibleChar c) :
    String.utf8EncodeChar c = [UInt8.ofNat c.toNat] := by
  have hlt : c.val.toNat ≤ 0x7f := by
    rcases hvisible with hvisible | hvisible <;> simp only [Char.toNat] at hvisible <;> omega
  rw [String.utf8EncodeChar]
  exact if_pos hlt

/-- Of any other character there is a byte that is not visible: a lone one below 128,
or a leading one. -/
theorem exists_not_visible {c : Char} (hvisible : ¬IsVisibleChar c) :
    ∃ b ∈ String.utf8EncodeChar c, ¬(b = 9 ∨ 32 ≤ b ∧ b < 127) := by
  have hbyte : ∀ n : Nat, n < 256 → n ≠ 9 → (n < 32 ∨ 127 ≤ n) →
      ¬(UInt8.ofNat n = 9 ∨ 32 ≤ UInt8.ofNat n ∧ UInt8.ofNat n < 127) := by
    intro n hn hne hout
    rw [← UInt8.toNat_inj, UInt8.le_iff_toNat_le, UInt8.lt_iff_toNat_lt, UInt8.toNat_ofNat',
      Nat.mod_eq_of_lt hn]
    simp only [UInt8.reduceToNat]
    omega
  simp only [IsVisibleChar, Char.toNat, not_or, not_and, not_lt] at hvisible
  rw [String.utf8EncodeChar]
  split_ifs with hone htwo hthree
  · exact ⟨_, List.mem_cons_self, hbyte _ (by omega) hvisible.1 (by omega)⟩
  · exact ⟨_, List.mem_cons_self, hbyte _ (by omega) (by omega) (by omega)⟩
  · exact ⟨_, List.mem_cons_self, hbyte _ (by omega) (by omega) (by omega)⟩
  · exact ⟨_, List.mem_cons_self, hbyte _ (by omega) (by omega) (by omega)⟩

theorem ofStr_injective : Function.Injective ofStr := by
  intro a b hbytes
  have hstring : (String.ofList a).toByteArray = (String.ofList b).toByteArray :=
    congrArg List.toByteArray hbytes
  exact String.ofList_injective (String.toByteArray_inj.1 hstring)

theorem ofStr_of_visible {text : Str} (hvisible : IsVisibleText text) :
    ofStr text = text.map fun c => UInt8.ofNat c.toNat := by
  rw [ofStr, List.flatMap_congr fun c hc => utf8EncodeChar_of_visible (hvisible c hc),
    List.map_eq_flatMap]

theorem toStr_ofStr {text : Str} (hvisible : IsVisibleText text) :
    (ofStr text).toStr = some text := by
  have hnat : ∀ c ∈ text, (UInt8.ofNat c.toNat).toNat = c.toNat := by
    intro c hc
    rw [UInt8.toNat_ofNat']
    have hlt := hvisible c hc
    unfold IsVisibleChar at hlt
    omega
  have hall : (ofStr text).all (fun b => b = 9 ∨ 32 ≤ b ∧ b < 127) = true := by
    rw [ofStr_of_visible hvisible, List.all_map, List.all_eq_true]
    intro c hc
    rw [Function.comp_apply, decide_eq_true_eq, ← UInt8.toNat_inj, UInt8.le_iff_toNat_le,
      UInt8.lt_iff_toNat_lt, hnat c hc]
    exact hvisible c hc
  rw [toStr, if_pos hall, ofStr_of_visible hvisible, List.map_map, Option.some.injEq]
  refine (List.map_congr_left fun c hc => ?_).trans (List.map_id text)
  rw [Function.comp_apply, hnat c hc, Char.ofNat_toNat]
  rfl

theorem toStr_ofStr_eq_none {text : Str} (hvisible : ¬IsVisibleText text) :
    (ofStr text).toStr = none := by
  obtain ⟨c, hc, hc'⟩ : ∃ c ∈ text, ¬IsVisibleChar c := by
    simpa only [IsVisibleText, not_forall, exists_prop] using hvisible
  obtain ⟨b, hb, hb'⟩ := exists_not_visible hc'
  rw [toStr, if_neg]
  rw [List.all_eq_true]
  intro hall
  exact hb' (of_decide_eq_true (hall b (List.mem_flatMap.2 ⟨c, hc, hb⟩)))

end HeaderValue

/-! ## Trimming -/

namespace Whitespace

/-- `char::is_whitespace`. -/
def isWhitespace (c : Char) : Bool :=
  (9 ≤ c.toNat ∧ c.toNat ≤ 13) ∨ (0x2000 ≤ c.toNat ∧ c.toNat ≤ 0x200A) ∨
    c.toNat ∈ [0x20, 0x85, 0xA0, 0x1680, 0x2028, 0x2029, 0x202F, 0x205F, 0x3000]

def trimStart (text : Str) : Str := text.dropWhile isWhitespace

def trimEnd (text : Str) : Str := (text.reverse.dropWhile isWhitespace).reverse

def trim (text : Str) : Str := trimEnd (trimStart text)

def IsTrimmed (text : Str) : Prop :=
  ∀ c, text.head? = some c ∨ text.getLast? = some c → isWhitespace c = false

def IsBlank (text : Str) : Prop := ∀ c ∈ text, isWhitespace c = true

theorem IsTrimmed.of_not_mem {text : Str} (htext : ∀ c ∈ text, isWhitespace c = false) :
    IsTrimmed text := by
  rintro c (hc | hc)
  · exact htext c (List.mem_of_head? hc)
  · exact htext c (List.mem_of_getLast? hc)

theorem dropWhile_append_of_blank {front text : Str} (hfront : IsBlank front)
    (htext : ∀ c, text.head? = some c → isWhitespace c = false) :
    (front ++ text).dropWhile isWhitespace = text := by
  rw [List.dropWhile_append_of_pos hfront]
  cases text with
  | nil => rfl
  | cons c cs => exact List.dropWhile_cons_of_neg (by simp [htext c rfl])

theorem trimStart_append {front text : Str} (hfront : IsBlank front)
    (htext : ∀ c, text.head? = some c → isWhitespace c = false) :
    trimStart (front ++ text) = text := dropWhile_append_of_blank hfront htext

theorem trimEnd_append {text back : Str} (hback : IsBlank back)
    (htext : ∀ c, text.getLast? = some c → isWhitespace c = false) :
    trimEnd (text ++ back) = text := by
  have hback' : IsBlank back.reverse := fun c hc => hback c (List.mem_reverse.1 hc)
  rw [trimEnd, List.reverse_append, dropWhile_append_of_blank hback', List.reverse_reverse]
  intro c hc
  rw [List.head?_reverse] at hc
  exact htext c hc

theorem mem_dropWhile_iff {text : Str} {c : Char} (hc : isWhitespace c = false) :
    c ∈ text.dropWhile isWhitespace ↔ c ∈ text := by
  refine ⟨fun hmem => (List.dropWhile_suffix _).subset hmem, fun hmem => ?_⟩
  rw [← @List.takeWhile_append_dropWhile _ isWhitespace text, List.mem_append] at hmem
  refine hmem.resolve_left fun htake => ?_
  rw [List.mem_takeWhile_imp htake] at hc
  cases hc

theorem mem_trim_iff {text : Str} {c : Char} (hc : isWhitespace c = false) :
    c ∈ trim text ↔ c ∈ text := by
  rw [trim, trimEnd, trimStart, List.mem_reverse, mem_dropWhile_iff hc, List.mem_reverse,
    mem_dropWhile_iff hc]

theorem trim_append {front text back : Str} (hfront : IsBlank front) (hback : IsBlank back)
    (htext : IsTrimmed text) : trim (front ++ text ++ back) = text := by
  cases text with
  | nil =>
      have hblank : IsBlank (front ++ back) := by
        intro c hc
        rcases List.mem_append.1 hc with hc | hc
        · exact hfront c hc
        · exact hback c hc
      have hstart : trimStart (front ++ back ++ []) = [] :=
        trimStart_append hblank (by simp)
      rw [List.append_nil] at hstart
      rw [List.append_nil, trim, hstart]
      rfl
  | cons c cs =>
      rw [trim, List.append_assoc, trimStart_append hfront, trimEnd_append hback]
      · exact fun d hd => htext d (.inr hd)
      · intro d hd
        exact htext d (.inl hd)

structure Padded where
  front : Str
  text : Str
  back : Str
  front_blank : IsBlank front
  back_blank : IsBlank back
  text_trimmed : IsTrimmed text

def Padded.render (padded : Padded) : Str := padded.front ++ padded.text ++ padded.back

theorem Padded.trim_render (padded : Padded) : trim padded.render = padded.text :=
  trim_append padded.front_blank padded.back_blank padded.text_trimmed

/-- Joined texts are found again by splitting and trimming. -/
theorem map_trim_splitOn {sep : Char} {parts : List Padded} (hparts : parts ≠ [])
    (hsep : ∀ part ∈ parts, sep ∉ part.render) :
    (([sep].intercalate (parts.map Padded.render)).splitOn sep).map trim =
      parts.map Padded.text := by
  rw [List.splitOn_intercalate sep _ (by simpa using hparts), List.map_map]
  · exact List.map_congr_left fun part _ => part.trim_render
  · intro piece hpiece
    obtain ⟨part, hpart, rfl⟩ := List.mem_map.1 hpiece
    exact hsep part hpart

end Whitespace

end WsHyper.Lib
