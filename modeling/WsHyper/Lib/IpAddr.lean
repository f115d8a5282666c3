import WsHyper.Lib.Digits
import Mathlib.Data.List.Infix

/-!
# IP addresses and their texts

`std::net::IpAddr` with its `Display` and `FromStr`.  What is displayed is parsed back,
and what is parsed is made of digits, dots and colons.
-/

namespace WsHyper.Lib

open Digits

structure Ipv4Addr where
  a : UInt8
  b : UInt8
  c : UInt8
  d : UInt8
  deriving DecidableEq

abbrev Ipv6Addr := Vector UInt16 8

inductive IpAddr
  | v4 (addr : Ipv4Addr)
  | v6 (addr : Ipv6Addr)
  deriving DecidableEq

/-! ## Display -/

def decimal (octet : UInt8) : Str := Nat.toDigits 10 octet.toNat

def hex (segment : UInt16) : Str := Nat.toDigits 16 segment.toNat

def Ipv4Addr.display (addr : Ipv4Addr) : Str :=
  decimal addr.a ++ '.' :: decimal addr.b ++ '.' :: decimal addr.c ++ '.' :: decimal addr.d

namespace Ipv6Addr

def fmtSubslice : List UInt16 → Str
  | [] => []
  | first :: tail => hex first ++ tail.flatMap fun segment => ':' :: hex segment

structure Span where
  start : Nat
  len : Nat

def nextSpan (spans : Span × Span) (entry : UInt16 × Nat) : Span × Span :=
  let (longest, current) := spans
  if entry.1 = 0 then
    let current : Span :=
      { start := if current.len = 0 then entry.2 else current.start, len := current.len + 1 }
    (if longest.len < current.len then current else longest, current)
  else (longest, { start := 0, len := 0 })

def zeroes (segments : List UInt16) : Span :=
  (segments.zipIdx.foldl nextSpan ({ start := 0, len := 0 }, { start := 0, len := 0 })).1

def highByte (segment : UInt16) : UInt8 := (segment / 256).toUInt8

def lowByte (segment : UInt16) : UInt8 := segment.toUInt8

def toIpv4Mapped (segments : List UInt16) : Option Ipv4Addr :=
  match segments with
  | [0, 0, 0, 0, 0, 0xffff, ab, cd] =>
      some { a := highByte ab, b := lowByte ab, c := highByte cd, d := lowByte cd }
  | _ => none

def display (addr : Ipv6Addr) : Str :=
  let segments := addr.toList
  match toIpv4Mapped segments with
  | some ipv4 => "::ffff:".toList ++ ipv4.display
  | none =>
      let zeroes := zeroes segments
      if 1 < zeroes.len then
        fmtSubslice (segments.take zeroes.start) ++ ':' :: ':' ::
          fmtSubslice (segments.drop (zeroes.start + zeroes.len))
      else fmtSubslice segments

end Ipv6Addr

def IpAddr.display : IpAddr → Str
  | v4 addr => addr.display
  | v6 addr => Ipv6Addr.display addr

/-! ## Parsing -/

/-- A reader gives a value and the text behind it. -/
abbrev Reader (α : Type) := Str → Option (α × Str)

def readGivenChar (c : Char) (text : Str) : Option Str :=
  match text with
  | [] => none
  | first :: rest => if first = c then some rest else none

/-- A separator is read before every part but the first. -/
def readSeparator {α : Type} (sep : Char) (first : Bool) (read : Reader α) : Reader α :=
  fun text => if first then read text else (readGivenChar sep text).bind read

def readOctet : Reader UInt8 := fun text =>
  (readNumber 10 3 false text).bind fun (n, rest) =>
    if n < 256 then some (UInt8.ofNat n, rest) else none

def readSegment : Reader UInt16 := fun text =>
  (readNumber 16 4 true text).bind fun (n, rest) =>
    if n < 65536 then some (UInt16.ofNat n, rest) else none

def readIpv4Addr : Reader Ipv4Addr := fun text => do
  let (a, text) ← readSeparator '.' true readOctet text
  let (b, text) ← readSeparator '.' false readOctet text
  let (c, text) ← readSeparator '.' false readOctet text
  let (d, text) ← readSeparator '.' false readOctet text
  some ({ a, b, c, d }, text)

def Ipv4Addr.segments (addr : Ipv4Addr) : List UInt16 :=
  [addr.a.toUInt16 * 256 + addr.b.toUInt16, addr.c.toUInt16 * 256 + addr.d.toUInt16]

/-- At most `limit` segments, whether the last two are an embedded address, and the text
behind them. -/
def readGroups : Nat → Bool → Str → (List UInt16 × Bool) × Str
  | 0, _, text => (([], false), text)
  | limit + 1, first, text =>
      match (if limit = 0 then none else readSeparator ':' first readIpv4Addr text) with
      | some (addr, rest) => ((addr.segments, true), rest)
      | none =>
          match readSeparator ':' first readSegment text with
          | some (segment, rest) =>
              let ((segments, ipv4), rest) := readGroups limit false rest
              ((segment :: segments, ipv4), rest)
          | none => (([], false), text)

/-- An array of eight segments, zero where none is given. -/
def Ipv6Addr.ofSegments (segments : List UInt16) : Ipv6Addr :=
  Vector.ofFn fun i => segments.getD i 0

def readIpv6Addr : Reader Ipv6Addr := fun text => do
  let ((head, ipv4), text) := readGroups 8 true text
  if head.length = 8 then some (.ofSegments head, text)
  else if ipv4 then none
  else do
    let text ← readGivenChar ':' text
    let text ← readGivenChar ':' text
    let ((tail, _), text) := readGroups (8 - (head.length + 1)) true text
    let zeroes := List.replicate (8 - tail.length - head.length) 0
    some (.ofSegments (head ++ zeroes ++ tail), text)

def readIpAddr : Reader IpAddr := fun text =>
  match readIpv4Addr text with
  | some (addr, rest) => some (.v4 addr, rest)
  | none => (readIpv6Addr text).map fun (addr, rest) => (.v6 addr, rest)

/-- `FromStr`: nothing may be left. -/
def IpAddr.parse (text : Str) : Option IpAddr :=
  match readIpAddr text with
  | some (addr, []) => some addr
  | _ => none

/-! ## Parts that are displayed are read -/

section Parts

variable {rest : Str}

theorem readOctet_decimal (octet : UInt8)
    (hrest : ∀ c, rest.head? = some c → isDigit 10 c = false) :
    readOctet (decimal octet ++ rest) = some (octet, rest) := by
  have hlt : octet.toNat < 256 := octet.toNat_lt
  have hlength : (Nat.toDigits 10 octet.toNat).length ≤ 3 :=
    (Nat.length_toDigits_le_iff (by decide) (by decide)).2 (by omega)
  rw [readOctet, decimal, readNumber_toDigits (by decide) (by decide) hlength hrest,
    Option.bind_some]
  dsimp only
  rw [if_pos hlt, UInt8.ofNat_toNat]

theorem readSegment_hex (segment : UInt16)
    (hrest : ∀ c, rest.head? = some c → isDigit 16 c = false) :
    readSegment (hex segment ++ rest) = some (segment, rest) := by
  have hlt : segment.toNat < 65536 := segment.toNat_lt
  have hlength : (Nat.toDigits 16 segment.toNat).length ≤ 4 :=
    (Nat.length_toDigits_le_iff (by decide) (by decide)).2 (by omega)
  rw [readSegment, hex, readNumber_toDigits (by decide) (by decide) hlength hrest,
    Option.bind_some]
  dsimp only
  rw [if_pos hlt, UInt16.ofNat_toNat]

@[simp] theorem readGivenChar_cons (c : Char) (rest : Str) :
    readGivenChar c (c :: rest) = some rest := if_pos rfl

@[simp] theorem readSeparator_true {α : Type} (sep : Char) (read : Reader α) (text : Str) :
    readSeparator sep true read text = read text := rfl

@[simp] theorem readSeparator_cons {α : Type} (sep : Char) (read : Reader α) (text : Str) :
    readSeparator sep false read (sep :: text) = read text := by
  simp [readSeparator]

theorem readIpv4Addr_display (addr : Ipv4Addr)
    (hrest : ∀ c, rest.head? = some c → isDigit 10 c = false) :
    readIpv4Addr (addr.display ++ rest) = some (addr, rest) := by
  have hdot : ∀ (text : Str) c, ('.' :: text).head? = some c → isDigit 10 c = false := by
    intro text c hc
    obtain rfl := Option.some.inj hc
    decide
  have htext : addr.display ++ rest = decimal addr.a ++ '.' :: (decimal addr.b ++
      '.' :: (decimal addr.c ++ '.' :: (decimal addr.d ++ rest))) := by
    simp [Ipv4Addr.display]
  rw [readIpv4Addr, htext, readSeparator_true, readOctet_decimal _ (hdot _), Option.bind_eq_bind,
    Option.bind_some]
  dsimp only
  rw [readSeparator_cons, readOctet_decimal _ (hdot _), Option.bind_some]
  dsimp only
  rw [readSeparator_cons, readOctet_decimal _ (hdot _), Option.bind_some]
  dsimp only
  rw [readSeparator_cons, readOctet_decimal _ hrest]
  rfl

/-! ### Segments -/

/-- A text that no segment goes on in. -/
def IsStop (text : Str) : Prop := text = [] ∨ ∃ more, text = ':' :: ':' :: more

theorem isDigit_colon : isDigit 16 ':' = false := by decide

theorem eq_cons_of_readGivenChar {c : Char} {text : Str}
    (hread : readGivenChar c text = some rest) : text = c :: rest := by
  cases text with
  | nil => cases hread
  | cons first tail =>
      rw [readGivenChar] at hread
      split_ifs at hread with hfirst
      rw [hfirst, Option.some.inj hread]

theorem append_of_readOctet {text : Str} {octet : UInt8}
    (hread : readOctet text = some (octet, rest)) :
    ∃ digits, text = digits ++ rest ∧ ∀ c ∈ digits, isDigit 16 c = true := by
  obtain ⟨⟨n, after⟩, hnumber, hread⟩ := Option.bind_eq_some_iff.1 hread
  dsimp only at hread
  split_ifs at hread
  obtain ⟨-, rfl⟩ := Prod.mk.inj (Option.some.inj hread)
  obtain ⟨digits, htext, hdigits⟩ := append_of_readNumber hnumber
  exact ⟨digits, htext, fun c hc => isDigit_of_le (by decide) (hdigits c hc)⟩

theorem append_of_readSegment {text : Str} {segment : UInt16}
    (hread : readSegment text = some (segment, rest)) :
    ∃ digits, text = digits ++ rest ∧ ∀ c ∈ digits, isDigit 16 c = true := by
  obtain ⟨⟨n, after⟩, hnumber, hread⟩ := Option.bind_eq_some_iff.1 hread
  dsimp only at hread
  split_ifs at hread
  obtain ⟨-, rfl⟩ := Prod.mk.inj (Option.some.inj hread)
  exact append_of_readNumber hnumber

/-- Behind the digits of an address of version 4 is a dot. -/
theorem readIpv4Addr_eq_none {digits : Str} (hdigits : ∀ c ∈ digits, isDigit 16 c = true)
    (hrest : ∀ c, rest.head? = some c → c = ':') : readIpv4Addr (digits ++ rest) = none := by
  by_contra hread
  obtain ⟨⟨addr, after⟩, hread⟩ := Option.ne_none_iff_exists'.1 hread
  obtain ⟨⟨a, text⟩, ha, hread⟩ := Option.bind_eq_some_iff.1 hread
  obtain ⟨⟨b, text'⟩, hb, -⟩ := Option.bind_eq_some_iff.1 hread
  obtain ⟨rest', hdot, -⟩ := Option.bind_eq_some_iff.1 hb
  obtain ⟨octet, htext, hoctet⟩ := append_of_readOctet ha
  rw [eq_cons_of_readGivenChar hdot] at htext
  have hleft : (digits ++ rest).dropWhile (isDigit 16) = rest := by
    rw [List.dropWhile_append_of_pos hdigits]
    cases rest with
    | nil => rfl
    | cons c cs =>
        obtain rfl := hrest c rfl
        exact List.dropWhile_cons_of_neg (by decide)
  have hright : (octet ++ '.' :: rest').dropWhile (isDigit 16) = '.' :: rest' := by
    rw [List.dropWhile_append_of_pos hoctet]
    exact List.dropWhile_cons_of_neg (by decide)
  rw [htext, hright] at hleft
  exact absurd (hrest '.' (by rw [← hleft]; rfl)) (by decide)

theorem IsStop.head {text : Str} (hstop : IsStop text) :
    ∀ c, text.head? = some c → c = ':' := by
  rintro c hc
  obtain rfl | ⟨more, rfl⟩ := hstop
  · cases hc
  · exact (Option.some.inj hc).symm

theorem readSegment_eq_none {text : Str} (hhead : ∀ c, text.head? = some c → c = ':') :
    readSegment text = none := by
  rw [readSegment, readNumber_eq_none, Option.bind_none]
  intro c hc
  rw [hhead c hc]
  exact isDigit_colon

theorem readSeparator_stop {α : Type} {read : Reader α} {text : Str} (first : Bool)
    (hstop : IsStop text)
    (hread : ∀ text, (∀ c, text.head? = some c → c = ':') → read text = none) :
    readSeparator ':' first read text = none := by
  cases first with
  | true => exact hread text hstop.head
  | false =>
      obtain rfl | ⟨more, rfl⟩ := hstop
      · rfl
      · rw [readSeparator_cons]
        exact hread _ fun c hc => (Option.some.inj hc).symm

theorem readIpv4Addr_colon {text : Str} (hhead : ∀ c, text.head? = some c → c = ':') :
    readIpv4Addr text = none :=
  readIpv4Addr_eq_none (List.forall_mem_nil _) hhead

theorem readGroups_stop (limit : Nat) (first : Bool) {text : Str} (hstop : IsStop text) :
    readGroups limit first text = (([], false), text) := by
  cases limit with
  | zero => rfl
  | succ limit =>
      rw [readGroups, readSeparator_stop first hstop fun _ => readIpv4Addr_colon,
        readSeparator_stop first hstop fun _ => readSegment_eq_none, ite_self]

theorem readGroups_hex (limit : Nat) (first : Bool) (segment : UInt16)
    (hrest : ∀ c, rest.head? = some c → c = ':') :
    readGroups (limit + 1) first ((if first then [] else [':']) ++ hex segment ++ rest) =
      ((segment :: (readGroups limit false rest).1.1, (readGroups limit false rest).1.2),
        (readGroups limit false rest).2) := by
  have hdigits : ∀ c ∈ hex segment, isDigit 16 c = true :=
    fun c hc => isDigit_of_mem_toDigits (by decide) (by decide) hc
  have hstop : ∀ c, rest.head? = some c → isDigit 16 c = false := by
    intro c hc
    rw [hrest c hc]
    exact isDigit_colon
  have hseparator : ∀ {α : Type} (read : Reader α),
      readSeparator ':' first read ((if first then [] else [':']) ++ hex segment ++ rest) =
        read (hex segment ++ rest) := by
    intro α read
    cases first with
    | true => rfl
    | false => exact readSeparator_cons ':' read _
  rw [readGroups, hseparator, hseparator, readIpv4Addr_eq_none hdigits hrest, ite_self,
    readSegment_hex segment hstop]

theorem head_flatMap_append (segments : List UInt16) (hstop : IsStop rest) :
    ∀ c, ((segments.flatMap fun segment => ':' :: hex segment) ++ rest).head? = some c →
      c = ':' := by
  cases segments with
  | nil => exact hstop.head
  | cons segment tail => exact fun c hc => (Option.some.inj hc).symm

theorem readGroups_flatMap {segments : List UInt16} (left : Nat) (hstop : IsStop rest) :
    readGroups (segments.length + left) false
        ((segments.flatMap fun segment => ':' :: hex segment) ++ rest) =
      ((segments, false), rest) := by
  induction segments with
  | nil => exact readGroups_stop _ _ hstop
  | cons segment tail ih =>
      have hgroup := readGroups_hex (tail.length + left) false segment
        (head_flatMap_append tail hstop)
      rw [ih] at hgroup
      rw [List.length_cons, Nat.add_right_comm, List.flatMap_cons, List.append_assoc]
      exact hgroup

theorem readGroups_fmtSubslice (segments : List UInt16) (left : Nat) (hstop : IsStop rest) :
    readGroups (segments.length + left) true (Ipv6Addr.fmtSubslice segments ++ rest) =
      ((segments, false), rest) := by
  cases segments with
  | nil => exact readGroups_stop _ _ hstop
  | cons segment tail =>
      have hgroup := readGroups_hex (tail.length + left) true segment
        (head_flatMap_append tail hstop)
      rw [readGroups_flatMap left hstop] at hgroup
      rw [List.length_cons, Nat.add_right_comm, Ipv6Addr.fmtSubslice, List.append_assoc]
      exact hgroup

theorem readIpv4Addr_fmtSubslice {segments : List UInt16} (hstop : IsStop rest) :
    readIpv4Addr (Ipv6Addr.fmtSubslice segments ++ rest) = none := by
  cases segments with
  | nil => exact readIpv4Addr_colon hstop.head
  | cons segment tail =>
      rw [Ipv6Addr.fmtSubslice, List.append_assoc]
      exact readIpv4Addr_eq_none
        (fun c hc => isDigit_of_mem_toDigits (by decide) (by decide) hc)
        (head_flatMap_append tail hstop)

/-! ### The longest run of zeroes -/

namespace Ipv6Addr

def Span.IsRun (segments : List UInt16) (span : Span) : Prop :=
  ∃ front back, segments = front ++ List.replicate span.len 0 ++ back ∧
    (span.len ≠ 0 → front.length = span.start)

def Span.EndsIn (segments : List UInt16) (span : Span) : Prop :=
  ∃ front, segments = front ++ List.replicate span.len 0 ∧
    (span.len ≠ 0 → front.length = span.start)

variable {segments : List UInt16} {span : Span}

theorem Span.EndsIn.isRun (h : span.EndsIn segments) : span.IsRun segments := by
  obtain ⟨front, hsegments, hstart⟩ := h
  exact ⟨front, [], by rw [List.append_nil, hsegments], hstart⟩

theorem Span.IsRun.append (h : span.IsRun segments) (segment : UInt16) :
    span.IsRun (segments ++ [segment]) := by
  obtain ⟨front, back, hsegments, hstart⟩ := h
  exact ⟨front, back ++ [segment], by rw [hsegments, List.append_assoc _ back], hstart⟩

theorem Span.EndsIn.append_zero (h : span.EndsIn segments) :
    Span.EndsIn (segments ++ [0])
      { start := if span.len = 0 then segments.length else span.start, len := span.len + 1 } := by
  obtain ⟨front, hsegments, hstart⟩ := h
  refine ⟨front, ?_, fun _ => ?_⟩
  · dsimp only
    rw [List.replicate_succ', ← List.append_assoc, ← hsegments]
  · dsimp only
    split_ifs with hempty
    · rw [hsegments, hempty, List.replicate_zero, List.append_nil]
    · exact hstart hempty

theorem nextSpan_runs {spans : Span × Span} (segment : UInt16)
    (hlongest : spans.1.IsRun segments) (hcurrent : spans.2.EndsIn segments) :
    (nextSpan spans (segment, segments.length)).1.IsRun (segments ++ [segment]) ∧
      (nextSpan spans (segment, segments.length)).2.EndsIn (segments ++ [segment]) := by
  by_cases hzero : segment = 0
  · subst hzero
    have hnext := hcurrent.append_zero
    rw [nextSpan]
    dsimp only
    rw [if_pos rfl]
    refine ⟨?_, hnext⟩
    by_cases hlonger : spans.1.len < spans.2.len + 1
    · rw [if_pos hlonger]
      exact hnext.isRun
    · rw [if_neg hlonger]
      exact hlongest.append 0
  · rw [nextSpan]
    dsimp only
    rw [if_neg hzero]
    exact ⟨hlongest.append segment, segments ++ [segment], by simp, fun h => absurd rfl h⟩

theorem isRun_zeroes (segments : List UInt16) : (zeroes segments).IsRun segments := by
  suffices hruns : ∀ segments : List UInt16,
      (segments.zipIdx.foldl nextSpan ({ start := 0, len := 0 }, { start := 0, len := 0 })).1.IsRun
          segments ∧
        (segments.zipIdx.foldl nextSpan
          ({ start := 0, len := 0 }, { start := 0, len := 0 })).2.EndsIn segments from
    (hruns segments).1
  intro segments
  induction segments using List.reverseRecOn with
  | nil =>
      have hempty : Span.EndsIn [] { start := 0, len := 0 } := ⟨[], rfl, fun _ => rfl⟩
      exact ⟨hempty.isRun, hempty⟩
  | append_singleton segments segment ih =>
      rw [List.zipIdx_append, List.foldl_append, List.zipIdx_singleton, List.foldl_cons,
        List.foldl_nil, Nat.zero_add]
      exact nextSpan_runs segment ih.1 ih.2

theorem Span.IsRun.append_eq (h : span.IsRun segments) (hlen : span.len ≠ 0) :
    segments.take span.start ++ List.replicate span.len 0 ++
      segments.drop (span.start + span.len) = segments := by
  obtain ⟨front, back, hsegments, hstart⟩ := h
  have htake : segments.take span.start = front := by
    rw [hsegments, ← hstart hlen, List.append_assoc, List.take_left]
  have hdrop : segments.drop (span.start + span.len) = back := by
    have hlength : span.start + span.len = (front ++ List.replicate span.len 0).length := by
      rw [List.length_append, List.length_replicate, hstart hlen]
    rw [hlength, hsegments, List.drop_left]
  rw [htake, hdrop, ← hsegments]

end Ipv6Addr

/-! ### Whole addresses -/

namespace Ipv6Addr

theorem ofSegments_toList (addr : Ipv6Addr) : ofSegments addr.toList = addr := by
  apply Vector.ext
  intro i hi
  simp [ofSegments]

theorem readIpv6Addr_of_groups {text after : Str} {head tail : List UInt16} {ipv4 : Bool}
    (hhead : readGroups 8 true text = ((head, false), ':' :: ':' :: after))
    (hlength : head.length ≠ 8)
    (htail : readGroups (8 - (head.length + 1)) true after = ((tail, ipv4), rest)) :
    readIpv6Addr text =
      some (ofSegments (head ++ List.replicate (8 - tail.length - head.length) 0 ++ tail),
        rest) := by
  rw [readIpv6Addr, hhead]
  dsimp only
  rw [if_neg hlength, if_neg (by decide), readGivenChar_cons, Option.bind_eq_bind,
    Option.bind_some, readGivenChar_cons, Option.bind_some, htail]

/-- The run that is left out comes back. -/
theorem readIpv6Addr_run {addr : Ipv6Addr} {span : Span} (hrun : span.IsRun addr.toList)
    (hlen : 1 < span.len) :
    readIpv6Addr (fmtSubslice (addr.toList.take span.start) ++ ':' :: ':' ::
      fmtSubslice (addr.toList.drop (span.start + span.len))) = some (addr, []) := by
  have hsegments := hrun.append_eq (by omega)
  generalize addr.toList.take span.start = head at hsegments ⊢
  generalize addr.toList.drop (span.start + span.len) = tail at hsegments ⊢
  have hlength : head.length + span.len + tail.length = 8 := by
    have heq := congrArg List.length hsegments
    simpa only [List.length_append, List.length_replicate, Vector.length_toList] using heq
  have hhead := readGroups_fmtSubslice head (8 - head.length)
    (.inr ⟨fmtSubslice tail, rfl⟩)
  have htail := readGroups_fmtSubslice tail (8 - (head.length + 1) - tail.length)
    (.inl rfl)
  rw [Nat.add_sub_cancel' (by omega)] at hhead htail
  rw [List.append_nil] at htail
  have hzeroes : 8 - tail.length - head.length = span.len := by omega
  rw [readIpv6Addr_of_groups hhead (by omega) htail, hzeroes, hsegments, ofSegments_toList]

theorem readIpv6Addr_fmtSubslice (addr : Ipv6Addr) :
    readIpv6Addr (fmtSubslice addr.toList) = some (addr, []) := by
  have hlength : addr.toList.length = 8 := Vector.length_toList
  have hhead := readGroups_fmtSubslice addr.toList 0 (.inl rfl)
  rw [hlength, List.append_nil, Nat.add_zero] at hhead
  rw [readIpv6Addr, hhead]
  dsimp only
  rw [if_pos hlength, ofSegments_toList]

theorem bytes_segment (segment : UInt16) :
    (highByte segment).toUInt16 * 256 + (lowByte segment).toUInt16 = segment := by
  rw [← UInt16.toNat_inj]
  have hlt := segment.toNat_lt
  simp only [highByte, lowByte, UInt16.toNat_add, UInt16.toNat_mul, UInt8.toNat_toUInt16,
    UInt16.toNat_toUInt8, UInt16.toNat_div, UInt16.reduceToNat]
  omega

theorem eq_of_toIpv4Mapped {segments : List UInt16} {ipv4 : Ipv4Addr}
    (hmapped : toIpv4Mapped segments = some ipv4) :
    segments = [0, 0, 0, 0, 0, 0xffff] ++ ipv4.segments := by
  unfold toIpv4Mapped at hmapped
  split at hmapped
  next ab cd =>
    obtain rfl := Option.some.inj hmapped
    rw [Ipv4Addr.segments, bytes_segment, bytes_segment]
    rfl
  next => cases hmapped

theorem readIpv6Addr_mapped {addr : Ipv6Addr} {ipv4 : Ipv4Addr}
    (hmapped : toIpv4Mapped addr.toList = some ipv4) :
    readIpv6Addr ("::ffff:".toList ++ ipv4.display) = some (addr, []) := by
  have hhead := readGroups_stop 8 true (.inr ⟨"ffff:".toList ++ ipv4.display, rfl⟩)
  have hipv4 : readIpv4Addr ipv4.display = some (ipv4, []) := by
    rw [← List.append_nil ipv4.display]
    exact readIpv4Addr_display ipv4 (by simp)
  have htail : readGroups 7 true ("ffff:".toList ++ ipv4.display) =
      ((0xffff :: ipv4.segments, true), []) := by
    have hcolon : ∀ c, (':' :: ipv4.display).head? = some c → c = ':' :=
      fun c hc => (Option.some.inj hc).symm
    have hgroup := readGroups_hex 6 true 0xffff hcolon
    have hnext : readGroups 6 false (':' :: ipv4.display) = ((ipv4.segments, true), []) := by
      rw [readGroups, if_neg (by decide), readSeparator_cons, hipv4]
    rw [hnext] at hgroup
    exact hgroup
  have hzeroes : [] ++ List.replicate 5 0 ++ 0xffff :: ipv4.segments = addr.toList := by
    rw [eq_of_toIpv4Mapped hmapped]
    rfl
  have hread := readIpv6Addr_of_groups hhead (by decide) htail
  rw [show 8 - (0xffff :: ipv4.segments).length - ([] : List UInt16).length = 5 from rfl,
    hzeroes, ofSegments_toList] at hread
  exact hread

/-- What an address of version 6 is displayed as is none of version 4. -/
theorem readIpv4Addr_display_eq_none (addr : Ipv6Addr) : readIpv4Addr addr.display = none := by
  rw [display]
  split
  · exact readIpv4Addr_colon fun c hc => (Option.some.inj hc).symm
  · dsimp only
    split_ifs
    · exact readIpv4Addr_fmtSubslice (.inr ⟨_, rfl⟩)
    · rw [← List.append_nil (fmtSubslice _)]
      exact readIpv4Addr_fmtSubslice (.inl rfl)

theorem readIpv6Addr_display (addr : Ipv6Addr) :
    readIpv6Addr addr.display = some (addr, []) := by
  rw [display]
  split
  next ipv4 hmapped => exact readIpv6Addr_mapped hmapped
  next =>
    dsimp only
    split_ifs with hlen
    · exact readIpv6Addr_run (isRun_zeroes addr.toList) hlen
    · exact readIpv6Addr_fmtSubslice addr

end Ipv6Addr

theorem readIpAddr_display (ip : IpAddr) : readIpAddr ip.display = some (ip, []) := by
  cases ip with
  | v4 addr =>
      have hread : readIpv4Addr (addr.display ++ []) = some (addr, []) :=
        readIpv4Addr_display addr (by simp)
      rw [List.append_nil] at hread
      rw [IpAddr.display, readIpAddr, hread]
  | v6 addr =>
      rw [IpAddr.display, readIpAddr, Ipv6Addr.readIpv4Addr_display_eq_none,
        Ipv6Addr.readIpv6Addr_display]
      rfl

/-- What is displayed is parsed back. -/
theorem IpAddr.parse_display (ip : IpAddr) : IpAddr.parse ip.display = some ip := by
  rw [parse, readIpAddr_display]

end Parts

/-! ## Characters of addresses -/

section Characters

def IsAddrChar (c : Char) : Prop := isDigit 16 c = true ∨ c = '.' ∨ c = ':'

instance (c : Char) : Decidable (IsAddrChar c) := inferInstanceAs (Decidable (_ ∨ _))

theorem IsAddrChar.toNat_range {c : Char} (hc : IsAddrChar c) :
    46 ≤ c.toNat ∧ c.toNat ≤ 122 := by
  rcases hc with hdigit | rfl | rfl
  · have hrange := toNat_of_isDigit hdigit
    omega
  · decide
  · decide

/-- What is read, up to the rest, are characters of addresses. -/
def ReadsTo (text rest : Str) : Prop :=
  ∃ front, text = front ++ rest ∧ ∀ c ∈ front, IsAddrChar c

variable {text text' rest : Str}

theorem ReadsTo.refl (text : Str) : ReadsTo text text := ⟨[], rfl, List.forall_mem_nil _⟩

theorem ReadsTo.trans (h : ReadsTo text text') (h' : ReadsTo text' rest) :
    ReadsTo text rest := by
  obtain ⟨front, rfl, hfront⟩ := h
  obtain ⟨back, rfl, hback⟩ := h'
  exact ⟨front ++ back, (List.append_assoc ..).symm, List.forall_mem_append.2 ⟨hfront, hback⟩⟩

def Reader.IsReading {α : Type} (read : Reader α) : Prop :=
  ∀ text a rest, read text = some (a, rest) → ReadsTo text rest

theorem isReading_readOctet : Reader.IsReading readOctet := by
  intro text octet rest hread
  obtain ⟨digits, htext, hdigits⟩ := append_of_readOctet hread
  exact ⟨digits, htext, fun c hc => .inl (hdigits c hc)⟩

theorem isReading_readSegment : Reader.IsReading readSegment := by
  intro text segment rest hread
  obtain ⟨digits, htext, hdigits⟩ := append_of_readSegment hread
  exact ⟨digits, htext, fun c hc => .inl (hdigits c hc)⟩

theorem readsTo_of_readGivenChar {c : Char} (hc : IsAddrChar c)
    (hread : readGivenChar c text = some rest) : ReadsTo text rest :=
  ⟨[c], eq_cons_of_readGivenChar hread, List.forall_mem_singleton.2 hc⟩

theorem isReading_readSeparator {α : Type} {sep : Char} {read : Reader α} (first : Bool)
    (hsep : IsAddrChar sep) (hread : read.IsReading) :
    Reader.IsReading (readSeparator sep first read) := by
  intro text a rest hresult
  cases first with
  | true => exact hread text a rest hresult
  | false =>
      obtain ⟨after, hgiven, hresult⟩ := Option.bind_eq_some_iff.1 hresult
      exact (readsTo_of_readGivenChar hsep hgiven).trans (hread after a rest hresult)

theorem isReading_readIpv4Addr : Reader.IsReading readIpv4Addr := by
  intro text addr rest hread
  have hoctet (first : Bool) : Reader.IsReading (readSeparator '.' first readOctet) :=
    isReading_readSeparator first (.inr (.inl rfl)) isReading_readOctet
  obtain ⟨⟨a, text₁⟩, ha, hread⟩ := Option.bind_eq_some_iff.1 hread
  obtain ⟨⟨b, text₂⟩, hb, hread⟩ := Option.bind_eq_some_iff.1 hread
  obtain ⟨⟨c, text₃⟩, hc, hread⟩ := Option.bind_eq_some_iff.1 hread
  obtain ⟨⟨d, text₄⟩, hd, hread⟩ := Option.bind_eq_some_iff.1 hread
  obtain ⟨-, rfl⟩ := Prod.mk.inj (Option.some.inj hread)
  exact (((hoctet _ _ _ _ ha).trans (hoctet _ _ _ _ hb)).trans (hoctet _ _ _ _ hc)).trans
    (hoctet _ _ _ _ hd)

theorem readsTo_readGroups (limit : Nat) (first : Bool) (text : Str) :
    ReadsTo text (readGroups limit first text).2 := by
  induction limit generalizing first text with
  | zero => exact .refl text
  | succ limit ih =>
      have hcolon : IsAddrChar ':' := .inr (.inr rfl)
      rw [readGroups]
      split
      next addr rest hipv4 =>
        split_ifs at hipv4
        exact isReading_readSeparator first hcolon isReading_readIpv4Addr _ _ _ hipv4
      next =>
        split
        next segment rest hsegment =>
          exact (isReading_readSeparator first hcolon isReading_readSegment _ _ _ hsegment).trans
            (ih false rest)
        next => exact .refl text

theorem isReading_readIpv6Addr : Reader.IsReading readIpv6Addr := by
  intro text addr rest hread
  have hhead := readsTo_readGroups 8 true text
  rw [readIpv6Addr] at hread
  dsimp only at hread
  split_ifs at hread
  · obtain ⟨-, rfl⟩ := Prod.mk.inj (Option.some.inj hread)
    exact hhead
  · obtain ⟨text₁, hfirst, hread⟩ := Option.bind_eq_some_iff.1 hread
    obtain ⟨text₂, hsecond, hread⟩ := Option.bind_eq_some_iff.1 hread
    obtain ⟨-, rfl⟩ := Prod.mk.inj (Option.some.inj hread)
    have hcolon : IsAddrChar ':' := .inr (.inr rfl)
    exact ((hhead.trans (readsTo_of_readGivenChar hcolon hfirst)).trans
      (readsTo_of_readGivenChar hcolon hsecond)).trans (readsTo_readGroups _ _ _)

theorem isReading_readIpAddr : Reader.IsReading readIpAddr := by
  intro text ip rest hread
  rw [readIpAddr] at hread
  split at hread
  next addr after hipv4 =>
    obtain ⟨-, rfl⟩ := Prod.mk.inj (Option.some.inj hread)
    exact isReading_readIpv4Addr text addr after hipv4
  next =>
    obtain ⟨⟨addr, after⟩, hipv6, hread⟩ := Option.map_eq_some_iff.1 hread
    obtain ⟨-, rfl⟩ := Prod.mk.inj hread
    exact isReading_readIpv6Addr text addr after hipv6

theorem IpAddr.isAddrChar_of_parse {ip : IpAddr} (hparse : IpAddr.parse text = some ip) :
    ∀ c ∈ text, IsAddrChar c := by
  rw [parse] at hparse
  split at hparse
  next addr hread =>
    obtain ⟨front, rfl, hfront⟩ := isReading_readIpAddr text addr [] hread
    rw [List.append_nil]
    exact hfront
  next => cases hparse

theorem IpAddr.isAddrChar_of_mem_display {ip : IpAddr} {c : Char} (hc : c ∈ ip.display) :
    IsAddrChar c := isAddrChar_of_parse (parse_display ip) c hc

theorem IpAddr.display_ne_nil (ip : IpAddr) : ip.display ≠ [] := by
  intro hnil
  have hparse := parse_display ip
  rw [hnil] at hparse
  cases hparse

end Characters

/-! ## The one text of an IPv4 address -/

section Canonical

variable {text rest : Str}

theorem eq_of_readOctet {octet : UInt8} (hread : readOctet text = some (octet, rest)) :
    text = decimal octet ++ rest := by
  obtain ⟨⟨n, after⟩, hnumber, hread⟩ := Option.bind_eq_some_iff.1 hread
  dsimp only at hread
  split_ifs at hread with hlt
  obtain ⟨rfl, rfl⟩ := Prod.mk.inj (Option.some.inj hread)
  rw [decimal, UInt8.toNat_ofNat_of_lt' hlt]
  exact (append_of_readNumber_false hnumber).1

theorem eq_of_readSeparator_readOctet {octet : UInt8}
    (hread : readSeparator '.' false readOctet text = some (octet, rest)) :
    text = '.' :: decimal octet ++ rest := by
  obtain ⟨after, hgiven, hread⟩ := Option.bind_eq_some_iff.1 hread
  rw [eq_cons_of_readGivenChar hgiven, eq_of_readOctet hread]
  rfl

theorem eq_of_readIpv4Addr {addr : Ipv4Addr} (hread : readIpv4Addr text = some (addr, rest)) :
    text = addr.display ++ rest := by
  obtain ⟨⟨a, text₁⟩, ha, hread⟩ := Option.bind_eq_some_iff.1 hread
  obtain ⟨⟨b, text₂⟩, hb, hread⟩ := Option.bind_eq_some_iff.1 hread
  obtain ⟨⟨c, text₃⟩, hc, hread⟩ := Option.bind_eq_some_iff.1 hread
  obtain ⟨⟨d, text₄⟩, hd, hread⟩ := Option.bind_eq_some_iff.1 hread
  obtain ⟨rfl, rfl⟩ := Prod.mk.inj (Option.some.inj hread)
  rw [eq_of_readOctet ha, eq_of_readSeparator_readOctet hb, eq_of_readSeparator_readOctet hc,
    eq_of_readSeparator_readOctet hd]
  simp [Ipv4Addr.display]

/-- An IPv4 address is parsed from the text that displays it, and from no other. -/
theorem IpAddr.parse_eq_v4_iff {addr : Ipv4Addr} :
    IpAddr.parse text = some (.v4 addr) ↔ text = addr.display := by
  constructor
  · intro hparse
    rw [parse] at hparse
    split at hparse
    next ip hread =>
      obtain rfl := Option.some.inj hparse
      rw [readIpAddr] at hread
      split at hread
      next addr' rest hipv4 =>
        obtain ⟨haddr, rfl⟩ := Prod.mk.inj (Option.some.inj hread)
        obtain rfl := IpAddr.v4.inj haddr
        rw [eq_of_readIpv4Addr hipv4, List.append_nil]
      next =>
        obtain ⟨_, -, hread⟩ := Option.map_eq_some_iff.1 hread
        cases (Prod.mk.inj hread).1
    next => cases hparse
  · rintro rfl
    exact parse_display (.v4 addr)

theorem Ipv4Addr.mem_display {addr : Ipv4Addr} {c : Char} (hc : c ∈ addr.display) :
    isDigit 10 c = true ∨ c = '.' := by
  have hdigit : ∀ octet, c ∈ decimal octet → isDigit 10 c = true :=
    fun octet => isDigit_of_mem_toDigits (by decide) (by decide)
  simp only [display, List.append_assoc, List.cons_append, List.mem_append, List.mem_cons] at hc
  rcases hc with hc | rfl | hc | rfl | hc | rfl | hc
  · exact .inl (hdigit _ hc)
  · exact .inr rfl
  · exact .inl (hdigit _ hc)
  · exact .inr rfl
  · exact .inl (hdigit _ hc)
  · exact .inr rfl
  · exact .inl (hdigit _ hc)

theorem readGivenChar_of_not_mem {c : Char} (hc : c ∉ text) : readGivenChar c text = none := by
  cases text with
  | nil => rfl
  | cons first text =>
      rw [List.mem_cons, not_or] at hc
      exact if_neg (Ne.symm hc.1)

theorem readGroups_of_not_mem (hcolon : ':' ∉ text) (limit : Nat) :
    (readGroups limit true text).1.1.length ≤ 2 := by
  have hstop : ∀ (limit : Nat) (rest : Str), ':' ∉ rest →
      readGroups limit false rest = (([], false), rest) := by
    intro limit rest hrest
    cases limit with
    | zero => rfl
    | succ limit => simp [readGroups, readSeparator, readGivenChar_of_not_mem hrest]
  cases limit with
  | zero => exact Nat.zero_le 2
  | succ limit =>
      rw [readGroups]
      split
      next => exact Nat.le_refl 2
      next =>
        split
        next segment rest hsegment =>
          obtain ⟨front, rfl, -⟩ := isReading_readSegment text segment rest hsegment
          rw [hstop limit rest fun hmem => hcolon (List.mem_append_right _ hmem)]
          exact Nat.le_succ 1
        next => exact Nat.zero_le 2

theorem readIpv6Addr_of_not_mem (hcolon : ':' ∉ text) : readIpv6Addr text = none := by
  have hlength := readGroups_of_not_mem hcolon 8
  obtain ⟨front, htext, -⟩ := readsTo_readGroups 8 true text
  have hrest : ':' ∉ (readGroups 8 true text).2 := by
    intro hmem
    rw [htext] at hcolon
    exact hcolon (List.mem_append_right _ hmem)
  rw [readIpv6Addr]
  dsimp only
  split_ifs with hfull
  · rw [hfull] at hlength
    exact absurd hlength (by decide)
  · rfl
  · rw [readGivenChar_of_not_mem hrest]
    rfl

theorem IpAddr.display_of_parse {ip : IpAddr} (hcolon : ':' ∉ text)
    (hparse : IpAddr.parse text = some ip) : ip.display = text := by
  cases ip with
  | v4 addr => exact (parse_eq_v4_iff.1 hparse).symm
  | v6 addr =>
      rw [parse] at hparse
      split at hparse
      next ip hread =>
        obtain rfl := Option.some.inj hparse
        rw [readIpAddr, readIpv6Addr_of_not_mem hcolon] at hread
        split at hread
        · cases (Prod.mk.inj (Option.some.inj hread)).1
        · cases hread
      next => cases hparse

end Canonical

end WsHyper.Lib
