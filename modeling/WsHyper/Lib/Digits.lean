import WsHyper.Lib.Path
import Mathlib.Data.List.TakeWhile

/-!
# Numbers in a radix

Reading the digits that a text begins with.  What `Nat.toDigits` writes is read back,
whatever follows that is no digit.
-/

namespace WsHyper.Lib.Digits

def digitOf (c : Char) : Option Nat :=
  if '0'.toNat ≤ c.toNat ∧ c.toNat ≤ '9'.toNat then some (c.toNat - '0'.toNat)
  else if 'a'.toNat ≤ c.toNat ∧ c.toNat ≤ 'z'.toNat then some (c.toNat - 'a'.toNat + 10)
  else if 'A'.toNat ≤ c.toNat ∧ c.toNat ≤ 'Z'.toNat then some (c.toNat - 'A'.toNat + 10)
  else none

/-- `char::to_digit`. -/
def toDigit (radix : Nat) (c : Char) : Option Nat := (digitOf c).filter (· < radix)

def isDigit (radix : Nat) (c : Char) : Bool := (toDigit radix c).isSome

theorem toNat_of_isDigit {radix : Nat} {c : Char} (hc : isDigit radix c = true) :
    48 ≤ c.toNat ∧ c.toNat ≤ 122 := by
  rw [isDigit, toDigit, Option.isSome_filter, digitOf] at hc
  simp only [Char.reduceToNat] at hc
  split_ifs at hc with hdecimal hlower hupper
  · omega
  · omega
  · omega
  · cases hc

theorem isDigit_of_le {radix radix' : Nat} {c : Char} (hle : radix ≤ radix')
    (hc : isDigit radix c = true) : isDigit radix' c = true := by
  rw [isDigit, toDigit, Option.isSome_filter] at hc ⊢
  cases hdigit : digitOf c with
  | none => rw [hdigit] at hc; exact hc
  | some d =>
      rw [hdigit, Option.any_some, decide_eq_true_eq] at hc
      rw [Option.any_some, decide_eq_true_eq]
      exact hc.trans_le hle

def value (radix : Nat) (digits : Str) : Nat :=
  digits.foldl (fun n c => n * radix + (toDigit radix c).getD 0) 0

/-- A number of at most `maxDigits` digits, and the text behind it. -/
def readNumber (radix maxDigits : Nat) (allowZeroPrefix : Bool) (text : Str) :
    Option (Nat × Str) :=
  let digits := text.takeWhile (isDigit radix)
  if digits = [] ∨ maxDigits < digits.length ∨
      (allowZeroPrefix = false ∧ digits.head? = some '0' ∧ 1 < digits.length) then none
  else some (value radix digits, text.dropWhile (isDigit radix))

/-! ## Digits that are written -/

section Written

variable {radix n : Nat}

theorem digitOf_digitChar : ∀ d < 16, digitOf (Nat.digitChar d) = some d := by decide

theorem toDigit_digitChar (hradix : radix ≤ 16) (hn : n < radix) :
    toDigit radix (Nat.digitChar n) = some n := by
  rw [toDigit, digitOf_digitChar n (by omega), Option.filter_some_pos (by simpa using hn)]

theorem mem_toDigits (hradix : 1 < radix) {c : Char} (hc : c ∈ Nat.toDigits radix n) :
    ∃ d < radix, c = Nat.digitChar d := by
  induction n using Nat.strong_induction_on with
  | _ n ih =>
    rw [Nat.toDigits_eq_if hradix] at hc
    split_ifs at hc with hn
    · exact ⟨n, hn, List.mem_singleton.1 hc⟩
    · rcases List.mem_append.1 hc with hc | hc
      · exact ih (n / radix) (Nat.div_lt_self (by omega) hradix) hc
      · exact ⟨n % radix, Nat.mod_lt _ (by omega), List.mem_singleton.1 hc⟩

theorem isDigit_of_mem_toDigits (hradix : 1 < radix) (hle : radix ≤ 16) {c : Char}
    (hc : c ∈ Nat.toDigits radix n) : isDigit radix c = true := by
  obtain ⟨d, hd, rfl⟩ := mem_toDigits hradix hc
  rw [isDigit, toDigit_digitChar hle hd]
  rfl

theorem value_append_singleton (digits : Str) (c : Char) :
    value radix (digits ++ [c]) = value radix digits * radix + (toDigit radix c).getD 0 := by
  simp [value]

theorem value_toDigits (hradix : 1 < radix) (hle : radix ≤ 16) :
    value radix (Nat.toDigits radix n) = n := by
  induction n using Nat.strong_induction_on with
  | _ n ih =>
    rw [Nat.toDigits_eq_if hradix]
    split_ifs with hn
    · simp [value, toDigit_digitChar hle hn]
    · have hmod : n % radix < radix := Nat.mod_lt _ (by omega)
      rw [value_append_singleton, ih (n / radix) (Nat.div_lt_self (by omega) hradix),
        toDigit_digitChar hle hmod, Option.getD_some, Nat.div_add_mod']

theorem eq_zero_of_head_toDigits (hradix : 1 < radix)
    (hhead : (Nat.toDigits radix n).head? = some '0') : n = 0 := by
  induction n using Nat.strong_induction_on with
  | _ n ih =>
    rw [Nat.toDigits_eq_if hradix] at hhead
    split_ifs at hhead with hn
    · simpa using hhead
    · rw [List.head?_append_of_ne_nil _ Nat.toDigits_ne_nil] at hhead
      have hzero := ih (n / radix) (Nat.div_lt_self (by omega) hradix) hhead
      have hpos : 0 < n / radix := Nat.div_pos (by omega) (by omega)
      omega

end Written

/-! ## Reading -/

section Reading

variable {radix maxDigits n : Nat} {allowZeroPrefix : Bool} {text rest : Str}

theorem readNumber_toDigits (hradix : 1 < radix) (hle : radix ≤ 16)
    (hlength : (Nat.toDigits radix n).length ≤ maxDigits)
    (hrest : ∀ c, rest.head? = some c → isDigit radix c = false) :
    readNumber radix maxDigits allowZeroPrefix (Nat.toDigits radix n ++ rest) =
      some (n, rest) := by
  have hdigits : ∀ c ∈ Nat.toDigits radix n, isDigit radix c = true :=
    fun c hc => isDigit_of_mem_toDigits hradix hle hc
  have htake : (Nat.toDigits radix n ++ rest).takeWhile (isDigit radix) =
      Nat.toDigits radix n := by
    rw [List.takeWhile_append_of_pos hdigits]
    cases rest with
    | nil => simp
    | cons c cs => simp [List.takeWhile_cons_of_neg, hrest c rfl]
  have hdrop : (Nat.toDigits radix n ++ rest).dropWhile (isDigit radix) = rest := by
    rw [List.dropWhile_append_of_pos hdigits]
    cases rest with
    | nil => rfl
    | cons c cs => exact List.dropWhile_cons_of_neg (by simp [hrest c rfl])
  rw [readNumber]
  simp only [htake, hdrop]
  rw [if_neg, value_toDigits hradix hle]
  rintro (hnil | hlong | ⟨-, hhead, hlong⟩)
  · exact Nat.toDigits_ne_nil hnil
  · omega
  · rw [eq_zero_of_head_toDigits hradix hhead, Nat.toDigits_zero] at hlong
    simp at hlong

theorem readNumber_eq_none (htext : ∀ c, text.head? = some c → isDigit radix c = false) :
    readNumber radix maxDigits allowZeroPrefix text = none := by
  have htake : text.takeWhile (isDigit radix) = [] := by
    cases text with
    | nil => rfl
    | cons c cs => exact List.takeWhile_cons_of_neg (by simp [htext c rfl])
  rw [readNumber]
  simp only [htake]
  exact if_pos (.inl trivial)

theorem append_of_readNumber
    (hread : readNumber radix maxDigits allowZeroPrefix text = some (n, rest)) :
    ∃ digits, text = digits ++ rest ∧ ∀ c ∈ digits, isDigit radix c = true := by
  rw [readNumber] at hread
  split_ifs at hread
  obtain ⟨-, rfl⟩ := Prod.mk.inj (Option.some.inj hread)
  exact ⟨text.takeWhile (isDigit radix), List.takeWhile_append_dropWhile.symm,
    fun c hc => List.mem_takeWhile_imp hc⟩

theorem digitChar_of_toDigit {c : Char} {d : Nat} (hc : toDigit 10 c = some d) :
    d < 10 ∧ Nat.digitChar d = c := by
  obtain ⟨hdigit, hlt⟩ := Option.filter_eq_some_iff.1 hc
  rw [decide_eq_true_eq] at hlt
  refine ⟨hlt, ?_⟩
  rw [digitOf] at hdigit
  simp only [Char.reduceToNat] at hdigit
  split_ifs at hdigit with hdecimal
  · have hchar : c = Char.ofNat (d + 48) := by
      rw [← Char.ofNat_toNat c]
      congr 1
      have hd := Option.some.inj hdigit
      omega
    have hwritten : ∀ d < 10, Nat.digitChar d = Char.ofNat (d + 48) := by decide
    rw [hchar, hwritten d hlt]
  · have hd := Option.some.inj hdigit
    omega
  · have hd := Option.some.inj hdigit
    omega

/-- A number without a leading zero is written as it was read. -/
theorem toDigits_value {digits : Str} (hne : digits ≠ [])
    (hdigits : ∀ c ∈ digits, isDigit 10 c = true)
    (hhead : digits.head? = some '0' → digits.length = 1) :
    Nat.toDigits 10 (value 10 digits) = digits := by
  induction digits using List.reverseRecOn with
  | nil => exact absurd rfl hne
  | append_singleton digits c ih =>
      obtain ⟨d, hd⟩ := Option.isSome_iff_exists.1 (hdigits c (by simp))
      obtain ⟨hlt, rfl⟩ := digitChar_of_toDigit hd
      rw [value_append_singleton, hd, Option.getD_some, Nat.toDigits_eq_if (by decide)]
      cases digits with
      | nil =>
          have hvalue : value 10 [] * 10 + d = d := by simp [value]
          rw [hvalue, if_pos hlt, List.nil_append]
      | cons first digits =>
          have hfirst : first ≠ '0' := by
            rintro rfl
            have hlength := hhead rfl
            simp at hlength
          have hwritten := ih (List.cons_ne_nil _ _)
            (fun c hc => hdigits c (List.mem_append_left _ hc))
            fun hzero => absurd (Option.some.inj hzero) hfirst
          have hpos : value 10 (first :: digits) ≠ 0 := by
            intro hzero
            rw [hzero, Nat.toDigits_zero] at hwritten
            exact hfirst (List.head_eq_of_cons_eq hwritten).symm
          rw [if_neg (by omega), show (value 10 (first :: digits) * 10 + d) / 10 =
            value 10 (first :: digits) by omega, hwritten,
            show (value 10 (first :: digits) * 10 + d) % 10 = d by omega]

theorem append_of_readNumber_false (hread : readNumber 10 maxDigits false text = some (n, rest)) :
    text = Nat.toDigits 10 n ++ rest ∧ (Nat.toDigits 10 n).length ≤ maxDigits := by
  rw [readNumber] at hread
  split_ifs at hread with hbad
  simp only [not_or, not_and, not_lt] at hbad
  obtain ⟨hne, hlength, hzero⟩ := hbad
  obtain ⟨rfl, rfl⟩ := Prod.mk.inj (Option.some.inj hread)
  have hpos : 0 < (text.takeWhile (isDigit 10)).length := List.length_pos_iff.2 hne
  have hwritten := toDigits_value hne (fun c hc => List.mem_takeWhile_imp hc)
    fun hhead => by have hle := hzero trivial hhead; omega
  rw [hwritten]
  exact ⟨List.takeWhile_append_dropWhile.symm, hlength⟩

end Reading

end WsHyper.Lib.Digits
