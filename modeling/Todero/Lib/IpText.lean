import Mathlib.Data.List.Basic
import Mathlib.Tactic.IntervalCases

/-! Reading the text of IP addresses, as the standard library of Rust does: dotted decimal
without leading zeros, and groups of hexadecimal digits, some of which `::` stands for and the
last two of which may be written in dotted decimal. Each reader takes what it can from the
front of the text and leaves the rest. -/
namespace IpText

/-- `char::to_digit`. -/
def digit (radix : Nat) (c : Char) : Option Nat :=
  let n := c.toNat
  let value :=
    if 48 ≤ n ∧ n ≤ 57 then n - 48
    else if 97 ≤ n ∧ n ≤ 122 then n - 87
    else if 65 ≤ n ∧ n ≤ 90 then n - 55
    else radix
  if value < radix then some value else none

/-- The loop of `read_number`: the value, how many digits there were, and the rest. -/
def readDigits (radix bound maxDigits : Nat) :
    List Char → Nat → Nat → Option (Nat × Nat × List Char)
  | [], value, count => some (value, count, [])
  | c :: cs, value, count =>
    match digit radix c with
    | none => some (value, count, c :: cs)
    | some d =>
      if value * radix + d < bound ∧ count < maxDigits then
        readDigits radix bound maxDigits cs (value * radix + d) (count + 1)
      else none

def readNumber (radix bound maxDigits : Nat) (allowZeroPrefix : Bool) (cs : List Char) :
    Option (Nat × List Char) :=
  match readDigits radix bound maxDigits cs 0 0 with
  | none => none
  | some (value, count, rest) =>
    if count = 0 then none
    else if !allowZeroPrefix && cs.head? = some '0' && count > 1 then none
    else some (value, rest)

/-- All but the first of several items have the separator in front. -/
def readSeparator {α : Type} (sep : Char) (index : Nat)
    (inner : List Char → Option (α × List Char)) (cs : List Char) : Option (α × List Char) :=
  if index = 0 then inner cs
  else
    match cs with
    | [] => none
    | c :: cs => if c = sep then inner cs else none

def readOctet (index : Nat) : List Char → Option (Nat × List Char) :=
  readSeparator '.' index (readNumber 10 256 3 false)

/-- `read_ipv4_addr`. -/
def readIpv4 (cs : List Char) : Option (Nat × List Char) := do
  let (a, cs) ← readOctet 0 cs
  let (b, cs) ← readOctet 1 cs
  let (c, cs) ← readOctet 2 cs
  let (d, cs) ← readOctet 3 cs
  return (((a * 256 + b) * 256 + c) * 256 + d, cs)

/-- `read_groups`, from group `i` on with room for so many more: the groups, whether the last
two were an IPv4 address, and the rest. -/
def readGroups : Nat → Nat → List Char → List Nat × Bool × List Char
  | 0, _, cs => ([], false, cs)
  | room + 1, i, cs =>
    match if room = 0 then none else readSeparator ':' i readIpv4 cs with
    | some (v4, cs) => ([v4 / 65536, v4 % 65536], true, cs)
    | none =>
      match readSeparator ':' i (readNumber 16 65536 4 true) cs with
      | none => ([], false, cs)
      | some (group, cs) =>
        let (groups, v4, cs) := readGroups room (i + 1) cs
        (group :: groups, v4, cs)

def ofGroups (groups : List Nat) : Nat := groups.foldl (fun value group => value * 65536 + group) 0

/-- `read_ipv6_addr`. -/
def readIpv6 (cs : List Char) : Option (Nat × List Char) :=
  match readGroups 8 0 cs with
  | (head, headIpv4, cs) =>
    if head.length = 8 then some (ofGroups head, cs)
    else if headIpv4 then none
    else
      match cs with
      | ':' :: ':' :: cs =>
        match readGroups (8 - (head.length + 1)) 0 cs with
        | (tail, _, cs) =>
          let zeros := List.replicate (8 - head.length - tail.length) 0
          some (ofGroups (head ++ zeros ++ tail), cs)
      | _ => none

example : readIpv4 "203.0.113.10".toList = some (0xCB00710A, []) := by decide +kernel
example : readIpv6 "2001:db8::192.0.2.1".toList =
    some (0x20010DB80000000000000000C0000201, []) := by decide +kernel

/-! ### Dotted decimal -/

def digitChar (d : Nat) : Char := Char.ofNat (48 + d)

/-- A byte in decimal. -/
def octetText (n : Nat) : List Char :=
  if n < 10 then [digitChar n]
  else if n < 100 then [digitChar (n / 10), digitChar (n % 10)]
  else [digitChar (n / 100), digitChar (n / 10 % 10), digitChar (n % 10)]

def ipv4Text (a b c d : Nat) : List Char :=
  octetText a ++ '.' :: (octetText b ++ '.' :: (octetText c ++ '.' :: octetText d))

theorem digit_digitChar {d : Nat} (hd : d < 10) : digit 10 (digitChar d) = some d := by
  interval_cases d <;> rfl

theorem digitChar_eq_zero {d : Nat} (hd : d < 10) (hzero : digitChar d = '0') : d = 0 := by
  have heq := digit_digitChar hd
  rw [hzero] at heq
  exact (Option.some.inj heq).symm

section Octet
variable {rest : List Char} (hrest : ∀ c ∈ rest.head?, digit 10 c = none)
include hrest

theorem readDigits_stop (value count : Nat) :
    readDigits 10 256 3 rest value count = some (value, count, rest) := by
  cases rest with
  | nil => rfl
  | cons c cs => rw [readDigits, hrest c rfl]

theorem readNumber_octet {n : Nat} (hn : n < 256) :
    readNumber 10 256 3 false (octetText n ++ rest) = some (n, rest) := by
  rw [octetText, readNumber]
  split_ifs with hone htwo
  · simp [readDigits, digit_digitChar hone, readDigits_stop hrest, show n < 256 by omega]
  · have hfirst : digitChar (n / 10) ≠ '0' := fun hzero => by
      have := digitChar_eq_zero (by omega) hzero
      omega
    have hvalue : n / 10 * 10 + n % 10 = n := by omega
    simp [readDigits, digit_digitChar (show n / 10 < 10 by omega),
      digit_digitChar (show n % 10 < 10 by omega), readDigits_stop hrest, hfirst, hvalue, hn,
      show n / 10 < 256 by omega]
  · have hfirst : digitChar (n / 100) ≠ '0' := fun hzero => by
      have := digitChar_eq_zero (by omega) hzero
      omega
    have hprefix : n / 100 * 10 + n / 10 % 10 = n / 10 := by omega
    have hvalue : n / 10 * 10 + n % 10 = n := by omega
    simp [readDigits, digit_digitChar (show n / 100 < 10 by omega),
      digit_digitChar (show n / 10 % 10 < 10 by omega),
      digit_digitChar (show n % 10 < 10 by omega), readDigits_stop hrest, hfirst, hprefix,
      hvalue, hn, show n / 100 < 256 by omega, show n / 10 < 256 by omega]

end Octet

/-- The bytes of an address are read back from its text. -/
theorem readIpv4_text {a b c d : Nat} (ha : a < 256) (hb : b < 256) (hc : c < 256)
    (hd : d < 256) :
    readIpv4 (ipv4Text a b c d) = some (((a * 256 + b) * 256 + c) * 256 + d, []) := by
  have hdot : ∀ cs : List Char, ∀ c ∈ ('.' :: cs).head?, digit 10 c = none := by
    intro cs c hc
    obtain rfl := Option.some.inj hc
    rfl
  have hnil : ∀ c ∈ ([] : List Char).head?, digit 10 c = none := by simp
  have hlast := readNumber_octet hnil hd
  rw [List.append_nil] at hlast
  rw [readIpv4, ipv4Text]
  simp [readOctet, readSeparator, readNumber_octet (hdot _) ha, readNumber_octet (hdot _) hb,
    readNumber_octet (hdot _) hc, hlast]

end IpText
