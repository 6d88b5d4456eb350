import Mathlib.Data.List.TakeWhile
import Mathlib.Data.Nat.Digits.Lemmas

/-! JSON documents and their text: a compact writer, a reader, and that the reader gives
back what was written and refuses an object whose text has been cut short. -/
namespace Json

/-- A number as it is written: `mantissa * 10 ^ exponent`, the exponent left out in a plain
integer. -/
structure Number where
  mantissa : Int
  exponent : Option Int := none
  deriving DecidableEq, Repr

/-- The fields of an object in the order of the text, the same key twice included. -/
inductive Doc where
  | null
  | bool (b : Bool)
  | num (n : Number)
  | str (s : String)
  | arr (items : List Doc)
  | obj (fields : List (String × Doc))

/-! ### Writing -/

def digitChar (d : Nat) : Char := Char.ofNat (48 + d)

def natText (n : Nat) : List Char :=
  if n = 0 then ['0'] else ((Nat.digits 10 n).map digitChar).reverse

def intText (i : Int) : List Char :=
  if i < 0 then '-' :: natText i.natAbs else natText i.natAbs

def Number.text (n : Number) : List Char :=
  match n.exponent with
  | none => intText n.mantissa
  | some e => intText n.mantissa ++ 'e' :: intText e

def hexChar (d : Nat) : Char := if d < 10 then digitChar d else Char.ofNat (87 + d)

def escape (c : Char) : List Char :=
  if c = '"' then ['\\', '"']
  else if c = '\\' then ['\\', '\\']
  else if c = '\n' then ['\\', 'n']
  else if c = '\r' then ['\\', 'r']
  else if c = '\t' then ['\\', 't']
  else if c.toNat = 8 then ['\\', 'b']
  else if c.toNat = 12 then ['\\', 'f']
  else if c.toNat < 32 then ['\\', 'u', '0', '0', hexChar (c.toNat / 16), hexChar (c.toNat % 16)]
  else [c]

/-- The inside of a string and its closing quote. -/
def stringText (cs : List Char) : List Char := cs.flatMap escape ++ ['"']

mutual
def text : Doc → List Char
  | .null => ['n', 'u', 'l', 'l']
  | .bool true => ['t', 'r', 'u', 'e']
  | .bool false => ['f', 'a', 'l', 's', 'e']
  | .num n => n.text
  | .str s => '"' :: stringText s.toList
  | .arr items => '[' :: (itemsText items ++ [']'])
  | .obj fields => '{' :: (fieldsText fields ++ ['}'])

def itemsText : List Doc → List Char
  | [] => []
  | [v] => text v
  | v :: w :: vs => text v ++ ',' :: itemsText (w :: vs)

def fieldsText : List (String × Doc) → List Char
  | [] => []
  | [(k, v)] => '"' :: (stringText k.toList ++ ':' :: text v)
  | (k, v) :: f :: fs => '"' :: (stringText k.toList ++ ':' :: (text v ++ ',' :: fieldsText (f :: fs)))
end

/-! ### Reading -/

def isSpace (c : Char) : Bool := c = ' ' || c = '\t' || c = '\n' || c = '\r'

def skipSpace (cs : List Char) : List Char := cs.dropWhile isSpace

/-- Past the spaces and `c`. -/
def token (c : Char) (cs : List Char) : Option (List Char) :=
  match skipSpace cs with
  | [] => none
  | d :: rest => if d = c then some rest else none

def isDigit (c : Char) : Bool := 48 ≤ c.toNat && c.toNat ≤ 57

def readNat (cs : List Char) : Option Nat :=
  if cs = [] ∨ ¬ cs.all isDigit then none
  else some (Nat.ofDigits 10 (cs.reverse.map fun c => c.toNat - 48))

/-- An integer, without zeros in front. -/
def readInt : List Char → Option Int
  | '-' :: ds => if ds.head? = some '0' ∧ ds ≠ ['0'] then none else (readNat ds).map fun n => -↑n
  | ds => if ds.head? = some '0' ∧ ds ≠ ['0'] then none else (readNat ds).map Int.ofNat

def readExponent : List Char → Option Int
  | '+' :: ds => (readNat ds).map Int.ofNat
  | '-' :: ds => (readNat ds).map fun n => -↑n
  | ds => (readNat ds).map Int.ofNat

def isExponentMark (c : Char) : Bool := c = 'e' || c = 'E'

def isPoint (c : Char) : Bool := c = '.'

/-- The digits behind the point lower the exponent. -/
def readNumber (cs : List Char) : Option Number :=
  let base := cs.takeWhile (! isExponentMark ·)
  let whole := base.takeWhile (! isPoint ·)
  let exponent := match cs.dropWhile (! isExponentMark ·) with
    | [] => some none
    | _ :: es => (readExponent es).map some
  let fraction := match base.dropWhile (! isPoint ·) with
    | [] => some []
    | _ :: ds => if ds = [] then none else some ds
  (readInt whole).bind fun m => fraction.bind fun ds => exponent.bind fun e =>
    if ds = [] then some ⟨m, e⟩
    else (readExponent (whole ++ ds)).map fun m => ⟨m, some (e.getD 0 - ds.length)⟩

def isNumberChar (c : Char) : Bool :=
  isDigit c || c = '-' || c = '+' || isPoint c || isExponentMark c

def hexVal (c : Char) : Option Nat :=
  let n := c.toNat
  if 48 ≤ n ∧ n ≤ 57 then some (n - 48)
  else if 97 ≤ n ∧ n ≤ 102 then some (n - 87)
  else if 65 ≤ n ∧ n ≤ 70 then some (n - 55)
  else none

/-- One code unit that is not half of a surrogate pair. -/
def unicode (a b c d : Char) : Option Char := do
  let n := (((← hexVal a) * 16 + (← hexVal b)) * 16 + (← hexVal c)) * 16 + (← hexVal d)
  if 0xD800 ≤ n ∧ n < 0xE000 then none else some (Char.ofNat n)

def unescape (c : Char) : Option Char :=
  if c = '"' ∨ c = '\\' ∨ c = '/' then some c
  else if c = 'n' then some '\n'
  else if c = 'r' then some '\r'
  else if c = 't' then some '\t'
  else if c = 'b' then some (Char.ofNat 8)
  else if c = 'f' then some (Char.ofNat 12)
  else none

/-- The inside of a string up to its closing quote, and what follows. -/
def readString : List Char → Option (List Char × List Char)
  | [] => none
  | '"' :: rest => some ([], rest)
  | '\\' :: 'u' :: a :: b :: c :: d :: rest =>
    (unicode a b c d).bind fun e => (readString rest).map fun (s, r) => (e :: s, r)
  | '\\' :: c :: rest =>
    (unescape c).bind fun e => (readString rest).map fun (s, r) => (e :: s, r)
  | c :: rest =>
    if c.toNat < 32 then none else (readString rest).map fun (s, r) => (c :: s, r)

/-- The rest of a word that stands for `v`. -/
def readWord (word : List Char) (v : Doc) (cs : List Char) : Option (Doc × List Char) :=
  if cs.take word.length = word then some (v, cs.drop word.length) else none

mutual
/-- The fuel bounds the length of what is read. -/
def readValue : Nat → List Char → Option (Doc × List Char)
  | 0, _ => none
  | fuel + 1, cs =>
    match skipSpace cs with
    | [] => none
    | c :: rest =>
      if c = 'n' then readWord ['u', 'l', 'l'] .null rest
      else if c = 't' then readWord ['r', 'u', 'e'] (.bool true) rest
      else if c = 'f' then readWord ['a', 'l', 's', 'e'] (.bool false) rest
      else if c = '"' then (readString rest).map fun (s, r) => (.str (String.ofList s), r)
      else if c = '[' then
        match token ']' rest with
        | some r => some (.arr [], r)
        | none => (readItems fuel rest).map fun (vs, r) => (.arr vs, r)
      else if c = '{' then
        match token '}' rest with
        | some r => some (.obj [], r)
        | none => (readFields fuel rest).map fun (fs, r) => (.obj fs, r)
      else
        (readNumber ((c :: rest).takeWhile isNumberChar)).map fun n =>
          (.num n, (c :: rest).dropWhile isNumberChar)

/-- One value or more, and the closing bracket. -/
def readItems : Nat → List Char → Option (List Doc × List Char)
  | 0, _ => none
  | fuel + 1, cs =>
    (readValue fuel cs).bind fun (v, r) =>
      match token ',' r with
      | some r => (readItems fuel r).map fun (vs, r) => (v :: vs, r)
      | none => (token ']' r).map fun r => ([v], r)

def readFields : Nat → List Char → Option (List (String × Doc) × List Char)
  | 0, _ => none
  | fuel + 1, cs =>
    (token '"' cs).bind fun r => (readString r).bind fun (k, r) =>
      (token ':' r).bind fun r => (readValue fuel r).bind fun (v, r) =>
        match token ',' r with
        | some r => (readFields fuel r).map fun (fs, r) => ((String.ofList k, v) :: fs, r)
        | none => (token '}' r).map fun r => ([(String.ofList k, v)], r)
end

/-- A whole text with one document in it. -/
def read (cs : List Char) : Option Doc :=
  match readValue cs.length cs with
  | none => none
  | some (v, rest) => if skipSpace rest = [] then some v else none

/-! ### What is written is read back -/

theorem isDigit_digitChar : ∀ d < 10, isDigit (digitChar d) = true := by decide

theorem digitChar_sub : ∀ d < 10, (digitChar d).toNat - 48 = d := by decide

theorem natText_all (n : Nat) : ∀ c ∈ natText n, isDigit c = true := by
  intro c hc
  unfold natText at hc
  split_ifs at hc with h0
  · rw [List.mem_singleton.mp hc]
    decide
  · rw [List.mem_reverse, List.mem_map] at hc
    obtain ⟨d, hd, rfl⟩ := hc
    exact isDigit_digitChar d (Nat.digits_lt_base (by decide) hd)

theorem natText_ne_nil (n : Nat) : natText n ≠ [] := by
  unfold natText
  split_ifs with h0
  · simp
  · simpa [Nat.digits_eq_nil_iff_eq_zero] using h0

/-- No zero stands in front of another digit. -/
theorem natText_head (n : Nat) : ¬ ((natText n).head? = some '0' ∧ natText n ≠ ['0']) := by
  rintro ⟨hhead, hne⟩
  by_cases h0 : n = 0
  · simp [natText, h0] at hne
  · have hdig : Nat.digits 10 n ≠ [] := Nat.digits_ne_nil_iff_ne_zero.mpr h0
    have hlast := Nat.getLast_digit_ne_zero 10 h0
    have hlt := Nat.digits_lt_base (b := 10) (by decide) (List.getLast_mem hdig)
    rw [natText, if_neg h0, List.head?_reverse, List.getLast?_map,
      List.getLast?_eq_some_getLast hdig] at hhead
    simp only [Option.map_some, Option.some.injEq] at hhead
    have hdigit := digitChar_sub _ hlt
    rw [hhead] at hdigit
    exact hlast hdigit.symm

theorem readNat_natText (n : Nat) : readNat (natText n) = some n := by
  have hall : (natText n).all isDigit := List.all_eq_true.mpr (natText_all n)
  rw [readNat, if_neg (by simp [natText_ne_nil, hall])]
  by_cases h0 : n = 0
  · subst h0
    rfl
  · have hback : (Nat.digits 10 n).map (fun d => (digitChar d).toNat - 48) = Nat.digits 10 n := by
      rw [List.map_congr_left fun d hd => digitChar_sub d (Nat.digits_lt_base (by decide) hd)]
      exact List.map_id' _
    rw [natText, if_neg h0, List.reverse_reverse, List.map_map]
    exact congrArg some ((congrArg _ hback).trans (Nat.ofDigits_digits 10 n))

theorem natText_cons (n : Nat) : ∃ c cs, natText n = c :: cs ∧ isDigit c = true := by
  obtain ⟨c, cs, hc⟩ := List.exists_cons_of_ne_nil (natText_ne_nil n)
  exact ⟨c, cs, hc, natText_all n c (by simp [hc])⟩

theorem not_isDigit_minus : isDigit '-' = false := by decide

theorem readInt_intText (i : Int) : readInt (intText i) = some i := by
  unfold intText
  split_ifs with hneg
  · rw [readInt, if_neg (natText_head _), readNat_natText]
    exact congrArg some (show -(i.natAbs : Int) = i by omega)
  · obtain ⟨c, cs, hc, hdigit⟩ := natText_cons i.natAbs
    have hminus : ∀ ds, natText i.natAbs = '-' :: ds → False := by
      intro ds hds
      rw [hc, List.cons.injEq] at hds
      simp [hds.1, not_isDigit_minus] at hdigit
    rw [readInt, if_neg (natText_head _), readNat_natText]
    · exact congrArg some (by simp only [Int.ofNat_eq_natCast]; omega)
    · exact hminus

theorem readExponent_intText (i : Int) : readExponent (intText i) = some i := by
  unfold intText
  split_ifs with hneg
  · rw [readExponent, readNat_natText]
    exact congrArg some (show -(i.natAbs : Int) = i by omega)
  · obtain ⟨c, cs, hc, hdigit⟩ := natText_cons i.natAbs
    have hsign : ∀ d ds, isDigit d = false → natText i.natAbs = d :: ds → False := by
      intro d ds hd hds
      rw [hc, List.cons.injEq] at hds
      simp [hds.1, hd] at hdigit
    rw [readExponent, readNat_natText]
    · exact congrArg some (show (i.natAbs : Int) = i by omega)
    · exact fun ds => hsign '+' ds (by decide)
    · exact fun ds => hsign '-' ds (by decide)

theorem intText_all (i : Int) : ∀ c ∈ intText i, isDigit c = true ∨ c = '-' := by
  intro c hc
  unfold intText at hc
  split_ifs at hc
  · rcases List.mem_cons.mp hc with rfl | hc
    · exact .inr rfl
    · exact .inl (natText_all _ c hc)
  · exact .inl (natText_all _ c hc)

theorem intText_plain {i : Int} {c : Char} (hc : c ∈ intText i) :
    isExponentMark c = false ∧ isPoint c = false ∧ isNumberChar c = true := by
  rcases intText_all i c hc with hd | rfl
  · have hne : ∀ d, isDigit d = false → c ≠ d := by
      rintro d hd' rfl
      simp [hd'] at hd
    have he := hne 'e' (by decide)
    have hE := hne 'E' (by decide)
    have hpoint := hne '.' (by decide)
    exact ⟨by simp [isExponentMark, he, hE], by simp [isPoint, hpoint], by simp [isNumberChar, hd]⟩
  · exact ⟨by decide, by decide, by decide⟩

theorem takeWhile_dropWhile_stop {p : Char → Bool} {cs : List Char} (rest : List Char)
    (hcs : ∀ c ∈ cs, p c = true) (hrest : ∀ c ∈ rest.head?, p c = false) :
    (cs ++ rest).takeWhile p = cs ∧ (cs ++ rest).dropWhile p = rest := by
  rw [List.takeWhile_append_of_pos hcs, List.dropWhile_append_of_pos hcs]
  cases rest with
  | nil => simp
  | cons c rest =>
    have hc := hrest c rfl
    simp [hc]

theorem readNumber_text (n : Number) : readNumber n.text = some n := by
  obtain ⟨m, e⟩ := n
  have hmark : ∀ c ∈ intText m, (! isExponentMark c) = true := by
    intro c hc
    simp [(intText_plain hc).1]
  have hpoint : ∀ c ∈ intText m, (! isPoint c) = true := by
    intro c hc
    simp [(intText_plain hc).2.1]
  have hwhole := takeWhile_dropWhile_stop [] hpoint (by simp)
  rw [List.append_nil] at hwhole
  cases e with
  | none =>
    have hbase := takeWhile_dropWhile_stop [] hmark (by simp)
    rw [List.append_nil] at hbase
    simp [Number.text, readNumber, hbase, hwhole, readInt_intText]
  | some e =>
    have hbase := takeWhile_dropWhile_stop ('e' :: intText e) hmark
      (by simp [isExponentMark])
    simp [Number.text, readNumber, hbase, hwhole, readInt_intText, readExponent_intText]

theorem Number.text_all (n : Number) : ∀ c ∈ n.text, isNumberChar c = true := by
  intro c hc
  unfold Number.text at hc
  split at hc
  · exact (intText_plain hc).2.2
  · rcases List.mem_append.mp hc with hc | hc
    · exact (intText_plain hc).2.2
    · rcases List.mem_cons.mp hc with rfl | hc
      · decide
      · exact (intText_plain hc).2.2

theorem Number.text_cons (n : Number) : ∃ c cs, n.text = c :: cs := by
  have hint : ∀ i, ∃ c cs, intText i = c :: cs := by
    intro i
    unfold intText
    split_ifs
    · exact ⟨_, _, rfl⟩
    · obtain ⟨c, cs, hc, -⟩ := natText_cons i.natAbs
      exact ⟨c, cs, hc⟩
  obtain ⟨c, cs, hc⟩ := hint n.mantissa
  unfold Number.text
  split
  · exact ⟨c, cs, hc⟩
  · exact ⟨c, _, by rw [hc, List.cons_append]⟩

/-! Strings -/

theorem unicode_control : ∀ n < 32, unicode '0' '0' (hexChar (n / 16)) (hexChar (n % 16)) =
    some (Char.ofNat n) := by decide

theorem readString_escape (c : Char) (rest : List Char) :
    readString (escape c ++ rest) = (readString rest).map fun (s, r) => (c :: s, r) := by
  unfold escape
  split_ifs with h1 h2 h3 h4 h5 h6 h7 h8
  · subst h1
    rfl
  · subst h2
    rfl
  · subst h3
    rfl
  · subst h4
    rfl
  · subst h5
    rfl
  · have hc : c = Char.ofNat 8 := by rw [← h6, Char.ofNat_toNat]
    subst hc
    rfl
  · have hc : c = Char.ofNat 12 := by rw [← h7, Char.ofNat_toNat]
    subst hc
    rfl
  · have hu := unicode_control c.toNat h8
    rw [Char.ofNat_toNat] at hu
    simp [readString, hu]
  · rw [List.singleton_append, readString]
    · rw [if_neg h8]
    · exact h1
    · exact fun _ _ _ _ _ h => absurd h h2
    · exact fun _ _ h => absurd h h2

theorem readString_text (cs rest : List Char) :
    readString (stringText cs ++ rest) = some (cs, rest) := by
  induction cs with
  | nil => rfl
  | cons c cs ih =>
    have hsplit : stringText (c :: cs) ++ rest = escape c ++ (stringText cs ++ rest) := by
      simp [stringText]
    rw [hsplit, readString_escape, ih]
    rfl

/-! Documents -/

theorem skipSpace_cons {c : Char} {cs : List Char} (h : isSpace c = false) :
    skipSpace (c :: cs) = c :: cs := by
  rw [skipSpace, List.dropWhile_cons_of_neg (by simp [h])]

theorem token_self {c : Char} {cs : List Char} (h : isSpace c = false) :
    token c (c :: cs) = some cs := by
  rw [token, skipSpace_cons h]
  exact if_pos rfl

theorem token_other {c d : Char} {cs : List Char} (hspace : isSpace d = false) (h : d ≠ c) :
    token c (d :: cs) = none := by
  rw [token, skipSpace_cons hspace]
  exact if_neg h

theorem isNumberChar_ne {c d : Char} (hc : isNumberChar c = true) (hd : isNumberChar d = false) :
    c ≠ d := by
  rintro rfl
  simp [hd] at hc

/-- A value begins with neither a space nor a closing bracket. -/
theorem text_cons (v : Doc) : ∃ c cs, text v = c :: cs ∧ isSpace c = false ∧ c ≠ ']' := by
  cases v with
  | null => exact ⟨_, _, rfl, by decide, by decide⟩
  | bool b => cases b <;> exact ⟨_, _, rfl, by decide, by decide⟩
  | num n =>
    obtain ⟨c, cs, hc⟩ := n.text_cons
    have hnum := n.text_all c (by simp [hc])
    have hne := fun d => isNumberChar_ne (d := d) hnum
    refine ⟨c, cs, by rw [text, hc], ?_, hne ']' (by decide)⟩
    simp [isSpace, hne ' ' (by decide), hne '\t' (by decide), hne '\n' (by decide),
      hne '\r' (by decide)]
  | str s => exact ⟨_, _, rfl, by decide, by decide⟩
  | arr items => exact ⟨_, _, rfl, by decide, by decide⟩
  | obj fields => exact ⟨_, _, rfl, by decide, by decide⟩

theorem itemsText_cons (v : Doc) (vs : List Doc) :
    ∃ c cs, itemsText (v :: vs) = c :: cs ∧ isSpace c = false ∧ c ≠ ']' := by
  obtain ⟨c, cs, hc, hspace, hne⟩ := text_cons v
  cases vs with
  | nil => exact ⟨c, cs, by rw [itemsText, hc], hspace, hne⟩
  | cons w vs => exact ⟨c, _, by rw [itemsText, hc, List.cons_append], hspace, hne⟩

theorem readValue_num (n : Number) (fuel : Nat) (rest : List Char)
    (hrest : ∀ c ∈ rest.head?, isNumberChar c = false) :
    readValue (fuel + 1) (n.text ++ rest) = some (.num n, rest) := by
  obtain ⟨c, cs, hc⟩ := n.text_cons
  have hnum := n.text_all c (by simp [hc])
  have hne := fun d => isNumberChar_ne (d := d) hnum
  have hspace : isSpace c = false := by
    simp [isSpace, hne ' ' (by decide), hne '\t' (by decide), hne '\n' (by decide),
      hne '\r' (by decide)]
  obtain ⟨htake, hdrop⟩ := takeWhile_dropWhile_stop rest n.text_all hrest
  rw [hc, List.cons_append] at htake hdrop
  rw [hc, List.cons_append, readValue, skipSpace_cons hspace]
  simp only [hne 'n' (by decide), hne 't' (by decide), hne 'f' (by decide), hne '"' (by decide),
    hne '[' (by decide), hne '{' (by decide), if_false, htake, hdrop]
  rw [← hc, readNumber_text]
  rfl

mutual
theorem readValue_text : ∀ (v : Doc) (fuel : Nat) (rest : List Char), (text v).length ≤ fuel →
    (∀ c ∈ rest.head?, isNumberChar c = false) → readValue fuel (text v ++ rest) = some (v, rest)
  | v, 0, rest, hfuel, _ => by
    obtain ⟨c, cs, hc, -⟩ := text_cons v
    simp [hc] at hfuel
  | .null, fuel + 1, rest, _, _ => rfl
  | .bool true, fuel + 1, rest, _, _ => rfl
  | .bool false, fuel + 1, rest, _, _ => rfl
  | .num n, fuel + 1, rest, _, hrest => by
    rw [text]
    exact readValue_num n fuel rest hrest
  | .str s, fuel + 1, rest, _, _ => by
    simp [text, readValue, skipSpace_cons (c := '"') (by decide), readString_text]
  | .arr [], fuel + 1, rest, _, _ => rfl
  | .arr (v :: vs), fuel + 1, rest, hfuel, _ => by
    obtain ⟨c, cs, hc, hspace, hne⟩ := itemsText_cons v vs
    have hitems := readItems_text v vs fuel rest (by
      simp only [text, List.length_cons, List.length_append, List.length_nil] at hfuel ⊢
      omega)
    have hopen : token ']' (itemsText (v :: vs) ++ ']' :: rest) = none := by
      rw [hc, List.cons_append]
      exact token_other hspace hne
    rw [text, List.cons_append, List.append_assoc, List.singleton_append, readValue,
      skipSpace_cons (by decide)]
    simp [hopen, hitems]
  | .obj [], fuel + 1, rest, _, _ => rfl
  | .obj ((k, v) :: fs), fuel + 1, rest, hfuel, _ => by
    have hfields := readFields_text k v fs fuel rest (by
      simp only [text, List.length_cons, List.length_append, List.length_nil] at hfuel ⊢
      omega)
    have hopen : token '}' (fieldsText ((k, v) :: fs) ++ '}' :: rest) = none := by
      cases fs <;> exact token_other (by decide) (by decide)
    rw [text, List.cons_append, List.append_assoc, List.singleton_append, readValue,
      skipSpace_cons (by decide)]
    simp [hopen, hfields]

theorem readItems_text : ∀ (v : Doc) (vs : List Doc) (fuel : Nat) (rest : List Char),
    (itemsText (v :: vs)).length + 1 ≤ fuel →
      readItems fuel (itemsText (v :: vs) ++ ']' :: rest) = some (v :: vs, rest)
  | v, [], 0, rest, hfuel => by simp at hfuel
  | v, [], fuel + 1, rest, hfuel => by
    rw [itemsText] at hfuel ⊢
    have hv := readValue_text v fuel (']' :: rest) (by omega) (by simp; decide)
    rw [readItems, hv]
    rfl
  | v, w :: vs, 0, rest, hfuel => by simp at hfuel
  | v, w :: vs, fuel + 1, rest, hfuel => by
    rw [itemsText] at hfuel ⊢
    simp only [List.length_append, List.length_cons] at hfuel
    have hv := readValue_text v fuel (',' :: (itemsText (w :: vs) ++ ']' :: rest)) (by omega)
      (by simp; decide)
    have hvs := readItems_text w vs fuel rest (by omega)
    rw [readItems, List.append_assoc, List.cons_append, hv]
    simp [token_self (c := ',') (by decide), hvs]

theorem readFields_text : ∀ (k : String) (v : Doc) (fs : List (String × Doc)) (fuel : Nat)
    (rest : List Char), (fieldsText ((k, v) :: fs)).length + 1 ≤ fuel →
      readFields fuel (fieldsText ((k, v) :: fs) ++ '}' :: rest) = some ((k, v) :: fs, rest)
  | k, v, [], 0, rest, hfuel => by simp at hfuel
  | k, v, [], fuel + 1, rest, hfuel => by
    rw [fieldsText] at hfuel ⊢
    simp only [List.length_append, List.length_cons] at hfuel
    have hv := readValue_text v fuel ('}' :: rest) (by omega) (by simp; decide)
    simp [readFields, token_self (c := '"') (by decide), readString_text,
      token_self (c := ':') (by decide), hv, token_self (c := '}') (by decide),
      token_other (c := ',') (d := '}') (by decide) (by decide)]
  | k, v, (l, w) :: fs, 0, rest, hfuel => by simp at hfuel
  | k, v, (l, w) :: fs, fuel + 1, rest, hfuel => by
    rw [fieldsText] at hfuel ⊢
    simp only [List.length_append, List.length_cons] at hfuel
    have hv := readValue_text v fuel (',' :: (fieldsText ((l, w) :: fs) ++ '}' :: rest)) (by omega)
      (by simp; decide)
    have hfs := readFields_text l w fs fuel rest (by omega)
    simp [readFields, token_self (c := '"') (by decide), readString_text,
      token_self (c := ':') (by decide), hv, token_self (c := ',') (by decide), hfs]
end

theorem read_text (v : Doc) : read (text v) = some v := by
  have hv := readValue_text v _ [] le_rfl (by simp)
  rw [List.append_nil] at hv
  simp [read, hv, skipSpace]

/-! ### A text is one line -/

/-- Neither a line break nor any other control character. -/
def Printable (cs : List Char) : Prop := ∀ c ∈ cs, 32 ≤ c.toNat

theorem Printable.of_all {cs : List Char} (h : (cs.all fun c => 32 ≤ c.toNat) = true) :
    Printable cs := by
  simpa [Printable] using h

theorem Printable.append {cs ds : List Char} (hc : Printable cs) (hd : Printable ds) :
    Printable (cs ++ ds) :=
  List.forall_mem_append.mpr ⟨hc, hd⟩

theorem Printable.cons {c : Char} {cs : List Char} (hc : 32 ≤ c.toNat) (hcs : Printable cs) :
    Printable (c :: cs) :=
  List.forall_mem_cons.mpr ⟨hc, hcs⟩

theorem hexChar_printable : ∀ d < 16, 32 ≤ (hexChar d).toNat := by decide

theorem escape_printable (c : Char) : Printable (escape c) := by
  have hpair : ∀ d : Char, 32 ≤ d.toNat → Printable ['\\', d] := fun d hd =>
    .cons (by decide) (.cons hd fun _ h => (nomatch h))
  unfold escape
  split_ifs with h1 h2 h3 h4 h5 h6 h7 h8
  · exact hpair _ (by decide)
  · exact hpair _ (by decide)
  · exact hpair _ (by decide)
  · exact hpair _ (by decide)
  · exact hpair _ (by decide)
  · exact hpair _ (by decide)
  · exact hpair _ (by decide)
  · intro d hd
    simp only [List.mem_cons, List.not_mem_nil, or_false] at hd
    rcases hd with rfl | rfl | rfl | rfl | rfl | rfl
    · decide
    · decide
    · decide
    · decide
    · exact hexChar_printable _ (by omega)
    · exact hexChar_printable _ (by omega)
  · exact .cons (by omega) fun _ h => (nomatch h)

theorem stringText_printable (cs : List Char) : Printable (stringText cs) := by
  refine .append (fun c hc => ?_) (.cons (by decide) fun _ h => (nomatch h))
  obtain ⟨d, -, hd⟩ := List.mem_flatMap.mp hc
  exact escape_printable d c hd

theorem Number.text_printable (n : Number) : Printable n.text := by
  intro c hc
  have hnum := n.text_all c hc
  by_contra hlow
  have hdigit : isDigit c = false := by
    simp only [isDigit, Bool.and_eq_false_iff, decide_eq_false_iff_not]
    omega
  have hne : ∀ d : Char, 32 ≤ d.toNat → c ≠ d := by
    rintro d hd rfl
    exact hlow hd
  simp [isNumberChar, isExponentMark, isPoint, hdigit, hne '-' (by decide), hne '+' (by decide),
    hne '.' (by decide), hne 'e' (by decide), hne 'E' (by decide)] at hnum

mutual
theorem text_printable : ∀ v, Printable (text v)
  | .null => .of_all (by decide)
  | .bool true => .of_all (by decide)
  | .bool false => .of_all (by decide)
  | .num n => by
    rw [text]
    exact n.text_printable
  | .str s => .cons (by decide) (stringText_printable _)
  | .arr items => .cons (by decide) ((itemsText_printable items).append
      (.cons (by decide) fun _ h => (nomatch h)))
  | .obj fields => .cons (by decide) ((fieldsText_printable fields).append
      (.cons (by decide) fun _ h => (nomatch h)))

theorem itemsText_printable : ∀ vs, Printable (itemsText vs)
  | [] => fun _ h => (nomatch h)
  | [v] => by
    rw [itemsText]
    exact text_printable v
  | v :: w :: vs => (text_printable v).append (.cons (by decide) (itemsText_printable (w :: vs)))

theorem fieldsText_printable : ∀ fs, Printable (fieldsText fs)
  | [] => fun _ h => (nomatch h)
  | [(k, v)] => .cons (by decide) ((stringText_printable _).append
      (.cons (by decide) (text_printable v)))
  | (k, v) :: f :: fs => .cons (by decide) ((stringText_printable _).append
      (.cons (by decide) ((text_printable v).append
        (.cons (by decide) (fieldsText_printable (f :: fs))))))
end

/-! ### A text cut short -/

theorem takeWhile_dropWhile_append {p : Char → Bool} {cs : List Char} (h : cs.dropWhile p ≠ [])
    (more : List Char) :
    (cs ++ more).takeWhile p = cs.takeWhile p ∧
      (cs ++ more).dropWhile p = cs.dropWhile p ++ more := by
  induction cs with
  | nil => exact absurd rfl h
  | cons c cs ih =>
    by_cases hc : p c = true
    · rw [List.dropWhile_cons_of_pos hc] at h
      obtain ⟨htake, hdrop⟩ := ih h
      simp [hc, htake, hdrop]
    · simp [hc]

theorem skipSpace_append {cs : List Char} (h : skipSpace cs ≠ []) (more : List Char) :
    skipSpace (cs ++ more) = skipSpace cs ++ more :=
  (takeWhile_dropWhile_append h more).2

theorem token_append {c : Char} {cs r : List Char} (h : token c cs = some r) (more : List Char) :
    token c (cs ++ more) = some (r ++ more) := by
  unfold token at h ⊢
  cases hs : skipSpace cs with
  | nil => simp [hs] at h
  | cons d rest =>
    rw [skipSpace_append (by simp [hs]), hs]
    rw [hs] at h
    dsimp only [List.cons_append] at h ⊢
    split_ifs at h with hd
    rw [if_pos hd, Option.some.inj h]

theorem token_none_append {c : Char} {cs : List Char} (h : token c cs = none)
    (hs : skipSpace cs ≠ []) (more : List Char) : token c (cs ++ more) = none := by
  unfold token at h ⊢
  rw [skipSpace_append hs]
  obtain ⟨d, rest, hd⟩ := List.exists_cons_of_ne_nil hs
  rw [hd] at h ⊢
  dsimp only [List.cons_append] at h ⊢
  split_ifs at h with heq
  exact if_neg heq

theorem skipSpace_of_token {c : Char} {cs r : List Char} (h : token c cs = some r) :
    skipSpace cs ≠ [] := by
  intro hs
  simp [token, hs] at h

theorem readString_append {cs s r : List Char} (h : readString cs = some (s, r))
    (more : List Char) : readString (cs ++ more) = some (s, r ++ more) := by
  induction cs using readString.induct generalizing s r with
  | case1 => simp [readString] at h
  | case2 rest =>
    simp only [readString, Option.some.injEq, Prod.mk.injEq] at h
    obtain ⟨rfl, rfl⟩ := h
    rfl
  | case3 a b c d rest ih =>
    simp only [readString, Option.bind_eq_some_iff, Option.map_eq_some_iff, Prod.mk.injEq] at h
    obtain ⟨e, he, ⟨t, u⟩, ht, rfl, rfl⟩ := h
    simp [readString, he, ih ht]
  | case4 c rest hu ih =>
    rw [readString] at h
    · simp only [Option.bind_eq_some_iff, Option.map_eq_some_iff, Prod.mk.injEq] at h
      obtain ⟨e, he, ⟨t, u⟩, ht, rfl, rfl⟩ := h
      -- what follows cannot turn the escape into one of a code unit
      have hc : c ≠ 'u' := by
        rintro rfl
        simp [unescape] at he
      rw [List.cons_append, List.cons_append, readString]
      · simp [he, ih ht]
      · rintro a b c' d rest' rfl -
        exact hc rfl
    · exact hu
  | case5 c rest h1 h2 h3 h4 =>
    rw [readString, if_pos h4] at h
    · exact nomatch h
    · exact h1
    · exact h2
    · exact h3
  | case6 c rest h1 h2 h3 h4 ih =>
    rw [readString, if_neg h4] at h
    · simp only [Option.map_eq_some_iff, Prod.mk.injEq] at h
      obtain ⟨⟨t, u⟩, ht, rfl, rfl⟩ := h
      have hc : c ≠ '\\' := by
        rintro rfl
        cases rest with
        | nil => simp [readString] at ht
        | cons d rest => exact h3 d rest rfl rfl
      rw [List.cons_append, readString, if_neg h4, ih ht]
      · rfl
      · exact h1
      · exact fun _ _ _ _ _ h => absurd h hc
      · exact fun _ _ h => absurd h hc
    · exact h1
    · exact h2
    · exact h3

theorem readWord_append {word cs r : List Char} {v w : Doc}
    (h : readWord word v cs = some (w, r)) (more : List Char) :
    readWord word v (cs ++ more) = some (w, r ++ more) := by
  unfold readWord at h ⊢
  split_ifs at h with hword
  simp only [Option.some.injEq, Prod.mk.injEq] at h
  obtain ⟨rfl, rfl⟩ := h
  have hlen : word.length ≤ cs.length := by
    rw [← hword, List.length_take]
    exact Nat.min_le_right ..
  rw [List.take_append_of_le_length hlen, List.drop_append_of_le_length hlen, if_pos hword]

section Extends
variable (more : List Char) (fuel fuel' : Nat)

/-- What is read with `fuel` is read with `fuel'` when the text goes on, unless a number
goes on with it. -/
def ValueExtends : Prop := ∀ cs v r, readValue fuel cs = some (v, r) →
  (r ≠ [] ∨ ∀ n, v ≠ .num n) → readValue fuel' (cs ++ more) = some (v, r ++ more)

def ItemsExtend : Prop := ∀ cs vs r, readItems fuel cs = some (vs, r) →
  skipSpace cs ≠ [] ∧ readItems fuel' (cs ++ more) = some (vs, r ++ more)

def FieldsExtend : Prop := ∀ cs fs r, readFields fuel cs = some (fs, r) →
  skipSpace cs ≠ [] ∧ readFields fuel' (cs ++ more) = some (fs, r ++ more)

variable {more fuel fuel'}

theorem ItemsExtend.value (hi : ItemsExtend more fuel fuel') (hf : FieldsExtend more fuel fuel') :
    ValueExtends more (fuel + 1) (fuel' + 1) := by
  intro cs v r h hend
  rw [readValue] at h ⊢
  cases hs : skipSpace cs with
  | nil => simp [hs] at h
  | cons c rest =>
    rw [skipSpace_append (by simp [hs]), hs, List.cons_append]
    rw [hs] at h
    dsimp only at h ⊢
    by_cases hn : c = 'n'
    · rw [if_pos hn] at h ⊢
      exact readWord_append h more
    rw [if_neg hn] at h ⊢
    by_cases ht : c = 't'
    · rw [if_pos ht] at h ⊢
      exact readWord_append h more
    rw [if_neg ht] at h ⊢
    by_cases hf' : c = 'f'
    · rw [if_pos hf'] at h ⊢
      exact readWord_append h more
    rw [if_neg hf'] at h ⊢
    by_cases hq : c = '"'
    · rw [if_pos hq, Option.map_eq_some_iff] at h
      obtain ⟨⟨s, r'⟩, hr, heq⟩ := h
      simp only [Prod.mk.injEq] at heq
      obtain ⟨rfl, rfl⟩ := heq
      rw [if_pos hq, readString_append hr]
      rfl
    rw [if_neg hq] at h ⊢
    by_cases ha : c = '['
    · rw [if_pos ha] at h ⊢
      cases hopen : token ']' rest with
      | some r' =>
        simp only [hopen, Option.some.injEq, Prod.mk.injEq] at h
        obtain ⟨rfl, rfl⟩ := h
        rw [token_append hopen]
      | none =>
        simp only [hopen, Option.map_eq_some_iff, Prod.mk.injEq] at h
        obtain ⟨⟨vs, r'⟩, hvs, rfl, rfl⟩ := h
        obtain ⟨hspace, hvs'⟩ := hi _ _ _ hvs
        simp only [token_none_append hopen hspace, hvs', Option.map_some]
    rw [if_neg ha] at h ⊢
    by_cases ho : c = '{'
    · rw [if_pos ho] at h ⊢
      cases hopen : token '}' rest with
      | some r' =>
        simp only [hopen, Option.some.injEq, Prod.mk.injEq] at h
        obtain ⟨rfl, rfl⟩ := h
        rw [token_append hopen]
      | none =>
        simp only [hopen, Option.map_eq_some_iff, Prod.mk.injEq] at h
        obtain ⟨⟨fs, r'⟩, hfs, rfl, rfl⟩ := h
        obtain ⟨hspace, hfs'⟩ := hf _ _ _ hfs
        simp only [token_none_append hopen hspace, hfs', Option.map_some]
    rw [if_neg ho] at h ⊢
    simp only [Option.map_eq_some_iff, Prod.mk.injEq] at h
    obtain ⟨n, hnum, rfl, rfl⟩ := h
    have hstop := hend.resolve_right fun hne => hne n rfl
    obtain ⟨htake, hdrop⟩ := takeWhile_dropWhile_append hstop more
    rw [List.cons_append] at htake hdrop
    rw [htake, hdrop, hnum]
    rfl

theorem ValueExtends.items (hv : ValueExtends more fuel fuel') (hi : ItemsExtend more fuel fuel') :
    ItemsExtend more (fuel + 1) (fuel' + 1) := by
  intro cs vs r h
  rw [readItems, Option.bind_eq_some_iff] at h
  obtain ⟨⟨v, r₁⟩, hr₁, h⟩ := h
  have hspace : skipSpace cs ≠ [] := by
    cases fuel with
    | zero => simp [readValue] at hr₁
    | succ fuel =>
      intro hs
      simp [readValue, hs] at hr₁
  refine ⟨hspace, ?_⟩
  have hne : ∀ {c r₂}, token c r₁ = some r₂ → r₁ ≠ [] := by
    rintro c r₂ ht rfl
    simp [token, skipSpace] at ht
  rw [readItems]
  dsimp only at h
  cases hcomma : token ',' r₁ with
  | some r₂ =>
    simp only [hcomma, Option.map_eq_some_iff, Prod.mk.injEq] at h
    obtain ⟨⟨ws, r₃⟩, hws, rfl, rfl⟩ := h
    rw [hv _ _ _ hr₁ (.inl (hne hcomma))]
    simp [token_append hcomma, (hi _ _ _ hws).2]
  | none =>
    simp only [hcomma, Option.map_eq_some_iff, Prod.mk.injEq] at h
    obtain ⟨r₂, hclose, rfl, rfl⟩ := h
    rw [hv _ _ _ hr₁ (.inl (hne hclose))]
    simp [token_none_append hcomma (skipSpace_of_token hclose), token_append hclose]

theorem ValueExtends.fields (hv : ValueExtends more fuel fuel')
    (hf : FieldsExtend more fuel fuel') : FieldsExtend more (fuel + 1) (fuel' + 1) := by
  intro cs fs r h
  rw [readFields] at h
  simp only [Option.bind_eq_some_iff] at h
  obtain ⟨r₁, hquote, ⟨k, r₂⟩, hkey, r₃, hcolon, ⟨v, r₄⟩, hr₄, h⟩ := h
  refine ⟨skipSpace_of_token hquote, ?_⟩
  have hne : ∀ {c r₅}, token c r₄ = some r₅ → r₄ ≠ [] := by
    rintro c r₅ ht rfl
    simp [token, skipSpace] at ht
  rw [readFields, token_append hquote]
  cases hcomma : token ',' r₄ with
  | some r₅ =>
    simp only [hcomma, Option.map_eq_some_iff, Prod.mk.injEq] at h
    obtain ⟨⟨gs, r₆⟩, hgs, rfl, rfl⟩ := h
    simp [readString_append hkey, token_append hcolon, hv _ _ _ hr₄ (.inl (hne hcomma)),
      token_append hcomma, (hf _ _ _ hgs).2]
  | none =>
    simp only [hcomma, Option.map_eq_some_iff, Prod.mk.injEq] at h
    obtain ⟨r₅, hclose, rfl, rfl⟩ := h
    simp [readString_append hkey, token_append hcolon, hv _ _ _ hr₄ (.inl (hne hclose)),
      token_none_append hcomma (skipSpace_of_token hclose), token_append hclose]

theorem read_extends (more : List Char) {fuel fuel' : Nat} (hle : fuel ≤ fuel') :
    ValueExtends more fuel fuel' ∧ ItemsExtend more fuel fuel' ∧ FieldsExtend more fuel fuel' := by
  induction fuel generalizing fuel' with
  | zero =>
    exact ⟨fun _ _ _ h => (nomatch h), fun _ _ _ h => (nomatch h), fun _ _ _ h => (nomatch h)⟩
  | succ fuel ih =>
    cases fuel' with
    | zero => omega
    | succ fuel' =>
      obtain ⟨hv, hi, hf⟩ := ih (Nat.le_of_succ_le_succ hle)
      exact ⟨hi.value hf, hv.items hi, hv.fields hf⟩

end Extends

theorem readValue_brace {fuel : Nat} {cs r : List Char} {v : Doc}
    (h : readValue fuel ('{' :: cs) = some (v, r)) : ∃ fields, v = .obj fields := by
  cases fuel with
  | zero => exact nomatch h
  | succ fuel =>
    simp only [readValue, skipSpace_cons (c := '{') (by decide), Char.reduceEq, if_false,
      if_true] at h
    split at h
    · simp only [Option.some.injEq, Prod.mk.injEq] at h
      exact ⟨[], h.1.symm⟩
    · simp only [Option.map_eq_some_iff, Prod.mk.injEq] at h
      obtain ⟨⟨fs, r'⟩, -, hv, -⟩ := h
      exact ⟨fs, hv.symm⟩

/-- The text of an object, cut short anywhere, is not a document. -/
theorem read_cut {fields : List (String × Doc)} {cut more : List Char} (hmore : more ≠ [])
    (h : cut ++ more = text (.obj fields)) : read cut = none := by
  have hwhole : readValue (cut ++ more).length (cut ++ more) = some (.obj fields, []) := by
    have := readValue_text (.obj fields) _ [] le_rfl (by simp)
    rwa [List.append_nil, ← h] at this
  unfold read
  cases hcut : readValue cut.length cut with
  | none => rfl
  | some p =>
    obtain ⟨v, rest⟩ := p
    have hnum : ∀ n, v ≠ .num n := by
      cases cut with
      | nil => exact nomatch hcut
      | cons c cs =>
        rw [text, List.cons_append, List.cons.injEq] at h
        rw [h.1] at hcut
        obtain ⟨fs, rfl⟩ := readValue_brace hcut
        exact fun _ => Doc.noConfusion
    have hlong := (read_extends more (by simp : cut.length ≤ (cut ++ more).length)).1 _ _ _ hcut
      (.inr hnum)
    rw [hwhole] at hlong
    simp only [Option.some.injEq, Prod.mk.injEq] at hlong
    obtain ⟨-, hnil⟩ := hlong
    exact absurd (List.append_eq_nil_iff.mp hnil.symm).2 hmore

end Json
