import Todero.Lib.BigEndian

/-! Sequences of attributes: a type and a length of two bytes each, the value, and padding up
to a multiple of `align` bytes. What follows the last attribute need not be one. -/
namespace Attributes
open BigEndian

def padTo (align n : Nat) : Nat := (n + (align - 1)) / align * align

theorem le_padTo {align : Nat} [NeZero align] (n : Nat) : n ≤ padTo align n := by
  have hpos : 0 < align := NeZero.pos align
  have hsplit := Nat.div_add_mod' (n + (align - 1)) align
  have hlt := Nat.mod_lt (n + (align - 1)) hpos
  unfold padTo
  omega

structure Attribute (align : Nat) where
  typ : UInt16
  value : List UInt8
  padding : List UInt8
  short : value.length < 65536
  padded : value.length + padding.length = padTo align value.length

/-- The four bytes before a value. -/
def header (typ : UInt16) (len : Nat) : List UInt8 := write 2 typ.toNat ++ write 2 len

@[simp] theorem header_length (typ : UInt16) (len : Nat) : (header typ len).length = 4 := by
  simp [header]

variable {align : Nat}

def Attribute.encode (a : Attribute align) : List UInt8 :=
  header a.typ a.value.length ++ (a.value ++ a.padding)

def encodeAll (as : List (Attribute align)) : List UInt8 := as.flatMap Attribute.encode

@[simp] theorem Attribute.encode_length (a : Attribute align) :
    a.encode.length = 4 + padTo align a.value.length := by
  simp [encode, a.padded]

theorem encodeAll_cons (a : Attribute align) (as : List (Attribute align)) :
    encodeAll (a :: as) = a.encode ++ encodeAll as := List.flatMap_cons

/-- The type and the value at the front of a buffer, and what follows the padding. -/
def first (align : Nat) : List UInt8 → Option (UInt16 × List UInt8 × List UInt8)
  | t₁ :: t₂ :: n₁ :: n₂ :: body =>
    let len := read [n₁, n₂]
    if body.length < len then none
    else some (UInt16.ofNat (read [t₁, t₂]), body.take len, body.drop (padTo align len))
  | _ => none

theorem first_length {typ : UInt16} {value l rest : List UInt8}
    (h : first align l = some (typ, value, rest)) : rest.length < l.length := by
  unfold first at h
  split at h
  · dsimp only at h
    split_ifs at h
    obtain ⟨-, -, rfl⟩ := Option.some.inj h
    simp only [List.length_drop, List.length_cons]
    omega
  · cases h

/-- The first attribute of a type: how many bytes stand before it, and its value. -/
def find (align : Nat) (typ : UInt16) (l : List UInt8) : Option (Nat × List UInt8) :=
  match _h : first align l with
  | none => none
  | some (typ', value, rest) =>
    if typ' = typ then some (0, value)
    else (find align typ rest).map fun (k, v) => (4 + padTo align value.length + k, v)
termination_by l.length
decreasing_by exact first_length _h

theorem write_two (n : Nat) :
    write 2 n = [UInt8.ofNat (n / 256 ^ 1), UInt8.ofNat (n / 256 ^ 0)] := rfl

theorem read_write_two {n : Nat} (h : n < 65536) : read (write 2 n) = n := by
  rw [read_write]
  exact Nat.mod_eq_of_lt h

theorem write_two_read (a b : UInt8) : write 2 (read [a, b]) = [a, b] := write_read [a, b]

theorem read_two_lt (a b : UInt8) : read [a, b] < 65536 := by
  have hlt := read_lt [a, b]
  simpa using hlt

/-- The value is complete, its padding need not be. -/
theorem first_eq_some [NeZero align] {typ : UInt16} {value l rest : List UInt8} :
    first align l = some (typ, value, rest) ↔
      value.length < 65536 ∧ ∃ tail, l = header typ value.length ++ (value ++ tail) ∧
        rest = tail.drop (padTo align value.length - value.length) := by
  constructor
  · intro h
    unfold first at h
    split at h
    · rename_i t₁ t₂ n₁ n₂ body
      dsimp only at h
      split_ifs at h with hlt
      obtain ⟨rfl, rfl, rfl⟩ := Option.some.inj h
      have hlen : (body.take (read [n₁, n₂])).length = read [n₁, n₂] :=
        List.length_take_of_le (not_lt.mp hlt)
      have htyp : (UInt16.ofNat (read [t₁, t₂])).toNat = read [t₁, t₂] :=
        UInt16.toNat_ofNat_of_lt' (read_two_lt t₁ t₂)
      rw [hlen]
      refine ⟨read_two_lt n₁ n₂, body.drop (read [n₁, n₂]), ?_, ?_⟩
      · rw [header, htyp, write_two_read, write_two_read, List.take_append_drop]
        rfl
      · rw [List.drop_drop, Nat.add_sub_cancel' (le_padTo _)]
    · cases h
  · rintro ⟨hshort, tail, rfl, rfl⟩
    have htyp := read_write_two typ.toNat_lt
    have hlen := read_write_two hshort
    rw [write_two] at htyp hlen
    rw [header, write_two, write_two]
    simp only [List.cons_append, List.nil_append, first, htyp, hlen, UInt16.ofNat_toNat]
    rw [if_neg (by simp), List.take_left, List.drop_append,
      List.drop_eq_nil_of_le (le_padTo _), List.nil_append]

theorem first_short [NeZero align] {l : List UInt8} (h : l.length < 4) : first align l = none := by
  cases hfirst : first align l with
  | none => rfl
  | some x =>
    obtain ⟨typ, value, rest⟩ := x
    obtain ⟨-, tail, rfl, -⟩ := first_eq_some.mp hfirst
    rw [List.length_append, header_length] at h
    omega

/-- Where anything follows, the padding is all there. -/
theorem first_complete [NeZero align] {typ : UInt16} {value l rest : List UInt8}
    (h : first align l = some (typ, value, rest)) (hrest : rest ≠ []) :
    ∃ a : Attribute align, a.typ = typ ∧ a.value = value ∧ l = a.encode ++ rest := by
  obtain ⟨hshort, tail, rfl, rfl⟩ := first_eq_some.mp h
  have hlong : padTo align value.length - value.length < tail.length := by
    by_contra hlt
    exact hrest (List.drop_eq_nil_of_le (not_lt.mp hlt))
  let a : Attribute align :=
    { typ := typ
      value := value
      padding := tail.take (padTo align value.length - value.length)
      short := hshort
      padded := by
        rw [List.length_take_of_le hlong.le, Nat.add_sub_cancel' (le_padTo _)] }
  refine ⟨a, rfl, rfl, ?_⟩
  simp only [a, Attribute.encode, List.append_assoc, List.take_append_drop]

theorem first_rest [NeZero align] {typ : UInt16} {value l rest : List UInt8}
    (h : first align l = some (typ, value, rest)) :
    rest = l.drop (4 + padTo align value.length) := by
  obtain ⟨-, tail, rfl, rfl⟩ := first_eq_some.mp h
  have hheader : (header typ value.length).drop (4 + padTo align value.length) = [] :=
    List.drop_eq_nil_of_le (by rw [header_length]; omega)
  have hvalue : value.drop (padTo align value.length) = [] :=
    List.drop_eq_nil_of_le (le_padTo _)
  rw [List.drop_append, hheader, List.nil_append, header_length, Nat.add_sub_cancel_left,
    List.drop_append, hvalue, List.nil_append]

theorem first_encode [NeZero align] (a : Attribute align) (l : List UInt8) :
    first align (a.encode ++ l) = some (a.typ, a.value, l) := by
  refine first_eq_some.mpr ⟨a.short, a.padding ++ l, ?_, ?_⟩
  · simp [Attribute.encode]
  · rw [← a.padded, Nat.add_sub_cancel_left, List.drop_left]

theorem find_of_none {typ : UInt16} {l : List UInt8} (h : first align l = none) :
    find align typ l = none := by
  unfold find
  split
  · rfl
  · simp_all

theorem find_of_first {typ typ' : UInt16} {value l rest : List UInt8}
    (h : first align l = some (typ', value, rest)) :
    find align typ l = if typ' = typ then some (0, value)
      else (find align typ rest).map fun (k, v) => (4 + padTo align value.length + k, v) := by
  rw [find]
  split
  · simp_all
  · rename_i heq
    obtain ⟨rfl, rfl, rfl⟩ := Option.some.inj (h.symm.trans heq)
    rfl

/-- Before the attribute found stand other ones, complete with their padding. -/
theorem find_eq_some [NeZero align] {typ : UInt16} {l value : List UInt8} {k : Nat} :
    find align typ l = some (k, value) ↔
      value.length < 65536 ∧ ∃ (others : List (Attribute align)) (rest : List UInt8),
        (∀ a ∈ others, a.typ ≠ typ) ∧ (encodeAll others).length = k ∧
          l = encodeAll others ++ (header typ value.length ++ (value ++ rest)) := by
  constructor
  · intro h
    induction l using find.induct align typ generalizing k value with
    | case1 l hfirst =>
      rw [find_of_none hfirst] at h
      cases h
    | case2 l v rest hfirst =>
      rw [find_of_first hfirst, if_pos rfl] at h
      obtain ⟨rfl, rfl⟩ := Prod.mk.inj (Option.some.inj h)
      obtain ⟨hshort, tail, rfl, -⟩ := first_eq_some.mp hfirst
      exact ⟨hshort, [], tail, by simp, rfl, rfl⟩
    | case3 l t v rest hfirst hne ih =>
      rw [find_of_first hfirst, if_neg hne] at h
      obtain ⟨⟨k', v'⟩, hrest, heq⟩ := Option.map_eq_some_iff.mp h
      obtain ⟨rfl, rfl⟩ := Prod.mk.inj heq
      obtain ⟨hshort, others, rest', hothers, rfl, hrest'⟩ := ih hrest
      have hne' : rest ≠ [] := by
        intro hnil
        have hlen := congrArg List.length (hnil.symm.trans hrest')
        simp only [List.length_nil, List.length_append, header_length] at hlen
        omega
      obtain ⟨a, rfl, rfl, rfl⟩ := first_complete hfirst hne'
      refine ⟨hshort, a :: others, rest', List.forall_mem_cons.mpr ⟨hne, hothers⟩, ?_, ?_⟩
      · rw [encodeAll_cons, List.length_append, a.encode_length]
      · rw [encodeAll_cons, List.append_assoc, ← hrest']
  · rintro ⟨hshort, others, rest, hothers, rfl, rfl⟩
    induction others with
    | nil =>
      have hfirst : first align (header typ value.length ++ (value ++ rest)) = some _ :=
        first_eq_some.mpr ⟨hshort, rest, rfl, rfl⟩
      exact (find_of_first hfirst).trans (if_pos rfl)
    | cons a others ih =>
      obtain ⟨hne, hothers⟩ := List.forall_mem_cons.mp hothers
      rw [encodeAll_cons, List.append_assoc, find_of_first (first_encode a _), if_neg hne,
        ih hothers]
      simp [a.encode_length]

/-- What stands after the value does not matter. -/
theorem find_append [NeZero align] {typ : UInt16} {l value : List UInt8} {k : Nat}
    (h : find align typ l = some (k, value)) (l' : List UInt8) :
    find align typ (l ++ l') = some (k, value) := by
  obtain ⟨hshort, others, rest, hothers, hk, rfl⟩ := find_eq_some.mp h
  refine find_eq_some.mpr ⟨hshort, others, rest ++ l', hothers, hk, ?_⟩
  simp only [List.append_assoc]

/-- A part of the buffer in which the value is complete will do. -/
theorem find_take [NeZero align] {typ : UInt16} {l value : List UInt8} {k n : Nat}
    (h : find align typ l = some (k, value)) (hn : k + 4 + value.length ≤ n) :
    find align typ (l.take n) = some (k, value) := by
  obtain ⟨hshort, others, rest, hothers, rfl, rfl⟩ := find_eq_some.mp h
  have hlen : (encodeAll others ++ (header typ value.length ++ value)).length ≤ n := by
    simp only [List.length_append, header_length]
    omega
  refine find_eq_some.mpr ⟨hshort, others, rest.take
    (n - (encodeAll others ++ (header typ value.length ++ value)).length), hothers, rfl, ?_⟩
  simp only [← List.append_assoc] at hlen ⊢
  rw [List.take_append, List.take_of_length_le hlen]

end Attributes
