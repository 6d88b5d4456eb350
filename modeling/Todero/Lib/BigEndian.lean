import Mathlib

/-! Fixed-width big-endian numbers as byte lists: the writer, the reader, and
the two round trips between them. -/
namespace BigEndian

/-- The low `count` base-256 digits of `n`, most significant first. -/
def write : Nat → Nat → List UInt8
  | 0, _ => []
  | count + 1, n => UInt8.ofNat (n / 256 ^ count) :: write count n

def read : List UInt8 → Nat
  | [] => 0
  | b :: bs => b.toNat * 256 ^ bs.length + read bs

@[simp] theorem write_length (count n : Nat) : (write count n).length = count := by
  induction count with
  | zero => rfl
  | succ count ih => simp [write, ih]

theorem read_write (count n : Nat) : read (write count n) = n % 256 ^ count := by
  induction count with
  | zero => simp [write, read, Nat.mod_one]
  | succ count ih =>
    have hd : (UInt8.ofNat (n / 256 ^ count)).toNat = n / 256 ^ count % 256 := by
      simp [UInt8.toNat_ofNat']
    rw [write, read, hd, write_length, ih, Nat.mod_pow_succ]
    ring

theorem write_inj {count m n : Nat} (h : write count m = write count n) (hm : m < 256 ^ count)
    (hn : n < 256 ^ count) : m = n := by
  have hread := congrArg read h
  rwa [read_write, read_write, Nat.mod_eq_of_lt hm, Nat.mod_eq_of_lt hn] at hread

/-- Only the low digits are written. -/
theorem write_add_mul (count n k : Nat) : write count (k * 256 ^ count + n) = write count n := by
  induction count generalizing k with
  | zero => rfl
  | succ count ih =>
    have hsplit : k * 256 ^ (count + 1) + n = k * 256 * 256 ^ count + n := by ring
    have hhead : (k * 256 * 256 ^ count + n) / 256 ^ count = k * 256 + n / 256 ^ count := by
      rw [Nat.mul_comm, Nat.mul_add_div (by positivity)]
    have hbyte : UInt8.ofNat (k * 256 + n / 256 ^ count) = UInt8.ofNat (n / 256 ^ count) := by
      apply UInt8.toNat_inj.mp
      simp [UInt8.toNat_ofNat']
    rw [write, write, hsplit, ih, hhead, hbyte]

theorem read_lt (bs : List UInt8) : read bs < 256 ^ bs.length := by
  induction bs with
  | nil => simp [read]
  | cons b bs ih =>
    have hb : b.toNat + 1 ≤ 256 := b.toNat_lt
    calc
      read (b :: bs) < b.toNat * 256 ^ bs.length + 256 ^ bs.length := by
        simpa [read] using ih
      _ = (b.toNat + 1) * 256 ^ bs.length := by ring
      _ ≤ 256 * 256 ^ bs.length := Nat.mul_le_mul_right _ hb
      _ = 256 ^ (b :: bs).length := by rw [List.length_cons, pow_succ']

/-- The `count`-byte number at the front of a buffer and what follows it. -/
def take (count : Nat) (buf : List UInt8) : Nat × List UInt8 :=
  (read (buf.take count), buf.drop count)

theorem take_write_append (count n : Nat) (rest : List UInt8) :
    take count (write count n ++ rest) = (n % 256 ^ count, rest) := by
  have h := write_length count n
  rw [take, List.take_left' h, List.drop_left' h, read_write]

theorem take_write_append_of_lt {count n : Nat} (h : n < 256 ^ count) (rest : List UInt8) :
    take count (write count n ++ rest) = (n, rest) := by
  rw [take_write_append, Nat.mod_eq_of_lt h]

theorem take_lt {count : Nat} {buf : List UInt8} (h : count ≤ buf.length) :
    (take count buf).1 < 256 ^ count := by
  have hl : (buf.take count).length = count := by simp [h]
  simpa [take, hl] using read_lt (buf.take count)

theorem write_read (bs : List UInt8) : write bs.length (read bs) = bs := by
  induction bs with
  | nil => rfl
  | cons b bs ih =>
    have hlow : read bs < 256 ^ bs.length := read_lt bs
    have hdiv : (b.toNat * 256 ^ bs.length + read bs) / 256 ^ bs.length = b.toNat := by
      rw [Nat.mul_comm, Nat.mul_add_div (by positivity), Nat.div_eq_of_lt hlow, Nat.add_zero]
    have htail : write bs.length (b.toNat * 256 ^ bs.length + read bs) = bs := by
      rw [write_add_mul, ih]
    rw [List.length_cons, write, read, hdiv, UInt8.ofNat_toNat, htail]

/-- What has been read off the front of a buffer is written back by `write`. -/
theorem write_take {count : Nat} {buf : List UInt8} (h : count ≤ buf.length) :
    write count (take count buf).1 ++ (take count buf).2 = buf := by
  have hl : (buf.take count).length = count := by simp [h]
  have hw : write count (read (buf.take count)) = buf.take count := by
    have h' := write_read (buf.take count)
    rwa [hl] at h'
  rw [take, hw, List.take_append_drop]

/-- A number at the front of a buffer that is long enough, and what it was written as. -/
theorem exists_take {count : Nat} {buf : List UInt8} (h : count ≤ buf.length) :
    ∃ n rest, take count buf = (n, rest) ∧ n < 256 ^ count ∧ write count n ++ rest = buf ∧
      count + rest.length = buf.length := by
  refine ⟨_, _, rfl, take_lt h, write_take h, ?_⟩
  rw [← congrArg List.length (write_take h), List.length_append, write_length]
  rfl

end BigEndian
