import Mathlib.Data.List.Basic
import Mathlib.Tactic.Linarith

/-!
# Numbers in a byte buffer

Big-endian numbers read at an offset.  A read that leaves the buffer yields nothing.  Two reads give
the same number exactly if they meet the same bytes.
-/

namespace CMTestbed.Lib

/-- The number in the `n` bytes from `i` on. -/
def readBE (buf : List UInt8) (i : ℕ) : ℕ → Option ℕ
  | 0 => some 0
  | n + 1 => (readBE buf i n).bind fun v => buf[i + n]?.map fun b => v * 256 + b.toNat

/-- The lowest `n` bytes of a number, the highest of them first. -/
def beBytes : ℕ → ℕ → List UInt8
  | 0, _ => []
  | n + 1, v => beBytes n (v / 256) ++ [UInt8.ofNat v]

/-- The `n` bytes from `i` on are those from `j` on. -/
def Repeats (buf : List UInt8) (i j n : ℕ) : Prop := ∀ k < n, buf[i + k]? = buf[j + k]?

variable {buf : List UInt8} {i j n m : ℕ}

theorem Repeats.refl (buf : List UInt8) (i n : ℕ) : Repeats buf i i n := fun _ _ => rfl

theorem repeats_succ : Repeats buf i j (n + 1) ↔ Repeats buf i j n ∧ buf[i + n]? = buf[j + n]? :=
  Nat.forall_lt_succ_right

theorem repeats_add :
    Repeats buf i j (n + m) ↔ Repeats buf i j n ∧ Repeats buf (i + n) (j + n) m := by
  constructor
  · intro h
    refine ⟨fun k hk => h k (by omega), fun k hk => ?_⟩
    rw [Nat.add_assoc, Nat.add_assoc]
    exact h (n + k) (by omega)
  · rintro ⟨h₁, h₂⟩ k hk
    by_cases hkn : k < n
    · exact h₁ k hkn
    · have := h₂ (k - n) (by omega)
      rwa [show i + n + (k - n) = i + k by omega, show j + n + (k - n) = j + k by omega] at this

theorem readBE_succ {v : ℕ} : readBE buf i (n + 1) = some v ↔
    ∃ u b, readBE buf i n = some u ∧ buf[i + n]? = some b ∧ v = u * 256 + b.toNat := by
  rw [readBE, Option.bind_eq_some_iff]
  constructor
  · rintro ⟨u, hu, h⟩
    obtain ⟨b, hb, rfl⟩ := Option.map_eq_some_iff.1 h
    exact ⟨u, b, hu, hb, rfl⟩
  · rintro ⟨u, b, hu, hb, rfl⟩
    exact ⟨u, hu, by rw [hb]; rfl⟩

theorem readBE_lt {v : ℕ} (h : readBE buf i n = some v) : v < 256 ^ n := by
  induction n generalizing v with
  | zero =>
    cases h
    exact Nat.one_pos
  | succ n ih =>
    obtain ⟨u, b, hu, -, rfl⟩ := readBE_succ.1 h
    have := ih hu
    have := b.toNat_lt
    rw [pow_succ]
    omega

/-- What is read lies in the buffer. -/
theorem le_length_of_readBE {v : ℕ} (h : readBE buf i (n + 1) = some v) :
    i + n + 1 ≤ buf.length := by
  obtain ⟨u, b, -, hb, -⟩ := readBE_succ.1 h
  exact (List.getElem?_eq_some_iff.1 hb).1

theorem exists_readBE (h : i + n ≤ buf.length) : ∃ v, readBE buf i n = some v := by
  induction n with
  | zero => exact ⟨0, rfl⟩
  | succ n ih =>
    obtain ⟨u, hu⟩ := ih (by omega)
    exact ⟨_, readBE_succ.2 ⟨u, buf[i + n], hu, List.getElem?_eq_getElem (by omega), rfl⟩⟩

/-- A read sees only the bytes it covers. -/
theorem readBE_congr_of {buf' : List UInt8} (h : ∀ k < n, buf[i + k]? = buf'[j + k]?) :
    readBE buf i n = readBE buf' j n := by
  induction n with
  | zero => rfl
  | succ n ih =>
    rw [readBE, readBE, ih fun k hk => h k (by omega), h n (by omega)]

theorem readBE_congr (h : Repeats buf i j n) : readBE buf i n = readBE buf j n :=
  readBE_congr_of h

/-- Reads of one number meet the same bytes. -/
theorem eq_of_readBE {buf' : List UInt8} {v : ℕ} (hi : readBE buf i n = some v)
    (hj : readBE buf' j n = some v) : ∀ k < n, buf[i + k]? = buf'[j + k]? := by
  induction n generalizing v with
  | zero => exact fun k hk => absurd hk (Nat.not_lt_zero k)
  | succ n ih =>
    obtain ⟨u, b, hu, hb, rfl⟩ := readBE_succ.1 hi
    obtain ⟨u', b', hu', hb', he⟩ := readBE_succ.1 hj
    have := b.toNat_lt
    have := b'.toNat_lt
    obtain rfl : u = u' := by omega
    obtain rfl : b = b' := UInt8.toNat_inj.1 (by omega)
    exact Nat.forall_lt_succ_right.2 ⟨ih hu hu', hb.trans hb'.symm⟩

/-- Another read gives the same number exactly if it meets the same bytes. -/
theorem readBE_eq_iff {v : ℕ} (hj : readBE buf j n = some v) :
    readBE buf i n = some v ↔ Repeats buf i j n :=
  ⟨fun hi => eq_of_readBE hi hj, fun h => (readBE_congr h).trans hj⟩

theorem eq_of_map_readBE {buf' : List UInt8} {α : Type*} {f : ℕ → α}
    (hf : ∀ u < 256 ^ n, ∀ v < 256 ^ n, f u = f v → u = v) {a : α}
    (hi : (readBE buf i n).map f = some a) (hj : (readBE buf' j n).map f = some a) :
    ∀ k < n, buf[i + k]? = buf'[j + k]? := by
  obtain ⟨u, hu, hfu⟩ := Option.map_eq_some_iff.1 hi
  obtain ⟨v, hv, hfv⟩ := Option.map_eq_some_iff.1 hj
  obtain rfl := hf u (readBE_lt hu) v (readBE_lt hv) (hfu.trans hfv.symm)
  exact eq_of_readBE hu hv

theorem map_readBE_eq_iff {α : Type*} {f : ℕ → α}
    (hf : ∀ u < 256 ^ n, ∀ v < 256 ^ n, f u = f v → u = v) {a : α}
    (hj : (readBE buf j n).map f = some a) :
    (readBE buf i n).map f = some a ↔ Repeats buf i j n := by
  obtain ⟨v, hv, rfl⟩ := Option.map_eq_some_iff.1 hj
  rw [← readBE_eq_iff hv, Option.map_eq_some_iff]
  constructor
  · rintro ⟨u, hu, he⟩
    rw [hu, hf u (readBE_lt hu) v (readBE_lt hv) he]
  · intro hi
    exact ⟨v, hi, rfl⟩

@[simp] theorem length_beBytes (n v : ℕ) : (beBytes n v).length = n := by
  induction n generalizing v with
  | zero => rfl
  | succ n ih => rw [beBytes, List.length_append, ih, List.length_singleton]

/-- What was written is read. -/
theorem readBE_of_beBytes {v : ℕ} (h : ∀ k < n, buf[i + k]? = (beBytes n v)[k]?) :
    readBE buf i n = some (v % 256 ^ n) := by
  induction n generalizing v with
  | zero => simp [readBE, Nat.mod_one]
  | succ n ih =>
    have hlow : ∀ k < n, buf[i + k]? = (beBytes n (v / 256))[k]? := fun k hk => by
      rw [h k (by omega), beBytes, List.getElem?_append_left (by simpa using hk)]
    have hlast : buf[i + n]? = some (UInt8.ofNat v) := by
      rw [h n (by omega), beBytes, List.getElem?_append_right (by simp)]
      simp
    rw [readBE, ih hlow, hlast, Option.bind_some, Option.map_some, UInt8.toNat_ofNat',
      pow_succ' 256 n, Nat.mod_mul]
    congr 1
    omega

end CMTestbed.Lib
