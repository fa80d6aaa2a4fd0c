import OsBook.Machine.Word

/-!
# Byte-addressed memory with little-endian words

A memory assigns a byte to every 64-bit address.  Addresses wrap at `2 ^ 64`,
so a block of `n` bytes starting at `a` is described by the wrapped distance
`x - a`; below the wrap this is the usual half-open interval.  Loads and stores
of any width are built from single bytes, and every frame fact below reduces to
the two blocks being disjoint.
-/

namespace OsBook
namespace Machine

/-- The contents of physical memory. -/
abbrev Memory := UInt64 → UInt8

/-- The byte `x` is one of the `n` bytes starting at `a`. -/
def InBlock (a : UInt64) (n : Nat) (x : UInt64) : Prop :=
  (x - a).toNat < n

instance (a : UInt64) (n : Nat) (x : UInt64) : Decidable (InBlock a n x) :=
  inferInstanceAs (Decidable ((x - a).toNat < n))

/-- A block that does not wrap is a half-open interval. -/
theorem inBlock_iff {a : UInt64} {n : Nat} (h : a.toNat + n ≤ 2 ^ 64) (x : UInt64) :
    InBlock a n x ↔ a.toNat ≤ x.toNat ∧ x.toNat < a.toNat + n := by
  unfold InBlock
  rw [UInt64.toNat_sub]
  have hx := x.toNat_lt
  have ha := a.toNat_lt
  omega

theorem InBlock.mono {a x : UInt64} {n k : Nat} (h : InBlock a n x) (hnk : n ≤ k) :
    InBlock a k x :=
  Nat.lt_of_lt_of_le h hnk

/-- The `i`-th byte of a block. -/
theorem inBlock_add {a : UInt64} {n i : Nat} (hi : i < n) (hn : n ≤ 2 ^ 64) :
    InBlock a n (a + UInt64.ofNat i) := by
  unfold InBlock
  rw [UInt64.toNat_sub, UInt64.toNat_add, UInt64.toNat_ofNat']
  have ha := a.toNat_lt
  omega

/-- Shrinking a block from below. -/
theorem InBlock.of_succ {a x : UInt64} {n : Nat} (h : InBlock (a + 1) n x) (hn : n < 2 ^ 64) :
    InBlock a (n + 1) x := by
  unfold InBlock at *
  rw [UInt64.toNat_sub] at *
  rw [UInt64.toNat_add] at h
  have ha := a.toNat_lt
  have hx := x.toNat_lt
  have hone : (1 : UInt64).toNat = 1 := rfl
  omega

namespace Memory

/-- The little-endian number stored in the `n` bytes starting at `a`. -/
def load (m : Memory) (a : UInt64) : Nat → Nat
  | 0 => 0
  | n + 1 => (m a).toNat + 256 * load m (a + 1) n

/-- Overwrite the `n` bytes starting at `a` with the little-endian digits of `v`. -/
def store (m : Memory) (a : UInt64) (n v : Nat) : Memory := fun x =>
  if InBlock a n x then UInt8.ofNat (v / 256 ^ (x - a).toNat) else m x

def load16 (m : Memory) (a : UInt64) : UInt16 := UInt16.ofNat (m.load a 2)

def load32 (m : Memory) (a : UInt64) : UInt32 := UInt32.ofNat (m.load a 4)

def load64 (m : Memory) (a : UInt64) : UInt64 := UInt64.ofNat (m.load a 8)

def store16 (m : Memory) (a : UInt64) (v : UInt16) : Memory := m.store a 2 v.toNat

def store64 (m : Memory) (a : UInt64) (v : UInt64) : Memory := m.store a 8 v.toNat

/-- Write `w` to the first `k` consecutive 64-bit words from `a`. -/
def fill64 (m : Memory) (a w : UInt64) : Nat → Memory
  | 0 => m
  | k + 1 => (fill64 m a w k).store64 (a + 8 * UInt64.ofNat k) w

/-- Write consecutive bytes from `a`, in order. -/
def writeBytes (m : Memory) (a : UInt64) : List UInt8 → Memory
  | [] => m
  | b :: rest => writeBytes (fun x => if x = a then b else m x) (a + 1) rest

/-- The bytes from `a` on are the given ones. -/
def HoldsBytes (m : Memory) (a : UInt64) (bytes : List UInt8) : Prop :=
  ∀ i (hi : i < bytes.length), m (a + UInt64.ofNat i) = bytes[i]

variable {m m' : Memory} {a b x : UInt64} {n k v : Nat}

theorem store_of_not_inBlock (h : ¬ InBlock a n x) : m.store a n v x = m x := by
  simp [store, h]

theorem store64_of_not_inBlock {w : UInt64} (h : ¬ InBlock a 8 x) : m.store64 a w x = m x :=
  store_of_not_inBlock h

/-- A load only depends on the bytes it reads. -/
theorem load_congr (hn : n ≤ 2 ^ 64) (h : ∀ x, InBlock a n x → m x = m' x) :
    m.load a n = m'.load a n := by
  induction n generalizing a with
  | zero => rfl
  | succ n ih =>
      have hhead : m a = m' a := h a (by simp [InBlock])
      have htail : m.load (a + 1) n = m'.load (a + 1) n :=
        ih (by omega) fun x hx => h x (hx.of_succ (by omega))
      simp only [load, hhead, htail]

/-- Reading back digits that are known one by one. -/
theorem load_of_digits (h : ∀ i, i < n → m (a + UInt64.ofNat i) = UInt8.ofNat (v / 256 ^ i)) :
    m.load a n = v % 256 ^ n := by
  induction n generalizing a v with
  | zero => simp [load, Nat.mod_one]
  | succ n ih =>
      have hhead : (m a).toNat = v % 256 := by
        have := h 0 (by omega)
        simp only [UInt64.reduceOfNat, UInt64.add_zero, Nat.pow_zero, Nat.div_one] at this
        rw [this, UInt8.toNat_ofNat']
      have htail : m.load (a + 1) n = v / 256 % 256 ^ n := by
        apply ih
        intro i hi
        have := h (i + 1) (by omega)
        rw [Nat.pow_succ', ← Nat.div_div_eq_div_mul] at this
        rw [← this, UInt64.ofNat_add, UInt64.add_comm (UInt64.ofNat i), ← UInt64.add_assoc]
        rfl
      rw [load, hhead, htail, Nat.pow_succ', Nat.mod_mul]

/-- Reading back what was just stored. -/
theorem load_store_same (hn : n ≤ 2 ^ 64) : (m.store a n v).load a n = v % 256 ^ n := by
  apply load_of_digits
  intro i hi
  have hoff : (a + UInt64.ofNat i - a).toNat = i := by
    rw [UInt64.toNat_sub, UInt64.toNat_add, UInt64.toNat_ofNat']
    have ha := a.toNat_lt
    omega
  simp only [store, inBlock_add hi hn, if_true, hoff]

theorem load_lt (m : Memory) (a : UInt64) (n : Nat) : m.load a n < 256 ^ n := by
  induction n generalizing a with
  | zero => simp [load]
  | succ n ih =>
      have hbyte := (m a).toNat_lt
      have hrest := ih (a + 1)
      rw [load, Nat.pow_succ]
      omega

/-- The bytes of a block are the digits of the number it stores. -/
theorem load_digit {i : Nat} (hi : i < n) :
    m.load a n / 256 ^ i % 256 = (m (a + UInt64.ofNat i)).toNat := by
  induction n generalizing a i with
  | zero => omega
  | succ n ih =>
      have hbyte := (m a).toNat_lt
      cases i with
      | zero =>
          simp only [load, Nat.pow_zero, Nat.div_one, UInt64.reduceOfNat, UInt64.add_zero]
          omega
      | succ i =>
          have hrest : m.load a (n + 1) / 256 = m.load (a + 1) n := by
            rw [load]
            omega
          have haddr : a + 1 + UInt64.ofNat i = a + UInt64.ofNat (i + 1) := by
            rw [UInt64.ofNat_add, UInt64.add_comm (UInt64.ofNat i), ← UInt64.add_assoc]
            rfl
          rw [Nat.pow_succ', ← Nat.div_div_eq_div_mul, hrest, ih (by omega), haddr]

/-- Storing what is already there changes nothing. -/
theorem store_load_same : m.store a n (m.load a n) = m := by
  funext x
  unfold store
  split
  · rename_i hx
    have haddr : a + UInt64.ofNat (x - a).toNat = x := by
      rw [UInt64.ofNat_toNat, UInt64.add_comm, UInt64.sub_add_cancel]
    have hdigit := load_digit (m := m) (a := a) hx
    rw [haddr] at hdigit
    apply UInt8.toNat_inj.mp
    rw [UInt8.toNat_ofNat', hdigit]
  · rfl

/-- The last of two stores to one block wins. -/
theorem store_store_same {w : Nat} : (m.store a n v).store a n w = m.store a n w := by
  funext x
  unfold store
  split <;> rfl

/-- Putting the old word back undoes a store. -/
theorem store64_restore (m : Memory) (a w : UInt64) :
    (m.store64 a w).store64 a (m.load64 a) = m := by
  have hload : (m.load64 a).toNat = m.load a 8 := by
    unfold load64
    rw [UInt64.toNat_ofNat']
    exact Nat.mod_eq_of_lt (m.load_lt a 8)
  unfold store64
  rw [store_store_same, hload, store_load_same]

@[simp] theorem load64_store64_same (m : Memory) (a w : UInt64) :
    (m.store64 a w).load64 a = w := by
  have hw : w.toNat < 256 ^ 8 := w.toNat_lt
  unfold load64 store64
  rw [load_store_same (by omega), Nat.mod_eq_of_lt hw, UInt64.ofNat_toNat]

theorem load64_congr (h : ∀ x, InBlock a 8 x → m x = m' x) : m.load64 a = m'.load64 a := by
  unfold load64
  rw [load_congr (by omega) h]

theorem load64_store64_of_disjoint {w : UInt64} (h : ∀ x, InBlock b 8 x → ¬ InBlock a 8 x) :
    (m.store64 a w).load64 b = m.load64 b :=
  load64_congr fun x hx => store64_of_not_inBlock (h x hx)

/-- A 16-bit load reads the low half-word of the 64-bit one. -/
theorem load16_eq (m : Memory) (a : UInt64) : m.load16 a = (m.load64 a).toUInt16 := by
  have hlow : m.load a 8 % 65536 = m.load a 2 % 65536 := by
    simp only [load]
    omega
  unfold load16 load64
  apply UInt16.toNat_inj.mp
  rw [UInt64.toNat_toUInt16, UInt64.toNat_ofNat', UInt16.toNat_ofNat']
  omega

@[simp] theorem load16_store16_same (m : Memory) (a : UInt64) (v : UInt16) :
    (m.store16 a v).load16 a = v := by
  have hv : v.toNat < 256 ^ 2 := v.toNat_lt
  unfold load16 store16
  rw [load_store_same (by omega), Nat.mod_eq_of_lt hv, UInt16.ofNat_toNat]

/-- Two words that do not overlap, as intervals below the wrap. -/
theorem load64_store64_of_apart {w : UInt64} (ha : a.toNat + 8 ≤ 2 ^ 64)
    (hb : b.toNat + 8 ≤ 2 ^ 64) (h : a.toNat + 8 ≤ b.toNat ∨ b.toNat + 8 ≤ a.toNat) :
    (m.store64 a w).load64 b = m.load64 b := by
  apply load64_store64_of_disjoint
  intro x hx
  rw [inBlock_iff ha]
  rw [inBlock_iff hb] at hx
  omega

/-- Cleared memory reads as zero at every width. -/
@[simp] theorem load_cleared (a : UInt64) (n : Nat) : load (fun _ => 0) a n = 0 := by
  induction n generalizing a with
  | zero => rfl
  | succ n ih => simp [load, ih]

/-- Words that are all zero read as zero. -/
theorem load64_of_zero (h : ∀ x, InBlock a 8 x → m x = 0) : m.load64 a = 0 := by
  have hzero : ∀ x, InBlock a 8 x → m x = (fun _ => 0 : Memory) x := h
  rw [load64_congr hzero]
  simp [load64]

/-- Filling with zero words clears exactly the block they occupy. -/
theorem fill64_zero (m : Memory) (a : UInt64) (k : Nat) (hk : 8 * k ≤ 2 ^ 64) (x : UInt64) :
    m.fill64 a 0 k x = if InBlock a (8 * k) x then 0 else m x := by
  induction k with
  | zero => simp [fill64, InBlock]
  | succ k ih =>
      have hword : InBlock (a + 8 * UInt64.ofNat k) 8 x ↔
          8 * k ≤ (x - a).toNat ∧ (x - a).toNat < 8 * (k + 1) := by
        have height : (8 : UInt64).toNat = 8 := rfl
        unfold InBlock
        rw [UInt64.toNat_sub, UInt64.toNat_sub, UInt64.toNat_add, UInt64.toNat_mul,
          UInt64.toNat_ofNat', height]
        have ha := a.toNat_lt
        have hx := x.toNat_lt
        omega
      rw [fill64, store64, store, ih (by omega)]
      by_cases hlast : InBlock (a + 8 * UInt64.ofNat k) 8 x
      · have hall : InBlock a (8 * (k + 1)) x := (hword.mp hlast).2
        simp [hlast, hall]
      · by_cases hfirst : InBlock a (8 * k) x
        · have hall : InBlock a (8 * (k + 1)) x := hfirst.mono (by omega)
          simp [hlast, hfirst, hall]
        · have hall : ¬ InBlock a (8 * (k + 1)) x := by
            intro hx
            unfold InBlock at hx hfirst
            exact hlast (hword.mpr ⟨by omega, hx⟩)
          simp [hlast, hfirst, hall]

/-- Writing bytes changes nothing outside their block. -/
theorem writeBytes_of_not_inBlock {bytes : List UInt8} (hlen : bytes.length ≤ 2 ^ 64)
    (h : ¬ InBlock a bytes.length x) : m.writeBytes a bytes x = m x := by
  induction bytes generalizing m a with
  | nil => rfl
  | cons byte rest ih =>
      have hhead : x ≠ a := by
        intro hx
        apply h
        simp [InBlock, hx]
      rw [List.length_cons] at h hlen
      rw [writeBytes, ih (by omega) fun hx => h (hx.of_succ (by omega)), if_neg hhead]

/-- Writing bytes stores each of them at its place. -/
theorem holdsBytes_writeBytes {bytes : List UInt8} (hlen : bytes.length ≤ 2 ^ 64) :
    HoldsBytes (m.writeBytes a bytes) a bytes := by
  induction bytes generalizing m a with
  | nil =>
      intro i hi
      simp at hi
  | cons byte rest ih =>
      rw [List.length_cons] at hlen
      intro i hi
      cases i with
      | zero =>
          have hout : ¬ InBlock (a + 1) rest.length a := by
            unfold InBlock
            have hone : (1 : UInt64).toNat = 1 := rfl
            have ha := a.toNat_lt
            rw [UInt64.toNat_sub, UInt64.toNat_add, hone]
            omega
          simp only [UInt64.reduceOfNat, UInt64.add_zero, List.getElem_cons_zero, writeBytes]
          rw [writeBytes_of_not_inBlock (by omega) hout, if_pos rfl]
      | succ i =>
          rw [List.length_cons] at hi
          have haddr : a + UInt64.ofNat (i + 1) = a + 1 + UInt64.ofNat i := by
            rw [UInt64.ofNat_add, UInt64.add_comm (UInt64.ofNat i), ← UInt64.add_assoc]
            rfl
          rw [haddr, List.getElem_cons_succ, writeBytes]
          exact ih (by omega) i (by omega)

end Memory

end Machine
end OsBook
