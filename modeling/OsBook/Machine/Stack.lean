import OsBook.Machine.Memory

/-!
# Words on a downward-growing stack

`Words m a ws` says that the consecutive 64-bit words from `a` on are `ws`.  A
push adds a word in front, and as long as the words do not fill the whole
address space this holds for every address, also across the wrap at `2 ^ 64`.
Code that keeps the bytes of the block keeps the words.
-/

namespace OsBook
namespace Machine

namespace Memory

/-- The words at `a`, `a + 8`, ... are the given ones. -/
def Words (m : Memory) (a : UInt64) : List UInt64 → Prop
  | [] => True
  | w :: ws => m.load64 a = w ∧ Words m (a + 8) ws

variable {m m' : Memory} {a w : UInt64} {ws : List UInt64}

theorem Words.head (h : Words m a (w :: ws)) : m.load64 a = w := h.1

theorem Words.tail (h : Words m a (w :: ws)) : Words m (a + 8) ws := h.2

/-- Entering a block eight bytes above its start. -/
theorem inBlock_of_add_eight {a x : UInt64} {n : Nat} (h : InBlock (a + 8) n x)
    (hn : n + 8 ≤ 2 ^ 64) : InBlock a (n + 8) x := by
  unfold InBlock at *
  have height : (8 : UInt64).toNat = 8 := rfl
  rw [UInt64.toNat_sub] at *
  rw [UInt64.toNat_add, height] at h
  have ha := a.toNat_lt
  have hx := x.toNat_lt
  omega

/-- The word below a block is disjoint from it. -/
theorem not_inBlock_below {a x : UInt64} {n : Nat} (hx : InBlock a n x) (hn : n + 8 ≤ 2 ^ 64) :
    ¬ InBlock (a - 8) 8 x := by
  unfold InBlock at *
  have height : (8 : UInt64).toNat = 8 := rfl
  rw [UInt64.toNat_sub, UInt64.toNat_sub, height]
  rw [UInt64.toNat_sub] at hx
  have ha := a.toNat_lt
  have hxlt := x.toNat_lt
  omega

/-- Memories that agree on the block hold the same words. -/
theorem Words.congr (h : Words m a ws) (hlen : 8 * ws.length ≤ 2 ^ 64)
    (hsame : ∀ x, InBlock a (8 * ws.length) x → m' x = m x) : Words m' a ws := by
  induction ws generalizing a with
  | nil => trivial
  | cons w ws ih =>
      rw [List.length_cons] at hlen hsame
      constructor
      · rw [← h.head]
        exact load64_congr fun x hx => hsame x (InBlock.mono hx (by omega))
      · exact ih h.tail (by omega) fun x hx => hsame x (inBlock_of_add_eight hx (by omega))

/-- Pushing a word. -/
theorem Words.push (h : Words m a ws) (w : UInt64) (hlen : 8 * ws.length + 8 ≤ 2 ^ 64) :
    Words (m.store64 (a - 8) w) (a - 8) (w :: ws) := by
  constructor
  · exact load64_store64_same m (a - 8) w
  · rw [UInt64.sub_add_cancel]
    exact h.congr (by omega) fun x hx => store64_of_not_inBlock (not_inBlock_below hx hlen)

/-- The address of the word after `k + 1` words. -/
theorem add_ofNat_succ (a : UInt64) (k : Nat) :
    a + UInt64.ofNat (8 * (k + 1)) = a + 8 + UInt64.ofNat (8 * k) := by
  rw [Nat.mul_succ, UInt64.ofNat_add, UInt64.add_comm (UInt64.ofNat (8 * k)), ← UInt64.add_assoc]
  rfl

/-- The words behind the first ones. -/
theorem Words.drop (us : List UInt64) (h : Words m a (us ++ ws)) :
    Words m (a + UInt64.ofNat (8 * us.length)) ws := by
  induction us generalizing a with
  | nil =>
      show Words m (a + 0) ws
      rw [UInt64.add_zero]
      exact h
  | cons u us ih =>
      rw [List.length_cons, add_ofNat_succ]
      exact ih h.tail

/-- The first word is apart from every later one. -/
theorem not_inBlock_later {a x : UInt64} {k : Nat} (hk : 8 * (k + 2) ≤ 2 ^ 64)
    (hx : InBlock a 8 x) : ¬ InBlock (a + 8 + UInt64.ofNat (8 * k)) 8 x := by
  unfold InBlock at *
  have height : (8 : UInt64).toNat = 8 := rfl
  rw [UInt64.toNat_sub, UInt64.toNat_add, UInt64.toNat_add, UInt64.toNat_ofNat', height]
  rw [UInt64.toNat_sub] at hx
  have ha := a.toNat_lt
  have hxlt := x.toNat_lt
  omega

/-- Later words are apart from the first one. -/
theorem not_inBlock_first {a x : UInt64} {n : Nat} (hn : n + 8 ≤ 2 ^ 64)
    (hx : InBlock (a + 8) n x) : ¬ InBlock a 8 x := by
  have hbelow := not_inBlock_below hx hn
  rwa [UInt64.add_sub_cancel] at hbelow

/-- Overwriting one of the words. -/
theorem Words.store (us : List UInt64) (h : Words m a (us ++ w :: ws)) (v : UInt64)
    (hlen : 8 * (us ++ w :: ws).length ≤ 2 ^ 64) :
    Words (m.store64 (a + UInt64.ofNat (8 * us.length)) v) a (us ++ v :: ws) := by
  induction us generalizing a with
  | nil =>
      show Words (m.store64 (a + 0) v) a (v :: ws)
      rw [List.nil_append, List.length_cons] at hlen
      rw [UInt64.add_zero]
      constructor
      · exact load64_store64_same m a v
      · exact h.tail.congr (by omega) fun x hx =>
          store64_of_not_inBlock (not_inBlock_first (by omega) hx)
  | cons u us ih =>
      simp only [List.cons_append, List.length_cons, List.length_append] at hlen
      rw [List.length_cons, add_ofNat_succ]
      constructor
      · rw [load64_store64_of_disjoint fun x hx => not_inBlock_later (by omega) hx]
        exact h.head
      · exact ih h.tail (by simp only [List.length_cons, List.length_append]; omega)

/-- The words in front of the last ones. -/
theorem Words.take (us : List UInt64) (h : Words m a (us ++ ws)) : Words m a us := by
  induction us generalizing a with
  | nil => trivial
  | cons u us ih => exact ⟨h.head, ih h.tail⟩

/-- The words found at an address. -/
def wordsAt (m : Memory) (a : UInt64) : Nat → List UInt64
  | 0 => []
  | n + 1 => m.load64 a :: wordsAt m (a + 8) n

@[simp] theorem length_wordsAt (m : Memory) (a : UInt64) (n : Nat) :
    (m.wordsAt a n).length = n := by
  induction n generalizing a with
  | zero => rfl
  | succ n ih => simp [wordsAt, ih]

theorem words_wordsAt (m : Memory) (a : UInt64) (n : Nat) : Words m a (m.wordsAt a n) := by
  induction n generalizing a with
  | zero => trivial
  | succ n ih => exact ⟨rfl, ih (a + 8)⟩

/-- The `d`-th byte of a run of words. -/
def wordsByte (ws : List UInt64) (d : Nat) : UInt8 :=
  UInt8.ofNat ((ws.getD (d / 8) 0).toNat / 256 ^ (d % 8))

/-- The bytes of a run of words. -/
theorem Words.byte {x : UInt64} (h : Words m a ws) (hx : InBlock a (8 * ws.length) x)
    (hlen : 8 * ws.length ≤ 2 ^ 64) : m x = wordsByte ws (x - a).toNat := by
  induction ws generalizing a with
  | nil => exact absurd hx (by simp [InBlock])
  | cons w ws ih =>
      rw [List.length_cons] at hx hlen
      by_cases hfirst : InBlock a 8 x
      · have hdigit := load_digit (m := m) (a := a) hfirst
        have haddr : a + UInt64.ofNat (x - a).toNat = x := by
          rw [UInt64.ofNat_toNat, UInt64.add_comm, UInt64.sub_add_cancel]
        have hword : m.load a 8 = w.toNat := by
          rw [← h.head, load64, UInt64.toNat_ofNat']
          exact (Nat.mod_eq_of_lt (m.load_lt a 8)).symm
        rw [haddr, hword] at hdigit
        have hdiv : (x - a).toNat / 8 = 0 := Nat.div_eq_of_lt hfirst
        have hmod : (x - a).toNat % 8 = (x - a).toNat := Nat.mod_eq_of_lt hfirst
        apply UInt8.toNat_inj.mp
        rw [wordsByte, hdiv, hmod, List.getD_cons_zero, UInt8.toNat_ofNat']
        exact hdigit.symm
      · have hoff : (x - (a + 8)).toNat = (x - a).toNat - 8 := by
          unfold InBlock at hfirst
          have height : (8 : UInt64).toNat = 8 := rfl
          rw [UInt64.toNat_sub] at *
          rw [UInt64.toNat_sub, UInt64.toNat_add, height]
          have ha := a.toNat_lt
          have hxlt := x.toNat_lt
          omega
        unfold InBlock at hfirst hx
        have hrest := ih h.tail (by unfold InBlock; omega) (by omega)
        have hdiv : (x - a).toNat / 8 = ((x - a).toNat - 8) / 8 + 1 := by omega
        have hmod : (x - a).toNat % 8 = ((x - a).toNat - 8) % 8 := by omega
        rw [hrest, hoff, wordsByte, wordsByte, hdiv, hmod, List.getD_cons_succ]

/-- Storing a half-word into a word that holds one, as a store of the word. -/
theorem store16_of_small {v w : UInt16} (h : m.load64 a = w.toUInt64) :
    m.store16 a v = m.store64 a v.toUInt64 := by
  have hword : m.load a 8 = w.toNat := by
    have hload := congrArg UInt64.toNat h
    rw [load64, UInt64.toNat_ofNat', UInt16.toNat_toUInt64] at hload
    exact (Nat.mod_eq_of_lt (m.load_lt a 8)).symm.trans hload
  have hsmall : ∀ (u : UInt16) i, 2 ≤ i → u.toNat / 256 ^ i = 0 := by
    intro u i hi
    have hpow : 256 ^ 2 ≤ 256 ^ i := Nat.pow_le_pow_right (by decide) hi
    have hu : u.toNat < 256 ^ 2 := u.toNat_lt
    exact Nat.div_eq_of_lt (by omega)
  funext x
  unfold store16 store64 store
  rw [UInt16.toNat_toUInt64]
  by_cases hlow : InBlock a 2 x
  · rw [if_pos hlow, if_pos (hlow.mono (by omega))]
  · rw [if_neg hlow]
    split
    · -- The upper six bytes are zero already.
      rename_i hx
      have hdigit := load_digit (m := m) (a := a) hx
      have haddr : a + UInt64.ofNat (x - a).toNat = x := by
        rw [UInt64.ofNat_toNat, UInt64.add_comm, UInt64.sub_add_cancel]
      have hi : 2 ≤ (x - a).toNat := Nat.le_of_not_lt hlow
      rw [hword, hsmall w _ hi, haddr] at hdigit
      rw [hsmall v _ hi]
      exact UInt8.toNat_inj.mp hdigit.symm
    · rfl

/-- Replacing one of the words, which holds a half-word. -/
theorem Words.store16 (us : List UInt64) {w : UInt16} (h : Words m a (us ++ w.toUInt64 :: ws))
    (v : UInt16) (hlen : 8 * (us ++ w.toUInt64 :: ws).length ≤ 2 ^ 64) :
    Words (m.store16 (a + UInt64.ofNat (8 * us.length)) v) a (us ++ v.toUInt64 :: ws) := by
  rw [store16_of_small (Words.drop us h).head]
  exact h.store us v.toUInt64 hlen

/-- The half-word at the end of a run of words is apart from them. -/
theorem not_inBlock_end {a x : UInt64} {n : Nat} (hn : n + 2 ≤ 2 ^ 64) (hx : InBlock a n x) :
    ¬ InBlock (a + UInt64.ofNat n) 2 x := by
  unfold InBlock at *
  rw [UInt64.toNat_sub, UInt64.toNat_add, UInt64.toNat_ofNat']
  rw [UInt64.toNat_sub] at hx
  have ha := a.toNat_lt
  have hxlt := x.toNat_lt
  omega

/-- Overwriting a half-word behind the words. -/
theorem Words.store16_end (h : Words m a ws) (v : UInt16) (hlen : 8 * ws.length + 2 ≤ 2 ^ 64) :
    Words (m.store16 (a + UInt64.ofNat (8 * ws.length)) v) a ws :=
  h.congr (by omega) fun x hx => store_of_not_inBlock (not_inBlock_end hlen hx)

end Memory

end Machine
end OsBook
