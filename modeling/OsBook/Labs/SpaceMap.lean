import Mathlib.Tactic
import Mathlib.Order.Interval.Set.LinearOrder

/-!
# The overlap check of a map request

The lab rounds a request to pages and tests it against every mapped range.
What the test is for is stated on sets of bytes: a request owns all pages that
hold one of its bytes (`pageHull`), and no mapped range may share a byte with
them.

The code rounds the start of the request up, although the pages of the request
begin at the start rounded down.  Its sums wrap at `2 ^ 64`.
-/

namespace OsBook
namespace Labs

def PAGE : UInt64 := 4096

def alignUp (x : UInt64) : UInt64 := (x + PAGE - 1) / PAGE * PAGE

structure Range where
  start : UInt64
  size : UInt64
deriving DecidableEq, Repr

def Range.overlaps (r o : Range) : Bool :=
  let a2 := r.start + r.size
  let b2 := o.start + o.size
  r.start < b2 && o.start < a2

/-- The variable `ok` of `main`, for any mapped ranges and any request. -/
def mapCheck (mapped : List Range) (req : Range) : Bool :=
  let req' : Range := ⟨alignUp req.start, alignUp req.size⟩
  mapped.foldl (fun ok m => if m.overlaps req' then false else ok) true

/-! ## Bytes and pages -/

/-- All bytes of the pages that hold a byte of the set. -/
def pageHull (s : Set ℕ) : Set ℕ := {x | ∃ y ∈ s, x / 4096 = y / 4096}

def roundDown (x : ℕ) : ℕ := x / 4096 * 4096

def roundUp (x : ℕ) : ℕ := (x + 4095) / 4096 * 4096

/-- The pages of an interval run from its start rounded down to its end rounded up. -/
theorem pageHull_Ico {a b : ℕ} (hab : a < b) :
    pageHull (Set.Ico a b) = Set.Ico (roundDown a) (roundUp b) := by
  ext x
  simp only [pageHull, Set.mem_ofPred_eq, Set.mem_Ico, roundDown, roundUp]
  constructor
  · rintro ⟨y, ⟨hay, hyb⟩, hxy⟩
    omega
  · rintro ⟨hax, hxb⟩
    -- The first byte of the page of `x`, unless `a` lies after it.
    refine ⟨max a (x / 4096 * 4096), ⟨le_max_left _ _, ?_⟩, ?_⟩
    · exact max_lt hab (by omega)
    · omega

/-- The end of the range, in exact arithmetic. -/
def Range.finish (r : Range) : ℕ := r.start.toNat + r.size.toNat

def Range.bytes (r : Range) : Set ℕ := Set.Ico r.start.toNat r.finish

/-- The range is nonempty and lies in the address space. -/
structure Range.Valid (r : Range) : Prop where
  size_pos : 0 < r.size
  finish_le : r.finish ≤ 2 ^ 64

/-- The range has a byte in the set. -/
def Range.Meets (r : Range) (s : Set ℕ) : Prop := (r.bytes ∩ s).Nonempty

theorem Range.meets_Ico {r : Range} (hr : r.Valid) (a b : ℕ) :
    r.Meets (Set.Ico a b) ↔ a < b ∧ r.start.toNat < b ∧ a < r.finish := by
  have hpos : 0 < r.size.toNat := hr.size_pos
  have hnonempty : r.start.toNat < r.finish := Nat.lt_add_of_pos_right hpos
  rw [Range.Meets, Range.bytes, Set.Ico_inter_Ico, Set.nonempty_Ico, sup_lt_iff, lt_inf_iff,
    lt_inf_iff]
  omega

/-! ## What the code computes -/

theorem alignUp_toNat (x : UInt64) : (alignUp x).toNat = roundUp x.toNat % 2 ^ 64 := by
  have hx := x.toNat_lt
  simp only [alignUp, PAGE, roundUp, UInt64.toNat_mul, UInt64.toNat_div, UInt64.toNat_sub,
    UInt64.toNat_add, UInt64.reduceToNat]
  omega

theorem Range.overlaps_iff (r o : Range) :
    r.overlaps o = true ↔
      r.start.toNat < o.finish % 2 ^ 64 ∧ o.start.toNat < r.finish % 2 ^ 64 := by
  simp only [Range.overlaps, Range.finish, Bool.and_eq_true, decide_eq_true_eq,
    UInt64.lt_iff_toNat_lt, UInt64.toNat_add]

theorem mapCheck_iff (mapped : List Range) (req : Range) :
    mapCheck mapped req = true ↔
      ∀ m ∈ mapped, ¬ m.overlaps ⟨alignUp req.start, alignUp req.size⟩ = true := by
  unfold mapCheck
  have hloop : ∀ (l : List Range) (ok : Bool),
      l.foldl (fun ok m => if m.overlaps ⟨alignUp req.start, alignUp req.size⟩ then false else ok)
          ok = true ↔
        ok = true ∧ ∀ m ∈ l, ¬ m.overlaps ⟨alignUp req.start, alignUp req.size⟩ = true := by
    intro l
    induction l with
    | nil => simp
    | cons m l ih =>
        intro ok
        rw [List.foldl_cons, ih, List.forall_mem_cons]
        split <;> simp_all
  rw [hloop]
  simp

/-- Where the test begins: at the start rounded up. -/
def checkedStart (req : Range) : ℕ := roundUp req.start.toNat

/-- Where the test ends, in exact arithmetic. -/
def checkedEnd (req : Range) : ℕ := roundUp req.start.toNat + roundUp req.size.toNat

theorem overlaps_request_iff (m req : Range) :
    m.overlaps ⟨alignUp req.start, alignUp req.size⟩ = true ↔
      m.start.toNat < checkedEnd req % 2 ^ 64 ∧ checkedStart req % 2 ^ 64 < m.finish % 2 ^ 64 := by
  have hend : Range.finish ⟨alignUp req.start, alignUp req.size⟩ % 2 ^ 64 =
      checkedEnd req % 2 ^ 64 := by
    rw [Range.finish, alignUp_toNat, alignUp_toNat, ← Nat.add_mod, checkedEnd]
  rw [Range.overlaps_iff, hend, alignUp_toNat, checkedStart]

/-! ## When the check is exact -/

/-- The end of the request's last page. -/
def hullEnd (req : Range) : ℕ := roundUp req.finish

theorem Range.Valid.pageHull_bytes {req : Range} (hreq : req.Valid) :
    pageHull req.bytes = Set.Ico (roundDown req.start.toNat) (hullEnd req) := by
  have hpos : 0 < req.size.toNat := hreq.size_pos
  exact pageHull_Ico (Nat.lt_add_of_pos_right hpos)

/-- The end that the test computes for the range has not wrapped to `0`. -/
def Range.Seen (m : Range) : Prop := m.finish < 2 ^ 64

/-- The test begins inside the hull and ends at most one page behind it. -/
theorem checked_bounds {req : Range} (hreq : req.Valid) :
    roundDown req.start.toNat ≤ checkedStart req ∧ checkedStart req ≤ hullEnd req ∧
      hullEnd req ≤ checkedEnd req ∧ checkedEnd req ≤ hullEnd req + 4096 ∧
      checkedStart req < checkedEnd req ∧ checkedEnd req % 4096 = 0 ∧ hullEnd req ≤ 2 ^ 64 := by
  have hpos : 0 < req.size.toNat := hreq.size_pos
  have hfinish := hreq.finish_le
  unfold Range.finish at hfinish
  unfold checkedStart checkedEnd hullEnd roundDown roundUp Range.finish
  omega

theorem overlaps_of_lt {m req : Range} (hm : m.Valid) (hreq : req.Valid)
    (hwrap : checkedEnd req < 2 ^ 64) :
    m.overlaps ⟨alignUp req.start, alignUp req.size⟩ = true ↔
      m.Seen ∧ (m.Meets (Set.Ico (checkedStart req) (hullEnd req)) ∨
        m.Meets (Set.Ico (hullEnd req) (checkedEnd req))) := by
  obtain ⟨-, hstart, hend, -, hlt, -, -⟩ := checked_bounds hreq
  have hfinish := hm.finish_le
  have hsize : 0 < m.size.toNat := hm.size_pos
  have hpos : m.start.toNat < m.finish := Nat.lt_add_of_pos_right hsize
  rw [overlaps_request_iff, Range.meets_Ico hm, Range.meets_Ico hm, Range.Seen]
  omega

/-- When the end of the request wraps, only the first page of memory is looked at. -/
theorem overlaps_of_ge {m req : Range} (hm : m.Valid) (hreq : req.Valid)
    (hwrap : ¬ checkedEnd req < 2 ^ 64) :
    m.overlaps ⟨alignUp req.start, alignUp req.size⟩ = true ↔
      2 ^ 64 < checkedEnd req ∧ m.Seen ∧ m.start.toNat < 4096 ∧
        checkedStart req % 2 ^ 64 < m.finish := by
  obtain ⟨-, -, -, hnear, -, haligned, hhull⟩ := checked_bounds hreq
  have hfinish := hm.finish_le
  rw [overlaps_request_iff, Range.Seen]
  omega

/-- The request's first page, when it begins inside of one: the test looks at it only from the next
page on.  A range up to `2 ^ 64` is not looked at either. -/
def Range.Missed (m req : Range) : Prop :=
  m.Meets (Set.Ico (roundDown req.start.toNat) (checkedStart req)) ∨
    m.finish = 2 ^ 64 ∧ m.start.toNat < hullEnd req

/-- The page behind the request, when the test runs on into it. -/
def Range.Stray (m req : Range) : Prop :=
  m.Seen ∧ m.Meets (Set.Ico (hullEnd req) (checkedEnd req))

/-- The pages that are both the request's and the test's. -/
def Range.Found (m req : Range) : Prop :=
  m.Seen ∧ m.Meets (Set.Ico (checkedStart req) (hullEnd req))

theorem overlaps_iff_of_lt {m req : Range} (hm : m.Valid) (hreq : req.Valid)
    (hwrap : checkedEnd req < 2 ^ 64) :
    m.overlaps ⟨alignUp req.start, alignUp req.size⟩ = true ↔ m.Found req ∨ m.Stray req := by
  rw [overlaps_of_lt hm hreq hwrap, Range.Found, Range.Stray, and_or_left]

theorem meets_pageHull_iff {m req : Range} (hm : m.Valid) (hreq : req.Valid) :
    m.Meets (pageHull req.bytes) ↔ m.Found req ∨ m.Missed req := by
  obtain ⟨hfirst, hstart, -, -, -, -, hhull⟩ := checked_bounds hreq
  have hfinish := hm.finish_le
  have hsize : 0 < m.size.toNat := hm.size_pos
  have hpos : m.start.toNat < m.finish := Nat.lt_add_of_pos_right hsize
  have hreqSize : 0 < req.size.toNat := hreq.size_pos
  have hnonempty : roundDown req.start.toNat < hullEnd req := by
    unfold hullEnd roundDown roundUp Range.finish
    omega
  rw [hreq.pageHull_bytes, Range.meets_Ico hm, Range.Found, Range.Missed, Range.meets_Ico hm,
    Range.meets_Ico hm, Range.Seen]
  omega

theorem rejected_iff {mapped : List Range} {req : Range} : ¬ mapCheck mapped req = true ↔
    ∃ m ∈ mapped, m.overlaps ⟨alignUp req.start, alignUp req.size⟩ = true := by
  rw [mapCheck_iff]
  push Not
  rfl

/-- The check is exact when it rejects the requests that are in the way of a mapped range. -/
theorem exact_iff (mapped : List Range) (req : Range) :
    (mapCheck mapped req = true ↔ ∀ m ∈ mapped, ¬ m.Meets (pageHull req.bytes)) ↔
      (¬ mapCheck mapped req = true ↔ ∃ m ∈ mapped, m.Meets (pageHull req.bytes)) := by
  refine not_iff_not.symm.trans (iff_congr Iff.rfl ?_)
  push Not
  rfl

/-- Away from `2 ^ 64` the check goes wrong in the first page and behind the last one only. -/
theorem mapCheck_exact_of_lt {mapped : List Range} {req : Range}
    (hmapped : ∀ m ∈ mapped, m.Valid) (hreq : req.Valid) (hwrap : checkedEnd req < 2 ^ 64) :
    (mapCheck mapped req = true ↔ ∀ m ∈ mapped, ¬ m.Meets (pageHull req.bytes)) ↔
      (∃ m ∈ mapped, m.Found req) ∨
        ((∃ m ∈ mapped, m.Missed req) ↔ ∃ m ∈ mapped, m.Stray req) := by
  have hreject : ¬ mapCheck mapped req = true ↔
      (∃ m ∈ mapped, m.Found req) ∨ ∃ m ∈ mapped, m.Stray req := by
    rw [rejected_iff, ← exists_or]
    refine exists_congr fun m => ?_
    rw [← and_or_left]
    exact and_congr_right fun hm => overlaps_iff_of_lt (hmapped m hm) hreq hwrap
  have hmeets : (∃ m ∈ mapped, m.Meets (pageHull req.bytes)) ↔
      (∃ m ∈ mapped, m.Found req) ∨ ∃ m ∈ mapped, m.Missed req := by
    rw [← exists_or]
    refine exists_congr fun m => ?_
    rw [← and_or_left]
    exact and_congr_right fun hm => meets_pageHull_iff (hmapped m hm) hreq
  rw [exact_iff, hreject, hmeets]
  by_cases hfound : ∃ m ∈ mapped, m.Found req
  · simp only [hfound, true_or]
  · simp only [hfound, false_or]
    exact iff_comm

/-- When the end of the request wraps behind its first page, the test sees only the ranges that
start in the first page of memory, and those really are in the way. -/
theorem mapCheck_exact_of_ge {mapped : List Range} {req : Range}
    (hmapped : ∀ m ∈ mapped, m.Valid) (hreq : req.Valid) (hwrap : ¬ checkedEnd req < 2 ^ 64)
    (hstart : checkedStart req < 2 ^ 64) :
    (mapCheck mapped req = true ↔ ∀ m ∈ mapped, ¬ m.Meets (pageHull req.bytes)) ↔
      (2 ^ 64 < checkedEnd req ∧
        ∃ m ∈ mapped, m.start.toNat < 4096 ∧ checkedStart req < m.finish ∧ m.Seen) ∨
      ∀ m ∈ mapped, m.finish ≤ roundDown req.start.toNat ∨ hullEnd req ≤ m.start.toNat := by
  obtain ⟨hfirst, -, -, hnear, -, haligned, hhull⟩ := checked_bounds hreq
  have hreqStart := req.start.toNat_lt
  have hreqSize := req.size.toNat_lt
  have hmod : checkedStart req % 2 ^ 64 = checkedStart req := Nat.mod_eq_of_lt hstart
  have hpage : roundDown req.start.toNat < hullEnd req := by
    have hpos : 0 < req.size.toNat := hreq.size_pos
    unfold hullEnd roundDown roundUp Range.finish
    omega
  have hreject : ¬ mapCheck mapped req = true ↔ 2 ^ 64 < checkedEnd req ∧
      ∃ m ∈ mapped, m.start.toNat < 4096 ∧ checkedStart req < m.finish ∧ m.Seen := by
    rw [rejected_iff, ← exists_and_left]
    refine exists_congr fun m => ?_
    rw [and_left_comm]
    refine and_congr_right fun hm => ?_
    rw [overlaps_of_ge (hmapped m hm) hreq hwrap, hmod]
    exact and_congr_right fun _ => ⟨fun ⟨hs, hl, hf⟩ => ⟨hl, hf, hs⟩, fun ⟨hl, hf, hs⟩ => ⟨hs, hl, hf⟩⟩
  have hfree : (∀ m ∈ mapped, ¬ m.Meets (pageHull req.bytes)) ↔
      ∀ m ∈ mapped, m.finish ≤ roundDown req.start.toNat ∨ hullEnd req ≤ m.start.toNat := by
    refine forall₂_congr fun m hm => ?_
    rw [hreq.pageHull_bytes, Range.meets_Ico (hmapped m hm)]
    omega
  have hreal : (2 ^ 64 < checkedEnd req ∧
      ∃ m ∈ mapped, m.start.toNat < 4096 ∧ checkedStart req < m.finish ∧ m.Seen) →
      ¬ ∀ m ∈ mapped, m.finish ≤ roundDown req.start.toNat ∨ hullEnd req ≤ m.start.toNat := by
    rintro ⟨hbehind, m, hm, hlow, hhigh, -⟩ hall
    have hlast : 4096 < hullEnd req := by omega
    rcases hall m hm with h | h
    · omega
    · omega
  rw [hfree]
  by_cases hwrong : 2 ^ 64 < checkedEnd req ∧
      ∃ m ∈ mapped, m.start.toNat < 4096 ∧ checkedStart req < m.finish ∧ m.Seen
  · exact iff_of_true (iff_of_false (hreject.mpr hwrong) (hreal hwrong)) (Or.inl hwrong)
  · have hyes : mapCheck mapped req = true := not_not.mp (mt hreject.mp hwrong)
    simp only [hyes, hwrong, true_iff, false_or]

/-- A request inside the last page, behind its first byte, is rejected just when the first page of
memory is mapped. -/
theorem mapCheck_exact_of_last {mapped : List Range} {req : Range}
    (hmapped : ∀ m ∈ mapped, m.Valid) (hreq : req.Valid) (hstart : ¬ checkedStart req < 2 ^ 64) :
    (mapCheck mapped req = true ↔ ∀ m ∈ mapped, ¬ m.Meets (pageHull req.bytes)) ↔
      ((∃ m ∈ mapped, 2 ^ 64 - 4096 < m.finish) ↔
        ∃ m ∈ mapped, m.start.toNat < 4096 ∧ m.Seen) := by
  obtain ⟨hfirst, hlast, -, hnear, hlt, -, hhull⟩ := checked_bounds hreq
  have hreqStart := req.start.toNat_lt
  have hreject : ¬ mapCheck mapped req = true ↔ ∃ m ∈ mapped, m.start.toNat < 4096 ∧ m.Seen := by
    rw [rejected_iff]
    refine exists_congr fun m => and_congr_right fun hm => ?_
    have hsize : 0 < m.size.toNat := (hmapped m hm).size_pos
    have hpos : m.start.toNat < m.finish := Nat.lt_add_of_pos_right hsize
    rw [overlaps_of_ge (hmapped m hm) hreq (by omega)]
    have hzero : checkedStart req % 2 ^ 64 < m.finish := by omega
    have hbehind : 2 ^ 64 < checkedEnd req := by omega
    exact ⟨fun ⟨_, hs, hl, _⟩ => ⟨hl, hs⟩, fun ⟨hl, hs⟩ => ⟨hbehind, hs, hl, hzero⟩⟩
  have hmeets : (∃ m ∈ mapped, m.Meets (pageHull req.bytes)) ↔
      ∃ m ∈ mapped, 2 ^ 64 - 4096 < m.finish := by
    refine exists_congr fun m => and_congr_right fun hm => ?_
    have hmStart := m.start.toNat_lt
    have hdown : roundDown req.start.toNat = 2 ^ 64 - 4096 := by
      unfold checkedStart roundUp at hstart
      unfold roundDown
      omega
    rw [hreq.pageHull_bytes, Range.meets_Ico (hmapped m hm), hdown]
    omega
  rw [exact_iff, hreject, hmeets]
  exact iff_comm

/-- Where the pages that the test looks at decide as the pages of the request do. -/
def PagesAgree (mapped : List Range) (req : Range) : Prop :=
  if checkedEnd req < 2 ^ 64 then
    (∃ m ∈ mapped, m.Found req) ∨ ((∃ m ∈ mapped, m.Missed req) ↔ ∃ m ∈ mapped, m.Stray req)
  else if checkedStart req < 2 ^ 64 then
    (2 ^ 64 < checkedEnd req ∧
      ∃ m ∈ mapped, m.start.toNat < 4096 ∧ checkedStart req < m.finish ∧ m.Seen) ∨
    ∀ m ∈ mapped, m.finish ≤ roundDown req.start.toNat ∨ hullEnd req ≤ m.start.toNat
  else (∃ m ∈ mapped, 2 ^ 64 - 4096 < m.finish) ↔ ∃ m ∈ mapped, m.start.toNat < 4096 ∧ m.Seen

/-- **When the check is exact.**  Away from `2 ^ 64`: a page that is both the request's and the
test's is mapped, or the first page of the request and the page behind its last one are mapped
alike.  If the end wraps behind the first page, a range from the first page of memory reaches
into the request, or its pages are free; if it wraps inside the last page, the last page and the
first page of memory are mapped alike. -/
theorem mapCheck_exact_iff {mapped : List Range} {req : Range}
    (hmapped : ∀ m ∈ mapped, m.Valid) (hreq : req.Valid) :
    (mapCheck mapped req = true ↔ ∀ m ∈ mapped, ¬ m.Meets (pageHull req.bytes)) ↔
      PagesAgree mapped req := by
  unfold PagesAgree
  split
  · rename_i hwrap
    exact mapCheck_exact_of_lt hmapped hreq hwrap
  · rename_i hwrap
    split
    · rename_i hstart
      exact mapCheck_exact_of_ge hmapped hreq hwrap hstart
    · rename_i hstart
      exact mapCheck_exact_of_last hmapped hreq hstart

/-- The mapped range and the request of the lab. -/
theorem mapCheck_exact_lab :
    mapCheck [⟨0x20000, 0x3000⟩] ⟨0x21001, 0x1000⟩ = true ↔
      ∀ m ∈ [(⟨0x20000, 0x3000⟩ : Range)],
        ¬ m.Meets (pageHull (Range.bytes ⟨0x21001, 0x1000⟩)) := by
  have hmapped : ∀ m ∈ [(⟨0x20000, 0x3000⟩ : Range)], m.Valid := by
    rw [List.forall_mem_singleton]
    exact ⟨by decide, by decide⟩
  refine (mapCheck_exact_iff hmapped ⟨by decide, by decide⟩).mpr ?_
  rw [PagesAgree, if_pos (by decide)]
  refine Or.inl ⟨_, List.mem_singleton_self _, ?_, ?_⟩
  · unfold Range.Seen
    decide
  · rw [Range.meets_Ico (hmapped _ (List.mem_singleton_self _))]
    decide

-- The lab's notes print 21000 here.
example : alignUp 0x21001 = 0x22000 := by decide

/-- The range consists of whole pages. -/
def Range.Aligned (r : Range) : Prop := r.start % PAGE = 0 ∧ r.size % PAGE = 0

/-- A request in the middle of a mapped page is accepted. -/
theorem not_mapCheck_exact :
    ¬ ∀ (mapped : List Range) (req : Range), (∀ m ∈ mapped, m.Valid ∧ m.Aligned) → req.Valid →
      (mapCheck mapped req = true ↔ ∀ m ∈ mapped, ¬ m.Meets (pageHull req.bytes)) := by
  intro h
  have hmapped : ∀ m ∈ [(⟨0x21000, 0x1000⟩ : Range)], m.Valid ∧ m.Aligned := by
    rw [List.forall_mem_singleton]
    exact ⟨⟨by decide, by decide⟩, by decide, by decide⟩
  have hreq : Range.Valid ⟨0x21001, 0x1000⟩ := ⟨by decide, by decide⟩
  have hfree := (h [⟨0x21000, 0x1000⟩] ⟨0x21001, 0x1000⟩ hmapped hreq).mp (by decide)
  refine hfree _ (List.mem_singleton_self _) ?_
  rw [hreq.pageHull_bytes, Range.meets_Ico (hmapped _ (List.mem_singleton_self _)).1]
  decide

/-- A page-aligned request is checked exactly, as long as neither it nor a mapped range ends at
`2 ^ 64`. -/
theorem mapCheck_exact_of_aligned {mapped : List Range} {req : Range}
    (hmapped : ∀ m ∈ mapped, m.Valid) (hreq : req.Valid) (haligned : req.start.toNat % 4096 = 0)
    (hend : checkedEnd req < 2 ^ 64) (hseen : ∀ m ∈ mapped, m.Seen) :
    mapCheck mapped req = true ↔ ∀ m ∈ mapped, ¬ m.Meets (pageHull req.bytes) := by
  have hstart : checkedStart req = roundDown req.start.toNat := by
    unfold checkedStart roundDown roundUp
    omega
  have hhull : checkedEnd req = hullEnd req := by
    unfold checkedEnd hullEnd roundUp Range.finish
    omega
  refine (mapCheck_exact_of_lt hmapped hreq hend).mpr (Or.inr (iff_of_false ?_ ?_))
  · rintro ⟨m, hm, hfirst | ⟨hlast, -⟩⟩
    · rw [hstart, Set.Ico_self, Range.Meets, Set.inter_empty] at hfirst
      exact Set.not_nonempty_empty hfirst
    · exact absurd hlast (hseen m hm).ne
  · rintro ⟨m, -, -, hstray⟩
    rw [hhull, Set.Ico_self, Range.Meets, Set.inter_empty] at hstray
    exact Set.not_nonempty_empty hstray

end Labs
end OsBook
