import Mathlib.Data.List.Nodup
import Mathlib.Tactic

/-!
# Capabilities of a domain

A domain is a table of slots, and a capability is the index of its slot.  `add`
puts an object into the first empty slot behind slot `0` and returns capability
`0` when there is none.  A `Session` keeps the capabilities issued so far beside
the domain: the table holds exactly the issued objects.
-/

namespace OsBook
namespace Labs

structure Cap where
  idx : UInt32 := 0
deriving DecidableEq, Repr

structure Domain where
  slots : List Int32 -- 0 => empty, non-zero => object id
deriving DecidableEq, Repr

def Domain.new (n : Nat) : Domain := ⟨List.replicate n 0⟩

/-- The loop over the slots from index `i`, with `left` slots to go. -/
def addLoop (objId : Int32) (slots : List Int32) : (left i : Nat) → Domain × Cap
  | 0, _ => (⟨slots⟩, ⟨0⟩)
  | left + 1, i =>
      if slots[i]? = some 0 then (⟨slots.set i objId⟩, ⟨UInt32.ofNat i⟩)
      else addLoop objId slots left (i + 1)

def Domain.add (d : Domain) (objId : Int32) : Domain × Cap :=
  addLoop objId d.slots (d.slots.length - 1) 1

def Domain.get (d : Domain) (c : Cap) : Int32 :=
  if h : c.idx.toNat < d.slots.length then d.slots[c.idx.toNat] else 0

/-- The slots behind slot `0` are all occupied. -/
def Domain.Full (d : Domain) : Prop :=
  ∀ i, 1 ≤ i → i < d.slots.length → d.slots[i]? ≠ some 0

theorem Domain.get_eq (d : Domain) (c : Cap) : d.get c = d.slots[c.idx.toNat]?.getD 0 := by
  unfold Domain.get
  split
  · next h => rw [List.getElem?_eq_getElem h, Option.getD_some]
  · next h => rw [List.getElem?_eq_none (Nat.not_lt.mp h), Option.getD_none]

/-! ## One call of `add` -/

/-- The loop finds no empty slot, or fills one. -/
theorem addLoop_cases (objId : Int32) (slots : List Int32) (left : Nat) :
    ∀ i, i + left = slots.length →
      ((∀ j, i ≤ j → j < slots.length → slots[j]? ≠ some 0) ∧
          addLoop objId slots left i = (⟨slots⟩, ⟨0⟩)) ∨
        ∃ j, i ≤ j ∧ j < slots.length ∧ slots[j]? = some 0 ∧
          addLoop objId slots left i = (⟨slots.set j objId⟩, ⟨UInt32.ofNat j⟩) := by
  induction left with
  | zero =>
      intro i hi
      refine Or.inl ⟨fun j hj hlt => ?_, rfl⟩
      omega
  | succ left ih =>
      intro i hi
      rw [addLoop]
      by_cases hempty : slots[i]? = some 0
      · rw [if_pos hempty]
        exact Or.inr ⟨i, Nat.le_refl i, by omega, hempty, rfl⟩
      · rw [if_neg hempty]
        rcases ih (i + 1) (by omega) with ⟨hfull, heq⟩ | ⟨j, hj, hlt, hslot, heq⟩
        · refine Or.inl ⟨fun j hj hlt => ?_, heq⟩
          rcases Nat.eq_or_lt_of_le hj with rfl | hj
          · exact hempty
          · exact hfull j hj hlt
        · exact Or.inr ⟨j, by omega, hlt, hslot, heq⟩

/-- **What `add` does.**  In a full domain nothing; else it fills an empty slot behind slot `0`. -/
theorem Domain.add_cases (d : Domain) (objId : Int32) :
    (d.Full ∧ d.add objId = (d, ⟨0⟩)) ∨
      ∃ j, 1 ≤ j ∧ j < d.slots.length ∧ d.slots[j]? = some 0 ∧
        d.add objId = (⟨d.slots.set j objId⟩, ⟨UInt32.ofNat j⟩) := by
  by_cases hlength : d.slots.length = 0
  · refine Or.inl ⟨fun i _ hi => absurd hi (by omega), ?_⟩
    rw [Domain.add, hlength]
    rfl
  · exact addLoop_cases objId d.slots (d.slots.length - 1) 1 (by omega)

/-! ## Sessions -/

/-- An object id; `0` stands for an empty slot. -/
structure ObjId where
  val : Int32
  ne_zero : val ≠ 0

/-- A domain, and the capabilities its calls have issued, each with its object. -/
structure Session where
  dom : Domain
  issued : List (Cap × ObjId)

def Session.new (n : Nat) : Session := ⟨Domain.new n, []⟩

/-- One call of `add`; the returned capability is kept unless it is `Cap{0}`. -/
def Session.add (s : Session) (obj : ObjId) : Session :=
  let (dom, cap) := s.dom.add obj.val
  ⟨dom, if cap = ⟨0⟩ then s.issued else s.issued ++ [(cap, obj)]⟩

def Session.run (n : Nat) (objs : List ObjId) : Session := objs.foldl Session.add (Session.new n)

def Session.caps (s : Session) : List Cap := s.issued.map Prod.fst

/-- The slots of the domain are the issued capabilities. -/
structure Session.Sound (n : Nat) (s : Session) : Prop where
  length : s.dom.slots.length = n
  yields : ∀ p ∈ s.issued, s.dom.get p.1 = p.2.val
  nonzero : ∀ p ∈ s.issued, p.1.idx ≠ 0
  distinct : s.caps.Nodup
  /-- Every other slot is empty, slot `0` among them. -/
  empty : ∀ c, c ∉ s.caps → s.dom.get c = 0

/-- What the next call of `add` does. -/
structure Session.AddsFresh (s : Session) (obj : ObjId) : Prop where
  full : (s.dom.add obj.val).2 = ⟨0⟩ ∧ (s.dom.add obj.val).1 = s.dom ↔ s.dom.Full
  nonzero : ¬ s.dom.Full → (s.dom.add obj.val).2.idx ≠ 0
  fresh : ¬ s.dom.Full → (s.dom.add obj.val).2 ∉ s.caps

section Step

variable {n : Nat} {s : Session}

theorem Session.sound_new (n : Nat) : (Session.new n).Sound n where
  length := List.length_replicate
  yields := by simp [Session.new]
  nonzero := by simp [Session.new]
  distinct := List.nodup_nil
  empty := by
    intro c _
    simp only [Domain.get_eq, Session.new, Domain.new, List.getElem?_replicate]
    split <;> rfl

theorem Session.Sound.slotZero (h : s.Sound n) : s.dom.get ⟨0⟩ = 0 := by
  refine h.empty _ fun hmem => ?_
  obtain ⟨p, hp, hcap⟩ := List.mem_map.mp hmem
  exact h.nonzero p hp (congrArg Cap.idx hcap)

/-- A filled slot was not issued before: an issued slot holds its object. -/
theorem Session.Sound.notMem_caps (h : s.Sound n) {c : Cap}
    (hslot : s.dom.slots[c.idx.toNat]? = some 0) : c ∉ s.caps := by
  intro hmem
  obtain ⟨p, hp, rfl⟩ := List.mem_map.mp hmem
  have hyields := h.yields p hp
  rw [Domain.get_eq, hslot, Option.getD_some] at hyields
  exact p.2.ne_zero hyields.symm

theorem Domain.get_set (d : Domain) (obj : Int32) {c : Cap} (hc : c.idx.toNat < d.slots.length)
    (c' : Cap) :
    Domain.get ⟨d.slots.set c.idx.toNat obj⟩ c' = if c' = c then obj else d.get c' := by
  rw [Domain.get_eq, Domain.get_eq, List.getElem?_set]
  by_cases heq : c' = c
  · rw [heq, if_pos rfl, if_pos rfl, if_pos hc, Option.getD_some]
  · have hidx : c.idx.toNat ≠ c'.idx.toNat := by
      intro hidx
      exact heq (congrArg Cap.mk (UInt32.toNat_inj.mp hidx.symm))
    rw [if_neg heq, if_neg hidx]

/-- **What a call of `add` does to a session.**  In a full domain nothing; else it issues a new
capability. -/
theorem Session.Sound.add_cases (h : s.Sound n) (hn : n ≤ 2 ^ 32) (obj : ObjId) :
    (s.dom.Full ∧ s.dom.add obj.val = (s.dom, ⟨0⟩)) ∨
      ∃ c : Cap, ¬ s.dom.Full ∧ c.idx ≠ 0 ∧ c.idx.toNat < n ∧ c ∉ s.caps ∧
        s.dom.add obj.val = (⟨s.dom.slots.set c.idx.toNat obj.val⟩, c) := by
  rcases s.dom.add_cases obj.val with hfull | ⟨j, hone, hlt, hslot, heq⟩
  · exact Or.inl hfull
  · -- The index of the slot fits into a capability.
    have hj : (UInt32.ofNat j).toNat = j := UInt32.toNat_ofNat_of_lt' (by
      have hlength := h.length
      rw [UInt32.size]
      omega)
    refine Or.inr ⟨⟨UInt32.ofNat j⟩, fun hfull => hfull j hone hlt hslot, ?_, ?_, ?_, ?_⟩
    · intro hzero
      have hjzero := congrArg UInt32.toNat hzero
      rw [hj, UInt32.toNat_zero] at hjzero
      omega
    · rw [hj, ← h.length]
      exact hlt
    · exact h.notMem_caps (by rw [hj]; exact hslot)
    · rw [hj]
      exact heq

theorem Session.Sound.addsFresh (h : s.Sound n) (hn : n ≤ 2 ^ 32) (obj : ObjId) :
    s.AddsFresh obj := by
  rcases h.add_cases hn obj with ⟨hfull, hadd⟩ | ⟨c, hroom, hnonzero, -, hfresh, hadd⟩
  · refine ⟨?_, fun hroom => absurd hfull hroom, fun hroom => absurd hfull hroom⟩
    rw [hadd]
    exact iff_of_true ⟨rfl, rfl⟩ hfull
  · refine ⟨?_, fun _ => ?_, fun _ => ?_⟩
    · rw [hadd]
      exact iff_of_false (fun hzero => hnonzero (congrArg Cap.idx hzero.1)) hroom
    · rw [hadd]
      exact hnonzero
    · rw [hadd]
      exact hfresh

/-- **One call keeps the session sound.** -/
theorem Session.Sound.add (h : s.Sound n) (hn : n ≤ 2 ^ 32) (obj : ObjId) :
    (s.add obj).Sound n := by
  rcases h.add_cases hn obj with ⟨-, hadd⟩ | ⟨c, -, hnonzero, hlt, hfresh, hadd⟩
  · simp only [Session.add, hadd, if_true]
    exact h
  · have hc : ¬ c = ⟨0⟩ := fun hzero => hnonzero (congrArg Cap.idx hzero)
    have hget := Domain.get_set s.dom obj.val (h.length ▸ hlt)
    have hcaps : (s.issued ++ [(c, obj)]).map Prod.fst = s.caps ++ [c] := List.map_append
    rw [Session.add, hadd]
    simp only [if_neg hc]
    refine ⟨?_, ?_, ?_, ?_, ?_⟩
    · rw [List.length_set, h.length]
    · intro p hp
      rw [hget]
      rcases List.mem_append.mp hp with hp | hp
      · have hne : p.1 ≠ c := fun heq => hfresh (heq ▸ List.mem_map_of_mem hp)
        rw [if_neg hne, h.yields p hp]
      · rw [List.mem_singleton.mp hp, if_pos rfl]
    · intro p hp
      rcases List.mem_append.mp hp with hp | hp
      · exact h.nonzero p hp
      · rw [List.mem_singleton.mp hp]
        exact hnonzero
    · rw [Session.caps, hcaps]
      exact List.nodup_append.mpr ⟨h.distinct, List.nodup_singleton c, fun c' hc' d hd heq =>
        hfresh (List.mem_singleton.mp hd ▸ heq ▸ hc')⟩
    · intro c' hc'
      rw [Session.caps, hcaps, List.mem_append, List.mem_singleton, not_or] at hc'
      rw [hget, if_neg hc'.2, h.empty c' hc'.1]

end Step

/-- A session stays sound over all its calls. -/
theorem Session.sound_run {n : Nat} (hn : n ≤ 2 ^ 32) (objs : List ObjId) :
    (Session.run n objs).Sound n :=
  List.foldlRecOn objs Session.add (Session.sound_new n) fun _ h obj _ => h.add hn obj

/-- **Capabilities are never reused.**  After any sequence of calls, the issued capabilities are
nonzero, distinct and yield their objects, slot `0` is empty, and the next call issues a new
capability or, exactly in a full domain, changes nothing and returns `Cap{0}`. -/
theorem session_caps (n : Nat) (hn : n ≤ 2 ^ 32) (objs : List ObjId) (obj : ObjId) :
    (Session.run n objs).Sound n ∧ (Session.run n objs).dom.get ⟨0⟩ = 0 ∧
      (Session.run n objs).AddsFresh obj :=
  have hsound := Session.sound_run hn objs
  ⟨hsound, hsound.slotZero, hsound.addsFresh hn obj⟩

/-- The domain and the object of the lab, added to once more. -/
theorem session_caps_lab :
    (Session.run 8 [⟨42, by decide⟩]).Sound 8 ∧
      (Session.run 8 [⟨42, by decide⟩]).dom.get ⟨0⟩ = 0 ∧
      (Session.run 8 [⟨42, by decide⟩]).AddsFresh ⟨7, by decide⟩ :=
  session_caps 8 (by decide) [⟨42, by decide⟩] ⟨7, by decide⟩

end Labs
end OsBook
