import Mathlib.Logic.Relation
import Filestick.System.Equiv.TlsfCreate

/-!
# Runs of the allocator

Programs call the allocator in any order, and write to what they have been given.  `Client` is such
a program: what it has been given, and what it knows that this holds.

* `Owned`: what the client knows is true.
* `Owned.change`: it stays true over a call.
* `Client.Step.owned`: and over whatever the client does.
-/

namespace Filestick.Tlsf

open Elf (Addr Mem)

/-! ### Clients -/

/-- Something that a client has been given: where it is, and what it holds. -/
structure Object where
  ptr : ℕ
  data : List (BitVec 8)

/-- A client of the allocator.  In `rest` is what the rest of the program has put outside the region
of the heap. -/
structure Client where
  mem : Mem
  objs : List Object
  rest : Mem

/-- What a call that has returned `ptr` gives; 0 is `NULL`. -/
def given (mem : Mem) (ptr : Addr) (n : ℕ) : List Object :=
  if ptr = 0#32 then [] else [⟨ptr.toNat, Ring.slice mem ptr n⟩]

/-- An object with another size: it still has its first bytes. -/
def Object.resized (o : Object) (mem : Mem) (ptr : Addr) (n : ℕ) : Object :=
  ⟨ptr.toNat, o.data.take n ++ (Ring.slice mem ptr n).drop o.data.length⟩

/-- A byte of the object is written. -/
def Object.set (o : Object) (i : ℕ) (v : BitVec 8) : Object := { o with data := o.data.set i v }

/-- What a client may do with a heap that is between `start` and `stop`. -/
inductive Client.Step (start stop : ℕ) : Client → Client → Prop
  | malloc {mem mem' objs rest size ptr} (hsize : size.toNat + 3 < 2 ^ 32)
      (h : tlsfMalloc mem (BitVec.ofNat 32 start) size = (mem', ptr)) :
      Step start stop ⟨mem, objs, rest⟩ ⟨mem', given mem' ptr size.toNat ++ objs, rest⟩
  | reallocNull {mem mem' objs rest size ptr} (hsize : size.toNat + 3 < 2 ^ 32)
      (h : tlsfRealloc mem (BitVec.ofNat 32 start) 0#32 size = (mem', ptr)) :
      Step start stop ⟨mem, objs, rest⟩ ⟨mem', given mem' ptr size.toNat ++ objs, rest⟩
  | free {mem l o r rest} :
      Step start stop ⟨mem, l ++ o :: r, rest⟩
        ⟨tlsfFree mem (BitVec.ofNat 32 start) (BitVec.ofNat 32 o.ptr), l ++ r, rest⟩
  | freeNull {mem objs rest} :
      Step start stop ⟨mem, objs, rest⟩ ⟨tlsfFree mem (BitVec.ofNat 32 start) 0#32, objs, rest⟩
  | reallocZero {mem mem' l o r rest ptr}
      (h : tlsfRealloc mem (BitVec.ofNat 32 start) (BitVec.ofNat 32 o.ptr) 0#32 = (mem', ptr)) :
      Step start stop ⟨mem, l ++ o :: r, rest⟩ ⟨mem', l ++ r, rest⟩
  | realloc {mem mem' l o r rest size ptr} (hpos : 0 < size.toNat) (hsize : size.toNat < 2 ^ 30 - 3)
      (h : tlsfRealloc mem (BitVec.ofNat 32 start) (BitVec.ofNat 32 o.ptr) size = (mem', ptr)) :
      Step start stop ⟨mem, l ++ o :: r, rest⟩
        ⟨mem', if ptr = 0#32 then l ++ o :: r else o.resized mem' ptr size.toNat :: (l ++ r), rest⟩
  | write {mem l o r rest i v} (hi : i < o.data.length) :
      Step start stop ⟨mem, l ++ o :: r, rest⟩
        ⟨Function.update mem (BitVec.ofNat 32 (o.ptr + i)) v, l ++ o.set i v :: r, rest⟩
  | other {mem objs rest} (new : Mem) :
      Step start stop ⟨mem, objs, rest⟩
        ⟨fun a => if start ≤ a.toNat ∧ a.toNat < stop then mem a else new a, objs, new⟩

/-- What a client is given by a heap. -/
def Block.ptr (b : Block) : ℕ := b.addr + 8

/-- **What the client knows is true.** -/
structure Owned (p : Pool) (stop : ℕ) (s : Client) (bs : List Block) : Prop where
  heap : Heap p s.mem bs
  nodup : (s.objs.map Object.ptr).Nodup
  used_iff : ∀ a, (∃ b ∈ used bs, b.ptr = a) ↔ ∃ o ∈ s.objs, o.ptr = a
  fits : ∀ o ∈ s.objs, ∀ b ∈ used bs, b.ptr = o.ptr → o.data.length ≤ b.size
  holds : ∀ o ∈ s.objs, Ring.Holds s.mem (BitVec.ofNat 32 o.ptr) o.data
  rest : ∀ i < 2 ^ 32, (i < p.ctl ∨ stop ≤ i) →
    s.mem (BitVec.ofNat 32 i) = s.rest (BitVec.ofNat 32 i)

section Change

variable {p : Pool} {stop : ℕ} {mem mem' rest : Mem} {bs bs' : List Block} {l og r : List Object}
  {come gone : Option Block}

/-- Blocks in use with the same address are the same. -/
theorem Heap.eq_of_ptr {b c : Block} (h : Heap p mem bs) (hb : b ∈ used bs) (hc : c ∈ used bs)
    (heq : b.ptr = c.ptr) : b = c := by
  obtain ⟨F, hrep⟩ := h.rep
  refine hrep.layout.eq_of_addr (mem_used.mp hb).1 (mem_used.mp hc).1 ?_
  unfold Block.ptr at heq
  omega

/-- **What is known stays true over a call**: `og` has been given back, and `oc` is given. -/
theorem Owned.change (h : Owned p stop ⟨mem, l ++ og ++ r, rest⟩ bs) (oc : List Object)
    (hchange : Change p mem mem' bs bs' come gone) (hstop : p.last + 8 ≤ stop)
    (hgone : ∀ b ∈ gone, b ∈ used bs) (hog : og.map Object.ptr = gone.toList.map Block.ptr)
    (hoc : oc.map Object.ptr = come.toList.map Block.ptr)
    (hfits : ∀ o ∈ oc, ∀ b ∈ come, o.data.length ≤ b.size)
    (hholds : ∀ o ∈ oc, Ring.Holds mem' (BitVec.ofNat 32 o.ptr) o.data) :
    Owned p stop ⟨mem', oc ++ (l ++ r), rest⟩ bs' := by
  have hnd := h.nodup
  rw [List.map_append, List.map_append] at hnd
  -- what is left has its blocks
  have hkept (o : Object) (ho : o ∈ l ++ r) : ∃ b ∈ used bs, b.ptr = o.ptr ∧ gone ≠ some b := by
    have ho' : o ∈ l ++ og ++ r := by
      simp only [List.mem_append] at ho ⊢
      tauto
    obtain ⟨b, hb, hptr⟩ := (h.used_iff o.ptr).mpr ⟨o, ho', rfl⟩
    refine ⟨b, hb, hptr, ?_⟩
    rintro rfl
    have hmem : o.ptr ∈ og.map Object.ptr := by
      rw [hog, ← hptr]
      exact List.mem_map_of_mem (by simp)
    rw [List.nodup_append, List.nodup_append] at hnd
    rcases List.mem_append.mp ho with hl | hr
    · exact hnd.1.2.2 _ (List.mem_map_of_mem hl) _ hmem rfl
    · exact hnd.2.2 _ (List.mem_append_right _ hmem) _ (List.mem_map_of_mem hr) rfl
  have hused {b : Block} (hb : b ∈ used bs) (hne : gone ≠ some b) : b ∈ used bs' :=
    (hchange.used_iff b).mpr (Or.inr ⟨hb, hne⟩)
  have hcome {o : Object} (ho : o ∈ oc) : ∃ c, come = some c ∧ c.ptr = o.ptr := by
    have hmem : o.ptr ∈ come.toList.map Block.ptr := hoc ▸ List.mem_map_of_mem ho
    obtain ⟨c, hc, hptr⟩ := List.mem_map.mp hmem
    exact ⟨c, Option.mem_toList.mp hc, hptr⟩
  refine ⟨hchange.heap, ?_, ?_, ?_, ?_, ?_⟩
  · rw [List.map_append, List.nodup_append, List.map_append]
    refine ⟨?_, ?_, ?_⟩
    · rw [hoc]
      cases come with
      | none => exact List.nodup_nil
      | some c => exact List.nodup_singleton _
    · rw [List.append_assoc] at hnd
      exact hnd.sublist (List.Sublist.append_left (List.sublist_append_right _ _) _)
    · intro x hx y hy heq
      obtain ⟨o, ho, rfl⟩ := List.mem_map.mp hx
      rw [← List.map_append] at hy
      obtain ⟨o', ho', rfl⟩ := List.mem_map.mp hy
      obtain ⟨c, hc, hcptr⟩ := hcome ho
      obtain ⟨b, hb, hbptr, hne⟩ := hkept o' ho'
      have hfresh := hchange.fresh c hc b hb hne
      unfold Block.ptr at hcptr hbptr
      omega
  · intro a
    constructor
    · rintro ⟨b, hb, rfl⟩
      rcases (hchange.used_iff b).mp hb with hb | ⟨hb, hne⟩
      · have hmem : b.ptr ∈ oc.map Object.ptr := by
          rw [hoc, hb]
          exact List.mem_singleton_self _
        obtain ⟨o, ho, hptr⟩ := List.mem_map.mp hmem
        exact ⟨o, List.mem_append_left _ ho, hptr⟩
      · obtain ⟨o, ho, hptr⟩ := (h.used_iff b.ptr).mp ⟨b, hb, rfl⟩
        refine ⟨o, List.mem_append_right _ ?_, hptr⟩
        by_contra hout
        have hmem : o ∈ og := by
          have ho : o ∈ l ++ og ++ r := ho
          simp only [List.mem_append] at ho hout
          tauto
        have hmem' : o.ptr ∈ gone.toList.map Block.ptr := hog ▸ List.mem_map_of_mem hmem
        obtain ⟨c, hc, hcptr⟩ := List.mem_map.mp hmem'
        have hc := Option.mem_toList.mp hc
        exact hne (h.heap.eq_of_ptr (hgone c hc) hb (hcptr.trans hptr) ▸ hc)
    · rintro ⟨o, ho, rfl⟩
      rcases List.mem_append.mp ho with ho | ho
      · obtain ⟨c, hc, hptr⟩ := hcome ho
        exact ⟨c, (hchange.used_iff c).mpr (Or.inl hc), hptr⟩
      · obtain ⟨b, hb, hptr, hne⟩ := hkept o ho
        exact ⟨b, hused hb hne, hptr⟩
  · intro o ho b hb hptr
    rcases List.mem_append.mp ho with ho' | ho'
    · obtain ⟨c, hc, hcptr⟩ := hcome ho'
      have hcb : c = b := hchange.heap.eq_of_ptr ((hchange.used_iff c).mpr (Or.inl hc)) hb
        (hcptr.trans hptr.symm)
      exact hfits o ho' b (hcb ▸ hc)
    · obtain ⟨c, hc, hcptr, hne⟩ := hkept o ho'
      obtain rfl := hchange.heap.eq_of_ptr (hused hc hne) hb (hcptr.trans hptr.symm)
      refine h.fits o ?_ c hc hcptr
      simp only [List.mem_append] at ho' ⊢
      tauto
  · intro o ho
    rcases List.mem_append.mp ho with ho' | ho'
    · exact hholds o ho'
    · obtain ⟨b, hb, hptr, hne⟩ := hkept o ho'
      have hmem : o ∈ l ++ og ++ r := by
        simp only [List.mem_append] at ho' ⊢
        tauto
      have hfit := h.fits o hmem b hb hptr
      intro i hi
      have hin : InBlock b (o.ptr + i) := by
        rw [← hptr]
        unfold Block.ptr InBlock Block.next
        omega
      rw [← h.holds o hmem i hi, ← BitVec.ofNat_add]
      exact hchange.user b hb hne _ hin
  · intro i hi hout
    exact (hchange.outside i hi (by omega)).trans (h.rest i hi hout)

end Change

/-! ### The calls -/

section Calls

variable {p : Pool} {stop : ℕ} {mem mem' rest : Mem} {bs : List Block} {objs l r : List Object}
  {o : Object} {size : BitVec 32} {ptr : Addr}

theorem holds_slice (mem : Mem) (a : Addr) (n : ℕ) : Ring.Holds mem a (Ring.slice mem a n) := by
  intro k hk
  simp [Ring.slice]

/-- The block of an object. -/
theorem Owned.exists_block (h : Owned p stop ⟨mem, objs, rest⟩ bs) (ho : o ∈ objs) :
    ∃ b ∈ used bs, b.ptr = o.ptr ∧ o.data.length ≤ b.size := by
  obtain ⟨b, hb, hptr⟩ := (h.used_iff o.ptr).mpr ⟨o, ho, rfl⟩
  exact ⟨b, hb, hptr, h.fits o ho b hb hptr⟩

/-- Where a block in use is. -/
theorem Heap.ptr_bounds {b : Block} (h : Heap p mem bs) (hb : b ∈ used bs) :
    p.first + 8 ≤ b.ptr ∧ b.ptr + b.size = b.next + 4 ∧ b.next ≤ p.last ∧ b.ptr % 4 = 0 := by
  obtain ⟨F, hrep⟩ := h.rep
  obtain ⟨hmod, hlo, -, hhi, -⟩ := hrep.layout.bounds (mem_used.mp hb).1
  unfold Block.ptr Block.next at *
  omega

/-- What a block in use is given as. -/
theorem Heap.ptr_ne_zero {b : Block} (h : Heap p mem bs) (hb : b ∈ used bs) :
    BitVec.ofNat 32 b.ptr ≠ 0#32 ∧ (BitVec.ofNat 32 b.ptr).toNat = b.ptr := by
  obtain ⟨hlo, hsize, hhi, -⟩ := h.ptr_bounds hb
  have hle := p.last_le
  have := b.le_size
  have htoNat : (BitVec.ofNat 32 b.ptr).toNat = b.ptr := by
    rw [BitVec.toNat_ofNat]
    omega
  refine ⟨fun h0 => ?_, htoNat⟩
  rw [h0] at htoNat
  have htoNat : 0 = b.ptr := htoNat
  omega

theorem given_eq {n a : ℕ} (hne : BitVec.ofNat 32 a ≠ 0#32) (ha : (BitVec.ofNat 32 a).toNat = a) :
    given mem (BitVec.ofNat 32 a) n = [⟨a, Ring.slice mem (BitVec.ofNat 32 a) n⟩] := by
  rw [given, if_neg hne, ha]

/-- `tlsf_malloc` keeps what is known. -/
theorem Owned.malloc (h : Owned p stop ⟨mem, objs, rest⟩ bs) (hstop : p.last + 8 ≤ stop)
    (hsize : size.toNat + 3 < 2 ^ 32)
    (hm : tlsfMalloc mem (BitVec.ofNat 32 p.ctl) size = (mem', ptr)) :
    ∃ bs', Owned p stop ⟨mem', given mem' ptr size.toNat ++ objs, rest⟩ bs' := by
  rcases h.heap.malloc_change size rfl with
    ⟨c, bs', m, hcall, hpos, hle, hchange⟩ | ⟨-, hcall⟩
  · obtain ⟨rfl, rfl⟩ : m = mem' ∧ BitVec.ofNat 32 c.ptr = ptr := by
      have := hcall.symm.trans hm
      exact ⟨congrArg Prod.fst this, congrArg Prod.snd this⟩
    have hused : c ∈ used bs' := (hchange.used_iff c).mpr (Or.inl rfl)
    obtain ⟨hne, htoNat⟩ := hchange.heap.ptr_ne_zero hused
    have hfit : size.toNat ≤ c.size := by
      rcases adjustRequestSize_spec size with h0 | ⟨-, -, -, hge⟩
      · rw [h0] at hpos
        exact absurd hpos (by decide)
      · exact (hge hsize).trans hle
    rw [given_eq hne htoNat]
    have h : Owned p stop ⟨mem, [] ++ [] ++ objs, rest⟩ bs := h
    refine ⟨bs', h.change [_] hchange hstop (by simp) rfl rfl ?_ ?_⟩
    · intro o ho b hb
      obtain rfl := List.mem_singleton.mp ho
      obtain rfl := Option.mem_some_iff.mp hb
      simpa using hfit
    · intro o ho
      obtain rfl := List.mem_singleton.mp ho
      exact holds_slice m _ _
  · obtain ⟨rfl, rfl⟩ : mem = mem' ∧ 0#32 = ptr := by
      have := hcall.symm.trans hm
      exact ⟨congrArg Prod.fst this, congrArg Prod.snd this⟩
    exact ⟨bs, h⟩

/-- `tlsf_free` keeps what is known. -/
theorem Owned.free (h : Owned p stop ⟨mem, l ++ o :: r, rest⟩ bs) (hstop : p.last + 8 ≤ stop) :
    ∃ bs', Owned p stop ⟨tlsfFree mem (BitVec.ofNat 32 p.ctl) (BitVec.ofNat 32 o.ptr), l ++ r, rest⟩
      bs' := by
  obtain ⟨b, hb, hptr, -⟩ := h.exists_block (o := o) (by simp)
  obtain ⟨bs', m, hcall, hchange⟩ := h.heap.free_change hb
  have hcall : tlsfFree mem (BitVec.ofNat 32 p.ctl) (BitVec.ofNat 32 b.ptr) = m := hcall
  rw [← hptr, hcall]
  rw [List.append_cons] at h
  refine ⟨bs', h.change [] hchange hstop ?_ ?_ rfl ?_ ?_⟩
  · intro c hc
    obtain rfl := Option.mem_some_iff.mp hc
    exact hb
  · simp [hptr]
  · simp
  · simp

/-- The first bytes of an object are what it has been. -/
theorem holds_resized (mem : Mem) {n a : ℕ} (ha : (BitVec.ofNat 32 a).toNat = a)
    (hkeep : ∀ i, (hi : i < o.data.length) → i < n →
      mem (BitVec.ofNat 32 (a + i)) = o.data[i]) :
    (o.resized mem (BitVec.ofNat 32 a) n).ptr = a ∧
      (o.resized mem (BitVec.ofNat 32 a) n).data.length = n ∧
      Ring.Holds mem (BitVec.ofNat 32 a) (o.resized mem (BitVec.ofNat 32 a) n).data := by
  refine ⟨ha, ?_, ?_⟩
  · simp only [Object.resized, List.length_append, List.length_take, List.length_drop,
      Ring.length_slice]
    omega
  · intro i hi
    simp only [Object.resized] at hi ⊢
    by_cases hlt : i < (o.data.take n).length
    · rw [List.getElem_append_left hlt, List.getElem_take, ← BitVec.ofNat_add]
      rw [List.length_take] at hlt
      exact hkeep i (by omega) (by omega)
    · rw [List.getElem_append_right (Nat.not_lt.mp hlt), List.getElem_drop]
      have hindex : o.data.length + (i - (o.data.take n).length) = i := by
        rw [List.length_append, List.length_drop, Ring.length_slice] at hi
        rw [List.length_take] at *
        omega
      simp only [Ring.slice, List.getElem_map, List.getElem_range, hindex]

/-- `tlsf_realloc` keeps what is known. -/
theorem Owned.realloc (h : Owned p stop ⟨mem, l ++ o :: r, rest⟩ bs) (hstop : p.last + 8 ≤ stop)
    (hpos : 0 < size.toNat) (hsize : size.toNat < 2 ^ 30 - 3)
    (hm : tlsfRealloc mem (BitVec.ofNat 32 p.ctl) (BitVec.ofNat 32 o.ptr) size = (mem', ptr)) :
    ∃ bs', Owned p stop ⟨mem', if ptr = 0#32 then l ++ o :: r
      else o.resized mem' ptr size.toNat :: (l ++ r), rest⟩ bs' := by
  obtain ⟨b, hb, hptr, hfit⟩ := h.exists_block (o := o) (by simp)
  have hrequest : Request size (adjustRequestSize size alignSize).toNat := by
    refine ⟨rfl, fun h0 => ?_, by omega⟩
    rcases (adjustRequestSize_eq_zero_iff size).mp (BitVec.eq_of_toNat_eq h0) with h0 | hbig
    · rw [h0] at hpos
      exact absurd hpos (by decide)
    · omega
  obtain ⟨-, -, -, hle, -⟩ := hrequest.bounds
  rw [← hptr] at hm
  rcases h.heap.realloc_change hb hrequest with
    ⟨c, bs', m, hcall, hnc, hchange, hcopy⟩ | ⟨-, -, hcall⟩
  · obtain ⟨rfl, rfl⟩ : m = mem' ∧ BitVec.ofNat 32 c.ptr = ptr := by
      have := hcall.symm.trans hm
      exact ⟨congrArg Prod.fst this, congrArg Prod.snd this⟩
    have hused : c ∈ used bs' := (hchange.used_iff c).mpr (Or.inl rfl)
    obtain ⟨hne, htoNat⟩ := hchange.heap.ptr_ne_zero hused
    rw [if_neg hne]
    have hholds := h.holds o (by simp)
    obtain ⟨hcptr, hlength, hdata⟩ := holds_resized m (o := o) (n := size.toNat) htoNat
      fun i hi hin => by
        have hold := hholds i hi
        rw [← BitVec.ofNat_add, ← hptr] at hold
        exact (hcopy i (by omega)).trans hold
    rw [List.append_cons] at h
    refine ⟨bs', h.change [_] hchange hstop ?_ ?_ ?_ ?_ ?_⟩
    · intro x hx
      obtain rfl := Option.mem_some_iff.mp hx
      exact hb
    · simp [hptr]
    · simp [hcptr]
    · intro x hx y hy
      obtain rfl := List.mem_singleton.mp hx
      obtain rfl := Option.mem_some_iff.mp hy
      rw [hlength]
      exact hle.trans hnc
    · intro x hx
      obtain rfl := List.mem_singleton.mp hx
      rw [hcptr]
      exact hdata
  · obtain ⟨rfl, rfl⟩ : mem = mem' ∧ 0#32 = ptr := by
      have := hcall.symm.trans hm
      exact ⟨congrArg Prod.fst this, congrArg Prod.snd this⟩
    exact ⟨bs, h⟩

/-- A write into an object keeps what is known. -/
theorem Owned.write (h : Owned p stop ⟨mem, l ++ o :: r, rest⟩ bs) (hstop : p.last + 8 ≤ stop)
    {i : ℕ} (hi : i < o.data.length) (v : BitVec 8) :
    Owned p stop ⟨Function.update mem (BitVec.ofNat 32 (o.ptr + i)) v, l ++ o.set i v :: r, rest⟩
      bs := by
  have hlast := p.last_le
  have hctl := p.ctl_lt
  have hfirst : p.first = p.ctl + 3184 := rfl
  obtain ⟨b, hb, hptr, hfit⟩ := h.exists_block (o := o) (by simp)
  obtain ⟨hlo, hbsize, hhi, -⟩ := h.heap.ptr_bounds hb
  have hsame (j : ℕ) (hj : j < 2 ^ 32) (hne : j ≠ o.ptr + i) :
      Function.update mem (BitVec.ofNat 32 (o.ptr + i)) v (BitVec.ofNat 32 j) =
        mem (BitVec.ofNat 32 j) := by
    apply Function.update_of_ne
    rw [ne_eq, ofNat_inj hj (by omega)]
    exact hne
  have hset : (o.set i v).ptr = o.ptr := rfl
  have hobj (x : Object) (hx : x ∈ l ++ o.set i v :: r) : x = o.set i v ∨ x ∈ l ++ r := by
    simp only [List.mem_append, List.mem_cons] at hx ⊢
    tauto
  have hold (x : Object) (hx : x ∈ l ++ r) : x ∈ l ++ o :: r := by
    simp only [List.mem_append, List.mem_cons] at hx ⊢
    tauto
  have hmap : (l ++ o.set i v :: r).map Object.ptr = (l ++ o :: r).map Object.ptr := by
    simp [hset]
  refine ⟨?_, hmap ▸ h.nodup, ?_, ?_, ?_, ?_⟩
  · refine h.heap.userWrite fun j hj _ _ hout => hsame j hj ?_
    rintro rfl
    refine hout b (mem_used.mp hb).1 (mem_used.mp hb).2 ⟨?_, by omega⟩
    rw [← hptr]
    exact Nat.le_add_right _ _
  · intro a
    rw [h.used_iff, ← List.mem_map, ← List.mem_map, hmap]
  · intro x hx c hc hcptr
    rcases hobj x hx with rfl | hx
    · rw [Object.set, List.length_set]
      exact h.fits o (by simp) c hc hcptr
    · exact h.fits x (hold x hx) c hc hcptr
  · intro x hx k hk
    rcases hobj x hx with rfl | hx
    · have hk' : k < o.data.length := by simpa [Object.set] using hk
      simp only [Object.set, List.getElem_set]
      rw [← BitVec.ofNat_add]
      by_cases hki : i = k
      · rw [if_pos hki, hki]
        exact Function.update_self ..
      · rw [if_neg hki, hsame _ (by omega) (by omega), BitVec.ofNat_add]
        exact h.holds o (by simp) k hk'
    · -- another object is in another block
      obtain ⟨c, hc, hcptr, hcfit⟩ := h.exists_block (hold x hx)
      obtain ⟨hclo, hcsize, hchi, -⟩ := h.heap.ptr_bounds hc
      have hnd := h.nodup
      rw [List.map_append, List.map_cons, List.nodup_middle, List.nodup_cons,
        ← List.map_append] at hnd
      have hne : b ≠ c := by
        rintro rfl
        exact hnd.1 (hptr ▸ hcptr ▸ List.mem_map_of_mem hx)
      obtain ⟨F, hrep⟩ := h.heap.rep
      have hfar := hrep.layout.far (mem_used.mp hb).1 (mem_used.mp hc).1 hne
      have hbptr : b.ptr = b.addr + 8 := rfl
      have hcptr' : c.ptr = c.addr + 8 := rfl
      rw [← BitVec.ofNat_add]
      refine (hsame _ (by omega) (by omega)).trans ?_
      rw [BitVec.ofNat_add]
      exact h.holds x (hold x hx) k hk
  · intro j hj hout
    exact (hsame j hj (by omega)).trans (h.rest j hj hout)

/-- What is written outside the region is not known to the client. -/
theorem Owned.other (h : Owned p stop ⟨mem, objs, rest⟩ bs) (hstop : p.last + 8 ≤ stop)
    (new : Mem) :
    Owned p stop ⟨fun a => if p.ctl ≤ a.toNat ∧ a.toNat < stop then mem a else new a, objs, new⟩
      bs := by
  have hlast := p.last_le
  have hsame (j : ℕ) (hj : j < 2 ^ 32) (hlo : p.ctl ≤ j) (hhi : j < stop) :
      (fun a : Addr => if p.ctl ≤ a.toNat ∧ a.toNat < stop then mem a else new a)
        (BitVec.ofNat 32 j) = mem (BitVec.ofNat 32 j) := by
    apply if_pos
    rw [BitVec.toNat_ofNat, Nat.mod_eq_of_lt hj]
    exact ⟨hlo, hhi⟩
  refine ⟨?_, h.nodup, h.used_iff, h.fits, ?_, ?_⟩
  · exact h.heap.userWrite fun j hj hlo hhi _ => hsame j hj hlo (by omega)
  · intro x hx k hk
    obtain ⟨c, hc, hcptr, hcfit⟩ := h.exists_block hx
    obtain ⟨hlo, hcsize, hhi, -⟩ := h.heap.ptr_bounds hc
    have hfirst : p.first = p.ctl + 3184 := rfl
    rw [← BitVec.ofNat_add]
    refine (hsame (x.ptr + k) (by omega) (by omega) (by omega)).trans ?_
    rw [BitVec.ofNat_add]
    exact h.holds x hx k hk
  · intro j hj hout
    apply if_neg
    rw [BitVec.toNat_ofNat, Nat.mod_eq_of_lt hj]
    omega

end Calls

theorem tlsfFree_zero (mem : Mem) (ctl : Addr) : tlsfFree mem ctl 0#32 = mem :=
  if_neg (not_not.mpr rfl)

theorem tlsfRealloc_null (mem : Mem) (ctl : Addr) (size : BitVec 32) :
    tlsfRealloc mem ctl 0#32 size = tlsfMalloc mem ctl size := by
  rw [tlsfRealloc, if_neg (fun h => h.1 rfl), if_pos rfl]

theorem tlsfRealloc_zero (mem : Mem) (ctl : Addr) {ptr : Addr} (h : ptr ≠ 0#32) :
    tlsfRealloc mem ctl ptr 0#32 = (tlsfFree mem ctl ptr, 0#32) :=
  if_pos ⟨h, rfl⟩

/-- **What the client knows stays true over everything that it does.** -/
theorem Client.Step.owned {p : Pool} {stop : ℕ} {s s' : Client} {bs : List Block}
    (hstep : Client.Step p.ctl stop s s') (hstop : p.last + 8 ≤ stop) (h : Owned p stop s bs) :
    ∃ bs', Owned p stop s' bs' := by
  cases hstep with
  | malloc hsize hm => exact h.malloc hstop hsize hm
  | reallocNull hsize hm =>
    rw [tlsfRealloc_null] at hm
    exact h.malloc hstop hsize hm
  | free => exact h.free hstop
  | freeNull =>
    rw [tlsfFree_zero]
    exact ⟨bs, h⟩
  | reallocZero hm =>
    obtain ⟨b, hb, hptr, -⟩ := h.exists_block (List.mem_append_right _ List.mem_cons_self)
    rw [← hptr, tlsfRealloc_zero _ _ (h.heap.ptr_ne_zero hb).1, hptr] at hm
    obtain rfl := congrArg Prod.fst hm
    exact h.free hstop
  | realloc hpos hsize hm => exact h.realloc hstop hpos hsize hm
  | write hi => exact ⟨bs, h.write hstop hi _⟩
  | other new => exact ⟨bs, h.other hstop new⟩

/-! ### Runs -/

section Runs

variable {start bytes : ℕ} {s : Client}

/-- A client of a new heap. -/
def newClient (mem : Mem) (start bytes : ℕ) : Client where
  mem := (tlsfCreateWithPool mem (BitVec.ofNat 32 start) (BitVec.ofNat 32 bytes)).1
  objs := []
  rest := mem

/-- The client of a new heap may come to this. -/
def Reached (mem : Mem) (start bytes : ℕ) (s : Client) : Prop :=
  Relation.ReflTransGen (Client.Step start (start + bytes)) (newClient mem start bytes) s

theorem Region.pool_last_le (h : Region start bytes) : h.pool.last + 8 ≤ start + bytes := by
  have hmin := h.le_bytes
  show start + 3188 + (bytes - 3196) / 4 * 4 + 8 ≤ start + bytes
  omega

theorem Region.newClient_owned (h : Region start bytes) (mem : Mem) :
    Owned h.pool (start + bytes) (newClient mem start bytes) [h.block] := by
  obtain ⟨mem', hcreate, hheap, huser⟩ := h.create mem
  have hmem : (newClient mem start bytes).mem = mem' := by rw [newClient, hcreate]
  have hused : used [h.block] = [] := rfl
  refine ⟨hmem ▸ hheap, List.nodup_nil, ?_, ?_, ?_, ?_⟩
  · intro a
    rw [hused]
    exact iff_of_false (fun ⟨b, hb, _⟩ => List.not_mem_nil hb) fun ⟨o, ho, _⟩ => List.not_mem_nil ho
  · exact fun o ho => absurd ho List.not_mem_nil
  · exact fun o ho => absurd ho List.not_mem_nil
  · intro i hi hout
    have hlast := h.pool_last_le
    have hend := h.end_le
    have hctl : h.pool.ctl = start := rfl
    have hlmod := h.pool_last_mod
    have hmod := h.start_mod
    have hword := huser (i / 4 * 4) (by omega) (by omega) (Or.inl (by omega))
    have hbyte := byte_congr hword (show i % 4 < 4 by omega)
    rw [show i / 4 * 4 + i % 4 = i by omega] at hbyte
    rw [hmem]
    exact hbyte

/-- What the client knows is true in every state that it comes to. -/
theorem Region.run_owned (h : Region start bytes) (mem : Mem)
    (hrun : Reached mem start bytes s) :
    ∃ bs, Owned h.pool (start + bytes) s bs := by
  induction hrun with
  | refl => exact ⟨_, h.newClient_owned mem⟩
  | tail _ hstep ih =>
    obtain ⟨bs, hbs⟩ := ih
    exact Client.Step.owned (p := h.pool) hstep h.pool_last_le hbs

/-- A place for the memory of the kernel. -/
theorem kernelRegion : Region 131072 8192 := ⟨by decide, by decide, by decide, by decide⟩

/-- A client of the kernel that has made one call. -/
def kernelClient (size : BitVec 32) : Client :=
  let r := kmalloc (kmallocInit (fun _ => 0#8) (BitVec.ofNat 32 131072)).1 (BitVec.ofNat 32 131072)
    size
  ⟨r.1, given r.1 r.2 size.toNat ++ [], fun _ => 0#8⟩

theorem kernelClient_run {size : BitVec 32} (hsize : size.toNat + 3 < 2 ^ 32) :
    Reached (fun _ => 0#8) 131072 8192 (kernelClient size) := by
  refine Relation.ReflTransGen.single (Client.Step.malloc hsize ?_)
  rw [kmalloc, kmallocInit, kmallocBytes]

end Runs

end Filestick.Tlsf
