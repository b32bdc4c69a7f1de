import Filestick.System.Equiv.TlsfHeap

/-!
# The free lists

* `Index.remove`: `remove_free_block` takes a node out of its list, and keeps the bitmaps.
* `Index.insert`: `insert_free_block` puts a node at the front of a list.
* `searchSuitableBlock_some`, `searchSuitableBlock_none`: the search finds the first node of the
  first list, from the one on that it starts with, that has one.
-/

namespace Filestick.Tlsf

open Elf (Mem)
open LinkedList (Linked)

/-! ### Places of `control_t` -/

section Places

variable (c fl sl : ℕ)

theorem flBitmap_ofNat : flBitmap (BitVec.ofNat 32 c) = BitVec.ofNat 32 (c + 16) :=
  (BitVec.ofNat_add c 16).symm

theorem slBitmap_ofNat : slBitmap (BitVec.ofNat 32 c) fl = BitVec.ofNat 32 (c + (20 + 4 * fl)) :=
  (BitVec.ofNat_add ..).symm

theorem blocks_ofNat :
    blocks (BitVec.ofNat 32 c) fl sl = BitVec.ofNat 32 (c + (116 + 4 * (32 * fl + sl))) :=
  (BitVec.ofNat_add ..).symm

end Places

theorem ofNat_inj {a b : ℕ} (ha : a < 2 ^ 32) (hb : b < 2 ^ 32) :
    BitVec.ofNat 32 a = BitVec.ofNat 32 b ↔ a = b := by
  constructor
  · intro h
    have := congrArg BitVec.toNat h
    rwa [BitVec.toNat_ofNat, BitVec.toNat_ofNat, Nat.mod_eq_of_lt ha, Nat.mod_eq_of_lt hb] at this
  · rintro rfl
    rfl

theorem word_eq_ofNat_next (mem : Mem) (a : ℕ) :
    word mem (a + 8) = BitVec.ofNat 32 (nextAt mem a) := by
  rw [nextAt, BitVec.ofNat_toNat, BitVec.setWidth_eq]

theorem word_eq_ofNat_prev (mem : Mem) (a : ℕ) :
    word mem (a + 12) = BitVec.ofNat 32 (prevAt mem a) := by
  rw [prevAt, BitVec.ofNat_toNat, BitVec.setWidth_eq]

theorem nextAt_eq {mem : Mem} {a n : ℕ} (hn : n < 2 ^ 32)
    (h : word mem (a + 8) = BitVec.ofNat 32 n) : nextAt mem a = n := by
  rw [nextAt, h, BitVec.toNat_ofNat, Nat.mod_eq_of_lt hn]

theorem prevAt_eq {mem : Mem} {a n : ℕ} (hn : n < 2 ^ 32)
    (h : word mem (a + 12) = BitVec.ofNat 32 n) : prevAt mem a = n := by
  rw [prevAt, h, BitVec.toNat_ofNat, Nat.mod_eq_of_lt hn]

/-! ### Nodes -/

section Nodes

variable {p : Pool} {F : Lists} {k a b : ℕ}

/-- A node, or the sentinel `block_null`. -/
def IsLink (p : Pool) (l : List ℕ) (a : ℕ) : Prop := a = p.ctl ∨ a ∈ l

theorem Nodes.link_bounds (h : Nodes p F) (ha : IsLink p (F k) a) :
    a % 4 = 0 ∧ a + 16 ≤ 2 ^ 32 ∧ (a = p.ctl ∨ p.first ≤ a) := by
  rcases ha with rfl | ha
  · have := p.last_le
    have := p.ctl_lt
    exact ⟨p.ctl_mod, by omega, Or.inl rfl⟩
  · exact ⟨h.mod k a ha, h.le k a ha, Or.inr (h.first_le k a ha)⟩

/-- A node and a link are the same, or apart. -/
theorem Nodes.link_far (h : Nodes p F) {k' : ℕ} (ha : IsLink p (F k) a) (hb : b ∈ F k') :
    a = b ∨ a + 16 ≤ b ∨ b + 16 ≤ a := by
  rcases ha with rfl | ha
  · have := h.first_le k' b hb
    unfold Pool.first at this
    omega
  · exact h.far k a ha k' b hb

theorem Nodes.ctl_notMem (h : Nodes p F) : p.ctl ∉ F k := by
  intro hmem
  have := h.first_le k _ hmem
  unfold Pool.first at this
  omega

theorem headD_isLink (l : List ℕ) : IsLink p l (l.headD p.ctl) := by
  cases l with
  | nil => exact Or.inl rfl
  | cons b l => exact Or.inr List.mem_cons_self

end Nodes

/-! ### The bitmaps -/

/-- A bit of a word is cleared. -/
theorem getLsbD_and_not_bit (x : BitVec 32) {i : ℕ} (hi : i < 32) (j : ℕ) :
    (x &&& ~~~(1#32 <<< i)).getLsbD j = (x.getLsbD j && decide (j ≠ i)) := by
  rw [BitVec.getLsbD_and, BitVec.getLsbD_not, BitVec.getLsbD_shiftLeft, getLsbD_one]
  by_cases hj : j < 32
  · rcases Nat.lt_trichotomy j i with hlt | rfl | hgt
    · simp [hj, hlt, hlt.ne]
    · simp [hj]
    · simp [hj, hgt.ne', show ¬j < i by omega, show ¬j - i = 0 by omega]
  · rw [BitVec.getLsbD_of_ge x j (Nat.not_lt.mp hj)]
    rfl

/-- A bit of a word is set. -/
theorem getLsbD_or_bit (x : BitVec 32) {i : ℕ} (hi : i < 32) (j : ℕ) :
    (x ||| 1#32 <<< i).getLsbD j = (x.getLsbD j || decide (j = i)) := by
  rw [BitVec.getLsbD_or, BitVec.getLsbD_shiftLeft, getLsbD_one]
  rcases Nat.lt_trichotomy j i with hlt | rfl | hgt
  · simp [hlt, hlt.ne]
  · simp [hi]
  · simp [hgt.ne', show ¬j < i by omega, show ¬j - i = 0 by omega]

/-! ### Removal -/

section Remove

variable {p : Pool} {mem : Mem} {F : Lists} {fl sl a k : ℕ}

/-- The two nodes around a node are linked to each other. -/
def unlinked (mem : Mem) (a : ℕ) : Mem :=
  put (put mem (nextAt mem a + 12) (BitVec.ofNat 32 (prevAt mem a))) (prevAt mem a + 8)
    (BitVec.ofNat 32 (nextAt mem a))

/-- `remove_free_block`, as stores of words. -/
theorem removeFreeBlock_ofNat (mem : Mem) (c a fl sl : ℕ) :
    removeFreeBlock mem (BitVec.ofNat 32 c) (BitVec.ofNat 32 a) fl sl =
      let m := unlinked mem a
      if word m (c + (116 + 4 * (32 * fl + sl))) = BitVec.ofNat 32 a then
        let m := put m (c + (116 + 4 * (32 * fl + sl))) (BitVec.ofNat 32 (nextAt mem a))
        if BitVec.ofNat 32 (nextAt mem a) = BitVec.ofNat 32 c then
          let m := put m (c + (20 + 4 * fl)) (word m (c + (20 + 4 * fl)) &&& ~~~(1#32 <<< sl))
          if word m (c + (20 + 4 * fl)) = 0#32 then
            put m (c + 16) (word m (c + 16) &&& ~~~(1#32 <<< fl))
          else m
        else m
      else m := by
  unfold removeFreeBlock
  simp only [prevFree_ofNat, nextFree_ofNat, loadWord_ofNat, blocks_ofNat, slBitmap_ofNat,
    flBitmap_ofNat, storeWord_ofNat]
  rw [word_eq_ofNat_next, word_eq_ofNat_prev]
  simp only [prevFree_ofNat, nextFree_ofNat, storeWord_ofNat]
  rfl

variable (hN : Nodes p F) (hI : Index p mem F) (ha : a ∈ F k)

include hI ha in
theorem prevAt_isLink : IsLink p (F k) (prevAt mem a) := (hI.linked k).prev_mem ha

include hI ha in
theorem nextAt_isLink : IsLink p (F k) (nextAt mem a) := (hI.linked k).next_mem ha

include hN in
theorem Nodes.links_far {x y : ℕ} (hx : IsLink p (F k) x) (hy : IsLink p (F k) y) :
    x = y ∨ x + 16 ≤ y ∨ y + 16 ≤ x := by
  rcases hy with rfl | hy
  · rcases hx with rfl | hx
    · exact Or.inl rfl
    · rcases hN.link_far (k := k) (Or.inl rfl) hx with h | h | h
      · exact Or.inl h.symm
      · exact Or.inr (Or.inr h)
      · exact Or.inr (Or.inl h)
  · exact hN.link_far hx hy

include hN hI ha in
/-- Words that are not one of the two links. -/
theorem word_unlinked {x : ℕ} (hx : x % 4 = 0) (hx' : x < 2 ^ 32) (hnext : x ≠ nextAt mem a + 12)
    (hprev : x ≠ prevAt mem a + 8) : word (unlinked mem a) x = word mem x := by
  obtain ⟨hpmod, hple, -⟩ := hN.link_bounds (prevAt_isLink hI ha)
  obtain ⟨hnmod, hnle, -⟩ := hN.link_bounds (nextAt_isLink hI ha)
  unfold unlinked
  rw [word_put_of_ne (by omega) (by omega) hx hx' hprev,
    word_put_of_ne (by omega) (by omega) hx hx' hnext]

include hN hI ha in
/-- The links of the nodes. -/
theorem nextAt_unlinked {k' x : ℕ} (hx : x ∈ F k') :
    nextAt (unlinked mem a) x = Function.update (nextAt mem) (prevAt mem a) (nextAt mem a) x := by
  obtain ⟨hpmod, hple, -⟩ := hN.link_bounds (prevAt_isLink hI ha)
  obtain ⟨hnmod, hnle, -⟩ := hN.link_bounds (nextAt_isLink hI ha)
  have hxmod := hN.mod k' x hx
  have hxle := hN.le k' x hx
  by_cases hxp : x = prevAt mem a
  · subst hxp
    rw [Function.update_self]
    refine nextAt_eq (by omega) ?_
    unfold unlinked
    exact word_put_self ..
  · have hfar := hN.link_far (nextAt_isLink hI ha) hx
    rw [Function.update_of_ne hxp, nextAt,
      word_unlinked hN hI ha (by omega) (by omega) (by omega) (by omega), ← nextAt]

include hN hI ha in
theorem prevAt_unlinked {k' x : ℕ} (hx : x ∈ F k') :
    prevAt (unlinked mem a) x = Function.update (prevAt mem) (nextAt mem a) (prevAt mem a) x := by
  obtain ⟨hpmod, hple, -⟩ := hN.link_bounds (prevAt_isLink hI ha)
  obtain ⟨hnmod, hnle, -⟩ := hN.link_bounds (nextAt_isLink hI ha)
  have hxmod := hN.mod k' x hx
  have hxle := hN.le k' x hx
  by_cases hxn : x = nextAt mem a
  · subst hxn
    rw [Function.update_self]
    refine prevAt_eq (by omega) ?_
    have hfar := hN.links_far (prevAt_isLink hI ha) (nextAt_isLink hI ha)
    unfold unlinked
    rw [word_put_of_ne (by omega) (by omega) (by omega) (by omega) (by omega), word_put_self]
  · have hfar := hN.link_far (prevAt_isLink hI ha) hx
    rw [Function.update_of_ne hxn, prevAt,
      word_unlinked hN hI ha (by omega) (by omega) (by omega) (by omega), ← prevAt]

include hN hI ha in
/-- The lists without the node are linked. -/
theorem linked_unlinked {mem' : Mem}
    (hsame : ∀ x, x % 4 = 0 → x < 2 ^ 32 → p.first + 4 ≤ x →
      word mem' x = word (unlinked mem a) x) (k' : ℕ) :
    Linked (nextAt mem') (prevAt mem') p.ctl p.ctl (Function.update F k ((F k).erase a) k') := by
  have hlinks {j x : ℕ} (hx : x ∈ F j) :
      nextAt mem' x = Function.update (nextAt mem) (prevAt mem a) (nextAt mem a) x ∧
        prevAt mem' x = Function.update (prevAt mem) (nextAt mem a) (prevAt mem a) x := by
    have hxmod := hN.mod j x hx
    have hxle := hN.le j x hx
    have hxfirst := hN.first_le j x hx
    rw [← nextAt_unlinked hN hI ha hx, ← prevAt_unlinked hN hI ha hx]
    constructor
    · rw [nextAt, nextAt, hsame _ (by omega) (by omega) (by omega)]
    · rw [prevAt, prevAt, hsame _ (by omega) (by omega) (by omega)]
  by_cases hk : k' = k
  · subst hk
    rw [Function.update_self]
    refine (hI.linked k').erase (hN.nodup k') ha hN.ctl_notMem ?_ ?_
    · exact fun x hx => (hlinks (List.mem_of_mem_erase hx)).1
    · exact fun x hx => (hlinks (List.mem_of_mem_erase hx)).2
  · rw [Function.update_of_ne hk]
    -- the other lists do not share a node with this one
    have hother {x y : ℕ} (hx : x ∈ F k') (hy : IsLink p (F k) y) : x ≠ y := by
      rintro rfl
      rcases hy with rfl | hy
      · exact hN.ctl_notMem hx
      · exact hk (hN.unique k' x hx k hy)
    refine (hI.linked k').congr ?_ ?_
    · intro x hx
      rw [(hlinks hx).1, Function.update_of_ne (hother hx (prevAt_isLink hI ha))]
    · intro x hx
      rw [(hlinks hx).2, Function.update_of_ne (hother hx (nextAt_isLink hI ha))]

include hN hI ha in
/-- The other words of `control_t` do not change. -/
theorem word_unlinked_ctl {x : ℕ} (hx : x % 4 = 0) (hlo : p.ctl + 16 ≤ x) (hhi : x < p.first + 4) :
    word (unlinked mem a) x = word mem x := by
  have hlast := p.last_le
  have hlt := p.ctl_lt
  have hfirst : p.first = p.ctl + 3184 := rfl
  obtain ⟨-, -, hp⟩ := hN.link_bounds (prevAt_isLink hI ha)
  obtain ⟨-, -, hn⟩ := hN.link_bounds (nextAt_isLink hI ha)
  exact word_unlinked hN hI ha hx (by omega) (by omega) (by omega)

include hN hI ha in
theorem sameOff_unlinked : SameOff p F mem (unlinked mem a) := by
  have hfirst : p.first = p.ctl + 3184 := rfl
  intro x hx hx' hoff
  apply word_unlinked hN hI ha hx hx'
  · rcases nextAt_isLink hI ha with h | h
    · have := hoff.1
      omega
    · exact (hoff.2 k _ h).2
  · rcases prevAt_isLink hI ha with h | h
    · have := hoff.1
      omega
    · exact (hoff.2 k _ h).1

end Remove

/-- A list without a node. -/
def Lists.erase (F : Lists) (k a : ℕ) : Lists := Function.update F k ((F k).erase a)

/-- A store into `control_t` behind `block_null`. -/
theorem sameOff_put {p : Pool} {F : Lists} {mem mem' : Mem} (h : SameOff p F mem mem') {y : ℕ}
    {v : BitVec 32} (hy : y % 4 = 0) (hlo : p.ctl ≤ y) (hhi : y < p.first + 4) :
    SameOff p F mem (put mem' y v) := by
  have hfirst : p.first = p.ctl + 3184 := rfl
  have hlast := p.last_le
  have hlt := p.ctl_lt
  intro x hx hx' hoff
  have hside := hoff.1
  rw [word_put_of_ne hy (by omega) hx hx' (by omega)]
  exact h x hx hx' hoff

/-- The bitmaps stay when no list becomes empty, and none stops to be. -/
theorem Index.of_isEmpty {p : Pool} {mem mem' : Mem} {F F' : Lists} (hI : Index p mem F)
    (hlinked : ∀ k, Linked (nextAt mem') (prevAt mem') p.ctl p.ctl (F' k))
    (hhead : ∀ k < 768, word mem' (p.ctl + (116 + 4 * k)) = BitVec.ofNat 32 ((F' k).headD p.ctl))
    (hempty : ∀ k, (F' k).isEmpty = (F k).isEmpty)
    (hbits : ∀ x, x % 4 = 0 → p.ctl + 16 ≤ x → x < p.ctl + 116 → word mem' x = word mem x) :
    Index p mem' F' := by
  have hmod := p.ctl_mod
  refine ⟨hhead, hlinked, ?_, ?_⟩
  · intro fl hfl sl hsl
    rw [hempty, ← hI.slBit fl hfl sl hsl, hbits _ (by omega) (by omega) (by omega)]
  · intro fl
    rw [hbits _ (by omega) (by omega) (by omega)]
    refine (hI.flBit fl).trans ?_
    by_cases hfl : fl < 24
    · rw [hbits _ (by omega) (by omega) (by omega)]
    · simp [hfl]

section Remove

variable {p : Pool} {mem : Mem} {F : Lists} {fl sl a : ℕ} (hN : Nodes p F) (hI : Index p mem F)
  (hfl : fl < 24) (hsl : sl < 32) (ha : a ∈ F (32 * fl + sl))

include hN hI hfl hsl ha

/-- A list that is not empty without the node; `c` is its first node. -/
theorem Index.remove_nonempty {c : ℕ} {l : List ℕ}
    (herase : (F (32 * fl + sl)).erase a = c :: l) {mem' : Mem}
    (hhead : word mem' (p.ctl + (116 + 4 * (32 * fl + sl))) = BitVec.ofNat 32 c)
    (hsame : ∀ x, x % 4 = 0 → x < 2 ^ 32 → p.ctl + 16 ≤ x →
      x ≠ p.ctl + (116 + 4 * (32 * fl + sl)) → word mem' x = word (unlinked mem a) x) :
    Index p mem' (F.erase (32 * fl + sl) a) := by
  have hmod := p.ctl_mod
  have hlast := p.last_le
  have hlt := p.ctl_lt
  have hfirst : p.first = p.ctl + 3184 := rfl
  have hctl {x : ℕ} (hx : x % 4 = 0) (hlo : p.ctl + 16 ≤ x) (hhi : x < p.first + 4) :=
    word_unlinked_ctl hN hI ha hx hlo hhi
  refine hI.of_isEmpty (linked_unlinked hN hI ha ?_) ?_ ?_ ?_
  · intro x hx hx' hge
    exact hsame x hx hx' (by omega) (by omega)
  · intro k hk
    by_cases heq : k = 32 * fl + sl
    · rw [heq, hhead, Lists.erase, Function.update_self, herase, List.headD_cons]
    · rw [hsame _ (by omega) (by omega) (by omega) (by omega),
        hctl (by omega) (by omega) (by omega), hI.head k hk, Lists.erase,
        Function.update_of_ne heq]
  · intro k
    by_cases heq : k = 32 * fl + sl
    · rw [heq, Lists.erase, Function.update_self, herase]
      cases hF : F (32 * fl + sl) with
      | nil => exact absurd (hF ▸ ha) List.not_mem_nil
      | cons b t => rfl
    · rw [Lists.erase, Function.update_of_ne heq]
  · intro x hx hlo hhi
    rw [hsame x hx (by omega) hlo (by omega), hctl hx hlo (by omega)]

/-- A list that is empty without the node: its bit is cleared, and the bit of its level when that
was the last one. -/
theorem Index.remove_empty (herase : (F (32 * fl + sl)).erase a = []) {mem' : Mem}
    (hhead : word mem' (p.ctl + (116 + 4 * (32 * fl + sl))) = BitVec.ofNat 32 p.ctl)
    (hsl' : word mem' (p.ctl + (20 + 4 * fl)) =
      word mem (p.ctl + (20 + 4 * fl)) &&& ~~~(1#32 <<< sl))
    (hfl' : word mem' (p.ctl + 16) =
      if word mem' (p.ctl + (20 + 4 * fl)) = 0#32 then word mem (p.ctl + 16) &&& ~~~(1#32 <<< fl)
      else word mem (p.ctl + 16))
    (hsame : ∀ x, x % 4 = 0 → x < 2 ^ 32 → p.ctl + 20 ≤ x →
      x ≠ p.ctl + (116 + 4 * (32 * fl + sl)) → x ≠ p.ctl + (20 + 4 * fl) →
      word mem' x = word (unlinked mem a) x) :
    Index p mem' (F.erase (32 * fl + sl) a) := by
  have hmod := p.ctl_mod
  have hlast := p.last_le
  have hlt := p.ctl_lt
  have hfirst : p.first = p.ctl + 3184 := rfl
  have hctl {x : ℕ} (hx : x % 4 = 0) (hlo : p.ctl + 16 ≤ x) (hhi : x < p.first + 4) :=
    word_unlinked_ctl hN hI ha hx hlo hhi
  refine ⟨?_, linked_unlinked hN hI ha ?_, ?_, ?_⟩
  · intro k hk
    by_cases heq : k = 32 * fl + sl
    · rw [heq, hhead, Lists.erase, Function.update_self, herase, List.headD_nil]
    · rw [hsame _ (by omega) (by omega) (by omega) (by omega) (by omega),
        hctl (by omega) (by omega) (by omega), hI.head k hk, Lists.erase,
        Function.update_of_ne heq]
  · intro x hx hx' hge
    exact hsame x hx hx' (by omega) (by omega) (by omega)
  · intro fl' hfl'' sl' hsl''
    by_cases heq : fl' = fl
    · subst heq
      rw [hsl', getLsbD_and_not_bit _ hsl, hI.slBit fl' hfl sl' hsl'']
      by_cases heq' : sl' = sl
      · subst heq'
        rw [Lists.erase, Function.update_self, herase]
        simp
      · rw [Lists.erase, Function.update_of_ne (by omega)]
        simp [heq']
    · rw [hsame _ (by omega) (by omega) (by omega) (by omega) (by omega),
        hctl (by omega) (by omega) (by omega), hI.slBit fl' hfl'' sl' hsl'', Lists.erase,
        Function.update_of_ne (by omega)]
  · intro fl'
    have hlevel : fl' < 24 → fl' ≠ fl →
        word mem' (p.ctl + (20 + 4 * fl')) = word mem (p.ctl + (20 + 4 * fl')) := by
      intro h24 hne
      rw [hsame _ (by omega) (by omega) (by omega) (by omega) (by omega),
        hctl (by omega) (by omega) (by omega)]
    rw [hfl']
    by_cases hzero : word mem' (p.ctl + (20 + 4 * fl)) = 0#32
    · rw [if_pos hzero, getLsbD_and_not_bit _ (by omega), hI.flBit fl']
      by_cases heq : fl' = fl
      · subst heq
        simp [hzero]
      · by_cases h24 : fl' < 24
        · simp [h24, heq, hlevel h24 heq]
        · simp [h24]
    · rw [if_neg hzero, hI.flBit fl']
      by_cases heq : fl' = fl
      · subst heq
        have hne : word mem (p.ctl + (20 + 4 * fl')) ≠ 0#32 := by
          intro h0
          rw [hsl', h0] at hzero
          exact hzero (BitVec.zero_and)
        simp [hzero, hne]
      · by_cases h24 : fl' < 24
        · simp [h24, hlevel h24 heq]
        · simp [h24]

/-- **`remove_free_block` takes a node out of its list.** -/
theorem Index.remove :
    Index p (removeFreeBlock mem (BitVec.ofNat 32 p.ctl) (BitVec.ofNat 32 a) fl sl)
        (F.erase (32 * fl + sl) a) ∧
      SameOff p F mem
        (removeFreeBlock mem (BitVec.ofNat 32 p.ctl) (BitVec.ofNat 32 a) fl sl) := by
  have hmod := p.ctl_mod
  have hlast := p.last_le
  have hlt := p.ctl_lt
  have hfirst : p.first = p.ctl + 3184 := rfl
  have hctl {x : ℕ} (hx : x % 4 = 0) (hlo : p.ctl + 16 ≤ x) (hhi : x < p.first + 4) :=
    word_unlinked_ctl hN hI ha hx hlo hhi
  have hoff := sameOff_unlinked hN hI ha
  have hale := hN.le _ a ha
  obtain ⟨c, l, hFk⟩ := List.exists_cons_of_ne_nil (List.ne_nil_of_mem ha)
  have hhead : word (unlinked mem a) (p.ctl + (116 + 4 * (32 * fl + sl))) = BitVec.ofNat 32 c := by
    rw [hctl (by omega) (by omega) (by omega), hI.head _ (by omega), hFk, List.headD_cons]
  have hcle := hN.le _ c (hFk ▸ List.mem_cons_self)
  rw [removeFreeBlock_ofNat]
  dsimp only
  by_cases hca : c = a
  · -- the first node
    subst hca
    have herase : (F (32 * fl + sl)).erase c = l := by rw [hFk, List.erase_cons_head]
    have hnext : nextAt mem c = l.headD p.ctl := by
      have := hI.linked (32 * fl + sl)
      rw [hFk] at this
      exact this.2.1
    have hnle : nextAt mem c < 2 ^ 32 := (word mem (c + 8)).isLt
    rw [if_pos hhead]
    have hoff' := sameOff_put hoff (y := p.ctl + (116 + 4 * (32 * fl + sl)))
      (v := BitVec.ofNat 32 (nextAt mem c)) (by omega) (by omega) (by omega)
    have hput {x : ℕ} (hx : x % 4 = 0) (hx' : x < 2 ^ 32)
        (hne : x ≠ p.ctl + (116 + 4 * (32 * fl + sl))) :
        word (put (unlinked mem c) (p.ctl + (116 + 4 * (32 * fl + sl)))
          (BitVec.ofNat 32 (nextAt mem c))) x = word (unlinked mem c) x :=
      word_put_of_ne (by omega) (by omega) hx hx' hne
    cases l with
    | cons d l =>
      have hd : d ∈ F (32 * fl + sl) := by simp [hFk]
      have hne : nextAt mem c ≠ p.ctl := by
        rw [hnext, List.headD_cons]
        rintro rfl
        exact hN.ctl_notMem hd
      rw [if_neg (mt (ofNat_inj hnle (by omega)).mp hne)]
      refine ⟨hI.remove_nonempty hN hfl hsl ha herase ?_ fun x hx hx' _ h => hput hx hx' h, hoff'⟩
      rw [word_put_self, hnext, List.headD_cons]
    | nil =>
      rw [List.headD_nil] at hnext
      rw [if_pos (congrArg _ hnext), word_put_self, hput (by omega) (by omega) (by omega),
        hctl (by omega) (by omega) (by omega)]
      set m := put (unlinked mem c) (p.ctl + (116 + 4 * (32 * fl + sl)))
        (BitVec.ofNat 32 (nextAt mem c)) with hm
      have hmhead : word m (p.ctl + (116 + 4 * (32 * fl + sl))) = BitVec.ofNat 32 p.ctl := by
        rw [hm, word_put_self, hnext]
      have hmfl : word m (p.ctl + 16) = word mem (p.ctl + 16) := by
        rw [hput (by omega) (by omega) (by omega), hctl (by omega) (by omega) (by omega)]
      have hoff'' := sameOff_put hoff' (y := p.ctl + (20 + 4 * fl))
        (v := word mem (p.ctl + (20 + 4 * fl)) &&& ~~~(1#32 <<< sl)) (by omega) (by omega)
        (by omega)
      by_cases hzero : word mem (p.ctl + (20 + 4 * fl)) &&& ~~~(1#32 <<< sl) = 0#32
      · rw [if_pos hzero]
        refine ⟨hI.remove_empty hN hfl hsl ha herase ?_ ?_ ?_ ?_,
          sameOff_put hoff'' (by omega) (by omega) (by omega)⟩
        · rw [word_put_of_ne (by omega) (by omega) (by omega) (by omega) (by omega),
            word_put_of_ne (by omega) (by omega) (by omega) (by omega) (by omega), hmhead]
        · rw [word_put_of_ne (by omega) (by omega) (by omega) (by omega) (by omega), word_put_self]
        · rw [word_put_self, word_put_of_ne (a := p.ctl + 16) (by omega) (by omega) (by omega)
            (by omega) (by omega), word_put_self, if_pos hzero,
            word_put_of_ne (by omega) (by omega) (by omega) (by omega) (by omega), hmfl]
        · intro x hx hx' hge hne hne'
          rw [word_put_of_ne (by omega) (by omega) hx hx' (by omega),
            word_put_of_ne (by omega) (by omega) hx hx' hne', hput hx hx' hne]
      · rw [if_neg hzero]
        refine ⟨hI.remove_empty hN hfl hsl ha herase ?_ ?_ ?_ ?_, hoff''⟩
        · rw [word_put_of_ne (by omega) (by omega) (by omega) (by omega) (by omega), hmhead]
        · rw [word_put_self]
        · rw [word_put_self, if_neg hzero,
            word_put_of_ne (by omega) (by omega) (by omega) (by omega) (by omega), hmfl]
        · intro x hx hx' hge hne hne'
          rw [word_put_of_ne (by omega) (by omega) hx hx' hne', hput hx hx' hne]
  · -- a node behind the first one
    have hne : word (unlinked mem a) (p.ctl + (116 + 4 * (32 * fl + sl))) ≠ BitVec.ofNat 32 a := by
      rw [hhead]
      exact mt (ofNat_inj (by omega) (by omega)).mp hca
    rw [if_neg hne]
    have herase : (F (32 * fl + sl)).erase a = c :: l.erase a := by
      rw [hFk, List.erase_cons_tail (by simpa using hca)]
    exact ⟨hI.remove_nonempty hN hfl hsl ha herase hhead fun x _ _ _ _ => rfl, hoff⟩

end Remove

/-! ### Insertion -/

/-- A node is put at the front of a list. -/
def Lists.cons (F : Lists) (k a : ℕ) : Lists := Function.update F k (a :: F k)

/-- A node is linked before the first one, `cur`. -/
def linkedFront (mem : Mem) (c a cur : ℕ) : Mem :=
  put (put (put mem (a + 8) (BitVec.ofNat 32 cur)) (a + 12) (BitVec.ofNat 32 c)) (cur + 12)
    (BitVec.ofNat 32 a)

theorem Lists.subset_cons (F : Lists) (k a k' : ℕ) {x : ℕ} (hx : x ∈ F k') : x ∈ F.cons k a k' := by
  by_cases h : k' = k
  · subst h
    rw [Lists.cons, Function.update_self]
    exact List.mem_cons_of_mem a hx
  · rwa [Lists.cons, Function.update_of_ne h]

theorem Lists.mem_cons_self (F : Lists) (k a : ℕ) : a ∈ F.cons k a k := by
  rw [Lists.cons, Function.update_self]
  exact List.mem_cons_self

section Insert

variable {p : Pool} {mem : Mem} {F : Lists} {fl sl a k : ℕ}

/-- `insert_free_block`, as stores of words. -/
theorem insertFreeBlock_ofNat {cur : ℕ}
    (hcur : word mem (p.ctl + (116 + 4 * (32 * fl + sl))) = BitVec.ofNat 32 cur) :
    insertFreeBlock mem (BitVec.ofNat 32 p.ctl) (BitVec.ofNat 32 a) fl sl =
      let m := put (linkedFront mem p.ctl a cur) (p.ctl + (116 + 4 * (32 * fl + sl)))
        (BitVec.ofNat 32 a)
      let m := put m (p.ctl + 16) (word m (p.ctl + 16) ||| 1#32 <<< fl)
      put m (p.ctl + (20 + 4 * fl)) (word m (p.ctl + (20 + 4 * fl)) ||| 1#32 <<< sl) := by
  unfold insertFreeBlock
  simp only [prevFree_ofNat, nextFree_ofNat, loadWord_ofNat, blocks_ofNat, slBitmap_ofNat,
    flBitmap_ofNat, storeWord_ofNat]
  rw [hcur]
  simp only [prevFree_ofNat, storeWord_ofNat]
  rfl

/-- The other lists have the same nodes as before. -/
theorem Nodes.of_cons (h : Nodes p (F.cons k a)) : Nodes p F := by
  have hsub {k' x : ℕ} (hx : x ∈ F k') := F.subset_cons k a k' hx
  constructor
  · exact fun k' x hx => h.mod k' x (hsub hx)
  · exact fun k' x hx => h.first_le k' x (hsub hx)
  · exact fun k' x hx => h.le k' x (hsub hx)
  · exact fun k' x hx k'' y hy => h.far k' x (hsub hx) k'' y (hsub hy)
  · intro k'
    have hnd := h.nodup k'
    by_cases hk : k' = k
    · subst hk
      rw [Lists.cons, Function.update_self] at hnd
      exact (List.nodup_cons.mp hnd).2
    · rwa [Lists.cons, Function.update_of_ne hk] at hnd
  · exact fun k' x hx k'' hy => h.unique k' x (hsub hx) k'' (hsub hy)

theorem Nodes.notMem_of_cons (h : Nodes p (F.cons k a)) (k' : ℕ) : a ∉ F k' := by
  intro hmem
  obtain rfl := h.unique k' a (F.subset_cons k a k' hmem) k (F.mem_cons_self k a)
  have hnd := h.nodup k'
  rw [Lists.cons, Function.update_self] at hnd
  exact (List.nodup_cons.mp hnd).1 hmem

variable (hN : Nodes p (F.cons k a)) (hI : Index p mem F)

include hN in
/-- Words that are not one of the three links. -/
theorem word_linkedFront {x : ℕ} (hx : x % 4 = 0) (hx' : x < 2 ^ 32)
    (hnext : x ≠ a + 8) (hprev : x ≠ a + 12) (hcur : x ≠ (F k).headD p.ctl + 12) :
    word (linkedFront mem p.ctl a ((F k).headD p.ctl)) x = word mem x := by
  obtain ⟨hcmod, hcle, -⟩ := hN.of_cons.link_bounds (headD_isLink (p := p) (F k))
  have hamod := hN.mod k a (F.mem_cons_self k a)
  have hale := hN.le k a (F.mem_cons_self k a)
  unfold linkedFront
  rw [word_put_of_ne (by omega) (by omega) hx hx' hcur,
    word_put_of_ne (by omega) (by omega) hx hx' hprev,
    word_put_of_ne (by omega) (by omega) hx hx' hnext]

include hN in
theorem sameOff_linkedFront :
    SameOff p (F.cons k a) mem (linkedFront mem p.ctl a ((F k).headD p.ctl)) := by
  have hfirst : p.first = p.ctl + 3184 := rfl
  intro x hx hx' hoff
  obtain ⟨hnext, hprev⟩ := hoff.2 k a (F.mem_cons_self k a)
  refine word_linkedFront hN hx hx' hnext hprev ?_
  rcases headD_isLink (p := p) (F k) with h | h
  · have := hoff.1
    omega
  · exact (hoff.2 k _ (F.subset_cons k a k h)).2

include hN in
/-- The other words of `control_t` do not change. -/
theorem word_linkedFront_ctl {x : ℕ} (hx : x % 4 = 0) (hlo : p.ctl + 16 ≤ x)
    (hhi : x < p.first + 4) :
    word (linkedFront mem p.ctl a ((F k).headD p.ctl)) x = word mem x := by
  have hlast := p.last_le
  have hlt := p.ctl_lt
  have hfirst : p.first = p.ctl + 3184 := rfl
  obtain ⟨-, -, hc⟩ := hN.of_cons.link_bounds (headD_isLink (p := p) (F k))
  have ha := hN.first_le k a (F.mem_cons_self k a)
  exact word_linkedFront hN hx (by omega) (by omega) (by omega) (by omega)

include hN hI in
/-- The lists with the node are linked. -/
theorem linked_linkedFront {mem' : Mem}
    (hsame : ∀ x, x % 4 = 0 → x < 2 ^ 32 → p.first + 4 ≤ x →
      word mem' x = word (linkedFront mem p.ctl a ((F k).headD p.ctl)) x) (k' : ℕ) :
    Linked (nextAt mem') (prevAt mem') p.ctl p.ctl (F.cons k a k') := by
  have hN' := hN.of_cons
  set cur := (F k).headD p.ctl with hcur
  have hlink : IsLink p (F k) cur := headD_isLink (F k)
  obtain ⟨hcmod, hcle, hcfirst⟩ := hN'.link_bounds hlink
  have hamod := hN.mod k a (F.mem_cons_self k a)
  have hale := hN.le k a (F.mem_cons_self k a)
  have hafirst := hN.first_le k a (F.mem_cons_self k a)
  have hfirst : p.first = p.ctl + 3184 := rfl
  have hane : cur ≠ a := by
    rcases hlink with h | h
    · omega
    · exact fun heq => hN.notMem_of_cons k (heq ▸ h)
  have hafar : cur + 16 ≤ a ∨ a + 16 ≤ cur := by
    rcases hlink with h | h
    · omega
    · have := hN.far k _ (F.subset_cons k a k h) k a (F.mem_cons_self k a)
      omega
  -- the links of the other nodes
  have hkeep {j x : ℕ} (hx : x ∈ F j) (hne : x ≠ cur) :
      nextAt mem' x = nextAt mem x ∧ prevAt mem' x = prevAt mem x := by
    have hxmod := hN'.mod j x hx
    have hxle := hN'.le j x hx
    have hxfirst := hN'.first_le j x hx
    have hxfar := hN'.link_far hlink hx
    have hxa := hN.far j _ (F.subset_cons k a j hx) k a (F.mem_cons_self k a)
    have hxne : x ≠ a := by
      rintro rfl
      exact hN.notMem_of_cons j hx
    constructor
    · rw [nextAt, hsame _ (by omega) (by omega) (by omega),
        word_linkedFront hN (by omega) (by omega) (by omega) (by omega) (by omega), ← nextAt]
    · rw [prevAt, hsame _ (by omega) (by omega) (by omega),
        word_linkedFront hN (by omega) (by omega) (by omega) (by omega) (by omega), ← prevAt]
  have hcurNext (h : cur ∈ F k) : nextAt mem' cur = nextAt mem cur := by
    have := hN'.first_le k cur h
    rw [nextAt, hsame _ (by omega) (by omega) (by omega),
      word_linkedFront hN (by omega) (by omega) (by omega) (by omega) (by omega), ← nextAt]
  by_cases hk : k' = k
  · subst hk
    rw [Lists.cons, Function.update_self]
    refine (hI.linked k').insert (hN'.nodup k') (hN.notMem_of_cons k') ?_ ?_ ?_
    · intro x hx
      by_cases hxa : x = a
      · subst hxa
        rw [Function.update_self]
        refine nextAt_eq (by omega) ?_
        rw [hsame _ (by omega) (by omega) (by omega), linkedFront,
          word_put_of_ne (by omega) (by omega) (by omega) (by omega) (by omega),
          word_put_of_ne (by omega) (by omega) (by omega) (by omega) (by omega), word_put_self]
      · rw [Function.update_of_ne hxa]
        have hxF := (List.mem_cons.mp hx).resolve_left hxa
        by_cases hxc : x = cur
        · subst hxc
          exact hcurNext hxF
        · exact (hkeep hxF hxc).1
    · intro x hx
      by_cases hxc : x = cur
      · subst hxc
        have := hN'.first_le k' cur hx
        rw [← hcur, Function.update_self]
        refine prevAt_eq (by omega) ?_
        rw [hsame _ (by omega) (by omega) (by omega), linkedFront, word_put_self]
      · rw [← hcur, Function.update_of_ne hxc]
        exact (hkeep hx hxc).2
    · refine prevAt_eq (by omega) ?_
      rw [hsame _ (by omega) (by omega) (by omega), linkedFront,
        word_put_of_ne (by omega) (by omega) (by omega) (by omega) (by omega), word_put_self]
  · rw [Lists.cons, Function.update_of_ne hk]
    have hne {x : ℕ} (hx : x ∈ F k') : x ≠ cur := by
      rintro rfl
      rcases hlink with h | h
      · exact hN'.ctl_notMem (h ▸ hx)
      · exact hk (hN'.unique k' _ hx k h)
    exact (hI.linked k').congr (fun x hx => (hkeep hx (hne hx)).1)
      fun x hx => (hkeep hx (hne hx)).2

end Insert

/-- **`insert_free_block` puts a node at the front of a list.** -/
theorem Index.insert {p : Pool} {mem : Mem} {F : Lists} {fl sl a : ℕ}
    (hN : Nodes p (F.cons (32 * fl + sl) a)) (hI : Index p mem F) (hfl : fl < 24) (hsl : sl < 32) :
    Index p (insertFreeBlock mem (BitVec.ofNat 32 p.ctl) (BitVec.ofNat 32 a) fl sl)
        (F.cons (32 * fl + sl) a) ∧
      SameOff p (F.cons (32 * fl + sl) a) mem
        (insertFreeBlock mem (BitVec.ofNat 32 p.ctl) (BitVec.ofNat 32 a) fl sl) := by
  have hmod := p.ctl_mod
  have hlast := p.last_le
  have hlt := p.ctl_lt
  have hfirst : p.first = p.ctl + 3184 := rfl
  rw [insertFreeBlock_ofNat (hI.head _ (by omega))]
  dsimp only
  set m := linkedFront mem p.ctl a ((F (32 * fl + sl)).headD p.ctl)
  have hctl {x : ℕ} (hx : x % 4 = 0) (hlo : p.ctl + 16 ≤ x) (hhi : x < p.first + 4) :
      word m x = word mem x := word_linkedFront_ctl hN hx hlo hhi
  have hoff : SameOff p (F.cons (32 * fl + sl) a) mem m := sameOff_linkedFront hN
  have hother {k' : ℕ} (hne : k' ≠ 32 * fl + sl) : F.cons (32 * fl + sl) a k' = F k' :=
    Function.update_of_ne hne ..
  have hself : F.cons (32 * fl + sl) a (32 * fl + sl) = a :: F (32 * fl + sl) :=
    Function.update_self ..
  have hfl' : word (put m (p.ctl + (116 + 4 * (32 * fl + sl))) (BitVec.ofNat 32 a)) (p.ctl + 16) =
      word mem (p.ctl + 16) := by
    rw [word_put_of_ne (by omega) (by omega) (by omega) (by omega) (by omega),
      hctl (by omega) (by omega) (by omega)]
  rw [hfl']
  have hsl' : word (put (put m (p.ctl + (116 + 4 * (32 * fl + sl))) (BitVec.ofNat 32 a))
      (p.ctl + 16) (word mem (p.ctl + 16) ||| 1#32 <<< fl)) (p.ctl + (20 + 4 * fl)) =
      word mem (p.ctl + (20 + 4 * fl)) := by
    rw [word_put_of_ne (by omega) (by omega) (by omega) (by omega) (by omega),
      word_put_of_ne (by omega) (by omega) (by omega) (by omega) (by omega),
      hctl (by omega) (by omega) (by omega)]
  rw [hsl']
  refine ⟨⟨?_, linked_linkedFront hN hI ?_, ?_, ?_⟩, sameOff_put (sameOff_put (sameOff_put hoff
    (by omega) (by omega) (by omega)) (by omega) (by omega) (by omega)) (by omega) (by omega)
    (by omega)⟩
  · intro k hk
    rw [word_put_of_ne (by omega) (by omega) (by omega) (by omega) (by omega),
      word_put_of_ne (by omega) (by omega) (by omega) (by omega) (by omega)]
    by_cases heq : k = 32 * fl + sl
    · rw [heq, word_put_self, hself, List.headD_cons]
    · rw [word_put_of_ne (by omega) (by omega) (by omega) (by omega) (by omega),
        hctl (by omega) (by omega) (by omega), hother heq, hI.head k hk]
  · intro x hx hx' hge
    rw [word_put_of_ne (by omega) (by omega) hx hx' (by omega),
      word_put_of_ne (by omega) (by omega) hx hx' (by omega),
      word_put_of_ne (by omega) (by omega) hx hx' (by omega)]
  · intro fl' hfl'' sl' hsl''
    by_cases heq : fl' = fl
    · subst heq
      rw [word_put_self, getLsbD_or_bit _ hsl, hI.slBit fl' hfl sl' hsl'']
      by_cases heq' : sl' = sl
      · subst heq'
        rw [hself]
        simp
      · rw [hother (by omega)]
        simp [heq']
    · rw [word_put_of_ne (by omega) (by omega) (by omega) (by omega) (by omega),
        word_put_of_ne (by omega) (by omega) (by omega) (by omega) (by omega),
        word_put_of_ne (by omega) (by omega) (by omega) (by omega) (by omega),
        hctl (by omega) (by omega) (by omega), hother (by omega), hI.slBit fl' hfl'' sl' hsl'']
  · intro fl'
    rw [word_put_of_ne (by omega) (by omega) (by omega) (by omega) (by omega), word_put_self,
      getLsbD_or_bit _ (by omega), hI.flBit fl']
    by_cases heq : fl' = fl
    · subst heq
      -- the bit of the list is set
      have hne : word mem (p.ctl + (20 + 4 * fl')) ||| 1#32 <<< sl ≠ 0#32 := by
        intro h0
        have hbit := getLsbD_or_bit (word mem (p.ctl + (20 + 4 * fl'))) hsl sl
        rw [h0] at hbit
        simp at hbit
      rw [word_put_self]
      simp [hfl, hne]
    · by_cases h24 : fl' < 24
      · rw [word_put_of_ne (by omega) (by omega) (by omega) (by omega) (by omega),
          word_put_of_ne (by omega) (by omega) (by omega) (by omega) (by omega),
          word_put_of_ne (by omega) (by omega) (by omega) (by omega) (by omega),
          hctl (by omega) (by omega) (by omega)]
        simp [heq]
      · simp [h24, heq]

/-! ### The search -/

/-- What a search that starts with the list `k` finds: the first node of the first list that has
one. -/
structure Found (F : Lists) (k fl sl a : ℕ) : Prop where
  fl_lt : fl < 24
  sl_lt : sl < 32
  le : k ≤ 32 * fl + sl
  head : (F (32 * fl + sl)).head? = some a
  before : ∀ k', k ≤ k' → k' < 32 * fl + sl → F k' = []

section Search

variable {p : Pool} {mem : Mem} {F : Lists} {fl sl : ℕ} (hI : Index p mem F)

include hI in
/-- A bit of a second bitmap. -/
theorem Index.eq_nil_iff (hfl : fl < 24) (hsl : sl < 32) :
    F (32 * fl + sl) = [] ↔ (word mem (p.ctl + (20 + 4 * fl))).getLsbD sl = false := by
  rw [hI.slBit fl hfl sl hsl, Bool.not_eq_false', List.isEmpty_iff]

include hI in
/-- The lists of a level whose bitmap is 0. -/
theorem Index.eq_nil_of_zero (hfl : fl < 24) (hsl : sl < 32)
    (h0 : word mem (p.ctl + (20 + 4 * fl)) = 0#32) : F (32 * fl + sl) = [] := by
  rw [hI.eq_nil_iff hfl hsl, h0, BitVec.getLsbD_zero]

include hI in
/-- The first node of a list whose bit is set. -/
theorem Index.exists_head (hfl : fl < 24) (hsl : sl < 32)
    (hbit : (word mem (p.ctl + (20 + 4 * fl))).getLsbD sl = true) :
    ∃ a, (F (32 * fl + sl)).head? = some a ∧
      word mem (p.ctl + (116 + 4 * (32 * fl + sl))) = BitVec.ofNat 32 a := by
  have hne : F (32 * fl + sl) ≠ [] := by
    rw [ne_eq, hI.eq_nil_iff hfl hsl, hbit]
    decide
  obtain ⟨a, l, hF⟩ := List.exists_cons_of_ne_nil hne
  refine ⟨a, by rw [hF, List.head?_cons], ?_⟩
  rw [hI.head _ (by omega), hF, List.headD_cons]

theorem getLsbD_and_ones (x : BitVec 32) (n : ℕ) {i : ℕ} (hi : i < 32) :
    (x &&& (~~~0#32 <<< n)).getLsbD i = (x.getLsbD i && decide (n ≤ i)) := by
  rw [BitVec.getLsbD_and, getLsbD_ones_shiftLeft, decide_eq_true hi, Bool.true_and]

include hI in
/-- **The search finds the first node of the first list that has one**, or there is none. -/
theorem Index.search (hfl : fl < 24) (hsl : sl < 32) :
    (∃ fl' sl' a, Found F (32 * fl + sl) fl' sl' a ∧
      searchSuitableBlock mem (BitVec.ofNat 32 p.ctl) fl sl = (BitVec.ofNat 32 a, fl', sl')) ∨
    ((∀ k, 32 * fl + sl ≤ k → k < 768 → F k = []) ∧
      (searchSuitableBlock mem (BitVec.ofNat 32 p.ctl) fl sl).1 = 0#32) := by
  unfold searchSuitableBlock
  simp only [slBitmap_ofNat, flBitmap_ofNat, blocks_ofNat, loadWord_ofNat]
  set slMap := word mem (p.ctl + (20 + 4 * fl)) &&& (~~~0#32 <<< sl) with hslMap
  set flMap := word mem (p.ctl + 16) &&& (~~~0#32 <<< (fl + 1)) with hflMap
  by_cases hs : slMap = 0#32
  · rw [if_pos hs]
    -- the rest of this level is empty
    have hlevel (i : ℕ) (hi : i < 32) (hge : sl ≤ i) : F (32 * fl + i) = [] := by
      rw [hI.eq_nil_iff hfl hi]
      have := getLsbD_and_ones (word mem (p.ctl + (20 + 4 * fl))) sl hi
      rw [← hslMap, hs, BitVec.getLsbD_zero, decide_eq_true hge, Bool.and_true] at this
      exact this.symm
    have habove (j : ℕ) (hj : j < 24) (hgt : fl < j) (hbit : flMap.getLsbD j = false) (i : ℕ)
        (hi : i < 32) : F (32 * j + i) = [] := by
      have hand := getLsbD_and_ones (word mem (p.ctl + 16)) (fl + 1) (show j < 32 by omega)
      have hle : fl + 1 ≤ j := hgt
      rw [← hflMap, hbit, decide_eq_true hle, Bool.and_true, hI.flBit j] at hand
      have hzero : word mem (p.ctl + (20 + 4 * j)) = 0#32 := by
        by_contra hne
        exact absurd hand (by simp [hj, hne])
      exact hI.eq_nil_of_zero hj hi hzero
    by_cases hf : flMap = 0#32
    · rw [if_pos hf]
      refine Or.inr ⟨fun k hle hlt => ?_, rfl⟩
      rw [show k = 32 * (k / 32) + k % 32 by omega]
      rcases Nat.eq_or_lt_of_le (show fl ≤ k / 32 by omega) with heq | hgt
      · rw [← heq]
        exact hlevel _ (by omega) (by omega)
      · exact habove _ (by omega) hgt (by rw [hf, BitVec.getLsbD_zero]) _ (by omega)
    · rw [if_neg hf]
      obtain ⟨j, hj32, hffs, hbit, hlow⟩ := exists_tlsfFfs hf
      have hand := getLsbD_and_ones (word mem (p.ctl + 16)) (fl + 1) hj32
      rw [← hflMap, hbit] at hand
      have hboth := (Bool.and_eq_true _ _).mp hand.symm
      have hgt : fl < j := of_decide_eq_true hboth.2
      have hbits := hboth.1
      rw [hI.flBit j] at hbits
      obtain ⟨hj, hne⟩ := of_decide_eq_true hbits
      obtain ⟨i, hi32, hffs', hbit', hlow'⟩ := exists_tlsfFfs hne
      rw [hffs, Int.toNat_natCast, hffs', Int.toNat_natCast]
      obtain ⟨a, hhead, hword⟩ := hI.exists_head hj hi32 hbit'
      refine Or.inl ⟨j, i, a, ⟨hj, hi32, by omega, hhead, ?_⟩, by rw [hword]⟩
      intro k hle hlt
      rw [show k = 32 * (k / 32) + k % 32 by omega]
      rcases Nat.lt_trichotomy (k / 32) j with hkj | hkj | hkj
      · rcases Nat.eq_or_lt_of_le (show fl ≤ k / 32 by omega) with heq | hflk
        · rw [← heq]
          exact hlevel _ (by omega) (by omega)
        · exact habove _ (by omega) hflk (hlow _ hkj) _ (by omega)
      · rw [hkj, hI.eq_nil_iff hj (by omega)]
        exact hlow' _ (by omega)
      · omega
  · rw [if_neg hs]
    obtain ⟨i, hi32, hffs, hbit, hlow⟩ := exists_tlsfFfs hs
    have hand := getLsbD_and_ones (word mem (p.ctl + (20 + 4 * fl))) sl hi32
    rw [← hslMap, hbit] at hand
    have hboth := (Bool.and_eq_true _ _).mp hand.symm
    have hge : sl ≤ i := of_decide_eq_true hboth.2
    rw [hffs, Int.toNat_natCast]
    obtain ⟨a, hhead, hword⟩ := hI.exists_head hfl hi32 hboth.1
    refine Or.inl ⟨fl, i, a, ⟨hfl, hi32, by omega, hhead, ?_⟩, by rw [hword]⟩
    intro k hle hlt
    rw [show k = 32 * fl + (k - 32 * fl) by omega, hI.eq_nil_iff hfl (by omega)]
    have hk := hlow (k - 32 * fl) (by omega)
    have hge' : sl ≤ k - 32 * fl := by omega
    rwa [hslMap, getLsbD_and_ones _ _ (by omega), decide_eq_true hge', Bool.and_true] at hk

end Search

end Filestick.Tlsf
