import Filestick.System.Equiv.Sbrk
import Filestick.System.Malloc

/-!
# The blocks of `calloc`

* `setupMalloc_true`: the pool of the allocator ends at the break.
* `wrapCallocR_eq`, `wrapCallocR_some`: a block for the product as a word, so much of which is 0.
* `wrapCallocR_ok_iff`: that is enough for the members exactly if the product fits into a word.
-/

namespace Filestick.Malloc

open Elf (Addr Mem Brk sysBrk)

variable {A : Allocator} {gp sp : Addr} {s : State} {nmemb size : BitVec 32} {b : Block}

/-! ### The pool -/

theorem sysBrk_programBrk (b : Brk) (gp sp addr : Addr) :
    (sysBrk b gp sp addr).1.programBrk = (sysBrk b gp sp addr).2 := by
  unfold sysBrk
  dsimp only
  split_ifs <;> rfl

/-- **A pool that has been set up** is what lies between the first break and the one now. -/
theorem setupMalloc_true (h : (setupMalloc A gp sp s).2 = true) :
    ∃ bytes : BitVec 32, 0 < bytes.toNat ∧
      (setupMalloc A gp sp s).1.mempool.toNat + bytes.toNat =
        (setupMalloc A gp sp s).1.brk.programBrk.toNat ∧
      (setupMalloc A gp sp s).1.mem =
        (A.sysMallocInit s.mem (setupMalloc A gp sp s).1.mempool bytes).1 := by
  have hbrk := sysBrk_programBrk (sysBrk s.brk gp sp 0#32).1 gp sp defaultBrk
  unfold setupMalloc at h ⊢
  dsimp only at h ⊢
  generalize sysBrk s.brk gp sp 0#32 = start at *
  generalize sysBrk start.1 gp sp defaultBrk = actual at *
  split_ifs at h ⊢ with hlt hpool
  refine ⟨actual.2 - start.2, ?_, ?_, rfl⟩
  · bv_omega
  · rw [hbrk]
    bv_omega

/-- The next call tries it again. -/
theorem setupMalloc_false (h : (setupMalloc A gp sp s).2 = false) :
    (setupMalloc A gp sp s).1.mempool = 0#32 := by
  unfold setupMalloc at h ⊢
  dsimp only at h ⊢
  split_ifs at h ⊢ <;> rfl

/-! ### The blocks -/

theorem memset_apply (mem : Mem) (s : Addr) (c : BitVec 8) (n : BitVec 32) {k : ℕ}
    (hk : k < n.toNat) : memset mem s c n (s + BitVec.ofNat 32 k) = c := by
  have hlen : (List.replicate n.toNat c).length = n.toNat := List.length_replicate
  have hfits : (List.replicate n.toNat c).length ≤ 2 ^ 32 := by
    rw [hlen]
    exact n.isLt.le
  have hholds := Ring.holds_writeAll mem s hfits
  rw [memset, hholds k (hlen.symm ▸ hk), List.getElem_replicate]

theorem wrapMallocR_room (h : (wrapMallocR A gp sp s size).2 = some b) : size.toNat ≤ b.room := by
  unfold wrapMallocR at h
  dsimp only at h
  split_ifs at h
  obtain ⟨b', -, rfl⟩ := Option.map_eq_some_iff.mp h
  exact b'.property

/-- **`calloc` is `malloc` of the product as a word**, with a `memset` behind it. -/
theorem wrapCallocR_eq (A : Allocator) (gp sp : Addr) (s : State) (nmemb size : BitVec 32) :
    wrapCallocR A gp sp s nmemb size =
      match wrapMallocR A gp sp s (nmemb * size) with
      | (s', some b) => ({ s' with mem := memset s'.mem b.ptr 0#8 (nmemb * size) }, some b)
      | (s', none) => (s', none) := by
  cases hpool : (ensurePool A gp sp s).2 with
  | false => simp [wrapCallocR, wrapMallocR, hpool]
  | true =>
    cases hm : (A.sysMalloc (ensurePool A gp sp s).1.mem (ensurePool A gp sp s).1.mempool
        (nmemb * size)).2 with
    | none => simp [wrapCallocR, wrapMallocR, hpool, hm]
    | some b => simp [wrapCallocR, wrapMallocR, hpool, hm]

/-- A block has room for the product as a word, and so much of it is 0. -/
theorem wrapCallocR_some (h : (wrapCallocR A gp sp s nmemb size).2 = some b) :
    (nmemb * size).toNat ≤ b.room ∧ ∀ k, k < (nmemb * size).toNat →
      (wrapCallocR A gp sp s nmemb size).1.mem (b.ptr + BitVec.ofNat 32 k) = 0#8 := by
  rw [wrapCallocR_eq] at h ⊢
  rcases hm : wrapMallocR A gp sp s (nmemb * size) with ⟨s', _ | b'⟩
  · rw [hm] at h
    exact nomatch h
  · rw [hm] at h
    obtain rfl := Option.some.inj h
    exact ⟨wrapMallocR_room (congrArg Prod.snd hm), fun k hk => memset_apply _ _ _ _ hk⟩

/-- **No less than the members need**: a block has room for them, and they are 0. -/
def CallocOk (r : State × Option Block) (nmemb size : BitVec 32) : Prop :=
  ∀ b, r.2 = some b → nmemb.toNat * size.toNat ≤ b.room ∧
    ∀ k, k < nmemb.toNat * size.toNat → r.1.mem (b.ptr + BitVec.ofNat 32 k) = 0#8

theorem callocOk_of_lt (h : nmemb.toNat * size.toNat < 2 ^ 32) :
    CallocOk (wrapCallocR A gp sp s nmemb size) nmemb size := by
  intro b hb
  have hbytes : (nmemb * size).toNat = nmemb.toNat * size.toNat := by
    rw [BitVec.toNat_mul, Nat.mod_eq_of_lt h]
  rw [← hbytes]
  exact wrapCallocR_some hb

/-- An allocator that gives no more than it is asked for. -/
def tight : Allocator where
  sysMallocInit mem pool _ := (mem, pool)
  sysMalloc mem _ bytes := (mem, some ⟨⟨0x10000#32, bytes.toNat, by decide⟩, le_rfl⟩)

/-- A pool at `0x10000`, in an empty memory. -/
def pooled : State := ⟨0x10000#32, ⟨0x21400#32, 0x10000#32⟩, fun _ => 0#8⟩

theorem tight_room (gp sp : Addr) (nmemb size : BitVec 32) :
    ∃ b, (wrapCallocR tight gp sp pooled nmemb size).2 = some b ∧ b.room = (nmemb * size).toNat :=
  ⟨_, rfl, rfl⟩

theorem not_callocOk_tight (h : 2 ^ 32 ≤ nmemb.toNat * size.toNat) :
    ¬CallocOk (wrapCallocR tight gp sp pooled nmemb size) nmemb size := by
  intro hok
  obtain ⟨b, hb, hroom⟩ := tight_room gp sp nmemb size
  have hle := (hok b hb).1
  have hlt := (nmemb * size).isLt
  omega

/-- **`calloc` gives enough**, whatever the allocator does, exactly if the product fits into a
word. -/
theorem wrapCallocR_ok_iff (nmemb size : BitVec 32) :
    (∀ (A : Allocator) (gp sp : Addr) (s : State),
      CallocOk (wrapCallocR A gp sp s nmemb size) nmemb size) ↔
      nmemb.toNat * size.toNat < 2 ^ 32 := by
  constructor
  · intro hok
    by_contra hge
    exact not_callocOk_tight (Nat.not_lt.mp hge) (hok tight 0#32 0#32 pooled)
  · intro h A gp sp s
    exact callocOk_of_lt h

/-- More than `2^31` members of two bytes get a block of two bytes. -/
theorem two_bytes_for_all : (∃ b, b.room = 2 ∧
      (wrapCallocR tight 0x10100#32 0x21BE0#32 pooled 0x80000001#32 2#32).2 = some b) ∧
    ¬CallocOk (wrapCallocR tight 0x10100#32 0x21BE0#32 pooled 0x80000001#32 2#32) 0x80000001#32
      2#32 := by
  obtain ⟨b, hb, hroom⟩ := tight_room 0x10100#32 0x21BE0#32 0x80000001#32 2#32
  exact ⟨⟨b, hroom.trans (by decide), hb⟩, not_callocOk_tight (by decide)⟩

end Filestick.Malloc
