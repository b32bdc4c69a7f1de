import Filestick.System.Sd
import Filestick.Lib.Poll

/-!
# Reads and writes of the SD card

* `readRes1Loop_eq`, `tokenLoop_eq`, `responseLoop_eq`, `busyLoop_eq`: the loops poll the card, and
  their counters end them.
* `IsRead`, `sdRead_spec`: a read always comes to an end, and a good status stands for blocks that
  the card has sent.
* `Accepts`, `AllAccepted`, `sdWrite_reports_iff`: a write says what has become of it unless all of
  it was accepted, when it says nothing.
-/

namespace Filestick.Sd

open Elf (Addr Mem)
open Filestick.Ring
open Poll (FirstAt poll firstAt_or poll_of_firstAt poll_of_none)

/-! ### The bus -/

/-- The bus once idle bytes have been sent up to the place `k`. -/
def Bus.idleTo (b : Bus) (k : ℕ) : Bus :=
  { b with sent := b.sent ++ List.replicate (k - b.sent.length) 0xFF#8 }

theorem Bus.idleTo_self (b : Bus) : b.idleTo b.sent.length = b := by
  unfold Bus.idleTo
  rw [Nat.sub_self, List.replicate_zero, List.append_nil]

theorem Bus.length_idleTo {b : Bus} {k : ℕ} (h : b.sent.length ≤ k) :
    (b.idleTo k).sent.length = k := by
  unfold Bus.idleTo
  rw [List.length_append, List.length_replicate]
  omega

theorem Bus.idleTo_idleTo {b : Bus} {j k : ℕ} (hj : b.sent.length ≤ j) (hk : j ≤ k) :
    (b.idleTo j).idleTo k = b.idleTo k := by
  have hlen := Bus.length_idleTo hj
  unfold Bus.idleTo at hlen ⊢
  dsimp only at hlen ⊢
  rw [hlen, List.append_assoc, List.replicate_append_replicate]
  congr 3
  omega

theorem Bus.prefix_idleTo (b : Bus) (k : ℕ) : b.sent <+: (b.idleTo k).sent :=
  List.prefix_append _ _

variable {miso : ℕ → BitVec 8}

theorem spiByte_idle (b : Bus) :
    spiByte miso b 0xFF#8 = (miso b.sent.length, b.idleTo (b.sent.length + 1)) := by
  unfold spiByte Bus.idleTo
  rw [Nat.add_sub_cancel_left]
  rfl

theorem le_poll (p : BitVec 8 → Prop) [DecidablePred p] (n : ℕ) (last : BitVec 8) (a : ℕ) :
    a ≤ (poll miso p n last a).2 := by
  induction n generalizing last a with
  | zero => exact le_rfl
  | succ n ih =>
    rw [poll]
    split_ifs
    · exact Nat.le_succ a
    · exact (Nat.le_succ a).trans (ih _ _)

/-- The bus and the last byte after at most `n` idle bytes, which are sent until a byte with `p`
comes back. -/
def polled (miso : ℕ → BitVec 8) (p : BitVec 8 → Prop) [DecidablePred p] (n : ℕ)
    (last : BitVec 8) (b : Bus) : BitVec 8 × Bus :=
  let r := poll miso p n last b.sent.length
  (r.1, b.idleTo r.2)

theorem polled_zero (p : BitVec 8 → Prop) [DecidablePred p] (last : BitVec 8) (b : Bus) :
    polled miso p 0 last b = (last, b) := by
  unfold polled poll
  dsimp only
  rw [b.idleTo_self]

theorem polled_succ (p : BitVec 8 → Prop) [DecidablePred p] (n : ℕ) (last : BitVec 8) (b : Bus) :
    polled miso p (n + 1) last b =
      let r := spiByte miso b 0xFF#8
      if p r.1 then r else polled miso p n r.1 r.2 := by
  rw [spiByte_idle]
  unfold polled
  rw [poll]
  dsimp only
  by_cases hp : p (miso b.sent.length)
  · rw [if_pos hp, if_pos hp]
  · have hlen : (b.idleTo (b.sent.length + 1)).sent.length = b.sent.length + 1 :=
      Bus.length_idleTo (Nat.le_succ _)
    rw [if_neg hp, if_neg hp, hlen, Bus.idleTo_idleTo (Nat.le_succ _) (le_poll p n _ _)]

theorem polled_of_firstAt {p : BitVec 8 → Prop} [DecidablePred p] {n k : ℕ} {b : Bus}
    (h : FirstAt miso p b.sent.length n k) (last : BitVec 8) :
    polled miso p n last b = (miso k, b.idleTo (k + 1)) := by
  unfold polled
  rw [poll_of_firstAt h]

/-! ### The loops -/

theorem readRes1Loop_eq {n : ℕ} : ∀ {fuel : ℕ} {i : BitVec 8} (b : Bus), n + 1 ≤ fuel →
    i.toNat + (n + 1) = 255 →
    readRes1Loop miso fuel i b = some (polled miso (· ≠ 0xFF#8) (n + 1) 0xFF#8 b) := by
  induction n with
  | zero =>
    rintro (_ | fuel) i b hfuel hi
    · exact absurd hfuel (Nat.not_succ_le_zero _)
    · have hlast : 254#8 < i + 1#8 := by bv_omega
      rw [readRes1Loop, polled_succ]
      dsimp only
      by_cases hp : (spiByte miso b 0xFF#8).1 ≠ 0xFF#8
      · rw [if_pos hp, if_pos hp]
      · rw [if_neg hp, if_neg hp, if_pos hlast, polled_zero]
  | succ n ih =>
    rintro (_ | fuel) i b hfuel hi
    · exact absurd hfuel (Nat.not_succ_le_zero _)
    · have hlast : ¬254#8 < i + 1#8 := by bv_omega
      rw [readRes1Loop, polled_succ]
      dsimp only
      by_cases hp : (spiByte miso b 0xFF#8).1 ≠ 0xFF#8
      · rw [if_pos hp, if_pos hp]
      · rw [if_neg hp, if_neg hp, if_neg hlast, not_not.mp hp]
        exact ih _ (by omega) (by bv_omega)

theorem tokenLoop_eq {n : ℕ} : ∀ {fuel : ℕ} {a : BitVec 16} (read : BitVec 8) (b : Bus),
    n < fuel → a.toNat + n = 65534 →
    tokenLoop miso fuel a read b = some (polled miso (· ≠ 0xFF#8) n read b) := by
  induction n with
  | zero =>
    rintro (_ | fuel) a read b hfuel ha
    · exact absurd hfuel (Nat.not_lt_zero _)
    · have hlast : a + 1#16 = 65535#16 := by bv_omega
      rw [tokenLoop, if_pos hlast, polled_zero]
  | succ n ih =>
    rintro (_ | fuel) a read b hfuel ha
    · exact absurd hfuel (Nat.not_lt_zero _)
    · have hlast : a + 1#16 ≠ 65535#16 := by bv_omega
      rw [tokenLoop, if_neg hlast, polled_succ]
      dsimp only
      by_cases hp : (spiByte miso b 0xFF#8).1 ≠ 0xFF#8
      · rw [if_pos hp, if_pos hp]
      · rw [if_neg hp, if_neg hp]
        exact ih _ _ (by omega) (by bv_omega)

theorem responseLoop_eq {n : ℕ} : ∀ {fuel : ℕ} {a : BitVec 16} (read : BitVec 8) (b : Bus),
    n < fuel → a.toNat + n = 65535 →
    responseLoop miso fuel a read b = some (polled miso (· ≠ 0xFF#8) n read b) := by
  induction n with
  | zero =>
    rintro (_ | fuel) a read b hfuel ha
    · exact absurd hfuel (Nat.not_lt_zero _)
    · have hlast : ¬a < 65535#16 := by bv_omega
      rw [responseLoop, if_neg hlast, polled_zero]
  | succ n ih =>
    rintro (_ | fuel) a read b hfuel ha
    · exact absurd hfuel (Nat.not_lt_zero _)
    · have hlast : a < 65535#16 := by bv_omega
      rw [responseLoop, if_pos hlast, polled_succ]
      dsimp only
      by_cases hp : (spiByte miso b 0xFF#8).1 ≠ 0xFF#8
      · rw [if_pos hp, if_pos hp]
      · rw [if_neg hp, if_neg hp]
        exact ih _ _ (by omega) (by bv_omega)

theorem busyLoop_eq {n : ℕ} : ∀ {fuel : ℕ} {a : BitVec 16} (token : BitVec 8) (b : Bus),
    n + 1 ≤ fuel → a.toNat + (n + 1) = 65535 →
    busyLoop miso fuel a token b =
      let r := polled miso (· ≠ 0x00#8) (n + 1) 0x00#8 b
      some (if r.1 ≠ 0x00#8 then token else 0#8, r.2) := by
  induction n with
  | zero =>
    rintro (_ | fuel) a token b hfuel ha
    · exact absurd hfuel (Nat.not_succ_le_zero _)
    · have hlast : a + 1#16 = 65535#16 := by bv_omega
      rw [busyLoop, polled_succ]
      dsimp only
      by_cases hp : (spiByte miso b 0xFF#8).1 ≠ 0x00#8
      · rw [if_pos hp, if_pos hp, if_pos hp]
      · rw [if_neg hp, if_neg hp, if_pos hlast, polled_zero, if_neg hp]
  | succ n ih =>
    rintro (_ | fuel) a token b hfuel ha
    · exact absurd hfuel (Nat.not_succ_le_zero _)
    · have hlast : a + 1#16 ≠ 65535#16 := by bv_omega
      rw [busyLoop, polled_succ]
      dsimp only
      by_cases hp : (spiByte miso b 0xFF#8).1 ≠ 0x00#8
      · rw [if_pos hp, if_pos hp, if_pos hp]
      · rw [if_neg hp, if_neg hp, if_neg hlast, not_not.mp hp]
        exact ih _ _ (by omega) (by bv_omega)

/-- `sd_readres1` looks at up to 255 bytes. -/
theorem sdReadRes1_eq (b : Bus) :
    sdReadRes1 miso b = some (polled miso (· ≠ 0xFF#8) 255 0xFF#8 b) :=
  readRes1Loop_eq b (by norm_num) rfl

/-! ### Reads -/

/-- A block of the card: the command with the argument `addr` is sent from the place `p` on, `R1` is
the byte `r`, and the token is the byte `t`. -/
structure IsRead (miso : ℕ → BitVec 8) (sent : List (BitVec 8)) (addr : BitVec 32) (p r t : ℕ) :
    Prop where
  command_sent : command cmd17 addr <+: sent.drop p
  answered : FirstAt miso (· ≠ 0xFF#8) (p + 6) 255 r
  r1_le : miso r ≤ 1#8
  responded : FirstAt miso (· ≠ 0xFF#8) (r + 1) 65534 t
  token_eq : miso t = 0xFE#8

theorem IsRead.mono {sent sent' : List (BitVec 8)} {addr : BitVec 32} {p r t : ℕ}
    (h : IsRead miso sent addr p r t) (hsent : sent <+: sent') : IsRead miso sent' addr p r t :=
  ⟨h.command_sent.trans (hsent.drop p), h.answered, h.r1_le, h.responded, h.token_eq⟩

/-- The bus once a command has been sent. -/
theorem length_command_sent (b : Bus) (cmd : BitVec 8) (addr : BitVec 32) :
    (spiWrite (spiSetSlave b sdSlaveId) (command cmd addr)).sent.length = b.sent.length + 6 :=
  List.length_append

/-- What `sd_readsingleblk` comes to, once its command has been sent. -/
theorem sdReadSingleBlk_eq (read : BitVec 8) (mem : Mem) (b : Bus) (addr : BitVec 32)
    (buf : Addr) :
    sdReadSingleBlk miso read mem b addr buf =
      let r := polled miso (· ≠ 0xFF#8) 255 0xFF#8
        (spiWrite (spiSetSlave b sdSlaveId) (command cmd17 addr))
      let t := polled miso (· ≠ 0xFF#8) 65534 read r.2
      let d := spiRead miso mem t.2 buf 512 0xFFFFFFFF#32
      some (if r.1 = 0xFF#8 then ⟨r.1, 0xFF#8, mem, r.2⟩
        else if t.1 = 0xFE#8 then
          ⟨r.1, t.1, d.1, (spiByte miso (spiByte miso d.2 0xFF#8).2 0xFF#8).2⟩
        else ⟨r.1, t.1, mem, t.2⟩) := by
  unfold sdReadSingleBlk
  dsimp only
  rw [sdReadRes1_eq]
  generalize polled miso (· ≠ 0xFF#8) 255 0xFF#8
    (spiWrite (spiSetSlave b sdSlaveId) (command cmd17 addr)) = r
  dsimp only [Option.bind_eq_bind, Option.bind_some, Option.pure_def]
  rw [tokenLoop_eq (n := 65534) read r.2 (by norm_num) rfl]
  dsimp only [Option.bind_some]
  split_ifs
  · rfl
  · rfl
  · rfl

theorem spiRead_fst (miso : ℕ → BitVec 8) (mem : Mem) (b : Bus) (buf : Addr) (n : ℕ)
    (wrWord : BitVec 32) :
    (spiRead miso mem b buf n wrWord).1 =
      writeAll mem buf (Overlay.slice miso b.sent.length n) := rfl

theorem prefix_spiRead (miso : ℕ → BitVec 8) (mem : Mem) (b : Bus) (buf : Addr) (n : ℕ)
    (wrWord : BitVec 32) :
    b.sent <+: (spiRead miso mem b buf n wrWord).2.sent := List.prefix_append _ _

theorem prefix_spiByte (miso : ℕ → BitVec 8) (b : Bus) (wrByte : BitVec 8) :
    b.sent <+: (spiByte miso b wrByte).2.sent :=
  List.prefix_append _ _

theorem prefix_polled (miso : ℕ → BitVec 8) (p : BitVec 8 → Prop) [DecidablePred p] (n : ℕ)
    (last : BitVec 8) (b : Bus) :
    b.sent <+: (polled miso p n last b).2.sent := b.prefix_idleTo _

/-- A byte with `p` at the end of the polling is the first one. -/
theorem exists_firstAt_of_polled {p : BitVec 8 → Prop} [DecidablePred p] {n : ℕ} {last : BitVec 8}
    {b : Bus} (hp : p (polled miso p (n + 1) last b).1) :
    ∃ k, FirstAt miso p b.sent.length (n + 1) k ∧
      polled miso p (n + 1) last b = (miso k, b.idleTo (k + 1)) ∧
      (b.idleTo (k + 1)).sent.length = k + 1 := by
  obtain ⟨k, hk⟩ := Poll.exists_firstAt_of_poll hp
  exact ⟨k, hk, polled_of_firstAt hk last, Bus.length_idleTo (hk.le.trans (Nat.le_succ k))⟩

/-- **One block is read**: the call comes back, and a good token behind a good `R1` is the one of a
block that the card has sent. -/
theorem sdReadSingleBlk_spec (read : BitVec 8) (mem : Mem) (b : Bus) (addr : BitVec 32)
    (buf : Addr) :
    ∃ blk, sdReadSingleBlk miso read mem b addr buf = some blk ∧ b.sent <+: blk.bus.sent ∧
      (∀ a, 512 ≤ (a - buf).toNat → blk.mem a = mem a) ∧
      (blk.token = 0xFE#8 → blk.rx ≤ 1#8 → ∃ r t,
        IsRead miso blk.bus.sent addr b.sent.length r t ∧
          Holds blk.mem buf (Overlay.slice miso (t + 1) 512)) := by
  refine ⟨_, sdReadSingleBlk_eq read mem b addr buf, ?_⟩
  have hlen := length_command_sent b cmd17 addr
  have hcommand : b.sent ++ command cmd17 addr =
      (spiWrite (spiSetSlave b sdSlaveId) (command cmd17 addr)).sent := rfl
  generalize spiWrite (spiSetSlave b sdSlaveId) (command cmd17 addr) = b0 at hlen hcommand ⊢
  have hb : b.sent <+: b0.sent := ⟨_, hcommand⟩
  have hsent : command cmd17 addr <+: b0.sent.drop b.sent.length := by
    rw [← hcommand, List.drop_left]
  have hprefix1 := hb.trans (prefix_polled miso (· ≠ 0xFF#8) 255 0xFF#8 b0)
  split_ifs with hrx htoken
  · -- no answer
    have hne : 0xFF#8 ≠ 0xFE#8 := by decide
    exact ⟨hprefix1, fun _ _ => rfl, fun htoken => absurd htoken hne⟩
  · obtain ⟨r, hr, hpolled, hlen1⟩ := exists_firstAt_of_polled (p := (· ≠ 0xFF#8)) hrx
    rw [hpolled] at hprefix1 htoken ⊢
    have hne : (polled miso (· ≠ 0xFF#8) 65534 read (b0.idleTo (r + 1))).1 ≠ 0xFF#8 := by
      rw [htoken]
      decide
    obtain ⟨t, ht, hpolled', hlen2⟩ := exists_firstAt_of_polled (p := (· ≠ 0xFF#8)) hne
    rw [hpolled'] at htoken ⊢
    rw [hlen] at hr
    rw [hlen1] at ht
    have hprefix := ((b0.idleTo (r + 1)).prefix_idleTo (t + 1)).trans
      ((prefix_spiRead miso mem _ buf 512 0xFFFFFFFF#32).trans
        ((prefix_spiByte miso _ 0xFF#8).trans (prefix_spiByte miso _ 0xFF#8)))
    have hsize : (Overlay.slice miso (t + 1) 512).length ≤ 2 ^ 32 := by
      rw [Overlay.length_slice]
      norm_num
    refine ⟨hprefix1.trans hprefix, ?_, ?_⟩
    · intro a ha
      dsimp only
      rw [spiRead_fst, hlen2]
      exact writeAll_outside mem hsize ((Overlay.length_slice _ _ _).le.trans ha)
    · intro _ hle
      refine ⟨r, t, ⟨?_, hr, hle, ht, htoken⟩, ?_⟩
      · exact hsent.trans (((b0.prefix_idleTo (r + 1)).trans hprefix).drop _)
      · dsimp only
        rw [spiRead_fst, hlen2]
        exact holds_writeAll mem buf hsize
  · exact ⟨hprefix1.trans (prefix_polled miso _ _ _ _), fun _ _ => rfl,
      fun hgood => absurd hgood htoken⟩

/-- The loop over the blocks. -/
theorem sdReadLoop_spec (read : BitVec 8) (n : ℕ) :
    ∀ (mem : Mem) (b : Bus) (phys : BitVec 32) (buf : Addr),
      ∃ d, sdReadLoop miso read n mem b phys buf = some d ∧ b.sent <+: d.bus.sent ∧
        (∀ a, 512 * n ≤ (a - buf).toNat → d.mem a = mem a) ∧
        (d.status = some .ok → 512 * n ≤ 2 ^ 32 → ∀ i < n, ∃ p r t, b.sent.length ≤ p ∧
          IsRead miso d.bus.sent (phys + BitVec.ofNat 32 i) p r t ∧
            Holds d.mem (buf + BitVec.ofNat 32 (512 * i)) (Overlay.slice miso (t + 1) 512)) := by
  induction n with
  | zero =>
    intro mem b phys buf
    exact ⟨_, rfl, List.prefix_rfl, fun _ _ => rfl, fun _ _ i hi => absurd hi (Nat.not_lt_zero i)⟩
  | succ n ih =>
    intro mem b phys buf
    obtain ⟨blk, hblk, hprefix, houtside, hread⟩ := sdReadSingleBlk_spec read mem b phys buf
    rw [sdReadLoop, hblk]
    dsimp only [Option.bind_eq_bind, Option.bind_some, Option.pure_def]
    by_cases hbad : blk.token ≠ 0xFE#8 ∨ 1#8 < blk.rx
    · rw [if_pos hbad]
      refine ⟨_, rfl, hprefix, ?_, ?_⟩
      · intro a ha
        exact houtside a (by omega)
      · intro hstatus
        cases hstatus
    · rw [if_neg hbad]
      rw [not_or, not_not, BitVec.not_lt] at hbad
      obtain ⟨d, hd, hprefix', houtside', hblocks⟩ :=
        ih blk.mem blk.bus (phys + 1#32) (buf + 512#32)
      refine ⟨d, hd, hprefix.trans hprefix', ?_, ?_⟩
      · intro a ha
        rw [houtside' a (by bv_omega), houtside a (by omega)]
      · intro hstatus hsize i hi
        cases i with
        | zero =>
          obtain ⟨r, t, hisread, hholds⟩ := hread hbad.1 hbad.2
          refine ⟨b.sent.length, r, t, le_rfl, ?_, ?_⟩
          · rw [BitVec.add_zero]
            exact hisread.mono hprefix'
          · rw [Nat.mul_zero, BitVec.add_zero]
            apply hholds.congr
            intro k hk
            rw [Overlay.length_slice] at hk
            exact houtside' _ (by bv_omega)
        | succ i =>
          obtain ⟨p, r, t, hp, hisread, hholds⟩ :=
            hblocks hstatus (by omega) i (Nat.lt_of_succ_lt_succ hi)
          refine ⟨p, r, t, hprefix.length_le.trans hp, ?_, ?_⟩
          · rw [Nat.add_comm i 1, BitVec.ofNat_add, ← BitVec.add_assoc]
            exact hisread
          · rw [Nat.mul_add, Nat.add_comm (512 * i), BitVec.ofNat_add, ← BitVec.add_assoc]
            exact hholds

/-- **Reads are honest and come to an end**: whatever the card sends, `sd_read` comes back, and
behind a good status, the buffer has the blocks that the card has sent for its commands. -/
theorem sdRead_spec (miso : ℕ → BitVec 8) (lbaOffset : BitVec 32) (read : BitVec 8) (mem : Mem)
    (b : Bus) (buf : Addr) (sector count : BitVec 32) (hbuf : 512 * count.toNat ≤ 2 ^ 32) :
    ∃ d, sdRead miso lbaOffset read mem b buf sector count = some d ∧
      (d.status = some .ok → ∀ i < count.toNat, ∃ p r t, b.sent.length ≤ p ∧
        IsRead miso d.bus.sent (sector + lbaOffset + BitVec.ofNat 32 i) p r t ∧
          Holds d.mem (buf + BitVec.ofNat 32 (512 * i)) (Overlay.slice miso (t + 1) 512)) := by
  obtain ⟨d, hd, -, -, hblocks⟩ :=
    @sdReadLoop_spec miso read count.toNat mem b (sector + lbaOffset) buf
  exact ⟨d, hd, fun hstatus => hblocks hstatus hbuf⟩

/-- A card that answers at once, with a token, and then counts. -/
def countingCard (k : ℕ) : BitVec 8 :=
  if k = 6 then 0x00#8 else if k = 7 then 0xFE#8 else BitVec.ofNat 8 k

theorem countingCard_read :
    ∃ d, sdRead countingCard 0x800#32 0#8 (fun _ => 0#8) ⟨0#8, []⟩ 0x12000#32 5#32 1#32 = some d ∧
      d.status = some .ok ∧
      ∃ p r t, IsRead countingCard d.bus.sent 0x805#32 p r t ∧
        Holds d.mem 0x12000#32 (Overlay.slice countingCard (t + 1) 512) := by
  obtain ⟨d, hd, hblocks⟩ := sdRead_spec countingCard 0x800#32 0#8 (fun _ => 0#8) ⟨0#8, []⟩
    0x12000#32 5#32 1#32 (by norm_num)
  have hstatus : (sdRead countingCard 0x800#32 0#8 (fun _ => 0#8) ⟨0#8, []⟩ 0x12000#32 5#32
      1#32).map Done.status = some (some .ok) := by decide +kernel
  rw [hd] at hstatus
  have hok : d.status = some .ok := Option.some.inj hstatus
  obtain ⟨p, r, t, -, hread, hholds⟩ := hblocks hok 0 (by decide)
  exact ⟨d, hd, hok, p, r, t, hread, hholds⟩

/-! ### Writes -/

/-- The card accepts a block whose command starts at the place `p`: it answers with `R1` 0, accepts
the data, and is not busy any more at the place `e`. -/
def Accepts (miso : ℕ → BitVec 8) (p e : ℕ) : Prop :=
  ∃ r s, FirstAt miso (· ≠ 0xFF#8) (p + 6) 255 r ∧ miso r = 0x00#8 ∧
    FirstAt miso (· ≠ 0xFF#8) (r + 514) 65535 s ∧ miso s &&& 0x1F#8 = 0x05#8 ∧
    FirstAt miso (· ≠ 0x00#8) (s + 1) 65535 e

/-- The card accepts `n` blocks, one behind the other. -/
def AllAccepted (miso : ℕ → BitVec 8) : ℕ → ℕ → Prop
  | 0, _ => True
  | n + 1, p => ∃ e, Accepts miso p e ∧ AllAccepted miso n (e + 1)

theorem Accepts.unique {p e e' : ℕ} (h : Accepts miso p e) (h' : Accepts miso p e') : e = e' := by
  obtain ⟨r, s, hr, -, hs, -, he⟩ := h
  obtain ⟨r', s', hr', -, hs', -, he'⟩ := h'
  obtain rfl := hr.unique hr'
  obtain rfl := hs.unique hs'
  exact he.unique he'

/-- What `sd_writesingleblk` comes to, once its command has been sent. -/
theorem sdWriteSingleBlk_eq (read token : BitVec 8) (mem : Mem) (b : Bus) (addr : BitVec 32)
    (buf : Addr) :
    sdWriteSingleBlk miso read token mem b addr buf =
      let r := polled miso (· ≠ 0xFF#8) 255 0xFF#8
        (spiWrite (spiSetSlave b sdSlaveId) (command cmd24 addr))
      let s := polled miso (· ≠ 0xFF#8) 65535 read
        (spiWrite (spiByte miso r.2 sdStartToken).2 (slice mem buf 512))
      let e := polled miso (· ≠ 0x00#8) 65535 0x00#8 s.2
      some (if r.1 ≠ sdReady then ⟨r.1, token, mem, r.2⟩
        else if s.1 &&& 0x1F#8 = 0x05#8 then
          ⟨r.1, if e.1 ≠ 0x00#8 then s.1 &&& 0x1F#8 else 0#8, mem, e.2⟩
        else ⟨r.1, s.1 &&& 0x1F#8, mem, s.2⟩) := by
  unfold sdWriteSingleBlk
  dsimp only
  rw [sdReadRes1_eq]
  generalize polled miso (· ≠ 0xFF#8) 255 0xFF#8
    (spiWrite (spiSetSlave b sdSlaveId) (command cmd24 addr)) = r
  dsimp only [Option.bind_eq_bind, Option.bind_some, Option.pure_def]
  rw [responseLoop_eq (n := 65535) read _ (by norm_num) rfl]
  dsimp only [Option.bind_some]
  rw [busyLoop_eq (n := 65534) _ _ (by norm_num) rfl]
  dsimp only [Option.bind_some]
  split_ifs
  · rfl
  · rfl
  · rfl
  · rfl

theorem length_data_sent (miso : ℕ → BitVec 8) (b : Bus) (wrByte : BitVec 8) (mem : Mem)
    (buf : Addr) :
    (spiWrite (spiByte miso b wrByte).2 (slice mem buf 512)).sent.length =
      b.sent.length + 513 := by
  unfold spiWrite spiByte
  rw [List.length_append, List.length_append, length_slice]
  rfl

/-- **One block is written**: the call comes back, and says whether the card has accepted it. -/
theorem sdWriteSingleBlk_spec (read token : BitVec 8) (mem : Mem) (b : Bus) (addr : BitVec 32)
    (buf : Addr) :
    ∃ blk, sdWriteSingleBlk miso read token mem b addr buf = some blk ∧
      ((∃ e, Accepts miso b.sent.length e ∧ blk.token = 0x05#8 ∧ blk.rx = 0#8 ∧
          blk.bus.sent.length = e + 1) ∨
        (∀ e, ¬Accepts miso b.sent.length e) ∧ (blk.token ≠ 0x05#8 ∨ blk.rx ≠ 0#8)) := by
  refine ⟨_, sdWriteSingleBlk_eq read token mem b addr buf, ?_⟩
  have hlen := length_command_sent b cmd24 addr
  generalize spiWrite (spiSetSlave b sdSlaveId) (command cmd24 addr) = b0 at hlen ⊢
  by_cases hrx : (polled miso (· ≠ 0xFF#8) 255 0xFF#8 b0).1 ≠ sdReady
  · -- another answer than the one of a card that is ready
    rw [if_pos hrx]
    refine Or.inr ⟨?_, Or.inr hrx⟩
    rintro e ⟨r, s, hr, hready, -⟩
    rw [← hlen] at hr
    rw [polled_of_firstAt hr] at hrx
    exact hrx hready
  · rw [if_neg hrx]
    rw [not_not] at hrx
    have hanswer : (polled miso (· ≠ 0xFF#8) 255 0xFF#8 b0).1 ≠ 0xFF#8 := by
      rw [hrx]
      decide
    obtain ⟨r, hr, hpolled, hlen1⟩ := exists_firstAt_of_polled (p := (· ≠ 0xFF#8)) hanswer
    rw [hpolled] at hrx ⊢
    rw [hlen] at hr
    have hdata := length_data_sent miso (b0.idleTo (r + 1)) sdStartToken mem buf
    rw [hlen1] at hdata
    generalize spiWrite (spiByte miso (b0.idleTo (r + 1)) sdStartToken).2 (slice mem buf 512) = b1
      at hdata ⊢
    by_cases haccepted : (polled miso (· ≠ 0xFF#8) 65535 read b1).1 &&& 0x1F#8 = 0x05#8
    · rw [if_pos haccepted]
      have hresponse : (polled miso (· ≠ 0xFF#8) 65535 read b1).1 ≠ 0xFF#8 := by
        intro heq
        rw [heq] at haccepted
        exact absurd haccepted (by decide)
      obtain ⟨s, hs, hpolled', hlen2⟩ :=
        exists_firstAt_of_polled (p := (· ≠ 0xFF#8)) hresponse
      rw [hpolled'] at haccepted ⊢
      rw [hdata] at hs
      by_cases hdone : (polled miso (· ≠ 0x00#8) 65535 0x00#8 (b1.idleTo (s + 1))).1 ≠ 0x00#8
      · obtain ⟨e, he, hpolled'', hlen3⟩ := exists_firstAt_of_polled (p := (· ≠ 0x00#8)) hdone
        rw [if_pos hdone, hpolled'']
        rw [hlen2] at he
        exact Or.inl ⟨e, ⟨r, s, hr, hrx, hs, haccepted, he⟩, haccepted, hrx, hlen3⟩
      · -- the card is busy for too long
        rw [if_neg hdone]
        have hne : 0#8 ≠ 0x05#8 := by decide
        refine Or.inr ⟨?_, Or.inl hne⟩
        rintro e ⟨r', s', hr', -, hs', -, he⟩
        obtain rfl := hr.unique hr'
        obtain rfl := hs.unique hs'
        rw [← hlen2] at he
        rw [polled_of_firstAt he] at hdone
        exact hdone he.found
    · -- the data are not accepted
      rw [if_neg haccepted]
      refine Or.inr ⟨?_, Or.inl haccepted⟩
      rintro e ⟨r', s, hr', -, hs, hgood, -⟩
      obtain rfl := hr.unique hr'
      have hs' : FirstAt miso (· ≠ 0xFF#8) b1.sent.length 65535 s := by
        rw [hdata]
        exact hs
      rw [polled_of_firstAt hs'] at haccepted
      exact haccepted hgood

/-- The loop over the blocks: it fails at a block that is not accepted, and runs into the end of the
function if there is none. -/
theorem sdWriteLoop_spec (read : BitVec 8) (n : ℕ) :
    ∀ (token : BitVec 8) (mem : Mem) (b : Bus) (phys : BitVec 32) (buf : Addr),
      ∃ d, sdWriteLoop miso read n token mem b phys buf = some d ∧
        (AllAccepted miso n b.sent.length → d.status = none) ∧
        (¬AllAccepted miso n b.sent.length → d.status = some .error) := by
  induction n with
  | zero =>
    intro token mem b phys buf
    exact ⟨_, rfl, fun _ => rfl, fun h => absurd trivial h⟩
  | succ n ih =>
    intro token mem b phys buf
    obtain ⟨blk, hblk, hcases⟩ := sdWriteSingleBlk_spec read token mem b phys buf
    rw [sdWriteLoop, hblk]
    dsimp only [Option.bind_eq_bind, Option.bind_some, Option.pure_def]
    rcases hcases with ⟨e, he, htoken, hrx, hlen⟩ | ⟨hnone, hbad⟩
    · have hgood : ¬(blk.token ≠ 0x05#8 ∨ blk.rx ≠ 0#8) := by
        rw [not_or, not_not, not_not]
        exact ⟨htoken, hrx⟩
      rw [if_neg hgood]
      obtain ⟨d, hd, hall, hsome⟩ := ih blk.token blk.mem blk.bus (phys + 1#32) (buf + 512#32)
      rw [hlen] at hall hsome
      refine ⟨d, hd, ?_, ?_⟩
      · rintro ⟨e', he', hrest⟩
        obtain rfl := he.unique he'
        exact hall hrest
      · intro hnot
        exact hsome fun hrest => hnot ⟨e, he, hrest⟩
    · rw [if_pos hbad]
      refine ⟨_, rfl, ?_, fun _ => rfl⟩
      rintro ⟨e, he, -⟩
      exact absurd he (hnone e)

/-- The status says whether all of the blocks were accepted. -/
def Reports (miso : ℕ → BitVec 8) (n start : ℕ) (status : Option DResult) : Prop :=
  (status = some .ok ↔ AllAccepted miso n start) ∧
    (¬AllAccepted miso n start → status = some .error)

/-- **A write reports its outcome** if and only if it fails. -/
theorem sdWrite_reports_iff (miso : ℕ → BitVec 8) (lbaOffset : BitVec 32) (read token : BitVec 8)
    (mem : Mem) (b : Bus) (buf : Addr) (sector count : BitVec 32) :
    ∃ d, sdWrite miso lbaOffset read token mem b buf sector count = some d ∧
      (Reports miso count.toNat b.sent.length d.status ↔
        ¬AllAccepted miso count.toNat b.sent.length) := by
  obtain ⟨d, hd, hall, hnot⟩ :=
    @sdWriteLoop_spec miso read count.toNat token mem b (sector + lbaOffset) buf
  refine ⟨d, hd, ?_⟩
  constructor
  · rintro ⟨hok, -⟩ hacc
    have hstatus := hok.mpr hacc
    rw [hall hacc] at hstatus
    cases hstatus
  · intro hrej
    have herror := hnot hrej
    refine ⟨iff_of_false ?_ hrej, fun _ => herror⟩
    rw [herror]
    intro heq
    cases heq

/-- A card that accepts the first block. -/
def acceptingCard (k : ℕ) : BitVec 8 :=
  if k = 6 then 0x00#8 else if k = 520 then 0x05#8 else 0xFF#8

/-- **A write that is accepted comes back without a status.** -/
theorem acceptedWrite_silent :
    AllAccepted acceptingCard 1 0 ∧
      ∃ d, sdWrite acceptingCard 0x800#32 0#8 0#8 (fun _ => 0#8) ⟨0#8, []⟩ 0x12000#32 5#32 1#32 =
          some d ∧ d.status = none ∧ ¬Reports acceptingCard 1 0 d.status := by
  have hall : AllAccepted acceptingCard 1 0 := by
    refine ⟨521, ⟨6, 520, ?_, rfl, ?_, rfl, ?_⟩, trivial⟩
    · exact Poll.firstAt_self (by decide) (by decide)
    · exact Poll.firstAt_self (by decide) (by decide)
    · exact Poll.firstAt_self (by decide) (by decide)
  obtain ⟨d, hd, hnone, -⟩ :=
    @sdWriteLoop_spec acceptingCard 0#8 1 0#8 (fun _ => 0#8) ⟨0#8, []⟩ 0x805#32 0x12000#32
  refine ⟨hall, d, hd, hnone hall, ?_⟩
  rintro ⟨hok, -⟩
  have hstatus := hok.mpr hall
  rw [hnone hall] at hstatus
  cases hstatus

end Filestick.Sd
