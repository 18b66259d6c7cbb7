import Chip8.Proofs.Hits

/-!
# Flags under aliasing

The flag is an ordinary register, and instructions that write it may have it as
their operand as well, twice over.  What they write comes from the registers as
they were before: the result goes to its register first and the flag last, so
that the flag is what remains if both are the same register.

`SetsFlagged` says this once for all of them.  What is left for each instruction
is arithmetic on bytes (`toNat_add_carry` and its neighbours).
-/

set_option autoImplicit false

namespace Chip8

/-! ## Arithmetic on bytes -/

namespace Byte

theorem toNat_toUInt8 (b : Bool) : b.toUInt8.toNat = b.toNat := by
  cases b <;> rfl

/-- Sum and carry are the exact sum. -/
theorem toNat_add_carry (a b : UInt8) :
    256 * (decide (255 < a.toNat + b.toNat)).toUInt8.toNat + (a + b).toNat =
      a.toNat + b.toNat := by
  have ha := a.toNat_lt
  have hb := b.toNat_lt
  rw [toNat_toUInt8, UInt8.toNat_add]
  by_cases h : 255 < a.toNat + b.toNat
  · rw [decide_eq_true h, Bool.toNat_true]
    omega
  · rw [decide_eq_false h, Bool.toNat_false]
    omega

/-- A difference is taken modulo 256. -/
theorem toNat_sub_emod (a b : UInt8) :
    ((a - b).toNat : Int) = ((a.toNat : Int) - b.toNat) % 256 := by
  have ha := a.toNat_lt
  have hb := b.toNat_lt
  rw [UInt8.toNat_sub]
  omega

theorem toUInt8_decide (p : Prop) [Decidable p] :
    (decide p).toUInt8 = if p then 1 else 0 := by
  by_cases h : p
  · rw [decide_eq_true h, if_pos h]
    rfl
  · rw [decide_eq_false h, if_neg h]
    rfl

theorem toNat_shiftRight_one (s : UInt8) : (s >>> 1).toNat = s.toNat / 2 :=
  UInt8.toNat_shiftRight s 1

theorem toNat_and_one (s : UInt8) : (s &&& 1).toNat = s.toNat % 2 := by
  rw [UInt8.toNat_and, UInt8.toNat_one, Nat.and_one_is_mod]

theorem toNat_shiftRight_seven (s : UInt8) : (s >>> 7).toNat = s.toNat / 128 := by
  rw [UInt8.toNat_shiftRight, show (7 : UInt8).toNat % 8 = 7 from rfl, Nat.shiftRight_eq_div_pow]

theorem toNat_shiftLeft_one (s : UInt8) : (s <<< 1).toNat = 2 * s.toNat % 256 := by
  have h := UInt8.toNat_shiftLeft s 1
  rw [h, show (1 : UInt8).toNat % 8 = 1 from rfl, Nat.shiftLeft_eq, Nat.pow_one, Nat.mul_comm]

end Byte

/-! ## Registers -/

namespace Cpu

/-- `c'` is `c` with a result in `x` and a flag, and the flag goes first where
they meet.  Nothing else has changed. -/
structure SetsFlagged (c : Cpu) (x : Register) (result flag : UInt8) (c' : Cpu) : Prop where
  flag : c'.reg .flag = flag
  result : x ≠ .flag → c'.reg x = result
  others : ∀ z, z ≠ x → z ≠ .flag → c'.reg z = c.reg z
  rest : c' = { c with registers := c'.registers }

theorem setsFlagged_setWithFlag (c : Cpu) (x : Register) (result flag : UInt8) :
    c.SetsFlagged x result flag (c.setWithFlag x result flag) where
  flag := by
    rw [setWithFlag, reg_setReg, if_pos rfl]
  result := by
    intro hx
    rw [setWithFlag, reg_setReg, if_neg hx.symm, reg_setReg, if_pos rfl]
  others := by
    intro z hz hflag
    rw [setWithFlag, reg_setReg, if_neg hflag.symm, reg_setReg, if_neg hz.symm]
  rest := rfl

/-- The carry and the register together hold the exact sum. -/
theorem setsFlagged_add (c : Cpu) (x y : Register) :
    ∃ result flag, c.SetsFlagged x result flag (c.add x y) ∧
      256 * flag.toNat + result.toNat = (c.reg x).toNat + (c.reg y).toNat :=
  ⟨_, _, c.setsFlagged_setWithFlag x _ _, Byte.toNat_add_carry _ _⟩

/-- The register holds the difference modulo 256, and the flag tells that nothing
was borrowed. -/
theorem setsFlagged_setDifference (c : Cpu) (x : Register) (a b : UInt8) :
    ∃ result flag, c.SetsFlagged x result flag (c.setDifference x a b) ∧
      (result.toNat : Int) = (a.toNat - b.toNat) % 256 ∧
      flag = if b.toNat ≤ a.toNat then 1 else 0 := by
  refine ⟨_, _, c.setsFlagged_setWithFlag x _ _, Byte.toNat_sub_emod a b, ?_⟩
  rw [Byte.toUInt8_decide]
  simp only [UInt8.le_iff_toNat_le]

/-- The flag holds the bit that was dropped at the lower end. -/
theorem setsFlagged_shiftRight (o : Options) (c : Cpu) (x y : Register) :
    ∃ result flag, c.SetsFlagged x result flag (c.shiftRight o x y) ∧ flag.toNat ≤ 1 ∧
      2 * result.toNat + flag.toNat = (c.shiftSource o x y).toNat := by
  refine ⟨_, _, c.setsFlagged_setWithFlag x _ _, ?_, ?_⟩
  · rw [Byte.toNat_and_one]
    omega
  · rw [Byte.toNat_and_one, Byte.toNat_shiftRight_one]
    omega

/-- The flag holds the bit that was dropped at the upper end. -/
theorem setsFlagged_shiftLeft (o : Options) (c : Cpu) (x y : Register) :
    ∃ result flag, c.SetsFlagged x result flag (c.shiftLeft o x y) ∧
      256 * flag.toNat + result.toNat = 2 * (c.shiftSource o x y).toNat := by
  refine ⟨_, _, c.setsFlagged_setWithFlag x _ _, ?_⟩
  have hbyte := (c.shiftSource o x y).toNat_lt
  rw [Byte.toNat_shiftRight_seven, Byte.toNat_shiftLeft_one]
  omega

/-- The sprite that an instruction reads at `I`, byte by byte. -/
def ReadsSprite (c : Cpu) (rows : Nat) (sprite : List UInt8) : Prop :=
  sprite.length = rows ∧ ∀ k, k < rows → sprite[k]? = c.memory.bytes[c.index.toNat + k]?

theorem readsSprite_of_readBlock {c : Cpu} {rows : Nat} {sprite : List UInt8}
    (hrows : rows < UInt64.size) (h : c.readBlock rows = .ok sprite) :
    c.ReadsSprite rows sprite := by
  have hlength := c.length_readBlock hrows h
  refine ⟨hlength, ?_⟩
  intro k hk
  rw [c.readBlock_eq hrows] at h
  split at h
  · rename_i hin
    have hbyte : c.index.toNat + k < 0x1000 := Nat.lt_of_lt_of_le (by omega) hin
    obtain rfl := Except.ok.inj h
    rw [List.getElem?_eq_getElem (by rwa [length_stretch]), Vector.getElem?_eq_getElem hbyte,
      getElem_stretch]
  · cases h

end Cpu

/-! ## Instructions -/

section Execute

variable (o : Options) (byte : UInt8) (c : Cpu) (dev : Devices)

/-- An instruction that is carried out has drawn the bytes at `I`, and the flag
is the collision. -/
theorem execute_draw_of_done {x y : Register} {rows : UInt8}
    (h : (execute o byte (.draw x y rows) c dev).outcome = .done) :
    ∃ sprite, c.ReadsSprite rows.toNat sprite ∧
      execute o byte (.draw x y rows) c dev =
        ⟨.done,
          c.setReg .flag
            (dev.screen.draw sprite (c.reg x).toUInt64 (c.reg y).toUInt64).2.toUInt8,
          { dev with
            screen := (dev.screen.draw sprite (c.reg x).toUInt64 (c.reg y).toUInt64).1 }⟩ := by
  cases hread : c.readBlock rows.toNat with
  | error f =>
      simp only [execute, hread] at h
      cases h
  | ok sprite =>
      exact ⟨sprite, Cpu.readsSprite_of_readBlock (rows_lt rows) hread,
        by simp only [execute, hread]⟩

/-- **Flags are right under aliasing.**  Whichever registers are named, and if
one of them is the flag, or both are: sums, differences and shifts are carried
out and change nothing but the register of the result and the flag.  Both are
given by the values from before.  Sum and carry are the exact sum, a difference
is taken modulo 256 and the flag tells that nothing was borrowed, and the bit
that a shift drops is in the flag.

A sprite that can be drawn consists of the bytes at `I`, and is drawn where the
registers from before say.  Only the flag changes, and tells whether there was a
collision; with 32 rows at most that is whether a set bit hit a pixel that was
lit. -/
theorem flags_hold_under_aliasing (x y : Register) :
    (∃ result flag c', execute o byte (.add x y) c dev = ⟨.done, c', dev⟩ ∧
      c.SetsFlagged x result flag c' ∧
      256 * flag.toNat + result.toNat = (c.reg x).toNat + (c.reg y).toNat) ∧
    (∃ result flag c', execute o byte (.sub x y) c dev = ⟨.done, c', dev⟩ ∧
      c.SetsFlagged x result flag c' ∧
      (result.toNat : Int) = ((c.reg x).toNat - (c.reg y).toNat) % 256 ∧
      flag = if (c.reg y).toNat ≤ (c.reg x).toNat then 1 else 0) ∧
    (∃ result flag c', execute o byte (.subFrom x y) c dev = ⟨.done, c', dev⟩ ∧
      c.SetsFlagged x result flag c' ∧
      (result.toNat : Int) = ((c.reg y).toNat - (c.reg x).toNat) % 256 ∧
      flag = if (c.reg x).toNat ≤ (c.reg y).toNat then 1 else 0) ∧
    (∃ result flag c', execute o byte (.shiftRight x y) c dev = ⟨.done, c', dev⟩ ∧
      c.SetsFlagged x result flag c' ∧ flag.toNat ≤ 1 ∧
      2 * result.toNat + flag.toNat =
        (if o.shiftsReadSecond then c.reg y else c.reg x).toNat) ∧
    (∃ result flag c', execute o byte (.shiftLeft x y) c dev = ⟨.done, c', dev⟩ ∧
      c.SetsFlagged x result flag c' ∧
      256 * flag.toNat + result.toNat =
        2 * (if o.shiftsReadSecond then c.reg y else c.reg x).toNat) ∧
    (∀ rows : UInt8, (execute o byte (.draw x y rows) c dev).outcome = .done →
      ∃ sprite c', c.ReadsSprite rows.toNat sprite ∧
        execute o byte (.draw x y rows) c dev =
          ⟨.done, c', { dev with
            screen := (dev.screen.draw sprite (c.reg x).toUInt64 (c.reg y).toUInt64).1 }⟩ ∧
        (c'.reg .flag =
          if (dev.screen.draw sprite (c.reg x).toUInt64 (c.reg y).toUInt64).2 then 1 else 0) ∧
        (∀ z, z ≠ .flag → c'.reg z = c.reg z) ∧ c' = { c with registers := c'.registers } ∧
        (rows.toNat ≤ 32 →
          (c'.reg .flag = 1 ↔
            ∃ j i, (j < rows.toNat ∧ i < 8) ∧ Sprite.bit sprite j i = true ∧
              dev.screen.pixel ((c.reg x).toUInt64 + UInt64.ofNat i)
                ((c.reg y).toUInt64 + UInt64.ofNat j) = true))) := by
  refine ⟨?_, ?_, ?_, ?_, ?_, ?_⟩
  · obtain ⟨result, flag, hset, hsum⟩ := c.setsFlagged_add x y
    exact ⟨result, flag, _, rfl, hset, hsum⟩
  · obtain ⟨result, flag, hset, hdifference⟩ :=
      c.setsFlagged_setDifference x (c.reg x) (c.reg y)
    exact ⟨result, flag, _, rfl, hset, hdifference⟩
  · obtain ⟨result, flag, hset, hdifference⟩ :=
      c.setsFlagged_setDifference x (c.reg y) (c.reg x)
    exact ⟨result, flag, _, rfl, hset, hdifference⟩
  · obtain ⟨result, flag, hset, hbit⟩ := c.setsFlagged_shiftRight o x y
    exact ⟨result, flag, _, rfl, hset, hbit⟩
  · obtain ⟨result, flag, hset, hbit⟩ := c.setsFlagged_shiftLeft o x y
    exact ⟨result, flag, _, rfl, hset, hbit⟩
  · intro rows hdone
    obtain ⟨sprite, hsprite, heffect⟩ := execute_draw_of_done o byte c dev hdone
    have hflag : ∀ b : Bool, (c.setReg .flag b.toUInt8).reg .flag = if b then 1 else 0 := by
      intro b
      rw [Cpu.reg_setReg, if_pos rfl, Bool.toUInt8]
    refine ⟨sprite, _, hsprite, heffect, hflag _, ?_, rfl, ?_⟩
    · intro z hz
      rw [Cpu.reg_setReg, if_neg hz.symm]
    · intro hrows
      rw [hflag, ← hsprite.1]
      rw [← hsprite.1] at hrows
      rw [← Screen.collided_draw_of_short dev.screen hrows]
      simp

end Execute

/-- A processor whose flag register holds 200, with memory full of rows whose
leftmost bit is set. -/
def Cpu.oneFlag : Cpu :=
  { Cpu.initial with memory := ⟨Vector.replicate 0x1000 0x80⟩ }.setReg .flag 200

/-- Devices whose screen has one pixel lit, where `Cpu.oneFlag` draws at. -/
def Devices.target : Devices :=
  { Devices.initial with screen := Screen.blank.toggle (Cell.wrap 200 200) }

/-- `flags_hold_under_aliasing` where the flag is both operands: it is added to
itself, and a sprite is drawn where it says. -/
theorem flags_hold_under_aliasing_one_flag :
    (execute .standard 0 (.add .flag .flag) .oneFlag .target).cpu.reg .flag = 1 ∧
      (execute .standard 0 (.draw .flag .flag 2) .oneFlag .target).outcome = .done ∧
      (execute .standard 0 (.draw .flag .flag 2) .oneFlag .target).cpu.reg .flag = 1 ∧
      (execute .standard 0 (.draw .flag .flag 2) .oneFlag .target).cpu.reg .offset = 0 := by
  have hdone : (execute .standard 0 (.draw .flag .flag 2) .oneFlag .target).outcome = .done := by
    decide +kernel
  obtain ⟨⟨result, flag, sum, hsum, hset, hexact⟩, -, -, -, -, hdraw⟩ :=
    flags_hold_under_aliasing .standard 0 .oneFlag .target .flag .flag
  obtain ⟨sprite, drawn, ⟨-, hbytes⟩, heffect, -, hothers, -, hflag⟩ := hdraw 2 hdone
  refine ⟨?_, hdone, ?_, ?_⟩
  · have hreg : (Cpu.oneFlag.reg .flag).toNat = 200 := by decide +kernel
    have hresult := result.toNat_lt
    rw [hsum, hset.flag, ← UInt8.toNat_inj, UInt8.toNat_one]
    omega
  · have hrow : sprite[0]? = some 0x80 := (hbytes 0 (by decide)).trans (by decide +kernel)
    have hbit : Sprite.bit sprite 0 0 = true := by
      rw [Sprite.bit, List.getD_eq_getElem?_getD, hrow]
      rfl
    rw [heffect]
    exact (hflag (by decide)).mpr ⟨0, 0, by decide, hbit, by decide +kernel⟩
  · rw [heffect]
    exact (hothers .offset (by decide)).trans (by decide +kernel)

end Chip8
