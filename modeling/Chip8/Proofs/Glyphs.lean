import Chip8.Proofs.Bounds
import Chip8.Proofs.Stores

/-!
# Glyphs can always be drawn

The glyphs lie in the reserved part of memory, right below the programs.  They
are put there once, and nothing looks after them from then on: they are found at
an address that is computed from a register, and read as any other sprite.  So
a glyph is what it was as long as no byte of the area is written over, and a
program that is loaded does not reach that far down (`hasGlyphs_performAll`).
-/

set_option autoImplicit false

namespace Chip8

/-! ## Places -/

namespace Font

theorem address_bounds (v : UInt8) :
    start ≤ (address v).toNat ∧ (address v).toNat + height ≤ limit := by
  have hdigit : v.toNat % 16 < 16 := Nat.mod_lt _ (by decide)
  rw [toNat_address]
  simp only [start, limit, height]
  omega

/-- Glyphs of different digits do not overlap. -/
theorem address_disjoint {v w : UInt8} (h : v.toNat % 16 ≠ w.toNat % 16) :
    (address v).toNat + height ≤ (address w).toNat ∨
      (address w).toNat + height ≤ (address v).toNat := by
  rw [toNat_address, toNat_address]
  simp only [height]
  omega

/-- The rows of a glyph in the image of all of them. -/
theorem getElem?_image (d : Fin 16) (k : Fin height) :
    image[height * d.val + k.val]? = (glyph d)[k.val]? := by
  revert d k
  decide

end Font

/-! ## Contents -/

namespace Memory

/-- The area of the glyphs is as it was before any program was loaded. -/
def HasGlyphs (m : Memory) : Prop :=
  ∀ (a : Nat) (h : a < 0x1000), Font.start ≤ a → a < Font.limit →
    m.bytes[a] = initial.bytes[a]

/-- A row of a glyph, where the glyphs are. -/
theorem HasGlyphs.row {m : Memory} (h : m.HasGlyphs) (d : Fin 16) {k : Nat}
    (hk : k < (Font.glyph d).length)
    (hin : Font.start + (Font.height * d.val + k) < 0x1000) :
    m.bytes[Font.start + (Font.height * d.val + k)] = (Font.glyph d)[k] := by
  have himage := Font.getElem?_image d ⟨k, Font.length_glyph d ▸ hk⟩
  rw [List.getElem?_eq_getElem hk] at himage
  obtain ⟨hinside, hrow⟩ := List.getElem?_eq_some_iff.mp himage
  have hlimit : Font.start + (Font.height * d.val + k) < Font.limit := by
    rw [Font.length_image] at hinside
    simp only [Font.start, Font.limit, Font.height] at hinside ⊢
    omega
  rw [h _ hin (Nat.le_add_right _ _) hlimit]
  exact (getElem_overlay_of_inside hinside hin).trans hrow

/-- What is read at the address of a glyph is the glyph. -/
theorem HasGlyphs.stretch_address {m : Memory} (h : m.HasGlyphs) (v : UInt8)
    (hin : (Font.address v).toNat + Font.height ≤ 0x1000) :
    stretch m.bytes (Font.address v).toNat Font.height hin =
      Font.glyph (Key.ofByte v) := by
  refine List.ext_getElem (by simp) ?_
  intro k hk hrow
  rw [length_stretch] at hk
  have haddress : (Font.address v).toNat + k =
      Font.start + (Font.height * (Key.ofByte v).val + k) := by
    rw [Font.toNat_address, Nat.add_assoc]
    rfl
  rw [getElem_stretch _ _ _ _ _ _ (by omega)]
  simp only [haddress]
  exact h.row (Key.ofByte v) hrow (by omega)

end Memory

/-! ## Drawing -/

theorem readBlock_glyph {c : Cpu} {v : UInt8} (h : c.memory.HasGlyphs)
    (hindex : c.index = Font.address v) :
    c.readBlock Font.height = .ok (Font.glyph (Key.ofByte v)) := by
  have hin : (Font.address v).toNat + Font.height ≤ Memory.size :=
    Nat.le_trans (Font.address_bounds v).2 (by decide)
  rw [← hindex] at hin
  rw [c.readBlock_eq (by decide), dif_pos hin, Except.ok.injEq]
  simp only [hindex]
  exact h.stretch_address v _

/-- To put the address of a glyph into `I` and to draw five rows is to draw the glyph. -/
theorem execute_draw_glyph (o : Options) (byte : UInt8) {c : Cpu} {v : UInt8}
    (h : c.memory.HasGlyphs) (hindex : c.index = Font.address v) (p q : Register)
    (dev : Devices) :
    execute o byte (.draw p q 5) c dev =
      ⟨.done,
        c.setReg .flag (dev.screen.draw (Font.glyph (Key.ofByte v))
          (c.reg p).toUInt64 (c.reg q).toUInt64).2.toUInt8,
        { dev with screen := (dev.screen.draw (Font.glyph (Key.ofByte v))
          (c.reg p).toUInt64 (c.reg q).toUInt64).1 }⟩ := by
  have hread : c.readBlock (5 : UInt8).toNat = .ok (Font.glyph (Key.ofByte v)) :=
    readBlock_glyph h hindex
  simp only [execute, hread]

/-! ## A run -/

namespace Ensemble

variable {ι ε : Type} [DecidableEq ι]

/-- A program does not reach down to the glyphs, so only what it writes can
damage them. -/
theorem hasGlyphs_performAll {o : ι → Options} {cpu : ι → Cpu} {d : Devices}
    {acts : List (Act ι ε)} {j : ι} {program : List UInt8} {log : List Notice}
    (hload : Cpu.initial.load program = .ok (cpu j, log))
    (hquiet : ∀ deed ∈ deeds o j (start cpu d) acts,
      ∀ a, Font.start ≤ a → a < Font.limit → ¬ deed.Writes a) :
    (((start cpu d).performAll o acts).runners j).cpu.memory.HasGlyphs := by
  intro a ha hlow hhigh
  calc (((start cpu d).performAll o acts).runners j).cpu.memory.bytes[a]
      = (cpu j).memory.bytes[a] :=
        byte_performAll ha fun deed hdeed => hquiet deed hdeed a hlow hhigh
    _ = Memory.initial.bytes[a] := Cpu.byte_of_load_below hload hhigh ha

/-- **Glyphs can always be drawn.**  A program is loaded into a new processor,
which runs among others and their surroundings, in any order.  While no byte from
`0x1B0` to `0x1FF` has been written over, whatever the registers hold by now, the
two instructions that draw the glyph of a register succeed: the first puts the
address of the glyph into `I`, and the second draws the five rows of the digit,
the low nibble of the register, with the collision in the flag, where it reads as one
or zero.

A program that is loaded, over whatever was in memory, changes no byte below
`0x200`.  The glyphs lie between these addresses and do not overlap. -/
theorem glyphs_can_always_be_drawn (o : ι → Options) (cpu : ι → Cpu) (d : Devices)
    (acts : List (Act ι ε)) (j : ι) (program : List UInt8) (log : List Notice)
    (hload : Cpu.initial.load program = .ok (cpu j, log))
    (hquiet : ∀ deed ∈ deeds o j (start cpu d) acts,
      ∀ a, 0x1B0 ≤ a → a < 0x200 → ¬ deed.Writes a) :
    (∀ (op : Options) (byte byte' : UInt8) (c : Cpu) (x p q : Register) (dev dev' : Devices),
      c.memory = (((start cpu d).performAll o acts).runners j).cpu.memory →
      execute op byte (.glyph x) c dev =
          ⟨.done, { c with index := Font.address (c.reg x) }, dev⟩ ∧
        execute op byte' (.draw p q 5) { c with index := Font.address (c.reg x) } dev' =
          ⟨.done,
            ({ c with index := Font.address (c.reg x) } : Cpu).setReg .flag
              (dev'.screen.draw (Font.glyph (Key.ofByte (c.reg x)))
                (c.reg p).toUInt64 (c.reg q).toUInt64).2.toUInt8,
            { dev' with
              screen := (dev'.screen.draw (Font.glyph (Key.ofByte (c.reg x)))
                (c.reg p).toUInt64 (c.reg q).toUInt64).1 }⟩ ∧
        (execute op byte' (.draw p q 5) { c with index := Font.address (c.reg x) } dev').cpu.reg
            .flag =
          if (dev'.screen.draw (Font.glyph (Key.ofByte (c.reg x)))
            (c.reg p).toUInt64 (c.reg q).toUInt64).2 then 1 else 0) ∧
    (∀ (c c' : Cpu) (bytes : List UInt8) (told : List Notice), c.load bytes = .ok (c', told) →
      ∀ (a : Nat) (_ : a < 0x200), c'.memory.bytes[a] = c.memory.bytes[a]) ∧
    (∀ v w : UInt8, 0x1B0 ≤ (Font.address v).toNat ∧ (Font.address v).toNat + 5 ≤ 0x200 ∧
      (v.toNat % 16 ≠ w.toNat % 16 →
        (Font.address v).toNat + 5 ≤ (Font.address w).toNat ∨
          (Font.address w).toNat + 5 ≤ (Font.address v).toNat)) := by
  refine ⟨?_, ?_, ?_⟩
  · intro op byte byte' c x p q dev dev' hmemory
    have hglyphs : c.memory.HasGlyphs := by
      rw [hmemory]
      exact hasGlyphs_performAll hload hquiet
    have hdraw := execute_draw_glyph (c := { c with index := Font.address (c.reg x) }) op byte'
      hglyphs rfl p q dev'
    refine ⟨rfl, hdraw, ?_⟩
    rw [hdraw, Cpu.reg_setReg, if_pos rfl]
    rfl
  · intro c c' bytes told hbytes a ha
    exact Cpu.byte_of_load_below hbytes ha (by omega)
  · intro v w
    obtain ⟨hlow, hhigh⟩ := Font.address_bounds v
    exact ⟨hlow, hhigh, Font.address_disjoint⟩

/-- Digits are stored right below the first glyph. -/
def neighbour : List UInt8 :=
  [0xA1, 0xAD, 0xF0, 0x33]

theorem load_neighbour : ∃ c log, Cpu.initial.load neighbour = .ok (c, log) ∧ c.pc = 0x200 ∧
    Holds c 0x200 (.setIndex 0x1AD) ∧ Holds c 0x202 (.storeDigits .offset) := by
  refine ⟨_, _, rfl, rfl, ?_, ?_⟩
  · exact holds_of_loaded 0 rfl rfl (by decide) (by decide) (by decide)
  · exact holds_of_loaded 2 rfl rfl (by decide) (by decide) (by decide)

/-- The processor sets `I`, and stores. -/
def settling : List (Act Unit Unit) :=
  List.replicate 2 (.advance () 0) ++ List.replicate 2 (.advance () 0)

/-- The glyph of the digit `F`, which lies next to the program, after the digits
were stored. -/
theorem glyphs_can_always_be_drawn_neighbour :
    ∃ c log, Cpu.initial.load neighbour = .ok (c, log) ∧
      ∀ (x p q : Register) (dev : Devices) (r : Cpu), r.reg x = 0x2F →
        r.memory = (((start (fun _ => c) .initial).performAll (fun _ => .standard)
          settling).runners ()).cpu.memory →
        (execute .standard 0 (.draw p q 5) { r with index := Font.address (r.reg x) }
            dev).devices.screen =
          (dev.screen.draw [0xF0, 0x80, 0xF0, 0x80, 0x80] (r.reg p).toUInt64
            (r.reg q).toUInt64).1 ∧
        (execute .standard 0 (.draw p q 5) { r with index := Font.address (r.reg x) }
            dev).cpu.reg .flag =
          if (dev.screen.draw [0xF0, 0x80, 0xF0, 0x80, 0x80] (r.reg p).toUInt64
            (r.reg q).toUInt64).2 then 1 else 0 := by
  obtain ⟨c, log, hload, hpc, hset, hstore⟩ := load_neighbour
  have hstarts : { c with pc := 0x200 } = c := by rw [← hpc]
  rw [Holds, hstarts] at hset
  have hnext : ({ c.advance with index := 0x1AD } : Cpu).current =
      .ok (.storeDigits .offset) := by
    simp only [Cpu.advance, hpc]
    exact hstore
  have hquiet : ∀ deed ∈ deeds (fun _ => .standard) () (start (fun _ => c) .initial) settling,
      ∀ a, 0x1B0 ≤ a → a < 0x200 → ¬ deed.Writes a := by
    rintro deed hdeed a hlow - ⟨-, hle, hlt⟩
    rw [settling, deeds_append, deeds_pair _ rfl hset, performAll_pair _ rfl hset rfl,
      deeds_pair _ rfl hnext, List.mem_append, List.mem_singleton, List.mem_singleton] at hdeed
    rcases hdeed with rfl | rfl
    · exact absurd hle (Nat.not_le.mpr hlt)
    · have hend : a < 0x1AD + 3 := hlt
      omega
  refine ⟨c, log, hload, ?_⟩
  intro x p q dev r hreg hmemory
  obtain ⟨-, hdraw, hflag⟩ := (glyphs_can_always_be_drawn (fun _ => .standard) (fun _ => c) .initial
    settling () neighbour log hload hquiet).1 .standard 0 0 r x p q dev dev hmemory
  constructor
  · rw [hdraw, hreg]
    rfl
  · rw [hflag, hreg]
    rfl

end Ensemble

end Chip8
