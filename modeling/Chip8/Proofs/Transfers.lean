import Chip8.Proofs.Frame

/-!
# Blocks that are stored and loaded again

Programs save their registers with block transfers, several blocks in a row, and
get them back the same way.  Between two transfers a program may do what it likes
with the registers and with all else but the memory and `I`; and `I` goes behind
the block before the next transfer comes, either on its own or because the program
moves it there.  So of one transfer the next one finds the memory and `I`, which a
`Cursor` holds, and the rest of the processor and the devices are arbitrary
(`Transfer`).

Blocks that are stored in a row are one block that is stored, put together from
all of them (`after_stores`).  Each load then finds the bytes that were stored by
its counterpart, as no other block reaches into them (`getElem?_blocks`).
-/

set_option autoImplicit false

namespace Chip8

/-! ## Stretches of a vector that meet -/

section Overlay

variable {α : Type} {n : Nat}

theorem overlay_append (v : Vector α n) (start : Nat) (xs ys : List α) :
    overlay v start (xs ++ ys) = overlay (overlay v start xs) (start + xs.length) ys := by
  induction xs generalizing v start with
  | nil => rfl
  | cons x xs ih =>
      have hstart : start + (x :: xs).length = start + 1 + xs.length := by
        rw [List.length_cons]
        omega
      rw [hstart]
      exact ih _ _

/-- Inside the written range stand the written values. -/
theorem getElem?_overlay_of_inside {v : Vector α n} {start k : Nat} {xs : List α} {x : α}
    (hk : xs[k]? = some x) (h : start + xs.length ≤ n) :
    (overlay v start xs)[start + k]? = some x := by
  obtain ⟨hlt, rfl⟩ := List.getElem?_eq_some_iff.mp hk
  have hin : start + k < n := by omega
  rw [Vector.getElem?_eq_getElem hin, getElem_overlay_of_inside hlt]

theorem getElem?_overlay_of_outside {v : Vector α n} {start i : Nat} {xs : List α}
    (h : ¬(start ≤ i ∧ i < start + xs.length)) : (overlay v start xs)[i]? = v[i]? := by
  by_cases hi : i < n
  · rw [Vector.getElem?_eq_getElem hi, Vector.getElem?_eq_getElem hi,
      getElem_overlay_of_outside hi (by omega)]
  · rw [Vector.getElem?_eq_none (by omega), Vector.getElem?_eq_none (by omega)]

end Overlay

/-! ## Transfers in a row -/

/-- A memory, and the address in it at which the next transfer takes place. -/
structure Cursor where
  memory : Memory
  index : UInt16
  deriving DecidableEq

/-- One block transfer among others: the last of the registers that are moved, and
everything that the transfer finds.  Memory and `I` are not taken from here. -/
structure Transfer where
  last : Register
  cpu : Cpu
  devices : Devices
  byte : UInt8

namespace Transfer

/-- The processor that the transfer finds. -/
def found (t : Transfer) (p : Cursor) : Cpu :=
  { t.cpu with memory := p.memory, index := p.index }

/-- The effect of the transfer, by the instruction of `kind`. -/
def effect (o : Options) (kind : Register → Instruction) (p : Cursor) (t : Transfer) : Effect :=
  execute o t.byte (kind t.last) (t.found p) t.devices

/-- What the next transfer finds.  If this one has left `I` where it was, the
program moves it behind the block. -/
def next (o : Options) (kind : Register → Instruction) (p : Cursor) (t : Transfer) : Cursor where
  memory := (t.effect o kind p).cpu.memory
  index :=
    if o.transfersAdvance then (t.effect o kind p).cpu.index
    else (t.effect o kind p).cpu.index + UInt16.ofNat (Cpu.blockSize t.last)

/-- What is found after several transfers, one after the other. -/
def after (o : Options) (kind : Register → Instruction) (p : Cursor) (ts : List Transfer) :
    Cursor :=
  ts.foldl (next o kind) p

/-- Each of several transfers is carried out. -/
def Succeed (o : Options) (kind : Register → Instruction) (p : Cursor) (ts : List Transfer) :
    Prop :=
  ∀ (i : Nat) (t : Transfer), ts[i]? = some t →
    (t.effect o kind (after o kind p (ts.take i))).outcome = .done

/-- Each of several transfers leaves `I` alone. -/
def KeepIndex (o : Options) (kind : Register → Instruction) (p : Cursor) (ts : List Transfer) :
    Prop :=
  ∀ (i : Nat) (t : Transfer), ts[i]? = some t →
    (t.effect o kind (after o kind p (ts.take i))).cpu.index =
      (after o kind p (ts.take i)).index

/-- The number of bytes that several transfers move. -/
def total : List Transfer → Nat
  | [] => 0
  | t :: ts => (t.last.val + 1) + total ts

/-- The bytes that the transfer moves when it stores. -/
def block (t : Transfer) : List UInt8 :=
  t.cpu.registers.toList.take (Cpu.blockSize t.last)

variable {o : Options} {kind : Register → Instruction} {p : Cursor} {t : Transfer}
  {ts : List Transfer}

theorem total_cons : total (t :: ts) = Cpu.blockSize t.last + total ts := rfl

theorem length_block (t : Transfer) : t.block.length = Cpu.blockSize t.last :=
  Cpu.length_take_blockSize t.cpu t.last

theorem length_blocks (ts : List Transfer) : (ts.flatMap block).length = total ts := by
  induction ts with
  | nil => rfl
  | cons t ts ih => rw [List.flatMap_cons, List.length_append, length_block, ih, total_cons]

theorem getElem?_block {r : Register} (h : r ≤ t.last) : t.block[r.val]? = some (t.cpu.reg r) := by
  have hr : r.val < Cpu.blockSize t.last := Nat.lt_succ_of_le h
  rw [block, List.getElem?_take_of_lt hr, Vector.getElem?_toList,
    Vector.getElem?_eq_getElem r.isLt]
  rfl

/-- A register stands in its block, behind all earlier blocks. -/
theorem getElem?_blocks {i : Nat} {r : Register} (hi : ts[i]? = some t) (hr : r ≤ t.last) :
    (ts.flatMap block)[total (ts.take i) + r.val]? = some (t.cpu.reg r) := by
  induction ts generalizing i with
  | nil => cases hi
  | cons u us ih =>
      rw [List.flatMap_cons]
      cases i with
      | zero =>
          obtain rfl := Option.some.inj hi
          have hlt : r.val < u.block.length := by
            rw [length_block]
            exact Nat.lt_succ_of_le hr
          rw [List.take_zero, show total [] + r.val = r.val from Nat.zero_add _,
            List.getElem?_append_left hlt, getElem?_block hr]
      | succ i =>
          have hback : total (u :: us.take i) + r.val =
              u.block.length + (total (us.take i) + r.val) := by
            rw [total_cons, length_block, Nat.add_assoc]
          rw [List.take_succ_cons, hback, List.getElem?_append_right (Nat.le_add_right _ _),
            Nat.add_sub_cancel_left]
          exact ih hi

/-- How many bytes are moved depends on the sizes of the blocks alone. -/
theorem total_eq_of_lasts {us : List Transfer} (h : us.map last = ts.map last) :
    total us = total ts := by
  induction ts generalizing us with
  | nil => rw [List.map_eq_nil_iff.mp h]
  | cons t ts ih =>
      obtain ⟨u, us, rfl, hlast, hrest⟩ := List.map_eq_cons_iff.mp h
      rw [total, total, hlast, ih hrest]

theorem succeed_cons :
    Succeed o kind p (t :: ts) ↔
      (t.effect o kind p).outcome = .done ∧ Succeed o kind (t.next o kind p) ts := by
  constructor
  · intro h
    exact ⟨h 0 t rfl, fun i u hu => h (i + 1) u hu⟩
  · rintro ⟨hfirst, hrest⟩ i u hu
    cases i with
    | zero =>
        obtain rfl := Option.some.inj hu
        exact hfirst
    | succ i => exact hrest i u hu

theorem Succeed.take (h : Succeed o kind p ts) (i : Nat) : Succeed o kind p (ts.take i) := by
  intro j t hj
  rw [List.getElem?_take] at hj
  split at hj
  · rename_i hlt
    rw [List.take_take, Nat.min_eq_left (Nat.le_of_lt hlt)]
    exact h j t hj
  · cases hj

/-! ## One transfer -/

/-- The two kinds of transfer. -/
def IsTransfer (kind : Register → Instruction) : Prop :=
  kind = .storeRegisters ∨ kind = .loadRegisters

/-- Where a transfer leaves `I`: behind its block, or where it was. -/
theorem toNat_index_effect (hkind : IsTransfer kind)
    (hin : p.index.toNat + Cpu.blockSize t.last ≤ Memory.size) :
    (t.effect o kind p).cpu.index.toNat =
      p.index.toNat + if o.transfersAdvance then Cpu.blockSize t.last else 0 := by
  rcases hkind with rfl | rfl
  · exact toNat_index_of_transfer o t.byte rfl hin
  · exact toNat_index_of_transfer o t.byte rfl hin

/-- The next transfer takes place behind the block. -/
theorem toNat_index_next (hkind : IsTransfer kind)
    (hin : p.index.toNat + Cpu.blockSize t.last ≤ Memory.size) :
    (t.next o kind p).index.toNat = p.index.toNat + Cpu.blockSize t.last := by
  have hindex := toNat_index_effect (o := o) hkind hin
  have hsize : Memory.size = 0x1000 := rfl
  by_cases hmoves : o.transfersAdvance = true
  · rw [if_pos hmoves] at hindex
    simp only [next, hmoves, ↓reduceIte, hindex]
  · rw [if_neg hmoves] at hindex
    have hcount : (UInt16.ofNat (Cpu.blockSize t.last)).toNat = Cpu.blockSize t.last :=
      UInt16.toNat_ofNat_of_lt' (by simp only [UInt16.size]; omega)
    simp only [next, hmoves, Bool.false_eq_true, ↓reduceIte]
    rw [UInt16.toNat_add, hindex, hcount]
    omega

theorem keepIndex_of_fits (hkind : IsTransfer kind) (hstays : o.transfersAdvance = false)
    (hin : p.index.toNat + Cpu.blockSize t.last ≤ Memory.size) :
    (t.effect o kind p).cpu.index = p.index := by
  have hindex := toNat_index_effect (o := o) hkind hin
  rw [hstays] at hindex
  exact UInt16.toNat_inj.mp hindex

theorem memory_store (hin : p.index.toNat + Cpu.blockSize t.last ≤ Memory.size) :
    (t.next o .storeRegisters p).memory =
      ⟨overlay p.memory.bytes p.index.toNat t.block⟩ := by
  have hmemory := execute_memory o t.byte (.storeRegisters t.last) (t.found p) t.devices
  exact hmemory.trans (if_pos hin)

/-- A transfer that is carried out has its block within memory. -/
theorem fits_of_done (hkind : IsTransfer kind) (h : (t.effect o kind p).outcome = .done) :
    p.index.toNat + Cpu.blockSize t.last ≤ Memory.size := by
  rcases hkind with rfl | rfl
  · exact room_of_transfer h rfl
  · exact room_of_transfer h rfl

/-- A block that lies within memory is loaded: the registers up to the last one that
is named hold its bytes, and the others are as they were. -/
theorem effect_load (hin : p.index.toNat + Cpu.blockSize t.last ≤ Memory.size) :
    (t.effect o .loadRegisters p).outcome = .done ∧
      (t.effect o .loadRegisters p).cpu.memory = p.memory ∧
      (∀ r, r ≤ t.last → p.memory.bytes[p.index.toNat + r.val]? =
        some ((t.effect o .loadRegisters p).cpu.reg r)) ∧
      (∀ r, ¬r ≤ t.last → (t.effect o .loadRegisters p).cpu.reg r = t.cpu.reg r) := by
  have hread : (t.found p).readBlock (Cpu.blockSize t.last) =
      .ok (stretch p.memory.bytes p.index.toNat (Cpu.blockSize t.last) hin) :=
    ((t.found p).readBlock_eq (Cpu.blockSize_lt t.last)).trans (dif_pos hin)
  have heffect : t.effect o .loadRegisters p =
      ⟨.done, Cpu.afterTransfer o { t.found p with
        registers := overlay t.cpu.registers 0
          (stretch p.memory.bytes p.index.toNat (Cpu.blockSize t.last) hin) }
        (Cpu.blockSize t.last), t.devices⟩ := by
    simp only [effect, execute, hread]
    rfl
  refine ⟨by rw [heffect], ?_, ?_, ?_⟩
  · rw [heffect, Cpu.memory_afterTransfer]
    rfl
  · intro r hr
    have hlen : r.val <
        (stretch p.memory.bytes p.index.toNat (Cpu.blockSize t.last) hin).length := by
      rw [length_stretch]
      exact Nat.lt_succ_of_le hr
    have hbyte : p.index.toNat + r.val < 0x1000 :=
      Nat.lt_of_lt_of_le (Nat.add_lt_add_left (Nat.lt_succ_of_le hr) _) hin
    rw [Vector.getElem?_eq_getElem hbyte, ← getElem_stretch _ _ _ hin _ hlen hbyte, heffect,
      Cpu.reg_afterTransfer]
    have hfile :
        0 + (stretch p.memory.bytes p.index.toNat (Cpu.blockSize t.last) hin).length ≤ 16 := by
      have := t.last.isLt
      rw [length_stretch, Cpu.blockSize]
      omega
    have hinside : (overlay t.cpu.registers 0
        (stretch p.memory.bytes p.index.toNat (Cpu.blockSize t.last) hin))[0 + r.val]? = some _ :=
      getElem?_overlay_of_inside (List.getElem?_eq_getElem hlen) hfile
    rw [Nat.zero_add, Vector.getElem?_eq_getElem r.isLt] at hinside
    exact hinside.symm
  · intro r hr
    rw [heffect, Cpu.reg_afterTransfer]
    exact Cpu.reg_loaded (c := t.found p) hr (length_stretch _ _ _ hin)

/-! ## Rows of transfers -/

theorem keepIndex_of_succeed (hkind : IsTransfer kind) (hstays : o.transfersAdvance = false)
    (h : Succeed o kind p ts) : KeepIndex o kind p ts :=
  fun i t hi => keepIndex_of_fits hkind hstays (fits_of_done hkind (h i t hi))

/-- Transfers that are carried out have all their blocks within memory, and `I` ends
behind the last of them. -/
theorem toNat_index_after (hkind : IsTransfer kind) (h : Succeed o kind p ts) :
    (after o kind p ts).index.toNat = p.index.toNat + total ts ∧
      (ts ≠ [] → p.index.toNat + total ts ≤ Memory.size) := by
  induction ts generalizing p with
  | nil => exact ⟨rfl, fun hne => absurd rfl hne⟩
  | cons t ts ih =>
      obtain ⟨hfirst, hrest⟩ := succeed_cons.mp h
      have hin := fits_of_done hkind hfirst
      have hnext := toNat_index_next (o := o) hkind hin
      obtain ⟨hindex, hfits⟩ := ih hrest
      rw [hnext, Nat.add_assoc, ← total_cons] at hindex hfits
      refine ⟨hindex, fun _ => ?_⟩
      cases ts with
      | nil => exact hin
      | cons u us => exact hfits nofun

/-- Blocks that are stored in a row are stored as one. -/
theorem memory_after_stores (h : Succeed o .storeRegisters p ts) :
    (after o .storeRegisters p ts).memory =
      ⟨overlay p.memory.bytes p.index.toNat (ts.flatMap block)⟩ := by
  induction ts generalizing p with
  | nil => rfl
  | cons t ts ih =>
      obtain ⟨hfirst, hrest⟩ := succeed_cons.mp h
      have hin := fits_of_done (Or.inl rfl) hfirst
      have hnext := toNat_index_next (o := o) (Or.inl rfl) hin
      have hlast := ih hrest
      rw [memory_store hin, hnext, ← length_block, ← overlay_append, ← List.flatMap_cons] at hlast
      exact hlast

theorem memory_after_loads (h : Succeed o .loadRegisters p ts) :
    (after o .loadRegisters p ts).memory = p.memory := by
  induction ts generalizing p with
  | nil => rfl
  | cons t ts ih =>
      obtain ⟨hfirst, hrest⟩ := succeed_cons.mp h
      have hin := fits_of_done (Or.inr rfl) hfirst
      exact (ih hrest).trans (effect_load hin).2.1

/-- Blocks that lie within memory can be loaded in a row. -/
theorem loads_succeed (hin : p.index.toNat + total ts ≤ Memory.size) :
    Succeed o .loadRegisters p ts := by
  induction ts generalizing p with
  | nil => exact nofun
  | cons t ts ih =>
      rw [total_cons, ← Nat.add_assoc] at hin
      have hfirst := Nat.le_trans (Nat.le_add_right _ _) hin
      refine succeed_cons.mpr ⟨(effect_load hfirst).1, ih ?_⟩
      rwa [toNat_index_next (Or.inr rfl) hfirst]

/-- What is loaded where several blocks were stored, as the same number of registers
from the same place, is the block that was stored there. -/
theorem reg_load_of_stored {q : Cursor} {us : List Transfer} {u : Transfer} {i : Nat}
    (hlast : us.map last = ts.map last) (hi : ts[i]? = some t) (hu : us[i]? = some u)
    (hmemory : q.memory = ⟨overlay p.memory.bytes p.index.toNat (ts.flatMap block)⟩)
    (hindex : q.index.toNat = p.index.toNat + total (us.take i))
    (hin : p.index.toNat + total ts ≤ Memory.size)
    (hdone : (u.effect o .loadRegisters q).outcome = .done) :
    (∀ r, r ≤ t.last → (u.effect o .loadRegisters q).cpu.reg r = t.cpu.reg r) ∧
      ∀ r, ¬r ≤ t.last → (u.effect o .loadRegisters q).cpu.reg r = u.cpu.reg r := by
  have hsame : u.last = t.last := by
    have hmap : (us.map last)[i]? = (ts.map last)[i]? := by rw [hlast]
    rw [List.getElem?_map, List.getElem?_map, hi, hu] at hmap
    exact Option.some.inj hmap
  obtain ⟨-, -, hloaded, hothers⟩ := effect_load (fits_of_done (Or.inr rfl) hdone)
  rw [hsame] at hloaded hothers
  refine ⟨fun r hr => ?_, hothers⟩
  have hstored : q.memory.bytes[q.index.toNat + r.val]? = some (t.cpu.reg r) := by
    have hsizes : total (us.take i) = total (ts.take i) :=
      total_eq_of_lasts (by rw [List.map_take, hlast, List.map_take])
    rw [hmemory, hindex, hsizes, Nat.add_assoc]
    exact getElem?_overlay_of_inside (getElem?_blocks hi hr) (by rw [length_blocks]; exact hin)
  exact Option.some.inj ((hloaded r hr).symm.trans hstored)

end Transfer

/-! ## Decimal digits -/

theorem decimalDigits_bounds (v : UInt8) :
    (v / 100).toNat ≤ 9 ∧ (v / 10 % 10).toNat ≤ 9 ∧ (v % 10).toNat ≤ 9 ∧
      100 * (v / 100).toNat + 10 * (v / 10 % 10).toNat + (v % 10).toNat = v.toNat := by
  have hv := v.toNat_lt
  have hhundred : (100 : UInt8).toNat = 100 := rfl
  have hten : (10 : UInt8).toNat = 10 := rfl
  simp only [UInt8.toNat_div, UInt8.toNat_mod, hhundred, hten]
  omega

/-- The digits that are stored at `I` are loaded from there. -/
theorem digits_of_load {o : Options} {byte : UInt8} {c c' : Cpu} {d : Devices}
    {x : Register} (byte' : UInt8) (d' : Devices)
    (hdone : (execute o byte (.storeDigits x) c d).outcome = .done)
    (hmemory : c'.memory = (execute o byte (.storeDigits x) c d).cpu.memory)
    (hindex : c'.index = (execute o byte (.storeDigits x) c d).cpu.index) :
    (execute o byte' (.loadRegisters (.ofNat 2)) c' d').outcome = .done ∧
      ∀ k v, (Cpu.decimalDigits (c.reg x))[k]? = some v →
        (execute o byte' (.loadRegisters (.ofNat 2)) c' d').cpu.reg (.ofNat k) = v := by
  have hin : c.index.toNat + 3 ≤ Memory.size := room_of_transfer hdone rfl
  rw [execute_storeDigits o byte c d x hin] at hmemory hindex
  have hroom : c'.index.toNat + Cpu.blockSize (.ofNat 2) ≤ Memory.size := by
    rw [hindex]
    exact hin
  obtain ⟨hloads, -, hloaded, -⟩ :=
    Transfer.effect_load (o := o) (t := ⟨.ofNat 2, c', d', byte'⟩)
      (p := ⟨c'.memory, c'.index⟩) hroom
  refine ⟨hloads, fun k v hk => ?_⟩
  obtain ⟨hlt, -⟩ := List.getElem?_eq_some_iff.mp hk
  rw [Cpu.length_decimalDigits] at hlt
  have hle : Register.ofNat k ≤ Register.ofNat 2 := by
    change k % 16 ≤ 2 % 16
    omega
  have hval : (Register.ofNat k).val = k := Nat.mod_eq_of_lt (by omega)
  have hstored : c'.memory.bytes[c'.index.toNat + (Register.ofNat k).val]? = some v := by
    rw [hmemory, hindex, hval]
    exact getElem?_overlay_of_inside hk hin
  exact Option.some.inj ((hloaded (.ofNat k) hle).symm.trans hstored)

/-! ## Round trips -/

namespace Transfer

/-- Back at the address that blocks were stored from. -/
def rewound (o : Options) (p : Cursor) (stores : List Transfer) : Cursor where
  memory := (after o .storeRegisters p stores).memory
  index := p.index

/-- **Blocks come back as they were stored.**  Blocks that are stored in a row from an
address lie there one behind the other, and no other byte of the memory changes.  `I`
ends behind the last block if transfers move it, and otherwise no transfer moves it.

From the same address on, as many registers each time, they can be loaded in a row,
whatever the registers hold by then.  Each load brings back the registers of its block
as they were when it was stored, and leaves the registers behind them alone.

The digits of a byte that were stored at `I` can be loaded as three registers from
there.  They are decimal digits, and those of the byte, also if it came from one of
these registers. -/
theorem blocks_come_back (o : Options) (p : Cursor) (stores loads : List Transfer)
    (hlast : loads.map last = stores.map last) (hdone : Succeed o .storeRegisters p stores) :
    (∀ (i : Nat) (t : Transfer), stores[i]? = some t → ∀ r : Register, r ≤ t.last →
      (after o .storeRegisters p stores).memory.bytes[
        p.index.toNat + total (stores.take i) + r.val]? = some (t.cpu.reg r)) ∧
    (∀ b, ¬(p.index.toNat ≤ b ∧ b < p.index.toNat + total stores) →
      (after o .storeRegisters p stores).memory.bytes[b]? = p.memory.bytes[b]?) ∧
    (o.transfersAdvance = true →
      (after o .storeRegisters p stores).index.toNat = p.index.toNat + total stores) ∧
    (o.transfersAdvance = false → KeepIndex o .storeRegisters p stores) ∧
    Succeed o .loadRegisters (rewound o p stores) loads ∧
    (o.transfersAdvance = true →
      (after o .loadRegisters (rewound o p stores) loads).index.toNat =
        p.index.toNat + total stores) ∧
    (o.transfersAdvance = false → KeepIndex o .loadRegisters (rewound o p stores) loads) ∧
    (∀ (i : Nat) (t u : Transfer) (q : Cursor), stores[i]? = some t → loads[i]? = some u →
      q = after o .loadRegisters (rewound o p stores) (loads.take i) →
      (∀ r, r ≤ t.last → (u.effect o .loadRegisters q).cpu.reg r = t.cpu.reg r) ∧
      ∀ r, ¬r ≤ t.last → (u.effect o .loadRegisters q).cpu.reg r = u.cpu.reg r) ∧
    (∀ (byte byte' : UInt8) (c c' : Cpu) (d d' : Devices) (x : Register),
      (execute o byte (.storeDigits x) c d).outcome = .done →
      c'.memory = (execute o byte (.storeDigits x) c d).cpu.memory →
      c'.index = (execute o byte (.storeDigits x) c d).cpu.index →
      ∃ v0 v1 v2 : UInt8,
        (execute o byte' (.loadRegisters (.ofNat 2)) c' d').outcome = .done ∧
        (execute o byte' (.loadRegisters (.ofNat 2)) c' d').cpu.reg (.ofNat 0) = v0 ∧
        (execute o byte' (.loadRegisters (.ofNat 2)) c' d').cpu.reg (.ofNat 1) = v1 ∧
        (execute o byte' (.loadRegisters (.ofNat 2)) c' d').cpu.reg (.ofNat 2) = v2 ∧
        v0.toNat ≤ 9 ∧ v1.toNat ≤ 9 ∧ v2.toNat ≤ 9 ∧
        100 * v0.toNat + 10 * v1.toNat + v2.toNat = (c.reg x).toNat) := by
  have hmemory := memory_after_stores hdone
  obtain ⟨hindex, hfits⟩ := toNat_index_after (Or.inl rfl) hdone
  have hfits' : ∀ {i : Nat} {t : Transfer}, stores[i]? = some t →
      p.index.toNat + total stores ≤ Memory.size :=
    fun hi => hfits (List.ne_nil_of_mem (List.mem_of_getElem? hi))
  have htotal := total_eq_of_lasts hlast
  have hloads : Succeed o .loadRegisters (rewound o p stores) loads := by
    cases loads with
    | nil => exact nofun
    | cons u us =>
        have hsome : stores ≠ [] := by
          rintro rfl
          cases hlast
        refine loads_succeed ?_
        rw [htotal]
        exact hfits hsome
  refine ⟨?_, ?_, fun _ => hindex, fun hstays => keepIndex_of_succeed (Or.inl rfl) hstays hdone,
    hloads, ?_, fun hstays => keepIndex_of_succeed (Or.inr rfl) hstays hloads, ?_, ?_⟩
  · intro i t hi r hr
    rw [hmemory, Nat.add_assoc]
    exact getElem?_overlay_of_inside (getElem?_blocks hi hr)
      (by rw [length_blocks]; exact hfits' hi)
  · intro b hb
    rw [hmemory]
    exact getElem?_overlay_of_outside (by rwa [length_blocks])
  · intro _
    rw [(toNat_index_after (Or.inr rfl) hloads).1, htotal]
    rfl
  · rintro i t u q hi hu rfl
    have hbefore := hloads.take i
    exact reg_load_of_stored hlast hi hu ((memory_after_loads hbefore).trans hmemory)
      (toNat_index_after (Or.inr rfl) hbefore).1 (hfits' hi) (hloads i u hu)
  · intro byte byte' c c' d d' x hstored hkept hplace
    obtain ⟨hloaded, hregs⟩ := digits_of_load byte' d' hstored hkept hplace
    exact ⟨_, _, _, hloaded, hregs 0 _ rfl, hregs 1 _ rfl, hregs 2 _ rfl,
      decimalDigits_bounds (c.reg x)⟩

/-- A transfer up to a register, with the same value in all registers. -/
def packing (last : Register) (v : UInt8) : Transfer :=
  ⟨last, { Cpu.initial with registers := Vector.replicate 16 v }, .initial, 0⟩

/-- Nineteen bytes before the end of an empty memory. -/
def nearEnd : Cursor :=
  ⟨⟨Vector.replicate 0x1000 0⟩, 0xFED⟩

/-- Three blocks of nineteen bytes together. -/
def packed : List Transfer :=
  [packing (.ofNat 1) 7, packing .flag 8, packing .offset 9]

/-- Loads of the same blocks. -/
def unpacked : List Transfer :=
  [packing (.ofNat 1) 1, packing .flag 2, packing .offset 3]

/-- A processor with 253 in all registers, after the digits of one of them were stored. -/
def counted : Cpu :=
  (execute .standard 0 (.storeDigits .offset) (packing .flag 253).cpu .initial).cpu

/-- `blocks_come_back` for blocks that end with the last byte of memory, on a machine
whose transfers move `I`, and for a byte whose digits are loaded over it. -/
theorem blocks_come_back_near_end :
    Succeed ⟨0, true, false⟩ .storeRegisters nearEnd packed ∧
      (after ⟨0, true, false⟩ .storeRegisters nearEnd packed).memory.bytes[0xFFE]? = some 8 ∧
      (after ⟨0, true, false⟩ .storeRegisters nearEnd packed).memory.bytes[0xFEC]? = some 0 ∧
      (after ⟨0, true, false⟩ .storeRegisters nearEnd packed).index.toNat = 0x1000 ∧
      Succeed ⟨0, true, false⟩ .loadRegisters (rewound ⟨0, true, false⟩ nearEnd packed) unpacked ∧
      ((packing (.ofNat 1) 1).effect ⟨0, true, false⟩ .loadRegisters
        (rewound ⟨0, true, false⟩ nearEnd packed)).cpu.reg (.ofNat 1) = 7 ∧
      ((packing (.ofNat 1) 1).effect ⟨0, true, false⟩ .loadRegisters
        (rewound ⟨0, true, false⟩ nearEnd packed)).cpu.reg (.ofNat 2) = 1 ∧
      (execute .standard 0 (.loadRegisters (.ofNat 2)) counted .initial).outcome = .done := by
  have hdone : Succeed ⟨0, true, false⟩ .storeRegisters nearEnd packed := by
    simp only [packed, succeed_cons]
    exact ⟨by decide +kernel, by decide +kernel, by decide +kernel, nofun⟩
  have hcounted : (execute .standard 0 (.storeDigits .offset) (packing .flag 253).cpu
      .initial).outcome = .done := by decide +kernel
  have hempty : nearEnd.memory.bytes[0xFEC]? = some 0 :=
    Vector.getElem?_replicate.trans (if_pos (by decide))
  obtain ⟨hblocks, hothers, hindex, -, hloads, -, -, hback, -⟩ :=
    blocks_come_back ⟨0, true, false⟩ nearEnd packed unpacked rfl hdone
  obtain ⟨-, -, -, -, -, -, -, -, hdigits⟩ := blocks_come_back .standard nearEnd [] [] rfl nofun
  obtain ⟨hfirst, hkept⟩ := hback 0 _ _ _ rfl rfl rfl
  obtain ⟨-, -, -, hloaded, -⟩ :=
    hdigits 0 0 (packing .flag 253).cpu counted .initial .initial .offset hcounted rfl rfl
  exact ⟨hdone, hblocks 1 _ rfl .flag (by decide), (hothers 0xFEC (by decide)).trans hempty,
    hindex rfl, hloads, hfirst (.ofNat 1) (by decide), hkept (.ofNat 2) (by decide), hloaded⟩

end Transfer

end Chip8
