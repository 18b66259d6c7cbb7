import Chip8.Proofs.Ensemble
import Chip8.Screen.Sprite
import Mathlib.Data.List.Induction

/-!
# No change of the picture is missed

Processors draw on the screen and clear it, and a viewer fetches the picture
from time to time.  Whoever holds the screen does one `Screen.Act` with it, so
any interleaving is a list of acts.

The mark on the screen is set far below the drawing of a sprite, by the flipping
of a single pixel.  `dirty_iff_changed` says what it amounts to in a history of
acts: something marked the screen after the last picture was handed over.  An
act that does not mark the screen changes no pixel either, so an unmarked screen
still shows that last picture.
-/

set_option autoImplicit false

namespace Chip8

/-! ## Sprites without a set bit -/

namespace Sprite

theorem rowCells_eq_nil_iff (row : UInt8) (x y : UInt64) : rowCells row x y = [] ↔ row = 0 := by
  unfold rowCells
  rw [List.map_eq_nil_iff, List.filter_eq_nil_iff]
  constructor
  · intro h
    have hbits : row.toNat = 0 := by
      refine Nat.eq_of_testBit_eq fun i => ?_
      rw [Nat.zero_testBit]
      rcases Nat.lt_or_ge i 8 with hi | hi
      · have hset := h (7 - i) (List.mem_range.mpr (by omega))
        have hback : 7 - (7 - i) = i := by omega
        simpa only [isSet, hback, Bool.not_eq_true] using hset
      · -- A byte has no bits from the eighth on.
        have hbound : row.toNat < 2 ^ 8 := row.toNat_lt
        exact Nat.testBit_lt_two_pow
          (Nat.lt_of_lt_of_le hbound (Nat.pow_le_pow_right (by decide) hi))
    exact UInt8.toNat_inj.mp hbits
  · rintro rfl i -
    simp [isSet]

/-- A sprite comes down to no cell at all if and only if all of its rows are empty. -/
theorem cells_eq_nil_iff (sprite : List UInt8) (x y : UInt64) :
    cells sprite x y = [] ↔ ∀ row ∈ sprite, row = 0 := by
  induction sprite generalizing y with
  | nil => simp [cells]
  | cons row rows ih =>
      rw [cells, List.append_eq_nil_iff, rowCells_eq_nil_iff, ih, List.forall_mem_cons]

end Sprite

namespace Screen

/-! ## One refresh -/

section Refresh

variable {ε : Type} (viewer : Screen → Except ε Unit) {s : Screen}

theorem refresh_of_clean (h : s.dirty = false) : s.refresh viewer = (.idle, s) := by
  simp [refresh, h]

theorem refresh_of_ok {viewer : Screen → Except ε Unit} (h : s.dirty = true)
    (hviewer : viewer s = .ok ()) :
    s.refresh viewer = (.taken s, { s with dirty := false }) := by
  simp [refresh, h, hviewer]

theorem refresh_of_error {viewer : Screen → Except ε Unit} {e : ε} (h : s.dirty = true)
    (hviewer : viewer s = .error e) : s.refresh viewer = (.failed s e, s) := by
  simp [refresh, h, hviewer]

/-- The three ways of a refresh. -/
theorem refresh_cases :
    (s.dirty = false ∧ s.refresh viewer = (.idle, s)) ∨
    (s.dirty = true ∧ viewer s = .ok () ∧
      s.refresh viewer = (.taken s, { s with dirty := false })) ∨
    (∃ e, s.dirty = true ∧ viewer s = .error e ∧ s.refresh viewer = (.failed s e, s)) := by
  cases hdirty : s.dirty with
  | false => exact Or.inl ⟨rfl, refresh_of_clean viewer hdirty⟩
  | true =>
      cases hviewer : viewer s with
      | ok u => exact Or.inr (Or.inl ⟨rfl, rfl, refresh_of_ok hdirty hviewer⟩)
      | error e => exact Or.inr (Or.inr ⟨e, rfl, rfl, refresh_of_error hdirty hviewer⟩)

@[simp] theorem pixels_refresh : (s.refresh viewer).2.pixels = s.pixels := by
  rcases refresh_cases viewer (s := s) with ⟨-, h⟩ | ⟨-, -, h⟩ | ⟨e, -, -, h⟩ <;> rw [h]

end Refresh

/-- The picture that a viewer was shown, if it was shown one. -/
def Refresh.shown? {ε : Type} : Refresh ε → Option Screen
  | .idle => none
  | .taken picture => some picture
  | .failed picture _ => some picture

/-! ## Histories -/

/-- One uninterrupted action on the screen.  A viewer that is shown the picture
may fail with an error. -/
inductive Act (ε : Type) where
  /-- A sprite is drawn. -/
  | draw (sprite : List UInt8) (x y : UInt64)
  /-- The screen is cleared. -/
  | clear
  /-- The picture is made due. -/
  | forceRefresh
  /-- A viewer is shown the picture if it is due. -/
  | refresh (viewer : Screen → Except ε Unit)

namespace Act

variable {ε : Type}

/-- The screen after an act. -/
def apply (a : Act ε) (s : Screen) : Screen :=
  match a with
  | .draw sprite x y => (s.draw sprite x y).1
  | .clear => s.clear
  | .forceRefresh => s.forceRefresh
  | .refresh viewer => (s.refresh viewer).2

/-- The act makes the picture due: it clears the screen, draws a sprite with a
set bit, or asks for just this. -/
def Marks : Act ε → Prop
  | .draw sprite _ _ => ∃ row ∈ sprite, row ≠ 0
  | .clear => True
  | .forceRefresh => True
  | .refresh _ => False

/-- The act hands the picture of a screen over: a viewer takes it. -/
def HandsOver (a : Act ε) (s : Screen) : Prop :=
  ∃ viewer, a = .refresh viewer ∧ (s.refresh viewer).1 = .taken s

/-- The picture is handed over where it is due and a viewer succeeds. -/
theorem handsOver_iff {a : Act ε} {s : Screen} :
    a.HandsOver s ↔ ∃ viewer, a = .refresh viewer ∧ s.dirty = true ∧ viewer s = .ok () := by
  constructor
  · rintro ⟨viewer, rfl, htaken⟩
    rcases refresh_cases viewer (s := s) with ⟨-, h⟩ | ⟨hdirty, hok, -⟩ | ⟨e, -, -, h⟩
    · rw [h] at htaken
      cases htaken
    · exact ⟨viewer, rfl, hdirty, hok⟩
    · rw [h] at htaken
      cases htaken
  · rintro ⟨viewer, rfl, hdirty, hok⟩
    exact ⟨viewer, rfl, congrArg Prod.fst (refresh_of_ok hdirty hok)⟩

/-- A sprite without a set bit leaves the screen as it was. -/
theorem draw_eq_self {s : Screen} {sprite : List UInt8} (h : ¬ ∃ row ∈ sprite, row ≠ 0)
    (x y : UInt64) : (s.draw sprite x y).1 = s := by
  have hzero : ∀ row ∈ sprite, row = 0 := by simpa using h
  rw [Screen.draw, (Sprite.cells_eq_nil_iff sprite x y).mpr hzero, toggleAll_nil]

theorem dirty_draw {s : Screen} {sprite : List UInt8} (h : ∃ row ∈ sprite, row ≠ 0)
    (x y : UInt64) : (s.draw sprite x y).1.dirty = true := by
  have hcells : Sprite.cells sprite x y ≠ [] := by
    intro hnil
    obtain ⟨row, hrow, hne⟩ := h
    exact hne ((Sprite.cells_eq_nil_iff sprite x y).mp hnil row hrow)
  rw [Screen.draw, dirty_toggleAll]
  simp [hcells]

/-- What an act leaves of the mark: it is set by the acts that mark the screen,
and taken back only by a viewer that takes the picture. -/
theorem dirty_apply (a : Act ε) (s : Screen) :
    (a.apply s).dirty = true ↔ a.Marks ∨ (s.dirty = true ∧ ¬ a.HandsOver s) := by
  rw [handsOver_iff]
  cases a with
  | draw sprite x y =>
      by_cases h : ∃ row ∈ sprite, row ≠ 0
      · simp [apply, Marks, h, dirty_draw h]
      · simp [apply, Marks, h, draw_eq_self h]
  | clear => simp [apply, Marks]
  | forceRefresh => simp [apply, Marks]
  | refresh viewer =>
      simp only [apply, Marks, false_or, refresh.injEq, exists_eq_left']
      rcases refresh_cases viewer (s := s) with ⟨hdirty, h⟩ | ⟨hdirty, hok, h⟩ | ⟨e, hdirty, herr, h⟩
      · simp [h, hdirty]
      · simp [h, hok, hdirty]
      · simp [h, herr, hdirty]

/-- An act that does not mark the screen changes no pixel. -/
theorem pixels_apply {a : Act ε} (h : ¬ a.Marks) (s : Screen) :
    (a.apply s).pixels = s.pixels := by
  cases a with
  | draw sprite x y => exact congrArg pixels (draw_eq_self h x y)
  | clear => exact absurd trivial h
  | forceRefresh => exact absurd trivial h
  | refresh viewer => exact pixels_refresh viewer

end Act

/-! ## What the mark amounts to -/

section Histories

variable {ε : Type}

/-- A new screen after several acts, in their order. -/
def after (acts : List (Act ε)) : Screen :=
  acts.foldl (fun s a => a.apply s) blank

/-- No picture is handed over in the course of `acts`, which follow `before`. -/
def Untaken (before acts : List (Act ε)) : Prop :=
  ∀ mid a rest, acts = mid ++ a :: rest → ¬ a.HandsOver (after (before ++ mid))

/-- The screen was marked after the last picture was handed over, or no picture
was handed over since it was new. -/
def Changed (acts : List (Act ε)) : Prop :=
  Untaken [] acts ∨
    ∃ pre a post, acts = pre ++ a :: post ∧ a.Marks ∧ Untaken (pre ++ [a]) post

/-- After `pre` a viewer took the picture, and none did after that. -/
def LastTaken (acts pre : List (Act ε)) (viewer : Screen → Except ε Unit)
    (post : List (Act ε)) : Prop :=
  acts = pre ++ .refresh viewer :: post ∧ (Act.refresh viewer).HandsOver (after pre) ∧
    Untaken (pre ++ [.refresh viewer]) post

theorem after_concat (acts : List (Act ε)) (a : Act ε) :
    after (acts ++ [a]) = a.apply (after acts) := by
  simp [after]

theorem untaken_nil (before : List (Act ε)) : Untaken before [] := by
  intro mid a rest h
  cases mid <;> cases h

/-- An act of a history is the last one, or it is among the others. -/
theorem concat_eq_append_cons {acts pre post : List (Act ε)} {a b : Act ε}
    (h : acts ++ [a] = pre ++ b :: post) :
    (acts = pre ∧ a = b ∧ post = []) ∨ ∃ rest, acts = pre ++ b :: rest ∧ post = rest ++ [a] := by
  rcases List.eq_nil_or_concat post with rfl | ⟨rest, c, rfl⟩
  · obtain ⟨rfl, rfl⟩ := List.append_singleton_inj.mp h
    exact Or.inl ⟨rfl, rfl, rfl⟩
  · rw [List.concat_eq_append, ← List.cons_append, ← List.append_assoc] at h
    obtain ⟨rfl, rfl⟩ := List.append_singleton_inj.mp h
    exact Or.inr ⟨rest, rfl, List.concat_eq_append⟩

/-- Nothing is handed over up to an act, nor by it. -/
theorem untaken_concat {before acts : List (Act ε)} {a : Act ε} :
    Untaken before (acts ++ [a]) ↔
      Untaken before acts ∧ ¬ a.HandsOver (after (before ++ acts)) := by
  constructor
  · intro h
    refine ⟨?_, h acts a [] rfl⟩
    intro mid b rest hacts
    exact h mid b (rest ++ [a]) (by rw [hacts, List.append_assoc, List.cons_append])
  · rintro ⟨hacts, ha⟩ mid b rest h
    rcases concat_eq_append_cons h with ⟨rfl, rfl, -⟩ | ⟨rest', hsplit, -⟩
    · exact ha
    · exact hacts mid b rest' hsplit

/-- What one more act makes of a change: it marks the screen, or the change is
still there because the act hands nothing over. -/
theorem changed_concat {acts : List (Act ε)} {a : Act ε} :
    Changed (acts ++ [a]) ↔ a.Marks ∨ (Changed acts ∧ ¬ a.HandsOver (after acts)) := by
  constructor
  · rintro (hnone | ⟨pre, b, post, hsplit, hmarks, hnone⟩)
    · obtain ⟨hacts, ha⟩ := untaken_concat.mp hnone
      exact Or.inr ⟨Or.inl hacts, ha⟩
    · rcases concat_eq_append_cons hsplit with ⟨-, rfl, -⟩ | ⟨post', rfl, rfl⟩
      · exact Or.inl hmarks
      · obtain ⟨hpost, ha⟩ := untaken_concat.mp hnone
        rw [List.append_assoc, List.singleton_append] at ha
        exact Or.inr ⟨Or.inr ⟨pre, b, post', rfl, hmarks, hpost⟩, ha⟩
  · rintro (hmarks | ⟨hnone | ⟨pre, b, post, rfl, hmarks, hnone⟩, ha⟩)
    · exact Or.inr ⟨acts, a, [], rfl, hmarks, untaken_nil _⟩
    · exact Or.inl (untaken_concat.mpr ⟨hnone, ha⟩)
    · refine Or.inr ⟨pre, b, post ++ [a], by simp, hmarks, untaken_concat.mpr ⟨hnone, ?_⟩⟩
      rwa [List.append_assoc, List.singleton_append]

/-- The mark says that something changed since the last picture was handed over. -/
theorem dirty_iff_changed (acts : List (Act ε)) : (after acts).dirty = true ↔ Changed acts := by
  induction acts using List.reverseRecOn with
  | nil => exact ⟨fun _ => Or.inl (untaken_nil []), fun _ => rfl⟩
  | append_singleton acts a ih => rw [after_concat, Act.dirty_apply, changed_concat, ih]

/-- A screen without the mark shows the picture that was handed over last. -/
theorem pixels_of_clean {acts : List (Act ε)} (h : (after acts).dirty = false) :
    ∃ pre viewer post, LastTaken acts pre viewer post ∧
      (after acts).pixels = (after pre).pixels := by
  induction acts using List.reverseRecOn with
  | nil => cases h
  | append_singleton acts a ih =>
      have hmark := Act.dirty_apply a (after acts)
      rw [← after_concat, h] at hmark
      simp only [Bool.false_eq_true, false_iff, not_or, not_and, not_not] at hmark
      obtain ⟨hno, hkeep⟩ := hmark
      have hpixels : (after (acts ++ [a])).pixels = (after acts).pixels := by
        rw [after_concat, Act.pixels_apply hno]
      by_cases hover : a.HandsOver (after acts)
      · obtain ⟨viewer, rfl, -⟩ := id hover
        exact ⟨acts, viewer, [], ⟨rfl, hover, untaken_nil _⟩, hpixels⟩
      · have hclean : (after acts).dirty = false :=
          Bool.not_eq_true _ ▸ fun hdirty => hover (hkeep hdirty)
        obtain ⟨pre, viewer, post, ⟨hsplit, htaken, hnone⟩, hsame⟩ := ih hclean
        refine ⟨pre, viewer, post ++ [a], ⟨by simp [hsplit], htaken, ?_⟩, hpixels.trans hsame⟩
        refine untaken_concat.mpr ⟨hnone, ?_⟩
        rwa [List.append_assoc, List.singleton_append, ← hsplit]

/-- **No change is missed.**  In every history of a new screen, the mark says
that the screen was marked after the last picture was handed over, or that none
was handed over yet, and a screen without the mark shows the picture that was
handed over last.

A refresh shows the screen to a viewer if and only if the mark is there, and
never changes a pixel.  A viewer that takes the picture takes the mark away; one
that fails leaves the screen as it was, and its error is what comes out. -/
theorem no_change_is_missed :
    (∀ acts : List (Act ε), (after acts).dirty = true ↔ Changed acts) ∧
    (∀ acts : List (Act ε), (after acts).dirty = false →
      ∃ pre viewer post, LastTaken acts pre viewer post ∧
        (after acts).pixels = (after pre).pixels) ∧
    (∀ (s : Screen) (viewer : Screen → Except ε Unit),
      (s.refresh viewer).1.shown? = (if s.dirty = true then some s else none) ∧
      (s.refresh viewer).2.pixels = s.pixels ∧
      (s.dirty = true → viewer s = .ok () →
        s.refresh viewer = (.taken s, { s with dirty := false })) ∧
      (∀ e, s.dirty = true → viewer s = .error e → s.refresh viewer = (.failed s e, s))) := by
  refine ⟨dirty_iff_changed, fun acts => pixels_of_clean, fun s viewer => ?_⟩
  refine ⟨?_, pixels_refresh viewer, refresh_of_ok, fun e => refresh_of_error⟩
  rcases refresh_cases viewer (s := s) with ⟨hdirty, h⟩ | ⟨hdirty, -, h⟩ | ⟨e, hdirty, -, h⟩
  · simp [h, hdirty, Refresh.shown?]
  · simp [h, hdirty, Refresh.shown?]
  · simp [h, hdirty, Refresh.shown?]

/-- A viewer fails, the next one takes the picture, and nothing marks the screen
after that. -/
def fetched : List (Act Unit) :=
  [.draw [0xF0, 0x90] 62 31, .refresh fun _ => .error (), .refresh fun _ => .ok (),
    .draw [0, 0] 3 4, .refresh fun _ => .error ()]

/-- Then a pixel is flipped twice, which leaves the picture as it was. -/
def flicker : List (Act Unit) :=
  fetched ++ [.draw [0x80] 0 0, .draw [0x80] 0 0]

/-- `no_change_is_missed` for a picture that was fetched, for a change that
cannot be seen, and for a viewer of a new screen that fails. -/
theorem no_change_is_missed_flicker :
    (after fetched).dirty = false ∧
      (∃ pre viewer post, LastTaken fetched pre viewer post ∧
        (after fetched).pixels = (after pre).pixels) ∧
      Changed flicker ∧
      blank.refresh (fun _ => .error ()) = (.failed blank (), blank) := by
  obtain ⟨hmark, hclean, hrefresh⟩ := no_change_is_missed (ε := Unit)
  have hfetched : (after fetched).dirty = false := by decide +kernel
  have hflicker : (after flicker).dirty = true := by decide +kernel
  exact ⟨hfetched, hclean fetched hfetched, (hmark flicker).mp hflicker,
    (hrefresh blank _).2.2.2 () rfl rfl⟩

end Histories

end Screen

/-! ## The histories of running machines -/

/-- What an instruction does with the screen. -/
def Instruction.paints (i : Instruction) (c : Cpu) (ε : Type) : List (Screen.Act ε) :=
  match i with
  | .clear => [.clear]
  | .draw x y rows =>
    match c.readBlock rows.toNat with
    | .error _ => []
    | .ok sprite => [.draw sprite (c.reg x).toUInt64 (c.reg y).toUInt64]
  | _ => []

/-- What an event does with the screen. -/
def Event.paints {ε : Type} : Event ε → List (Screen.Act ε)
  | .refresh viewer => [.refresh viewer]
  | .forceRefresh => [.forceRefresh]
  | _ => []

theorem Instruction.screen_devicesAfter (i : Instruction) (c : Cpu) (d : Devices) (ε : Type) :
    (i.devicesAfter c d).screen = (i.paints c ε).foldl (fun s a => a.apply s) d.screen := by
  cases i with
  | draw x y rows =>
      simp only [Instruction.devicesAfter, Instruction.paints]
      cases c.readBlock rows.toNat <;> rfl
  | _ => rfl

theorem Event.screen_apply {ε : Type} (e : Event ε) (d : Devices) :
    (e.apply d).screen = e.paints.foldl (fun s a => a.apply s) d.screen := by
  cases e <;> rfl

namespace Ensemble

variable {ι ε : Type}

/-- What an act of an ensemble does with the screen. -/
def paints (s : Ensemble ι) (a : Act ι ε) : List (Screen.Act ε) :=
  match a, s.executes? a with
  | .event e, _ => e.paints
  | _, some (_, _, i, c) => i.paints c ε
  | _, none => []

variable [DecidableEq ι]

/-- What several acts do with the screen, in their order. -/
def paintsAll (o : ι → Options) : Ensemble ι → List (Act ι ε) → List (Screen.Act ε)
  | _, [] => []
  | s, a :: acts => s.paints a ++ paintsAll o (s.perform o a) acts

theorem screen_perform (o : ι → Options) (s : Ensemble ι) (a : Act ι ε) :
    (s.perform o a).devices.screen =
      (s.paints a).foldl (fun t b => b.apply t) s.devices.screen := by
  rcases s.act_cases a with ⟨e, rfl⟩ | ⟨j, byte, i, c, hexec⟩ | ⟨hexec, hno⟩
  · exact e.screen_apply s.devices
  · have hpaints : s.paints a = i.paints c ε := by
      cases a with
      | event e => simp [executes?] at hexec
      | _ => simp only [paints, hexec]
    rw [hpaints, devices_perform_of_executes o hexec]
    exact i.screen_devicesAfter c s.devices ε
  · have hpaints : s.paints a = [] := by
      cases a with
      | event e => exact absurd rfl (hno e)
      | _ => simp only [paints, hexec]
    rw [hpaints, devices_perform_of_not_executes o hexec hno, List.foldl_nil]

theorem screen_performAll (o : ι → Options) (s : Ensemble ι) (acts : List (Act ι ε)) :
    (s.performAll o acts).devices.screen =
      (s.paintsAll o acts).foldl (fun t b => b.apply t) s.devices.screen := by
  induction acts generalizing s with
  | nil => rfl
  | cons a acts ih =>
      have hrest := ih (s.perform o a)
      rw [screen_perform] at hrest
      rw [paintsAll, List.foldl_append]
      exact hrest

/-- Whatever processors and viewers do with a new screen, and in whichever
order, the mark and the picture are those of a history of acts. -/
theorem screen_of_blank (o : ι → Options) {s : Ensemble ι} (acts : List (Act ι ε))
    (h : s.devices.screen = .blank) :
    (s.performAll o acts).devices.screen = .after (s.paintsAll o acts) := by
  rw [screen_performAll, h, Screen.after]

end Ensemble

end Chip8
