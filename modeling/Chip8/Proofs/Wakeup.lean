import Mathlib.Algebra.BigOperators.Group.Finset.Piecewise
import Mathlib.Data.Fintype.Option
import Chip8.Proofs.Devices

/-!
# No wake-up is lost

A thread that finds no key in an open queue goes to sleep, and another one has to
wake it: whoever adds a key wakes one sleeper, and whoever closes the queue wakes
all of them.  Both do so only after they have let go of the queue, so in between
the queue can have keys, or be closed, while everybody sleeps or is about to.
A `Monitor` is the queue with what each thread is in the middle of, and `Next`
has one case for each uninterrupted action of a thread.

What is between a sleeper and a key that it could have is counted
(`Monitor.attending`): threads that are awake again but have not looked yet, and
threads that have a sleeper to wake.  Of these there are at least as many as keys
(`sound_of_run`).
-/

set_option autoImplicit false

namespace Chip8

/-! ## Threads at a queue -/

/-- What a thread is in the middle of. -/
inductive Errand where
  /-- Nothing: it may begin with anything. -/
  | free
  /-- It has added a key, and has to wake a sleeper. -/
  | owesOne
  /-- It has closed the queue, and has to wake all sleepers. -/
  | owesAll
  /-- It waits for a key, asleep. -/
  | asleep
  /-- It waits for a key, and has to look again. -/
  | woken
  deriving DecidableEq, Repr

namespace Errand

/-- What a look leaves a thread to do: it sleeps if there was no answer yet. -/
def afterLook : KeyQueue.Wait → Errand
  | .pending => .asleep
  | _ => .free

/-- One for a thread that has to look at the queue, or has to wake one that will. -/
def weight : Errand → Nat
  | .woken | .owesOne => 1
  | _ => 0

end Errand

/-- A queue of keys, and the threads that use it. -/
structure Monitor (ι : Type) where
  queue : KeyQueue
  errand : ι → Errand

namespace Monitor

variable {ι : Type}

/-- An empty queue that nobody uses yet. -/
def initial : Monitor ι :=
  ⟨.empty, fun _ => .free⟩

/-! ## Counting -/

section Count

variable [Fintype ι]

/-- The number of threads that have to look at the queue, or to wake one that will. -/
def attending (m : Monitor ι) : Nat :=
  ∑ t, (m.errand t).weight

theorem attending_eq (m : Monitor ι) :
    m.attending = (Finset.univ.filter fun t => m.errand t = .woken).card +
      (Finset.univ.filter fun t => m.errand t = .owesOne).card := by
  rw [Finset.card_filter, Finset.card_filter, ← Finset.sum_add_distrib]
  refine Finset.sum_congr rfl ?_
  intro t _
  cases m.errand t <;> rfl

theorem exists_of_attending {m : Monitor ι} (h : m.attending ≠ 0) :
    ∃ u, m.errand u = .owesOne ∨ m.errand u = .woken := by
  obtain ⟨u, -, hu⟩ := Finset.exists_ne_zero_of_sum_ne_zero h
  refine ⟨u, ?_⟩
  cases herrand : m.errand u with
  | owesOne => exact Or.inl rfl
  | woken => exact Or.inr rfl
  | _ => exact absurd (by rw [herrand]; rfl) hu

/-- While a thread sleeps, there are at least as many others to see to the keys of
an open queue as there are keys, and a closed queue is going to wake it. -/
structure Sound (m : Monitor ι) : Prop where
  counted : m.queue.closed = false → (∃ t, m.errand t = .asleep) →
    m.queue.keys.length ≤ m.attending
  closing : m.queue.closed = true → (∃ t, m.errand t = .asleep) → ∃ u, m.errand u = .owesAll

theorem sound_of_no_sleeper {m : Monitor ι} (h : ∀ t, m.errand t ≠ .asleep) : m.Sound where
  counted := fun _ ⟨t, ht⟩ => absurd ht (h t)
  closing := fun _ ⟨t, ht⟩ => absurd ht (h t)

/-- Whoever sleeps beside a key or at a closed queue is not forgotten. -/
theorem Sound.not_forgotten {m : Monitor ι} (h : m.Sound) {t : ι} (ht : m.errand t = .asleep)
    (hreason : m.queue.keys ≠ [] ∨ m.queue.closed = true) :
    ∃ u, m.errand u = .owesOne ∨ m.errand u = .owesAll ∨ m.errand u = .woken := by
  cases hshut : m.queue.closed with
  | true =>
      obtain ⟨u, hu⟩ := h.closing hshut ⟨t, ht⟩
      exact ⟨u, Or.inr (Or.inl hu)⟩
  | false =>
      have hkeys : m.queue.keys ≠ [] := by simpa [hshut] using hreason
      have hcount := h.counted hshut ⟨t, ht⟩
      have hpos := List.length_pos_of_ne_nil hkeys
      obtain ⟨u, hu | hu⟩ := exists_of_attending (m := m) (by omega)
      · exact ⟨u, Or.inl hu⟩
      · exact ⟨u, Or.inr (Or.inr hu)⟩

/-- An action that puts nobody to sleep may add a key with someone to see to it. -/
theorem Sound.of_attending {m m' : Monitor ι} (h : m.Sound)
    (hclosed : m'.queue.closed = m.queue.closed)
    (hasleep : (∃ t, m'.errand t = .asleep) → ∃ t, m.errand t = .asleep)
    (howes : (∃ u, m.errand u = .owesAll) → ∃ u, m'.errand u = .owesAll)
    (hcount : m.queue.closed = false →
      m'.queue.keys.length + m.attending ≤ m.queue.keys.length + m'.attending) : m'.Sound where
  counted := by
    intro hopen hsleeper
    rw [hclosed] at hopen
    have hbefore := h.counted hopen (hasleep hsleeper)
    have hchange := hcount hopen
    omega
  closing := by
    intro hshut hsleeper
    rw [hclosed] at hshut
    exact howes (h.closing hshut (hasleep hsleeper))

end Count

/-! ## What a thread can do -/

/-- What a thread can do without interruption. -/
inductive Act (ι : Type) where
  /-- It adds a key. -/
  | push (t : ι) (k : Key)
  /-- It wakes this sleeper, or finds none. -/
  | wakeOne (t : ι) (sleeper : Option ι)
  /-- It takes the oldest key, if there is one. -/
  | pop (t : ι)
  /-- It takes the oldest key if that has this code. -/
  | popIf (t : ι) (code : UInt8)
  /-- It looks for a key on behalf of a wait, and learns this. -/
  | look (t : ι) (answer : KeyQueue.Wait)
  /-- It closes the queue. -/
  | close (t : ι)
  /-- It wakes all sleepers. -/
  | wakeAll (t : ι)
  /-- It wakes up although nobody woke it. -/
  | stir (t : ι)

/-- The thread that acts. -/
def Act.actor : Act ι → ι
  | .push t _ | .wakeOne t _ | .pop t | .popIf t _ | .look t _ | .close t | .wakeAll t
  | .stir t => t

variable [DecidableEq ι]

/-- The queue and the thread as an action leaves them. -/
def leave (m : Monitor ι) (q : KeyQueue) (t : ι) (e : Errand) : Monitor ι :=
  ⟨q, Function.update m.errand t e⟩

/-- One uninterrupted action of a thread.  A wait looks at the queue when it
begins and whenever it was woken; if it finds nothing, it has let go of the queue
and is asleep in the same action. -/
inductive Next (m : Monitor ι) : Act ι → Monitor ι → Prop
  | push {t : ι} (k : Key) (h : m.errand t = .free) :
      Next m (.push t k) (m.leave (m.queue.push k) t .owesOne)
  | wakeOne {t u : ι} (h : m.errand t = .owesOne) (hu : m.errand u = .asleep) :
      Next m (.wakeOne t (some u)) ((m.leave m.queue t .free).leave m.queue u .woken)
  | wakeNone {t : ι} (h : m.errand t = .owesOne) (hnone : ∀ u, m.errand u ≠ .asleep) :
      Next m (.wakeOne t none) (m.leave m.queue t .free)
  | pop {t : ι} (h : m.errand t = .free) :
      Next m (.pop t) (m.leave m.queue.pop.2 t .free)
  | popIf {t : ι} (code : UInt8) (h : m.errand t = .free) :
      Next m (.popIf t code) (m.leave (m.queue.popIf code).2 t .free)
  | look {t : ι} {answer : KeyQueue.Wait} {q : KeyQueue}
      (h : m.errand t = .free ∨ m.errand t = .woken) (hq : m.queue.waitPop = (answer, q)) :
      Next m (.look t answer) (m.leave q t (.afterLook answer))
  | close {t : ι} (h : m.errand t = .free) :
      Next m (.close t) (m.leave m.queue.close t .owesAll)
  | wakeAll {t : ι} (h : m.errand t = .owesAll) :
      Next m (.wakeAll t) ⟨m.queue, fun u =>
        if u = t then .free else if m.errand u = .asleep then .woken else m.errand u⟩
  | stir {t : ι} (h : m.errand t = .asleep) :
      Next m (.stir t) (m.leave m.queue t .woken)

/-- What several actions lead to, from an empty queue that nobody uses yet. -/
inductive Run : List (Act ι) → Monitor ι → Prop
  | start : Run [] initial
  | next {acts : List (Act ι)} {m m' : Monitor ι} {a : Act ι} (h : Run acts m)
      (ha : Next m a m') : Run (acts ++ [a]) m'

section Leave

variable {m : Monitor ι} {q : KeyQueue} {t : ι} {e : Errand}

theorem errand_leave (u : ι) :
    (m.leave q t e).errand u = if u = t then e else m.errand u :=
  Function.update_apply m.errand t e u

theorem asleep_of_leave (he : e ≠ .asleep) (h : ∃ u, (m.leave q t e).errand u = .asleep) :
    ∃ u, m.errand u = .asleep := by
  obtain ⟨u, hu⟩ := h
  rw [errand_leave] at hu
  split at hu
  · exact absurd hu he
  · exact ⟨u, hu⟩

theorem owesAll_leave (ht : m.errand t ≠ .owesAll) (h : ∃ u, m.errand u = .owesAll) :
    ∃ u, (m.leave q t e).errand u = .owesAll := by
  obtain ⟨u, hu⟩ := h
  refine ⟨u, ?_⟩
  rw [errand_leave, if_neg, hu]
  rintro rfl
  exact ht hu

/-- A thread counts by what it is in the middle of. -/
theorem attending_leave [Fintype ι] :
    (m.leave q t e).attending + (m.errand t).weight = m.attending + e.weight := by
  have hupdate : (fun u => ((m.leave q t e).errand u).weight) =
      Function.update (fun u => (m.errand u).weight) t e.weight := by
    funext u
    rw [errand_leave, Function.update_apply]
    split <;> rfl
  have hbefore : m.attending =
      (m.errand t).weight + ∑ u ∈ Finset.univ \ {t}, (m.errand u).weight :=
    Finset.sum_eq_add_sum_sdiff_singleton_of_mem (Finset.mem_univ t) _
  have hafter : (m.leave q t e).attending =
      e.weight + ∑ u ∈ Finset.univ \ {t}, (m.errand u).weight := by
    rw [attending, hupdate]
    exact Finset.sum_update_of_mem (Finset.mem_univ t) _ _
  omega

end Leave

/-! ## What every action preserves -/

section Sound

variable [Fintype ι]

/-- A thread that acts may add a key if it sees to it then. -/
theorem Sound.leave {m : Monitor ι} {q : KeyQueue} {t : ι} {now later : Errand} (h : m.Sound)
    (ht : m.errand t = now) (hnow : now ≠ .owesAll) (hlater : later ≠ .asleep)
    (hclosed : q.closed = m.queue.closed)
    (hcount : m.queue.closed = false →
      q.keys.length + now.weight ≤ m.queue.keys.length + later.weight) :
    (m.leave q t later).Sound := by
  subst ht
  refine h.of_attending hclosed (asleep_of_leave hlater) (owesAll_leave hnow) ?_
  intro hopen
  have hattending := attending_leave (m := m) (q := q) (t := t) (e := later)
  have hkeys := hcount hopen
  show q.keys.length + m.attending ≤ m.queue.keys.length + (m.leave q t later).attending
  omega

/-- Whoever wakes a sleeper counts no more, but the sleeper does. -/
theorem Sound.wakeOne {m : Monitor ι} {t u : ι} (h : m.Sound) (ht : m.errand t = .owesOne)
    (hu : m.errand u = .asleep) : ((m.leave m.queue t .free).leave m.queue u .woken).Sound := by
  have hut : u ≠ t := by
    rintro rfl
    rw [ht] at hu
    cases hu
  have hstill : (m.leave m.queue t .free).errand u = .asleep := by
    rw [errand_leave, if_neg hut, hu]
  refine h.of_attending rfl ?_ ?_ ?_
  · intro hsleeper
    exact asleep_of_leave (by decide) (asleep_of_leave (by decide) hsleeper)
  · intro howes
    exact owesAll_leave (by rw [hstill]; decide) (owesAll_leave (by rw [ht]; decide) howes)
  · intro _
    have hfree := attending_leave (m := m) (q := m.queue) (t := t) (e := .free)
    have hwoken := attending_leave (m := m.leave m.queue t .free) (q := m.queue) (t := u)
      (e := .woken)
    rw [ht] at hfree
    rw [hstill] at hwoken
    simp only [Errand.weight] at hfree hwoken
    show m.queue.keys.length + m.attending ≤ m.queue.keys.length +
      ((m.leave m.queue t .free).leave m.queue u .woken).attending
    omega

/-- A look takes a key together with the thread that saw to it, and puts a thread to
sleep only where there is no key. -/
theorem Sound.look {m : Monitor ι} {t : ι} {answer : KeyQueue.Wait} {q : KeyQueue}
    (h : m.Sound) (ht : m.errand t = .free ∨ m.errand t = .woken)
    (hq : m.queue.waitPop = (answer, q)) : (m.leave q t (.afterLook answer)).Sound := by
  have hnow : m.errand t ≠ .owesAll ∧ (m.errand t).weight ≤ 1 := by
    rcases ht with ht | ht <;> rw [ht] <;> decide
  rcases KeyQueue.waitPop_cases m.queue with
    ⟨hshut, hcase⟩ | ⟨hopen, hkeys, hcase⟩ | ⟨k, ks, hopen, hkeys, hcase⟩ <;>
    rw [hcase, Prod.mk.injEq] at hq <;> obtain ⟨rfl, rfl⟩ := hq
  · refine h.leave rfl hnow.1 (by simp [Errand.afterLook]) rfl ?_
    intro hopen
    rw [hshut] at hopen
    cases hopen
  · constructor
    · intro _ _
      show m.queue.keys.length ≤ _
      rw [hkeys]
      exact Nat.zero_le _
    · intro hshut
      have hboth : false = true := hopen.symm.trans hshut
      cases hboth
  · refine h.leave rfl hnow.1 (by simp [Errand.afterLook]) rfl ?_
    intro _
    rw [hkeys, List.length_cons]
    exact Nat.add_le_add_left hnow.2 _

theorem sound_next {m m' : Monitor ι} {a : Act ι} (h : m.Sound) (ha : Next m a m') :
    m'.Sound := by
  cases ha with
  | @push t k ht =>
      refine h.leave ht (by decide) (by decide) rfl ?_
      intro _
      simp [KeyQueue.push, Errand.weight]
  | wakeOne ht hu => exact h.wakeOne ht hu
  | @wakeNone t ht hnone =>
      apply sound_of_no_sleeper
      intro u hu
      obtain ⟨v, hv⟩ := asleep_of_leave (by decide) ⟨u, hu⟩
      exact hnone v hv
  | @pop t ht =>
      refine h.leave ht (by decide) (by decide) (KeyQueue.closed_pop _) ?_
      intro _
      rcases KeyQueue.pop_cases m.queue with ⟨-, hq⟩ | ⟨k, ks, hkeys, hq⟩
      · simp [hq]
      · simp [hq, hkeys]
  | @popIf t code ht =>
      refine h.leave ht (by decide) (by decide) (KeyQueue.closed_popIf _ _) ?_
      intro _
      rcases KeyQueue.popIf_cases m.queue code with ⟨k, ks, hkeys, -, hq⟩ | ⟨-, hq⟩
      · simp [hq, hkeys]
      · simp [hq]
  | look ht hq => exact h.look ht hq
  | @close t ht =>
      constructor
      · intro hopen
        cases hopen
      · intro _ _
        exact ⟨t, by rw [errand_leave, if_pos rfl]⟩
  | @wakeAll t ht =>
      apply sound_of_no_sleeper
      intro u
      by_cases hut : u = t
      · simp [hut]
      · by_cases hu : m.errand u = .asleep <;> simp [hut, hu]
  | @stir t ht =>
      refine h.leave ht (by decide) (by decide) rfl ?_
      intro _
      exact Nat.add_le_add_left (by decide) _

theorem sound_of_run {acts : List (Act ι)} {m : Monitor ι} (h : Run acts m) : m.Sound := by
  induction h with
  | start => exact sound_of_no_sleeper (by intro t; simp [initial])
  | next _ ha ih => exact sound_next ih ha

end Sound

/-! ## What a wait learns -/

section Look

variable {m m' : Monitor ι} {t : ι}

theorem of_look_key {k : Key} (h : Next m (.look t (.key k)) m') :
    m.queue.front? = some k ∧ m'.queue.keys = m.queue.keys.tail := by
  cases h with
  | look _ hq =>
      rcases KeyQueue.waitPop_cases m.queue with
        ⟨-, hcase⟩ | ⟨-, -, hcase⟩ | ⟨k', ks, -, hkeys, hcase⟩ <;>
        rw [hcase, Prod.mk.injEq] at hq <;> obtain ⟨hanswer, rfl⟩ := hq <;> cases hanswer
      rw [KeyQueue.front?, hkeys]
      exact ⟨rfl, rfl⟩

theorem of_look_closed (h : Next m (.look t .closed) m') : m.queue.closed = true := by
  cases h with
  | look _ hq =>
      rcases KeyQueue.waitPop_cases m.queue with
        ⟨hshut, hcase⟩ | ⟨-, -, hcase⟩ | ⟨k', ks, -, -, hcase⟩ <;>
        rw [hcase, Prod.mk.injEq] at hq <;> obtain ⟨hanswer, rfl⟩ := hq <;> cases hanswer
      exact hshut

/-- The queue is closed by the action that closes it, and by no other, and it is never
opened again. -/
theorem closed_next_iff {a : Act ι} (ha : Next m a m') :
    m'.queue.closed = true ↔ m.queue.closed = true ∨ ∃ u, a = .close u := by
  have hsame : ∀ {q : KeyQueue}, q.closed = m.queue.closed → (∀ u, a ≠ .close u) →
      (q.closed = true ↔ m.queue.closed = true ∨ ∃ u, a = .close u) := by
    intro q hq hno
    rw [hq, or_iff_left]
    rintro ⟨u, hu⟩
    exact hno u hu
  cases ha with
  | pop => exact hsame (KeyQueue.closed_pop _) nofun
  | popIf code => exact hsame (KeyQueue.closed_popIf _ code) nofun
  | look _ hq =>
      have hlook := KeyQueue.closed_waitPop m.queue
      rw [hq] at hlook
      exact hsame hlook nofun
  | @close u => exact iff_of_true rfl (Or.inr ⟨u, rfl⟩)
  | _ => exact hsame rfl nofun

theorem closed_run_iff {acts : List (Act ι)} (hrun : Run acts m) :
    m.queue.closed = true ↔ ∃ u, .close u ∈ acts := by
  induction hrun with
  | start => exact iff_of_false Bool.false_ne_true (by simp)
  | next _ ha ih =>
      rw [closed_next_iff ha, ih, ← exists_or]
      simp only [List.mem_append, List.mem_singleton, eq_comm]

/-- Whoever closes the queue has to wake all sleepers, and leaves the keys where they
are. -/
theorem of_close (h : Next m (.close t) m') :
    m'.queue = { m.queue with closed := true } ∧ m'.errand t = .owesAll := by
  cases h with
  | close _ => exact ⟨rfl, by rw [errand_leave, if_pos rfl]⟩

/-- Only sleepers are held up. -/
theorem exists_next (m : Monitor ι) (h : m.errand t ≠ .asleep) :
    ∃ a m', Act.actor a = t ∧ Next m a m' := by
  cases ht : m.errand t with
  | free => exact ⟨_, _, rfl, .pop ht⟩
  | owesOne =>
      by_cases hsleeper : ∃ u, m.errand u = .asleep
      · obtain ⟨u, hu⟩ := hsleeper
        exact ⟨_, _, rfl, .wakeOne ht hu⟩
      · exact ⟨_, _, rfl, .wakeNone ht fun u hu => hsleeper ⟨u, hu⟩⟩
  | owesAll => exact ⟨_, _, rfl, .wakeAll ht⟩
  | asleep => exact absurd ht h
  | woken => exact ⟨_, _, rfl, .look (Or.inr ht) rfl⟩

end Look

/-- **No wake-up is lost.**  Threads add keys to a queue, take them, wait for them and
close the queue, any number of them and in any order.  Whenever one of them sleeps
although there are keys or the queue is closed, another one has still to wake
sleepers or to look again.  More exactly, while the queue is open and somebody
sleeps, the keys are at most as many as the threads that were woken and have not
looked yet, and those that added a key and have not woken anybody yet; and if it
is closed, somebody is about to wake all.  Nobody but a sleeper is held up.

A wait that gets a key gets the oldest one, and one that gets none learns it after
somebody closed the queue.  Whoever closes it leaves the keys where they are and is
about to wake all, and the queue is closed from then on, and not before. -/
theorem no_wakeup_is_lost [Fintype ι] (acts : List (Act ι)) (m : Monitor ι) (h : Run acts m) :
    (¬ ∃ t, m.errand t = .asleep ∧ (m.queue.keys ≠ [] ∨ m.queue.closed = true) ∧
      ∀ u, m.errand u ≠ .owesOne ∧ m.errand u ≠ .owesAll ∧ m.errand u ≠ .woken) ∧
    (m.queue.closed = false → (∃ t, m.errand t = .asleep) →
      m.queue.keys.length ≤ (Finset.univ.filter fun t => m.errand t = .woken).card +
        (Finset.univ.filter fun t => m.errand t = .owesOne).card) ∧
    (m.queue.closed = true → (∃ t, m.errand t = .asleep) → ∃ u, m.errand u = .owesAll) ∧
    (∀ t, m.errand t ≠ .asleep → ∃ a m', Act.actor a = t ∧ Next m a m') ∧
    (∀ t k m', Next m (.look t (.key k)) m' →
      m.queue.front? = some k ∧ m'.queue.keys = m.queue.keys.tail) ∧
    (∀ t m', Next m (.look t .closed) m' → ∃ u, .close u ∈ acts) ∧
    (∀ t m', Next m (.close t) m' →
      m'.queue = { m.queue with closed := true } ∧ m'.errand t = .owesAll) ∧
    (m.queue.closed = true ↔ ∃ u, .close u ∈ acts) := by
  have hsound := sound_of_run h
  refine ⟨?_, ?_, hsound.closing, fun t => exists_next m, fun t k m' => of_look_key, ?_,
    fun t m' => of_close, closed_run_iff h⟩
  · rintro ⟨t, ht, hreason, hnobody⟩
    obtain ⟨u, hu | hu | hu⟩ := hsound.not_forgotten ht hreason
    · exact (hnobody u).1 hu
    · exact (hnobody u).2.1 hu
    · exact (hnobody u).2.2 hu
  · intro hopen hsleeper
    rw [← attending_eq]
    exact hsound.counted hopen hsleeper
  · intro t m' hlook
    exact (closed_run_iff h).mp (of_look_closed hlook)

/-- Two threads wait, a third adds a key and wakes one of them, and adds another. -/
def rush : List (Act (Option Bool)) :=
  [.look (some true) .pending, .look (some false) .pending, .push none (.ofByte 0xA),
    .wakeOne none (some (some true)), .push none (.ofByte 0xB)]

/-- The thread that was woken gets its key and closes the queue. -/
def closing : List (Act (Option Bool)) :=
  rush ++ [.look (some true) (.key (.ofByte 0xA)), .close (some true)]

/-- One thread sleeps, one was woken, and one has still to wake a sleeper.  Then one of
them closes the queue, and has to wake the sleeper; it does, and nobody sleeps any
more. -/
theorem no_wakeup_is_lost_rush :
    (∃ m, Run rush m ∧ m.queue.keys.length = 2 ∧ m.errand (some false) = .asleep ∧
      2 ≤ (Finset.univ.filter fun t => m.errand t = .woken).card +
        (Finset.univ.filter fun t => m.errand t = .owesOne).card) ∧
    (∃ m, Run closing m ∧ m.queue.closed = true ∧ m.queue.keys = [.ofByte 0xB] ∧
      m.errand (some false) = .asleep ∧ ∃ u, m.errand u = .owesAll) ∧
    ∃ m, Run (closing ++ [.wakeAll (some true)]) m ∧ m.queue.closed = true ∧
      ∀ t, m.errand t ≠ .asleep := by
  have hrush : Run rush _ :=
    ((((Run.start.next (.look (Or.inl rfl) rfl)).next (.look (Or.inl rfl) rfl)).next
      (.push (.ofByte 0xA) rfl)).next (.wakeOne rfl rfl)).next (.push (.ofByte 0xB) rfl)
  have hclosing : Run closing _ :=
    (hrush.next (.look (Or.inr rfl) rfl)).next (.close (t := some true) rfl)
  refine ⟨⟨_, hrush, rfl, rfl, ?_⟩, ⟨_, hclosing, ?_, rfl, rfl, ?_⟩, _,
    hclosing.next (.wakeAll (t := some true) rfl), rfl, by decide⟩
  · exact (no_wakeup_is_lost rush _ hrush).2.1 rfl ⟨some false, rfl⟩
  · obtain ⟨-, -, -, -, -, -, -, hclosed⟩ := no_wakeup_is_lost closing _ hclosing
    exact hclosed.mpr ⟨some true, List.mem_append_right _ (by simp)⟩
  · exact (no_wakeup_is_lost closing _ hclosing).2.2.1 rfl ⟨some false, rfl⟩

end Monitor

end Chip8
