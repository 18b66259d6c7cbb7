import Chip8.Console.Session
import Chip8.Proofs.Devices
import Chip8.Proofs.Numerals
import Mathlib.Data.List.Basic
import Mathlib.Tactic.SplitIfs

/-!
# What comes of typed input

What is typed is looked at line by line, a line only as a whole, and its characters
one by one until a `q` comes.  Seen from outside there are neither lines nor states:
there is a text, the part of the input that counts, and a reason why no more of it
does (`Counts`).  The text gives the key presses and the warnings, character by
character and in this order, and then the run is ended (`ofInput_of_counts`).

What one thing typed does to a machine is an equation of the whole machine
(`Typed.apply_eq`): a key goes to the end of the queue, the end of the run sets two
flags, and the notices that the verbosity shows go to the end of the log.  All that
is typed does this one after the other (`Typed.foldl_apply`).

The bytes of a character other than the newline are no newlines either
(`newline_not_mem_utf8`), so the lines of the bytes are the lines of the text.
-/

set_option autoImplicit false

namespace Chip8.Console

/-! ## Bytes of a text -/

/-- The bytes of characters. -/
def utf8 (cs : List Char) : List UInt8 :=
  cs.flatMap String.utf8EncodeChar

@[simp] theorem utf8_nil : utf8 [] = [] := rfl

@[simp] theorem utf8_append (cs ds : List Char) : utf8 (cs ++ ds) = utf8 cs ++ utf8 ds :=
  List.flatMap_append

theorem utf8_newline_cons (cs : List Char) : utf8 ('\n' :: cs) = 10 :: utf8 cs := rfl

theorem newline_not_mem_utf8EncodeChar {c : Char} (h : c ≠ '\n') :
    (10 : UInt8) ∉ String.utf8EncodeChar c := by
  have hc : c.toNat ≠ 10 := fun hc => h (Char.toNat_inj.mp hc)
  have hval : c.val.toNat = c.toNat := rfl
  unfold String.utf8EncodeChar
  simp only
  -- Of a character with several bytes each byte is 128 at least.
  split_ifs <;> simp [← UInt8.toNat_inj] <;> omega

theorem newline_not_mem_utf8 {cs : List Char} (h : '\n' ∉ cs) : (10 : UInt8) ∉ utf8 cs := by
  intro hmem
  obtain ⟨c, hc, hbyte⟩ := List.mem_flatMap.mp hmem
  exact newline_not_mem_utf8EncodeChar (fun hnew => h (hnew ▸ hc)) hbyte

theorem newline_mem_utf8 {cs : List Char} (h : '\n' ∈ cs) : (10 : UInt8) ∈ utf8 cs :=
  List.mem_flatMap.mpr ⟨'\n', h, List.mem_cons_self⟩

theorem fromUTF8?_utf8 (cs : List Char) :
    String.fromUTF8? (utf8 cs).toByteArray = some (String.ofList cs) := by
  have hbytes : (utf8 cs).toByteArray = (String.ofList cs).toByteArray :=
    String.toByteArray_ofList.symm
  rw [hbytes, String.fromUTF8?, dif_pos (String.ofList cs).isValidUTF8]
  rfl

/-- The bytes are those of no text. -/
def IsGarbled (bytes : List UInt8) : Prop :=
  ∀ cs, bytes ≠ utf8 cs

theorem fromUTF8?_of_isGarbled {bytes : List UInt8} (h : IsGarbled bytes) :
    String.fromUTF8? bytes.toByteArray = none := by
  refine dif_neg ?_
  rintro ⟨cs, hcs⟩
  have hdata := congrArg (fun b : ByteArray => b.data.toList) hcs
  exact h cs (by simpa [List.utf8Encode, utf8] using hdata)

/-! ## What counts -/

/-- Why no more of the input counts. -/
inductive Stop where
  /-- A `q` was reached. -/
  | quit
  /-- A line is no text. -/
  | unreadable
  /-- There is no more. -/
  | exhausted
  deriving DecidableEq

/-- A line ends before these bytes. -/
def EndsLine (rest : List UInt8) : Prop :=
  rest = [] ∨ ∃ more, rest = 10 :: more

/-- The text is the part of the input before the first of these: a `q` in a line
that is text as a whole, the beginning of a line that is not, the end. -/
inductive Counts : List UInt8 → List Char → Stop → Prop
  | quit (t line : List Char) (rest : List UInt8) (hquit : 'q' ∉ t) (hline : '\n' ∉ line)
      (hrest : EndsLine rest) : Counts (utf8 (t ++ 'q' :: line) ++ rest) t .quit
  | unreadable (t : List Char) (line rest : List UInt8) (hquit : 'q' ∉ t)
      (hstart : t = [] ∨ t.getLast? = some '\n') (hgarbled : IsGarbled line)
      (hline : (10 : UInt8) ∉ line) (hrest : EndsLine rest) :
      Counts (utf8 t ++ (line ++ rest)) t .unreadable
  | exhausted (t : List Char) (hquit : 'q' ∉ t) : Counts (utf8 t) t .exhausted

/-- A line of text without a `q` goes before what counts of the rest. -/
theorem Counts.line {input : List UInt8} {t cs : List Char} {stop : Stop}
    (h : Counts input t stop) (hcs : 'q' ∉ cs) :
    Counts (utf8 cs ++ 10 :: input) (cs ++ '\n' :: t) stop := by
  have hquit : ∀ {t : List Char}, 'q' ∉ t → 'q' ∉ cs ++ '\n' :: t := by
    intro t ht
    simp [hcs, ht]
  cases h with
  | quit t line rest ht hline hrest =>
      have hcounts := Counts.quit (cs ++ '\n' :: t) line rest (hquit ht) hline hrest
      simpa only [List.append_assoc, List.cons_append, utf8_append, utf8_newline_cons]
        using hcounts
  | unreadable t line rest ht hstart hgarbled hline hrest =>
      have hlast : (cs ++ '\n' :: t).getLast? = some '\n' := by
        rcases hstart with rfl | hlast
        · exact List.getLast?_concat
        · rw [List.getLast?_append, List.getLast?_cons, hlast]
          rfl
      have hcounts := Counts.unreadable (cs ++ '\n' :: t) line rest (hquit ht) (Or.inr hlast)
        hgarbled hline hrest
      simpa only [List.append_assoc, List.cons_append, utf8_append, utf8_newline_cons]
        using hcounts
  | exhausted t ht =>
      have hcounts := Counts.exhausted (cs ++ '\n' :: t) (hquit ht)
      simpa only [utf8_append, utf8_newline_cons] using hcounts

/-- Of every input some part counts. -/
theorem exists_counts (input : List UInt8) : ∃ t stop, Counts input t stop := by
  -- Line by line; a line is cut off together with its newline.
  induction hn : input.length using Nat.strongRecOn generalizing input with
  | ind n ih =>
      obtain ⟨line, rest, rfl, hline, hrest⟩ :
          ∃ line rest, input = line ++ rest ∧ (10 : UInt8) ∉ line ∧ EndsLine rest := by
        by_cases hmem : (10 : UInt8) ∈ input
        · obtain ⟨line, more, rfl, hline⟩ := List.eq_append_cons_of_mem hmem
          exact ⟨line, 10 :: more, rfl, hline, Or.inr ⟨more, rfl⟩⟩
        · exact ⟨input, [], (List.append_nil _).symm, hmem, Or.inl rfl⟩
      by_cases hgarbled : IsGarbled line
      · exact ⟨[], .unreadable, .unreadable [] line rest List.not_mem_nil (Or.inl rfl) hgarbled
          hline hrest⟩
      · obtain ⟨cs, rfl⟩ : ∃ cs, line = utf8 cs := by
          simpa only [IsGarbled, not_forall, not_not, ne_eq] using hgarbled
        have hnewline : '\n' ∉ cs := fun hmem => hline (newline_mem_utf8 hmem)
        by_cases hquit : 'q' ∈ cs
        · obtain ⟨t, tail, rfl, ht⟩ := List.eq_append_cons_of_mem hquit
          have htail : '\n' ∉ tail := fun hmem =>
            hnewline (List.mem_append_right _ (List.mem_cons_of_mem _ hmem))
          exact ⟨t, .quit, .quit t tail rest ht htail hrest⟩
        · rcases hrest with rfl | ⟨more, rfl⟩
          · rw [List.append_nil]
            exact ⟨cs, .exhausted, .exhausted cs hquit⟩
          · have hshorter : more.length < n := by
              rw [← hn, List.length_append, List.length_cons]
              omega
            obtain ⟨t, stop, hcounts⟩ := ih more.length hshorter more rfl
            exact ⟨_, stop, hcounts.line hquit⟩

/-! ## Lines -/

namespace Typing

theorem readLine_of_not_mem {cs : List Char} (h : 'q' ∉ cs) :
    readLine cs = (cs.filterMap Typed.ofChar?, false) := by
  induction cs with
  | nil => rfl
  | cons c cs ih =>
      obtain ⟨hc, hcs⟩ := List.ne_and_not_mem_of_not_mem_cons h
      rw [readLine, if_neg (Ne.symm hc), ih hcs, List.filterMap_cons]
      cases Typed.ofChar? c <;> rfl

theorem readLine_of_quit {cs : List Char} (h : 'q' ∉ cs) (tail : List Char) :
    readLine (cs ++ 'q' :: tail) = (cs.filterMap Typed.ofChar? ++ [.quit], true) := by
  induction cs with
  | nil => rfl
  | cons c cs ih =>
      obtain ⟨hc, hcs⟩ := List.ne_and_not_mem_of_not_mem_cons h
      rw [List.cons_append, readLine, if_neg (Ne.symm hc), ih hcs, List.filterMap_cons]
      cases Typed.ofChar? c <;> rfl

/-- In the middle of a line. -/
def within (line : List UInt8) : Typing :=
  ⟨line.reverse, false⟩

theorem endLine_within_utf8 (cs : List Char) :
    (within (utf8 cs)).endLine = (⟨[], (readLine cs).2⟩, (readLine cs).1) := by
  simp only [endLine, within, List.reverse_reverse, fromUTF8?_utf8, String.toList_ofList]

theorem endLine_of_not_mem {cs : List Char} (h : 'q' ∉ cs) :
    (within (utf8 cs)).endLine = (within [], cs.filterMap Typed.ofChar?) := by
  rw [endLine_within_utf8, readLine_of_not_mem h]
  rfl

theorem endLine_of_quit {cs : List Char} (h : 'q' ∉ cs) (tail : List Char) :
    (within (utf8 (cs ++ 'q' :: tail))).endLine =
      (⟨[], true⟩, cs.filterMap Typed.ofChar? ++ [.quit]) := by
  rw [endLine_within_utf8, readLine_of_quit h]

theorem endLine_of_isGarbled {line : List UInt8} (h : IsGarbled line) :
    (within line).endLine = (⟨[], true⟩, [.unreadable notText, .ended]) := by
  simp only [endLine, within, List.reverse_reverse, fromUTF8?_of_isGarbled h, breakOff]

/-- Bytes without a newline go to the line. -/
theorem feed_of_no_newline {bytes : List UInt8} (h : (10 : UInt8) ∉ bytes)
    (line rest : List UInt8) :
    (within line).feed (bytes ++ rest) = (within (line ++ bytes)).feed rest := by
  induction bytes generalizing line with
  | nil => rw [List.append_nil, List.nil_append]
  | cons b bs ih =>
      obtain ⟨hb, hbs⟩ := List.ne_and_not_mem_of_not_mem_cons h
      have hnext := ih hbs (line ++ [b])
      rw [List.append_assoc, List.singleton_append] at hnext
      rw [← hnext, List.cons_append, feed]
      simp [within, Ne.symm hb]

theorem feed_newline (t : Typing) (h : t.finished = false) (rest : List UInt8) :
    t.feed (10 :: rest) =
      ((t.endLine.1.feed rest).1, t.endLine.2 ++ (t.endLine.1.feed rest).2) := by
  simp [feed, h]

theorem feed_of_finished {t : Typing} (h : t.finished = true) (bytes : List UInt8) :
    t.feed bytes = (t, []) := by
  cases bytes <;> simp [feed, h]

/-- A line that ends the run is the last one that is looked at, with a newline
behind it or not. -/
theorem feed_of_endsLine {line rest : List UInt8} (hrest : EndsLine rest)
    (hlast : (within line).endLine.1.finished = true) :
    ((within line).feed rest).2 ++ ((within line).feed rest).1.finish.2 =
      (within line).endLine.2 := by
  have hopen : (within line).finished = false := rfl
  rcases hrest with rfl | ⟨more, rfl⟩
  · simp [feed, finish, hopen, hlast]
  · rw [feed_newline _ hopen, feed_of_finished hlast]
    simp [finish, hlast]

/-- A text without a `q` is taken in: the lines up to the last newline, and the rest
of it as the beginning of a line. -/
theorem feed_utf8 {cs t : List Char} (hcs : '\n' ∉ cs) (hquit : 'q' ∉ cs ++ t) :
    ∃ before line, cs ++ t = before ++ line ∧ '\n' ∉ line ∧ ∀ rest,
      (within (utf8 cs)).feed (utf8 t ++ rest) =
        (((within (utf8 line)).feed rest).1,
          before.filterMap Typed.ofChar? ++ ((within (utf8 line)).feed rest).2) := by
  induction t generalizing cs with
  | nil => exact ⟨[], cs, List.append_nil cs, hcs, fun rest => rfl⟩
  | cons c t ih =>
      by_cases hc : c = '\n'
      · subst hc
        have hquit' : 'q' ∉ cs ∧ 'q' ∉ [] ++ t := by simpa using hquit
        obtain ⟨before, line, hsplit, hline, hfeed⟩ := ih List.not_mem_nil hquit'.2
        refine ⟨cs ++ '\n' :: before, line, ?_, hline, fun rest => ?_⟩
        · rw [List.append_assoc, List.cons_append, ← hsplit, List.nil_append]
        · have hblank : Typed.ofChar? '\n' = none := rfl
          have hnext := feed_newline (within (utf8 cs)) rfl (utf8 t ++ rest)
          rw [endLine_of_not_mem hquit'.1, ← utf8_nil, hfeed rest] at hnext
          rw [utf8_newline_cons, List.cons_append, hnext, List.filterMap_append,
            List.filterMap_cons_none hblank, List.append_assoc]
      · have hline' : '\n' ∉ cs ++ [c] := by simp [hcs, Ne.symm hc]
        have hquit' : 'q' ∉ (cs ++ [c]) ++ t := by simpa using hquit
        obtain ⟨before, line, hsplit, hline, hfeed⟩ := ih hline' hquit'
        refine ⟨before, line, ?_, hline, fun rest => ?_⟩
        · rw [← hsplit, List.append_assoc, List.singleton_append]
        · have hbytes : (10 : UInt8) ∉ utf8 [c] :=
            newline_not_mem_utf8 (by simp [Ne.symm hc])
          rw [← List.singleton_append, utf8_append, List.append_assoc,
            feed_of_no_newline hbytes, ← utf8_append]
          exact hfeed rest

end Typing

/-! ## What is typed -/

/-- What is left to be typed when no more of the input counts. -/
def Stop.typed : Stop → List Typed
  | .quit => [.quit]
  | .unreadable => [.unreadable Typing.notText, .ended]
  | .exhausted => [.ended]

open Typing in
/-- An input means what the characters mean that count, one after the other, and then
it is over. -/
theorem ofInput_of_counts {input : List UInt8} {t : List Char} {stop : Stop}
    (h : Counts input t stop) : ofInput input = t.filterMap Typed.ofChar? ++ stop.typed := by
  have hquit : 'q' ∉ [] ++ t := by cases h <;> simpa
  obtain ⟨before, line, hsplit, hline, hfeed⟩ := feed_utf8 List.not_mem_nil hquit
  rw [List.nil_append] at hsplit hquit
  have hinput : ∀ rest, ofInput (utf8 t ++ rest) = before.filterMap Typed.ofChar? ++
      (((within (utf8 line)).feed rest).2 ++ ((within (utf8 line)).feed rest).1.finish.2) := by
    intro rest
    have hrest := hfeed rest
    rw [show within (utf8 []) = initial from rfl] at hrest
    simp only [ofInput, hrest, List.append_assoc]
  have hquit' : 'q' ∉ line := fun hmem => hquit (hsplit ▸ List.mem_append_right _ hmem)
  cases h with
  | quit _ tail rest _ htail hrest =>
      have hbytes : (10 : UInt8) ∉ utf8 ('q' :: tail) := newline_not_mem_utf8 (by simp [htail])
      have hend := endLine_of_quit hquit' tail
      rw [utf8_append, List.append_assoc, hinput, feed_of_no_newline hbytes, ← utf8_append,
        feed_of_endsLine hrest (by rw [hend]), hend, hsplit, List.filterMap_append,
        List.append_assoc]
      rfl
  | unreadable _ bad rest _ hstart hgarbled hbad hrest =>
      have hempty : line = [] := by
        by_contra hne
        rw [hsplit, List.getLast?_append_of_ne_nil before hne] at hstart
        rcases hstart with hnil | hlast
        · exact hne (List.append_eq_nil_iff.mp hnil).2
        · exact hline (List.mem_of_getLast? hlast)
      subst hempty
      have hend := endLine_of_isGarbled hgarbled
      rw [hinput, feed_of_no_newline hbad, utf8_nil, List.nil_append,
        feed_of_endsLine hrest (by rw [hend]), hend, hsplit, List.append_nil]
      rfl
  | exhausted =>
      have hopen : (within (utf8 line)).finished = false := rfl
      have hopen' : (within []).finished = false := rfl
      have hlast := hinput []
      rw [List.append_nil] at hlast
      rw [hlast, hsplit, List.filterMap_append, List.append_assoc]
      simp [feed, finish, hopen, hopen', endLine_of_not_mem hquit', Stop.typed]

/-! ## What it does -/

theorem toNat_lt_of_ofDigit? {c : Char} {k : Key} (h : Key.ofDigit? c = some k) :
    c.toNat < 128 := by
  simp only [Key.ofDigit?, Hex.value?] at h
  split_ifs at h <;> omega

/-- The digits of the keys, in upper and in lower case. -/
theorem ofDigit?_eq_some_iff {c : Char} {k : Key} :
    Key.ofDigit? c = some k ↔
      Hex.alphabet[k.val]? = some c ∨ (Hex.alphabet.map Char.toLower)[k.val]? = some c := by
  have hupper : ∀ k : Key, Hex.alphabet[k.val]?.bind Key.ofDigit? = some k := by decide
  have hlower : ∀ k : Key,
      (Hex.alphabet.map Char.toLower)[k.val]?.bind Key.ofDigit? = some k := by decide
  have hall : ∀ (n : Fin 128) (k : Key), Key.ofDigit? (Char.ofNat n.val) = some k →
      Hex.alphabet[k.val]? = some (Char.ofNat n.val) ∨
        (Hex.alphabet.map Char.toLower)[k.val]? = some (Char.ofNat n.val) := by decide +kernel
  constructor
  · intro h
    have hdigit := hall ⟨c.toNat, toNat_lt_of_ofDigit? h⟩ k
    rw [Char.ofNat_toNat] at hdigit
    exact hdigit h
  · rintro (h | h)
    · have hk := hupper k
      rwa [h] at hk
    · have hk := hlower k
      rwa [h] at hk

/-- The white space of all scripts. -/
theorem isBlank_iff {c : Char} :
    isBlank c = true ↔
      9 ≤ c.toNat ∧ c.toNat ≤ 13 ∨ 0x2000 ≤ c.toNat ∧ c.toNat ≤ 0x200A ∨
        c.toNat ∈ [0x20, 0x85, 0xA0, 0x1680, 0x2028, 0x2029, 0x202F, 0x205F, 0x3000] := by
  simp only [isBlank, blankRanges, List.any_cons, List.any_nil, Bool.or_false, Bool.or_eq_true,
    Bool.and_eq_true, decide_eq_true_eq, List.mem_cons, List.not_mem_nil, or_false]
  omega

/-- The keys that a text presses. -/
def keysIn (t : List Char) : List Key :=
  t.filterMap Key.ofDigit?

/-- The characters of a text that mean nothing. -/
def ignoredIn (t : List Char) : List Char :=
  t.filter fun c => (Key.ofDigit? c).isNone && !isBlank c

/-- What there is to tell when no more of the input counts. -/
def Stop.told : Stop → List Notice
  | .quit => []
  | .unreadable => [.inputUnreadable Typing.notText, .inputEnded]
  | .exhausted => [.inputEnded]

namespace Typed

/-- What something typed does to the devices. -/
def events {ε : Type} : Typed → List (Event ε)
  | .key k => [.press k]
  | .quit | .ended => [.announce, .closeKeys]
  | .ignored _ | .unreadable _ => []

/-- The key that is pressed, if one is. -/
def keys : Typed → List Key
  | .key k => [k]
  | _ => []

/-- Whether the run is ended. -/
def endsRun : Typed → Bool
  | .quit | .ended => true
  | _ => false

/-- What there is to tell about something typed, whatever it finds. -/
def told : Typed → List Notice
  | .ignored c => [.inputIgnored c]
  | .unreadable reason => [.inputUnreadable reason]
  | .ended => [.inputEnded]
  | .key _ | .quit => []

/-- What there is to tell about all that is typed, and by whoever ends the run, if it
is or is not over before. -/
def toldAll : Bool → List Typed → List Notice
  | _, [] => []
  | isOver, x :: rest =>
    x.told ++ (if x.endsRun && !isOver then [.shuttingDown] else []) ++
      toldAll (isOver || x.endsRun) rest

/-- The three kinds of characters: digits, others that are not blank, and blanks. -/
theorem ofChar?_cases (c : Char) :
    (∃ k, Key.ofDigit? c = some k ∧ ofChar? c = some (.key k)) ∨
    (Key.ofDigit? c = none ∧ isBlank c = false ∧ ofChar? c = some (.ignored c)) ∨
    (Key.ofDigit? c = none ∧ isBlank c = true ∧ ofChar? c = none) := by
  unfold ofChar?
  cases Key.ofDigit? c with
  | some k => exact Or.inl ⟨k, rfl, rfl⟩
  | none =>
      cases isBlank c with
      | false => exact Or.inr (Or.inl ⟨rfl, rfl, rfl⟩)
      | true => exact Or.inr (Or.inr ⟨rfl, rfl, rfl⟩)

/-- A text has its keys pressed and its other characters told, and does not end the
run. -/
theorem of_text (t : List Char) :
    (t.filterMap ofChar?).flatMap keys = keysIn t ∧
      (t.filterMap ofChar?).any endsRun = false ∧
      ∀ isOver rest, toldAll isOver (t.filterMap ofChar? ++ rest) =
        (ignoredIn t).map .inputIgnored ++ toldAll isOver rest := by
  induction t with
  | nil => exact ⟨rfl, rfl, fun _ _ => rfl⟩
  | cons c t ih =>
      obtain ⟨hkeys, hends, htold⟩ := ih
      rw [keysIn, ignoredIn] at *
      rcases ofChar?_cases c with
        ⟨k, hkey, hchar⟩ | ⟨hkey, hblank, hchar⟩ | ⟨hkey, hblank, hchar⟩
      · rw [List.filterMap_cons_some hchar, List.filterMap_cons_some hkey]
        refine ⟨congrArg (k :: ·) hkeys, hends, fun isOver rest => ?_⟩
        have hrest := htold (isOver || false) rest
        simpa [toldAll, told, endsRun, hkey] using hrest
      · rw [List.filterMap_cons_some hchar, List.filterMap_cons_none hkey]
        refine ⟨hkeys, hends, fun isOver rest => ?_⟩
        have hrest := htold (isOver || false) rest
        simpa [toldAll, told, endsRun, hkey, hblank] using hrest
      · rw [List.filterMap_cons_none hchar, List.filterMap_cons_none hkey]
        refine ⟨hkeys, hends, fun isOver rest => ?_⟩
        have hrest := htold isOver rest
        simpa [hkey, hblank] using hrest

/-- When no more of the input counts, no key is pressed, and the run is ended. -/
theorem of_stop (stop : Stop) :
    stop.typed.flatMap keys = [] ∧ stop.typed.any endsRun = true ∧
      ∀ isOver, toldAll isOver stop.typed =
        stop.told ++ if isOver then [] else [.shuttingDown] := by
  refine ⟨by cases stop <;> rfl, by cases stop <;> rfl, ?_⟩
  intro isOver
  cases stop <;> cases isOver <;> rfl

end Typed

/-! ## A machine that is left alone -/

/-- What is told goes to the end of the log. -/
theorem log_append (log : Array Notice) (ns ms : List Notice) :
    log ++ ns ++ ms = log ++ (ns ++ ms) :=
  Array.toList_inj.mp (by simp)

theorem tell_tell (s : Simulation) (ns ms : List Notice) :
    (s.tell ns).tell ms = s.tell (ns ++ ms) := by
  simp only [Simulation.tell, List.filter_append, log_append]

namespace Typed

/-- What something typed does to a machine.  Nothing but the queue of keys, the two
flags of the end and the log is changed. -/
theorem apply_eq (x : Typed) (s : Simulation) :
    x.apply s = { s with
      devices := { s.devices with
        keys := ⟨s.devices.keys.keys ++ x.keys, s.devices.keys.closed || x.endsRun⟩
        down := s.devices.down || x.endsRun }
      log := s.log ++
        (x.told ++ if x.endsRun && !s.devices.down then [.shuttingDown] else [] :
          List Notice).filter fun n => n.level.rank ≤ s.verbosity.count + 1 } := by
  have hnews : s.devices.shutDown.2 = if !s.devices.down then [.shuttingDown] else [] := by
    rw [Devices.shutDown_log]
    cases s.devices.down <;> rfl
  cases x with
  | key k => simp [apply, Simulation.press, Devices.press, KeyQueue.push, keys, endsRun, told]
  | ignored c | unreadable reason =>
      simp [apply, Simulation.tell, Verbosity.shows, keys, endsRun, told]
  | quit =>
      simp only [keys, endsRun, told, List.append_nil, List.nil_append, Bool.or_true,
        Bool.true_and, ← hnews]
      rfl
  | ended =>
      simp only [keys, endsRun, told, List.append_nil, Bool.or_true, Bool.true_and, ← hnews]
      exact tell_tell { s with devices := s.devices.shutDown.1 } [.inputEnded] _

/-- What all that is typed does to a machine, one after the other. -/
theorem foldl_apply (all : List Typed) (s : Simulation) :
    all.foldl apply s = { s with
      devices := { s.devices with
        keys :=
          ⟨s.devices.keys.keys ++ all.flatMap keys, s.devices.keys.closed || all.any endsRun⟩
        down := s.devices.down || all.any endsRun }
      log := s.log ++ (toldAll s.devices.down all).filter
        fun n => n.level.rank ≤ s.verbosity.count + 1 } := by
  induction all generalizing s with
  | nil => simp [toldAll]
  | cons x all ih =>
      rw [List.foldl_cons, ih, apply_eq]
      simp only [List.flatMap_cons, List.any_cons, toldAll, List.filter_append, log_append,
        List.append_assoc, Bool.or_assoc]

theorem applyAll_append (s : Simulation) (xs ys : List Typed) :
    applyAll [] s (xs ++ ys) = applyAll [] (applyAll [] s xs) ys := by
  simp only [applyAll_eq_foldl, List.reverse_nil, Simulation.pressAll_nil, List.foldl_append]

/-- What something typed does to the devices is what the events do that it comes to. -/
theorem devices_apply {ε : Type} (x : Typed) (s : Simulation) :
    (x.apply s).devices = Event.applyAll (x.events : List (Event ε)) s.devices := by
  cases x <;> rfl

/-- As long as nothing ends the run, keys are pressed and no more. -/
theorem events_of_presses {ε : Type} {all : List Typed} (h : all.any endsRun = false) :
    all.flatMap events = (all.flatMap keys).map fun k => (.press k : Event ε) := by
  induction all with
  | nil => rfl
  | cons x all ih =>
      obtain ⟨hx, hall⟩ : x.endsRun = false ∧ all.any endsRun = false :=
        Bool.or_eq_false_iff.mp h
      rw [List.flatMap_cons, List.flatMap_cons, List.map_append, ih hall]
      cases x with
      | key k => rfl
      | ignored c | unreadable reason => rfl
      | quit | ended => cases hx

end Typed

/-! ## Pieces of the input -/

namespace Typing

theorem feed_append (t : Typing) (bs cs : List UInt8) :
    t.feed (bs ++ cs) =
      (((t.feed bs).1.feed cs).1, (t.feed bs).2 ++ ((t.feed bs).1.feed cs).2) := by
  induction bs generalizing t with
  | nil => rfl
  | cons b bs ih =>
      by_cases hfinished : t.finished = true
      · rw [feed_of_finished hfinished, feed_of_finished hfinished, feed_of_finished hfinished]
        rfl
      · by_cases hb : b = 10
        · simp [feed, hfinished, hb, ih]
        · simp [feed, hfinished, hb, ih]

end Typing

namespace Session

theorem type_nil (s : Session) : s.type [] = s := by
  simp [type, typed, Typing.feed, Typed.applyAll, Simulation.pressAll_nil]

theorem type_type (s : Session) (bs cs : List UInt8) :
    (s.type bs).type cs = s.type (bs ++ cs) := by
  simp only [type, typed, Typing.feed_append, Typed.applyAll_append]

/-- In how many pieces the input comes makes no difference. -/
theorem foldl_type (s : Session) (pieces : List (List UInt8)) :
    pieces.foldl type s = s.type pieces.flatten := by
  induction pieces generalizing s with
  | nil => exact s.type_nil.symm
  | cons piece pieces ih => rw [List.foldl_cons, ih, type_type, List.flatten_cons]

/-- What comes of a whole input. -/
theorem endInput_type (s : Session) (h : s.typing = .initial) (input : List UInt8) :
    ((s.type input).endInput).simulation =
      Typed.applyAll [] s.simulation (Typing.ofInput input) := by
  simp only [type, endInput, typed, h, Typing.ofInput, Typed.applyAll_append]

/-- A read that fails loses the beginning of a line.  The reason is told, and the run
is ended. -/
theorem failInput_simulation (s : Session) (h : s.typing.finished = false) (reason : String) :
    (s.failInput reason).simulation = { s.simulation with
      devices := { s.simulation.devices with
        keys := ⟨s.simulation.devices.keys.keys, true⟩
        down := true }
      log := s.simulation.log ++
        (.inputUnreadable reason :: .inputEnded ::
          if s.simulation.devices.down then [] else [.shuttingDown] : List Notice).filter
            fun n => n.level.rank ≤ s.simulation.verbosity.count + 1 } := by
  have hfail : s.typing.fail reason = (⟨[], true⟩, [.unreadable reason, .ended]) := by
    simp [Typing.fail, Typing.breakOff, h]
  simp only [failInput, typed, hfail, Typed.applyAll_eq_foldl, List.reverse_nil,
    Simulation.pressAll_nil, Typed.foldl_apply]
  cases s.simulation.devices.down <;> simp [Typed.keys, Typed.endsRun, Typed.toldAll, Typed.told]

end Session

/-! ## The whole -/

/-- A machine after the part of an input that counts. -/
theorem applyAll_of_counts {input : List UInt8} {t : List Char} {stop : Stop}
    (h : Counts input t stop) (s : Simulation) :
    Typed.applyAll [] s (Typing.ofInput input) = { s with
      devices := { s.devices with
        keys := ⟨s.devices.keys.keys ++ keysIn t, true⟩
        down := true }
      log := s.log ++
        ((ignoredIn t).map .inputIgnored ++ stop.told ++
          if s.devices.down then [] else [.shuttingDown] : List Notice).filter
            fun n => n.level.rank ≤ s.verbosity.count + 1 } := by
  obtain ⟨hkeys, hends, htold⟩ := Typed.of_text t
  obtain ⟨hnone, hover, hnews⟩ := Typed.of_stop stop
  rw [ofInput_of_counts h, Typed.applyAll_eq_foldl, List.reverse_nil, s.pressAll_nil,
    Typed.foldl_apply, List.flatMap_append, List.any_append, htold, hkeys, hends, hnone, hover,
    hnews, List.append_nil, Bool.false_or, Bool.or_true, Bool.or_true, List.append_assoc]

theorem text_of_warning {n : Notice} (h : n.level = .warn) : n.text = "WARN: " ++ n.message := by
  rw [Notice.text, h]
  exact congrArg (· ++ n.message) (by decide : "WARN" ++ ": " = "WARN: ")

/-- Warnings are told at any verbosity. -/
theorem warnings_filter (ns : List Notice) (verbosity : Nat) :
    (ns.filter fun n => n.level.rank ≤ verbosity + 1).filter (fun n => n.level = .warn) =
      ns.filter fun n => n.level = .warn := by
  rw [List.filter_filter]
  refine List.filter_congr fun n _ => ?_
  by_cases hwarn : n.level = .warn
  · simp [hwarn, Level.rank]
  · simp [hwarn]

/-- The warnings among what is told of an input. -/
theorem warnings_told (t : List Char) (stop : Stop) (isOver : Bool) :
    ((ignoredIn t).map .inputIgnored ++ stop.told ++
        if isOver then [] else [.shuttingDown] : List Notice).filter (fun n => n.level = .warn) =
      (ignoredIn t).map .inputIgnored ++
        if stop = .unreadable then [.inputUnreadable Typing.notText] else [] := by
  have hignored : ((ignoredIn t).map Notice.inputIgnored).filter (fun n => n.level = .warn) =
      (ignoredIn t).map .inputIgnored := by
    rw [List.filter_eq_self]
    intro n hn
    obtain ⟨c, -, rfl⟩ := List.mem_map.mp hn
    rfl
  rw [List.append_assoc, List.filter_append, hignored]
  cases stop <;> cases isOver <;> rfl

/-- **What is typed is what is pressed.**  Of every input some part counts: up to the
first `q` that is reached, or the first line that is no text, or the end.  Whichever
part this is, its digits go to the end of the queue of keys, in upper and lower case,
one key each and in their order; then the run is over and the queue is closed, and
nothing is pressed after that.  There is one warning for each of its characters that
is neither a digit nor blank, in their order, and one more if a line was no text, at
any verbosity.  Line breaks and carriage returns come to nothing.  Besides the queue,
the news and the log nothing is changed.

In how many pieces the input comes makes no difference, and whatever else the machine
does between two characters does not matter: all that is typed is done one after the
other, and each changes the machine, whatever it is by then, in this way. -/
theorem typing_presses_digits {ε : Type} (input : List UInt8) :
    (∃ t stop, Counts input t stop) ∧
    (∀ t stop, Counts input t stop →
      (Typing.ofInput input).flatMap Typed.events =
        (keysIn t).map (fun k => (.press k : Event ε)) ++ [.announce, .closeKeys] ∧
      ∀ s : Simulation,
        Typed.applyAll [] s (Typing.ofInput input) = { s with
          devices := { s.devices with
            keys := ⟨s.devices.keys.keys ++ keysIn t, true⟩
            down := true }
          log := s.log ++
            ((ignoredIn t).map .inputIgnored ++ stop.told ++
              if s.devices.down then [] else [.shuttingDown] : List Notice).filter
                fun n => n.level.rank ≤ s.verbosity.count + 1 } ∧
        (Typed.applyAll [] s (Typing.ofInput input)).log.toList.filter
            (fun n => n.level = .warn) =
          s.log.toList.filter (fun n => n.level = .warn) ++ (ignoredIn t).map .inputIgnored ++
            if stop = .unreadable then
              [.inputUnreadable "stream did not contain valid UTF-8"] else []) ∧
    (∀ (s : Session) (pieces : List (List UInt8)), s.typing = .initial →
      pieces.flatten = input →
      (pieces.foldl Session.type s).endInput.simulation =
        Typed.applyAll [] s.simulation (Typing.ofInput input)) ∧
    (∀ (s : Simulation) (all : List Typed), Typed.applyAll [] s all = all.foldl Typed.apply s) ∧
    (∀ (s : Simulation) (x : Typed),
      (x.apply s).devices = Event.applyAll (x.events : List (Event ε)) s.devices ∧
      x.apply s = { s with
        devices := { s.devices with
          keys := ⟨s.devices.keys.keys ++ x.keys, s.devices.keys.closed || x.endsRun⟩
          down := s.devices.down || x.endsRun }
        log := s.log ++
          (x.told ++ if x.endsRun && !s.devices.down then [.shuttingDown] else [] :
            List Notice).filter fun n => n.level.rank ≤ s.verbosity.count + 1 }) ∧
    (∀ (c : Char) (k : Key), Key.ofDigit? c = some k ↔
      Hex.alphabet[k.val]? = some c ∨ (Hex.alphabet.map Char.toLower)[k.val]? = some c) ∧
    (∀ c, isBlank c = true ↔
      9 ≤ c.toNat ∧ c.toNat ≤ 13 ∨ 0x2000 ≤ c.toNat ∧ c.toNat ≤ 0x200A ∨
        c.toNat ∈ [0x20, 0x85, 0xA0, 0x1680, 0x2028, 0x2029, 0x202F, 0x205F, 0x3000]) ∧
    (∀ c, c = '\r' ∨ c = '\n' → Typed.ofChar? c = none) ∧
    (∀ c, (Notice.inputIgnored c).text =
      "WARN: " ++ ("ignoring input '" ++ String.singleton c ++ "'")) ∧
    ∀ reason, (Notice.inputUnreadable reason).text =
      "WARN: " ++ ("could not read input: " ++ reason) := by
  refine ⟨exists_counts input, ?_, ?_, ?_, ?_, fun c k => ofDigit?_eq_some_iff,
    fun c => isBlank_iff, ?_, fun c => text_of_warning rfl, fun reason => text_of_warning rfl⟩
  · intro t stop h
    refine ⟨?_, fun s => ⟨applyAll_of_counts h s, ?_⟩⟩
    · obtain ⟨hkeys, hends, -⟩ := Typed.of_text t
      rw [ofInput_of_counts h, List.flatMap_append, Typed.events_of_presses hends, hkeys]
      cases stop <;> rfl
    · rw [applyAll_of_counts h s, Array.toList_appendList, List.filter_append, warnings_filter,
        warnings_told, List.append_assoc]
      rfl
  · rintro s pieces hstart rfl
    rw [Session.foldl_type, Session.endInput_type s hstart]
  · intro s all
    rw [Typed.applyAll_eq_foldl, List.reverse_nil, s.pressAll_nil]
  · exact fun s x => ⟨x.devices_apply s, x.apply_eq s⟩
  · rintro c (rfl | rfl) <;> rfl

/-- A line of text, and one in which a byte is out of place. -/
def misspelt : List UInt8 :=
  utf8 ['5', 'x', '\r', '\n'] ++ ([0x41, 0xFF] ++ [10, 0x37])

theorem counts_misspelt : Counts misspelt ['5', 'x', '\r', '\n'] .unreadable := by
  have hgarbled : IsGarbled [0x41, 0xFF] := by
    intro cs hcs
    have hvalid : ByteArray.IsValidUTF8 [0x41, 0xFF].toByteArray := by
      rw [hcs]
      exact ⟨cs, rfl⟩
    exact absurd hvalid (by decide +kernel)
  exact .unreadable _ _ _ (by decide) (Or.inr rfl) hgarbled (by decide) (Or.inr ⟨_, rfl⟩)

/-- A session with one key pressed. -/
def rehearsed : Session :=
  .start { Simulation.start .standard .initial (Devices.initial.press (.ofByte 0xB)) ⟨0⟩
    (.ofSeed 1) with log := #[.programOdd] } false

/-- `typing_presses_digits` for a line that is text and one that is not, in two pieces:
the digit `A` of the second line is not pressed.  At this verbosity, only warnings are
kept. -/
theorem typing_presses_digits_misspelt :
    Counts misspelt ['5', 'x', '\r', '\n'] .unreadable ∧
    (Typing.ofInput misspelt).flatMap Typed.events =
      [(.press (Key.ofByte 5) : Event Empty), .announce, .closeKeys] ∧
    (([misspelt.take 5, misspelt.drop 5].foldl Session.type rehearsed).endInput.simulation =
        { rehearsed.simulation with
          devices := { Devices.initial with
            keys := ⟨[Key.ofByte 0xB, Key.ofByte 5], true⟩
            down := true }
          log := #[.programOdd, .inputIgnored 'x',
            .inputUnreadable "stream did not contain valid UTF-8"] }) ∧
    Typed.applyAll [] rehearsed.simulation (Typing.ofInput misspelt) =
      (Typing.ofInput misspelt).foldl Typed.apply rehearsed.simulation ∧
    (Typed.applyAll [] rehearsed.simulation (Typing.ofInput misspelt)).log.toList.filter
        (fun n => n.level = .warn) =
      [.programOdd, .inputIgnored 'x', .inputUnreadable "stream did not contain valid UTF-8"] ∧
    Typed.ofChar? '\r' = none := by
  obtain ⟨-, hcounts, hpieces, hfold, -, -, -, hblank, -, -⟩ :=
    @typing_presses_digits Empty misspelt
  obtain ⟨hevents, hmachine⟩ := hcounts _ _ counts_misspelt
  obtain ⟨hend, hwarnings⟩ := hmachine rehearsed.simulation
  refine ⟨counts_misspelt, hevents, ?_, hfold _ _, hwarnings, hblank '\r' (Or.inl rfl)⟩
  rw [hpieces rehearsed _ rfl rfl, hend]
  rfl

end Chip8.Console
