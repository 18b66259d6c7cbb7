import Chip8.Console.Disk.Furniture
import Chip8.Console.ListCommand
import Chip8.Proofs.Recovery

/-!
# What is left where a listing went

The listing command opens its source, makes its target, reads and writes, and each
of these acts finds the disk that the one before has left.  So the program that is
listed is what the source holds once the target is there (`write_of_success`).  Making
the target empties it and touches nothing else (`openTarget_eq_ok`): what is listed is
what the source held at the beginning, unless the source is the target.  Then it is
nothing, and a program of two bytes or more is lost for an empty listing.
-/

set_option autoImplicit false

namespace Chip8.Console

/-- The bytes of a text in a file. -/
def textBytes (text : String) : List UInt8 :=
  text.toUTF8.data.toList

theorem textBytes_inj {text other : String} : textBytes text = textBytes other ↔ text = other := by
  constructor
  · intro h
    exact String.toByteArray_inj.mp (ByteArray.ext (Array.toList_inj.mp h))
  · rintro rfl
    rfl

/-- The listing of a program with less than one word is empty, and no other is. -/
theorem text_nil_eq_iff {p : List UInt8} :
    Listing.text [] = Listing.text p ↔ p.length < 2 := by
  rw [Listing.text_eq_iff, List.length_nil]
  constructor
  · rintro ⟨hlength, -⟩
    omega
  · intro hlength
    exact ⟨by omega, rfl⟩

namespace Disk

/-! ## What files hold -/

/-- The bytes that are read from an open file. -/
def held (d : Disk) : Place → List UInt8
  | .directory => []
  | .file path => (d.file? path).getD []
  | .device (.constant bytes _) => bytes
  | .device .input => d.input
  | .device (.unreadable _ _) | .device .output | .device .errors => []

/-- The disk once a target is made on it: a file is empty. -/
def made (d : Disk) : Place → Disk
  | .file path => d.put path []
  | .directory | .device _ => d

theorem held_made_file (d : Disk) (path : List String) (source : Place) :
    (d.made (.file path)).held source = if source = .file path then [] else d.held source := by
  cases source with
  | directory => rfl
  | file other =>
      simp only [made, held, file?_put, Place.file.injEq]
      split <;> rfl
  | device device => cases device <;> rfl

/-- What was opened makes no difference to either. -/
theorem held_opened (d : Disk) (opened : List (List String)) (source : Place) :
    ({ d with opened } : Disk).held source = d.held source := by
  cases source with
  | directory | file => rfl
  | device device => cases device <;> rfl

theorem made_opened (d : Disk) (opened : List (List String)) (target : Place) :
    ({ d with opened } : Disk).made target = { d.made target with opened } := by
  cases target <;> rfl

/-! ## Acts that succeed -/

section Acts

variable {d d' : Disk} {name text : String} {source target : Place} {bytes : List UInt8}

theorem openFile_eq_ok (h : (host.openFile name).run d = (.ok source, d')) :
    ∃ opened, d' = { d with opened } := by
  have hopen : d.openFile name = .ok (source, d') := by
    simp only [host, StateT.run] at h
    split at h <;> cases h
    assumption
  simp only [openFile] at hopen
  repeat' split at hopen
  all_goals cases hopen
  all_goals exact ⟨_, rfl⟩

theorem createFile_eq_ok (h : (host.createFile name).run d = (.ok target, d')) :
    ∃ opened, d' = { d.made target with opened } := by
  have hcreate : d.createFile name = .ok (target, d') := by
    simp only [host, StateT.run] at h
    split at h <;> cases h
    assumption
  simp only [createFile] at hcreate
  repeat' split at hcreate
  all_goals cases hcreate
  all_goals exact ⟨_, rfl⟩

theorem readAll_eq_ok (h : (host.readAll source).run d = (.ok bytes, d')) :
    bytes = d.held source ∧ ∃ input, d' = { d with input } := by
  have hread : d.readAll source = .ok (bytes, d') := by
    simp only [host, StateT.run] at h
    split at h <;> cases h
    assumption
  unfold readAll at hread
  split at hread
  all_goals cases hread
  all_goals exact ⟨rfl, _, rfl⟩

theorem write_eq_ok (h : (host.write target text).run d = (.ok (), d')) :
    d.write text target = .ok d' := by
  simp only [host, StateT.run] at h
  split at h <;> cases h
  assumption

/-- A device other than the output takes a text to where it cannot be read. -/
theorem write_device_eq_ok {device : Device} (hdevice : device ≠ .output)
    (h : d.write text (.device device) = .ok d') : ∃ errors, d' = { d with errors } := by
  cases device with
  | output => exact absurd rfl hdevice
  | input | errors =>
      cases h
      exact ⟨_, rfl⟩
  | constant _ refusal | unreadable _ refusal =>
      cases refusal with
      | none =>
          cases h
          exact ⟨_, rfl⟩
      | some e =>
          simp only [write] at h
          split at h <;> cases h
          exact ⟨_, rfl⟩

/-- A file that was made and written to holds what was written. -/
theorem written_of_write_made {path : List String} {opened : List (List String)}
    {input : List UInt8}
    (h : ({ d.put path [] with opened, input } : Disk).write text (.file path) = .ok d') :
    d'.file? path = some (textBytes text) ∧
      ∀ other, path ≠ other → d'.lookup other = d.lookup other := by
  have hempty : ({ d.put path [] with opened, input } : Disk).file? path = some [] :=
    (d.file?_put path path []).trans (if_pos rfl)
  rw [write, hempty] at h
  cases h
  refine ⟨(file?_put _ _ _ _).trans (if_pos rfl), fun other hne => ?_⟩
  exact ((lookup_put _ _ _ _).trans (if_neg (Ne.symm hne))).trans
    ((d.lookup_put _ _ _).trans (if_neg (Ne.symm hne)))

theorem run_bind_of_run {α β : Type} {act : StateM Disk α} {next : α → StateM Disk β} {a : α}
    (h : act.run d = (a, d')) : (act >>= next).run d = (next a).run d' := by
  rw [StateT.run_bind, h]
  rfl

end Acts

end Disk

namespace ListCommand

/-! ## A command that succeeds -/

/-- Where the two names lead: the source is opened on the disk, and the target is made
on what the disk is then. -/
structure Leads (c : ListCommand) (d : Disk) (source target : Place) : Prop where
  source : ((c.openSource Disk.host).run d).1 = .ok source
  target : ((c.openTarget Disk.host).run ((c.openSource Disk.host).run d).2).1 = .ok target

section Success

variable {c : ListCommand} {d d' : Disk} {source target : Place}

theorem openSource_eq_ok (h : (c.openSource Disk.host).run d = (.ok source, d')) :
    ∃ opened, d' = { d with opened } := by
  unfold openSource at h
  split at h
  · cases h
    exact ⟨_, rfl⟩
  · exact Disk.openFile_eq_ok h

theorem openTarget_eq_ok (h : (c.openTarget Disk.host).run d = (.ok target, d')) :
    ∃ opened, d' = { d.made target with opened } := by
  unfold openTarget at h
  split at h
  · cases h
    exact ⟨_, rfl⟩
  · exact Disk.createFile_eq_ok h

/-- A command that succeeds has written the listing of what the source held once the
target was there. -/
theorem write_of_success (h : ((c.run Disk.host).run d).1.code = 0) :
    ∃ source target, c.Leads d source target ∧ ∃ opened input,
      ({ d.made target with opened, input } : Disk).write
        (Listing.text ((d.made target).held source)) target =
          .ok ((c.run Disk.host).run d).2 := by
  rw [run] at h ⊢
  rcases hsource : (c.openSource Disk.host).run d with ⟨_ | source, d₁⟩
  · rw [Disk.run_bind_of_run hsource] at h
    cases h
  rw [Disk.run_bind_of_run hsource] at h ⊢
  rcases htarget : (c.openTarget Disk.host).run d₁ with ⟨_ | target, d₂⟩
  · rw [Disk.run_bind_of_run htarget] at h
    cases h
  rw [Disk.run_bind_of_run htarget] at h ⊢
  rcases hread : (Disk.host.readAll source).run d₂ with ⟨_ | program, d₃⟩
  · rw [Disk.run_bind_of_run hread] at h
    cases h
  rw [Disk.run_bind_of_run hread] at h ⊢
  rcases hwrite : (Disk.host.write target (Listing.text program)).run d₃ with ⟨_ | _, d₄⟩
  · rw [Disk.run_bind_of_run hwrite] at h
    cases h
  rw [Disk.run_bind_of_run hwrite]
  have hleads : c.Leads d source target :=
    ⟨congrArg Prod.fst hsource, by rw [hsource]; exact congrArg Prod.fst htarget⟩
  have hwritten := Disk.write_eq_ok hwrite
  obtain ⟨_, rfl⟩ := openSource_eq_ok hsource
  obtain ⟨_, rfl⟩ := openTarget_eq_ok htarget
  obtain ⟨rfl, _, rfl⟩ := Disk.readAll_eq_ok hread
  rw [Disk.made_opened, Disk.held_opened, Disk.held_opened] at hwritten
  exact ⟨source, target, hleads, _, _, hwritten⟩

theorem Leads.eq_input (h : c.Leads d source target) (hname : c.source = standardStream) :
    source = .device .input := by
  have hsource := h.source
  rw [openSource, if_pos hname] at hsource
  exact (Except.ok.inj hsource).symm

theorem Leads.eq_output (h : c.Leads d source target) (hname : c.target = standardStream) :
    target = .device .output := by
  have htarget := h.target
  rw [openTarget, if_pos hname] at htarget
  exact (Except.ok.inj htarget).symm

/-- What the source holds is what the file of its name holds. -/
theorem Leads.held_eq {bytes : List UInt8} (h : c.Leads d source target)
    (hname : c.source ≠ standardStream) (hbytes : d.contents? c.source = some bytes) :
    d.held source = bytes := by
  have hsource := h.source
  rw [openSource, if_neg hname] at hsource
  simp only [Disk.host, StateT.run] at hsource
  unfold Disk.contents? at hbytes
  split at hbytes
  · rename_i hopen
    rw [hopen] at hsource
    obtain rfl := Except.ok.inj hsource
    rw [Disk.held, hbytes, Option.getD_some]
  · rename_i hopen
    rw [hopen] at hsource
    obtain rfl := Except.ok.inj hsource
    exact Option.some.inj hbytes
  · cases hbytes

end Success

/-! ## What is left -/

/-- **The listing is all that is left where it went.**  A command that succeeds leaves
in the file that it was sent to, new or not, the listing of what its source held at the
beginning, and no more, unless that file is the source.  Then it leaves the listing of
nothing, and that is not the listing of a program of two bytes or more.  To the output
it adds the listing, and adds nothing if the listing goes elsewhere.  No other file
changes.

Standard input is apart from all files here, and two names are one file only by a link,
or by the number of an opened file.  An input that is itself fed from the target would
be lost like a source that is the target. -/
theorem listing_is_left (c : ListCommand) (d : Disk)
    (h : ((c.run Disk.host).run d).1.code = 0) :
    ∃ source target, c.Leads d source target ∧
      (c.source = standardStream → source = .device .input) ∧
      (c.target = standardStream → target = .device .output) ∧
      (∀ bytes, c.source ≠ standardStream → d.contents? c.source = some bytes →
        d.held source = bytes) ∧
      (∀ path, target = .file path →
        ((c.run Disk.host).run d).2.file? path = some (textBytes
          (Listing.text (if source = .file path then [] else d.held source))) ∧
        (((c.run Disk.host).run d).2.file? path = some (textBytes (Listing.text (d.held source))) ↔
          source ≠ .file path ∨ (d.held source).length < 2)) ∧
      (target = .device .output →
        ((c.run Disk.host).run d).2.output = d.output ++ Listing.text (d.held source)) ∧
      (target ≠ .device .output → ((c.run Disk.host).run d).2.output = d.output) ∧
      ∀ path, target ≠ .file path →
        ((c.run Disk.host).run d).2.lookup path = d.lookup path := by
  obtain ⟨source, target, hleads, opened, input, hwrite⟩ := write_of_success h
  refine ⟨source, target, hleads, hleads.eq_input, hleads.eq_output, fun _ => hleads.held_eq, ?_⟩
  generalize ((c.run Disk.host).run d).2 = final at hwrite ⊢
  cases target with
  | directory => cases hwrite
  | file path =>
      obtain ⟨hfile, hothers⟩ := Disk.written_of_write_made hwrite
      rw [d.held_made_file path source] at hfile
      refine ⟨?_, nofun, fun _ => ?_, fun other hother => hothers other (by simpa using hother)⟩
      · rintro _ ⟨⟩
        refine ⟨hfile, ?_⟩
        rw [hfile, Option.some.injEq, textBytes_inj]
        by_cases hsame : source = .file path
        · simp [hsame, text_nil_eq_iff]
        · simp [hsame]
      · cases hwrite
        rfl
  | device device =>
      refine ⟨nofun, ?_⟩
      by_cases hdevice : device = .output
      · subst hdevice
        cases hwrite
        exact ⟨fun _ => rfl, fun hne => absurd rfl hne, fun _ _ => rfl⟩
      · obtain ⟨errors, rfl⟩ := Disk.write_device_eq_ok hdevice hwrite
        exact ⟨fun hout => absurd (Place.device.inj hout) hdevice, fun _ => rfl, fun _ _ => rfl⟩

/-- A disk with a program of one word, and with a file of some other bytes. -/
def shelf : Disk :=
  .ofFiles "chip8disasm" [("p", [0x00, 0xE0]), ("o", [0x6F, 0x6C, 0x64])] []

/-- The listing of the program goes to a file of the shelf. -/
def onto (name : String) : ListCommand :=
  ⟨"p", name, ⟨0⟩⟩

/-- `listing_is_left` for a file that held something else before. -/
theorem listing_is_left_in_other_file :
    (((onto "o").run Disk.host).run shelf).1.code = 0 ∧
      (((onto "o").run Disk.host).run shelf).2.file? (Disk.workplace ++ ["o"]) =
        some (textBytes "200  00E0  CLS\n") ∧
      (((onto "o").run Disk.host).run shelf).2.output = "" ∧
      (((onto "o").run Disk.host).run shelf).2.lookup (Disk.workplace ++ ["p"]) =
        some (.file [0x00, 0xE0]) := by
  have hcode : (((onto "o").run Disk.host).run shelf).1.code = 0 := by decide +kernel
  obtain ⟨source, target, ⟨hsource, htarget⟩, -, -, -, hfile, -, houtput, hothers⟩ :=
    listing_is_left (onto "o") shelf hcode
  obtain rfl : source = .file (Disk.workplace ++ ["p"]) :=
    Except.ok.inj (hsource.symm.trans rfl)
  obtain rfl : target = .file (Disk.workplace ++ ["o"]) :=
    Except.ok.inj (htarget.symm.trans rfl)
  have hlisting : Listing.text (shelf.held (.file (Disk.workplace ++ ["p"]))) =
      "200  00E0  CLS\n" := by decide +kernel
  have hother : Place.file (Disk.workplace ++ ["p"]) ≠ .file (Disk.workplace ++ ["o"]) := by decide
  refine ⟨hcode, ?_, houtput nofun, hothers _ hother.symm⟩
  rw [(hfile _ rfl).1, if_neg hother, hlisting]

/-- If the listing goes to the file of its own program, neither of them is left. -/
theorem listing_is_lost_in_own_file :
    (((onto "p").run Disk.host).run shelf).1.code = 0 ∧
      shelf.file? (Disk.workplace ++ ["p"]) = some [0x00, 0xE0] ∧
      (((onto "p").run Disk.host).run shelf).2.file? (Disk.workplace ++ ["p"]) = some [] ∧
      textBytes (Listing.text [0x00, 0xE0]) ≠ [] := by
  decide +kernel

/-- A second name of the file is no better. -/
example : (((onto "/proc/self/cwd/p").run Disk.host).run shelf).2.file?
    (Disk.workplace ++ ["p"]) = some [] := by
  decide +kernel

end ListCommand

end Chip8.Console
