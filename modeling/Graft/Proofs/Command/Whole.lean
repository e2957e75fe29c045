import Mathlib.Data.List.Basic
import Graft.Command.Run
import Graft.Fetch.Archive
import Graft.Proofs.Disk.Writing
import Graft.Proofs.Fetch.Attempts
import Graft.Proofs.Note.Replacement
import Graft.Proofs.Report

/-!
# Commands are all or nothing

A command works out a plan, and writes as its last act: whatever fails before that leaves the disk as
it was, and so does the writing if it fails. A plan is all that it takes to succeed (`SyncPlan`,
`InlinePlan`), and there is at most one. A command either has none and fails, or has one and carries it
out (`sync?_cases`, `inline?_cases`); from this comes what it does to the disk (`SyncWhole`,
`InlineWhole`).
-/

namespace Graft

/-- The note names no reference, or has no block. -/
def CommandError.Lacks (e : CommandError) : Prop :=
  e = .note .noSourceReference ∨ e = .note .noInsertLocation

namespace Command

variable {σ : Type} {fetcher : Fetcher σ} {steps : Nat} {settings : Settings} {s : Surroundings}
  {path text : String} {note : Text} {r : Reference} {block : Block}
  {isDryRun isQuiet : Bool} {source : σ} {destination : Destination}

/-- The body that a sync writes into a block: a line that says what was synced and when, and behind it the
code without white space at its end. -/
def syncedBody (reference : Reference) (now : Timestamp) (code : Text) : Text :=
  "// Synced from ".toList ++ reference.display.toList ++ " at ".toList ++ now.print.toList ++
    '\n' :: (Text.trimEnd code ++ ['\n'])

/-- What a sync comes to before it writes: what it read in the note, the code that the note's reference
stands for, and the note with this code in its block. -/
structure SyncPlan (fetcher : Fetcher σ) (steps : Nat) (settings : Settings) (s : Surroundings)
    (path : String) (source : σ) where
  /-- The text of the note. -/
  note : Text
  /-- The reference that the note names. -/
  reference : Reference
  /-- The block of the note that the code goes into. -/
  block : Block
  /-- The URL of the entry. -/
  entry : String
  /-- What the entry comes to. -/
  output : Output
  /-- The text of the note with the code in its block. -/
  updated : Text
  /-- The note is the file at the path. -/
  read : s.disk.read path = .ok note
  /-- The note names the reference. -/
  names : Note.sourceReference note = .ok reference
  /-- The note holds the block. -/
  holds : Note.insertBlock note settings.output.heading = .ok block
  /-- The reference is inlined to the output. -/
  inlined : (inlineReference? fetcher steps settings reference source).map Inlined.result =
    some (.ok (entry, output))
  /-- What is written has no more characters than are allowed. -/
  fits : (syncedBody reference s.now output.code).length ≤ settings.output.maxChars.toNat
  /-- Only the body of the block is another one. -/
  rewritten : Note.Rewritten note block (syncedBody reference s.now output.code) updated

/-- A finished sync is all or nothing. -/
structure SyncWhole (fetcher : Fetcher σ) (steps : Nat) (settings : Settings) (s : Surroundings)
    (path : String) (isDryRun : Bool) (source : σ) (ran : Ran Synced σ) : Prop where
  /-- If it fails the disk is as it was. -/
  failed : ∀ e, ran.result = .error e → ran.disk = s.disk
  /-- For want of a reference or a block it fails before the fetcher is used. -/
  unasked : ∀ e, ran.result = .error e → e.Lacks → ran.source = source
  /-- If it is a dry run the disk is as it was. -/
  dryRun : isDryRun = true → ran.disk = s.disk
  /-- If it succeeds it had all that it takes, and the note is the only file that it wrote. -/
  done : ∀ synced, ran.result = .ok synced → ∃ plan : SyncPlan fetcher steps settings s path source,
    synced = ⟨path, plan.updated, !isDryRun, plan.output⟩ ∧
      (isDryRun = false → ∃ parts, s.disk.locate path = .ok (.file parts plan.note) ∧
        s.disk.Written ran.disk parts plan.updated ∧ ran.disk.read path = .ok plan.updated)
  /-- If it has all that it takes it succeeds, unless the note cannot be written. -/
  succeeds : ∀ plan : SyncPlan fetcher steps settings s path source,
    (isDryRun = false → ∃ disk, s.disk.write path plan.updated = .ok disk) →
      ∃ synced, ran.result = .ok synced
  /-- It leaves the printing to others. -/
  printed : ran.printed = []

/-- What an inlining comes to before it sends anything: code that is not too long. -/
structure InlinePlan (fetcher : Fetcher σ) (steps : Nat) (settings : Settings) (text : String)
    (source : σ) where
  /-- The reference on the command line. -/
  reference : Reference
  /-- The URL of the entry. -/
  entry : String
  /-- What the entry comes to. -/
  output : Output
  /-- The text on the command line is read as the reference. -/
  reads : Entry.reference text = .ok reference
  /-- The reference is inlined to the output. -/
  inlined : (inlineReference? fetcher steps settings reference source).map Inlined.result =
    some (.ok (entry, output))
  /-- The code has no more characters than are allowed. -/
  fits : output.code.length ≤ settings.output.maxChars.toNat

/-- Where an output went, by its destination: to one place and to no other. -/
inductive Delivered (s : Surroundings) (entry : String) (o : Output) :
    Destination → (printed : Text) → (disk : Disk) → Prop
  /-- The code was printed. -/
  | print : Delivered s entry o .print (o.code ++ ['\n']) s.disk
  /-- The code is what the file at the path has. -/
  | file {path : String} {place : Disk.Place} {disk : Disk} (hplace : s.disk.locate path = .ok place)
    (hdisk : s.disk.Written disk place.trail (o.code ++ ['\n']))
    (hread : disk.read path = .ok (o.code ++ ['\n'])) : Delivered s entry o (.file path) [] disk
  /-- The code was printed in a report: a JSON text of an object that has the code and the URL of the entry,
  each once, under their names. -/
  | report {t : Text} {j : Viewer.Json} (hwrites : Viewer.Json.Writes (.element j) t)
    (hcode : Viewer.Holds "code".toList (.string (some o.code)) j)
    (hentry : Viewer.Holds "entry".toList (.string (some entry.toList)) j) :
    Delivered s entry o .report (t ++ ['\n']) s.disk

/-- A finished inlining is all or nothing. -/
structure InlineWhole (fetcher : Fetcher σ) (steps : Nat) (settings : Settings) (s : Surroundings)
    (text : String) (destination : Destination) (source : σ) (ran : Ran Unit σ) : Prop where
  /-- If it fails the disk is as it was, and nothing was printed. -/
  failed : ∀ e, ran.result = .error e → ran.disk = s.disk ∧ ran.printed = []
  /-- If it succeeds it had code that is not too long, and this went to its destination. -/
  delivered : ran.result = .ok () → ∃ plan : InlinePlan fetcher steps settings text source,
    Delivered s plan.entry plan.output destination ran.printed ran.disk
  /-- If it has such code it succeeds, unless this is for a file that cannot be written. -/
  succeeds : ∀ plan : InlinePlan fetcher steps settings text source,
    (∀ path, destination = .file path →
      ∃ disk, s.disk.write path (plan.output.code ++ ['\n']) = .ok disk) → ran.result = .ok ()

/-! ## Reading a note, and inlining its reference -/

/-- The line that tells where code comes from, character by character. -/
theorem toList_comment (r : Reference) (now : Timestamp) : (Provenance.comment ⟨r.display, now⟩).toList =
    "// Synced from ".toList ++ r.display.toList ++ " at ".toList ++ now.print.toList := by
  unfold Provenance.comment
  -- Otherwise the digits of the time would be computed.
  generalize now.print = time
  simp only [toString, String.toList_append]

/-- What a note receives for code is the body that a sync writes. -/
theorem newBody_eq (code : Text) (r : Reference) (now : Timestamp) :
    Note.newBody code ⟨r.display, now⟩ = syncedBody r now code := by
  unfold Note.newBody syncedBody
  rw [toList_comment]
  simp only [List.append_assoc, List.cons_append, List.nil_append]

/-- A computation gives a value exactly if each of its two parts does. -/
theorem bind_eq_ok_iff {ε α β : Type} {x : Except ε α} {f : α → Except ε β} {b : β} :
    (x >>= f) = .ok b ↔ ∃ a, x = .ok a ∧ f a = .ok b := by
  cases x with
  | error e => simp [bind, Except.bind]
  | ok a => simp [bind, Except.bind]

/-- Another error in place of an error leaves the values as they are. -/
theorem mapError_eq_ok_iff {ε ε' α : Type} {x : Except ε α} {f : ε → ε'} {a : α} :
    x.mapError f = .ok a ↔ x = .ok a := by
  cases x <;> simp [Except.mapError]

/-- What is read is the note with its reference and its block. -/
theorem readNote_eq_ok_iff {disk : Disk} :
    readNote settings disk path = .ok (note, r, block) ↔
      disk.read path = .ok note ∧ Note.sourceReference note = .ok r ∧
        Note.insertBlock note settings.output.heading = .ok block := by
  simp only [readNote, bind_eq_ok_iff, mapError_eq_ok_iff, pure, Except.pure, Except.ok.injEq,
    Prod.mk.injEq]
  constructor
  · rintro ⟨_, hread, _, hr, _, hblock, rfl, rfl, rfl⟩
    exact ⟨hread, hr, hblock⟩
  · rintro ⟨hread, hr, hblock⟩
    exact ⟨note, hread, r, hr, block, hblock, rfl, rfl, rfl⟩

/-- Inlining a reference does not fail for want of something in a note. -/
theorem not_lacks_of_inlineReference? {made : Inlined σ} {e : CommandError}
    (h : inlineReference? fetcher steps settings r source = some made)
    (he : made.result = .error e) : ¬ e.Lacks := by
  unfold inlineReference? at h
  simp only at h
  -- The entry is not found, the walk fails, or the entry is blank, and none of these speaks of a note.
  split at h
  · cases h
    cases he
    simp [CommandError.Lacks]
  · next url content hfound =>
    obtain ⟨walked, -, hmade⟩ := Option.bind_eq_some_iff.mp h
    cases hmade
    simp only at he
    split at he
    · cases he
      simp [CommandError.Lacks]
    · cases he
      simp [CommandError.Lacks]
    · cases he

/-- An error of the disk is no want of something in a note. -/
theorem not_lacks_ofDisk (path : String) (e : DiskError) : ¬ (CommandError.ofDisk path e).Lacks := by
  cases e <;> simp [CommandError.Lacks, CommandError.ofDisk]

/-! ## The ways in which a sync ends -/

/-- All that a sync comes to is settled by what it starts from. -/
theorem SyncPlan.eq (p q : SyncPlan fetcher steps settings s path source) : p = q := by
  obtain ⟨note, r, block, entry, o, updated, hread, hnames, hholds, hinlined, hfits, hrewritten⟩ := p
  obtain ⟨note', r', block', entry', o', updated', hread', hnames', hholds', hinlined', hfits',
    hrewritten'⟩ := q
  cases hread.symm.trans hread'
  cases hnames.symm.trans hnames'
  cases hholds.symm.trans hholds'
  cases hinlined.symm.trans hinlined'
  rw [← newBody_eq] at hfits hrewritten hrewritten'
  have hwritten := (Note.replaceBlock_eq_ok_iff (Note.mem_of_insertBlock hholds)).mpr
    ⟨hfits, hrewritten⟩
  have hwritten' := (Note.replaceBlock_eq_ok_iff (Note.mem_of_insertBlock hholds)).mpr
    ⟨hfits, hrewritten'⟩
  cases hwritten.symm.trans hwritten'
  rfl

/-- With a plan the note is read as it says. -/
theorem SyncPlan.readNote_eq (plan : SyncPlan fetcher steps settings s path source) :
    readNote settings s.disk path = .ok (plan.note, plan.reference, plan.block) :=
  readNote_eq_ok_iff.mpr ⟨plan.read, plan.names, plan.holds⟩

/-- With a plan a dry run writes nothing, and nothing but the disk is in the way of writing. -/
theorem SyncPlan.writeNote_cases (plan : SyncPlan fetcher steps settings s path source)
    (isDryRun : Bool) (source' : σ) :
    (isDryRun = true ∧
      writeNote settings s path isDryRun plan.note plan.reference plan.block plan.output source' =
        ⟨.ok ⟨path, plan.updated, false, plan.output⟩, [], [], s.disk, source'⟩) ∨
    (isDryRun = false ∧ ∃ e, s.disk.write path plan.updated = .error e ∧
      writeNote settings s path isDryRun plan.note plan.reference plan.block plan.output source' =
        .failed (.ofDisk path e) [] s.disk source') ∨
    (isDryRun = false ∧ ∃ disk, s.disk.write path plan.updated = .ok disk ∧
      writeNote settings s path isDryRun plan.note plan.reference plan.block plan.output source' =
        ⟨.ok ⟨path, plan.updated, true, plan.output⟩, [], [], disk, source'⟩) := by
  have hwritten := (Note.replaceBlock_eq_ok_iff (Note.mem_of_insertBlock plan.holds)).mpr
    ⟨newBody_eq _ _ _ ▸ plan.fits, newBody_eq _ _ _ ▸ plan.rewritten⟩
  unfold writeNote
  simp only [hwritten]
  cases isDryRun with
  | true => exact Or.inl ⟨rfl, rfl⟩
  | false =>
    cases hwrite : s.disk.write path plan.updated with
    | error e => exact Or.inr (Or.inl ⟨rfl, e, rfl, rfl⟩)
    | ok disk => exact Or.inr (Or.inr ⟨rfl, disk, rfl, rfl⟩)

/-- What cannot be put into the note is not written. -/
theorem writeNote_failed {r : Reference} {o : Output} {e : NoteError} {source' : σ}
    (h : Note.replaceBlock note block o.code ⟨r.display, s.now⟩ settings.output.maxChars.toNat =
      .error e) :
    writeNote settings s path isDryRun note r block o source' =
      .failed (.note e) [] s.disk source' := by
  simp only [writeNote, h]

/-- A sync has no plan and fails, or has one and comes to writing the note. -/
theorem sync?_cases {ran : Ran Synced σ}
    (h : sync? fetcher steps settings s path isDryRun source = some ran) :
    (IsEmpty (SyncPlan fetcher steps settings s path source) ∧ ∃ e notices source',
      (e.Lacks → source' = source) ∧ ran = .failed e notices s.disk source') ∨
    ∃ (plan : SyncPlan fetcher steps settings s path source) (source' : σ) (notices : List Notice),
      ran = (writeNote settings s path isDryRun plan.note plan.reference plan.block plan.output
        source').after notices := by
  unfold sync? at h
  -- A sync fails at reading the note, at inlining the reference, or at a block that is too long. In each case
  -- a plan would contradict the step that failed.
  split at h
  · next e he =>
    cases h
    refine Or.inl ⟨⟨fun plan => ?_⟩, e, [], source, fun _ => rfl, rfl⟩
    cases he.symm.trans plan.readNote_eq
  · next note r block hread =>
    obtain ⟨made, hmade, h⟩ := Option.bind_eq_some_iff.mp h
    simp only at h
    split at h
    · next e he =>
      have hran := (Option.some.inj h).symm
      have hlacks := not_lacks_of_inlineReference? hmade he
      refine Or.inl ⟨⟨fun plan => ?_⟩, e, _, made.source, (absurd · hlacks), hran⟩
      cases hread.symm.trans plan.readNote_eq
      have hinlined := plan.inlined
      rw [hmade, Option.map_some, he] at hinlined
      cases hinlined
    · next entry o ho =>
      have hran := (Option.some.inj h).symm
      obtain ⟨hnote, hnames, hholds⟩ := readNote_eq_ok_iff.mp hread
      have hinlined : (inlineReference? fetcher steps settings r source).map Inlined.result =
          some (.ok (entry, o)) := by
        rw [hmade, Option.map_some, ho]
      -- The note that was read has the block, and so the only thing that can still fail is the length.
      obtain ⟨updated, hrewritten⟩ :=
        Note.exists_rewritten (Note.mem_of_insertBlock hholds) (Note.newBody o.code ⟨r.display, s.now⟩)
      by_cases hfits :
          (Note.newBody o.code ⟨r.display, s.now⟩).length ≤ settings.output.maxChars.toNat
      · rw [newBody_eq] at hfits hrewritten
        exact Or.inr ⟨⟨note, r, block, entry, o, updated, hnote, hnames, hholds, hinlined, hfits,
          hrewritten⟩, made.source, _, hran⟩
      · have hlong := Note.replaceBlock_of_rewritten hrewritten settings.output.maxChars.toNat
        rw [if_pos (Nat.lt_of_not_le hfits)] at hlong
        rw [writeNote_failed hlong] at hran
        refine Or.inl ⟨⟨fun plan => ?_⟩, _, _, made.source, ?_, hran⟩
        · cases hread.symm.trans plan.readNote_eq
          cases hinlined.symm.trans plan.inlined
          exact hfits (newBody_eq _ _ _ ▸ plan.fits)
        · simp [CommandError.Lacks]

/-- A sync that fails is whole, if it did not use the fetcher before it missed something in the note, and
if it has no plan that could be written. -/
theorem syncWhole_failed {e : CommandError} {source' : σ} (hlacks : e.Lacks → source' = source)
    (notices : List Notice)
    (hplan : ∀ plan : SyncPlan fetcher steps settings s path source,
      ¬ (isDryRun = false → ∃ disk, s.disk.write path plan.updated = .ok disk)) :
    SyncWhole fetcher steps settings s path isDryRun source (.failed e notices s.disk source') where
  failed _ _ := rfl
  unasked _ he := by
    cases he
    exact hlacks
  dryRun _ := rfl
  done _ hok := by cases hok
  succeeds plan hdisk := absurd hdisk (hplan plan)
  printed := rfl

/-- A sync is all or nothing. -/
theorem sync?_whole {ran : Ran Synced σ}
    (h : sync? fetcher steps settings s path isDryRun source = some ran) :
    SyncWhole fetcher steps settings s path isDryRun source ran := by
  rcases sync?_cases h with ⟨hnone, e, notices, source', hlacks, rfl⟩ | ⟨plan, source', notices, rfl⟩
  · exact syncWhole_failed hlacks notices fun plan => hnone.elim plan
  · rcases plan.writeNote_cases isDryRun source' with
      ⟨hdry, hran⟩ | ⟨hwet, e, hwrite, hran⟩ | ⟨hwet, disk, hwrite, hran⟩
    · rw [hran, hdry]
      exact { failed := nofun, unasked := nofun, dryRun := fun _ => rfl, printed := rfl,
              done := fun _ hok => ⟨plan, (Except.ok.inj hok).symm, nofun⟩,
              succeeds := fun _ _ => ⟨_, rfl⟩ }
    · rw [hran, hwet]
      refine syncWhole_failed (absurd · (not_lacks_ofDisk path e)) (notices ++ []) ?_
      intro plan' hdisk
      obtain ⟨disk, hdisk⟩ := hdisk rfl
      rw [plan'.eq plan, hwrite] at hdisk
      cases hdisk
    · rw [hran, hwet]
      refine { failed := nofun, unasked := nofun, dryRun := nofun, printed := rfl, done := ?_,
               succeeds := fun _ _ => ⟨_, rfl⟩ }
      intro synced hok
      refine ⟨plan, (Except.ok.inj hok).symm, fun _ => ?_⟩
      -- The note is written where it was read.
      obtain ⟨parts, hplace⟩ := Disk.read_eq_ok_iff.mp plan.read
      obtain ⟨place, hplace', hdisk, -⟩ := Disk.locate_of_write hwrite
      cases hplace.symm.trans hplace'
      exact ⟨parts, hplace, hdisk, Disk.read_of_write hwrite⟩

/-! ## The ways in which an inlining ends -/

/-- All that an inlining comes to is settled by what it starts from. -/
theorem InlinePlan.eq (p q : InlinePlan fetcher steps settings text source) : p = q := by
  obtain ⟨r, entry, o, hreads, hinlined, hfits⟩ := p
  obtain ⟨r', entry', o', hreads', hinlined', hfits'⟩ := q
  cases hreads.symm.trans hreads'
  cases hinlined.symm.trans hinlined'
  rfl

/-- Sending an output to its destination fails, if that is a file that cannot be written, with the disk
as it was and nothing printed, or else brings it there. -/
theorem deliver_cases (s : Surroundings) (isQuiet : Bool) (destination : Destination) (entry : String)
    (o : Output) (source : σ) :
    (∃ path error e, destination = .file path ∧ s.disk.write path (o.code ++ ['\n']) = .error error ∧
      deliver s isQuiet destination entry o source = .failed e [] s.disk source) ∨
      (deliver s isQuiet destination entry o source).result = .ok () ∧
        Delivered s entry o destination (deliver s isQuiet destination entry o source).printed
          (deliver s isQuiet destination entry o source).disk := by
  cases destination with
  | print => exact Or.inr ⟨rfl, .print⟩
  | report =>
    exact Or.inr ⟨rfl, .report (Report.writes_print entry o) (Report.holds_code entry o)
      (Report.holds_entry entry o)⟩
  | file path =>
    cases hwrite : s.disk.write path (o.code ++ ['\n']) with
    | error error =>
      refine Or.inl ⟨path, error, .ofDisk path error, rfl, hwrite, ?_⟩
      simp only [deliver, hwrite]
    | ok disk =>
      obtain ⟨place, hplace, hdisk, -⟩ := Disk.locate_of_write hwrite
      simp only [deliver, hwrite]
      exact Or.inr ⟨trivial, .file hplace hdisk (Disk.read_of_write hwrite)⟩

/-- An inlining has no plan and fails, or has one and comes to sending the output to its destination. -/
theorem inline?_cases {ran : Ran Unit σ}
    (h : inline? fetcher steps settings s isQuiet text destination source = some ran) :
    (IsEmpty (InlinePlan fetcher steps settings text source) ∧
      ∃ e notices source', ran = .failed e notices s.disk source') ∨
    ∃ (plan : InlinePlan fetcher steps settings text source) (source' : σ) (notices : List Notice),
      ran = (deliver s isQuiet destination plan.entry plan.output source').after notices := by
  unfold inline? at h
  -- The same three ends as of a sync, with the length in place of the block.
  split at h
  · next e he =>
    cases h
    refine Or.inl ⟨⟨fun plan => ?_⟩, _, _, _, rfl⟩
    cases he.symm.trans plan.reads
  · next r hr =>
    obtain ⟨made, hmade, h⟩ := Option.bind_eq_some_iff.mp h
    simp only at h
    split at h
    · next e he =>
      cases h
      refine Or.inl ⟨⟨fun plan => ?_⟩, _, _, _, rfl⟩
      cases hr.symm.trans plan.reads
      have hinlined := plan.inlined
      rw [hmade, Option.map_some, he] at hinlined
      cases hinlined
    · next entry o ho =>
      have hinlined : (inlineReference? fetcher steps settings r source).map Inlined.result =
          some (.ok (entry, o)) := by
        rw [hmade, Option.map_some, ho]
      split at h
      · next hlong =>
        cases h
        refine Or.inl ⟨⟨fun plan => ?_⟩, _, _, _, rfl⟩
        cases hr.symm.trans plan.reads
        cases hinlined.symm.trans plan.inlined
        exact Nat.not_le_of_lt hlong plan.fits
      · next hfits =>
        cases h
        exact Or.inr ⟨⟨r, entry, o, hr, hinlined, Nat.le_of_not_lt hfits⟩, made.source, _, rfl⟩

/-- An inlining is all or nothing. -/
theorem inline?_whole {ran : Ran Unit σ}
    (h : inline? fetcher steps settings s isQuiet text destination source = some ran) :
    InlineWhole fetcher steps settings s text destination source ran := by
  rcases inline?_cases h with ⟨hnone, e, notices, source', rfl⟩ | ⟨plan, source', notices, rfl⟩
  · exact { failed := fun _ _ => ⟨rfl, rfl⟩, delivered := nofun,
            succeeds := fun plan => hnone.elim plan }
  · rcases deliver_cases s isQuiet destination plan.entry plan.output source' with
      ⟨path, error, e, rfl, hwrite, hran⟩ | ⟨hok, hdelivered⟩
    · rw [hran]
      refine { failed := fun _ _ => ⟨rfl, rfl⟩, delivered := nofun, succeeds := ?_ }
      intro plan' hdisk
      obtain ⟨disk, hdisk⟩ := hdisk path rfl
      rw [plan'.eq plan, hwrite] at hdisk
      cases hdisk
    · refine { failed := ?_, delivered := fun _ => ⟨plan, hdelivered⟩, succeeds := fun _ _ => hok }
      intro e he
      exact absurd (hok.symm.trans he) nofun

/-! ## All commands -/

/-- Showing the settings prints them or fails, and leaves the disk as it was. -/
theorem showSettings_whole (line : CommandLine) (settings : Settings) (s : Surroundings)
    (showsSource : Bool) (source : σ) :
    (showSettings line settings s showsSource source).disk = s.disk ∧
      ∀ e, (showSettings line settings s showsSource source).result = .error e →
        (showSettings line settings s showsSource source).printed = [] := by
  unfold showSettings
  simp only
  split
  · exact ⟨rfl, fun _ _ => rfl⟩
  · exact ⟨rfl, nofun⟩

/-- A sync that fails is reported with nothing printed. -/
theorem reportSync_failed {ran : Ran Synced σ} {e : CommandError}
    (h : SyncWhole fetcher steps settings s path isDryRun source ran)
    (he : (reportSync s isQuiet ran).result = .error e) :
    (reportSync s isQuiet ran).disk = s.disk ∧ (reportSync s isQuiet ran).printed = [] := by
  unfold reportSync at he ⊢
  split at he
  · next e' he' => exact ⟨h.failed e' he', h.printed⟩
  · cases he

/-- A command line that fails leaves the disk as it was and prints nothing, whatever is wrong. -/
theorem run?_failed {fetcher : Settings → Fetcher σ} {line : CommandLine} {ran : Ran Unit σ}
    {e : CommandError} (h : run? fetcher steps line s source = some ran)
    (he : ran.result = .error e) : ran.disk = s.disk ∧ ran.printed = [] := by
  unfold run? at h
  simp only at h
  split at h
  · cases h
    exact ⟨rfl, rfl⟩
  · next settings hsettings =>
    -- The notices that come before those of the command change nothing else.
    split at h
    · obtain ⟨made, hmade, hran⟩ := Option.bind_eq_some_iff.mp h
      cases hran
      exact (inline?_whole hmade).failed e he
    · obtain ⟨made, hmade, hran⟩ := Option.bind_eq_some_iff.mp h
      obtain ⟨synced, hsynced, rfl⟩ := Option.map_eq_some_iff.mp hmade
      cases hran
      exact reportSync_failed (sync?_whole hsynced) he
    · cases h
      obtain ⟨hdisk, hprinted⟩ := showSettings_whole line settings s _ source
      exact ⟨hdisk, hprinted e he⟩

/-- A command is all or nothing. A sync that fails changes nothing, and for want of a reference or a
block in the note it asks for nothing; a dry run changes nothing; any other sync changes the note and
nothing else, and in the note only the body of the block. An inlining that fails changes and prints
nothing; any other one brings the code, which is not too long, to its destination and nowhere else: it is printed
by itself or in a JSON report, or is written to a file. And neither fails without a reason. -/
theorem all_or_nothing (fetcher : Fetcher σ) (steps : Nat) (settings : Settings) (s : Surroundings) :
    (∀ path isDryRun source ran,
      sync? fetcher steps settings s path isDryRun source = some ran →
        SyncWhole fetcher steps settings s path isDryRun source ran) ∧
    (∀ path isDryRun source ran e,
      sync? fetcher.recorded steps settings s path isDryRun (source, []) = some ran →
        ran.result = .error e → e.Lacks → ran.source.2 = []) ∧
    (∀ isQuiet reference destination source ran,
      inline? fetcher steps settings s isQuiet reference destination source = some ran →
        InlineWhole fetcher steps settings s reference destination source ran) := by
  refine ⟨fun _ _ _ _ => sync?_whole, ?_, fun _ _ _ _ _ => inline?_whole⟩
  intro path isDryRun source ran e h he hlacks
  rw [(sync?_whole h).unasked e he hlacks]

/-- Of two notes on a disk the one with a block is written, and the one without a block asks for
nothing; the code that the first one names is sent to a file, which is new, and into a report, and cannot be
sent to a folder. -/
theorem all_or_nothing_notes :
    let archive : Archive := ⟨[("https://h/o/r/p", "\x7b\n\x7d\n".toList)], [], [], []⟩
    let s : Surroundings := ⟨⟨"/w", [(["w", "n"], "entry: https://h/o/r/p\n```\nold\n```\n".toList),
      (["w", "m"], "entry: https://h/o/r/p\n".toList)], [], []⟩, [], ⟨0, 0⟩, ⟨0, 0⟩⟩
    (∃ ran, sync? Archive.fetch 9 {} s "n" false archive = some ran ∧
      ran.disk.read "n" = .ok ("entry: https://h/o/r/p\n```\n" ++
        "// Synced from https://h/o/r/p at 1970-01-01T00:00:00Z\n\x7b\n\x7d\n```\n").toList ∧
      SyncWhole Archive.fetch 9 {} s "n" false archive ran) ∧
    (∃ ran, sync? Archive.fetch.recorded 9 {} s "m" false (archive, []) = some ran ∧
      ran.result = .error (.note .noInsertLocation) ∧ ran.source.2 = []) ∧
    (∃ ran, inline? Archive.fetch 9 {} s false "https://h/o/r/p" (.file "c.js") archive = some ran ∧
      ran.disk.read "c.js" = .ok "\x7b\n\x7d\n".toList ∧
      InlineWhole Archive.fetch 9 {} s "https://h/o/r/p" (.file "c.js") archive ran) ∧
    (∃ ran, inline? Archive.fetch 9 {} s false "https://h/o/r/p" .report archive = some ran ∧
      ran.printed = ("\x7b\n  \"code\": \"\x7b\\n\x7d\",\n  \"entry\": \"https://h/o/r/p\",\n" ++
        "  \"skipped\": [],\n  \"translations\": []\n\x7d\n").toList ∧
      InlineWhole Archive.fetch 9 {} s "https://h/o/r/p" .report archive ran) ∧
    ∃ ran, inline? Archive.fetch 9 {} s false "https://h/o/r/p" (.file "/w") archive = some ran ∧
      ran.result = .error (.disk .isFolder) ∧ ran.disk = s.disk ∧
      InlineWhole Archive.fetch 9 {} s "https://h/o/r/p" (.file "/w") archive ran := by
  intro archive s
  obtain ⟨hsync, hasked, hinline⟩ := all_or_nothing Archive.fetch 9 {} s
  refine ⟨?_, ?_, ?_, ?_, ?_⟩
  · have hran : (sync? Archive.fetch 9 {} s "n" false archive).map (·.disk.read "n") =
        some (.ok ("entry: https://h/o/r/p\n```\n" ++
          "// Synced from https://h/o/r/p at 1970-01-01T00:00:00Z\n\x7b\n\x7d\n```\n").toList) := by
      decide +kernel
    obtain ⟨ran, hran, hread⟩ := Option.map_eq_some_iff.mp hran
    exact ⟨ran, hran, hread, hsync "n" false archive ran hran⟩
  · have hran : (sync? Archive.fetch.recorded 9 {} s "m" false (archive, [])).map Ran.result =
        some (.error (.note .noInsertLocation)) := by
      decide +kernel
    obtain ⟨ran, hran, he⟩ := Option.map_eq_some_iff.mp hran
    exact ⟨ran, hran, he, hasked "m" false archive ran _ hran he (Or.inr rfl)⟩
  · have hran : (inline? Archive.fetch 9 {} s false "https://h/o/r/p" (.file "c.js") archive).map
        (·.disk.read "c.js") = some (.ok "\x7b\n\x7d\n".toList) := by
      decide +kernel
    obtain ⟨ran, hran, hread⟩ := Option.map_eq_some_iff.mp hran
    exact ⟨ran, hran, hread, hinline false "https://h/o/r/p" (.file "c.js") archive ran hran⟩
  · have hran : (inline? Archive.fetch 9 {} s false "https://h/o/r/p" .report archive).map Ran.printed =
        some ("\x7b\n  \"code\": \"\x7b\\n\x7d\",\n  \"entry\": \"https://h/o/r/p\",\n" ++
          "  \"skipped\": [],\n  \"translations\": []\n\x7d\n").toList := by
      decide +kernel
    obtain ⟨ran, hran, hprinted⟩ := Option.map_eq_some_iff.mp hran
    exact ⟨ran, hran, hprinted, hinline false "https://h/o/r/p" .report archive ran hran⟩
  · have hran : (inline? Archive.fetch 9 {} s false "https://h/o/r/p" (.file "/w") archive).map
        Ran.result = some (.error (.disk .isFolder)) := by
      decide +kernel
    obtain ⟨ran, hran, he⟩ := Option.map_eq_some_iff.mp hran
    have hwhole := hinline false "https://h/o/r/p" (.file "/w") archive ran hran
    exact ⟨ran, hran, he, (hwhole.failed _ he).1, hwhole⟩

end Command

end Graft
