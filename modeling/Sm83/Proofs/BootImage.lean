import Sm83.CommandLine.Response
import Sm83.Proofs.Transcript

/-! What of an image matters. Booting maps the image into memory from address 0 on, cut or filled up
with zeros, and then lays the boot table over it. Two images are interchangeable if they put the same
bytes at the addresses that the table leaves alone. Exactly then they boot the same machine, and so no
run, no report and no answer of the command line can tell one from the other
(`image_matters_outside_bootAddresses`). -/
namespace Sm83

/-! ## Images -/

/-- The addresses that booting writes to. -/
def bootAddresses : List Word :=
  Memory.bootCells.map Prod.fst

/-- The byte that an image puts at an address: its own, or zero behind its end. -/
def imageByte (image : ByteArray) (a : Word) : Byte :=
  image[a.toNat]?.getD 0

/-- Images that put the same bytes at all addresses that booting leaves alone. -/
def Interchangeable (i j : ByteArray) : Prop :=
  ∀ a ∉ bootAddresses, imageByte i a = imageByte j a

section Interchangeable

variable {i j k : ByteArray}

theorem Interchangeable.trans (first : Interchangeable i j) (second : Interchangeable j k) :
    Interchangeable i k :=
  fun a outside => (first a outside).trans (second a outside)

/-- Bytes behind an image that fills memory are not mapped. -/
theorem interchangeable_append (full : 65536 ≤ i.size) (rest : ByteArray) :
    Interchangeable (i ++ rest) i := by
  intro a _
  have mapped : a.toNat < i.data.size := lt_of_lt_of_le a.toNat_lt full
  have front : (i ++ rest).data[a.toNat]? = i.data[a.toNat]? := by
    rw [ByteArray.data_append, Array.getElem?_append_left mapped]
  exact congrArg (Option.getD · 0) front

/-- Only the bytes that fit into memory are mapped. -/
theorem interchangeable_extract (i : ByteArray) : Interchangeable (i.extract 0 65536) i := by
  intro a _
  have inMemory : a.toNat < 65536 := a.toNat_lt
  have front : (i.extract 0 65536).data[a.toNat]? = i.data[a.toNat]? := by
    rw [ByteArray.data_extract, Array.getElem?_extract, Nat.zero_add]
    split
    · rfl
    · next behind => exact (Array.getElem?_eq_none (by omega)).symm
  exact congrArg (Option.getD · 0) front

/-- Zeros behind an image stand where there would be zeros without them. -/
theorem interchangeable_zeros (i : ByteArray) (n : ℕ) :
    Interchangeable (i ++ ⟨Array.replicate n 0⟩) i := by
  intro a _
  have same : (i ++ ⟨Array.replicate n 0⟩).data[a.toNat]?.getD 0 = i.data[a.toNat]?.getD 0 := by
    rw [ByteArray.data_append, Array.getElem?_append]
    split
    · rfl
    · next behind =>
      rw [Array.getElem?_replicate, Array.getElem?_eq_none (Nat.not_lt.mp behind)]
      split <;> rfl
  exact same

/-- A byte under the boot table is overwritten. -/
theorem interchangeable_set {a : Word} (covered : a ∈ bootAddresses) (v : Byte)
    (inside : a.toNat < i.size) : Interchangeable (i.set a.toNat v inside) i := by
  intro b outside
  have different : a.toNat ≠ b.toNat := by
    intro same
    exact outside (UInt16.toNat_inj.mp same ▸ covered)
  have kept : (i.set a.toNat v inside).data[b.toNat]? = i.data[b.toNat]? :=
    Array.getElem?_set_ne inside different
  exact congrArg (Option.getD · 0) kept

end Interchangeable

/-! ## Machines -/

namespace Memory

/-- A memory that holds the boot table, and other bytes where the table has nothing to say. -/
structure BootedOver (m : Memory) (others : Word → Byte) : Prop where
  get_table : ∀ a v, (a, v) ∈ bootCells → m.get a = v
  get_others : ∀ a ∉ bootAddresses, m.get a = others a

/-- Where no address stands twice, looking one up finds the byte it stands with. -/
private theorem lookup_of_mem {cells : List (Word × Byte)} (distinct : (cells.map Prod.fst).Nodup)
    {a : Word} {v : Byte} (member : (a, v) ∈ cells) : cells.lookup a = some v := by
  induction cells with
  | nil => exact absurd member List.not_mem_nil
  | cons cell rest ih =>
    obtain ⟨k, w⟩ := cell
    rw [List.map_cons, List.nodup_cons] at distinct
    rw [List.lookup_cons]
    rcases List.mem_cons.mp member with here | later
    · cases here
      rw [beq_self_eq_true]
    · have different : (a == k) = false := by
        rw [beq_eq_false_iff_ne]
        rintro rfl
        exact distinct.1 (List.mem_map.mpr ⟨(a, v), later, rfl⟩)
      rw [different]
      exact ih distinct.2 later

private theorem nodup_bootAddresses : bootAddresses.Nodup := by decide

/-- Booting lays the table over what was there. -/
theorem bootedOver_boot (m : Memory) : m.boot.BootedOver m.get where
  get_table a v member := by
    rw [get_boot, lookup_of_mem nodup_bootAddresses member, Option.getD_some]
  get_others a outside := by
    have absent : bootCells.lookup a = none := by
      rw [List.lookup_eq_none_iff]
      intro cell member
      have different : a ≠ cell.1 := fun same => outside (same ▸ List.mem_map_of_mem member)
      simpa using different
    rw [get_boot, absent, Option.getD_none]

/-- The table and the other bytes make up a memory. -/
theorem BootedOver.unique {m n : Memory} {f g : Word → Byte} (first : m.BootedOver f)
    (second : n.BootedOver g) (same : ∀ a ∉ bootAddresses, f a = g a) : m = n := by
  apply ext_get
  intro a
  by_cases covered : a ∈ bootAddresses
  · obtain ⟨⟨_, v⟩, member, rfl⟩ := List.mem_map.mp covered
    rw [first.get_table _ v member, second.get_table _ v member]
  · rw [first.get_others a covered, second.get_others a covered, same a covered]

private theorem get_ofImage_eq (image : ByteArray) : (ofImage image).get = imageByte image := by
  funext a
  rw [get_ofImage, imageByte, getElem?_def]
  split <;> rfl

end Memory

namespace Machine

/-- A machine boots over the bytes of its image. -/
theorem bootedOver_ofImage (image : ByteArray) :
    (ofImage image).memory.BootedOver (imageByte image) :=
  Memory.get_ofImage_eq image ▸ (Memory.ofImage image).bootedOver_boot

/-- Interchangeable images are those that boot the same machine. -/
theorem ofImage_eq_iff {i j : ByteArray} : ofImage i = ofImage j ↔ Interchangeable i j := by
  constructor
  · intro same a outside
    rw [← (bootedOver_ofImage i).get_others a outside, same,
      (bootedOver_ofImage j).get_others a outside]
  · intro same
    have memory : (Memory.ofImage i).boot = (Memory.ofImage j).boot :=
      (bootedOver_ofImage i).unique (bootedOver_ofImage j) same
    rw [ofImage, memory, ofImage]

end Machine

/-! ## Runs and answers -/

section Runs

variable {i j : ByteArray}

/-- Runs over interchangeable images, on the same budget, report the same. What is logged of them
makes no difference. -/
theorem Config.report_run_eq (same : Interchangeable i j) {c d : Config}
    (budget : c.maxSteps = d.maxSteps) (log log' : Log) :
    (c.run i log).map Prod.fst = (d.run j log').map Prod.fst := by
  let s : Session := { machine := .ofImage i, log := log.emit (.started i.size) }
  let t : Session := { machine := .ofImage j, log := log'.emit (.started j.size) }
  let report (result : Outcome × Machine) : Report :=
    ⟨result.1, result.2.regs, result.2.interruptsEnabled⟩
  have machine : s.machine = t.machine.addCount 0 := by
    rw [Machine.addCount_zero]
    exact Machine.ofImage_eq_iff.mpr same
  have results := congrArg (Option.map report) (Session.result_run machine c.maxSteps)
  simp only [Machine.addCount_zero, Option.map_map] at results
  unfold Config.run
  rw [Option.map_map, Option.map_map, ← budget]
  exact results

/-- A record with its severity in front. -/
def Record.entry (r : Record) : Severity × Record :=
  (r.severity, r)

/-- The records of a log with their severities. -/
def Log.entries (log : Log) : List (Severity × Record) :=
  log.records.toList.map Record.entry

namespace CommandLine

/-- Where the arguments are accepted and there is a file, the answer is the report of its run. -/
theorem respond_of_parse {args : List String} {asked : Arguments}
    (parsed : Arguments.parse args = .ok asked) (contents : ByteArray) :
    ∃ log, respond args (some contents) =
      ((asked.config.run contents log).map Prod.fst).map fun report =>
        { exitCode := 0, stdout := report.text ++ "\n" } := by
  let loaded : Log :=
    if Memory.size < contents.size then Log.emit {} (.oversized contents.size) else {}
  have load : loadImage asked.path (some contents) {} = .ok (contents, loaded) := rfl
  let log := loaded.emit (.chosen asked.path)
  refine ⟨log, ?_⟩
  simp only [respond, parsed, load]
  cases asked.config.run contents log <;> rfl

/-- Interchangeable files are answered alike, if the arguments ask for the same budget or are refused
for the same reason. -/
theorem respond_eq (same : Interchangeable i j) {args args' : List String}
    (asked : (Arguments.parse args).map (·.config.maxSteps) =
      (Arguments.parse args').map (·.config.maxSteps)) :
    respond args (some i) = respond args' (some j) := by
  cases parsed : Arguments.parse args with
  | error e =>
    cases parsed' : Arguments.parse args' with
    | error e' =>
      rw [parsed, parsed'] at asked
      cases asked
      simp only [respond, parsed, parsed']
    | ok second =>
      rw [parsed, parsed'] at asked
      cases asked
  | ok first =>
    cases parsed' : Arguments.parse args' with
    | error e' =>
      rw [parsed, parsed'] at asked
      cases asked
    | ok second =>
      rw [parsed, parsed'] at asked
      have budget : first.config.maxSteps = second.config.maxSteps := Except.ok.inj asked
      obtain ⟨log, answered⟩ := respond_of_parse parsed i
      obtain ⟨log', answered'⟩ := respond_of_parse parsed' j
      rw [answered, answered', Config.report_run_eq same budget log log']

/-- A file is taken whole as an image, with a warning exactly if it does not fit into memory. -/
theorem loadImage_eq (path : String) (contents : ByteArray) (log : Log) :
    ∃ after, loadImage path (some contents) log = .ok (contents, after) ∧
      after.entries = log.entries ++
        if 65536 < contents.size ∧ log.keeps .warn then [(.warn, .oversized contents.size)]
        else [] := by
  refine ⟨_, rfl, ?_⟩
  by_cases large : 65536 < contents.size
  · have oversized : Memory.size < contents.size := large
    rw [if_pos oversized, Log.entries, Log.records_emit, List.map_append]
    cases kept : log.keeps .warn <;> simp [large, kept, Record.severity, Record.entry, Log.entries]
  · have fits : ¬ Memory.size < contents.size := large
    simp [fits, large]

end CommandLine

end Runs

/-- **Of an image only the bytes outside the boot table matter.** A booted memory is the table of 31
cells laid over the image, cut or filled up with zeros. Images that agree outside the table are
reported on alike on the same budget, and the command line answers them alike. So bytes behind a full
memory, zeros at the end and bytes under the table never matter. A file is taken whole whatever its
size, with a warning exactly if it does not fit into memory. -/
theorem image_matters_outside_bootAddresses :
    (bootAddresses.Nodup ∧ bootAddresses.length = 31) ∧
    (∀ image, (Machine.ofImage image).memory.BootedOver (imageByte image)) ∧
    (∀ i j, Interchangeable i j →
      (∀ (c d : Config) (log log' : Log), c.maxSteps = d.maxSteps →
        (c.run i log).map (fun r => (r.1, r.1.text)) =
          (d.run j log').map (fun r => (r.1, r.1.text))) ∧
      ∀ args args' : List String,
        (CommandLine.Arguments.parse args).map (·.config.maxSteps) =
          (CommandLine.Arguments.parse args').map (·.config.maxSteps) →
        CommandLine.respond args (some i) = CommandLine.respond args' (some j)) ∧
    (∀ image rest, 65536 ≤ image.size → Interchangeable (image ++ rest) image) ∧
    (∀ image n, Interchangeable (image ++ ⟨Array.replicate n 0⟩) image) ∧
    (∀ (image : ByteArray) (a : Word) (v : Byte) (inside : a.toNat < image.size),
      a ∈ bootAddresses → Interchangeable (image.set a.toNat v inside) image) ∧
    ∀ (path : String) (contents : ByteArray) (log : Log), ∃ after,
      CommandLine.loadImage path (some contents) log = .ok (contents, after) ∧
      after.entries = log.entries ++
        if 65536 < contents.size ∧ log.keeps .warn then [(.warn, .oversized contents.size)]
        else [] := by
  refine ⟨⟨Memory.nodup_bootAddresses, rfl⟩, Machine.bootedOver_ofImage, ?_, ?_,
    interchangeable_zeros, ?_, CommandLine.loadImage_eq⟩
  · intro i j same
    refine ⟨?_, fun _ _ asked => CommandLine.respond_eq same asked⟩
    intro c d log log' budget
    have reports := Config.report_run_eq same budget log log'
    have texts := congrArg (Option.map fun report : Report => (report, report.text)) reports
    rw [Option.map_map, Option.map_map] at texts
    exact texts
  · intro image rest full
    exact interchangeable_append full rest
  · intro image a v inside covered
    exact interchangeable_set covered v inside

/-- The image of an opcode without a meaning and a stop, filled up to the end of memory. -/
def filledImage : ByteArray :=
  undefinedThenStop ++ ⟨Array.replicate 65278 0⟩

private theorem size_filledImage : filledImage.size = 65536 := by
  have first : undefinedThenStop.size = 258 := size_undefinedThen 0x10
  have zeros : (⟨Array.replicate 65278 0⟩ : ByteArray).size = 65278 := Array.size_replicate
  rw [filledImage, ByteArray.size_append, first, zeros]

theorem image_matters_outside_bootAddresses_atFilledImage :
    65536 ≤ filledImage.size ∧ (0xFF05 : Word) ∈ bootAddresses ∧
    ∃ inside : (0xFF05 : Word).toNat < filledImage.size,
      let other := filledImage.set (0xFF05 : Word).toNat 0x27 inside
      Interchangeable other undefinedThenStop ∧
      (Config.run ⟨none, true⟩ other {}).map (·.1.outcome) = some ⟨2, .halted⟩ ∧
      Interchangeable (filledImage ++ ⟨#[0x27]⟩) undefinedThenStop ∧
      CommandLine.respond ["some", "0"] (some (filledImage ++ ⟨#[0x27]⟩)) =
        CommandLine.respond ["other", "+0"] (some undefinedThenStop) := by
  obtain ⟨-, -, results, behind, zeros, covered, -⟩ := image_matters_outside_bootAddresses
  have full : 65536 ≤ filledImage.size := size_filledImage.ge
  have inTable : (0xFF05 : Word) ∈ bootAddresses := by decide
  have inside : (0xFF05 : Word).toNat < filledImage.size := lt_of_lt_of_le (by decide) full
  have filled : Interchangeable filledImage undefinedThenStop := zeros undefinedThenStop 65278
  have overwritten := (covered filledImage 0xFF05 0x27 inside inTable).trans filled
  have cut := (behind filledImage ⟨#[0x27]⟩ full).trans filled
  have reported := (results _ _ overwritten).1 ⟨none, true⟩ ⟨none, false⟩ {} {} rfl
  have answered := (results _ _ cut).2 ["some", "0"] ["other", "+0"] rfl
  have ran : (Config.run ⟨none, false⟩ undefinedThenStop {}).map (·.1.outcome) =
      some ⟨2, .halted⟩ := by
    let s : Session := { machine := .ofImage undefinedThenStop }
    have time : s.machine.haltingTime = (2 : ℕ) := Machine.haltingTime_undefinedThenStop
    have ended := congrArg (Option.map Session.Ended.outcome) (Session.run_none_eq time (by decide))
    rw [Option.map_some, Session.outcome_endedAfter_of_haltingTime time] at ended
    unfold Config.run
    rw [Option.map_map]
    exact ended
  have outcomes := congrArg (Option.map fun r : Report × String => r.1.outcome) reported
  rw [Option.map_map, Option.map_map] at outcomes
  exact ⟨full, inTable, inside, overwritten, outcomes.trans ran, cut, answered⟩

end Sm83
