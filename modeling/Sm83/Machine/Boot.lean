import Sm83.Machine.Basic

/-!
The state a machine starts in: what the boot program leaves in the registers, in the latches and in
the cells of the input and output page.
-/

namespace Sm83

/-- The registers after booting. -/
def Registers.boot : Registers where
  a := 0x01
  b := 0x00
  c := 0x13
  d := 0x00
  e := 0xD8
  h := 0x01
  l := 0x4D
  flags := .unpack 0xB0
  sp := 0xFFFE
  pc := 0x0100

namespace Memory

/-- The cells that booting writes, with what it leaves there: the registers of the timer, the sound,
the display and the interrupts. -/
def bootCells : List (Word × Byte) :=
  [(0xFF05, 0x00), (0xFF06, 0x00), (0xFF07, 0x00),
   (0xFF10, 0x80), (0xFF11, 0xBF), (0xFF12, 0xF3), (0xFF14, 0xBF),
   (0xFF16, 0x3F), (0xFF17, 0x00), (0xFF19, 0xBF),
   (0xFF1A, 0x7F), (0xFF1B, 0xFF), (0xFF1C, 0x9F), (0xFF1E, 0xBF),
   (0xFF20, 0xFF), (0xFF21, 0x00), (0xFF22, 0x00), (0xFF23, 0xBF),
   (0xFF24, 0x77), (0xFF25, 0xF3), (0xFF26, 0xF1),
   (0xFF40, 0x91), (0xFF42, 0x00), (0xFF43, 0x00), (0xFF45, 0x00),
   (0xFF47, 0xFC), (0xFF48, 0xFF), (0xFF49, 0xFF), (0xFF4A, 0x00), (0xFF4B, 0x00),
   (0xFFFF, 0x00)]

/-- Writes the cells that booting writes. -/
def boot (m : Memory) : Memory :=
  bootCells.foldl (fun m cell => m.set cell.1 cell.2) m

/-- Writing a list of cells with distinct addresses leaves in each what the list says, and every
other cell as it was. -/
theorem get_foldl_set (cells : List (Word × Byte)) (distinct : (cells.map Prod.fst).Nodup)
    (m : Memory) (a : Word) :
    (cells.foldl (fun m cell => m.set cell.1 cell.2) m).get a = (cells.lookup a).getD (m.get a) := by
  induction cells generalizing m with
  | nil => rfl
  | cons cell rest ih =>
    obtain ⟨k, v⟩ := cell
    simp only [List.map_cons, List.nodup_cons] at distinct
    rw [List.foldl_cons, ih distinct.2, List.lookup_cons, get_set]
    by_cases h : a = k
    · subst h
      have absent : rest.lookup a = none := by
        rw [List.lookup_eq_none_iff]
        intro p hp
        have : p.1 ≠ a := fun e => distinct.1 (e ▸ List.mem_map_of_mem hp)
        simpa using fun e => this e.symm
      simp [absent]
    · have differs : (a == k) = false := by simpa using h
      simp [differs, Ne.symm h]

/-- Booting decides the cells in its table and leaves every other. -/
theorem get_boot (m : Memory) (a : Word) : m.boot.get a = (bootCells.lookup a).getD (m.get a) :=
  get_foldl_set bootCells (by decide) m a

@[simp] theorem boot_boot (m : Memory) : m.boot.boot = m.boot := by
  apply ext_get
  intro a
  rw [get_boot, get_boot]
  cases bootCells.lookup a <;> rfl

end Memory

namespace Machine

/-- Boots a machine again. Memory keeps what booting does not write, and the count goes on. -/
def reset (m : Machine) : Machine where
  regs := .boot
  memory := m.memory.boot
  running := true
  interruptsEnabled := false
  instructionCount := m.instructionCount
  lastDiagnostic := none

/-- A machine that has just booted over an image. -/
def ofImage (image : ByteArray) : Machine where
  regs := .boot
  memory := (Memory.ofImage image).boot
  running := true
  interruptsEnabled := false
  instructionCount := 0
  lastDiagnostic := none

/-- Booting twice is booting once. -/
@[simp] theorem reset_reset (m : Machine) : m.reset.reset = m.reset := by
  simp [reset]

end Machine

end Sm83
