import Sm83.Word

/-!
The address space: 65536 cells, every one of them readable and writable, held in one block of bytes.

A memory is known by its cells (`ext_get`). A write decides its own cell and leaves every other
(`get_set`), and a memory made from an image holds the image's bytes from address 0 on, with zeros
behind them (`get_ofImage`).
-/

namespace Sm83

/-- A memory of 65536 cells. -/
structure Memory where
  cells : ByteArray
  size_cells : cells.size = 65536

namespace Memory

/-- The number of cells. -/
def size : Nat := 65536

/-- Every address has a cell. -/
theorem toNat_lt_size (m : Memory) (a : Word) : a.toNat < m.cells.size := by
  rw [m.size_cells]
  exact a.toNat_lt

/-- The byte at an address. -/
def get (m : Memory) (a : Word) : Byte :=
  getElem m.cells a.toNat (m.toNat_lt_size a)

/-- The memory with one cell overwritten. -/
def set (m : Memory) (a : Word) (v : Byte) : Memory where
  cells := m.cells.set a.toNat v (m.toNat_lt_size a)
  size_cells := by
    rw [← ByteArray.size_data, ByteArray.set, Array.size_set, ByteArray.size_data, m.size_cells]

/-- The word whose low byte is at an address and whose high byte is at the next one. -/
def getWord (m : Memory) (a : Word) : Word :=
  .ofBytes (m.get (a + 1)) (m.get a)

/-- The memory with a word written low byte first. -/
def setWord (m : Memory) (a w : Word) : Memory :=
  (m.set a w.low).set (a + 1) w.high

/-- As many zeros as a memory has cells. -/
private def zeros : ByteArray :=
  ⟨Array.replicate size 0⟩

private theorem size_zeros : zeros.size = 65536 := by
  rw [← ByteArray.size_data, zeros, Array.size_replicate, size]

/-- The memory that holds an image from address 0 on and zeros behind it; what does not fit is left
out. -/
def ofImage (image : ByteArray) : Memory where
  cells := image.extract 0 size ++ zeros.extract 0 (size - image.size)
  size_cells := by
    rw [ByteArray.size_append, ByteArray.size_extract, ByteArray.size_extract, size_zeros, size]
    omega

/-- A memory is known by its cells. -/
theorem ext_get {m n : Memory} (h : ∀ a, m.get a = n.get a) : m = n := by
  obtain ⟨x, hx⟩ := m
  obtain ⟨y, hy⟩ := n
  have same : x = y := by
    apply ByteArray.ext
    apply Array.ext
    · rw [ByteArray.size_data, ByteArray.size_data, hx, hy]
    · intro i hi _
      rw [ByteArray.size_data, hx] at hi
      have := h (UInt16.ofNatLT i hi)
      simpa [get, ByteArray.getElem_eq_getElem_data] using this
  subst same
  rfl

/-- A write decides its own cell and leaves every other. -/
theorem get_set (m : Memory) (a b : Word) (v : Byte) :
    (m.set a v).get b = if a = b then v else m.get b := by
  simp only [get, set, ByteArray.getElem_eq_getElem_data, ByteArray.set, Array.getElem_set,
    UInt16.toNat_inj]

@[simp] theorem get_set_self (m : Memory) (a : Word) (v : Byte) : (m.set a v).get a = v := by
  simp [get_set]

theorem get_set_of_ne (m : Memory) {a b : Word} (v : Byte) (h : a ≠ b) :
    (m.set a v).get b = m.get b := by
  simp [get_set, h]

/-- Writing back what a cell holds changes nothing. -/
@[simp] theorem set_get (m : Memory) (a : Word) : m.set a (m.get a) = m := by
  apply ext_get
  intro b
  rw [get_set]
  split
  · next h => rw [h]
  · rfl

/-- The last write to a cell is the one that counts. -/
@[simp] theorem set_set (m : Memory) (a : Word) (v w : Byte) : (m.set a v).set a w = m.set a w := by
  apply ext_get
  intro b
  simp only [get_set]
  split <;> rfl

/-- Writes to different cells commute. -/
theorem set_comm (m : Memory) {a b : Word} (v w : Byte) (h : a ≠ b) :
    (m.set a v).set b w = (m.set b w).set a v := by
  apply ext_get
  intro x
  simp only [get_set]
  grind

/-- The cells of a fresh memory are the image's bytes, then zeros. -/
theorem get_ofImage (image : ByteArray) (a : Word) :
    (ofImage image).get a = if h : a.toNat < image.size then image[a.toNat] else 0 := by
  have ha := a.toNat_lt
  have left : (image.extract 0 size).size = min 65536 image.size := by
    rw [ByteArray.size_extract, size]
    omega
  simp only [get, ofImage]
  split
  · next h =>
    rw [ByteArray.getElem_append_left (by omega), ByteArray.getElem_extract]
    simp
  · next h =>
    rw [ByteArray.getElem_append_right (by omega), ByteArray.getElem_extract]
    simp [zeros, ByteArray.getElem_eq_getElem_data]

end Memory

end Sm83
