import Mathlib.Data.List.Infix
import Sm83.Machine.Boot
import Sm83.Proofs.StateUpdates

/-! Pushes and pops treat the memory below the stack pointer as a list of words. The list may hold as
many words as memory has room for, 32768 of them, wherever the stack pointer stood at first and
however often it wraps. As long as it does, pops give back what they give back on a list, and nothing
but the words' own cells changes. One word more lands on the first one (`stack_refines_list`). -/
namespace Sm83

/-! ## Addresses counted downwards -/

namespace Word

/-- The address a number of bytes below. -/
def down (p : Word) (k : ℕ) : Word :=
  p - .ofNat k

@[simp] theorem down_zero (p : Word) : p.down 0 = p := by
  simp [down]

theorem down_sub_one (p : Word) (k : ℕ) : p.down k - 1 = p.down (k + 1) := by
  rw [down, down, UInt16.ofNat_add]
  grind

private theorem down_succ_add_one (p : Word) (k : ℕ) : p.down (k + 1) + 1 = p.down k := by
  rw [← down_sub_one, UInt16.sub_add_cancel]

/-- Counting downwards comes round after as many bytes as there are addresses. -/
theorem down_eq_down {p : Word} {j k : ℕ} : p.down j = p.down k ↔ j % 65536 = k % 65536 := by
  rw [down, down, UInt16.sub_right_inj, ← UInt16.toNat_inj, UInt16.toNat_ofNat',
    UInt16.toNat_ofNat']

private theorem down_eq_ofInt (p : Word) (k : ℕ) : p.down k = .ofInt (p.toNat - k) := by
  apply UInt16.toNat_inj.mp
  rw [down, UInt16.toNat_sub, UInt16.toNat_ofNat', UInt16.ofInt, UInt16.toNat_ofNat']
  omega

end Word

/-! ## Bytes below an address -/

namespace Memory

/-- The memory holds a list of bytes below an address, the last of the list being the uppermost. -/
def HoldsBelow (memory : Memory) (p : Word) : List Byte → Prop
  | [] => True
  | v :: rest => memory.get (p.down (rest.length + 1)) = v ∧ memory.HoldsBelow p rest

namespace HoldsBelow

variable {memory : Memory} {p : Word} {l r : List Byte} {u v : Byte}

/-- A cell further down does not matter, as long as counting down has not come round. -/
theorem set (holds : memory.HoldsBelow p l) {k : ℕ} (further : l.length < k) (inside : k ≤ 65536)
    (v : Byte) : (memory.set (p.down k) v).HoldsBelow p l := by
  induction l with
  | nil => trivial
  | cons u rest ih =>
    rw [List.length_cons] at further
    have apart : p.down k ≠ p.down (rest.length + 1) := by
      rw [Ne, Word.down_eq_down]
      omega
    exact ⟨(get_set_of_ne memory v apart).trans holds.1, ih holds.2 (by omega)⟩

/-- Writing to the cell of one byte replaces this byte and no other. -/
private theorem replace (holds : memory.HoldsBelow p (l ++ u :: r))
    (fits : l.length + r.length < 65536) (v : Byte) :
    (memory.set (p.down (r.length + 1)) v).HoldsBelow p (l ++ v :: r) := by
  induction l with
  | nil =>
    rw [List.length_nil, Nat.zero_add] at fits
    exact ⟨get_set_self memory _ v, holds.2.set (Nat.lt_succ_self _) fits v⟩
  | cons w l ih =>
    rw [List.length_cons] at fits
    have apart : p.down (r.length + 1) ≠ p.down ((l ++ v :: r).length + 1) := by
      rw [Ne, Word.down_eq_down, List.length_append, List.length_cons]
      omega
    have same : (l ++ v :: r).length = (l ++ u :: r).length := by
      simp only [List.length_append, List.length_cons]
    refine ⟨(get_set_of_ne memory v apart).trans ?_, ih holds.2 (by omega)⟩
    rw [same]
    exact holds.1

end HoldsBelow

end Memory

/-! ## A machine that holds a list -/

namespace Machine

/-- The second machine is the first one with a list of bytes on its stack, the top first. It has
changed nothing but the stack pointer and so many cells below it. -/
structure Stacked (m : Machine) (room : ℕ) (l : List Byte) (n : Machine) : Prop where
  regs : n.regs = { m.regs with sp := m.regs.sp.down l.length }
  latches : n.latches = m.latches
  holds : n.memory.HoldsBelow m.regs.sp l
  frame : ∀ a, (∀ k, 1 ≤ k → k ≤ room → a ≠ m.regs.sp.down k) → n.memory.get a = m.memory.get a

namespace Stacked

variable {m n : Machine} {room : ℕ} {l : List Byte} {v : Byte}

theorem nil (m : Machine) (room : ℕ) : m.Stacked room [] m where
  regs := by simp
  latches := rfl
  holds := trivial
  frame _ _ := rfl

theorem pushByte (stacked : m.Stacked room l n) (below : l.length < room) (fits : room ≤ 65536)
    (v : Byte) : m.Stacked room (v :: l) (n.pushByte v) := by
  have cell : n.regs.sp - 1 = m.regs.sp.down (l.length + 1) := by
    rw [stacked.regs, Word.down_sub_one]
  constructor
  · rw [Machine.pushByte, cell, stacked.regs, List.length_cons]
  · exact stacked.latches
  · rw [Machine.pushByte, cell]
    refine ⟨Memory.get_set_self _ _ v, stacked.holds.set (Nat.lt_succ_self _) (by omega) v⟩
  · intro a outside
    rw [Machine.pushByte, cell,
      Memory.get_set_of_ne _ _ (outside _ (Nat.le_add_left 1 _) below).symm, stacked.frame a outside]

theorem topByte (stacked : m.Stacked room (v :: l) n) : n.topByte = v := by
  rw [Machine.topByte, stacked.regs]
  exact stacked.holds.1

theorem dropByte (stacked : m.Stacked room (v :: l) n) : m.Stacked room l n.dropByte where
  regs := by rw [Machine.dropByte, stacked.regs, List.length_cons, Word.down_succ_add_one]
  latches := stacked.latches
  holds := stacked.holds.2
  frame := stacked.frame

end Stacked

/-! ## Words on the stack -/

/-- The bytes of a list of words as they lie on the stack, the low byte of each on top. -/
def stackBytes (ws : List Word) : List Byte :=
  ws.flatMap fun w => [w.low, w.high]

private theorem length_stackBytes (ws : List Word) : (stackBytes ws).length = 2 * ws.length := by
  induction ws with
  | nil => rfl
  | cons w ws ih =>
    rw [stackBytes, List.flatMap_cons, List.length_append, ← stackBytes, ih, List.length_cons]
    simp only [List.length_cons, List.length_nil]
    omega

private theorem stackBytes_concat (ws : List Word) (w : Word) :
    stackBytes (ws ++ [w]) = stackBytes ws ++ [w.low, w.high] := by
  rw [stackBytes, List.flatMap_append, ← stackBytes]
  rfl

namespace Stacked

variable {m n : Machine} {limit : ℕ} {w : Word} {ws : List Word}

theorem push (stacked : m.Stacked (2 * limit) (stackBytes ws) n) (room : ws.length < limit)
    (fits : limit ≤ 32768) (w : Word) : m.Stacked (2 * limit) (stackBytes (w :: ws)) (n.push w) := by
  have bytes := length_stackBytes ws
  have high := stacked.pushByte (by omega) (by omega) w.high
  exact high.pushByte (by rw [List.length_cons]; omega) (by omega) w.low

theorem top (stacked : m.Stacked (2 * limit) (stackBytes (w :: ws)) n) : n.top = w := by
  have low := stacked.topByte
  have high := stacked.dropByte.topByte
  rw [Machine.top, low, high, Word.ofBytes_high_low]

theorem drop (stacked : m.Stacked (2 * limit) (stackBytes (w :: ws)) n) :
    m.Stacked (2 * limit) (stackBytes ws) n.drop :=
  stacked.dropByte.dropByte

end Stacked

private theorem stacked_push (m : Machine) (w : Word) :
    m.Stacked (2 * 1) (stackBytes [w]) (m.push w) :=
  (Stacked.nil m _).push Nat.zero_lt_one (by decide) w

theorem top_push (m : Machine) (w : Word) : (m.push w).top = w :=
  (m.stacked_push w).top

theorem regs_drop_push (m : Machine) (w : Word) : (m.push w).drop.regs = m.regs := by
  rw [(m.stacked_push w).drop.regs, length_stackBytes, List.length_nil, Nat.mul_zero,
    Word.down_zero]

/-! ## One word more -/

/-- Writing to the two uppermost cells replaces the word pushed first. -/
private theorem holdsBelow_replace_first {memory : Memory} {p v : Word} {ws : List Word}
    (holds : memory.HoldsBelow p (stackBytes (ws ++ [v]))) (fits : ws.length < 32768) (w : Word) :
    ((memory.set (p.down 1) w.high).set (p.down 2) w.low).HoldsBelow p
      (stackBytes (ws ++ [w])) := by
  have bytes := length_stackBytes ws
  rw [stackBytes_concat, List.append_cons] at holds
  have high := holds.replace (by simp [bytes]; omega) w.high
  rw [← List.append_cons] at high
  have low := high.replace (by simp [bytes]; omega) w.low
  rw [stackBytes_concat]
  exact low

/-- A word too many lands on the first one: the stack pointer has come round to where it began. -/
theorem Stacked.push_full {m n : Machine} {v : Word} {ws : List Word}
    (stacked : m.Stacked (2 * 32768) (stackBytes (ws ++ [v])) n) (full : ws.length = 32767)
    (w : Word) : m.Stacked (2 * 32768) (stackBytes (ws ++ [w])) (n.push w).drop := by
  have length (u : Word) : (stackBytes (ws ++ [u])).length = 65536 := by
    rw [length_stackBytes, List.length_append, full, List.length_singleton]
  have around : m.regs.sp.down 65536 = m.regs.sp.down 0 := Word.down_eq_down.mpr rfl
  have sp : n.regs.sp = m.regs.sp := by
    rw [stacked.regs, length, around, Word.down_zero]
  have memory : (n.push w).drop.memory =
      (n.memory.set (m.regs.sp.down 1) w.high).set (m.regs.sp.down 2) w.low := by
    rw [memory_drop, memory_push, sp]
    rfl
  constructor
  · rw [regs_drop_push, stacked.regs, length, length]
  · rw [latches_drop, latches_push, stacked.latches]
  · rw [memory]
    exact holdsBelow_replace_first stacked.holds (by omega) w
  · intro a outside
    rw [memory, Memory.get_set_of_ne _ _ (outside 2 (by decide) (by decide)).symm,
      Memory.get_set_of_ne _ _ (outside 1 (by decide) (by decide)).symm, stacked.frame a outside]

end Machine

/-! ## Calls -/

/-- A call of the stack. -/
inductive StackCall
  | push (w : Word)
  | pop
deriving DecidableEq

namespace StackCall

/-- The pushes less the pops. -/
def depth : List StackCall → ℤ
  | [] => 0
  | .push _ :: rest => depth rest + 1
  | .pop :: rest => depth rest - 1

/-- On the way through the calls, from a stack that holds some words at the start, the number of words
never falls below zero and never rises above a limit. -/
def Within (limit start : ℕ) (calls : List StackCall) : Prop :=
  ∀ before, before <+: calls → 0 ≤ start + depth before ∧ start + depth before ≤ limit

/-- What the pops give back where the stack is a list of words, the top first. -/
def poppedFrom (ws : List Word) : List StackCall → List (Option Word)
  | [] => []
  | .push w :: rest => poppedFrom (w :: ws) rest
  | .pop :: rest => ws.head? :: poppedFrom ws.tail rest

namespace Within

variable {limit start : ℕ} {w : Word} {calls before : List StackCall}

private theorem of_prefix (within : Within limit start calls) (first : before <+: calls) :
    Within limit start before :=
  fun _ earlier => within _ (earlier.trans first)

theorem push (within : Within limit start (.push w :: calls)) :
    start < limit ∧ Within limit (start + 1) calls := by
  constructor
  · have one := within [.push w] (by simp)
    simp only [depth] at one
    omega
  · intro before first
    have longer := within (.push w :: before) (by simpa using first)
    rw [depth] at longer
    push_cast
    omega

theorem pop (within : Within limit start (.pop :: calls)) :
    0 < start ∧ Within limit (start - 1) calls := by
  have one := within [.pop] (by simp)
  simp only [depth] at one
  refine ⟨by omega, ?_⟩
  intro before first
  have longer := within (.pop :: before) (by simpa using first)
  rw [depth] at longer
  omega

end Within

end StackCall

namespace Machine

/-- The machine after a call of its stack. -/
def call (m : Machine) : StackCall → Machine
  | .push w => m.push w
  | .pop => m.drop

/-- The machine after several calls of its stack. -/
def calls (m : Machine) (cs : List StackCall) : Machine :=
  cs.foldl call m

/-- What the pops among the calls give back. -/
def popped (m : Machine) : List StackCall → List Word
  | [] => []
  | .push w :: rest => (m.push w).popped rest
  | .pop :: rest => m.top :: m.drop.popped rest

namespace Stacked

variable {m n : Machine} {limit : ℕ} {ws : List Word} {cs : List StackCall}

theorem calls (stacked : m.Stacked (2 * limit) (stackBytes ws) n) (fits : limit ≤ 32768)
    (within : StackCall.Within limit ws.length cs) :
    (n.popped cs).map some = StackCall.poppedFrom ws cs ∧
    ∃ held : List Word, (held.length : ℤ) = ws.length + StackCall.depth cs ∧
      m.Stacked (2 * limit) (stackBytes held) (n.calls cs) := by
  -- the words at hand and the machine that holds them both change from call to call
  induction cs generalizing n ws with
  | nil => exact ⟨rfl, ws, by simp [StackCall.depth], stacked⟩
  | cons c cs ih =>
    cases c with
    | push w =>
      obtain ⟨room, rest⟩ := within.push
      obtain ⟨same, held, length, after⟩ := ih (stacked.push room fits w) rest
      refine ⟨same, held, ?_, after⟩
      rw [length, StackCall.depth, List.length_cons]
      push_cast
      omega
    | pop =>
      obtain ⟨nonempty, rest⟩ := within.pop
      obtain ⟨w, ws, rfl⟩ := List.exists_cons_of_length_pos nonempty
      obtain ⟨same, held, length, after⟩ := ih stacked.drop rest
      refine ⟨?_, held, ?_, after⟩
      · rw [popped, List.map_cons, same, stacked.top]
        rfl
      · rw [length, StackCall.depth, List.length_cons]
        push_cast
        omega

/-- Pushing a list leaves it the other way round. -/
theorem pushes (stacked : m.Stacked (2 * limit) (stackBytes ws) n) (fits : limit ≤ 32768)
    (us : List Word) (room : us.length + ws.length ≤ limit) :
    m.Stacked (2 * limit) (stackBytes (us.reverse ++ ws)) (n.calls (us.map .push)) := by
  induction us generalizing n ws with
  | nil => exact stacked
  | cons u us ih =>
    rw [List.length_cons] at room
    have pushed := stacked.push (by omega) fits u
    have after := ih pushed (by rw [List.length_cons]; omega)
    rwa [List.reverse_cons, List.append_assoc, List.singleton_append]

/-- As many pops as there are words give back all of them. -/
theorem pops (stacked : m.Stacked (2 * limit) (stackBytes ws) n) :
    n.popped (List.replicate ws.length .pop) = ws ∧
      m.Stacked (2 * limit) (stackBytes []) (n.calls (List.replicate ws.length .pop)) := by
  induction ws generalizing n with
  | nil => exact ⟨rfl, stacked⟩
  | cons w ws ih =>
    obtain ⟨same, after⟩ := ih stacked.drop
    refine ⟨?_, after⟩
    rw [List.length_cons, List.replicate_succ, popped, stacked.top, same]

end Stacked

private theorem popped_pushes_append (m : Machine) (us : List Word) (cs : List StackCall) :
    m.popped (us.map .push ++ cs) = (m.calls (us.map .push)).popped cs := by
  induction us generalizing m with
  | nil => rfl
  | cons u us ih => exact ih (m.push u)

private theorem calls_cons (m : Machine) (c : StackCall) (cs : List StackCall) :
    m.calls (c :: cs) = (m.call c).calls cs := rfl

private theorem calls_append (m : Machine) (cs ds : List StackCall) :
    m.calls (cs ++ ds) = (m.calls cs).calls ds :=
  List.foldl_append

/-- A word too many takes the place of the first one, and is given back twice. -/
theorem popped_overfull (m : Machine) (first last : Word) (between : List Word)
    (length : between.length = 32767) :
    let cs := (first :: between ++ [last]).map .push ++ List.replicate (between.length + 2) .pop
    m.popped cs = last :: between.reverse ++ [last] ∧ (m.calls cs).regs.sp = m.regs.sp := by
  intro cs
  let full := m.calls ((first :: between).map .push)
  have filled : m.Stacked (2 * 32768) (stackBytes (between.reverse ++ [first])) full := by
    have empty : m.Stacked (2 * 32768) (stackBytes []) m := .nil m _
    have pushed := empty.pushes le_rfl (first :: between) (by simp [length])
    rwa [List.append_nil, List.reverse_cons] at pushed
  have refilled := filled.push_full (by rw [List.length_reverse, length]) last
  obtain ⟨rest, emptied⟩ := refilled.pops
  -- the last push and the first pop stand between filling the stack and emptying it
  have order : cs = (first :: between).map .push ++
      .push last :: .pop :: List.replicate (between.reverse ++ [last]).length .pop := by
    rw [List.length_append, List.length_reverse, List.length_singleton]
    simp only [cs, List.map_append, List.map_singleton, List.append_assoc, List.singleton_append,
      List.replicate_succ]
  rw [order, popped_pushes_append, calls_append]
  constructor
  · rw [popped, popped, top_push, rest]
    rfl
  · rw [calls_cons, calls_cons, call, call, emptied.regs]
    exact m.regs.sp.down_zero

/-- **The stack is a list of at most 32768 words.** As long as there are never fewer words than none
nor more than a limit of at most 32768, pops give back what they give back on a list; after each call
the stack pointer stands two bytes below its start for each word, and nothing else has changed but
cells among the two for each word of the limit below it. One word more is too many: it takes the place
of the first, and is given back twice. -/
theorem stack_refines_list (m : Machine) :
    (∀ (limit : ℕ) (cs : List StackCall), limit ≤ 32768 → StackCall.Within limit 0 cs →
      (m.popped cs).map some = StackCall.poppedFrom [] cs ∧
      ∀ before, before <+: cs →
        (m.calls before).regs =
          { m.regs with sp := .ofInt (m.regs.sp.toNat - 2 * StackCall.depth before) } ∧
        (m.calls before).latches = m.latches ∧
        ∀ a, (∀ k, 1 ≤ k → k ≤ 2 * limit → a ≠ m.regs.sp - .ofNat k) →
          (m.calls before).memory.get a = m.memory.get a) ∧
    (∀ (first last : Word) (between : List Word), between.length = 32767 →
      let cs := (first :: between ++ [last]).map .push ++ List.replicate 32769 .pop
      m.popped cs = last :: between.reverse ++ [last] ∧ (m.calls cs).regs.sp = m.regs.sp) := by
  constructor
  · intro limit cs fits within
    have empty : m.Stacked (2 * limit) (stackBytes []) m := .nil m _
    refine ⟨(empty.calls fits within).1, ?_⟩
    intro before earlier
    obtain ⟨-, held, length, stacked⟩ := empty.calls fits (within.of_prefix earlier)
    refine ⟨?_, stacked.latches, stacked.frame⟩
    have depth : ((2 * held.length : ℕ) : ℤ) = 2 * StackCall.depth before := by
      rw [List.length_nil] at length
      push_cast
      omega
    rw [stacked.regs, length_stackBytes, Word.down_eq_ofInt, depth]
  · intro first last between length
    have count : 32769 = between.length + 2 := by rw [length]
    rw [count]
    exact m.popped_overfull first last between length

/-- A machine whose stack wraps with the first word pushed. -/
def atBottom : Machine :=
  { ofImage ByteArray.empty with regs.sp := 0x0001 }

/-- Calls that are at most two words deep. -/
def twoDeep : List StackCall :=
  [.push 0x1234, .push 0x5678, .pop, .push 0x9ABC, .pop, .pop]

theorem stack_refines_list_atBottom :
    2 ≤ 32768 ∧ StackCall.Within 2 0 twoDeep ∧
    (atBottom.popped twoDeep).map some = [some 0x5678, some 0x9ABC, some 0x1234] ∧
    (List.replicate 32767 (0 : Word)).length = 32767 ∧
    atBottom.popped (((1 : Word) :: List.replicate 32767 0 ++ [2]).map .push ++
        List.replicate 32769 .pop) =
      2 :: (List.replicate 32767 0).reverse ++ [2] := by
  have fits : 2 ≤ 32768 := by decide
  have within : StackCall.Within 2 0 twoDeep := by
    have checked : ∀ before ∈ twoDeep.inits,
        0 ≤ (0 : ℕ) + StackCall.depth before ∧ (0 : ℕ) + StackCall.depth before ≤ (2 : ℕ) := by
      decide
    intro before first
    exact checked before ((List.mem_inits _ _).mpr first)
  have length : (List.replicate 32767 (0 : Word)).length = 32767 := List.length_replicate
  obtain ⟨refines, overfull⟩ := stack_refines_list atBottom
  exact ⟨fits, within, (refines 2 twoDeep fits within).1, length, (overfull 1 2 _ length).1⟩

end Machine

end Sm83
