import Chip8.Proofs.Invariant

/-!
# Proofs/Shape — the shape of every machine that a run can reach

What `Registers.Regular` says of the registers one by one is read here off the list of all of them with
their widths (`Registers.all`), and joined by the sizes of memory and screen: the width of every register
and the number of cells of either are the same in every machine, whatever a program does to it.
-/

namespace Chip8

/-! ## All registers -/

theorem Register.Quiet.single {width : Nat} {r : Register width} (h : r.Quiet) : r.Single :=
  fun hboth => Bool.false_ne_true (h.1.symm.trans hboth.1)

namespace Registers

variable {r : Registers}

/-- The registers with their widths: the general ones by number, then the index, the program counter, the
stack pointer and the two timers. -/
def all (r : Registers) : List (Σ width, Register width) :=
  r.v.toList.map (Sigma.mk 8) ++ [⟨16, r.index⟩, ⟨16, r.pc⟩, ⟨8, r.sp⟩, ⟨8, r.delay⟩, ⟨8, r.sound⟩]

theorem widths_all : r.all.map Sigma.fst = List.replicate 16 8 ++ [16, 16, 8, 8, 8] := by
  have hv : (r.v.toList.map (Sigma.mk 8 (β := Register))).map Sigma.fst = List.replicate 16 8 := by
    rw [List.map_map, List.eq_replicate_iff]
    refine ⟨by rw [List.length_map, Vector.length_toList], fun width hwidth => ?_⟩
    obtain ⟨_, -, rfl⟩ := List.mem_map.1 hwidth
    rfl
  rw [all, List.map_append, hv]
  rfl

theorem Regular.single (h : r.Regular) : ∀ p ∈ r.all, p.2.Single := by
  intro p hp
  rw [all, List.mem_append] at hp
  rcases hp with hp | hp
  · obtain ⟨s, hs, rfl⟩ := List.mem_map.1 hp
    obtain ⟨x, hx, rfl⟩ := Vector.mem_iff_getElem.1 (Vector.mem_toList_iff.1 hs)
    exact h.v x hx
  · simp only [List.mem_cons, List.not_mem_nil, or_false] at hp
    rcases hp with rfl | rfl | rfl | rfl | rfl
    · exact h.index
    · exact h.pc
    · exact h.sp.quiet.single
    · exact h.delay.single
    · exact h.sound.single

end Registers

/-! ## All cells -/

namespace Grid

variable {α : Type} {w h : Nat} {g : Grid α w h}

theorem length_toList : g.toList.length = w * h := Vector.length_toList

theorem length_rows : g.rows.length = h := by rw [rows, List.length_map, List.length_range]

theorem length_row {y : Nat} (hy : y < h) : (g.row y).length = w := by
  have hsome : ∀ x ∈ List.range w, (g.get? x y).isSome := fun x hx => by
    rw [get?_eq_some (List.mem_range.1 hx) hy]
    rfl
  rw [row, List.length_filterMap_eq_countP, List.countP_eq_length.2 hsome, List.length_range]

theorem length_of_mem_rows {row : List α} (hrow : row ∈ g.rows) : row.length = w := by
  obtain ⟨y, hy, rfl⟩ := List.mem_map.1 hrow
  exact length_row (List.mem_range.1 hy)

end Grid

/-! ## The machine -/

namespace Machine

variable {κ : Type} [Keypad κ] {m m' : Machine κ}

/-- Loading an image is loading its bytes. -/
theorem Transition.loadImage {image : Image} (loaded : m.loadImage image = .ok m') : m.Transition m' :=
  .load loaded

/-- **The shape of a machine is the same all through a run.** The general registers, the stack pointer and
the timers are eight bits wide, the index and the program counter sixteen, and each holds a number of its
width. No register has both flags up; the stack pointer and the timers have none. The stack pointer is even
and between 0x52 and 0xfe, also after the program has stored over its return addresses. Memory has 4096
bytes, and the screen 32 rows of 64 pixels. -/
theorem Reachable.shape (h : m.Reachable) :
    m.registers.all.map Sigma.fst = List.replicate 16 8 ++ [16, 16, 8, 8, 8] ∧
    (∀ r ∈ m.registers.all, r.2.toNat < Register.modulus r.1 ∧
      ¬ (r.2.overflowed = true ∧ r.2.borrowed = true)) ∧
    (∀ r ∈ [m.registers.sp, m.registers.delay, m.registers.sound],
      r.overflowed = false ∧ r.borrowed = false) ∧
    (m.registers.sp.toNat % 2 = 0 ∧ 0x52 ≤ m.registers.sp.toNat ∧ m.registers.sp.toNat ≤ 0xfe) ∧
    m.memory.bytes.toList.length = 4096 ∧
    m.screen.pixels.rows.length = 32 ∧ (∀ row ∈ m.screen.pixels.rows, row.length = 64) ∧
    m.screen.pixels.toList.length = 2048 := by
  have hregular := h.regular
  refine ⟨Registers.widths_all, fun r hr => ⟨r.2.toNat_lt, hregular.single r hr⟩, ?_,
    ⟨hregular.sp.even, hregular.sp.low, hregular.sp.high⟩, Vector.length_toList, Grid.length_rows,
    fun row hrow => Grid.length_of_mem_rows hrow, Grid.length_toList⟩
  simp only [List.forall_mem_cons, List.not_mem_nil, false_implies, implies_true, and_true]
  exact ⟨hregular.sp.quiet, hregular.delay, hregular.sound⟩

/-- A call at the start of an image: the stack pointer has moved on by one entry, and the machine is as wide
as before. -/
theorem Reachable.shape_call :
    let start : Machine ScriptedKeypad := .new (.holding []) {} (.ofSeed 0)
    ∃ m m', start.loadImage ⟨[0x23, 0x00], by decide⟩ = .ok m ∧ step m = .ok (.call 0x300) m' ∧
      m'.Reachable ∧ m'.registers.sp.toNat = 0x54 ∧ m'.registers.sp.overflowed = false ∧
      m'.registers.all.map Sigma.fst = List.replicate 16 8 ++ [16, 16, 8, 8, 8] ∧
      m'.screen.pixels.toList.length = 2048 := by
  intro start
  have hload : start.loadImage ⟨[0x23, 0x00], by decide⟩ = .ok (.withOpcode 0x2300 (.holding [])) := rfl
  have hi : (withOpcode 0x2300 (ScriptedKeypad.holding [])).instruction? = some (.call 0x300) :=
    instruction?_withOpcode _ _
  have hrun := step_done (a := .silence) (k := .holding []) (by decide) hi (show _ < _ by decide) rfl rfl
  have hreach : Reachable _ := .next (.new _ _ _) (Transition.loadImage hload)
  have hnext : Reachable _ := .next hreach (.step (congrArg left? hrun))
  obtain ⟨hwidths, -, hquiet, -, -, -, -, hpixels⟩ := Reachable.shape hnext
  exact ⟨_, _, hload, hrun, hnext, rfl, (hquiet _ List.mem_cons_self).1, hwidths, hpixels⟩

end Machine

end Chip8
