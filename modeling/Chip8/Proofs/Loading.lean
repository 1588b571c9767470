import Chip8.ByteSource
import Chip8.Proofs.History

/-!
# Proofs/Loading — a program comes to the same whichever way it is loaded

Bytes reach a machine directly, by way of an image, or from a source that is read to its end
(`Machine.Delivery`). The size of a program is checked where an image is built and again where it is loaded;
both checks agree with the end of memory, so the way makes no difference (`deliver_of_yields`). A source that
breaks off loads nothing of what it gave before.
-/

namespace Chip8

/-! ## Sources -/

/-- The bytes of a chunk; a failure has none. -/
def Chunk.data : Chunk → List Byte
  | bytes first rest => first :: rest
  | failure _ => []

namespace ByteSource

variable {before source : ByteSource} {program : List Byte} {e : IoError}

/-- No failure but interruptions. -/
def Steady (source : ByteSource) : Prop := ∀ e, .failure e ∈ source → e.kind = .interrupted

/-- The source gives these bytes up to its end, in any portions and with any interruptions. -/
def Yields (source : ByteSource) (program : List Byte) : Prop :=
  source.Steady ∧ source.flatMap Chunk.data = program

/-- The source gives some bytes, or none, and then fails for good. -/
def Breaks (source : ByteSource) (e : IoError) : Prop :=
  ∃ before rest, source = before ++ .failure e :: rest ∧ Steady before ∧ e.kind ≠ .interrupted

/-- A steady part of a source is read through, and its bytes come before those of the rest. By induction on
the chunks. -/
theorem readToEnd_append (h : Steady before) (rest : ByteSource) :
    readToEnd (before ++ rest) = (before.flatMap Chunk.data ++ ·) <$> readToEnd rest := by
  induction before with
  | nil =>
    rw [List.nil_append, List.flatMap_nil]
    cases readToEnd rest <;> rfl
  | cons chunk before ih =>
    have hbefore := ih fun e he => h e (List.mem_cons_of_mem chunk he)
    rw [List.cons_append, List.flatMap_cons]
    cases chunk with
    | bytes first data =>
      rw [readToEnd, hbefore]
      cases readToEnd rest with
      | ok program => exact congrArg Except.ok (List.append_assoc (first :: data) _ program).symm
      | error e => rfl
    | failure e =>
      rw [readToEnd, if_pos (h e List.mem_cons_self), hbefore]
      rfl

theorem readToEnd_of_yields (h : source.Yields program) : source.readToEnd = .ok program := by
  obtain ⟨hsteady, rfl⟩ := h
  have hread := readToEnd_append hsteady []
  rw [List.append_nil] at hread
  rw [hread, readToEnd]
  exact congrArg Except.ok (List.append_nil _)

theorem readToEnd_of_breaks (h : source.Breaks e) : source.readToEnd = .error e := by
  obtain ⟨before, rest, rfl, hsteady, hkind⟩ := h
  rw [readToEnd_append hsteady, readToEnd, if_neg hkind]
  rfl

end ByteSource

/-! ## Loading into memory and into a machine -/

namespace Machine

variable {κ : Type} {m : Machine κ} {program : List Byte}

/-- How a program comes to a machine. -/
inductive Delivery where
  /-- As its bytes. -/
  | bytes (program : List Byte)
  /-- As the image that is built of its bytes. -/
  | image (program : List Byte)
  /-- Read from a source. -/
  | source (chunks : ByteSource)

/-- What is delivered, whole. -/
def Delivery.Yields : Delivery → List Byte → Prop
  | bytes program, p | image program, p => program = p
  | source chunks, p => chunks.Yields p

/-- The delivery breaks off. -/
def Delivery.Breaks : Delivery → IoError → Prop
  | bytes _, _ | image _, _ => False
  | source chunks, e => chunks.Breaks e

/-- Loads what is delivered. -/
def deliver (m : Machine κ) : Delivery → Except Error (Machine κ)
  | .bytes program => m.load program
  | .image program => Image.ofBytes program >>= m.loadImage
  | .source chunks => do
    let memory ← m.memory.loadFrom chunks
    return { m with memory }

theorem load_eq (m : Machine κ) (program : List Byte) :
    m.load program = if program.length ≤ 3584 then .ok { m with memory := m.memory.store 0x200 program }
      else .error (.imageTooLarge program.length 3584) := by
  rw [load, Memory.load_eq]
  split <;> rfl

/-- An image fits, so loading it cannot be refused. -/
theorem loadImage_eq (m : Machine κ) (image : Image) :
    m.loadImage image = .ok { m with memory := m.memory.store 0x200 image.bytes } := by
  have hfits : image.bytes.length ≤ 3584 := image.length_le
  rw [loadImage, load_eq, if_pos hfits]

/-- **Every way of loading a program comes to the same.** -/
theorem deliver_of_yields {d : Delivery} (h : d.Yields program) : m.deliver d = m.load program := by
  cases d with
  | bytes p =>
    obtain rfl : p = program := h
    rfl
  | image p =>
    obtain rfl : p = program := h
    by_cases hfits : p.length ≤ 3584
    · have himage : Image.ofBytes p = .ok ⟨p, hfits⟩ := dif_pos hfits
      rw [deliver, himage]
      rfl
    · have himage : Image.ofBytes p = .error (.imageTooLarge p.length 3584) := dif_neg hfits
      rw [deliver, himage, load_eq, if_neg hfits]
      rfl
  | source chunks =>
    rw [deliver, Memory.loadFrom, ByteSource.readToEnd_of_yields h]
    rfl

theorem deliver_of_breaks {d : Delivery} {e : IoError} (h : d.Breaks e) : m.deliver d = .error (.io e) := by
  cases d with
  | bytes p | image p => exact h.elim
  | source chunks =>
    rw [deliver, Memory.loadFrom, ByteSource.readToEnd_of_breaks h]
    rfl

/-- Loading touches nothing but memory. -/
theorem deliver_inv {d : Delivery} {m' : Machine κ} (h : m.deliver d = .ok m') :
    m' = { m with memory := m'.memory } := by
  cases d with
  | bytes p =>
    rw [load_inv h]
  | image p =>
    obtain ⟨image, -, hload⟩ := bind_eq_ok h
    rw [load_inv hload]
  | source chunks =>
    obtain ⟨memory, -, hload⟩ := bind_eq_ok h
    rw [← Except.ok.inj hload]

/-! ## Loading in place -/

/-- Stores a program in place: its size is checked, and then its bytes are written. -/
def storeProgram (program : List Byte) : MachineM κ Unit := do
  if Memory.programCapacity < program.length then
    throw (.error (.imageTooLarge program.length Memory.programCapacity))
  modifyMemory (·.write Memory.programBase program)

/-- Stores in place what is delivered. -/
def receive : Delivery → MachineM κ Unit
  | .bytes program => storeProgram program
  | .image program =>
    match Image.ofBytes program with
    | .ok image => storeProgram image.bytes
    | .error e => throw (.error e)
  | .source chunks =>
    match chunks.readToEnd with
    | .ok program => storeProgram program
    | .error e => throw (.error (.io e))

/-- What loading comes to, for an operation on the machine: where it is refused, the machine is as it was. -/
def settled (m : Machine κ) : Except Error (Machine κ) → EStateM.Result Stop (Machine κ) Unit
  | .ok m' => .ok () m'
  | .error e => .error (.error e) m

/-- The check makes sure that the write cannot leave the memory. -/
theorem storeProgram_run (m : Machine κ) (program : List Byte) :
    storeProgram program m = m.settled (m.load program) := by
  rw [load_eq]
  by_cases hfits : program.length ≤ 3584
  · have hroom : Memory.programBase + program.length ≤ 4096 := Nat.add_le_add_left hfits 0x200
    have hnot : ¬ Memory.programCapacity < program.length := Nat.not_lt_of_le hfits
    rw [if_pos hfits]
    simp only [storeProgram, if_neg hnot]
    exact modifyMemory_run (Memory.write_eq_store hroom)
  · have hlong : Memory.programCapacity < program.length := Nat.lt_of_not_le hfits
    rw [if_neg hfits]
    simp only [storeProgram, if_pos hlong]
    rfl

theorem receive_run (m : Machine κ) (d : Delivery) : receive d m = m.settled (m.deliver d) := by
  cases d with
  | bytes program => exact storeProgram_run m program
  | image program =>
    rw [receive, deliver]
    cases Image.ofBytes program with
    | ok image => exact storeProgram_run m image.bytes
    | error e => rfl
  | source chunks =>
    rw [receive, deliver, Memory.loadFrom]
    cases chunks.readToEnd with
    | ok program => exact storeProgram_run m program
    | error e => rfl

/-- **Loading a program does the same whichever way it comes**: as bytes, as an image, or from a source that
yields it in any portions. It is accepted if it has at most 3584 bytes, which is when memory has room for it
at 0x200; it is then there, and every other byte is as it was. Otherwise its size is reported. A source that
breaks off is reported too. Done in place, loading never leaves the bounds of memory, and where it fails, the
machine is as it was; in no case are its registers or its screen touched. An image that was built is always
accepted. -/
theorem loads_agree (m : Machine κ) (d : Delivery) :
    (∀ program, d.Yields program →
      (program.length ≤ 3584 → ∃ memory, m.deliver d = .ok { m with memory } ∧
        ∀ a, memory.byte a = if 0x200 ≤ a ∧ a < 0x200 + program.length then program.getD (a - 0x200) 0
          else m.memory.byte a) ∧
      (3584 < program.length → m.deliver d = .error (.imageTooLarge program.length 3584))) ∧
    (∀ e, d.Breaks e → m.deliver d = .error (.io e)) ∧
    (∀ m', m.deliver d = .ok m' →
      receive d m = .ok () m' ∧ m'.registers = m.registers ∧ m'.screen = m.screen) ∧
    (∀ e, m.deliver d = .error e → receive d m = .error (.error e) m) ∧
    ∀ program image, Image.ofBytes program = .ok image → ∃ m', m.loadImage image = .ok m' := by
  refine ⟨fun program hyields => ?_, fun e => deliver_of_breaks, fun m' hok => ?_, fun e herror => ?_,
    fun _ image _ => ⟨_, m.loadImage_eq image⟩⟩
  · rw [deliver_of_yields hyields, load_eq]
    by_cases hfits : program.length ≤ 3584
    · have hroom : 0x200 + program.length ≤ 4096 := by omega
      rw [if_pos hfits]
      exact ⟨fun _ => ⟨_, rfl, Memory.byte_store hroom⟩,
        fun hlong => absurd hfits (Nat.not_le_of_lt hlong)⟩
    · rw [if_neg hfits]
      exact ⟨fun h => absurd h hfits, fun _ => rfl⟩
  · rw [receive_run, hok, deliver_inv hok]
    exact ⟨rfl, rfl, rfl⟩
  · rw [receive_run, herror]
    rfl

/-- A program arrives in two portions with an interruption between them. A source that then breaks off leaves
none of it. -/
theorem loads_agree_interrupted :
    let m : Machine Unit := .new () {} (.ofSeed 0)
    let pause : Chunk := .failure ⟨.interrupted, "interrupted"⟩
    let chunks : ByteSource := [.bytes 0x12 [], pause, .bytes 0x34 []]
    let e : IoError := ⟨.other, "gone"⟩
    (∃ memory, m.deliver (.source chunks) = .ok { m with memory } ∧ memory.byte 0x201 = 0x34 ∧
      receive (.source chunks) m = .ok () { m with memory }) ∧
    receive (.source (chunks ++ [.failure e])) m = .error (.error (.io e)) m := by
  intro m pause chunks e
  have hyields : Delivery.Yields (.source chunks) [0x12, 0x34] := by
    refine ⟨fun e he => ?_, rfl⟩
    simp only [chunks, pause, List.mem_cons, reduceCtorEq, Chunk.failure.injEq, List.not_mem_nil, or_false,
      false_or] at he
    rw [he]
  have hbreaks : Delivery.Breaks (.source (chunks ++ [.failure e])) e :=
    ⟨chunks, [], rfl, hyields.1, by decide⟩
  obtain ⟨hall, -, hok, -⟩ := loads_agree m (.source chunks)
  obtain ⟨memory, hload, hbyte⟩ := (hall _ hyields).1 (by decide)
  obtain ⟨-, hlost, -, herror, -⟩ := loads_agree m (.source (chunks ++ [.failure e]))
  refine ⟨⟨memory, hload, ?_, (hok _ hload).1⟩, herror _ (hlost e hbreaks)⟩
  rw [hbyte, if_pos (by decide)]
  rfl

end Machine

end Chip8
