import Nets.Verification.StackBuffer.Arrays

/-! # Any number of buffers

Every object of a program represents a buffer, so that no operation leaves an array and a write is done
whole or not at all. -/

namespace Nets.StackArray

open Library
open StackBuffer (kMaximumNumberLimit)

variable {SIZE : ℕ} {r : StackArray SIZE} {b : StackBuffer SIZE Char}
  {objects objects' : List (StackArray SIZE)}

/-- What has been written to the buffer. -/
def text (r : StackArray SIZE) : List Char := r.buffer.cells.take r.writerIndex

/-- The whole output of a write. -/
def Write.output (objects : List (StackArray SIZE)) : Write → List Char
  | .bytes data => data
  | .cString data => Library.cString data
  | .string str => str
  | .byte value => [value]
  | .buffer source => (objects[source]?).elim [] text
  | .integer value => decimal value.toNat
  | .pointer ptr => pointerText ptr

/-- The buffer that is written is one of the objects. -/
def Write.Names (count : ℕ) : Write → Prop
  | .buffer source => source < count
  | _ => True

/-- The operation is about objects that are there. -/
def Operation.Names (count : ℕ) : Operation → Prop
  | .construct => True
  | .copy source | .move source => source < count
  | .swap target source => target < count ∧ source < count
  | .write target what => target < count ∧ what.Names count

theorem Represents.text_eq (h : r.Represents b) : r.text = b.bytes := by
  rw [text, h.filled, h.writerIndex_eq, List.take_left]

theorem Represents.writerIndex_le (h : r.Represents b) : r.writerIndex ≤ SIZE - 1 := by
  have hlt := b.length_lt
  rw [h.writerIndex_eq]
  omega

/-- Every object represents a buffer. -/
def AllRepresent (objects : List (StackArray SIZE)) : Prop :=
  ∀ r ∈ objects, ∃ b, r.Represents b

theorem AllRepresent.get (h : AllRepresent objects) {i : ℕ} (hi : i < objects.length) :
    ∃ r b, objects[i]? = some r ∧ r.Represents b := by
  obtain ⟨b, hb⟩ := h (objects.get ⟨i, hi⟩) (List.get_mem objects ⟨i, hi⟩)
  exact ⟨_, b, List.getElem?_eq_getElem hi, hb⟩

theorem AllRepresent.set (h : AllRepresent objects) (hr : r.Represents b) (i : ℕ) :
    AllRepresent (objects.set i r) := by
  intro r' hr'
  obtain hold | rfl := List.mem_or_eq_of_mem_set hr'
  · exact h r' hold
  · exact ⟨b, hr⟩

theorem AllRepresent.concat (h : AllRepresent objects) (hr : r.Represents b) :
    AllRepresent (objects ++ [r]) :=
  List.forall_mem_append.mpr ⟨h, List.forall_mem_singleton.mpr ⟨b, hr⟩⟩

/-! ## Writes -/

/-- Every write comes to nothing or to its whole output. -/
theorem Represents.write (h : r.Represents b) (hall : AllRepresent objects) {what : Write}
    (hnames : what.Names objects.length) :
    ∃ r' b', r.write objects what = some r' ∧ Outcome (what.output objects) r b r' b' := by
  cases what with
  | bytes data | cString data | string str | byte value =>
      obtain ⟨r', hwrite, houtcome⟩ := h.writeLength _
      exact ⟨r', _, hwrite, houtcome⟩
  | buffer source =>
      obtain ⟨other, b', hget, hother⟩ := hall.get hnames
      obtain ⟨r', hwrite, houtcome⟩ := h.writeBuffer hother
      refine ⟨r', b.writeBytes b'.bytes, ?_, ?_⟩
      · simp only [StackArray.write, hget, Option.bind_eq_bind, Option.bind_some]
        exact hwrite
      · rw [Write.output, hget, Option.elim_some, hother.text_eq]
        exact houtcome
  | integer value =>
      have hlt : value.toNat < 10 ^ kMaximumNumberLimit :=
        value.toNat_lt.trans (by decide)
      obtain ⟨r', b', hwrite, -, houtcome⟩ := h.writeInteger hlt
      exact ⟨r', b', hwrite, houtcome⟩
  | pointer ptr =>
      exact h.writePointer ptr

/-! ## Runs -/

/-- No operation on objects that are there leaves an array, and every object represents a buffer
afterwards. -/
theorem AllRepresent.execute [NeZero SIZE] (h : AllRepresent objects) {operation : Operation}
    (hnames : operation.Names objects.length) :
    ∃ objects', execute objects operation = some objects' ∧ AllRepresent objects' := by
  cases operation with
  | construct => exact ⟨_, rfl, h.concat represents_construct⟩
  | copy source =>
      obtain ⟨other, b, hget, hother⟩ := h.get hnames
      obtain ⟨r, hcopy, hr⟩ := hother.copy
      exact ⟨_, by simp [StackArray.execute, hget, hcopy], h.concat hr⟩
  | move source =>
      obtain ⟨other, b, hget, hother⟩ := h.get hnames
      obtain ⟨r, hmove, hr⟩ := hother.move
      exact ⟨_, by simp [StackArray.execute, hget, hmove],
        (h.set represents_construct source).concat hr⟩
  | swap target source =>
      obtain ⟨r, b, hget, hr⟩ := h.get hnames.1
      obtain ⟨r', b', hget', hr'⟩ := h.get hnames.2
      exact ⟨_, by simp [StackArray.execute, hget, hget', hr.swap hr'], (h.set hr' target).set hr source⟩
  | write target what =>
      obtain ⟨r, b, hget, hr⟩ := h.get hnames.1
      obtain ⟨r', b', hwrite, houtcome⟩ := hr.write h hnames.2
      exact ⟨_, by simp [StackArray.execute, hget, hwrite], h.set houtcome.represents target⟩

theorem lt_length_of_get {i : ℕ} (h : objects[i]? = some r) : i < objects.length :=
  (List.getElem?_eq_some_iff.mp h).1

theorem names_of_write {r' : StackArray SIZE} {what : Write} (h : r.write objects what = some r') :
    what.Names objects.length := by
  cases what with
  | buffer source =>
      obtain ⟨other, hget, -⟩ := Option.bind_eq_some_iff.mp h
      exact lt_length_of_get hget
  | bytes | cString | string | byte | integer | pointer => trivial

/-- An operation that is done is about objects that are there. -/
theorem names_of_execute {operation : Operation} (h : execute objects operation = some objects') :
    operation.Names objects.length := by
  cases operation with
  | construct => trivial
  | copy source | move source =>
      obtain ⟨other, hget, -⟩ := Option.bind_eq_some_iff.mp h
      exact lt_length_of_get hget
  | swap target source =>
      obtain ⟨r, hget, h⟩ := Option.bind_eq_some_iff.mp h
      obtain ⟨other, hget', -⟩ := Option.bind_eq_some_iff.mp h
      exact ⟨lt_length_of_get hget, lt_length_of_get hget'⟩
  | write target what =>
      obtain ⟨r, hget, h⟩ := Option.bind_eq_some_iff.mp h
      obtain ⟨r', hwrite, -⟩ := Option.bind_eq_some_iff.mp h
      exact ⟨lt_length_of_get hget, names_of_write hwrite⟩

theorem AllRepresent.of_reachable [NeZero SIZE] (h : (program SIZE).Reachable objects) :
    AllRepresent objects := by
  refine h.invariant ?_ ?_
  · rintro _ rfl r hr
    cases hr
  · intro objects operation objects' hall hstep
    obtain ⟨objects'', hexecute, hall'⟩ := hall.execute (names_of_execute hstep)
    obtain rfl := Option.some.inj (hexecute.symm.trans hstep)
    exact hall'

/-- In every program of buffers of one size the writer index stays before the last character of the
array, everything from it on is zero, nothing outside the array is read or written, and a write
appends its whole output or leaves the buffer as it was. -/
theorem program_inBounds [NeZero SIZE] (h : (program SIZE).Reachable objects) :
    (∀ r ∈ objects, r.writerIndex ≤ SIZE - 1 ∧
      ∀ i, r.writerIndex ≤ i → i < SIZE → r.buffer.cells[i]? = some nul) ∧
    (∀ operation : Operation, operation.Names objects.length →
      ∃ objects', (program SIZE).step objects operation = some objects') ∧
    ∀ target (what : Write) r, objects[target]? = some r → what.Names objects.length →
      ∃ r', (program SIZE).step objects (.write target what) = some (objects.set target r') ∧
        (r' = r ∨ r'.text = r.text ++ what.output objects) := by
  have hall := AllRepresent.of_reachable h
  refine ⟨?_, ?_, ?_⟩
  · intro r hr
    obtain ⟨b, hb⟩ := hall r hr
    refine ⟨hb.writerIndex_le, fun i hle hlt => hb.filled.getElem?_eq ?_ hlt⟩
    rwa [← hb.writerIndex_eq]
  · intro operation hnames
    obtain ⟨objects', hexecute, -⟩ := hall.execute hnames
    exact ⟨objects', hexecute⟩
  · intro target what r hget hnames
    obtain ⟨b, hb⟩ := hall r (List.mem_of_getElem? hget)
    obtain ⟨r', b', hwrite, houtcome⟩ := hb.write hall hnames
    refine ⟨r', by simp [program, execute, hget, hwrite], ?_⟩
    obtain ⟨hsame, -⟩ | hbytes := houtcome.kept_or_appended
    · exact .inl hsame
    · right
      rw [houtcome.represents.text_eq, hb.text_eq, hbytes]

/-- A number is written, and the buffer copied. -/
theorem program_inBounds_copied : ∃ objects : List (StackArray 24), (program 24).Reachable objects ∧
    objects.map text = [['7'], ['7']] ∧
    ∀ r ∈ objects, ∀ i, r.writerIndex ≤ i → i < 24 → r.buffer.cells[i]? = some nul := by
  obtain ⟨objects, hrun, htext⟩ : ∃ objects, (program 24).run [] [.construct,
      .write 0 (.integer 7), .copy 0] = some objects ∧ objects.map text = [['7'], ['7']] :=
    ⟨_, rfl, rfl⟩
  have hinit : (program 24).Reachable [] := .initial rfl
  have hreachable := hinit.run _ hrun
  exact ⟨objects, hreachable, htext, fun r hr => ((program_inBounds hreachable).1 r hr).2⟩

end Nets.StackArray
