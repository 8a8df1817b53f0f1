import Nets.Library.Refinement
import Nets.Verification.ByteBuffer.Correctness
import Nets.Verification.ByteBuffer.Encoding

/-! # Byte buffers refine byte queues

A client owns any number of buffers and calls their constructors, assignments and typed reads
and writes in any order. The specification is a list of byte queues. -/

namespace Nets.ByteBuffer

open Library

/-! ## The client -/

/-- What a client can do with its buffers, which are numbered in the order of construction. -/
inductive Operation where
  | construct (capacity : ℕ)
  | constructFrom (data : List UInt8)
  | copyConstruct (source : ℕ)
  | moveConstruct (source : ℕ)
  | copyAssign (target source : ℕ)
  | moveAssign (target source : ℕ)
  | swap (target other : ℕ)
  | clear (target : ℕ)
  | write (target : ℕ) (value : Value)
  | read (target : ℕ) (kind : Kind)

/-- How a call ends. -/
inductive Output where
  | done
  | value (value : Value)
  | threw (fault : Fault)

abbrev Buffers := List (ByteBuffer UInt8)

/-- The result of a constructor becomes a new buffer, unless the constructor throws. -/
def Buffers.push (store : Buffers) : Except Fault (ByteBuffer UInt8) → Buffers × Output
  | .ok b => (store ++ [b], .done)
  | .error fault => (store, .threw fault)

/-- Call a member function of the `target`-th buffer. -/
def Buffers.call {α : Type} (store : Buffers) (target : ℕ) (m : BufferM UInt8 α)
    (output : α → Output) : Option (Buffers × Output) :=
  store[target]?.map fun b =>
    match m b with
    | .ok a b' => (store.set target b', output a)
    | .error fault b' => (store.set target b', .threw fault)

def execute (store : Buffers) : Operation → Option (Buffers × Output)
  | .construct capacity => some (store.push (.ok (ofCapacity capacity)))
  | .constructFrom data => some (store.push (ofData data))
  | .copyConstruct source => store[source]?.map fun b => store.push (copy b)
  | .moveConstruct source =>
    store[source]?.map fun b =>
      let (constructed, left) := move b
      (store.set source left ++ [constructed], .done)
  | .copyAssign target source =>
    store[target]?.bind fun _ => store[source]?.map fun b =>
      if target = source then (store, .done)
      else
        match copy b with
        | .ok b' => (store.set target b', .done)
        | .error fault => (store, .threw fault)
  | .moveAssign target source =>
    store[target]?.bind fun _ => store[source]?.map fun b =>
      if target = source then (store, .done)
      else
        let (assigned, left) := move b
        ((store.set source left).set target assigned, .done)
  | .swap target other =>
    store[target]?.bind fun a => store[other]?.map fun b =>
      ((store.set target b).set other a, .done)
  | .clear target => store.call target ByteBuffer.clear fun _ => .done
  | .write target value => store.call target (ByteBuffer.write value) fun _ => .done
  | .read target kind => store.call target (ByteBuffer.read kind) .value

def clients : Machine Buffers Operation Output := ⟨execute⟩

/-- Lengths for which no sum of a writer index and a length reaches `2 ^ 63`. -/
def SmallLengths (store : Buffers) : Operation → Prop
  | .construct capacity => capacity < 2 ^ 64
  | .constructFrom data => data.length < 2 ^ 63
  | .write target value =>
    ∀ b, store[target]? = some b → b.writerIndex + value.encode.length < 2 ^ 63
  | _ => True

/-! ## Byte queues -/

/-- A write may be refused for lack of memory, which leaves the queue alone; everything else is
determined. -/
inductive QueueStep : List (List UInt8) → Operation → Output → List (List UInt8) → Prop where
  | construct {queues : List (List UInt8)} (capacity : ℕ) :
      QueueStep queues (.construct capacity) .done (queues ++ [[]])
  | constructFrom {queues : List (List UInt8)} (data : List UInt8) :
      QueueStep queues (.constructFrom data) .done (queues ++ [data])
  | copyConstruct {queues : List (List UInt8)} {source : ℕ} {queue : List UInt8}
      (h : queues[source]? = some queue) :
      QueueStep queues (.copyConstruct source) .done (queues ++ [queue])
  | moveConstruct {queues : List (List UInt8)} {source : ℕ} {queue : List UInt8}
      (h : queues[source]? = some queue) :
      QueueStep queues (.moveConstruct source) .done (queues.set source [] ++ [queue])
  | copyAssign {queues : List (List UInt8)} {target source : ℕ} {queue : List UInt8}
      (h : queues[source]? = some queue) :
      QueueStep queues (.copyAssign target source) .done (queues.set target queue)
  | moveAssign {queues : List (List UInt8)} {target source : ℕ} {queue : List UInt8}
      (h : queues[source]? = some queue) :
      QueueStep queues (.moveAssign target source) .done ((queues.set source []).set target queue)
  | swap {queues : List (List UInt8)} {target other : ℕ} {queue queue' : List UInt8}
      (h : queues[target]? = some queue) (h' : queues[other]? = some queue') :
      QueueStep queues (.swap target other) .done ((queues.set target queue').set other queue)
  | clear {queues : List (List UInt8)} (target : ℕ) :
      QueueStep queues (.clear target) .done (queues.set target [])
  | write {queues : List (List UInt8)} {target : ℕ} {queue : List UInt8}
      (h : queues[target]? = some queue) (value : Value) :
      QueueStep queues (.write target value) .done (queues.set target (queue ++ value.encode))
  | refuse {queues : List (List UInt8)} (target : ℕ) (value : Value) (newCapacity : ℕ) :
      QueueStep queues (.write target value) (.threw (.outOfMemory newCapacity)) queues
  | read {queues : List (List UInt8)} {target : ℕ} {queue : List UInt8} {kind : Kind}
      (h : queues[target]? = some queue) (hsize : kind.size ≤ queue.length) :
      QueueStep queues (.read target kind) (.value (kind.decode (queue.take kind.size)))
        (queues.set target (queue.drop kind.size))
  | starve {queues : List (List UInt8)} {target : ℕ} {queue : List UInt8} {kind : Kind}
      (h : queues[target]? = some queue) (hsize : queue.length < kind.size) :
      QueueStep queues (.read target kind) (.threw (.indexOutOfBounds kind.size)) queues

/-! ## Simulation -/

/-- Every buffer is valid and its readable bytes are the queue of the same number. -/
structure Represents (store : Buffers) (queues : List (List UInt8)) : Prop where
  valid : ∀ b ∈ store, b.Valid
  contents : store.map contents = queues

theorem Represents.get {store : Buffers} {queues : List (List UInt8)}
    (h : Represents store queues) {i : ℕ} {b : ByteBuffer UInt8} (hb : store[i]? = some b) :
    b.Valid ∧ queues[i]? = some b.contents := by
  refine ⟨h.valid b (List.mem_of_getElem? hb), ?_⟩
  rw [← h.contents, List.getElem?_map, hb]
  rfl

theorem Represents.set {store : Buffers} {queues : List (List UInt8)}
    (h : Represents store queues) (i : ℕ) {b : ByteBuffer UInt8} (hb : b.Valid) :
    Represents (store.set i b) (queues.set i b.contents) := by
  refine ⟨fun c hc => ?_, by rw [List.map_set, h.contents]⟩
  rcases List.mem_or_eq_of_mem_set hc with hc | rfl
  · exact h.valid c hc
  · exact hb

theorem Represents.push {store : Buffers} {queues : List (List UInt8)}
    (h : Represents store queues) {b : ByteBuffer UInt8} (hb : b.Valid) :
    Represents (store ++ [b]) (queues ++ [b.contents]) := by
  refine ⟨fun c hc => ?_, by rw [List.map_append, h.contents]; rfl⟩
  rcases List.mem_append.mp hc with hc | hc
  · exact h.valid c hc
  · rw [List.mem_singleton.mp hc]
    exact hb

theorem set_same {α : Type*} {xs : List α} {i : ℕ} {x : α} (h : xs[i]? = some x) :
    xs.set i x = xs := by
  obtain ⟨hi, rfl⟩ := List.getElem?_eq_some_iff.mp h
  exact List.set_getElem_self hi

/-- A member call that returns. -/
theorem Buffers.call_ok {α : Type} {store : Buffers} {i : ℕ} {b b' : ByteBuffer UInt8}
    {m : BufferM UInt8 α} {a : α} (hb : store[i]? = some b) (hm : m b = .ok a b')
    (output : α → Output) : store.call i m output = some (store.set i b', output a) := by
  simp only [Buffers.call, hb, Option.map_some, hm]

/-- A member call that throws and leaves its buffer alone leaves all of them alone. -/
theorem Buffers.call_error {α : Type} {store : Buffers} {i : ℕ} {b : ByteBuffer UInt8}
    {m : BufferM UInt8 α} {fault : Fault} (hb : store[i]? = some b) (hm : m b = .error fault b)
    (output : α → Output) : store.call i m output = some (store, .threw fault) := by
  simp only [Buffers.call, hb, Option.map_some, hm, set_same hb]

theorem Buffers.exists_of_call {α : Type} {store : Buffers} {i : ℕ} {m : BufferM UInt8 α}
    {output : α → Output} {result : Buffers × Output} (h : store.call i m output = some result) :
    ∃ b, store[i]? = some b := by
  obtain ⟨b, hb, _⟩ := Option.map_eq_some_iff.mp h
  exact ⟨b, hb⟩

/-- A call is admitted by the queues, and throws only without touching any buffer. -/
def Simulated (store : Buffers) (queues : List (List UInt8)) (operation : Operation)
    (store' : Buffers) (output : Output) : Prop :=
  (∃ queues', QueueStep queues operation output queues' ∧ Represents store' queues') ∧
    ∀ fault, output = .threw fault → store' = store

theorem simulated_of_done {store store' : Buffers} {queues queues' : List (List UInt8)}
    {operation : Operation} (hstep : QueueStep queues operation .done queues')
    (h : Represents store' queues') : Simulated store queues operation store' .done :=
  ⟨⟨queues', hstep, h⟩, fun _ hout => by cases hout⟩

theorem simulated_of_threw {store : Buffers} {queues : List (List UInt8)}
    {operation : Operation} {fault : Fault}
    (hstep : QueueStep queues operation (.threw fault) queues) (h : Represents store queues) :
    Simulated store queues operation store (.threw fault) :=
  ⟨⟨queues, hstep, h⟩, fun _ _ => rfl⟩

theorem write_simulated {store store' : Buffers} {queues : List (List UInt8)} {target : ℕ}
    {value : Value} {output : Output} (h : Represents store queues)
    (hsmall : SmallLengths store (.write target value))
    (hexec : store.call target (ByteBuffer.write value) (fun _ => .done) =
      some (store', output)) :
    Simulated store queues (.write target value) store' output := by
  obtain ⟨b, hb⟩ := Buffers.exists_of_call hexec
  obtain ⟨hvalid, hqueue⟩ := h.get hb
  rw [write_eq] at hexec
  rcases writeBytes_spec hvalid (hsmall b hb) with ⟨b', hwrite, hvalid', hcontents⟩ | ⟨c, hwrite⟩
  · rw [Buffers.call_ok hb hwrite] at hexec
    obtain ⟨rfl, rfl⟩ := Prod.mk.inj (Option.some.inj hexec)
    exact simulated_of_done (.write hqueue value) (hcontents ▸ h.set target hvalid')
  · rw [Buffers.call_error hb hwrite] at hexec
    obtain ⟨rfl, rfl⟩ := Prod.mk.inj (Option.some.inj hexec)
    exact simulated_of_threw (.refuse target value c) h

theorem read_simulated {store store' : Buffers} {queues : List (List UInt8)} {target : ℕ}
    {kind : Kind} {output : Output} (h : Represents store queues)
    (hexec : store.call target (ByteBuffer.read kind) .value = some (store', output)) :
    Simulated store queues (.read target kind) store' output := by
  obtain ⟨b, hb⟩ := Buffers.exists_of_call hexec
  obtain ⟨hvalid, hqueue⟩ := h.get hb
  by_cases hsize : kind.size ≤ b.contents.length
  · obtain ⟨b', hread, hvalid', hcontents⟩ := readBytes_spec hvalid hsize
    have hlength : (b.contents.take kind.size).length = kind.size := by simpa using hsize
    rw [Buffers.call_ok hb (read_ok hread hlength)] at hexec
    obtain ⟨rfl, rfl⟩ := Prod.mk.inj (Option.some.inj hexec)
    exact ⟨⟨_, .read hqueue hsize, hcontents ▸ h.set target hvalid'⟩, fun _ hout => by cases hout⟩
  · have hshort : b.contents.length < kind.size := Nat.lt_of_not_le hsize
    rw [Buffers.call_error hb (read_error (readBytes_throws hvalid hshort))] at hexec
    obtain ⟨rfl, rfl⟩ := Prod.mk.inj (Option.some.inj hexec)
    exact simulated_of_threw (.starve hqueue hshort) h

/-- One call with small lengths, from valid buffers. -/
theorem execute_simulated {store store' : Buffers} {queues : List (List UInt8)}
    {operation : Operation} {output : Output} (h : Represents store queues)
    (hsmall : SmallLengths store operation) (hexec : execute store operation =
      some (store', output)) :
    Simulated store queues operation store' output := by
  cases operation with
  | construct capacity =>
      obtain ⟨hvalid, hempty⟩ := ofCapacity_spec (β := UInt8) hsmall
      obtain ⟨rfl, rfl⟩ := Prod.mk.inj (Option.some.inj hexec)
      exact simulated_of_done (.construct capacity) (hempty ▸ h.push hvalid)
  | constructFrom data =>
      obtain ⟨b, hb, hvalid, hcontents⟩ := ofData_ok (Nat.le_of_lt hsmall)
      rw [execute, hb] at hexec
      obtain ⟨rfl, rfl⟩ := Prod.mk.inj (Option.some.inj hexec)
      exact simulated_of_done (.constructFrom data) (hcontents ▸ h.push hvalid)
  | copyConstruct source =>
      obtain ⟨b, hb, hpush⟩ := Option.map_eq_some_iff.mp hexec
      obtain ⟨hvalid, hqueue⟩ := h.get hb
      obtain ⟨b', hcopy, hvalid', hcontents⟩ := copy_spec hvalid
      rw [hcopy] at hpush
      obtain ⟨rfl, rfl⟩ := Prod.mk.inj hpush
      exact simulated_of_done (.copyConstruct hqueue) (hcontents ▸ h.push hvalid')
  | moveConstruct source =>
      obtain ⟨b, hb, hmove⟩ := Option.map_eq_some_iff.mp hexec
      obtain ⟨hvalid, hqueue⟩ := h.get hb
      obtain ⟨rfl, rfl⟩ := Prod.mk.inj hmove
      exact simulated_of_done (.moveConstruct hqueue) ((h.set source valid_null).push hvalid)
  | copyAssign target source =>
      obtain ⟨a, ha, hassign⟩ := Option.bind_eq_some_iff.mp hexec
      obtain ⟨b, hb, hassign⟩ := Option.map_eq_some_iff.mp hassign
      obtain ⟨hvalid, hqueue⟩ := h.get hb
      by_cases hself : target = source
      · rw [if_pos hself] at hassign
        obtain ⟨rfl, rfl⟩ := Prod.mk.inj hassign
        have hsame : queues.set target b.contents = queues := by
          rw [hself, set_same hqueue]
        exact simulated_of_done (.copyAssign hqueue) (hsame.symm ▸ h)
      · obtain ⟨b', hcopy, hvalid', hcontents⟩ := copy_spec hvalid
        rw [if_neg hself, hcopy] at hassign
        obtain ⟨rfl, rfl⟩ := Prod.mk.inj hassign
        exact simulated_of_done (.copyAssign hqueue) (hcontents ▸ h.set target hvalid')
  | moveAssign target source =>
      obtain ⟨a, ha, hassign⟩ := Option.bind_eq_some_iff.mp hexec
      obtain ⟨b, hb, hassign⟩ := Option.map_eq_some_iff.mp hassign
      obtain ⟨hvalid, hqueue⟩ := h.get hb
      by_cases hself : target = source
      · rw [if_pos hself] at hassign
        obtain ⟨rfl, rfl⟩ := Prod.mk.inj hassign
        have hsame : (queues.set source []).set target b.contents = queues := by
          rw [hself, List.set_set, set_same hqueue]
        exact simulated_of_done (.moveAssign hqueue) (hsame.symm ▸ h)
      · rw [if_neg hself] at hassign
        obtain ⟨rfl, rfl⟩ := Prod.mk.inj hassign
        exact simulated_of_done (.moveAssign hqueue)
          ((h.set source valid_null).set target hvalid)
  | swap target other =>
      obtain ⟨a, ha, hswap⟩ := Option.bind_eq_some_iff.mp hexec
      obtain ⟨b, hb, hswap⟩ := Option.map_eq_some_iff.mp hswap
      obtain ⟨rfl, rfl⟩ := Prod.mk.inj hswap
      exact simulated_of_done (.swap (h.get ha).2 (h.get hb).2)
        ((h.set target (h.get hb).1).set other (h.get ha).1)
  | clear target =>
      rw [execute] at hexec
      obtain ⟨b, hb⟩ := Buffers.exists_of_call hexec
      obtain ⟨b', hclear, hvalid, hempty, _⟩ := clear_spec (h.get hb).1
      rw [Buffers.call_ok hb hclear] at hexec
      obtain ⟨rfl, rfl⟩ := Prod.mk.inj (Option.some.inj hexec)
      exact simulated_of_done (.clear target) (hempty ▸ h.set target hvalid)
  | write target value => exact write_simulated h hsmall hexec
  | read target kind => exact read_simulated h hexec

/-- In every run with small lengths the buffers behave as byte queues: what is read is what was
written and not yet read, in order; every buffer stays valid; and a call that throws leaves
every buffer as it was. -/
theorem clients_refine_queues {operations : List Operation} {store : Buffers}
    {outputs : List Output} (hsmall : clients.Guarded SmallLengths [] operations)
    (hrun : clients.run [] operations = some (store, outputs)) :
    Admits QueueStep [] operations outputs (store.map contents) ∧
      (∀ b ∈ store, b.Valid ∧ b.readableBytes = b.contents.length) ∧
      ∀ operation store' fault, SmallLengths store operation →
        execute store operation = some (store', .threw fault) → store' = store := by
  have hempty : Represents [] [] := ⟨by simp, rfl⟩
  have hstep : ∀ store queues operation store' output, Represents store queues →
      SmallLengths store operation → clients.exec store operation = some (store', output) →
      ∃ queues', QueueStep queues operation output queues' ∧ Represents store' queues' :=
    fun _ _ _ _ _ h hok hexec => (execute_simulated h hok hexec).1
  obtain ⟨queues, hadmits, hrep⟩ := clients.run_refines hstep hempty hsmall hrun
  rw [hrep.contents]
  refine ⟨hadmits, fun b hb => ⟨hrep.valid b hb, (hrep.valid b hb).readableBytes_eq_length⟩, ?_⟩
  intro operation store' fault hok hexec
  exact (execute_simulated hrep hok hexec).2 fault rfl

/-- A buffer and its copy part ways after a write to one of them. -/
theorem clients_refine_queues_copy :
    Admits QueueStep []
      [.constructFrom [1, 2], .copyConstruct 0, .write 0 (.uint16 772), .read 0 (.bytes 3)]
      [.done, .done, .done, .value (.bytes [1, 2, 3])] [[4], [1, 2]] := by
  have hsmall : clients.Guarded SmallLengths []
      [.constructFrom [1, 2], .copyConstruct 0, .write 0 (.uint16 772), .read 0 (.bytes 3)] := by
    refine ⟨show 2 < 2 ^ 63 by decide, fun _ _ h => ?_⟩
    obtain ⟨rfl, rfl⟩ := Prod.mk.inj (Option.some.inj h)
    refine ⟨trivial, fun _ _ h => ?_⟩
    obtain ⟨rfl, rfl⟩ := Prod.mk.inj (Option.some.inj h)
    refine ⟨fun b hb => ?_, fun _ _ _ => ⟨trivial, fun _ _ _ => trivial⟩⟩
    obtain rfl := Option.some.inj hb
    exact show 2 + 2 < 2 ^ 63 by decide
  exact (clients_refine_queues hsmall
    (show _ = some ([⟨some [1, 2, 3, 4], 3, 4, 4⟩, ⟨some [1, 2], 0, 2, 2⟩], _) from rfl)).1

end Nets.ByteBuffer
