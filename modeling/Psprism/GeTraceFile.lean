import Psprism.BufferReads
import Psprism.GeLists

/-!
# Traces of display lists (`ge/ge_trace.hpp`)

A trace lists the words that the executor has accepted. It is written to a file and read back, and what it
replays to is the state of the command registers that it was recorded with.
-/

namespace Psprism

/-! ### The file -/

def traceMagic : Word := 0x52544750

def traceVersion : BitVec 16 := 1

def traceHeaderSize : Nat := 12

def traceRecordSize : Nat := 12

def TraceRecord.bytes (r : TraceRecord) : List Byte :=
  bytesOfWord r.listId ++ bytesOfWord r.programCounter ++ bytesOfWord r.instruction

namespace GeTrace

/-- The fields are written one after another. -/
def serialize (t : GeTrace) : List Byte :=
  bytesOfWord traceMagic ++ bytesOfHalf traceVersion ++ bytesOfHalf (BitVec.ofNat 16 traceRecordSize) ++
    bytesOfWord (BitVec.ofNat 32 t.records.length) ++ t.records.flatMap TraceRecord.bytes

def readRecord (input : List Byte) (offset : Nat) : TraceRecord where
  listId := readU32 (input.getD · 0) offset
  programCounter := readU32 (input.getD · 0) (offset + 4)
  instruction := readU32 (input.getD · 0) (offset + 8)

/-- `Trace::deserialize`; `none` is `false`, which leaves the output as it is. -/
def deserialize (input : List Byte) (output : GeTrace) : Option GeTrace :=
  if input.length < traceHeaderSize then none
  else
    let magic := readU32 (input.getD · 0) 0
    let version := halfOf (input.getD · 0) 4
    let recordSize := halfOf (input.getD · 0) 6
    let count := (readU32 (input.getD · 0) 8).toNat
    if magic ≠ traceMagic ∨ version ≠ traceVersion ∨ recordSize.toNat ≠ traceRecordSize ∨
        (input.length - traceHeaderSize) / traceRecordSize < count ∨
        traceHeaderSize + count * traceRecordSize ≠ input.length then none
    else
      some { output with
        records := (List.range count).map fun index => readRecord input (traceHeaderSize + index * traceRecordSize) }

end GeTrace

section
variable {data rest : List Byte} {offset : Nat} {f : Byte → Byte}

/-! ### Fields at an offset -/

theorem getD_of_drop {bytes : List Byte} (h : data.drop offset = bytes ++ rest) {j : Nat} (hj : j < bytes.length) :
    data.getD (offset + j) 0 = bytes.getD j 0 := by
  have hget : (data.drop offset)[j]? = bytes[j]? := by rw [h, List.getElem?_append_left hj]
  rw [List.getElem?_drop] at hget
  rw [List.getD_eq_getElem?_getD, List.getD_eq_getElem?_getD, hget]

theorem readU32_of_drop {w : Word} (h : data.drop offset = bytesOfWord w ++ rest) :
    readU32 (data.getD · 0) offset = w := by
  refine readU32_of_bytes w fun j hj => ?_
  rw [getD_of_drop h hj]
  interval_cases j <;> rfl

theorem halfOf_of_drop {v : BitVec 16} (h : data.drop offset = bytesOfHalf v ++ rest) :
    halfOf (data.getD · 0) offset = v :=
  halfOf_of_bytes v (getD_of_drop h (show 0 < 2 by decide)) (getD_of_drop h (show 1 < 2 by decide))

theorem drop_of_drop {bytes rest' : List Byte} (h : data.drop offset = bytes ++ rest') {n : Nat} (hn : bytes.length = n) :
    data.drop (offset + n) = rest' := by
  rw [← List.drop_drop, h, List.drop_left' hn]

/-- The four bytes of a word that is read. -/
theorem drop_eq_word (h : offset + 4 ≤ data.length) :
    data.drop offset = bytesOfWord (readU32 (data.getD · 0) offset) ++ data.drop (offset + 4) := by
  have hbyte (j : Nat) (hj : j < 4) : wordByte (readU32 (data.getD · 0) offset) j = data[offset + j] := by
    rw [wordByte_readU32 _ _ hj, ← List.getElem_eq_getD]
  rw [bytesOfWord, hbyte 0 (by decide), hbyte 1 (by decide), hbyte 2 (by decide), hbyte 3 (by decide)]
  rw [List.drop_eq_getElem_cons (by omega), List.drop_eq_getElem_cons (by omega), List.drop_eq_getElem_cons (by omega),
    List.drop_eq_getElem_cons (by omega)]
  rfl

/-- The two bytes of a half that is read. -/
theorem drop_eq_half (h : offset + 2 ≤ data.length) :
    data.drop offset = bytesOfHalf (halfOf (data.getD · 0) offset) ++ data.drop (offset + 2) := by
  have hlow : (halfOf (data.getD · 0) offset).setWidth 8 = data[offset] := by
    rw [List.getElem_eq_getD 0, halfOf]
    ext i hi
    simp
  have hhigh : (halfOf (data.getD · 0) offset >>> 8).setWidth 8 = data[offset + 1] := by
    rw [List.getElem_eq_getD 0, halfOf]
    ext i hi
    simp [show i < 16 by omega, show 8 + i < 16 by omega, BitVec.getLsbD_eq_getElem hi]
  rw [bytesOfHalf, hlow, hhigh, List.drop_eq_getElem_cons (by omega), List.drop_eq_getElem_cons (by omega)]
  rfl

theorem TraceRecord.length_bytes (r : TraceRecord) : r.bytes.length = traceRecordSize := rfl

namespace GeTrace

theorem readRecord_of_drop {r : TraceRecord} (h : data.drop offset = r.bytes ++ rest) :
    readRecord data offset = r := by
  rw [TraceRecord.bytes, List.append_assoc, List.append_assoc] at h
  have hsecond : data.drop (offset + 4) = _ := drop_of_drop h rfl
  have hthird : data.drop (offset + 4 + 4) = _ := drop_of_drop hsecond rfl
  rw [readRecord, readU32_of_drop h, readU32_of_drop hsecond, readU32_of_drop hthird]

/-- The bytes of a record that is read. -/
theorem drop_eq_record (h : offset + traceRecordSize ≤ data.length) :
    data.drop offset = (readRecord data offset).bytes ++ data.drop (offset + traceRecordSize) := by
  have hsize : traceRecordSize = 12 := rfl
  have hfirst : offset + 4 ≤ data.length := by omega
  have hsecond : offset + 4 + 4 ≤ data.length := by omega
  have hthird : offset + 8 + 4 ≤ data.length := by omega
  rw [TraceRecord.bytes, readRecord, List.append_assoc, List.append_assoc, drop_eq_word hfirst, drop_eq_word hsecond,
    drop_eq_word hthird]
  rfl

/-- The records of a file are read where they were written. -/
theorem readRecords {records : List TraceRecord} (h : data.drop offset = records.flatMap TraceRecord.bytes) :
    ((List.range records.length).map fun index => readRecord data (offset + index * traceRecordSize)) = records := by
  induction records generalizing offset with
  | nil => rfl
  | cons r records ih =>
    rw [List.flatMap_cons] at h
    have hnext : data.drop (offset + traceRecordSize) = records.flatMap TraceRecord.bytes :=
      drop_of_drop h r.length_bytes
    rw [List.length_cons, List.range_succ_eq_map, List.map_cons, List.map_map, Nat.zero_mul, Nat.add_zero,
      readRecord_of_drop h]
    refine congrArg (r :: ·) (Eq.trans (List.map_congr_left fun index _ => ?_) (ih hnext))
    rw [Function.comp_apply, Nat.succ_mul, Nat.add_comm (index * traceRecordSize), Nat.add_assoc]

/-- The records that are read are all that the file has behind the offset. -/
theorem flatMap_readRecords {count : Nat} (h : offset + count * traceRecordSize = data.length) :
    ((List.range count).map fun index => readRecord data (offset + index * traceRecordSize)).flatMap
      TraceRecord.bytes = data.drop offset := by
  induction count generalizing offset with
  | zero => rw [List.drop_of_length_le (by omega)]; rfl
  | succ count ih =>
    rw [Nat.succ_mul] at h
    have hnext : offset + traceRecordSize + count * traceRecordSize = data.length := by omega
    rw [List.range_succ_eq_map, List.map_cons, List.map_map, List.flatMap_cons, Nat.zero_mul, Nat.add_zero,
      drop_eq_record (by omega), ← ih hnext]
    congr 3
    funext index
    rw [Function.comp_apply, Nat.succ_mul, Nat.add_comm (index * traceRecordSize), Nat.add_assoc]

end GeTrace

end

namespace GeTrace

theorem length_serialize (t : GeTrace) :
    t.serialize.length = traceHeaderSize + t.records.length * traceRecordSize := by
  have hrecords : (t.records.flatMap TraceRecord.bytes).length = t.records.length * traceRecordSize := by
    rw [List.length_flatMap, List.map_congr_left fun r _ => r.length_bytes, List.map_const', List.sum_replicate_nat]
  rw [serialize, List.length_append, hrecords]
  rfl

/-- What is read from the file that a trace was written to. -/
theorem deserialize_serialize {t : GeTrace} (hcount : t.records.length < 2 ^ 32) (output : GeTrace) :
    deserialize t.serialize output = some { output with records := t.records } := by
  -- the fields of the header lie where they are read
  have hmagic : t.serialize.drop 0 = bytesOfWord traceMagic ++ t.serialize.drop 4 := rfl
  have hversion : t.serialize.drop 4 = bytesOfHalf traceVersion ++ t.serialize.drop 6 := rfl
  have hsize : t.serialize.drop 6 = bytesOfHalf (BitVec.ofNat 16 traceRecordSize) ++ t.serialize.drop 8 := rfl
  have hlength : t.serialize.drop 8 = bytesOfWord (BitVec.ofNat 32 t.records.length) ++ t.serialize.drop 12 := rfl
  have hrecords : t.serialize.drop traceHeaderSize = t.records.flatMap TraceRecord.bytes := rfl
  have hinput := t.length_serialize
  rw [deserialize, if_neg (by omega)]
  dsimp only
  rw [readU32_of_drop hmagic, halfOf_of_drop hversion, halfOf_of_drop hsize, readU32_of_drop hlength, hinput,
    BitVec.toNat_ofNat t.records.length, Nat.mod_eq_of_lt hcount, if_neg, readRecords hrecords]
  simp only [ne_eq, not_true_eq_false, false_or, not_or, not_not]
  refine ⟨rfl, ?_, id⟩
  rw [Nat.add_sub_cancel_left, Nat.mul_div_cancel _ (by decide)]
  exact lt_irrefl _

/-- A file that is read is what the trace would be written to. -/
theorem eq_serialize_of_deserialize {input : List Byte} {output t : GeTrace} (h : deserialize input output = some t) :
    t.enabled = output.enabled ∧ t.records.length < 2 ^ 32 ∧ input = t.serialize := by
  rw [deserialize] at h
  split at h
  · cases h
  next hheader =>
    dsimp only at h
    split at h
    · cases h
    next hfields =>
      simp only [not_or, not_not] at hfields
      obtain ⟨hmagic, hversion, hsize, -, hlength⟩ := hfields
      obtain rfl := (Option.some.inj h).symm
      have hheader : 12 ≤ input.length := Nat.le_of_not_lt hheader
      have hcount : (readU32 (input.getD · 0) 8).toNat < 2 ^ 32 := BitVec.isLt _
      refine ⟨rfl, ?_, ?_⟩
      · rw [List.length_map, List.length_range]
        exact hcount
      · have hrecord : halfOf (input.getD · 0) 6 = BitVec.ofNat 16 traceRecordSize :=
          BitVec.eq_of_toNat_eq hsize
        rw [serialize, List.length_map, List.length_range, flatMap_readRecords hlength, BitVec.ofNat_toNat,
          BitVec.setWidth_eq, ← hmagic, ← hversion, ← hrecord]
        calc input = input.drop 0 := rfl
          _ = _ := by
            rw [drop_eq_word (by omega), drop_eq_half (by omega), drop_eq_half (by omega), drop_eq_word (by omega)]
            simp only [List.append_assoc]
            rfl

/-- A file is read when it is what the trace is written to, and never otherwise. -/
theorem deserialize_iff (input : List Byte) (output t : GeTrace) :
    deserialize input output = some t ↔
      t.enabled = output.enabled ∧ t.records.length < 2 ^ 32 ∧ input = t.serialize := by
  refine ⟨eq_serialize_of_deserialize, ?_⟩
  rintro ⟨henabled, hcount, rfl⟩
  rw [deserialize_serialize hcount, ← henabled]

/-! ### The replay -/

/-- `Trace::replayed_command_state`. -/
def replayedCommandState (t : GeTrace) : Commands :=
  t.records.foldl (fun result r => Function.update result (geOpcode r.instruction) r.instruction) fun _ => 0

theorem replayedCommandState_record {t : GeTrace} (h : t.enabled) (r : TraceRecord) :
    (t.record r).replayedCommandState =
      Function.update t.replayedCommandState (geOpcode r.instruction) r.instruction := by
  rw [record, if_pos h, replayedCommandState, List.foldl_append]
  rfl

@[simp] theorem enabled_record (t : GeTrace) (r : TraceRecord) : (t.record r).enabled = t.enabled := by
  unfold record
  split <;> rfl

end GeTrace

/-- The trace is being recorded, and tells what the command registers are. -/
structure Graphics.Recorded (g : Graphics) : Prop where
  enabled : g.trace.enabled
  commands : g.commands = g.trace.replayedCommandState

namespace GeExecution

variable {c : GeContext} {s : GeExecution} {instruction argument : Word}

theorem accept_recorded (h : s.graphics.Recorded) : (s.accept c instruction).graphics.Recorded where
  enabled := (GeTrace.enabled_record ..).trans h.enabled
  commands := by
    rw [GeExecution.accept, Graphics.accept, GeTrace.replayedCommandState_record h.enabled, h.commands]

/-- What a command does changes no command register, and records nothing. -/
structure Quiet (g g' : Graphics) : Prop where
  commands : g'.commands = g.commands
  trace : g'.trace = g.trace

theorem Quiet.refl {g : Graphics} : Quiet g g := ⟨rfl, rfl⟩

theorem Quiet.recorded {g g' : Graphics} (h : Quiet g g') (hrecorded : g.Recorded) : g'.Recorded :=
  ⟨h.trace ▸ hrecorded.enabled, by rw [h.commands, h.trace, hrecorded.commands]⟩

theorem setRegister_quiet (g : Graphics) (programCounter : Word) (opcode : Byte) :
    Quiet g (g.setRegister programCounter opcode argument) := by
  unfold Graphics.setRegister
  split <;> exact ⟨rfl, rfl⟩

theorem advanceVertices_quiet (g : Graphics) (count : Nat) : Quiet g (g.advanceVertices count) := by
  unfold Graphics.advanceVertices
  split <;> exact ⟨rfl, rfl⟩

theorem primitive_quiet : Quiet s.graphics (s.primitive argument).graphics := by
  unfold primitive
  dsimp only
  split
  · exact advanceVertices_quiet ..
  · exact .refl

theorem boundingBox_quiet : Quiet s.graphics (s.boundingBox argument).graphics := by
  unfold boundingBox
  dsimp only
  split
  · exact advanceVertices_quiet ..
  · exact .refl

theorem loadClut_quiet : Quiet s.graphics (s.loadClut argument).graphics := by
  unfold loadClut
  split
  · exact .refl
  · split
    · exact .refl
    · exact ⟨rfl, rfl⟩

theorem execute_quiet : Quiet s.graphics (s.execute c instruction).graphics := by
  unfold execute
  dsimp only
  split
  · exact primitive_quiet
  · exact boundingBox_quiet
  · exact .refl
  · exact .refl
  · split <;> exact .refl
  · split
    · exact .refl
    · exact ⟨rfl, rfl⟩
  · exact .refl
  · exact .refl
  · exact loadClut_quiet
  · exact ⟨rfl, rfl⟩
  · exact setRegister_quiet ..

theorem loop_recorded (h : s.graphics.Recorded) (n : Nat) : (loop c n s).2.graphics.Recorded := by
  induction n generalizing s with
  | zero => exact h
  | succ n ih =>
    rw [loop]
    split
    · exact h
    · split
      · exact h
      · split
        · exact accept_recorded h
        · exact ih (execute_quiet.recorded (accept_recorded h))

end GeExecution

/-! ### Recording the calls of the guest -/

namespace GeMachine
open GeExecution

/-- What the guest does besides leaves the command registers and the trace alone. -/
def Leaves (m : GeMachine) : GeAction → Prop
  | .guest _ graphics _ => Quiet m.graphics graphics
  | _ => True

/-- The machines that calls lead to from a reset with an empty trace that is switched on. -/
inductive Traced : GeMachine → Prop
  | reset {m : GeMachine} (hgraphics : m.graphics = { trace := { enabled := true } }) : Traced m
  | call {m : GeMachine} (h : Traced m) (a : GeAction) (hleaves : m.Leaves a) : Traced (m.call a).2

variable {m : GeMachine}

theorem executeGeList_recorded (h : m.graphics.Recorded) (id : Int) (startAddress stallAddress callbackId : Word) :
    (m.executeGeList id startAddress stallAddress callbackId).graphics.Recorded := by
  unfold executeGeList
  split
  · exact h
  · exact loop_recorded (s := m.startOf _ _) h _

theorem call_recorded (h : m.graphics.Recorded) {a : GeAction} (hleaves : m.Leaves a) :
    (m.call a).2.graphics.Recorded := by
  cases a with
  | enqueue startAddress stallAddress callbackId atHead =>
    refine executeGeList_recorded ?_ ..
    exact h
  | updateStall listId stallAddress =>
    rcases m.updateStall_cases listId stallAddress with heq | ⟨scheduler, list, -, -, heq⟩
    · rw [call, heq]
      exact h
    · rw [call, heq]
      refine executeGeList_recorded ?_ ..
      exact h
  | dequeue listId => exact h
  | «break» mode =>
    rw [call, sceGeBreak]
    split
    · exact h
    · exact h
  | «continue» =>
    rcases m.continue_cases with heq | ⟨id, scheduler, list, -, -, heq⟩
    · rw [call, heq]
      exact h
    · rw [call, heq]
      refine executeGeList_recorded ?_ ..
      exact h
  | guest memory graphics geCallbacks => exact hleaves.recorded h

theorem Traced.recorded (h : m.Traced) : m.graphics.Recorded := by
  induction h with
  | reset hgraphics => rw [hgraphics]; exact ⟨rfl, rfl⟩
  | call _ a hleaves ih => exact call_recorded ih hleaves

end GeMachine

/-- Whatever display lists are enqueued, stalled, broken and continued after a reset with the trace switched on:
the trace, written to a file and read back, replays to the command registers of the graphics state. -/
theorem trace_replays (m : GeMachine) (h : m.Traced) (hcount : m.graphics.trace.records.length < 2 ^ 32) :
    ∃ t, GeTrace.deserialize m.graphics.trace.serialize {} = some t ∧
      t.replayedCommandState = m.graphics.commands := by
  exact ⟨_, GeTrace.deserialize_serialize hcount {}, h.recorded.commands.symm⟩

/-- A list of a NOP and its end. -/
theorem trace_replays_nopList :
    let m := (GeMachine.call { nopList with graphics := { trace := { enabled := true } } } (.enqueue 0 0 0 false)).2
    ∃ t, GeTrace.deserialize m.graphics.trace.serialize {} = some t ∧
      t.replayedCommandState = m.graphics.commands := by
  intro m
  exact trace_replays m (.call (.reset rfl) _ trivial) (by decide)

end Psprism
