import Psprism.Lib.Interleaving
import Psprism.MediaCapacity
import Psprism.MediaPlayback

/-!
# The MPEG ring buffer (`sceMpegRingbufferPut`, `sceMpegRingbufferAvailableSize`, `sceMpegGetAvcAu`,
`sceMpegGetAtracAu`)

A put asks the guest's callback for packets and appends what it produced to the engine. How many packets it
asks for is bounded by `packets` less those in use, and the ring buffer takes the packets in use from the
engine, after each put and each fetch. The engine counts none while no unit is queued, although it goes on
counting the bytes that are staged when it refuses an append. So the packets that are reported free fit
exactly when a unit is queued or nothing is staged (`reportedFree_accepted`).
-/

namespace Psprism
open Interleaving

def ringbufferPacketSize : Nat := 2048

/-- The fields of the guest's structure that the stubs reckon with. Its counters are signed words. -/
structure Ringbuffer where
  packets : Int
  packetsRead : Int := 0
  packetsWritePosition : Int := 0
  packetsAvailable : Int := 0
  callback : Word

structure MpegStream where
  ring : Ringbuffer
  engine : MediaEngine

/-- What a call of the guest's callback returns, and what then stands behind the guest address for so many
bytes. -/
structure CallbackRun where
  result : Word
  mapped : Nat → Option Bytes

/-- A put, after some of its callbacks. -/
structure Put where
  stream : MpegStream
  totalAdded : Int
  /-- A callback did not return. -/
  failed : Bool := false
  /-- What the engine refused of what a callback produced. -/
  refused : List Byte := []

inductive MpegCall
  /-- The `i`-th callback of the put does not return when there is none. -/
  | put (packets available : Word) (callbacks : Nat → Option CallbackRun)
  | getAu (uid : Word)
  | availableSize

namespace MpegStream

def updateRingbufferUsage (ring : Ringbuffer) (engine : MediaEngine) : Ringbuffer :=
  { ring with packetsAvailable := min (max ring.packets 0) (engine.packetsInUse ringbufferPacketSize) }

/-- `sceMpegRingbufferConstruct` and `sceMpegCreate`, and the streams registered. -/
def create (packets callback : Word) (registrations : List (Word × Word)) : MpegStream :=
  let capacity := (max packets.toInt 1).toNat * ringbufferPacketSize
  { ring := { packets := packets.toInt, callback }
    engine := registrations.foldl (fun e r => (e.registerStream r.1 r.2).2) (MediaEngine.create capacity) }

/-- The bytes that a callback produced, if there are any where it put them. -/
def produced (run : CallbackRun) (byteCount : Nat) : Option (List Byte) :=
  if byteCount = 0 then some []
  else (run.mapped byteCount).map fun bytes => (List.range byteCount).map bytes

/-- The loop of a put, at most `n` times. -/
def putLoop (order : HashOrder) : Nat → MpegStream → Int → Int → (Nat → Option CallbackRun) → Put
  | 0, s, _, totalAdded, _ => { stream := s, totalAdded }
  | n + 1, s, requested, totalAdded, callbacks =>
    if requested ≤ 0 then { stream := s, totalAdded }
    else
      let writePosition := s.ring.packetsWritePosition.tmod s.ring.packets
      let contiguous := min requested (s.ring.packets - writePosition)
      match callbacks 0 with
      | none => { stream := s, totalAdded, failed := true }
      | some run =>
        let added := min (max run.result.toInt 0) contiguous
        match produced run (added.toNat * ringbufferPacketSize) with
        | none => { stream := s, totalAdded }
        | some bytes =>
          match s.engine.appendPackets order bytes with
          | none => { stream := s, totalAdded, refused := bytes }
          | some engine =>
            let ring := { s.ring with
              packetsRead := (s.ring.packetsRead + added).bmod (2 ^ 32)
              packetsWritePosition := (s.ring.packetsWritePosition + added).bmod (2 ^ 32) }
            if added ≠ contiguous then { stream := { ring, engine }, totalAdded := totalAdded + added }
            else
              putLoop order n { ring, engine } (requested - added) (totalAdded + added) fun i => callbacks (i + 1)

/-- The packets that a put asks its callbacks for. -/
def requested (s : MpegStream) (packets available : Word) : Int :=
  min (min packets.toInt available.toInt) (s.ring.packets - s.ring.packetsAvailable)

/-- `sceMpegRingbufferPut`: the result in `v0`, and the put. -/
def put (order : HashOrder) (s : MpegStream) (packets available : Word)
    (callbacks : Nat → Option CallbackRun) : Word × Put :=
  if s.ring.packets ≤ 0 ∨ s.ring.callback = 0 then (0xffffffff, { stream := s, totalAdded := 0 })
  else
    let asked := s.requested packets available
    let out := putLoop order asked.toNat s asked 0 callbacks
    if out.failed then (0xffffffff, out)
    else
      let ring := updateRingbufferUsage out.stream.ring out.stream.engine
      (BitVec.ofInt 32 out.totalAdded, { out with stream := { out.stream with ring } })

/-- `sceMpegGetAvcAu` and `sceMpegGetAtracAu`: the unit and the stream. -/
def getAu (order : HashOrder) (s : MpegStream) (uid : Word) : Option MediaAccessUnit × MpegStream :=
  match s.engine.nextAccessUnit order uid with
  | (none, engine) => (none, { s with engine })
  | (some unit, engine) => (some unit, { ring := updateRingbufferUsage s.ring engine, engine })

/-- `sceMpegRingbufferAvailableSize`. -/
def availableSize (s : MpegStream) : Word × MpegStream :=
  if s.ring.packets < 0 ∨ s.ring.packetsAvailable < 0 ∨ s.ring.packetsAvailable > s.ring.packets then
    (0xffffffff, s)
  else
    let ring := updateRingbufferUsage s.ring s.engine
    (BitVec.ofInt 32 (ring.packets - ring.packetsAvailable), { s with ring })

def step (order : HashOrder) (s : MpegStream) : MpegCall → Option MpegStream
  | .put packets available callbacks => some (s.put order packets available callbacks).2.stream
  | .getAu uid => some (s.getAu order uid).2
  | .availableSize => some s.availableSize.2

/-! ### The account of the ring buffer -/

/-- The packets that the ring buffer reports free. -/
def reportedFree (s : MpegStream) : Int := s.ring.packets - s.ring.packetsAvailable

/-- That many packets are accepted, whatever they are. -/
def Accepts (order : HashOrder) (s : MpegStream) : Prop :=
  ∀ bytes : List Byte, bytes.length = s.reportedFree.toNat * ringbufferPacketSize →
    (s.engine.appendPackets order bytes).isSome = true

/-- A unit is queued, or nothing is staged. -/
def Accounted (s : MpegStream) : Prop := s.engine.units ≠ [] ∨ s.engine.bufferedBytes = 0

/-- No callback but the first of a put fails to return. -/
def Returns : MpegCall → Prop
  | .put _ _ callbacks => ∀ i, 0 < i → callbacks i ≠ none
  | _ => True

/-- The engine is within the capacity that the ring buffer gave it. -/
structure Fits (s : MpegStream) : Prop where
  within : s.engine.Within
  capacity : 0 < s.ring.packets → (s.engine.capacity : Int) = s.ring.packets * ringbufferPacketSize
  empty : s.ring.packets ≤ 0 → s.engine.bufferedBytes = 0

/-- The ring buffer was updated after the engine changed. -/
def Current (s : MpegStream) : Prop := updateRingbufferUsage s.ring s.engine = s.ring

variable {order : HashOrder} {s s' : MpegStream} {n : Nat} {asked total : Int}
  {callbacks : Nat → Option CallbackRun}

theorem length_produced {run : CallbackRun} {byteCount : Nat} {bytes : List Byte}
    (h : produced run byteCount = some bytes) : bytes.length = byteCount := by
  unfold produced at h
  split at h
  · next hzero =>
    obtain rfl := Option.some.inj h
    exact hzero.symm
  · obtain ⟨pointer, -, rfl⟩ := Option.map_eq_some_iff.1 h
    rw [List.length_map, List.length_range]

/-- The ring buffer when packets are added. -/
def advance (ring : Ringbuffer) (added : Int) : Ringbuffer :=
  { ring with
    packetsRead := (ring.packetsRead + added).bmod (2 ^ 32)
    packetsWritePosition := (ring.packetsWritePosition + added).bmod (2 ^ 32) }

/-- One time round the loop of a put. -/
inductive Round (order : HashOrder) (n : Nat) (s : MpegStream) (asked total : Int)
    (callbacks : Nat → Option CallbackRun) : Put → Prop
  | stops : Round order n s asked total callbacks { stream := s, totalAdded := total }
  | fails (h : callbacks 0 = none) :
      Round order n s asked total callbacks { stream := s, totalAdded := total, failed := true }
  | refuses {added : Int} {bytes} (hle : added ≤ asked) (hlen : bytes.length = added.toNat * ringbufferPacketSize)
      (h : s.engine.appendPackets order bytes = none) :
      Round order n s asked total callbacks { stream := s, totalAdded := total, refused := bytes }
  | ends {added : Int} {bytes engine} (h : s.engine.appendPackets order bytes = some engine) :
      Round order n s asked total callbacks
        { stream := { ring := advance s.ring added, engine }, totalAdded := total + added }
  | goesOn {added : Int} {bytes engine} (hpos : 0 ≤ added) (hle : added ≤ asked)
      (hlen : bytes.length = added.toNat * ringbufferPacketSize)
      (h : s.engine.appendPackets order bytes = some engine) :
      Round order n s asked total callbacks
        (putLoop order n { ring := advance s.ring added, engine } (asked - added) (total + added)
          fun i => callbacks (i + 1))

theorem putLoop_succ (hpackets : 0 < s.ring.packets) :
    Round order n s asked total callbacks (putLoop order (n + 1) s asked total callbacks) := by
  rw [putLoop]
  split
  · exact .stops
  next hasked =>
  dsimp only
  split
  · next hnone => exact .fails hnone
  next run _ =>
  have hle : min (max run.result.toInt 0)
      (min asked (s.ring.packets - s.ring.packetsWritePosition.tmod s.ring.packets)) ≤ asked :=
    (min_le_right _ _).trans (min_le_left _ _)
  split
  · exact .stops
  next bytes hbytes =>
  split
  · next hnone => exact .refuses hle (length_produced hbytes) hnone
  next engine happend =>
  split
  · exact .ends happend
  · have hposition := Int.tmod_lt_of_pos s.ring.packetsWritePosition hpackets
    refine .goesOn ?_ hle (length_produced hbytes) happend
    refine le_min (le_max_right ..) (le_min ?_ ?_)
    · omega
    · omega

/-- What a put keeps, whatever its callbacks do. -/
structure Keeps (s : MpegStream) (out : Put) : Prop where
  within : out.stream.engine.Within
  capacity : out.stream.engine.capacity = s.engine.capacity
  packets : out.stream.ring.packets = s.ring.packets

theorem putLoop_keeps (h : s.engine.Within) (hpackets : 0 < s.ring.packets) :
    s.Keeps (putLoop order n s asked total callbacks) := by
  induction n generalizing s asked total callbacks with
  | zero => exact ⟨h, rfl, rfl⟩
  | succ n ih =>
    have hround : Round order n s asked total callbacks (putLoop order (n + 1) s asked total callbacks) :=
      putLoop_succ hpackets
    generalize putLoop order (n + 1) s asked total callbacks = out at hround
    cases hround with
    | stops => exact ⟨h, rfl, rfl⟩
    | fails _ => exact ⟨h, rfl, rfl⟩
    | refuses _ _ _ => exact ⟨h, rfl, rfl⟩
    | ends happend =>
      obtain ⟨hwithin, hcapacity, -⟩ := h.appendPackets happend
      exact ⟨hwithin, hcapacity, rfl⟩
    | @goesOn added bytes engine _ _ _ happend =>
      obtain ⟨hwithin, hcapacity, -⟩ := h.appendPackets happend
      obtain ⟨hwithin', hcapacity', hpackets'⟩ := @ih { ring := advance s.ring added, engine } (asked - added)
        (total + added) (fun i => callbacks (i + 1)) hwithin hpackets
      exact ⟨hwithin', hcapacity'.trans hcapacity, hpackets'⟩

/-- A callback that does not return is the first, and then nothing has happened, or a later one. -/
theorem putLoop_failed (hpackets : 0 < s.ring.packets)
    (h : (putLoop order n s asked total callbacks).failed = true) :
    callbacks 0 = none ∧ (putLoop order n s asked total callbacks).stream = s ∨
      ∃ i, 0 < i ∧ callbacks i = none := by
  induction n generalizing s asked total callbacks with
  | zero => cases h
  | succ n ih =>
    have hround : Round order n s asked total callbacks (putLoop order (n + 1) s asked total callbacks) :=
      putLoop_succ hpackets
    generalize putLoop order (n + 1) s asked total callbacks = out at hround h
    cases hround with
    | stops => cases h
    | fails hnone => exact Or.inl ⟨hnone, rfl⟩
    | refuses _ _ _ => cases h
    | ends _ => cases h
    | @goesOn added bytes engine _ _ _ _ =>
      rcases @ih { ring := advance s.ring added, engine } _ _ _ hpackets h with ⟨hnone, -⟩ | ⟨i, -, hnone⟩
      · exact Or.inr ⟨1, Nat.one_pos, hnone⟩
      · exact Or.inr ⟨i + 1, Nat.succ_pos i, hnone⟩

/-- What is asked for and fits is not refused. -/
theorem putLoop_refused (h : s.engine.Within) (hpackets : 0 < s.ring.packets)
    (hroom : asked.toNat * ringbufferPacketSize + s.engine.bufferedBytes ≤ s.engine.capacity) :
    (putLoop order n s asked total callbacks).refused = [] := by
  induction n generalizing s asked total callbacks with
  | zero => rfl
  | succ n ih =>
    have hround : Round order n s asked total callbacks (putLoop order (n + 1) s asked total callbacks) :=
      putLoop_succ hpackets
    generalize putLoop order (n + 1) s asked total callbacks = out at hround
    cases hround with
    | stops => rfl
    | fails _ => rfl
    | @refuses added bytes hle hlen hnone =>
      have hsome : (s.engine.appendPackets order bytes).isSome = true := by
        refine MediaEngine.appendPackets_isSome ?_
        have := Nat.mul_le_mul_right ringbufferPacketSize (Int.toNat_le_toNat hle)
        omega
      rw [hnone] at hsome
      cases hsome
    | ends _ => rfl
    | @goesOn added bytes engine hpos hle hlen happend =>
      obtain ⟨hwithin, hcapacity, hbuffered⟩ := h.appendPackets happend
      refine ih hwithin hpackets ?_
      change (asked - added).toNat * ringbufferPacketSize + engine.bufferedBytes ≤ engine.capacity
      have hsplit : asked.toNat = added.toNat + (asked - added).toNat := by omega
      rw [hsplit, Nat.add_mul] at hroom
      omega

/-! ### What is reported free -/

theorem update_current (ring : Ringbuffer) (engine : MediaEngine) :
    Current { ring := updateRingbufferUsage ring engine, engine } := rfl

theorem Fits.put (h : s.Fits) (packets available : Word) (callbacks : Nat → Option CallbackRun) :
    (s.put order packets available callbacks).2.stream.Fits := by
  rw [MpegStream.put]
  split
  · exact h
  next hputs =>
  have hpackets : 0 < s.ring.packets := Int.lt_of_not_ge fun hle => hputs (Or.inl hle)
  have hkeeps : s.Keeps (putLoop order (s.requested packets available).toNat s (s.requested packets available) 0
    callbacks) := putLoop_keeps h.within hpackets
  have hfits : ∀ out : Put, s.Keeps out → out.stream.Fits := by
    intro out hout
    refine ⟨hout.within, fun _ => ?_, fun hle => ?_⟩
    · rw [hout.capacity, hout.packets]
      exact h.capacity hpackets
    · rw [hout.packets] at hle
      exact absurd hpackets (Int.not_lt.2 hle)
  dsimp only
  split
  · exact hfits _ hkeeps
  · exact hfits _ ⟨hkeeps.within, hkeeps.capacity, hkeeps.packets⟩

theorem Current.put (hcurrent : s.Current) {packets available : Word}
    (hreturns : Returns (.put packets available callbacks)) :
    (s.put order packets available callbacks).2.stream.Current := by
  rw [MpegStream.put]
  split
  · exact hcurrent
  next hputs =>
  have hpackets : 0 < s.ring.packets := Int.lt_of_not_ge fun hle => hputs (Or.inl hle)
  dsimp only
  split
  · next hfailed =>
    rcases putLoop_failed hpackets hfailed with ⟨-, hsame⟩ | ⟨i, hi, hnone⟩
    · rw [hsame]
      exact hcurrent
    · exact absurd hnone (hreturns i hi)
  · exact update_current _ _

theorem step_fits (h : s.Fits) (hcurrent : s.Current) {call : MpegCall} (hreturns : Returns call)
    (hstep : step order s call = some s') : s'.Fits ∧ s'.Current := by
  cases call with
  | put packets available callbacks =>
    obtain rfl := Option.some.inj hstep
    exact ⟨h.put packets available callbacks, hcurrent.put hreturns⟩
  | getAu uid =>
    obtain rfl := Option.some.inj hstep
    obtain ⟨hwithin, hcapacity, hbuffered⟩ := h.within.nextAccessUnit order uid
    have hempty : s.ring.packets ≤ 0 → (s.engine.nextAccessUnit order uid).2.bufferedBytes = 0 := by
      intro hle
      rw [h.empty hle] at hbuffered
      exact Nat.le_zero.1 hbuffered
    have hidle : (s.engine.nextAccessUnit order uid).1 = none → (s.engine.nextAccessUnit order uid).2 = s.engine := by
      rw [MediaEngine.nextAccessUnit]
      split
      · exact fun _ => rfl
      split
      · exact fun _ => rfl
      · intro h
        cases h
    rw [getAu]
    cases hnext : s.engine.nextAccessUnit order uid with
    | mk result engine =>
      rw [hnext] at hwithin hcapacity hempty hidle
      cases result with
      | none =>
        obtain rfl := hidle rfl
        exact ⟨h, hcurrent⟩
      | some unit =>
        exact ⟨⟨hwithin, fun hpos => hcapacity ▸ h.capacity hpos, hempty⟩, update_current _ _⟩
  | availableSize =>
    obtain rfl := Option.some.inj hstep
    rw [availableSize]
    split
    · exact ⟨h, hcurrent⟩
    · exact ⟨⟨h.within, h.capacity, h.empty⟩, update_current _ _⟩

theorem capacity_registered (registrations : List (Word × Word)) (e : MediaEngine) :
    (registrations.foldl (fun e r => (e.registerStream r.1 r.2).2) e).capacity = e.capacity := by
  induction registrations generalizing e with
  | nil => rfl
  | cons r registrations ih => exact ih _

theorem create_fits (packets callback : Word) (registrations : List (Word × Word)) :
    (create packets callback registrations).Fits ∧ (create packets callback registrations).Current := by
  let capacity := (max packets.toInt 1).toNat * ringbufferPacketSize
  have hcapacity : (create packets callback registrations).engine.capacity = max capacity 2048 :=
    capacity_registered registrations _
  obtain ⟨c, streams, nextStream, hfresh⟩ := (Playback.opened_fresh capacity registrations).1
  have hengine : (create packets callback registrations).engine = { capacity := c, streams, nextStream } := hfresh
  have hbuffered : (create packets callback registrations).engine.bufferedBytes = 0 := by
    rw [hengine]
    rfl
  have hunits : (create packets callback registrations).engine.units = [] := by rw [hengine]
  refine ⟨⟨⟨(Playback.opened_good capacity registrations).sound, ?_⟩, fun hpos => ?_, fun _ => hbuffered⟩, ?_⟩
  · rw [hbuffered]
    exact Nat.zero_le _
  · change 0 < packets.toInt at hpos
    change _ = packets.toInt * ringbufferPacketSize
    rw [hcapacity]
    simp only [capacity, ringbufferPacketSize]
    omega
  · rw [Current, updateRingbufferUsage, MediaEngine.packetsInUse, hunits]
    simp only [create, ringbufferPacketSize]
    congr 1
    simp

theorem packetsAvailable_eq (hcurrent : s.Current) :
    s.ring.packetsAvailable = min (max s.ring.packets 0) (s.engine.packetsInUse ringbufferPacketSize) :=
  (congrArg Ringbuffer.packetsAvailable hcurrent).symm

/-- With a unit queued the packets in use cover all that is held, and with none queued they cover nothing. -/
theorem packetsInUse_cases (e : MediaEngine) :
    e.units ≠ [] ∧ e.bufferedBytes ≤ e.packetsInUse ringbufferPacketSize * ringbufferPacketSize ∧
        e.packetsInUse ringbufferPacketSize * ringbufferPacketSize < e.bufferedBytes + ringbufferPacketSize ∨
      e.units = [] ∧ e.packetsInUse ringbufferPacketSize = 0 := by
  rw [MediaEngine.packetsInUse, if_neg (by decide)]
  split
  · next hunits => exact Or.inr ⟨List.isEmpty_iff.1 hunits, rfl⟩
  · next hunits =>
    refine Or.inl ⟨fun hnil => hunits (List.isEmpty_iff.2 hnil), ?_⟩
    rw [ringbufferPacketSize]
    omega

/-- What is reported free fits, where the account of the ring buffer covers what the engine holds. -/
theorem room_of_accounted (h : s.Fits) (hcurrent : s.Current) (hpackets : 0 < s.ring.packets)
    (hacc : s.Accounted) :
    s.reportedFree.toNat * ringbufferPacketSize + s.engine.bufferedBytes ≤ s.engine.capacity := by
  have hcapacity := h.capacity hpackets
  have havailable := packetsAvailable_eq hcurrent
  have hle := h.within.le
  rw [reportedFree, havailable]
  rw [ringbufferPacketSize] at hcapacity ⊢
  rcases packetsInUse_cases s.engine with ⟨-, hcover, hnext⟩ | ⟨hnone, hzero⟩
  · rw [ringbufferPacketSize] at hcover hnext
    omega
  · have hempty := hacc.resolve_left (not_not.2 hnone)
    rw [ringbufferPacketSize] at hzero
    omega

theorem accepts_iff (h : s.Fits) (hcurrent : s.Current) : s.Accepts order ↔ s.Accounted := by
  by_cases hpackets : 0 < s.ring.packets
  swap
  · have hle := Int.not_lt.1 hpackets
    refine iff_of_true (fun bytes hlen => ?_) (Or.inr (h.empty hle))
    have hfree : s.reportedFree.toNat = 0 := by
      rw [reportedFree, packetsAvailable_eq hcurrent]
      omega
    rw [hfree, Nat.zero_mul] at hlen
    rw [List.eq_nil_of_length_eq_zero hlen]
    rfl
  constructor
  · intro haccepts
    rcases packetsInUse_cases s.engine with ⟨hunits, -⟩ | ⟨-, hzero⟩
    · exact Or.inl hunits
    -- no unit is queued, so all of the ring buffer is reported free
    have hcapacity := h.capacity hpackets
    have hall : s.reportedFree.toNat * ringbufferPacketSize = s.engine.capacity := by
      rw [reportedFree, packetsAvailable_eq hcurrent, hzero]
      rw [ringbufferPacketSize] at hcapacity ⊢
      omega
    have hsome := haccepts (List.replicate s.engine.capacity 0) (List.length_replicate.trans hall.symm)
    rw [MediaEngine.appendPackets, List.length_replicate] at hsome
    split at hsome
    · next hempty =>
      rw [List.isEmpty_iff, List.replicate_eq_nil_iff] at hempty
      rw [ringbufferPacketSize] at hcapacity
      omega
    split at hsome
    · cases hsome
    · next hroom =>
      refine Or.inr ?_
      omega
  · intro hacc bytes hlen
    refine MediaEngine.appendPackets_isSome ?_
    rw [hlen]
    exact room_of_accounted h hcurrent hpackets hacc

/-- A put of which the packets are accounted for is refused nothing. -/
theorem put_refused (h : s.Fits) (hcurrent : s.Current) (hacc : s.Accounted) (packets available : Word)
    (callbacks : Nat → Option CallbackRun) : (s.put order packets available callbacks).2.refused = [] := by
  rw [put]
  split
  · rfl
  next hputs =>
  have hpackets : 0 < s.ring.packets := Int.lt_of_not_ge fun hle => hputs (Or.inl hle)
  have hasked : s.requested packets available ≤ s.reportedFree := min_le_right ..
  have hroom := room_of_accounted h hcurrent hpackets hacc
  have hless := Nat.mul_le_mul_right ringbufferPacketSize (Int.toNat_le_toNat hasked)
  have hrefused : (putLoop order (s.requested packets available).toNat s (s.requested packets available) 0
      callbacks).refused = [] :=
    putLoop_refused h.within hpackets ((Nat.add_le_add_right hless _).trans hroom)
  dsimp only
  split
  · exact hrefused
  · exact hrefused

/-- In every run in which no callback but the first of a put fails to return: the packets that are reported
free are accepted exactly when a unit is queued or nothing is staged, and a put is then refused nothing. -/
theorem reportedFree_accepted (order : HashOrder) (packets callback : Word) (registrations : List (Word × Word))
    (calls : List MpegCall) (s : MpegStream)
    (hrun : run (step order) (create packets callback registrations) calls = some s)
    (hreturns : ∀ call ∈ calls, Returns call) :
    (s.Accepts order ↔ s.Accounted) ∧
      (s.Accounted → ∀ (packets available : Word) (callbacks : Nat → Option CallbackRun),
        (s.put order packets available callbacks).2.refused = []) := by
  have hstart := create_fits packets callback registrations
  have hfits : s.Fits ∧ s.Current := by
    generalize create packets callback registrations = start at hrun hstart
    induction calls generalizing start with
    | nil =>
      obtain rfl := Option.some.inj hrun
      exact hstart
    | cons call calls ih =>
      obtain ⟨t, ht, hrest⟩ := run_cons_eq_some.1 hrun
      exact ih (fun call hcall => hreturns call (List.mem_cons_of_mem _ hcall)) t hrest
        (step_fits hstart.1 hstart.2 (hreturns _ List.mem_cons_self) ht)
  exact ⟨accepts_iff hfits.1 hfits.2, fun hacc => put_refused hfits.1 hfits.2 hacc⟩

/-- A packet with a whole unit keeps the ring buffer's account. -/
theorem reportedFree_accepted_unit : ∃ s : MpegStream,
    run (step .insertion) (create 2 0x08804000 [(0, 0)])
      [.put 1 1 fun _ => some { result := 1, mapped := fun _ => some fun i =>
        ([0, 0, 1, 0xe0, 7, 250, 0x80, 0, 0, 0, 0, 1, 9, 1, 0, 0, 1, 9] : List Byte).getD i 0 }] = some s ∧
    s.Accounted ∧ s.reportedFree = 1 ∧ s.Accepts .insertion := by
  have hrun : ((run (step .insertion) (create 2 0x08804000 [(0, 0)])
      [.put 1 1 fun _ => some { result := 1, mapped := fun _ => some fun i =>
        ([0, 0, 1, 0xe0, 7, 250, 0x80, 0, 0, 0, 0, 1, 9, 1, 0, 0, 1, 9] : List Byte).getD i 0 }]).map fun s =>
      (s.engine.units.isEmpty, s.reportedFree)) = some (false, 1) := by
    decide +kernel
  obtain ⟨s, hs, hvalues⟩ := Option.map_eq_some_iff.1 hrun
  obtain ⟨hunits, hfree⟩ := Prod.mk.inj hvalues
  have hacc : s.Accounted := Or.inl (List.isEmpty_eq_false_iff.1 hunits)
  refine ⟨s, hs, hacc, hfree, ?_⟩
  refine (reportedFree_accepted .insertion _ _ _ _ s hs ?_).1.2 hacc
  intro call hcall
  rw [List.mem_singleton.1 hcall]
  exact fun i _ => Option.some_ne_none _

/-- A ring buffer packet with a video packet of its size, which starts an access unit. -/
def startedUnit : Bytes := fun i => ([0, 0, 1, 0xe0, 7, 250, 0x80, 0, 0, 0, 0, 1, 9] : List Byte).getD i 0

/-- A callback that produces it. -/
def startsUnit : Nat → Option CallbackRun := fun _ => some { result := 1, mapped := fun _ => some startedUnit }

/-- The unit is not whole, so nothing is queued: the ring buffer of one packet reports it free again, and what
the next callback produces is refused. -/
theorem startedUnit_refused : ∃ s : MpegStream,
    run (step .insertion) (create 1 0x08804000 [(0, 0)]) [.put 1 1 startsUnit] = some s ∧
    s.reportedFree = 1 ∧ (s.put .insertion 1 1 startsUnit).1 = 0 ∧
      (s.put .insertion 1 1 startsUnit).2.refused.length = ringbufferPacketSize := by
  have hrun : ((run (step .insertion) (create 1 0x08804000 [(0, 0)]) [.put 1 1 startsUnit]).map fun s =>
      (s.reportedFree, (s.put .insertion 1 1 startsUnit).1,
        (s.put .insertion 1 1 startsUnit).2.refused.length)) = some (1, 0, ringbufferPacketSize) := by
    decide +kernel
  obtain ⟨s, hs, hvalues⟩ := Option.map_eq_some_iff.1 hrun
  obtain ⟨hfree, hresult⟩ := Prod.mk.inj hvalues
  exact ⟨s, hs, hfree, Prod.mk.inj hresult⟩

end MpegStream

end Psprism
