import Mathlib.Algebra.Order.BigOperators.Group.List
import Mathlib.Algebra.Order.Group.Nat
import Psprism.MediaDelivery

/-!
# Playing a stream

A run of appends and fetches from an engine on which the streams are registered. What was delivered on a track
and what is still expected make up one list, which depends on the bytes of the stream alone
(`delivered_append`), and nothing is expected any more of an engine that holds the whole stream and is drained.
-/

namespace Psprism
open Framing Interleaving

/-- The engine and the units it has delivered, with the kind of the stream they were fetched for. -/
structure Playback where
  engine : MediaEngine
  delivered : List (StreamKind × MediaAccessUnit) := []

inductive MediaCall
  | append (bytes : List Byte)
  | fetch (uid : Word)

/-- The bytes that a call adds to the stream. -/
def MediaCall.bytes : MediaCall → List Byte
  | .append bytes => bytes
  | .fetch _ => []

namespace Playback

/-- A call. An append that is refused is no step. -/
def step (order : HashOrder) (p : Playback) : MediaCall → Option Playback
  | .append bytes => (p.engine.appendPackets order bytes).map fun engine => { p with engine }
  | .fetch uid =>
    match p.engine.nextAccessUnit order uid with
    | (none, engine) => some { p with engine }
    | (some unit, engine) =>
      let kind := (p.engine.findStream uid).elim StreamKind.other (·.kind)
      some { engine, delivered := p.delivered ++ [(kind, unit)] }

/-- An engine on which the streams are registered that are given by their type and channel. -/
def opened (capacity : Nat) (registrations : List (Word × Word)) : Playback :=
  { engine := registrations.foldl (fun e r => (e.registerStream r.1 r.2).2) (MediaEngine.create capacity) }

variable {order : HashOrder} {p p' : Playback} {calls : List MediaCall} {t : Track} {extra : List Byte}

/-- The engine that a call demuxes, if it demuxes any. -/
def demuxes (p : Playback) : MediaCall → Option MediaEngine
  | .append bytes => if bytes.isEmpty then none else some (p.engine.pushEncoded bytes)
  | .fetch uid =>
    (p.engine.findStream uid).bind fun stream =>
      (p.engine.units.find? stream.takes).map fun item => p.engine.takeUnit stream item.2

/-- What a call does. -/
inductive Steps (order : HashOrder) (p : Playback) : MediaCall → Playback → Prop
  | idle {call} (h : call.bytes = []) : Steps order p call p
  | append {bytes} (h : p.demuxes (.append bytes) = some (p.engine.pushEncoded bytes)) :
      Steps order p (.append bytes) { p with engine := (p.engine.pushEncoded bytes).demux order }
  | fetch {uid stream item} (hstream : p.engine.findStream uid = some stream)
      (hitem : p.engine.units.find? stream.takes = some item)
      (h : p.demuxes (.fetch uid) = some (p.engine.takeUnit stream item.2)) :
      Steps order p (.fetch uid)
        { engine := (p.engine.takeUnit stream item.2).demux order, delivered := p.delivered ++ [item] }

theorem step_cases {call : MediaCall} (h : step order p call = some p') : Steps order p call p' := by
  cases call with
  | append bytes =>
    obtain ⟨e', happend, rfl⟩ := Option.map_eq_some_iff.1 h
    unfold MediaEngine.appendPackets at happend
    split at happend
    · next hempty =>
      obtain rfl := Option.some.inj happend
      exact .idle (List.isEmpty_iff.1 hempty)
    · next hempty =>
      rw [Option.ite_none_left_eq_some] at happend
      obtain rfl := Option.some.inj happend.2
      exact .append (if_neg hempty)
  | fetch uid =>
    rw [step, MediaEngine.nextAccessUnit] at h
    cases hstream : p.engine.findStream uid with
    | none =>
      rw [hstream] at h
      exact Option.some.inj h ▸ .idle rfl
    | some stream =>
      rw [hstream] at h
      dsimp only at h
      cases hitem : p.engine.units.find? stream.takes with
      | none =>
        rw [hitem] at h
        exact Option.some.inj h ▸ .idle rfl
      | some item =>
        rw [hitem] at h
        obtain rfl := Option.some.inj h
        have htakes := List.find?_some hitem
        rw [MediaStream.takes, Bool.and_eq_true, beq_iff_eq] at htakes
        have hpair : (stream.kind, item.2) = item := by rw [← htakes.1]
        rw [Option.elim_some, hpair]
        exact .fetch hstream hitem (by rw [demuxes, hstream, Option.bind_some, hitem, Option.map_some])

/-- What holds between the calls. -/
structure Good (p : Playback) : Prop where
  sound : p.engine.Sound
  settled : p.engine.Settled
  stops : ∀ packet rest, nextPacket p.engine.active = some (packet, rest) → p.engine.queuePacket packet = none
  kinds : ∀ item ∈ p.delivered, item.1 = .video → p.engine.videoRegistered = true

theorem demux_stops {e : MediaEngine} (hs : e.Sound) {packet : PesPacket} {rest : List Byte}
    (h : nextPacket (e.demux order).active = some (packet, rest)) :
    (e.demux order).queuePacket packet = none := by
  have hspec := MediaEngine.demux_spec order hs
  obtain ⟨encoded, encodedOffset, -, heq⟩ := hspec.eq
  have hstops := MediaEngine.queuePacket_eq_none.1 (hspec.packets.stops packet rest h)
  rw [heq]
  exact MediaEngine.queuePacket_eq_none.2 hstops

theorem Good.demux {e : MediaEngine} (hs : e.Sound) {delivered : List (StreamKind × MediaAccessUnit)}
    (hkinds : ∀ item ∈ delivered, item.1 = .video → e.videoRegistered = true) :
    (Playback.mk (e.demux order) delivered).Good where
  sound := hs.demux
  settled := MediaEngine.demux_settled hs
  stops _ _ h := demux_stops hs h
  kinds item hitem hkind := by
    rw [MediaEngine.videoRegistered, MediaEngine.streams_demux hs]
    exact hkinds item hitem hkind

theorem streams_pushEncoded (e : MediaEngine) (bytes : List Byte) : (e.pushEncoded bytes).streams = e.streams := by
  rw [MediaEngine.pushEncoded]
  split
  · rfl
  · rfl

theorem streams_takeUnit (e : MediaEngine) (stream : MediaStream) (unit : MediaAccessUnit) :
    (e.takeUnit stream unit).streams = e.streams := congrArg (·.2.2.2) (MediaEngine.core_takeUnit e stream unit)

theorem Steps.good {call : MediaCall} (h : Steps order p call p') (hp : p.Good) :
    p'.Good ∧ p'.engine.streams = p.engine.streams := by
  cases h with
  | idle _ => exact ⟨hp, rfl⟩
  | @append bytes _ =>
    have hsound := hp.sound.pushEncoded bytes
    have hstreams := streams_pushEncoded p.engine bytes
    refine ⟨Good.demux hsound ?_, (MediaEngine.streams_demux hsound).trans hstreams⟩
    rw [MediaEngine.videoRegistered, hstreams]
    exact hp.kinds
  | @fetch uid stream item hstream hitem _ =>
    have hsound := hp.sound.takeUnit stream item.2
    have hstreams := streams_takeUnit p.engine stream item.2
    refine ⟨Good.demux hsound ?_, (MediaEngine.streams_demux hsound).trans hstreams⟩
    intro x hx hkind
    rw [MediaEngine.videoRegistered, hstreams]
    rcases List.mem_append.1 hx with hx | hx
    · exact hp.kinds x hx hkind
    · rw [List.mem_singleton.1 hx] at hkind
      have htakes := List.find?_some hitem
      rw [MediaStream.takes, Bool.and_eq_true, beq_iff_eq] at htakes
      exact MediaEngine.videoRegistered_of_findStream hstream (htakes.1.symm.trans hkind)

theorem Good.run (hp : p.Good) (h : run (step order) p calls = some p') :
    p'.Good ∧ p'.engine.streams = p.engine.streams :=
  run_invariant (P := fun q => q.Good ∧ q.engine.streams = p.engine.streams)
    (fun _ _ _ hq h => ⟨((step_cases h).good hq.1).1, ((step_cases h).good hq.1).2.trans hq.2⟩) ⟨hp, rfl⟩ h

/-- The packets that a call queues meet the guard of the forecast. -/
def Meets {β : Type} (F : Forecast β) (order : HashOrder) (p : Playback) (call : MediaCall) : Prop :=
  ∀ e ∈ p.demuxes call, F.Admits order e

/-- What is ticked off and what is still expected make up one list, whatever the call. -/
theorem Steps.ticked {β : Type} {F : Forecast β} {call : MediaCall} (h : Steps order p call p') (hp : p.Good)
    (hmeets : Meets F order p call) (extra : List Byte) :
    p'.delivered.flatMap F.seen ++ F.expected p'.engine extra =
      p.delivered.flatMap F.seen ++ F.expected p.engine (call.bytes ++ extra) := by
  cases h with
  | idle hnone => rw [hnone, List.nil_append]
  | @append bytes h =>
    rw [F.expected_demux (hp.sound.pushEncoded bytes) (hmeets _ h), F.expected_pushEncoded hp.sound]
    rfl
  | @fetch uid stream item hstream hitem h =>
    rw [F.expected_demux (hp.sound.takeUnit stream item.2) (hmeets _ h), List.flatMap_append, List.append_assoc,
      List.flatMap_singleton, ← F.expected_takeUnit hstream hitem]
    rfl

/-- The bytes of the stream that a run appends. -/
def appended (calls : List MediaCall) : List Byte := calls.flatMap MediaCall.bytes

theorem ticked_run {β : Type} {F : Forecast β} (hp : p.Good)
    (hmeets : Guarded (step order) (Meets F order) p calls)
    (h : Interleaving.run (step order) p calls = some p') (extra : List Byte) :
    p'.delivered.flatMap F.seen ++ F.expected p'.engine extra =
      p.delivered.flatMap F.seen ++ F.expected p.engine (appended calls ++ extra) := by
  induction calls generalizing p with
  | nil =>
    obtain rfl := Option.some.inj h
    rfl
  | cons call calls ih =>
    obtain ⟨q, hq, hrun⟩ := run_cons_eq_some.1 h
    rw [ih ((step_cases hq).good hp).1 (hmeets.2 q hq) hrun, (step_cases hq).ticked hp hmeets.1, appended,
      appended, List.flatMap_cons, List.append_assoc]

theorem flatMap_payloads (t : Track) (items : List (StreamKind × MediaAccessUnit)) :
    items.flatMap (Forecast.payloads t).seen = t.payloads items := by
  induction items with
  | nil => rfl
  | cons item items ih =>
    rw [List.flatMap_cons, ih]
    exact Track.payloads_append.symm

/-- What was delivered and what is still expected make up one list, whatever the calls. -/
theorem delivered_append (hp : p.Good) (h : Interleaving.run (step order) p calls = some p') (t : Track)
    (extra : List Byte) :
    t.payloads p'.delivered ++ (Forecast.payloads t).expected p'.engine extra =
      t.payloads p.delivered ++ (Forecast.payloads t).expected p.engine (appended calls ++ extra) := by
  have hmeets : Guarded (step order) (Meets (Forecast.payloads t) order) p calls :=
    Guarded.of_forall fun _ _ _ _ => Guarded.of_forall fun _ _ => trivial
  rw [← flatMap_payloads, ← flatMap_payloads]
  exact ticked_run hp hmeets h extra

/-! ### Draining -/

/-- No fetch has anything to deliver. -/
def Drained (order : HashOrder) (p : Playback) : Prop :=
  ∀ uid, (p.engine.nextAccessUnit order uid).1 = none

/-- Each identifier is that of one stream. -/
def Named (e : MediaEngine) : Prop := (e.streams.map (·.1)).Nodup

theorem Named.findStream {e : MediaEngine} (hn : Named e) {item : Word × MediaStream} (h : item ∈ e.streams) :
    e.findStream item.1 = some item.2 := by
  obtain ⟨before, after, heq⟩ := List.append_of_mem h
  have hfind : e.streams.find? (·.1 == item.1) = some item := by
    refine List.find?_eq_some_iff_append.2 ⟨beq_self_eq_true _, before, after, heq, fun x hx => ?_⟩
    rw [Named, heq, List.map_append, List.map_cons] at hn
    rw [Bool.not_eq_true', beq_eq_false_iff_ne]
    intro hname
    exact List.disjoint_of_nodup_append hn (List.mem_map_of_mem hx) (hname ▸ List.mem_cons_self)
  rw [MediaEngine.findStream, hfind]
  rfl

theorem Drained.not_takes (hd : Drained order p) (hn : Named p.engine) {item : Word × MediaStream}
    (h : item ∈ p.engine.streams) : ∀ x ∈ p.engine.units, ¬ item.2.takes x = true := by
  have hnext := hd item.1
  rw [MediaEngine.nextAccessUnit, hn.findStream h] at hnext
  dsimp only at hnext
  split at hnext
  · next hnone => exact List.find?_eq_none.1 hnone
  · cases hnext

/-- Of the units of registered streams none is queued any more. -/
theorem Drained.no_audio (hd : Drained order p) (hp : p.Good) (hn : Named p.engine) :
    p.engine.unitCount .audio = 0 := by
  rw [MediaEngine.unitCount, List.countP_eq_zero]
  intro x hx hkind
  rw [beq_iff_eq] at hkind
  rcases hp.sound.owned x hx with hvideo | ⟨-, hreg, hnorm⟩
  · rw [hkind] at hvideo
    cases hvideo
  rw [MediaEngine.audioChannelRegistered, hnorm, List.any_eq_true] at hreg
  obtain ⟨item, hitem, hmatch⟩ := hreg
  rw [Bool.and_eq_true, beq_iff_eq, beq_iff_eq] at hmatch
  refine hd.not_takes hn hitem x hx ?_
  rw [MediaStream.takes, hkind, hmatch.1, hmatch.2, beq_self_eq_true, beq_self_eq_true, Bool.or_true]
  rfl

theorem Drained.no_video (hd : Drained order p) (hn : Named p.engine)
    (hreg : p.engine.videoRegistered = true) : p.engine.unitCount .video = 0 := by
  rw [MediaEngine.unitCount, List.countP_eq_zero]
  intro x hx hkind
  rw [beq_iff_eq] at hkind
  obtain ⟨item, hitem, hvideo⟩ := List.any_eq_true.1 hreg
  rw [beq_iff_eq] at hvideo
  refine hd.not_takes hn hitem x hx ?_
  rw [MediaStream.takes, hkind, hvideo]
  rfl

theorem admitted_of_drained (hd : Drained order p) (hp : p.Good) (hn : Named p.engine) :
    p.engine.admitted [] (pesPackets.units p.engine.active) = [] := by
  cases hnext : nextPacket p.engine.active with
  | none => rw [units_of_none (F := pesPackets) hnext, MediaEngine.admitted]
  | some cut =>
    obtain ⟨packet, rest⟩ := cut
    obtain ⟨hvideo, hfull⟩ := MediaEngine.queuePacket_eq_none.1 (hp.stops packet rest hnext)
    rw [units_of_some (F := pesPackets) hnext, MediaEngine.admitted, if_pos]
    refine ⟨?_, hvideo, hfull.trans ?_⟩
    · by_contra hreg
      rw [Bool.not_eq_false] at hreg
      rw [hd.no_video hn hreg] at hfull
      cases hfull
    · rw [MediaEngine.unitCount_video, MediaEngine.future, List.length_append]
      exact Nat.le_add_right ..

theorem expected_of_drained (hd : Drained order p) (hp : p.Good) (hn : Named p.engine)
    (ht : t = .video → p.engine.videoRegistered = true) : (Forecast.payloads t).expected p.engine [] = [] := by
  rw [Forecast.expected, List.append_nil, admitted_of_drained hd hp hn]
  change p.engine.future t [] = []
  unfold MediaEngine.future
  cases t with
  | video =>
    have hcount := hd.no_video hn (ht rfl)
    have hstaged := hp.settled.video (hcount ▸ (by decide : 0 < maximumAccessUnitsPerKind))
    have hqueue := List.eq_nil_of_length_eq_zero (MediaEngine.unitCount_video.symm.trans hcount)
    rw [hqueue]
    exact units_of_none (F := videoUnits) hstaged
  | audio c =>
    have hcount := hd.no_audio hp hn
    have hstaged := (hp.settled.audio c).1 (hcount ▸ (by decide : 0 < maximumAccessUnitsPerKind))
    have hqueue : (Track.audio c).payloads p.engine.units = [] := by
      rw [Track.payloads, Track.units, List.filter_eq_nil_iff.2]
      · rfl
      intro x hx hcarries
      rw [Track.carries, Bool.and_eq_true] at hcarries
      exact List.countP_eq_zero.1 hcount x hx hcarries.1
    rw [hqueue]
    dsimp only
    rw [MediaEngine.audioArrivals, List.filterMap_nil, List.map_nil, List.flatten_nil, List.append_nil,
      units_of_none (F := audioFrames) hstaged]
    rfl

theorem payloads_video_of_not_registered (hp : p.Good) (h : ¬ p.engine.videoRegistered = true) :
    Track.video.payloads p.delivered = [] := by
  rw [Track.payloads, Track.units, List.filter_eq_nil_iff.2]
  · rfl
  intro x hx hcarries
  rw [Track.carries, beq_iff_eq] at hcarries
  exact h (hp.kinds x hx hcarries)

/-! ### The streams are registered first -/

/-- An engine that has seen no data. -/
def Fresh (e : MediaEngine) : Prop :=
  ∃ capacity streams nextStream, e = { capacity, streams, nextStream }

theorem Fresh.registerStream {e : MediaEngine} (h : Fresh e) (type channel : Word) :
    Fresh (e.registerStream type channel).2 := by
  obtain ⟨capacity, streams, nextStream, rfl⟩ := h
  exact ⟨capacity, _, _, rfl⟩

theorem Named.registerStream {e : MediaEngine} (h : Named e) (type channel : Word) :
    Named (e.registerStream type channel).2 := by
  unfold Named MediaEngine.registerStream
  dsimp only
  split
  · exact h
  · next hnew =>
    rw [List.map_append]
    refine h.append (List.nodup_singleton _) (List.disjoint_singleton.2 fun hmem => hnew ?_)
    obtain ⟨item, hitem, heq⟩ := List.mem_map.1 hmem
    exact List.any_eq_true.2 ⟨item, hitem, beq_iff_eq.2 heq⟩

theorem opened_fresh (capacity : Nat) (registrations : List (Word × Word)) :
    Fresh (opened capacity registrations).engine ∧ Named (opened capacity registrations).engine := by
  unfold opened
  dsimp only
  have hcreate : Fresh (MediaEngine.create capacity) ∧ Named (MediaEngine.create capacity) :=
    ⟨⟨_, [], 1, rfl⟩, List.nodup_nil⟩
  generalize MediaEngine.create capacity = e at hcreate
  induction registrations generalizing e with
  | nil => exact hcreate
  | cons r registrations ih => exact ih _ ⟨hcreate.1.registerStream r.1 r.2, hcreate.2.registerStream r.1 r.2⟩

theorem opened_good (capacity : Nat) (registrations : List (Word × Word)) :
    (opened capacity registrations).Good := by
  obtain ⟨capacity', streams, nextStream, heq⟩ := (opened_fresh capacity registrations).1
  constructor
  · rw [heq]
    refine ⟨Nat.le_refl 0, Or.inl rfl, List.nodup_nil, ?_, ?_, fun _ _ => rfl, ?_⟩
    all_goals
      intro x hx
      cases hx
  · rw [heq]
    exact ⟨fun _ => rfl, fun _ => ⟨fun _ => rfl, rfl⟩⟩
  · rw [heq]
    intro packet rest h
    cases h
  · intro item hitem
    cases hitem

theorem opened_capacity (capacity capacity' : Nat) (registrations : List (Word × Word)) :
    ∃ c, (opened capacity registrations).engine =
      { (opened capacity' registrations).engine with capacity := c } := by
  unfold opened
  dsimp only
  have hcreate : ∃ c, MediaEngine.create capacity = { MediaEngine.create capacity' with capacity := c } := ⟨_, rfl⟩
  generalize MediaEngine.create capacity = e at hcreate
  generalize MediaEngine.create capacity' = e' at hcreate
  induction registrations generalizing e e' with
  | nil => exact hcreate
  | cons r registrations ih =>
    obtain ⟨c, rfl⟩ := hcreate
    exact ih _ _ ⟨c, rfl⟩

/-- The registrations alone decide what is expected of a stream. -/
theorem opened_expected {β : Type} (F : Forecast β)
    (hF : ∀ (e : MediaEngine) capacity ps, F.of { e with capacity } ps = F.of e ps) (capacity capacity' : Nat)
    (registrations : List (Word × Word)) (stream : List Byte) :
    F.expected (opened capacity registrations).engine stream =
      F.expected (opened capacity' registrations).engine stream := by
  obtain ⟨c, heq⟩ := opened_capacity capacity capacity' registrations
  rw [heq]
  have hadmitted : ∀ (e : MediaEngine) (ps : List PesPacket),
      { e with capacity := c }.admitted [] ps = e.admitted [] ps := by
    intro e ps
    refine MediaEngine.admitted_congr ?_ (fun qs => ?_) ps
    · rfl
    · rfl
  rw [Forecast.expected, Forecast.expected, hadmitted, hF]
  rfl

/-! ### Every engine can be drained -/

def tracks : List Track := .video :: (List.finRange 256).map fun i => .audio (BitVec.ofFin i)

theorem mem_tracks (t : Track) : t ∈ tracks := by
  cases t with
  | video => exact List.mem_cons_self
  | audio c => exact List.mem_cons_of_mem _ (List.mem_map.2 ⟨c.toFin, List.mem_finRange _, rfl⟩)

def pendingUnits (p : Playback) : Nat :=
  (tracks.map fun t => ((Forecast.payloads t).expected p.engine []).length).sum

theorem Steps.pendingUnits_lt {uid : Word} (h : Steps order p (.fetch uid) p') (hp : p.Good) (hne : p' ≠ p) :
    p'.pendingUnits < p.pendingUnits := by
  cases h with
  | idle _ => exact absurd rfl hne
  | @fetch uid stream item hstream hitem h =>
    have hexpected : ∀ t : Track, (Forecast.payloads t).expected p.engine [] =
        t.payloads [item] ++ (Forecast.payloads t).expected ((p.engine.takeUnit stream item.2).demux order) [] := by
      intro t
      have hadmits : (Forecast.payloads t).Admits order (p.engine.takeUnit stream item.2) :=
        Guarded.of_forall fun _ _ => trivial
      rw [(Forecast.payloads t).expected_demux (hp.sound.takeUnit stream item.2) hadmits]
      exact (Forecast.payloads t).expected_takeUnit hstream hitem
    refine List.sum_lt_sum _ _ (fun t _ => ?_) ?_
    · rw [hexpected t, List.length_append]
      exact Nat.le_add_left ..
    · have htrack : ∃ t : Track, t.carries item = true := by
        rcases hp.sound.owned item (List.mem_of_find?_eq_some hitem) with hkind | ⟨hkind, -⟩
        · exact ⟨.video, by rw [Track.carries, hkind]; rfl⟩
        · exact ⟨.audio item.2.channel, by rw [Track.carries, hkind, beq_self_eq_true, beq_self_eq_true]; rfl⟩
      obtain ⟨t, ht⟩ := htrack
      refine ⟨t, mem_tracks t, ?_⟩
      have hone : (t.payloads [item]).length = 1 := by
        rw [Track.payloads, Track.units, List.filter_cons_of_pos ht]
        rfl
      rw [hexpected t, List.length_append, hone]
      exact Nat.lt_add_of_pos_left Nat.one_pos

theorem exists_fetch {uid : Word} (h : (p.engine.nextAccessUnit order uid).1 ≠ none) :
    ∃ q, step order p (.fetch uid) = some q ∧ q ≠ p := by
  cases hnext : p.engine.nextAccessUnit order uid with
  | mk result engine =>
    cases result with
    | none =>
      rw [hnext] at h
      exact absurd rfl h
    | some unit =>
      refine ⟨_, by rw [step, hnext], fun heq => ?_⟩
      have := congrArg (·.delivered.length) heq
      rw [List.length_append] at this
      exact Nat.succ_ne_self _ this

theorem exists_drained (order : HashOrder) (hp : p.Good) : ∃ (uids : List Word) (q : Playback),
    Interleaving.run (step order) p (uids.map .fetch) = some q ∧ Drained order q := by
  induction hn : p.pendingUnits using Nat.strongRecOn generalizing p with
  | ind n ih =>
    by_cases hd : Drained order p
    · exact ⟨[], p, rfl, hd⟩
    · obtain ⟨uid, huid⟩ := not_forall.1 hd
      obtain ⟨q, hstep, hne⟩ := exists_fetch huid
      have hsteps := step_cases hstep
      have hq := (hsteps.good hp).1
      have hlt := hsteps.pendingUnits_lt hp hne
      obtain ⟨uids, r, hrun, hr⟩ := ih _ (hn ▸ hlt) hq rfl
      exact ⟨uid :: uids, r, run_cons_eq_some.2 ⟨q, hstep, hrun⟩, hr⟩

/-! ### Any schedule delivers what the whole stream does -/

/-- The whole stream appended at once can be drained, and whatever the order in which it is, each track is then
delivered in full: what any schedule delivers is the beginning of it. -/
theorem delivered_prefix (order order' : HashOrder) (capacity capacity' : Nat)
    (registrations : List (Word × Word)) (calls : List MediaCall) (p loaded : Playback)
    (hrun : Interleaving.run (step order) (opened capacity registrations) calls = some p)
    (hload : step order' (opened capacity' registrations) (.append (appended calls)) = some loaded) :
    (∃ (uids : List Word) (whole : Playback),
      Interleaving.run (step order') loaded (uids.map .fetch) = some whole ∧ Drained order' whole) ∧
    ∀ (uids : List Word) (whole : Playback),
      Interleaving.run (step order') loaded (uids.map .fetch) = some whole → Drained order' whole →
      ∀ t : Track, t.payloads p.delivered <+: t.payloads whole.delivered := by
  have hopened := opened_good capacity' registrations
  obtain ⟨hloaded, hstreams⟩ := (step_cases hload).good hopened
  refine ⟨exists_drained order' hloaded, fun uids whole hwhole hd t => ?_⟩
  have hp := ((opened_good capacity registrations).run hrun).1
  have hgood := (hloaded.run hwhole).1
  have hnamed : Named whole.engine := by
    rw [Named, ((hloaded.run hwhole).2.trans hstreams)]
    exact (opened_fresh capacity' registrations).2
  by_cases ht : t = .video → whole.engine.videoRegistered = true
  · have hone := delivered_append (opened_good capacity registrations) hrun t []
    have htwo := delivered_append hopened (run_cons_eq_some.2 ⟨loaded, hload, hwhole⟩) t []
    have hfetch : appended (uids.map .fetch) = [] := by
      rw [appended, List.flatMap_map]
      exact List.flatMap_eq_nil_iff.2 fun _ _ => rfl
    have hstream : appended (.append (appended calls) :: uids.map .fetch) = appended calls := by
      rw [appended, List.flatMap_cons, ← appended, hfetch, List.append_nil]
      rfl
    rw [hstream, expected_of_drained hd hgood hnamed ht, List.append_nil] at htwo
    rw [opened_expected (Forecast.payloads t) (fun _ _ _ => rfl) capacity capacity'] at hone
    exact ⟨_, hone.trans htwo.symm⟩
  · obtain ⟨rfl, hreg⟩ := Classical.not_imp.1 ht
    have hstreams' : p.engine.streams = whole.engine.streams := by
      obtain ⟨c, heq⟩ := opened_capacity capacity capacity' registrations
      rw [((opened_good capacity registrations).run hrun).2, (hloaded.run hwhole).2, hstreams, heq]
    rw [payloads_video_of_not_registered hp]
    · exact List.nil_prefix
    · rwa [MediaEngine.videoRegistered, hstreams']

/-- A packet with a video unit and the delimiter of the next one, cut in the middle of its header. -/
theorem delivered_prefix_split : ∃ (p loaded whole : Playback) (uids : List Word),
    Interleaving.run (step .insertion) (opened 2048 [(0, 0)])
      [.append [0, 0, 1, 0xe0, 0, 13, 0x80], .append [0, 0, 0, 0, 1, 9, 1, 0, 0, 1, 9, 2], .fetch 1] = some p ∧
    step .insertion (opened 2048 [(0, 0)])
      (.append [0, 0, 1, 0xe0, 0, 13, 0x80, 0, 0, 0, 0, 1, 9, 1, 0, 0, 1, 9, 2]) = some loaded ∧
    Interleaving.run (step .insertion) loaded (uids.map .fetch) = some whole ∧
    Track.video.payloads p.delivered = [[0, 0, 1, 9, 1]] ∧
    Track.video.payloads p.delivered <+: Track.video.payloads whole.delivered := by
  have hrun : ((Interleaving.run (step .insertion) (opened 2048 [(0, 0)])
      [.append [0, 0, 1, 0xe0, 0, 13, 0x80], .append [0, 0, 0, 0, 1, 9, 1, 0, 0, 1, 9, 2], .fetch 1]).map
      fun p => Track.video.payloads p.delivered) = some [[0, 0, 1, 9, 1]] := by decide
  have hload : (step .insertion (opened 2048 [(0, 0)])
      (.append [0, 0, 1, 0xe0, 0, 13, 0x80, 0, 0, 0, 0, 1, 9, 1, 0, 0, 1, 9, 2])).isSome = true := by
    decide
  obtain ⟨p, hp, hpayloads⟩ := Option.map_eq_some_iff.1 hrun
  obtain ⟨loaded, hloaded⟩ := Option.isSome_iff_exists.1 hload
  obtain ⟨⟨uids, whole, hwhole, hd⟩, hprefix⟩ :=
    delivered_prefix .insertion .insertion 2048 2048 [(0, 0)] _ p loaded hp hloaded
  exact ⟨p, loaded, whole, uids, hp, hloaded, hwhole, hpayloads, hprefix uids whole hwhole hd .video⟩

end Playback

end Psprism
