import Psprism.MediaPlayback

/-!
# The dates of the audio units

A packet dates the staging buffer of its channel when it finds it empty; otherwise the dates go on in steps of
4180. A frame that is held back because 64 units are queued keeps the buffer from being empty, so a packet that
arrives behind one does not date its frames. Where no packet does, the dates do not depend on the schedule
(`dates_eq`).
-/

namespace Psprism
open Framing Interleaving

theorem datedUnits_append {unit : Int → List Byte → MediaAccessUnit} {period pts : Int} (us vs : List (List Byte)) :
    datedUnits unit period pts (us ++ vs) =
      datedUnits unit period pts us ++ datedUnits unit period (dateAfter period pts us.length) vs := by
  induction us generalizing pts with
  | nil => rfl
  | cons u us ih => rw [List.cons_append, datedUnits, datedUnits, ih, List.length_cons, dateAfter, List.cons_append]

theorem dateAfter_add {period pts : Int} (m n : Nat) :
    dateAfter period pts (m + n) = dateAfter period (dateAfter period pts m) n := by
  induction m generalizing pts with
  | zero => rw [Nat.zero_add, dateAfter]
  | succ m ih => rw [Nat.succ_add, dateAfter, dateAfter, ih]

namespace AudioStaging

/-- The units of the frames that are complete. -/
def units (channel : Byte) (s : AudioStaging) : List MediaAccessUnit :=
  datedUnits (audioUnit channel) 4180 s.nextPts (audioFrames.units s.bytes)

/-- What is left of the buffer when they are taken. -/
def rest (s : AudioStaging) : AudioStaging :=
  { bytes := audioRemainder s.bytes
    nextPts := dateAfter 4180 s.nextPts (audioFrames.units s.bytes).length }

/-- What an extraction leaves that takes up to `n` frames. -/
def cut (n : Nat) (s : AudioStaging) : AudioStaging :=
  { bytes := awaitingFrame (audioFrames.take n s.bytes).2
    nextPts := dateAfter 4180 s.nextPts (audioFrames.take n s.bytes).1.length }

theorem units_take (n : Nat) (bytes : List Byte) : audioFrames.units bytes =
    (audioFrames.take n bytes).1 ++ audioFrames.units (awaitingFrame (audioFrames.take n bytes).2) := by
  have hawaiting : audioFrames.units (awaitingFrame (audioFrames.take n bytes).2) =
      audioFrames.units (audioFrames.take n bytes).2 := units_congr (nextAudioFrame_awaiting_eq _)
  rw [hawaiting]
  exact (gives_take audioFrames n bytes).units_eq

theorem units_cut (channel : Byte) (n : Nat) (s : AudioStaging) : s.units channel =
    datedUnits (audioUnit channel) 4180 s.nextPts (audioFrames.take n s.bytes).1 ++ (s.cut n).units channel := by
  rw [units, units_take n s.bytes, datedUnits_append]
  rfl

theorem rest_cut (n : Nat) (s : AudioStaging) : (s.cut n).rest = s.rest := by
  have hbytes : audioRemainder (s.cut n).bytes = audioRemainder s.bytes := by
    rw [cut, audioRemainder_awaitingFrame, audioRemainder, rest_take, audioRemainder]
  have hpts : dateAfter 4180 (s.cut n).nextPts (audioFrames.units (s.cut n).bytes).length =
      dateAfter 4180 s.nextPts (audioFrames.units s.bytes).length := by
    rw [units_take n s.bytes, List.length_append, dateAfter_add]
    rfl
  rw [rest, rest, hbytes, hpts]

/-- Nothing is taken where no frame is complete. -/
theorem units_of_none {channel : Byte} {s : AudioStaging} (h : nextAudioFrame s.bytes = none) :
    s.units channel = [] := by
  rw [units, Framing.units_of_none (F := audioFrames) h]
  rfl

theorem rest_of_none {s : AudioStaging} (h : nextAudioFrame s.bytes = none)
    (hawaiting : awaitingFrame s.bytes = s.bytes) : s.rest = s := by
  rw [rest, audioRemainder, Framing.rest_of_none (F := audioFrames) h, Framing.units_of_none (F := audioFrames) h,
    hawaiting]
  rfl

end AudioStaging

/-- The units of a channel, when those that are complete are taken before each packet. -/
def timeline (channel : Byte) : AudioStaging → List (Int × List Byte) → List MediaAccessUnit
  | s, [] => s.units channel
  | s, (pts, payload) :: arrivals => s.units channel ++ timeline channel (s.rest.add pts payload) arrivals

theorem timeline_cut (channel : Byte) (n : Nat) (s : AudioStaging) (arrivals : List (Int × List Byte)) :
    timeline channel s arrivals =
      datedUnits (audioUnit channel) 4180 s.nextPts (audioFrames.take n s.bytes).1 ++
        timeline channel (s.cut n) arrivals := by
  cases arrivals with
  | nil => exact s.units_cut channel n
  | cons a arrivals =>
    rw [timeline, timeline, s.units_cut channel n, s.rest_cut n, List.append_assoc]

namespace MediaEngine
variable {e e' : MediaEngine} {p : PesPacket} {ps : List PesPacket} {order : HashOrder} {c channel : Byte}

/-- No packet is added behind a complete frame that is held back. -/
def Prompt (e : MediaEngine) (p : PesPacket) : Prop :=
  match p.payload with
  | none => True
  | some (header, _) =>
    p.isAudio = true → e.audioChannelRegistered (normalizedAudioChannel header.channel) = true →
      nextAudioFrame (e.audioStaging (normalizedAudioChannel header.channel)).bytes = none

instance (e : MediaEngine) (p : PesPacket) : Decidable (e.Prompt p) :=
  match h : p.payload with
  | none => .isTrue (by rw [Prompt, h]; trivial)
  | some (header, _) =>
    decidable_of_iff (p.isAudio = true → e.audioChannelRegistered (normalizedAudioChannel header.channel) = true →
      nextAudioFrame (e.audioStaging (normalizedAudioChannel header.channel)).bytes = none) (by rw [Prompt, h])

/-- The units of a channel that are delivered from here on. -/
def dates (e : MediaEngine) (c : Byte) (ps : List PesPacket) : List MediaAccessUnit :=
  (Track.audio c).units e.units ++ timeline c (e.audioStaging c) (e.audioArrivals c ps)

theorem units_audio_video (us : List MediaAccessUnit) : (Track.audio c).units (us.map (.video, ·)) = [] :=
  Track.units_of_not_carries fun _ _ => Bool.false_ne_true

theorem dates_extractVideo (hs : e.Sound) : e.extractVideoAccessUnits.dates c ps = e.dates c ps := by
  rcases hs.ready with hnil | haud
  · rw [extractVideoAccessUnits_nil hnil]
  rw [dates, dates, extractVideoAccessUnits_units haud, Track.units_append, units_audio_video, List.append_nil,
    extractVideoAccessUnits_audioStaging, audioArrivals_congr (core_extractVideoAccessUnits e)]

theorem dates_extractAudio (hc : normalizedAudioChannel channel = channel) :
    (e.extractAudioFrames channel).dates c ps = e.dates c ps := by
  rw [dates, dates, extractAudioFrames_units, Track.units_append,
    audioArrivals_congr (core_extractAudioFrames e channel), extractAudioFrames_audioStaging, List.append_assoc]
  by_cases hchannel : c = channel
  · subst hchannel
    rw [Function.update_self, timeline_cut c (e.room .audio) (e.audioStaging c), Track.units_of_carries]
    · rfl
    · intro u hu
      obtain ⟨pts, frame, rfl⟩ := mem_datedUnits hu
      rw [Track.carries, audioUnit, hc, beq_self_eq_true, beq_self_eq_true]
      rfl
  · rw [Function.update_of_ne hchannel, Track.units_of_not_carries]
    · rfl
    · intro u hu hcarries
      obtain ⟨pts, frame, rfl⟩ := mem_datedUnits hu
      rw [Track.carries, audioUnit, hc, beq_self_eq_true, Bool.true_and, beq_iff_eq] at hcarries
      exact hchannel hcarries.symm

theorem dates_extractStaged (hs : e.Sound) : (e.extractStaged order).dates c ps = e.dates c ps := by
  refine (extractStaged_induction (P := fun e' => e'.dates c ps = e.dates c ps) hs ?_ ?_).2
  · exact dates_extractVideo hs
  · intro e₁ c' hs₁ hc' h
    rw [dates_extractAudio (hs₁.normalized c' hc'), h]

theorem dates_queueVideo (hs : e.Sound) (hp : p.isVideo = true) (header : ParsedPes) (payload : List Byte) :
    (e.queueVideo header p.bytes.length payload).dates c ps = e.dates c (p :: ps) := by
  have harrivals : e.audioArrivals c (p :: ps) = e.audioArrivals c ps :=
    audioArrivals_cons_of_none (Or.inl fun ha => not_isVideo_of_isAudio ha hp)
  by_cases hraw : e.videoBytes.isEmpty = true ∧ findVideoAud payload 0 = none
  · rw [queueVideo, if_pos hraw, dates, dates, harrivals, Track.units_append]
    congr 1
    exact List.append_nil _
  · obtain ⟨haud, heq⟩ := queueVideo_of_staged hs header p.bytes.length hraw
    rw [heq, dates_extractVideo (hs.stagedVideo header.pts haud payload), dates, dates, harrivals]
    rfl

/-- A packet that comes when no frame is held back finds its buffer as every other schedule leaves it. -/
theorem dates_queueAudio (hsettled : e.Settled) (hp : p.isAudio = true) {header : ParsedPes} {payload : List Byte}
    (h : p.payload = some (header, payload)) (hprompt : e.Prompt p) :
    (e.queueAudio (normalizedAudioChannel header.channel) header.pts payload).dates c ps =
      e.dates c (p :: ps) := by
  have hother : normalizedAudioChannel header.channel ≠ c → e.audioArrivals c (p :: ps) = e.audioArrivals c ps := by
    intro hc
    refine audioArrivals_cons_of_none (Or.inr (Or.inr fun header' payload' h' => ?_))
    obtain ⟨rfl, rfl⟩ := Prod.mk.inj (Option.some.inj (h.symm.trans h'))
    exact hc
  rw [queueAudio]
  split
  · next hreg =>
    rw [Bool.not_eq_true'] at hreg
    rw [dates, dates]
    by_cases hc : normalizedAudioChannel header.channel = c
    · rw [audioArrivals_cons_of_none (Or.inr (Or.inl (hc ▸ hreg)))]
    · rw [hother hc]
  · next hreg =>
    rw [Bool.not_eq_true', Bool.not_eq_false] at hreg
    rw [dates_extractAudio (normalizedAudioChannel_idem _), dates, dates]
    by_cases hc : normalizedAudioChannel header.channel = c
    · subst hc
      rw [Prompt, h] at hprompt
      have hnone := hprompt hp hreg
      rw [audioArrivals_cons_of_isAudio hp h hreg, timeline, AudioStaging.units_of_none hnone,
        AudioStaging.rest_of_none hnone (hsettled.audio _).2, stageAudio_audioStaging]
      rfl
    · rw [hother hc, stageAudio_audioStaging_of_ne (Ne.symm hc)]
      rfl

theorem dates_queuePacket (hs : e.Sound) (hsettled : e.Settled) (hprompt : e.Prompt p)
    (h : e.queuePacket p = some e') : e'.dates c ps = e.dates c (p :: ps) := by
  cases (queuePacket_eq_some h).2 with
  | nothing hnone =>
    rw [dates, dates, audioArrivals_cons_of_none]
    rcases hnone with hnone | ⟨-, ha⟩
    · refine Or.inr (Or.inr fun header payload h => ?_)
      rw [hnone] at h
      cases h
    · exact Or.inl ha
  | video hp hpay => exact dates_queueVideo hs hp _ _
  | audio hp hpay => exact dates_queueAudio hsettled hp hpay hprompt

theorem dates_takeUnit {stream : MediaStream} {item : StreamKind × MediaAccessUnit}
    (hitem : e.units.find? stream.takes = some item) :
    e.dates c ps = (Track.audio c).units [item] ++ (e.takeUnit stream item.2).dates c ps := by
  obtain ⟨_, _, _, _, heq⟩ := units_takeUnit e stream item.2
  rw [heq, dates, units_eraseP hitem, List.append_assoc]
  rfl

end MediaEngine

/-- The units of an audio channel with their dates. -/
def Forecast.dates (c : Byte) : Forecast MediaAccessUnit where
  of e ps := e.dates c ps
  seen item := (Track.audio c).units [item]
  guard e p := e.Prompt p
  extract := MediaEngine.dates_extractStaged
  queue := MediaEngine.dates_queuePacket
  take := MediaEngine.dates_takeUnit
  encoded := rfl

namespace Playback
variable {order : HashOrder} {p p' : Playback} {calls : List MediaCall}

/-- A call in which no audio packet comes behind a complete frame that the full queue holds back. -/
def Prompt (order : HashOrder) (p : Playback) (call : MediaCall) : Prop :=
  ∀ e ∈ p.demuxes call, Guarded MediaEngine.queuePacket MediaEngine.Prompt (e.extractStaged order)
    (MediaEngine.queuedPackets e.active.length (e.extractStaged order) e.active)

instance (order : HashOrder) (p : Playback) (call : MediaCall) : Decidable (p.Prompt order call) :=
  inferInstanceAs (Decidable (∀ e ∈ p.demuxes call, _))

theorem flatMap_dates (c : Byte) (items : List (StreamKind × MediaAccessUnit)) :
    items.flatMap (Forecast.dates c).seen = (Track.audio c).units items := by
  induction items with
  | nil => rfl
  | cons item items ih =>
    rw [List.flatMap_cons, ih]
    exact Track.units_append.symm

/-- Whatever the schedule, the units of a channel are the first ones of a list that the stream determines. -/
theorem delivered_dates {capacity : Nat} {registrations : List (Word × Word)} {stream : List Byte} (c : Byte)
    (hrun : run (step order) (opened capacity registrations) calls = some p)
    (hstream : appended calls <+: stream)
    (hprompt : Guarded (step order) (Prompt order) (opened capacity registrations) calls) :
    (Track.audio c).units p.delivered <+: (Forecast.dates c).expected (opened 0 registrations).engine stream := by
  obtain ⟨extra, rfl⟩ := hstream
  have hticked := ticked_run (F := Forecast.dates c) (opened_good capacity registrations) hprompt hrun extra
  rw [flatMap_dates, opened_expected (Forecast.dates c) (fun _ _ _ => rfl) capacity 0] at hticked
  exact ⟨_, hticked⟩

theorem getElem?_of_prefix {α : Type*} {l l' : List α} (h : l <+: l') {n : Nat} {a : α} (hn : l[n]? = some a) :
    l'[n]? = some a := by
  obtain ⟨rest, rfl⟩ := h
  obtain ⟨hlt, -⟩ := List.getElem?_eq_some_iff.1 hn
  rw [List.getElem?_append_left hlt, hn]

/-- Of two schedules of a stream in which no packet comes behind a frame that is held back, each gives the
`n`-th unit of a channel the same date. -/
theorem dates_eq (order order' : HashOrder) (capacity capacity' : Nat) (registrations : List (Word × Word))
    (stream : List Byte) (calls calls' : List MediaCall) (p p' : Playback)
    (hrun : run (step order) (opened capacity registrations) calls = some p)
    (hrun' : run (step order') (opened capacity' registrations) calls' = some p')
    (hstream : appended calls <+: stream) (hstream' : appended calls' <+: stream)
    (hprompt : Guarded (step order) (Prompt order) (opened capacity registrations) calls)
    (hprompt' : Guarded (step order') (Prompt order') (opened capacity' registrations) calls')
    (c : Byte) (n : Nat) (u u' : MediaAccessUnit) (hu : ((Track.audio c).units p.delivered)[n]? = some u)
    (hu' : ((Track.audio c).units p'.delivered)[n]? = some u') : u.pts = u'.pts := by
  have hone := getElem?_of_prefix (delivered_dates c hrun hstream hprompt) hu
  have htwo := getElem?_of_prefix (delivered_dates c hrun' hstream' hprompt') hu'
  rw [Option.some.inj (hone.symm.trans htwo)]

/-- An audio packet with a date and frames of sixteen bytes. -/
def audioPacket (date : Byte) (frames : Nat) : List Byte :=
  [0, 0, 1, 0xbd, BitVec.ofNat 8 ((12 + 16 * frames) / 256), BitVec.ofNat 8 (12 + 16 * frames), 0x80, 0x80, 5,
    0x21, 0, 1, 0, 2 * date + 1, 0, 0, 0, 0] ++
    (List.replicate frames ([0x0f, 0xd0, 0, 0] ++ List.replicate 12 0)).flatten

/-- Two packets of one frame each: they may come together or one by one. -/
theorem dates_eq_packets : ∃ p p' : Playback,
    run (step .insertion) (opened 4096 [(1, 0)])
      [.append (audioPacket 3 1 ++ audioPacket 7 1), .fetch 1, .fetch 1] = some p ∧
    run (step .insertion) (opened 4096 [(1, 0)])
      [.append (audioPacket 3 1), .fetch 1, .append (audioPacket 7 1), .fetch 1] = some p' ∧
    (∀ u u', ((Track.audio 0).units p.delivered)[1]? = some u →
      ((Track.audio 0).units p'.delivered)[1]? = some u' → u.pts = u'.pts) := by
  have hrun : (run (step .insertion) (opened 4096 [(1, 0)])
      [.append (audioPacket 3 1 ++ audioPacket 7 1), .fetch 1, .fetch 1]).isSome = true := by decide +kernel
  have hrun' : (run (step .insertion) (opened 4096 [(1, 0)])
      [.append (audioPacket 3 1), .fetch 1, .append (audioPacket 7 1), .fetch 1]).isSome = true := by
    decide
  obtain ⟨p, hp⟩ := Option.isSome_iff_exists.1 hrun
  obtain ⟨p', hp'⟩ := Option.isSome_iff_exists.1 hrun'
  refine ⟨p, p', hp, hp', fun u u' hu hu' => ?_⟩
  exact dates_eq .insertion .insertion 4096 4096 [(1, 0)] (audioPacket 3 1 ++ audioPacket 7 1) _ _ p p' hp hp'
    (by decide) (by decide) (by decide) (by decide) 0 1 u u' hu hu'

/-- Of 65 frames the last is held back. The next packet dates its frame only when one was fetched before. -/
theorem dates_depend_on_pacing : ∃ (calls calls' : List MediaCall) (p p' : Playback) (u u' : MediaAccessUnit),
    appended calls = appended calls' ∧
    run (step .insertion) (opened 4096 [(1, 0)]) calls = some p ∧
    run (step .insertion) (opened 4096 [(1, 0)]) calls' = some p' ∧
    ((Track.audio 0).units p.delivered)[65]? = some u ∧
    ((Track.audio 0).units p'.delivered)[65]? = some u' ∧ u.pts ≠ u'.pts := by
  let calls : List MediaCall :=
    [.append (audioPacket 0 65), .fetch 1, .append (audioPacket 1 1)] ++ List.replicate 65 (.fetch 1)
  let calls' : List MediaCall :=
    [.append (audioPacket 0 65), .append (audioPacket 1 1)] ++ List.replicate 66 (.fetch 1)
  have hdate : ((run (step .insertion) (opened 4096 [(1, 0)]) calls).bind fun p =>
      (((Track.audio 0).units p.delivered)[65]?).map (·.pts)) = some 1 := by decide +kernel
  have hdate' : ((run (step .insertion) (opened 4096 [(1, 0)]) calls').bind fun p =>
      (((Track.audio 0).units p.delivered)[65]?).map (·.pts)) = some 271700 := by decide +kernel
  obtain ⟨p, hp, hu⟩ := Option.bind_eq_some_iff.1 hdate
  obtain ⟨u, hu, hpts⟩ := Option.map_eq_some_iff.1 hu
  obtain ⟨p', hp', hu'⟩ := Option.bind_eq_some_iff.1 hdate'
  obtain ⟨u', hu', hpts'⟩ := Option.map_eq_some_iff.1 hu'
  refine ⟨calls, calls', p, p', u, u', by decide +kernel, hp, hp', hu, hu', ?_⟩
  rw [hpts, hpts']
  decide

end Playback

end Psprism
