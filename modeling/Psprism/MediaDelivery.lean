import Psprism.MediaStaging

/-!
# What the demuxer delivers

Of an engine and the packets it is still to queue, `future` says which units it will have delivered in the end,
when none has to wait: those queued, then those of the staged bytes and of the packets. Neither an extraction
nor queueing a packet changes the future, and fetching a unit only takes the first one off it. So whatever the
schedule, what was delivered and the future make up one and the same list.
-/

namespace Psprism
open Framing Interleaving

/-- Video units from a buffer that is empty or begins with a delimiter, and the payloads after it. -/
def videoFuture : List Byte → List (List Byte) → List (List Byte)
  | staged, [] => videoUnits.units staged
  | staged, payload :: payloads =>
    if staged.isEmpty ∧ findVideoAud payload 0 = none then payload :: videoFuture staged payloads
    else videoFuture (MediaEngine.fromDelimiter (staged ++ payload)) payloads

theorem videoFuture_gives {xs ys : List Byte} {us : List (List Byte)} (h : videoUnits.Gives xs us ys)
    (hx : isVideoAud xs = true) (hy : isVideoAud ys = true) (payloads : List (List Byte)) :
    videoFuture xs payloads = us ++ videoFuture ys payloads := by
  induction payloads generalizing xs ys with
  | nil => exact h.units_eq
  | cons payload payloads ih =>
    have hstaged : ∀ {zs : List Byte}, isVideoAud zs = true →
        videoFuture zs (payload :: payloads) = videoFuture (zs ++ payload) payloads := by
      intro zs hz
      have hne : ¬ zs.isEmpty = true := by
        intro hnil
        rw [List.isEmpty_iff.1 hnil] at hz
        cases hz
      rw [videoFuture, if_neg fun h => hne h.1,
        MediaEngine.fromDelimiter_of_isVideoAud (isVideoAud_local.mono hz payload)]
    rw [hstaged hx, hstaged hy]
    exact ih (h.append payload) (isVideoAud_local.mono hx payload) (isVideoAud_local.mono hy payload)

/-- The payloads of the video packets. -/
def videoPayloads (ps : List PesPacket) : List (List Byte) :=
  ps.filterMap fun p => if p.isVideo then p.payload.map (·.2) else none

namespace MediaEngine
variable {e e' : MediaEngine} {p : PesPacket} {ps : List PesPacket} {t : Track}

/-- The dates and payloads of the packets of an audio channel. -/
def audioArrivals (e : MediaEngine) (channel : Byte) (ps : List PesPacket) : List (Int × List Byte) :=
  ps.filterMap fun p =>
    if p.isAudio && e.audioChannelRegistered channel then
      p.payload.bind fun (header, payload) =>
        if normalizedAudioChannel header.channel = channel then some (header.pts, payload) else none
    else none

/-- What is delivered on a track from here on. -/
def future (e : MediaEngine) (t : Track) (ps : List PesPacket) : List (List Byte) :=
  t.payloads e.units ++
    match t with
    | .video => videoFuture e.videoBytes (videoPayloads ps)
    | .audio channel =>
      (audioFrames.units
        ((e.audioStaging channel).bytes ++ ((e.audioArrivals channel ps).map (·.2)).flatten)).map (·.drop 8)

theorem audioArrivals_congr (h : e'.core = e.core) (channel : Byte) (ps : List PesPacket) :
    e'.audioArrivals channel ps = e.audioArrivals channel ps := by
  have hstreams : e'.streams = e.streams := congrArg (·.2.2.2) h
  simp only [audioArrivals, audioChannelRegistered, hstreams]

theorem payloads_datedVideo (pts : Int) (us : List (List Byte)) :
    t.payloads ((datedUnits stagedVideoUnit 3003 pts us).map (.video, ·)) = if t = .video then us else [] := by
  rw [Track.payloads]
  cases t with
  | video =>
    rw [Track.units_of_carries fun _ _ => rfl, if_pos rfl]
    exact (map_bytes_datedUnits id fun _ _ => rfl).trans (List.map_id us)
  | audio c =>
    have hnone : (Track.audio c).units ((datedUnits stagedVideoUnit 3003 pts us).map (.video, ·)) = [] :=
      Track.units_of_not_carries fun _ _ => Bool.false_ne_true
    rw [hnone, if_neg Track.noConfusion]
    rfl

theorem payloads_datedAudio {channel : Byte} (hc : normalizedAudioChannel channel = channel) (pts : Int)
    (us : List (List Byte)) :
    t.payloads ((datedUnits (audioUnit channel) 4180 pts us).map (.audio, ·)) =
      if t = .audio channel then us.map (·.drop 8) else [] := by
  rw [Track.payloads]
  by_cases ht : t = .audio channel
  · rw [if_pos ht, Track.units_of_carries]
    · exact map_bytes_datedUnits (·.drop 8) fun _ _ => rfl
    intro u hu
    obtain ⟨pts', frame, rfl⟩ := mem_datedUnits hu
    rw [ht, Track.carries, audioUnit, hc, beq_self_eq_true, beq_self_eq_true]
    rfl
  · rw [if_neg ht, Track.units_of_not_carries]
    · rfl
    intro u hu hcarries
    obtain ⟨pts', frame, rfl⟩ := mem_datedUnits hu
    cases t with
    | video => cases hcarries
    | audio c =>
      rw [Track.carries, audioUnit, hc, beq_self_eq_true, Bool.true_and, beq_iff_eq] at hcarries
      exact ht (congrArg Track.audio hcarries.symm)

/-- No extraction changes what is to be delivered. -/
theorem future_extractVideo (hs : e.Sound) : e.extractVideoAccessUnits.future t ps = e.future t ps := by
  rcases hs.ready with hnil | haud
  · rw [extractVideoAccessUnits_nil hnil]
  unfold future
  rw [extractVideoAccessUnits_units haud, Track.payloads_append, payloads_datedVideo]
  cases t with
  | video =>
    rw [if_pos rfl, extractVideoAccessUnits_videoBytes haud, List.append_assoc]
    congr 1
    exact (videoFuture_gives (gives_take videoUnits _ _) haud (isVideoAud_take _ haud) _).symm
  | audio c =>
    rw [if_neg Track.noConfusion, List.append_nil]
    dsimp only
    rw [extractVideoAccessUnits_audioStaging, audioArrivals_congr (core_extractVideoAccessUnits e)]

theorem future_extractAudio {channel : Byte} (hc : normalizedAudioChannel channel = channel) :
    (e.extractAudioFrames channel).future t ps = e.future t ps := by
  unfold future
  rw [extractAudioFrames_units, Track.payloads_append, payloads_datedAudio hc]
  cases t with
  | video =>
    rw [if_neg Track.noConfusion, List.append_nil]
    dsimp only
    rw [extractAudioFrames_videoBytes]
  | audio c =>
    dsimp only
    rw [audioArrivals_congr (core_extractAudioFrames e channel), extractAudioFrames_audioStaging]
    by_cases hchannel : c = channel
    · subst hchannel
      rw [if_pos rfl, Function.update_self, List.append_assoc, ← List.map_append]
      congr 2
      have hgives := (gives_take audioFrames (e.room .audio) (e.audioStaging c).bytes).trans
        (gives_awaitingFrame _)
      rw [List.append_nil] at hgives
      exact (hgives _).symm
    · rw [if_neg (hchannel ∘ Track.audio.inj), List.append_nil, Function.update_of_ne hchannel]

theorem future_extractStaged {order : HashOrder} (hs : e.Sound) :
    (e.extractStaged order).future t ps = e.future t ps := by
  refine (extractStaged_induction (P := fun e' => e'.future t ps = e.future t ps) hs ?_ ?_).2
  · exact future_extractVideo hs
  · intro e₁ c hs₁ hc h
    rw [future_extractAudio (hs₁.normalized c hc), h]

theorem videoPayloads_cons_of_isVideo (hp : p.isVideo = true) {header : ParsedPes} {payload : List Byte}
    (h : p.payload = some (header, payload)) : videoPayloads (p :: ps) = payload :: videoPayloads ps := by
  rw [videoPayloads, List.filterMap_cons_some]
  · rfl
  · rw [if_pos hp, h]
    rfl

theorem videoPayloads_cons_of_none (h : ¬ p.isVideo = true ∨ p.payload = none) :
    videoPayloads (p :: ps) = videoPayloads ps := by
  refine List.filterMap_cons_none ?_
  rcases h with h | h
  · rw [if_neg h]
  · rw [h]
    exact ite_self _

theorem audioArrivals_cons_of_none {c : Byte}
    (h : ¬ p.isAudio = true ∨ e.audioChannelRegistered c = false ∨
      ∀ header payload, p.payload = some (header, payload) → normalizedAudioChannel header.channel ≠ c) :
    e.audioArrivals c (p :: ps) = e.audioArrivals c ps := by
  refine List.filterMap_cons_none ?_
  rcases h with h | h | h
  · rw [if_neg fun hp => h (Bool.and_eq_true _ _ ▸ hp).1]
  · rw [h, Bool.and_false]
    rfl
  · split
    · cases hpay : p.payload with
      | none => rfl
      | some arrival => exact if_neg (h arrival.1 arrival.2 hpay)
    · rfl

theorem audioArrivals_cons_of_isAudio (hp : p.isAudio = true) {header : ParsedPes} {payload : List Byte}
    (h : p.payload = some (header, payload))
    (hreg : e.audioChannelRegistered (normalizedAudioChannel header.channel) = true) :
    e.audioArrivals (normalizedAudioChannel header.channel) (p :: ps) =
      (header.pts, payload) :: e.audioArrivals (normalizedAudioChannel header.channel) ps := by
  rw [audioArrivals, List.filterMap_cons_some]
  · rfl
  · rw [hp, hreg, h]
    exact (if_pos rfl).trans (if_pos rfl)

theorem not_isVideo_of_isAudio (h : p.isAudio = true) : ¬ p.isVideo = true := by
  intro hv
  rw [PesPacket.isAudio, p.not_isAudio_of_isVideo hv] at h
  cases h

theorem future_queueVideo (hs : e.Sound) (hp : p.isVideo = true) {header : ParsedPes} {payload : List Byte}
    (h : p.payload = some (header, payload)) :
    (e.queueVideo header p.bytes.length payload).future t ps = e.future t (p :: ps) := by
  have hnotaudio : ¬ p.isAudio = true := fun ha => not_isVideo_of_isAudio ha hp
  by_cases hraw : e.videoBytes.isEmpty = true ∧ findVideoAud payload 0 = none
  · rw [queueVideo, if_pos hraw]
    unfold future
    cases t with
    | video =>
      dsimp only
      rw [videoPayloads_cons_of_isVideo hp h, videoFuture, if_pos hraw, Track.payloads_append, List.append_assoc]
      rfl
    | audio c =>
      dsimp only
      rw [Track.payloads_append, audioArrivals_cons_of_none (Or.inl hnotaudio)]
      congr 1
      exact List.append_nil _
  · obtain ⟨haud, heq⟩ := queueVideo_of_staged hs header p.bytes.length hraw
    rw [heq, future_extractVideo (hs.stagedVideo header.pts haud payload)]
    unfold future
    cases t with
    | video =>
      dsimp only
      rw [videoPayloads_cons_of_isVideo hp h, videoFuture, if_neg hraw]
      rfl
    | audio c =>
      dsimp only
      rw [audioArrivals_cons_of_none (Or.inl hnotaudio)]
      rfl

theorem future_queueAudio (hp : p.isAudio = true) {header : ParsedPes} {payload : List Byte}
    (h : p.payload = some (header, payload)) :
    (e.queueAudio (normalizedAudioChannel header.channel) header.pts payload).future t ps =
      e.future t (p :: ps) := by
  have hvideo : videoPayloads (p :: ps) = videoPayloads ps :=
    videoPayloads_cons_of_none (Or.inl (not_isVideo_of_isAudio hp))
  rw [queueAudio]
  split
  · next hreg =>
    rw [Bool.not_eq_true'] at hreg
    unfold future
    cases t with
    | video => rw [hvideo]
    | audio c =>
      dsimp only
      rw [audioArrivals_cons_of_none]
      by_cases hc : normalizedAudioChannel header.channel = c
      · exact Or.inr (Or.inl (hc ▸ hreg))
      · refine Or.inr (Or.inr fun header' payload' h' => ?_)
        obtain ⟨rfl, rfl⟩ := Prod.mk.inj (Option.some.inj (h.symm.trans h'))
        exact hc
  · next hreg =>
    rw [Bool.not_eq_true', Bool.not_eq_false] at hreg
    rw [future_extractAudio (normalizedAudioChannel_idem _)]
    unfold future
    cases t with
    | video =>
      rw [hvideo]
      rfl
    | audio c =>
      dsimp only
      by_cases hc : normalizedAudioChannel header.channel = c
      · subst hc
        rw [audioArrivals_cons_of_isAudio hp h hreg, stageAudio_audioStaging, AudioStaging.add,
          List.map_cons, List.flatten_cons, List.append_assoc]
        rfl
      · rw [audioArrivals_cons_of_none, stageAudio_audioStaging_of_ne (Ne.symm hc)]
        · rfl
        · refine Or.inr (Or.inr fun header' payload' h' => ?_)
          obtain ⟨rfl, rfl⟩ := Prod.mk.inj (Option.some.inj (h.symm.trans h'))
          exact hc

/-- A packet that is queued is no longer to come. -/
theorem future_queuePacket (hs : e.Sound) (h : e.queuePacket p = some e') :
    e'.future t ps = e.future t (p :: ps) := by
  cases (queuePacket_eq_some h).2 with
  | nothing hnone =>
    unfold future
    cases t with
    | video => rw [videoPayloads_cons_of_none (hnone.symm.imp And.left id)]
    | audio c =>
      dsimp only
      rw [audioArrivals_cons_of_none]
      rcases hnone with hnone | ⟨-, ha⟩
      · refine Or.inr (Or.inr fun header payload h => ?_)
        rw [hnone] at h
        cases h
      · exact Or.inl ha
  | video hp hpay => exact future_queueVideo hs hp hpay
  | audio hp hpay => exact future_queueAudio hp hpay

/-! ### Waiting packets

Where no stream takes the video units, the video queue fills up for good, and with it the packets stop that
come after the first video packet that waits.
-/

/-- The packet waits for ever, when those of `done` are queued before it. -/
def Waits (e : MediaEngine) (done : List PesPacket) (p : PesPacket) : Prop :=
  e.videoRegistered = false ∧ p.isVideo = true ∧
    maximumAccessUnitsPerKind ≤ (e.future .video done).length

instance (e : MediaEngine) (done : List PesPacket) (p : PesPacket) : Decidable (e.Waits done p) :=
  inferInstanceAs (Decidable (_ ∧ _ ∧ _))

/-- The packets that are queued in the end. -/
def admitted (e : MediaEngine) (done : List PesPacket) : List PesPacket → List PesPacket
  | [] => []
  | p :: ps => if e.Waits done p then [] else p :: e.admitted (done ++ [p]) ps

theorem admitted_congr {done done' : List PesPacket} (hreg : e'.videoRegistered = e.videoRegistered)
    (h : ∀ ps, e'.future .video (done' ++ ps) = e.future .video (done ++ ps)) (ps : List PesPacket) :
    e'.admitted done' ps = e.admitted done ps := by
  induction ps generalizing done done' with
  | nil => rfl
  | cons p ps ih =>
    have hwaits : e'.Waits done' p ↔ e.Waits done p := by
      have := h []
      rw [List.append_nil, List.append_nil] at this
      rw [Waits, Waits, hreg, this]
    have hrest : e'.admitted (done' ++ [p]) ps = e.admitted (done ++ [p]) ps := by
      refine ih fun qs => ?_
      rw [List.append_assoc, List.append_assoc]
      exact h _
    rw [admitted, admitted, hrest]
    simp only [hwaits]

theorem admitted_of_registered (h : e.videoRegistered = true) (done ps : List PesPacket) :
    e.admitted done ps = ps := by
  induction ps generalizing done with
  | nil => rfl
  | cons p ps ih =>
    rw [admitted, if_neg, ih]
    intro hw
    exact Bool.false_ne_true (hw.1.symm.trans h)

theorem videoRegistered_congr (h : e'.core = e.core) : e'.videoRegistered = e.videoRegistered := by
  have hstreams : e'.streams = e.streams := congrArg (·.2.2.2) h
  rw [videoRegistered, videoRegistered, hstreams]

theorem unitCount_video : e.unitCount .video = (Track.video.payloads e.units).length := by
  rw [Track.payloads, List.length_map, Track.units, List.length_map, ← List.countP_eq_length_filter]
  rfl

/-- Only a full queue of units that nobody takes lets a packet wait for ever. -/
theorem not_waits (hsettled : e.Settled) (h : e.queuePacket p = some e') : ¬ e.Waits [] p := by
  rintro ⟨-, hv, hfull⟩
  have hroom := (queuePacket_eq_some h).1 hv
  have hnone := units_of_none (F := videoUnits) (hsettled.video hroom)
  refine Nat.not_lt.2 hfull ?_
  rw [future, videoPayloads, List.filterMap_nil, videoFuture, hnone, List.append_nil, ← unitCount_video]
  exact hroom

theorem admitted_queuePacket (hs : e.Sound) (hsettled : e.Settled) (h : e.queuePacket p = some e')
    (ps : List PesPacket) : e.admitted [] (p :: ps) = p :: e'.admitted [] ps := by
  have hrest : e'.admitted [] ps = e.admitted [p] ps :=
    admitted_congr (videoRegistered_congr (queuePacket_eq_some h).2.core) (fun _ => future_queuePacket hs h) ps
  rw [admitted, if_neg (not_waits hsettled h), hrest]
  rfl

variable {order : HashOrder} {extra bytes : List Byte}

theorem admitted_extractStaged (hs : e.Sound) (ps : List PesPacket) :
    (e.extractStaged order).admitted [] ps = e.admitted [] ps :=
  admitted_congr (videoRegistered_congr (core_extractStaged hs)) (fun _ => future_extractStaged hs) ps

theorem admitted_setEncoded (e : MediaEngine) (encoded : List Byte) (encodedOffset : Nat)
    (ps : List PesPacket) : { e with encoded, encodedOffset }.admitted [] ps = e.admitted [] ps := by
  refine admitted_congr ?_ (fun qs => ?_) ps
  · rfl
  · rfl

theorem Sound.demux (hs : e.Sound) : (demux order e).Sound := by
  have hspec := demux_spec order hs
  obtain ⟨encoded, encodedOffset, hle, heq⟩ := hspec.eq
  rw [heq]
  exact { hspec.sound with offset := hle }

theorem demux_settled (hs : e.Sound) : (demux order e).Settled := by
  have hspec := demux_spec order hs
  obtain ⟨encoded, encodedOffset, -, heq⟩ := hspec.eq
  rw [heq]
  exact ⟨hspec.settled.video, hspec.settled.audio⟩

theorem streams_demux (hs : e.Sound) : (demux order e).streams = e.streams := by
  have hspec := demux_spec order hs
  obtain ⟨encoded, encodedOffset, -, heq⟩ := hspec.eq
  rw [heq]
  exact congrArg (·.2.2.2) hspec.core

/-! ### The calls -/

theorem Sound.setEncoded (hs : e.Sound) {encoded : List Byte} {encodedOffset : Nat}
    (hle : encodedOffset ≤ encoded.length) : { e with encoded, encodedOffset }.Sound :=
  { hs with offset := hle }

/-- The bytes join those that are not cut yet. -/
theorem pushEncoded_eq (hs : e.Sound) (bytes : List Byte) : ∃ encoded encodedOffset,
    encoded.drop encodedOffset = e.active ++ bytes ∧ encodedOffset ≤ encoded.length ∧
      e.pushEncoded bytes = { e with encoded, encodedOffset } := by
  rw [pushEncoded]
  split
  · exact ⟨e.active ++ bytes, 0, rfl, Nat.zero_le _, rfl⟩
  · refine ⟨e.encoded ++ bytes, e.encodedOffset, ?_, ?_, rfl⟩
    · exact List.drop_append_of_le_length hs.offset
    · rw [List.length_append]
      exact Nat.le_add_right_of_le hs.offset

theorem Sound.pushEncoded (hs : e.Sound) (bytes : List Byte) : (e.pushEncoded bytes).Sound := by
  obtain ⟨encoded, encodedOffset, -, hle, heq⟩ := pushEncoded_eq hs bytes
  rw [heq]
  exact hs.setEncoded hle

theorem find_eraseP {l : List (StreamKind × MediaAccessUnit)} {q : StreamKind × MediaAccessUnit → Bool}
    {item : StreamKind × MediaAccessUnit} (h : l.find? q = some item) (r : StreamKind × MediaAccessUnit → Bool) :
    (r item = false → (l.eraseP q).filter r = l.filter r) ∧
      ((∀ x, r x = q x) → l.filter r = item :: (l.eraseP q).filter r) := by
  obtain ⟨hitem, before, after, rfl, hbefore⟩ := List.find?_eq_some_iff_append.1 h
  have herase : (before ++ item :: after).eraseP q = before ++ after := by
    rw [List.eraseP_append_right]
    · rw [List.eraseP_cons_of_pos hitem]
    · intro x hx hq
      have := hbefore x hx
      rw [hq] at this
      cases this
  rw [herase, List.filter_append, List.filter_append]
  constructor
  · intro hr
    rw [List.filter_cons_of_neg (by rw [hr]; exact Bool.false_ne_true)]
  · intro hr
    have hnone : before.filter r = [] := by
      rw [List.filter_eq_nil_iff]
      intro x hx hrx
      have := hbefore x hx
      rw [hr] at hrx
      rw [hrx] at this
      cases this
    rw [hnone, List.filter_cons_of_pos (by rw [hr, hitem])]
    rfl

/-- The stream takes the first unit of the track that carries it. -/
theorem takes_eq_carries {stream : MediaStream} {item : StreamKind × MediaAccessUnit}
    (h : stream.takes item = true) (hcarries : t.carries item = true) (x : StreamKind × MediaAccessUnit) :
    t.carries x = stream.takes x := by
  obtain ⟨kind, channel⟩ := stream
  rw [MediaStream.takes, Bool.and_eq_true, beq_iff_eq] at h
  obtain ⟨hkind, hchannel⟩ := h
  dsimp only at hkind hchannel
  cases t with
  | video =>
    rw [Track.carries, beq_iff_eq] at hcarries
    rw [Track.carries, MediaStream.takes, ← hkind, hcarries]
    cases x.1 <;> rfl
  | audio c =>
    rw [Track.carries, Bool.and_eq_true, beq_iff_eq, beq_iff_eq] at hcarries
    rw [hcarries.1, hcarries.2, bne_self_eq_false, Bool.false_or, beq_iff_eq] at hchannel
    rw [Track.carries, MediaStream.takes, ← hkind, hcarries.1, ← hchannel]
    cases x.1 with
    | audio =>
      simp only [beq_self_eq_true, Bool.true_and, bne_self_eq_false, Bool.false_or]
      rw [Bool.eq_iff_iff, beq_iff_eq, beq_iff_eq]
      constructor
      · intro h
        rw [h]
      · intro h
        have := congrArg BitVec.toNat h
        rw [BitVec.toNat_setWidth, BitVec.toNat_setWidth] at this
        have h1 := x.2.channel.isLt
        have h2 := c.isLt
        exact BitVec.eq_of_toNat_eq (by omega)
    | video => rfl
    | other => rfl

theorem units_takeUnit (e : MediaEngine) (stream : MediaStream) (unit : MediaAccessUnit) :
    ∃ pendingVideo pendingAudio lastVideoPts lastAudioPts, e.takeUnit stream unit =
      { e with units := e.units.eraseP stream.takes, pendingVideo, pendingAudio, lastVideoPts, lastAudioPts } := by
  unfold takeUnit
  dsimp only
  split
  · exact ⟨_, _, _, _, rfl⟩
  · exact ⟨_, _, _, _, rfl⟩
  · exact ⟨_, _, _, _, rfl⟩

/-- A unit that is taken is the first one of its track. -/
theorem units_eraseP {stream : MediaStream} {item : StreamKind × MediaAccessUnit}
    (hitem : e.units.find? stream.takes = some item) (t : Track) :
    t.units e.units = t.units [item] ++ t.units (e.units.eraseP stream.takes) := by
  obtain ⟨hother, hsame⟩ := find_eraseP hitem t.carries
  rw [Track.units, Track.units, Track.units]
  cases hcarries : t.carries item with
  | false =>
    rw [← hother hcarries, List.filter_cons_of_neg (by rw [hcarries]; exact Bool.false_ne_true)]
    rfl
  | true =>
    rw [hsame (takes_eq_carries (List.find?_some hitem) hcarries), List.filter_cons_of_pos hcarries]
    rfl

theorem future_takeUnit {stream : MediaStream} {item : StreamKind × MediaAccessUnit}
    (hitem : e.units.find? stream.takes = some item) :
    e.future t ps = t.payloads [item] ++ (e.takeUnit stream item.2).future t ps := by
  obtain ⟨_, _, _, _, heq⟩ := units_takeUnit e stream item.2
  rw [heq]
  unfold future
  rw [Track.payloads, units_eraseP hitem t, List.map_append, List.append_assoc]
  rfl

theorem Sound.takeUnit (hs : e.Sound) (stream : MediaStream) (unit : MediaAccessUnit) :
    (e.takeUnit stream unit).Sound := by
  obtain ⟨_, _, _, _, heq⟩ := units_takeUnit e stream unit
  rw [heq]
  exact { hs with owned := fun item hitem => hs.owned item (List.mem_of_mem_eraseP hitem) }

theorem core_takeUnit (e : MediaEngine) (stream : MediaStream) (unit : MediaAccessUnit) :
    (e.takeUnit stream unit).core = e.core := by
  obtain ⟨_, _, _, _, heq⟩ := units_takeUnit e stream unit
  rw [heq]
  rfl

theorem videoRegistered_of_findStream {uid : Word} {stream : MediaStream} (h : e.findStream uid = some stream)
    (hkind : stream.kind = .video) : e.videoRegistered = true := by
  obtain ⟨item, hitem, rfl⟩ := Option.map_eq_some_iff.1 h
  refine List.any_eq_true.2 ⟨item, List.mem_of_find?_eq_some hitem, ?_⟩
  rw [hkind]
  rfl

theorem admitted_takeUnit {uid : Word} {stream : MediaStream} {item : StreamKind × MediaAccessUnit}
    (hstream : e.findStream uid = some stream) (hitem : e.units.find? stream.takes = some item)
    (ps : List PesPacket) : (e.takeUnit stream item.2).admitted [] ps = e.admitted [] ps := by
  have hregistered := videoRegistered_congr (core_takeUnit e stream item.2)
  by_cases hreg : e.videoRegistered = true
  · rw [admitted_of_registered hreg, admitted_of_registered (hregistered.trans hreg)]
  · refine admitted_congr hregistered (fun qs => ?_) ps
    rw [future_takeUnit hitem]
    -- with no video stream the unit is none of the video
    have hkind : ¬ item.1 = .video := by
      intro hvideo
      have htakes := List.find?_some hitem
      rw [MediaStream.takes, Bool.and_eq_true, beq_iff_eq] at htakes
      exact hreg (videoRegistered_of_findStream hstream (htakes.1.symm.trans hvideo))
    have hnone : Track.video.payloads [item] = [] := by
      rw [Track.payloads, Track.units, List.filter_cons_of_neg]
      · rfl
      · rwa [Track.carries, beq_iff_eq]
    rw [hnone]
    rfl

end MediaEngine

/-! ### Forecasts -/

open MediaEngine

/-- An account of what is to be delivered, from which a unit that is taken is ticked off. A packet may be
reckoned with before it is queued as long as it is queued in a state that meets the guard. -/
structure Forecast (β : Type) where
  of : MediaEngine → List PesPacket → List β
  seen : StreamKind × MediaAccessUnit → List β
  guard : MediaEngine → PesPacket → Prop
  extract : ∀ {order e ps}, e.Sound → of (e.extractStaged order) ps = of e ps
  queue : ∀ {e e' p ps}, e.Sound → e.Settled → guard e p → e.queuePacket p = some e' → of e' ps = of e (p :: ps)
  take : ∀ {e stream item ps}, e.units.find? stream.takes = some item →
    of e ps = seen item ++ of (e.takeUnit stream item.2) ps
  encoded : ∀ {e encoded encodedOffset ps}, of { e with encoded, encodedOffset } ps = of e ps

namespace Forecast
variable {β : Type} (F : Forecast β) {e e' : MediaEngine} {order : HashOrder} {extra bytes : List Byte}

/-- The payloads of a track. -/
def payloads (t : Track) : Forecast (List Byte) where
  of e ps := e.future t ps
  seen item := t.payloads [item]
  guard _ _ := True
  extract := future_extractStaged
  queue hs _ _ h := future_queuePacket hs h
  take := future_takeUnit
  encoded := rfl

/-- The account when the bytes `extra` follow. -/
def expected (e : MediaEngine) (extra : List Byte) : List β :=
  F.of e (e.admitted [] (pesPackets.units (e.active ++ extra)))

/-- Every packet that demuxing queues meets the guard. -/
def Admits (order : HashOrder) (e : MediaEngine) : Prop :=
  Guarded queuePacket F.guard (e.extractStaged order)
    (queuedPackets e.active.length (e.extractStaged order) e.active)

theorem of_run {qs : List PesPacket} (hs : e.Sound) (hsettled : e.Settled)
    (hguard : Guarded queuePacket F.guard e qs) (h : run queuePacket e qs = some e') (ps : List PesPacket) :
    F.of e' (e'.admitted [] ps) = F.of e (e.admitted [] (qs ++ ps)) := by
  induction qs generalizing e with
  | nil =>
    obtain rfl := Option.some.inj h
    rfl
  | cons q qs ih =>
    obtain ⟨e₁, hq, hrun⟩ := run_cons_eq_some.1 h
    have hqueues := (queuePacket_eq_some hq).2
    rw [ih (hs.queues hqueues) (hsettled.queues hs hqueues) (hguard.2 e₁ hq) hrun,
      F.queue hs hsettled hguard.1 hq, List.cons_append, admitted_queuePacket hs hsettled hq]

theorem expected_demux (hs : e.Sound) (hguard : F.Admits order e) :
    F.expected (e.demux order) extra = F.expected e extra := by
  have hspec := demux_spec order hs
  obtain ⟨encoded, encodedOffset, -, heq⟩ := hspec.eq
  have hfinal := F.of_run hs.extractStaged (extractStaged_settled hs) hguard hspec.packets.queued
    (pesPackets.units ((demux order e).active ++ extra))
  rw [← hspec.packets.gives extra, F.extract hs, admitted_extractStaged hs] at hfinal
  rw [expected, expected, ← hfinal]
  generalize pesPackets.units ((demux order e).active ++ extra) = qs
  rw [heq, admitted_setEncoded, F.encoded]

theorem expected_pushEncoded (hs : e.Sound) :
    F.expected (e.pushEncoded bytes) extra = F.expected e (bytes ++ extra) := by
  obtain ⟨encoded, encodedOffset, hdrop, -, heq⟩ := pushEncoded_eq hs bytes
  rw [heq, expected, expected, admitted_setEncoded, F.encoded, active, hdrop, List.append_assoc]

theorem expected_takeUnit {uid : Word} {stream : MediaStream} {item : StreamKind × MediaAccessUnit}
    (hstream : e.findStream uid = some stream) (hitem : e.units.find? stream.takes = some item) :
    F.expected e extra = F.seen item ++ F.expected (e.takeUnit stream item.2) extra := by
  have hactive : (e.takeUnit stream item.2).active = e.active := by
    obtain ⟨_, _, _, _, heq⟩ := units_takeUnit e stream item.2
    rw [heq]
    rfl
  rw [expected, expected, hactive, admitted_takeUnit hstream hitem]
  exact F.take hitem

end Forecast

end Psprism
