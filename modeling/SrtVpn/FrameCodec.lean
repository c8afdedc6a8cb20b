import SrtVpn.Checked
import SrtVpn.SeqNumbers

namespace SrtVpn.FrameCodec

open BigEndian Checked Wire Encoder SeqNumbers

/-- `decode_frame` with every read of the message and every number checked: the outer `none` is a
read out of bounds or an overflow, the inner one a frame that is refused. -/
def decodeFrameChecked (ts : Bytes) : Option (Option (Frame Bytes)) := do
  if ts.length < frameHeaderLen then return none
  if (← slice ts 0 4) ≠ tunnelMagic then return none
  if (← ts[4]?) ≠ protocolVersion then return none
  match FrameType.fromByte (← ts[5]?) with
  | none => return none
  | some ftype =>
      let sessionId := ofBytes [← ts[6]?, ← ts[7]?]
      let payloadLen := ofBytes [← ts[8]?, ← ts[9]?]
      if payloadLen > (← sub ts.length frameHeaderLen) then return none
      let seq := ofBytes [← ts[10]?, ← ts[11]?, ← ts[12]?, ← ts[13]?]
      let flags ← ts[14]?
      let payload ← slice ts frameHeaderLen (← add 64 frameHeaderLen payloadLen)
      return some ⟨ftype, UInt16.ofNat sessionId, UInt32.ofNat seq, flags, payload⟩

theorem length_frameBytes (f : Frame Bytes) :
    (frameBytes f).length = frameHeaderLen + f.payload.length := by
  simp [frameBytes, tunnelMagic, frameHeaderLen]
  omega

theorem exists_header {msg : Bytes} (h : frameHeaderLen ≤ msg.length) :
    ∃ m0 m1 m2 m3 version t s0 s1 l0 l1 q0 q1 q2 q3 flags rest, msg =
      m0 :: m1 :: m2 :: m3 :: version :: t :: s0 :: s1 :: l0 :: l1 :: q0 :: q1 :: q2 :: q3 ::
        flags :: rest := by
  have hcons (n : Nat) (l : Bytes) (hl : n + 1 ≤ l.length) : ∃ b rest,
      l = b :: rest ∧ n ≤ rest.length := by
    cases l with
    | nil => exact absurd hl (Nat.not_succ_le_zero n)
    | cons b rest => exact ⟨b, rest, rfl, Nat.le_of_succ_le_succ hl⟩
  obtain ⟨m0, r0, rfl, h0⟩ := hcons 14 msg h
  obtain ⟨m1, r1, rfl, h1⟩ := hcons 13 r0 h0
  obtain ⟨m2, r2, rfl, h2⟩ := hcons 12 r1 h1
  obtain ⟨m3, r3, rfl, h3⟩ := hcons 11 r2 h2
  obtain ⟨version, r4, rfl, h4⟩ := hcons 10 r3 h3
  obtain ⟨t, r5, rfl, h5⟩ := hcons 9 r4 h4
  obtain ⟨s0, r6, rfl, h6⟩ := hcons 8 r5 h5
  obtain ⟨s1, r7, rfl, h7⟩ := hcons 7 r6 h6
  obtain ⟨l0, r8, rfl, h8⟩ := hcons 6 r7 h7
  obtain ⟨l1, r9, rfl, h9⟩ := hcons 5 r8 h8
  obtain ⟨q0, r10, rfl, h10⟩ := hcons 4 r9 h9
  obtain ⟨q1, r11, rfl, h11⟩ := hcons 3 r10 h10
  obtain ⟨q2, r12, rfl, h12⟩ := hcons 2 r11 h11
  obtain ⟨q3, r13, rfl, h13⟩ := hcons 1 r12 h12
  obtain ⟨flags, rest, rfl, -⟩ := hcons 0 r13 h13
  exact ⟨_, _, _, _, _, _, _, _, _, _, _, _, _, _, _, _, rfl⟩

theorem decodeFrame_short {msg : Bytes} (h : msg.length < frameHeaderLen) :
    decodeFrame msg = none := by
  unfold decodeFrame
  split
  next => exact absurd h (by simp [frameHeaderLen])
  next => rfl

/-- No read of the decoder leaves the message, no number its width, and the checked reads find what
the pattern finds. -/
theorem decodeFrameChecked_eq (ts : Bytes) : decodeFrameChecked ts = some (decodeFrame ts) := by
  by_cases hlen : ts.length < frameHeaderLen
  · rw [decodeFrameChecked, if_pos hlen, decodeFrame_short hlen]
    rfl
  · obtain ⟨m0, m1, m2, m3, version, t, s0, s1, l0, l1, q0, q1, q2, q3, flags, rest, hts⟩ :=
      exists_header (Nat.not_lt.mp hlen)
    have hrest : sub ts.length frameHeaderLen = some rest.length := by
      rw [sub_eq (Nat.not_lt.mp hlen), hts]
      simp [frameHeaderLen]
    have hmagic : slice ts 0 4 = some [m0, m1, m2, m3] := by
      rw [slice_eq (by decide) (by simp [hts])]
      simp [hts]
    have hfin : add 64 frameHeaderLen (ofBytes [l0, l1]) =
        some (frameHeaderLen + ofBytes [l0, l1]) := by
      have hlt : ofBytes [l0, l1] < 256 ^ 2 := ofBytes_lt [l0, l1]
      apply add_eq
      rw [frameHeaderLen]
      omega
    rw [decodeFrameChecked, if_neg hlen, hmagic, hrest, hts, decodeFrame]
    simp only [Option.bind_eq_bind, Option.bind_some, List.getElem?_cons_zero,
      List.getElem?_cons_succ, pure]
    by_cases hm : [m0, m1, m2, m3] = tunnelMagic
    · rw [if_neg (not_not.mpr hm), if_neg (not_not.mpr hm)]
      by_cases hv : version = protocolVersion
      · rw [if_neg (not_not.mpr hv), if_neg (not_not.mpr hv)]
        cases ht : FrameType.fromByte t with
        | none => rfl
        | some ftype =>
            simp only [Option.bind_some]
            by_cases hl : ofBytes [l0, l1] > rest.length
            · rw [if_pos hl, if_pos hl]
            · have hin : frameHeaderLen + ofBytes [l0, l1] ≤ ts.length := by
                rw [hts, frameHeaderLen]
                simp only [List.length_cons]
                omega
              have hslice : slice ts frameHeaderLen (frameHeaderLen + ofBytes [l0, l1]) = _ :=
                slice_eq (Nat.le_add_right frameHeaderLen _) hin
              rw [if_neg hl, if_neg hl, ← hts, hfin, Option.bind_some, hslice, hts,
                Nat.add_sub_cancel_left]
              rfl
      · rw [if_pos hv, if_pos hv]
    · rw [if_pos hm, if_pos hm]

theorem toByte_of_arm {b c : UInt8} {s t : FrameType} {others : Option FrameType}
    (h : (if b = c then some s else others) = some t) (hc : s.toByte = c)
    (hothers : others = some t → t.toByte = b) : t.toByte = b := by
  split at h
  next hb => rw [← Option.some.inj h, hc, hb]
  next => exact hothers h

theorem toByte_of_fromByte {b : UInt8} {t : FrameType} (h : FrameType.fromByte b = some t) :
    t.toByte = b := by
  rw [FrameType.fromByte] at h
  iterate 11
    apply toByte_of_arm h rfl
    clear h
    intro h
  simp at h

theorem frameBytes_of_decodeFrame {msg : Bytes} {f : Frame Bytes} (h : decodeFrame msg = some f) :
    msg.take (frameHeaderLen + f.payload.length) = frameBytes f := by
  have hlen : frameHeaderLen ≤ msg.length := by
    apply Nat.not_lt.mp
    intro hshort
    rw [decodeFrame_short hshort] at h
    simp at h
  obtain ⟨m0, m1, m2, m3, version, t, s0, s1, l0, l1, q0, q1, q2, q3, flags, rest, rfl⟩ :=
    exists_header hlen
  rw [decodeFrame] at h
  split at h
  · simp at h
  next hm =>
    split at h
    · simp at h
    next hv =>
      cases ht : FrameType.fromByte t with
      | none => simp [ht] at h
      | some ftype =>
          rw [ht, Option.bind_eq_bind, Option.bind_some] at h
          split at h
          · simp at h
          next hl =>
            obtain rfl := Option.some.inj h
            have hpay : (rest.take (ofBytes [l0, l1])).length = ofBytes [l0, l1] := by
              simp only [List.length_take]
              omega
            have hs := toBytes_ofBytes [s0, s1]
            have hl' := toBytes_ofBytes [l0, l1]
            have hq := toBytes_ofBytes [q0, q1, q2, q3]
            have hsn : (UInt16.ofNat (ofBytes [s0, s1])).toNat = ofBytes [s0, s1] := by
              have hlt := ofBytes_lt [s0, s1]
              rw [UInt16.toNat_ofNat', Nat.mod_eq_of_lt (by simpa using hlt)]
            have hqn : (UInt32.ofNat (ofBytes [q0, q1, q2, q3])).toNat =
                ofBytes [q0, q1, q2, q3] := by
              have hlt := ofBytes_lt [q0, q1, q2, q3]
              rw [UInt32.toNat_ofNat', Nat.mod_eq_of_lt (by simpa using hlt)]
            simp only [List.length_cons, List.length_nil, Nat.zero_add, Nat.reduceAdd] at hs hl' hq
            simp only [frameBytes, hpay, hsn, hqn, hs, hl', hq, toByte_of_fromByte ht,
              ← not_ne_iff.mp hm, ← not_ne_iff.mp hv]
            rw [Nat.add_comm]
            simp [frameHeaderLen]

theorem epoch_of_control (enc : MuxEncoder) (c : Call Bytes)
    (hu : usesSessionOrder c.ftype = false) : (stamp enc c).1.epoch = 0 := by
  have hmod := Nat.mod_lt enc.seq.toNat (show 0 < 2 ^ 24 by decide)
  have hseq : (stamp enc c).1.seq = enc.seq &&& seqMask := by
    simp [stamp, nextSeqField, hu]
  apply UInt8.toNat_inj.mp
  rw [Frame.epoch, hseq, UInt32.toNat_toUInt8, UInt32.toNat_shiftRight, UInt32.toNat_and,
    toNat_seqMask, Nat.and_two_pow_sub_one_eq_mod, show epochBits.toNat % 32 = 24 from rfl,
    Nat.shiftRight_eq_div_pow,
    Nat.div_eq_of_lt hmod]
  rfl

theorem epoch_ne_zero_iff (enc : MuxEncoder) (c : Call Bytes) :
    (stamp enc c).1.epoch ≠ 0 ↔ usesSessionOrder c.ftype = true := by
  cases hu : usesSessionOrder c.ftype with
  | false => simp [epoch_of_control enc c hu]
  | true =>
      have hlt := Nat.lt_trans (generation_seq_lt enc c.ftype c.sessionId)
        (show seqMask.toNat < 2 ^ 24 by decide)
      rw [stamp_of_session enc c hu, epoch_numbered _ _ _ hlt]
      exact iff_of_true (generation_epoch_ne_zero enc c.ftype c.sessionId) rfl

theorem headerFlags_eq (enc : MuxEncoder) (flags : UInt8) : headerFlags enc flags =
    flags ||| (if enc.reliable then flagReliable else 0) |||
      (if enc.dirAcceptor then flagDirAccept else 0) := by
  rw [headerFlags]
  cases enc.reliable <;> cases enc.dirAcceptor <;> simp

def srtPayloadMax : Nat := 1316

/-- The wire format in both directions: from any state of the encoder to the frame the decoder
finds, and from any bytes the decoder accepts back to the serialisation of what it found. -/
theorem frame_codec_round_trip :
    (∀ (enc : MuxEncoder) (c : Call Bytes), c.payload.length ≤ frameDataMax →
      ∃ msg enc', encodeFrame enc c = some (msg, enc') ∧ msg.length ≤ srtPayloadMax ∧
        decodeFrame msg = some ⟨c.ftype, c.sessionId, (nextSeqField enc c.ftype c.sessionId).1,
          c.flags ||| (if enc.reliable then flagReliable else 0) |||
            (if enc.dirAcceptor then flagDirAccept else 0),
          c.payload⟩ ∧
        (((nextSeqField enc c.ftype c.sessionId).1 >>> epochBits).toUInt8 ≠ 0 ↔
          usesSessionOrder c.ftype = true)) ∧
    (∀ msg : Bytes, decodeFrameChecked msg = some (decodeFrame msg) ∧
      ∀ f, decodeFrame msg = some f →
        msg.take (frameHeaderLen + f.payload.length) = frameBytes f) := by
  constructor
  · intro enc c hc
    refine ⟨frameBytes (stamp enc c).1, (stamp enc c).2, if_pos hc, ?_, ?_, epoch_ne_zero_iff enc c⟩
    · have hpay : (stamp enc c).1.payload = c.payload := rfl
      rw [length_frameBytes, hpay]
      exact Nat.add_le_add_left hc frameHeaderLen
    · rw [← headerFlags_eq]
      exact decodeFrame_frameBytes (stamp enc c).1 (Nat.lt_of_le_of_lt hc (by decide))
  · intro msg
    exact ⟨decodeFrameChecked_eq msg, fun f h => frameBytes_of_decodeFrame h⟩

theorem frame_codec_round_trip_open :
    ∃ msg enc', encodeFrame (.new true) ⟨.open, 7, 0, [0, 1, 97, 0, 80]⟩ = some (msg, enc') ∧
      decodeFrame msg = some ⟨.open, 7, 0x01000000, flagReliable, [0, 1, 97, 0, 80]⟩ := by
  obtain ⟨msg, enc', henc, -, hdec, -⟩ :=
    frame_codec_round_trip.1 (.new true) ⟨.open, 7, 0, [0, 1, 97, 0, 80]⟩ (by decide)
  exact ⟨msg, enc', henc, hdec⟩

end SrtVpn.FrameCodec
