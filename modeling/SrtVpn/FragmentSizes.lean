import SrtVpn.Checked
import SrtVpn.Exhaustion
import SrtVpn.UdpRelay

namespace SrtVpn.FragmentSizes

open BigEndian Chunks Checked Wire Encoder Session UdpFrames UdpRelay Exhaustion

/-- One fragment, with no value where a number leaves its width or loses bits, or where the piece
lies outside of the payload. -/
def fragmentChecked (addrHeader payload : Bytes) (perPart totalParts idx : Nat) : Option Bytes := do
  let start ← mul 64 idx perPart
  let fin ← add 64 start perPart
  let len ← narrow 16 payload.length
  let idx ← narrow 8 idx
  let total ← narrow 8 totalParts
  let piece ← slice payload start (min fin payload.length)
  return addrHeader ++ [udpFragMark] ++ toBytes 2 len ++
    [UInt8.ofNat idx, UInt8.ofNat total] ++ piece

/-- `split_udp_frames` with no value where it would panic, debug assertions included. -/
def splitChecked (addrHeader payload : Bytes) : Option (List Bytes) := do
  let overhead ← add 64 addrHeader.length 5
  let whole ← add 64 payload.length overhead
  if whole ≤ frameDataMax then return [addrHeader ++ payload]
  else do
    let room ← sub frameDataMax addrHeader.length
    let perPart ← sub room 5
    let totalLen ← narrow 16 payload.length
    if perPart = 0 then none
    else do
      let totalParts ← narrow 8 (divCeil totalLen perPart)
      (List.range totalParts).mapM (fragmentChecked addrHeader payload perPart totalParts)

/-- The frames carry the payload: whole behind its address header, or in pieces one after the
other. -/
def Carries (addrHeader payload : Bytes) (frames : List Bytes) : Prop :=
  frames = [addrHeader ++ payload] ∨
    ∃ pieces : List Bytes, pieces.flatten = payload ∧
      frames = pieces.mapIdx fun i piece =>
        addrHeader ++ [udpFragMark] ++ toBytes 2 payload.length ++
          [UInt8.ofNat i, UInt8.ofNat pieces.length] ++ piece

section Split

variable {addrHeader payload : Bytes}

theorem fragmentChecked_eq (hheader : addrHeader.length ≤ 768) (hpayload : payload.length ≤ 65535)
    {idx : Nat} (hidx : idx < divCeil payload.length (perPart addrHeader)) :
    fragmentChecked addrHeader payload (perPart addrHeader)
      (divCeil payload.length (perPart addrHeader)) idx =
      some (fragment addrHeader payload (divCeil payload.length (perPart addrHeader)) idx) := by
  have hcount := count_le hheader hpayload
  have hstart := mul_lt_of_lt_divCeil hidx
  have hpart : perPart addrHeader ≤ 1301 := by
    rw [perPart, frameDataMax]
    omega
  have hpiece : (payload.drop (idx * perPart addrHeader)).take
      (min (idx * perPart addrHeader + perPart addrHeader) payload.length -
        idx * perPart addrHeader) =
        (payload.drop (idx * perPart addrHeader)).take (perPart addrHeader) := by
    rw [List.take_eq_take_iff, List.length_drop]
    omega
  have hmul : mul 64 idx (perPart addrHeader) = some (idx * perPart addrHeader) := mul_eq (by omega)
  have hfin : add 64 (idx * perPart addrHeader) (perPart addrHeader) =
      some (idx * perPart addrHeader + perPart addrHeader) :=
    add_eq (by omega)
  have hlen : narrow 16 payload.length = some payload.length := narrow_eq (by omega)
  have hindex : narrow 8 idx = some idx := narrow_eq (by omega)
  have htotal : narrow 8 (divCeil payload.length (perPart addrHeader)) =
      some (divCeil payload.length (perPart addrHeader)) :=
    narrow_eq (by omega)
  have hslice :=
    slice_eq (Nat.le_min.mpr ⟨Nat.le_add_right (idx * perPart addrHeader) (perPart addrHeader),
      Nat.le_of_lt hstart⟩)
    (Nat.min_le_right _ payload.length)
  simp only [fragmentChecked, hmul, hfin, hlen, hindex, htotal, hslice, hpiece, Option.bind_eq_bind,
    Option.bind_some]
  rfl

theorem splitChecked_eq (hheader : addrHeader.length ≤ 768) (hpayload : payload.length ≤ 65535) :
    splitChecked addrHeader payload = some (splitUdpFrames addrHeader payload) := by
  have hcount := count_le hheader hpayload
  have hpart := le_perPart hheader
  rw [splitChecked, add_eq (by omega)]
  simp only [Option.bind_eq_bind, Option.bind_some]
  rw [add_eq (by omega)]
  simp only [Option.bind_some]
  by_cases hsmall : payload.length + (addrHeader.length + 5) ≤ frameDataMax
  · rw [if_pos hsmall, splitUdpFrames, if_pos hsmall]
    rfl
  · have hmax : addrHeader.length ≤ frameDataMax := Nat.le_trans hheader (by decide)
    have hroom : 5 ≤ frameDataMax - addrHeader.length := by
      rw [frameDataMax]
      omega
    rw [if_neg hsmall, sub_eq hmax]
    simp only [Option.bind_some]
    rw [sub_eq hroom]
    simp only [Option.bind_some]
    rw [narrow_eq (by omega), ← perPart]
    simp only [Option.bind_some]
    rw [if_neg (by omega), narrow_eq (by omega)]
    simp only [Option.bind_some]
    rw [splitUdpFrames, if_neg hsmall]
    apply mapM_eq
    intro idx hidx
    exact fragmentChecked_eq hheader hpayload (List.mem_range.mp hidx)

theorem length_fragment_le (hheader : addrHeader.length ≤ 768) (total idx : Nat) :
    (fragment addrHeader payload total idx).length ≤ frameDataMax := by
  have htake := List.length_take_le (perPart addrHeader) (payload.drop (idx * perPart addrHeader))
  have hpart : perPart addrHeader + addrHeader.length + 5 = frameDataMax := by
    rw [perPart, frameDataMax]
    omega
  simp only [fragment, List.length_append, length_toBytes, List.length_cons, List.length_nil]
  omega

theorem length_splitUdpFrames (hheader : addrHeader.length ≤ 768)
    (hpayload : payload.length ≤ 65535) :
    1 ≤ (splitUdpFrames addrHeader payload).length ∧
    (splitUdpFrames addrHeader payload).length ≤ 255 := by
  rw [splitUdpFrames]
  split
  · exact ⟨Nat.le_refl _, by rw [List.length_singleton]; omega⟩
  next hlarge =>
    have hcount := count_le hheader hpayload
    have hmany := one_lt_count hheader (Nat.not_le.mp hlarge)
    rw [List.length_map, List.length_range]
    omega

theorem length_le_of_mem (hheader : addrHeader.length ≤ 768) {frame : Bytes}
    (h : frame ∈ splitUdpFrames addrHeader payload) : frame.length ≤ frameDataMax := by
  rw [splitUdpFrames] at h
  split at h
  next hsmall =>
    obtain rfl := List.mem_singleton.mp h
    rw [List.length_append]
    omega
  next =>
    obtain ⟨idx, -, rfl⟩ := List.mem_map.mp h
    exact length_fragment_le hheader _ idx

theorem carries_splitUdpFrames (hheader : addrHeader.length ≤ 768) :
    Carries addrHeader payload (splitUdpFrames addrHeader payload) := by
  rw [splitUdpFrames]
  split
  · exact Or.inl rfl
  next =>
    have hpart := le_perPart hheader
    refine Or.inr ⟨chunks (perPart addrHeader) payload, flatten_chunks (by omega) payload, ?_⟩
    have hcount : (chunks (perPart addrHeader) payload).length =
        divCeil payload.length (perPart addrHeader) := by
      rw [chunks, List.length_map, List.length_range]
    rw [hcount]
    apply List.ext_getElem?
    intro i
    rw [List.getElem?_mapIdx, chunks, List.getElem?_map, List.getElem?_map]
    by_cases hi : i < divCeil payload.length (perPart addrHeader)
    · rw [List.getElem?_range hi]
      rfl
    · rw [List.getElem?_eq_none (by rw [List.length_range]; omega)]
      rfl

theorem ne_nil_of_mem (hheader : addrHeader ≠ []) {frame : Bytes}
    (h : frame ∈ splitUdpFrames addrHeader payload) : frame ≠ [] := by
  rw [splitUdpFrames] at h
  split at h
  · obtain rfl := List.mem_singleton.mp h
    exact List.append_ne_nil_of_left_ne_nil hheader payload
  · obtain ⟨idx, -, rfl⟩ := List.mem_map.mp h
    simp [fragment]

end Split

section Send

variable {datagrams : Bool} {sid : UInt16} {frames : List Bytes}

theorem flatMap_sendUnreliable (h : ∀ frame ∈ frames, frame ≠ [] ∧ frame.length ≤ frameDataMax) :
    frames.flatMap (sendUnreliable datagrams sid) =
      frames.map fun frame => ⟨if datagrams then .datagram else .data, sid, 0, frame⟩ := by
  induction frames with
  | nil => rfl
  | cons frame frames ih =>
      obtain ⟨⟨hne, hle⟩, hframes⟩ := List.forall_mem_cons.mp h
      rw [List.flatMap_cons, List.map_cons, ih hframes, sendUnreliable, chunks_of_length_le hne hle]
      rfl

theorem payloads_stampAll {α : Type} (calls : List (Call α)) (enc : MuxEncoder) :
    (stampAll enc calls).1.map Frame.payload = calls.map Call.payload := by
  induction calls generalizing enc with
  | nil => rfl
  | cons c calls ih =>
      rw [stampAll_cons, List.map_cons, List.map_cons, ih]
      rfl

end Send

/-- Whatever is sent behind an address header of 3 to 768 bytes, its fragments fit: splitting it
does not panic, there are 1 to 255 frames of at most 1301 bytes which carry the payload, and each of
them makes one call of `encode_frame`, whose assertion holds. -/
theorem fragments_fit (addrHeader payload : Bytes)
    (hheader : 3 ≤ addrHeader.length ∧ addrHeader.length ≤ 768)
    (hpayload : payload.length ≤ 65535) :
    splitChecked addrHeader payload = some (splitUdpFrames addrHeader payload) ∧
      (1 ≤ (splitUdpFrames addrHeader payload).length ∧
        (splitUdpFrames addrHeader payload).length ≤ 255) ∧
      (∀ frame ∈ splitUdpFrames addrHeader payload, frame.length ≤ 1301) ∧
      Carries addrHeader payload (splitUdpFrames addrHeader payload) ∧
      ∀ datagrams sid enc,
        (splitUdpFrames addrHeader payload).flatMap (sendUnreliable datagrams sid) =
          (splitUdpFrames addrHeader payload).map
            (fun frame => ⟨if datagrams then .datagram else .data, sid, 0, frame⟩) ∧
        ∃ msgs enc', encodeAll enc
          ((splitUdpFrames addrHeader payload).flatMap (sendUnreliable datagrams sid)) =
            some (msgs, enc') ∧
          (msgs.filterMap decodeFrame).map Frame.payload = splitUdpFrames addrHeader payload := by
  refine ⟨splitChecked_eq hheader.2 hpayload, length_splitUdpFrames hheader.2 hpayload,
    fun frame hframe => length_le_of_mem hheader.2 hframe, carries_splitUdpFrames hheader.2, ?_⟩
  intro datagrams sid enc
  have hne : addrHeader ≠ [] := List.length_pos_iff.mp (Nat.lt_of_lt_of_le (by decide) hheader.1)
  have hcalls : (splitUdpFrames addrHeader payload).flatMap (sendUnreliable datagrams sid) = _ :=
    flatMap_sendUnreliable fun frame hframe =>
      ⟨ne_nil_of_mem hne hframe, length_le_of_mem hheader.2 hframe⟩
  have hshort : ∀ c ∈ (splitUdpFrames addrHeader payload).flatMap (sendUnreliable datagrams sid),
      c.payload.length ≤ frameDataMax := by
    intro c hc
    rw [hcalls] at hc
    obtain ⟨frame, hframe, rfl⟩ := List.mem_map.mp hc
    exact length_le_of_mem hheader.2 hframe
  have henc := encodeAll_of_short enc hshort
  refine ⟨hcalls, _, _, henc, ?_⟩
  rw [decode_encodeAll henc, payloads_stampAll, hcalls, List.map_map]
  exact List.map_id _

/-- A whole address header and a payload that needs two fragments with it. -/
theorem fragments_fit_two : Carries (List.replicate 768 97) (List.replicate 529 7)
    (splitUdpFrames (List.replicate 768 97) (List.replicate 529 7)) := by
  obtain ⟨-, -, -, hcarries, -⟩ := fragments_fit (List.replicate 768 97) (List.replicate 529 7)
    (by rw [List.length_replicate]; omega) (by rw [List.length_replicate]; omega)
  exact hcarries

end SrtVpn.FragmentSizes
