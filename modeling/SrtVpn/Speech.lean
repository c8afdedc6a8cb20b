import SrtVpn.Runs
import SrtVpn.UdpRelay

namespace SrtVpn.Speech

open BigEndian Chunks Wire Encoder Session Runs
open UdpRelay (sendUnreliable)

/-- What one end has said about a session so far: nothing, its Open, its Fin, its Close. -/
inductive Voice
  | silent
  | talking
  | finished
  | closed
  deriving DecidableEq, Repr

/-- A piece of the stream, or of a datagram, that fits into a frame. -/
def Content (sid : UInt16) (c : Call Bytes) : Prop :=
  (c.ftype = .data ∨ c.ftype = .datagram) ∧ c.sessionId = sid ∧ c.flags = 0 ∧ c.payload ≠ [] ∧
  c.payload.length ≤ frameDataMax

instance (sid : UInt16) (c : Call Bytes) : Decidable (Content sid c) :=
  inferInstanceAs (Decidable (_ ∧ _))

/-- What an end may say: an Open, then content, then a Fin if it likes, and its Close last. -/
def speak (sid : UInt16) (v : Voice) (c : Call Bytes) : Option Voice :=
  match v with
  | .silent =>
      if c.ftype = .open ∧ c.sessionId = sid ∧ c.flags = 0 ∧ c.payload.length ≤ frameDataMax then
        some .talking
      else none
  | .talking =>
      if Content sid c then some .talking
      else if c = sendControl sid .fin [] then some .finished
      else if c = sendControl sid .close [] then some .closed
      else none
  | .finished => if c = sendControl sid .close [] then some .closed else none
  | .closed => none

section Words

variable {sid : UInt16} {calls more : List (Call Bytes)} {v w : Voice}

theorem speak_content {c : Call Bytes} (h : Content sid c) : speak sid .talking c = some .talking :=
  if_pos h

theorem exec_content (h : ∀ c ∈ calls, Content sid c) :
    exec (speak sid) .talking calls = some .talking := by
  induction calls with
  | nil => rfl
  | cons c calls ih =>
      obtain ⟨hc, hcalls⟩ := List.forall_mem_cons.mp h
      rw [exec_cons, speak_content hc]
      exact ih hcalls

theorem speak_fin (sid : UInt16) :
    speak sid .talking (sendControl sid .fin []) = some .finished := by
  have hno : ¬ Content sid (sendControl sid .fin []) := by
    rintro ⟨h | h, -⟩ <;> cases h
  rw [speak, if_neg hno, if_pos rfl]

theorem speak_close (h : v = .talking ∨ v = .finished) :
    speak sid v (sendControl sid .close []) = some .closed := by
  rcases h with rfl | rfl
  · have hno : ¬ Content sid (sendControl sid .close []) := by
      rintro ⟨h | h, -⟩ <;> cases h
    have hfin : sendControl sid .close [] ≠ sendControl sid .fin [] := by
      intro heq
      cases congrArg Call.ftype heq
    rw [speak, if_neg hno, if_neg hfin, if_pos rfl]
  · exact if_pos rfl

theorem speak_open {proto : UInt8} {host : Bytes} {port : UInt16}
    (h : (openPayload proto host port).length ≤ frameDataMax) :
    speak sid .silent (sendOpen sid proto host port) = some .talking := if_pos ⟨rfl, rfl, rfl, h⟩

theorem exec_singleton {c : Call Bytes} (h : speak sid v c = some w) :
    exec (speak sid) v [c] = some w := by
  rw [exec_cons, h]
  rfl

theorem close_last (h : exec (speak sid) v calls = some .closed) (hv : v ≠ .closed) :
    ∃ before, calls = before ++ [sendControl sid .close []] ∧ ∀ c ∈ before, c.ftype ≠ .close := by
  induction calls generalizing v with
  | nil => exact absurd (Option.some.inj h) hv
  | cons c calls ih =>
      rw [exec_cons, Option.bind_eq_some_iff] at h
      obtain ⟨u, hu, h⟩ := h
      by_cases hclosed : u = .closed
      · subst hclosed
        have hnil : calls = [] := by
          cases calls with
          | nil => rfl
          | cons c' calls => cases h
        subst hnil
        refine ⟨[], ?_, List.forall_mem_nil _⟩
        cases v with
        | silent => simp [speak] at hu
        | talking =>
            rw [speak] at hu
            split at hu
            · cases hu
            split at hu
            · cases hu
            split at hu
            next hc => rw [hc]; rfl
            next => cases hu
        | finished =>
            obtain ⟨hc, -⟩ := Option.ite_some_none_eq_some.mp hu
            rw [hc]
            rfl
        | closed => cases hu
      · obtain ⟨before, rfl, hbefore⟩ := ih h hclosed
        refine ⟨c :: before, rfl, List.forall_mem_cons.mpr ⟨fun hc => ?_, hbefore⟩⟩
        cases v with
        | silent => simp [speak, hc] at hu
        | talking =>
            rw [speak, if_neg
              (fun hcontent => by rcases hcontent.1 with h | h <;> rw [hc] at h <;> cases h)] at hu
            split at hu
            next heq => rw [heq] at hc; cases hc
            split at hu
            · exact hclosed (Option.some.inj hu).symm
            · cases hu
        | finished =>
            obtain ⟨-, heq⟩ := Option.ite_some_none_eq_some.mp hu
            exact hclosed heq.symm
        | closed => cases hu

theorem mem_chunks {n : Nat} {data chunk : Bytes} (h : chunk ∈ chunks n data) :
    chunk ≠ [] ∧ chunk.length ≤ n := by
  obtain ⟨i, hi, rfl⟩ := List.mem_map.mp h
  have hlt := mul_lt_of_lt_divCeil (List.mem_range.mp hi)
  refine ⟨?_, List.length_take_le _ _⟩
  intro hnil
  rcases List.take_eq_nil_iff.mp hnil with rfl | hdrop
  · simp [divCeil] at hi
  · rw [List.drop_eq_nil_iff] at hdrop
    omega

theorem content_sendDataBatch (sid : UInt16) (data : Bytes) :
    ∀ c ∈ sendDataBatch sid data, Content sid c := by
  intro c hc
  obtain ⟨chunk, hchunk, rfl⟩ := List.mem_map.mp hc
  obtain ⟨hne, hle⟩ := mem_chunks hchunk
  exact ⟨Or.inl rfl, rfl, rfl, hne, hle⟩

theorem content_sendUnreliable (datagrams : Bool) (sid : UInt16) (frames : List Bytes) :
    ∀ c ∈ frames.flatMap (sendUnreliable datagrams sid), Content sid c := by
  intro c hc
  obtain ⟨frame, -, hc⟩ := List.mem_flatMap.mp hc
  obtain ⟨chunk, hchunk, rfl⟩ := List.mem_map.mp hc
  obtain ⟨hne, hle⟩ := mem_chunks hchunk
  refine ⟨?_, rfl, rfl, hne, hle⟩
  cases datagrams with
  | true => exact Or.inr rfl
  | false => exact Or.inl rfl

end Words

end SrtVpn.Speech
