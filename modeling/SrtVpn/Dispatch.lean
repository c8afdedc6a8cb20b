import SrtVpn.Tables
import SrtVpn.Wire

namespace SrtVpn.Dispatch

open Tables Wire

variable {α : Type}

inductive SessionEvent (α : Type)
  | data (payload : α)
  | fin
  | close
  deriving DecidableEq, Repr

/-- An unbounded channel: the events not yet taken, and whether each of its halves still exists. -/
structure Channel (α : Type) where
  queue : List (SessionEvent α)
  sender : Bool
  receiver : Bool
  deriving DecidableEq, Repr

def Channel.new : Channel α := ⟨[], true, true⟩

def Channel.send (c : Channel α) (e : SessionEvent α) : Bool × Channel α :=
  if c.receiver then (true, { c with queue := c.queue ++ [e] }) else (false, c)

def Channel.dropSender (c : Channel α) : Channel α := { c with sender := false }

def Channel.dropReceiver (c : Channel α) : Channel α := { c with receiver := false }

def maxSessions : Nat := 256

/-- The map holds the sending half of a channel, here its place in the list of all channels made so
far; a receiving half is known by the same place. -/
structure SessionRegistry (α : Type) where
  sessions : Table UInt16 Nat
  nextId : UInt32
  channels : List (Channel α)

namespace SessionRegistry

def new : SessionRegistry α := ⟨∅, 1, []⟩

def register (reg : SessionRegistry α) (sid : UInt16) : SessionRegistry α :=
  { reg with
    sessions := reg.sessions.insert sid reg.channels.length
    channels := reg.channels ++ [Channel.new] }

/-- Try ids in turn from the counter on, at most `fuel` of them; 0 is the control channel. -/
def freeId (sessions : Table UInt16 Nat) : Nat → UInt32 → Option UInt16 × UInt32
  | 0, raw => (none, raw)
  | fuel + 1, raw =>
      let id := (raw % UInt32.ofNat maxSessions).toUInt16
      if id = 0 then freeId sessions fuel (raw + 1)
      else if (find sessions id).isNone then (some id, raw + 1)
      else freeId sessions fuel (raw + 1)

def allocate (reg : SessionRegistry α) : Option (UInt16 × Nat) × SessionRegistry α :=
  if maxSessions - 1 ≤ size reg.sessions then (none, reg)
  else match freeId reg.sessions maxSessions reg.nextId with
    | (some id, next) => (some (id, reg.channels.length), register { reg with nextId := next } id)
    | (none, next) => (none, { reg with nextId := next })

def registerSpecific (reg : SessionRegistry α) (sid : UInt16) : Option Nat × SessionRegistry α :=
  if sid = 0 then (none, reg)
  else if (find reg.sessions sid).isSome then (none, reg)
  else (some reg.channels.length, register reg sid)

def route (reg : SessionRegistry α) (sid : UInt16) (e : SessionEvent α) :
    Bool × SessionRegistry α :=
  match find reg.sessions sid with
  | some c =>
      ((reg.channels[c]?.map fun ch => (ch.send e).1).getD false,
        { reg with channels := reg.channels.modify c fun ch => (ch.send e).2 })
  | none => (false, reg)

/-- Removing an entry drops the sender it holds. -/
def remove (reg : SessionRegistry α) (sid : UInt16) : SessionRegistry α :=
  match find reg.sessions sid with
  | some c => { reg with
      sessions := reg.sessions.erase sid
      channels := reg.channels.modify c Channel.dropSender }
  | none => reg

def closeAll (reg : SessionRegistry α) : Nat × SessionRegistry α :=
  (size reg.sessions, { reg with
    sessions := ∅
    channels := reg.channels.map Channel.dropSender })

theorem freeId_eq_some {sessions : Table UInt16 Nat} {fuel : Nat} {raw next : UInt32} {id : UInt16}
    (h : freeId sessions fuel raw = (some id, next)) : find sessions id = none := by
  induction fuel generalizing raw with
  | zero => simp [freeId] at h
  | succ fuel ih =>
      simp only [freeId] at h
      split at h
      · exact ih h
      · split at h
        next hfree =>
          obtain ⟨hid, -⟩ := Prod.mk.inj h
          exact Option.some.inj hid ▸ Option.isNone_iff_eq_none.mp hfree
        next => exact ih h

theorem allocate_eq_some {reg reg' : SessionRegistry α} {sid : UInt16} {c : Nat}
    (h : reg.allocate = (some (sid, c), reg')) :
    find reg.sessions sid = none ∧ reg'.sessions = reg.sessions.insert sid reg.channels.length ∧
      reg'.channels = reg.channels ++ [Channel.new] := by
  rw [allocate] at h
  split at h
  · simp at h
  · split at h
    next id next hid =>
      simp only [Prod.mk.injEq, Option.some.injEq] at h
      obtain ⟨⟨rfl, -⟩, rfl⟩ := h
      exact ⟨freeId_eq_some hid, rfl, rfl⟩
    next => simp at h

theorem allocate_eq_none {reg reg' : SessionRegistry α} (h : reg.allocate = (none, reg')) :
    reg'.sessions = reg.sessions ∧ reg'.channels = reg.channels := by
  rw [allocate] at h
  split at h
  · obtain rfl := (Prod.mk.inj h).2
    exact ⟨rfl, rfl⟩
  · split at h
    next => simp at h
    next =>
      obtain rfl := (Prod.mk.inj h).2
      exact ⟨rfl, rfl⟩

theorem find_remove (reg : SessionRegistry α) (sid sid' : UInt16) :
    find (reg.remove sid).sessions sid' = if sid' = sid then none else find reg.sessions sid' := by
  rw [remove]
  split
  · exact find_erase reg.sessions sid sid'
  next hnone =>
    split
    next heq => rw [heq, hnone]
    next => rfl

@[simp] theorem length_channels_remove (reg : SessionRegistry α) (sid : UInt16) :
    (reg.remove sid).channels.length = reg.channels.length := by
  rw [remove]
  split <;> simp

@[simp] theorem sessions_route (reg : SessionRegistry α) (sid : UInt16) (e : SessionEvent α) :
    (reg.route sid e).2.sessions = reg.sessions := by
  rw [route]
  split <;> rfl

@[simp] theorem length_channels_route (reg : SessionRegistry α) (sid : UInt16)
    (e : SessionEvent α) : (reg.route sid e).2.channels.length = reg.channels.length := by
  rw [route]
  split <;> simp

theorem route_cases (reg : SessionRegistry α) (sid : UInt16) (e : SessionEvent α) :
    ((reg.route sid e).1 = false ∧ (reg.route sid e).2.channels = reg.channels) ∨
      ∃ c ch, find reg.sessions sid = some c ∧ reg.channels[c]? = some ch ∧
        (reg.route sid e).1 = true ∧
        (reg.route sid e).2.channels = reg.channels.set c { ch with queue := ch.queue ++ [e] } := by
  rw [route]
  split
  next c hfind =>
    cases hch : reg.channels[c]? with
    | none =>
        refine .inl ⟨rfl, List.ext_getElem? fun k => ?_⟩
        rw [List.getElem?_modify]
        by_cases hck : c = k
        · simp [← hck, hch]
        · simp [hck]
    | some ch =>
        cases hreceiver : ch.receiver with
        | false =>
            refine .inl ⟨by simp [Channel.send, hreceiver], List.ext_getElem? fun k => ?_⟩
            rw [List.getElem?_modify]
            by_cases hck : c = k
            · simp [← hck, hch, Channel.send, hreceiver]
            · simp [hck]
        | true =>
            refine .inr ⟨c, ch, hfind, hch,
              by simp [Channel.send, hreceiver], List.ext_getElem? fun k => ?_⟩
            have hlt := (List.getElem?_eq_some_iff.mp hch).1
            rw [List.getElem?_modify, List.getElem?_set]
            by_cases hck : c = k
            · subst hck
              rw [hch, if_pos rfl, if_pos hlt]
              simp [Channel.send, hreceiver]
            · simp [hck]
  next => exact .inl ⟨rfl, rfl⟩

end SessionRegistry

inductive DispatchAction (α : Type)
  | routed
  | unknownSession (sid : UInt16)
  | fin (sid : UInt16)
  | closed (sid : UInt16)
  | rst (sid : UInt16)
  | «open» (sid : UInt16) (payload : α)
  | other
  deriving DecidableEq, Repr

def eventOf (frame : Frame α) : Option (SessionEvent α) :=
  match frame.ftype with
  | .data | .datagram => some (.data frame.payload)
  | .fin => some .fin
  | .close | .rst => some .close
  | _ => none

def dispatchFrame (frame : Frame α) (reg : SessionRegistry α) :
    DispatchAction α × SessionRegistry α :=
  let sid := frame.sessionId
  match frame.ftype with
  | .data | .datagram =>
      let (ok, reg) := reg.route sid (.data frame.payload)
      (if ok then .routed else .unknownSession sid, reg)
  | .fin => (.fin sid, (reg.route sid .fin).2)
  | .close => (.closed sid, (reg.route sid .close).2)
  | .rst => (.rst sid, (reg.route sid .close).2)
  | .open => (.open sid frame.payload, reg)
  | _ => (.other, reg)

theorem dispatchFrame_registry (frame : Frame α) (reg : SessionRegistry α) :
    (dispatchFrame frame reg).2 =
      match eventOf frame with
      | some e => (reg.route frame.sessionId e).2
      | none => reg := by
  rw [dispatchFrame, eventOf]
  cases frame.ftype <;> rfl

theorem sessions_dispatchFrame (frame : Frame α) (reg : SessionRegistry α) :
    (dispatchFrame frame reg).2.sessions = reg.sessions := by
  rw [dispatchFrame_registry]
  split
  · exact SessionRegistry.sessions_route reg _ _
  · rfl

end SrtVpn.Dispatch
