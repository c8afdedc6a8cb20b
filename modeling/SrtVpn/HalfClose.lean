import Mathlib.Logic.Function.Basic
import SrtVpn.Chunks
import SrtVpn.ForwardLoop

namespace SrtVpn.HalfClose

open BigEndian Wire Dispatch ForwardLoop Chunks Runs

inductive Side
  | client
  | server
  deriving DecidableEq, Repr

def Side.other : Side → Side
  | .client => .server
  | .server => .client

def variant (sid : UInt16) : Side → Variant
  | .client => forwardLoop
  | .server => startTcpForward sid

/-- One end of a session: its loop, what it has read and written, whether it has shut its local
write side, whether it has sent its Close, and what it has sent that is under way. -/
structure End where
  loop : State
  read : Bytes
  written : Bytes
  shut : Bool
  told : Bool
  wire : List (SessionEvent Bytes)

def batch (data : Bytes) : List (SessionEvent Bytes) := (chunks frameDataMax data).map .data

def End.act (e : End) : Effect → End
  | .sendFin => { e with wire := e.wire ++ [.fin] }
  | .sendDataBatch data => { e with wire := e.wire ++ batch data }
  | .writeLocal data => { e with written := e.written ++ data }
  | .shutdownLocal => { e with shut := true }

/-- A turn of the loop in which every operation succeeds, with its effects. -/
def End.turn (v : Variant) (e : End) (b : Branch) : Option End :=
  (ForwardLoop.turn v e.loop b).map fun p => p.1.foldl End.act { e with loop := p.2 }

abbrev Pair := Side → End

inductive Label
  | read (x : Side) (now : Nat) (data : Bytes)
  | recv (x : Side) (now : Nat)
  | deliver (x : Side)
  | close (x : Side)
  | unregister (x : Side)

/-- An end that is through sends its Close and gives up its registry entry. -/
def step (sid : UInt16) (s : Pair) : Label → Option Pair
  | .read x now data =>
      ({ s x with read := (s x).read ++ data }.turn (variant sid x)
        (.read now (.ok data) (.ok ()))).map (Function.update s x)
  | .recv x now => ((s x).turn (variant sid x) (.recv now (.ok ()))).map (Function.update s x)
  | .deliver x =>
      match (s x).wire with
      | e :: wire =>
          some (Function.update (Function.update s x { s x with wire := wire }) x.other
            { s x.other with loop := (s x.other).loop.deliver e })
      | [] => none
  | .close x =>
      if (s x).loop.exit.isSome ∧ (s x).told = false then
        some (Function.update s x { s x with told := true, wire := (s x).wire ++ [.close] })
      else none
  | .unregister x =>
      if (s x).loop.exit.isSome then
        some (Function.update s x
          { s x with loop := { (s x).loop with channel := (s x).loop.channel.dropSender } })
      else none

def End.start (now : Nat) (prepend : Bytes) : End :=
  ⟨ForwardLoop.start now, prepend, [], false, false, batch prepend⟩

/-- The client end begins with what was read ahead of the tunnel. -/
def start (prepend : Bytes) (now : Side → Nat) : Pair
  | .client => End.start (now .client) prepend
  | .server => End.start (now .server) []

/-- No half-close loses data, seen from the end `x`. -/
structure Lossless (sid : UInt16) (s : Pair) (x : Side) : Prop where
  shut : (s x).shut = true → (s x.other).loop.localEof = true ∧ (s x).written = (s x.other).read
  sends : (s x).loop.localEof = false → ∀ now data, data ≠ [] →
    ∃ t, step sid s (.read x now data) = some t ∧ (t x).loop.exit = none ∧
    (t x).wire = (s x).wire ++ batch data
  writes : (s x).loop.peerFin = false → ∀ now d queue, (s x).loop.channel.queue = .data d :: queue →
    ∃ t, step sid s (.recv x now) = some t ∧ (t x).loop.exit = none ∧
    (t x).written = (s x).written ++ d
  ended : (s x).loop.exit ≠ none → (s x).loop.localEof = true ∧ (s x).loop.peerFin = true
  complete : (s x).loop.exit ≠ none → (s x.other).loop.exit ≠ none →
    (s x).written = (s x.other).read

section Flow

variable {a b c : End} {v : Variant}

def tail (e : End) : List (SessionEvent Bytes) :=
  (if e.loop.localEof then [.fin] else []) ++ if e.told then [.close] else []

structure Orderly (e : End) : Prop where
  ended : e.loop.exit ≠ none → e.loop.localEof = true ∧ e.loop.peerFin = true
  told : e.told = true → e.loop.exit ≠ none
  channel : e.loop.exit = none → e.loop.channel.sender = true ∧ e.loop.channel.receiver = true
  shut : e.shut = e.loop.peerFin

/-- From `a` to `b`: until the Fin is taken, what `a` has read is what `b` has written and what
waits or is under way; after it nothing is missing. -/
structure Flow (a b : End) : Prop where
  pending : b.loop.peerFin = false →
    ∃ ds : List Bytes, b.loop.channel.queue ++ a.wire = ds.map .data ++ tail a ∧
    b.written ++ ds.flatten = a.read
  done : b.loop.peerFin = true → a.loop.localEof = true ∧ b.written = a.read

theorem read_cases {now : Nat} {data : Bytes}
    (h : a.turn v (.read now (.ok data) (.ok ())) = some b) :
    a.loop.exit = none ∧ a.loop.localEof = false ∧
      (data = [] ∧ (∃ exit, (exit ≠ none → a.loop.peerFin = true) ∧
          b = { a with loop := { a.loop with localEof := true, exit := exit }, wire := a.wire ++
            [.fin] }) ∨
        b = { a with loop := a.loop.active now, wire := a.wire ++ batch data }) := by
  obtain ⟨⟨effects, l⟩, hturn, rfl⟩ := Option.map_eq_some_iff.mp h
  have hexit := turn_running hturn
  rw [ForwardLoop.turn, if_neg (by simp [hexit])] at hturn
  obtain ⟨heof, hread⟩ := Option.ite_none_left_eq_some.mp hturn
  refine ⟨hexit, by simpa using heof, ?_⟩
  cases data with
  | nil =>
      obtain ⟨rfl, rfl⟩ := Prod.mk.inj (Option.some.inj hread)
      refine Or.inl ⟨rfl, if a.loop.peerFin then some .broke else none, by simp, ?_⟩
      cases hfin : a.loop.peerFin <;> simp [End.act, State.leave, hexit, hfin]
  | cons d data =>
      obtain ⟨rfl, rfl⟩ := Prod.mk.inj (Option.some.inj hread)
      exact Or.inr rfl

theorem recv_cases {now : Nat} (h : a.turn v (.recv now (.ok ())) = some b) :
    a.loop.exit = none ∧ a.loop.peerFin = false ∧
      ((∃ d queue, a.loop.channel.queue = .data d :: queue ∧
          b = { a with loop := (a.loop.rest queue).active now, written := a.written ++ d }) ∨
        (∃ queue exit, a.loop.channel.queue = .fin :: queue ∧
          (exit ≠ none → a.loop.localEof = true) ∧
          b = { a with loop := { a.loop.rest
            queue with peerFin := true, exit := exit }, shut := true }) ∨
        (∃ queue, a.loop.channel.queue = .close :: queue) ∨ a.loop.channel.sender = false) := by
  obtain ⟨⟨effects, l⟩, hturn, rfl⟩ := Option.map_eq_some_iff.mp h
  have hexit := turn_running hturn
  rw [ForwardLoop.turn, if_neg (by simp [hexit])] at hturn
  obtain ⟨hfin, hrecv⟩ := Option.ite_none_left_eq_some.mp hturn
  refine ⟨hexit, by simpa using hfin, ?_⟩
  cases hqueue : a.loop.channel.queue with
  | nil =>
      rw [hqueue] at hrecv
      obtain ⟨hsender, -⟩ := Option.ite_none_left_eq_some.mp hrecv
      exact Or.inr (Or.inr (Or.inr (by simpa using hsender)))
  | cons e queue =>
      rw [hqueue] at hrecv
      cases e with
      | data d =>
          obtain ⟨rfl, rfl⟩ := Prod.mk.inj (Option.some.inj hrecv)
          exact Or.inl ⟨d, queue, rfl, rfl⟩
      | fin =>
          obtain ⟨rfl, rfl⟩ := Prod.mk.inj (Option.some.inj hrecv)
          refine Or.inr
            (Or.inl ⟨queue, if a.loop.localEof then some .broke else none, rfl, by simp, ?_⟩)
          cases heof : a.loop.localEof <;> simp [End.act, State.leave, State.rest, hexit, heof]
      | close => exact Or.inr (Or.inr (Or.inl ⟨queue, rfl⟩))

theorem turn_read_data (now : Nat) {data : Bytes} (hexit : a.loop.exit = none)
    (heof : a.loop.localEof = false) (hdata : data ≠ []) :
    a.turn v (.read now (.ok data) (.ok ())) =
      some { a with loop := a.loop.active now, wire := a.wire ++ batch data } := by
  cases data with
  | nil => exact absurd rfl hdata
  | cons d data => simp [End.turn, ForwardLoop.turn, hexit, heof, onRead, End.act]

theorem turn_recv_data (now : Nat) {d : Bytes} {queue : List (SessionEvent Bytes)}
    (hexit : a.loop.exit = none) (hfin : a.loop.peerFin = false)
    (hqueue : a.loop.channel.queue = .data d :: queue) :
    a.turn v (.recv now (.ok ())) =
      some { a with loop := (a.loop.rest queue).active now, written := a.written ++ d } := by
  simp [End.turn, ForwardLoop.turn, hexit, hfin, hqueue, onRecv, State.rest, End.act]

theorem Orderly.tail_eq_cons (ha : Orderly a) {e : SessionEvent Bytes}
    {rest : List (SessionEvent Bytes)} (h : tail a = e :: rest) :
    e = .fin ∧ a.loop.localEof = true := by
  cases heof : a.loop.localEof with
  | true =>
      rw [tail, heof, if_pos rfl, List.singleton_append] at h
      exact ⟨(List.cons.inj h).1.symm, rfl⟩
  | false =>
      cases htold : a.told with
      | true =>
          have := (ha.ended (ha.told htold)).1
          rw [heof] at this
          simp at this
      | false => simp [tail, heof, htold] at h

theorem Orderly.tail_eq_nil (ha : Orderly a) (hexit : a.loop.exit = none)
    (heof : a.loop.localEof = false) : tail a = [] := by
  have htold : a.told = false := by
    by_contra htold
    exact ha.told (by simpa using htold) hexit
  simp [tail, heof, htold]

section Read

variable {now : Nat} {data : Bytes}

theorem Orderly.read (ha : Orderly a) (h : a.turn v (.read now (.ok data) (.ok ())) = some c) :
    Orderly c := by
  obtain ⟨hexit, -, ⟨-, exit, hfin, rfl⟩ | rfl⟩ := read_cases h
  · refine ⟨fun he => ⟨rfl, hfin he⟩, ?_, fun _ => ha.channel hexit, ha.shut⟩
    intro htold
    exact absurd hexit (ha.told htold)
  · exact ⟨ha.ended, ha.told, ha.channel, ha.shut⟩

theorem Flow.read (hf : Flow a b) (ha : Orderly a)
    (h : { a with read := a.read ++ data }.turn v (.read now (.ok data) (.ok ())) = some c) : Flow c
      b := by
  obtain ⟨hexit, heof, hcase⟩ := read_cases h
  have htail := ha.tail_eq_nil hexit heof
  have hopen : b.loop.peerFin = false := by
    by_contra hfin
    have := (hf.done (by simpa using hfin)).1
    rw [heof] at this
    simp at this
  obtain ⟨ds, hds, hread⟩ := hf.pending hopen
  rw [htail, List.append_nil] at hds
  refine ⟨fun _ => ?_, fun hfin => by simp [hopen] at hfin⟩
  rcases hcase with ⟨rfl, exit, -, rfl⟩ | rfl
  · have htold : a.told = false := by
      by_contra htold
      exact ha.told (by simpa using htold) hexit
    refine ⟨ds, ?_, ?_⟩
    · dsimp only
      rw [← List.append_assoc, hds]
      simp [tail, htold]
    · simpa using hread
  · refine ⟨ds ++ chunks frameDataMax data, ?_, ?_⟩
    · have : tail { a with loop := a.loop.active now, read := a.read ++ data,
                           wire := a.wire ++ batch data } = [] := htail
      rw [this, List.append_nil, List.map_append, ← hds]
      simp [batch]
    · rw [List.flatten_append, flatten_chunks (by decide), ← List.append_assoc, hread]

theorem Flow.read_back (hf : Flow b a) (h : a.turn v (.read now (.ok data) (.ok ())) = some c) :
    Flow b c := by
  obtain ⟨-, -, ⟨-, exit, -, rfl⟩ | rfl⟩ := read_cases h
  · exact ⟨hf.pending, hf.done⟩
  · exact ⟨hf.pending, hf.done⟩

end Read

section Recv

variable {now : Nat}

theorem recv_cases_of_flow (hf : Flow b a) (ha : Orderly a) (hb : Orderly b)
    (h : a.turn v (.recv now (.ok ())) = some c) : a.loop.exit = none ∧ a.loop.peerFin = false ∧
      ((∃ d queue, a.loop.channel.queue = .data d :: queue ∧
          c = { a with loop := (a.loop.rest queue).active now, written := a.written ++ d }) ∨
        ∃ queue exit, a.loop.channel.queue = .fin :: queue ∧
        (exit ≠ none → a.loop.localEof = true) ∧
          c = { a with loop := { a.loop.rest
            queue with peerFin := true, exit := exit }, shut := true }) := by
  obtain ⟨hexit, hfin, hdata | hclosed | ⟨queue, hqueue⟩ | hsender⟩ := recv_cases h
  · exact ⟨hexit, hfin, Or.inl hdata⟩
  · exact ⟨hexit, hfin, Or.inr hclosed⟩
  · obtain ⟨ds, hds, -⟩ := hf.pending hfin
    rw [hqueue] at hds
    cases ds with
    | nil =>
        have := (hb.tail_eq_cons hds.symm).1
        simp at this
    | cons d ds => simp at hds
  · rw [(ha.channel hexit).1] at hsender
    simp at hsender

theorem Orderly.recv (hf : Flow b a) (ha : Orderly a) (hb : Orderly b)
    (h : a.turn v (.recv now (.ok ())) = some c) : Orderly c := by
  obtain ⟨hexit, hfin, ⟨d, queue, -, rfl⟩ | ⟨queue, exit, -, heof, rfl⟩⟩ :=
    recv_cases_of_flow hf ha hb h
  · exact ⟨ha.ended, ha.told, ha.channel, ha.shut⟩
  · refine ⟨fun he => ⟨heof he, rfl⟩, ?_, fun _ => ha.channel hexit, rfl⟩
    intro htold
    exact absurd hexit (ha.told htold)

theorem Flow.recv (hf : Flow b a) (ha : Orderly a) (hb : Orderly b)
    (h : a.turn v (.recv now (.ok ())) = some c) : Flow b c := by
  obtain ⟨-, hfin, hcase⟩ := recv_cases_of_flow hf ha hb h
  obtain ⟨ds, hds, hread⟩ := hf.pending hfin
  rcases hcase with ⟨d, queue, hqueue, rfl⟩ | ⟨queue, exit, hqueue, -, rfl⟩
  · rw [hqueue, List.cons_append] at hds
    cases ds with
    | nil =>
        have := (hb.tail_eq_cons hds.symm).1
        simp at this
    | cons d' ds =>
        rw [List.map_cons, List.cons_append] at hds
        obtain ⟨hd, hrest⟩ := List.cons.inj hds
        obtain rfl := SessionEvent.data.inj hd
        refine ⟨fun _ => ⟨ds, hrest, ?_⟩, fun h => by simp [State.active, State.rest, hfin] at h⟩
        simpa using hread
  · rw [hqueue, List.cons_append] at hds
    cases ds with
    | nil => exact ⟨fun h =>
        by simp at h, fun _ => ⟨(hb.tail_eq_cons hds.symm).2, by simpa using hread⟩⟩
    | cons d ds => simp at hds

theorem Flow.recv_back (hf : Flow a b) (hfb : Flow b a) (ha : Orderly a) (hb : Orderly b)
    (h : a.turn v (.recv now (.ok ())) = some c) : Flow c b := by
  obtain ⟨hexit, -, ⟨d, queue, -, rfl⟩ | ⟨queue, exit, -, -, rfl⟩⟩ := recv_cases_of_flow hfb ha hb h
  · exact ⟨hf.pending, hf.done⟩
  · exact ⟨hf.pending, hf.done⟩

end Recv

theorem deliver_eq (s : State) (e : SessionEvent Bytes) :
    ∃ ch : Channel Bytes, s.deliver e = { s with channel := ch } ∧ ch.sender = s.channel.sender ∧
    ch.receiver = s.channel.receiver := by
  rw [State.deliver, Channel.send]
  split
  · split
    · exact ⟨_, rfl, rfl, rfl⟩
    · exact ⟨_, rfl, rfl, rfl⟩
  · exact ⟨s.channel, rfl, rfl, rfl⟩

section Deliver

variable {e : SessionEvent Bytes} {wire : List (SessionEvent Bytes)}

theorem Orderly.deliver (hb : Orderly b) : Orderly { b with loop := b.loop.deliver e } := by
  obtain ⟨ch, heq, hs, hr⟩ := deliver_eq b.loop e
  rw [heq]
  refine ⟨hb.ended, hb.told, fun hexit => ?_, hb.shut⟩
  rw [hs, hr]
  exact hb.channel hexit

theorem Flow.deliver (hf : Flow a b) (hb : Orderly b) (hwire : a.wire = e :: wire) :
    Flow { a with wire := wire } { b with loop := b.loop.deliver e } := by
  obtain ⟨ch, heq, -, -⟩ := deliver_eq b.loop e
  refine ⟨fun hfin => ?_, ?_⟩
  · have hfin' : b.loop.peerFin = false := by
      rw [heq] at hfin
      exact hfin
    have hexit : b.loop.exit = none := by
      by_contra hexit
      rw [(hb.ended hexit).2] at hfin'
      simp at hfin'
    obtain ⟨ds, hds, hread⟩ := hf.pending hfin'
    refine ⟨ds, ?_, hread⟩
    rw [deliver_of_sender (hb.channel hexit).2 (hb.channel hexit).1]
    rw [hwire] at hds
    simpa [State.rest, tail] using hds
  · rw [heq]
    exact hf.done

theorem Flow.deliver_back (hf : Flow b a) (e : SessionEvent Bytes)
    (wire : List (SessionEvent Bytes)) :
    Flow { b with loop := b.loop.deliver e } { a with wire := wire } := by
  obtain ⟨ch, heq, -, -⟩ := deliver_eq b.loop e
  rw [heq]
  exact ⟨hf.pending, hf.done⟩

end Deliver

theorem Flow.close (hf : Flow a b) (ha : Orderly a) (hexit : a.loop.exit ≠ none)
    (htold : a.told = false) : Flow { a with told := true, wire := a.wire ++ [.close] } b := by
  refine ⟨fun hfin => ?_, hf.done⟩
  obtain ⟨ds, hds, hread⟩ := hf.pending hfin
  refine ⟨ds, ?_, hread⟩
  have heof := (ha.ended hexit).1
  rw [← List.append_assoc, hds]
  simp [tail, heof, htold]

theorem orderly_start (now : Nat) (prepend : Bytes) : Orderly (End.start now prepend) :=
  ⟨fun h => absurd rfl h, fun h => by simp [End.start] at h, fun _ => ⟨rfl, rfl⟩, rfl⟩

theorem flow_start (now now' : Nat) (prepend prepend' : Bytes) :
    Flow (End.start now prepend) (End.start now' prepend') := by
  refine ⟨fun _ => ⟨chunks frameDataMax prepend, ?_, ?_⟩,
    fun h => by simp [End.start, ForwardLoop.start] at h⟩
  · simp [End.start, ForwardLoop.start, Channel.new, batch, tail]
  · simpa [End.start] using flatten_chunks (by decide) prepend

end Flow

section Run

variable {sid : UInt16} {s t : Pair}

structure Sound (s : Pair) : Prop where
  orderly : ∀ x, Orderly (s x)
  flow : ∀ x, Flow (s x) (s x.other)

theorem sound_start (prepend : Bytes) (now : Side → Nat) : Sound (start prepend now) := by
  constructor
  · intro x
    cases x <;> exact orderly_start _ _
  · intro x
    cases x <;> exact flow_start _ _ _ _

theorem Sound.update (hs : Sound s) {x : Side} {e : End} (he : Orderly e)
    (hout : Flow e (s x.other)) (hin : Flow (s x.other) e) : Sound (Function.update s x e) := by
  constructor
  · intro y
    by_cases hy : y = x
    · rw [hy, Function.update_self]
      exact he
    · rw [Function.update_of_ne hy]
      exact hs.orderly y
  · intro y
    cases x <;> cases y
    · exact hout
    · exact hin
    · exact hin
    · exact hout

theorem Sound.step {l : Label} (hs : Sound s) (h : step sid s l = some t) : Sound t := by
  have hback : ∀ x, Flow (s x.other) (s x) := by
    intro x
    cases x
    · exact hs.flow .server
    · exact hs.flow .client
  cases l with
  | read x now data =>
      obtain ⟨e, he, rfl⟩ := Option.map_eq_some_iff.mp h
      have ho : Orderly { s x with read := (s x).read ++ data } :=
        ⟨(hs.orderly x).ended, (hs.orderly x).told, (hs.orderly x).channel, (hs.orderly x).shut⟩
      have hb : Flow (s x.other) { s x with read := (s x).read ++ data } :=
        ⟨(hback x).pending, (hback x).done⟩
      exact hs.update (ho.read he) ((hs.flow x).read (hs.orderly x) he) (hb.read_back he)
  | recv x now =>
      obtain ⟨e, he, rfl⟩ := Option.map_eq_some_iff.mp h
      have ho := hs.orderly x
      have ho' := hs.orderly x.other
      exact hs.update (ho.recv (hback x) ho' he) ((hs.flow x).recv_back (hback x) ho ho' he)
        ((hback x).recv ho ho' he)
  | deliver x =>
      simp only [HalfClose.step] at h
      split at h
      next e wire hwire =>
        obtain rfl := Option.some.inj h
        have hx : Orderly { s x with wire := wire } :=
          ⟨(hs.orderly x).ended, (hs.orderly x).told, (hs.orderly x).channel, (hs.orderly x).shut⟩
        have hother := (hs.orderly x.other).deliver (e := e)
        have hout := (hs.flow x).deliver (hs.orderly x.other) hwire
        have hin := (hback x).deliver_back e wire
        constructor
        · intro y
          cases x <;> cases y
          · exact hx
          · exact hother
          · exact hother
          · exact hx
        · intro y
          cases x <;> cases y
          · exact hout
          · exact hin
          · exact hin
          · exact hout
      next => simp at h
  | close x =>
      obtain ⟨⟨hexit, htold⟩, rfl⟩ := Option.ite_some_none_eq_some.mp h
      have hexit' : (s x).loop.exit ≠ none := by
        intro hn
        simp [hn] at hexit
      have ho := hs.orderly x
      exact hs.update ⟨ho.ended, fun _ => hexit', ho.channel,
        ho.shut⟩ ((hs.flow x).close ho hexit' htold) ⟨(hback x).pending, (hback x).done⟩
  | unregister x =>
      obtain ⟨hexit, rfl⟩ := Option.ite_some_none_eq_some.mp h
      have ho := hs.orderly x
      refine hs.update ⟨ho.ended, ho.told, fun hn => ?_, ho.shut⟩ ⟨(hs.flow x).pending,
        (hs.flow x).done⟩ ⟨(hback x).pending, (hback x).done⟩
      have hn' : (s x).loop.exit = none := hn
      simp [hn'] at hexit

theorem running_of_open (hs : Sound s) {x : Side}
    (h : (s x).loop.localEof = false ∨ (s x).loop.peerFin = false) :
    (s x).loop.exit = none := by
  by_contra hexit
  obtain ⟨heof, hfin⟩ := (hs.orderly x).ended hexit
  simp [heof, hfin] at h

theorem Sound.lossless (hs : Sound s) (x : Side) : Lossless sid s x := by
  have hback : Flow (s x.other) (s x) := by
    cases x
    · exact hs.flow .server
    · exact hs.flow .client
  constructor
  · intro hshut
    rw [(hs.orderly x).shut] at hshut
    exact hback.done hshut
  · intro heof now data hdata
    have hexit := running_of_open hs (Or.inl heof)
    have hturn :=
      turn_read_data (a := { s x with read := (s x).read ++ data }) (v := variant sid x) now
        hexit heof hdata
    refine ⟨_, by rw [HalfClose.step, hturn]; rfl, ?_⟩
    rw [Function.update_self]
    exact ⟨hexit, rfl⟩
  · intro hfin now d queue hqueue
    have hexit := running_of_open hs (Or.inr hfin)
    have hturn := turn_recv_data (v := variant sid x) now hexit hfin hqueue
    refine ⟨_, by rw [HalfClose.step, hturn]; rfl, ?_⟩
    rw [Function.update_self]
    exact ⟨hexit, rfl⟩
  · exact (hs.orderly x).ended
  · intro hexit _
    exact (hback.done ((hs.orderly x).ended hexit).2).2

end Run

/-- Along every run of a session both ends stay lossless. -/
theorem half_close_lossless (sid : UInt16) (prepend : Bytes) (now : Side → Nat) (ls : List Label) :
    Throughout (step sid) (fun s => ∀ x, Lossless sid s x) (start prepend now) ls := by
  have hsound : Throughout (step sid) Sound (start prepend now) ls :=
    throughout_of_step (sound_start prepend now) fun s l t hs hstep => hs.step hstep
  exact hsound.mono fun s hs x => hs.lossless x

end SrtVpn.HalfClose
