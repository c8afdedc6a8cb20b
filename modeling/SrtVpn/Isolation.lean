import SrtVpn.Slots

namespace SrtVpn.Isolation

open BigEndian Tables Wire Decoder Slots

variable {α : Type}

/-- The reorder state of one session in one direction; only the opener direction has frames waiting
for an Open. -/
def view (d : MuxDecoder α) (key : UInt16 × Bool) : Slot α :=
  ⟨find d.states key, if key.2 then [] else waitingOf d key.1⟩

def ofKey (key : UInt16 × Bool) (msg : Bytes) : Bool := (decodeFrame msg).map Frame.key = some key

/-- Only openers send Open; a message with this property is no Open of the return direction. -/
def NoAcceptorOpen (msg : Bytes) : Prop :=
  ∀ f ∈ decodeFrame msg, f.ftype = .open → f.dirAcceptor = false

instance : DecidablePred NoAcceptorOpen := fun msg =>
  inferInstanceAs (Decidable (∀ f ∈ decodeFrame msg, f.ftype = .open → f.dirAcceptor = false))

def Keyed (d : MuxDecoder α) : Prop := ∀ key g, (view d key).Stores g → g.key = key

def feedSlot (s : Slot Bytes) (msg : Bytes) : List (Frame Bytes) × Slot Bytes :=
  match decodeFrame msg with
  | none => ([], s)
  | some f => s.feed f

theorem feed_acceptor (st : Option (SidReorder α)) (w : List (Frame α)) (f : Frame α)
    (hd : f.dirAcceptor = true) (ho : f.ftype ≠ .open) :
    (Slot.mk st w).feed f =
      (((Slot.mk st []).feed f).1, ⟨((Slot.mk st []).feed f).2.state, w⟩) := by
  unfold Slot.feed
  split
  · rfl
  split
  · rfl
  cases st with
  | none => rfl
  | some st =>
      simp only
      split
      · split
        · rfl
        split
        · rfl
        split <;> rfl
      · split <;> rfl

theorem feedFrame_view (d : MuxDecoder α) (f : Frame α)
    (hopen : f.ftype = .open → f.dirAcceptor = false) :
    (feedFrame d f).1 = ((view d f.key).feed f).1 ∧
      view (feedFrame d f).2 f.key = ((view d f.key).feed f).2 := by
  obtain ⟨hout, hst, hw⟩ := feedFrame_eq_slot d f
  cases hd : f.dirAcceptor with
  | false =>
      have hv : view d f.key = slotAt d f.key := by simp [view, slotAt, Frame.key, hd]
      have hk : f.key.2 = false := hd
      have hv' : view (feedFrame d f).2 f.key = slotAt (feedFrame d f).2 f.key := by
        simp [view, slotAt, hk]
      have hw' := hw f.key.1
      rw [if_pos (show f.key.1 = f.sessionId from rfl)] at hw'
      have hsl : slotAt (feedFrame d f).2 f.key = ((slotAt d f.key).feed f).2 := by
        rw [slotAt, hst, if_pos rfl, hw']
      rw [hv, hv', hsl]
      exact ⟨hout, rfl⟩
  | true =>
      have ho : f.ftype ≠ .open := fun h => by simp [hopen h] at hd
      have hk : f.key.2 = true := hd
      have hfeed := feed_acceptor (find d.states f.key) (waitingOf d f.key.1) f hd ho
      have hfeed' := feed_acceptor (find d.states f.key) [] f hd ho
      have hv : view d f.key = ⟨find d.states f.key, []⟩ := by simp [view, hk]
      have hv' : view (feedFrame d f).2 f.key = ⟨find (feedFrame d f).2.states f.key, []⟩ := by
        simp [view, hk]
      rw [hout, hv, hv', hst, if_pos rfl, slotAt, hfeed]
      exact ⟨rfl, by rw [hfeed']⟩

theorem feedFrame_view_ne (d : MuxDecoder α) (f : Frame α)
    (hopen : f.ftype = .open → f.dirAcceptor = false) (key : UInt16 × Bool) (hkey : f.key ≠ key) :
    view (feedFrame d f).2 key = view d key := by
  obtain ⟨_, hst, hw⟩ := feedFrame_eq_slot d f
  have hs : find (feedFrame d f).2.states key = find d.states key := by
    rw [hst, if_neg (Ne.symm hkey)]
  cases hk : key.2 with
  | true => simp [view, hk, hs]
  | false =>
      have hwait : waitingOf (feedFrame d f).2 key.1 = waitingOf d key.1 := by
        rw [hw]
        split
        next hsid =>
          -- same session, so the frame belongs to the return direction and leaves the list alone
          have hd : f.dirAcceptor = true := by
            cases hd : f.dirAcceptor with
            | true => rfl
            | false => exact absurd (Prod.ext hsid.symm (by simp [Frame.key, hd, hk])) hkey
          have ho : f.ftype ≠ .open := fun h => by simp [hopen h] at hd
          rw [slotAt, feed_acceptor _ _ f hd ho, hsid]
          rfl
        next => rfl
      simp [view, hk, hs, hwait]

theorem keyed_new : Keyed (MuxDecoder.new : MuxDecoder α) := by
  intro key g h
  rcases h with ⟨st, k, hst, _⟩ | h
  · simp [view, MuxDecoder.new] at hst
  · simp only [view, waitingOf, MuxDecoder.new, find_empty, Option.getD_none, ite_self] at h
    simp at h

theorem keyed_feedFrame {d : MuxDecoder α} {f : Frame α} (h : Keyed d)
    (hopen : f.ftype = .open → f.dirAcceptor = false) : Keyed (feedFrame d f).2 := by
  intro key g hg
  by_cases hk : f.key = key
  · subst hk
    rw [(feedFrame_view d f hopen).2] at hg
    rcases ((view d f.key).feed_mem f g).2 hg with rfl | hg
    · rfl
    · exact h _ g hg
  · rw [feedFrame_view_ne d f hopen key hk] at hg
    exact h key g hg

theorem key_of_mem_feedFrame {d : MuxDecoder α} {f g : Frame α} (h : Keyed d)
    (hopen : f.ftype = .open → f.dirAcceptor = false) (hg : g ∈ (feedFrame d f).1) :
    g.key = f.key := by
  rw [(feedFrame_view d f hopen).1] at hg
  rcases ((view d f.key).feed_mem f g).1 hg with rfl | hg
  · rfl
  · exact h _ g hg

theorem keyed_feed {d : MuxDecoder Bytes} {msg : Bytes} (h : Keyed d) (hopen : NoAcceptorOpen msg) :
    Keyed (feed d msg).2 := by
  cases hm : decodeFrame msg with
  | none => rw [feed_of_decode_none hm]; exact h
  | some f => rw [feed_of_decode hm]; exact keyed_feedFrame h (hopen f hm)

theorem key_of_mem_feed {d : MuxDecoder Bytes} {msg : Bytes} {g : Frame Bytes} (h : Keyed d)
    (hopen : NoAcceptorOpen msg) (hg : g ∈ (feed d msg).1) : ofKey g.key msg = true := by
  cases hm : decodeFrame msg with
  | none => simp [feed_of_decode_none hm] at hg
  | some f =>
      rw [feed_of_decode hm] at hg
      simp [ofKey, hm, key_of_mem_feedFrame (d := countRx d) h (hopen f hm) hg]

/-- The decoder seen through one session and direction is the machine of that slot, fed with the
messages of that slot only. -/
theorem feedAll_view (key : UInt16 × Bool) (msgs : List Bytes)
    (hopen : ∀ m ∈ msgs, NoAcceptorOpen m) (d : MuxDecoder Bytes) (hd : Keyed d) :
    (feedAll d msgs).1.filter (·.key = key) =
        (Transducer.run feedSlot (view d key) (msgs.filter (ofKey key))).1.flatten ∧
      view (feedAll d msgs).2 key =
        (Transducer.run feedSlot (view d key) (msgs.filter (ofKey key))).2 := by
  refine Transducer.run_project feed feedSlot (view · key) (ofKey key) (·.key = key) NoAcceptorOpen
    Keyed (fun d m hm h => keyed_feed h hm) ?_ ?_ msgs hopen d hd
  · intro d m hm h hmine
    cases hf : decodeFrame m with
    | none => simp [ofKey, hf] at hmine
    | some f =>
        obtain rfl : f.key = key := by simpa [ofKey, hf] using hmine
        obtain ⟨hout, hview⟩ := feedFrame_view (countRx d) f (hm f hf)
        rw [feed_of_decode hf]
        simp only [feedSlot, hf]
        refine ⟨?_, hview⟩
        rw [List.filter_eq_self.mpr, hout]
        · rfl
        · intro g hg
          simpa using key_of_mem_feedFrame (d := countRx d) h (hm f hf) hg
  · intro d m hm h hmine
    constructor
    · rw [List.filter_eq_nil_iff]
      intro g hg hkey
      obtain rfl : g.key = key := by simpa using hkey
      simp [key_of_mem_feed h hm hg] at hmine
    · cases hf : decodeFrame m with
      | none => rw [feed_of_decode_none hf]; rfl
      | some f =>
          have hne : f.key ≠ key := by simpa [ofKey, hf] using hmine
          rw [feed_of_decode hf]
          exact feedFrame_view_ne (countRx d) f (hm f hf) key hne

theorem feed_unordered (d : MuxDecoder Bytes) (msg : Bytes) (f : Frame Bytes)
    (hm : decodeFrame msg = some f) (hf : usesSessionOrder f.ftype = false) :
    feed d msg = ([f], countRx d) := by
  simp [feed_of_decode hm, feedFrame, hf]

/-- Sessions do not interfere: what a session receives in one direction, and where its reordering
stands, depends on its own messages in that direction alone, whatever gaps, overflows and generation
changes happen in all the others. Frames outside session order come back from the call that received
them. -/
theorem sessions_isolated (msgs : List Bytes) (hopen : ∀ m ∈ msgs, NoAcceptorOpen m)
    (key : UInt16 × Bool) :
    (feedAll MuxDecoder.new msgs).1.filter (·.key = key) =
        (feedAll MuxDecoder.new (msgs.filter (ofKey key))).1 ∧
      view (feedAll MuxDecoder.new msgs).2 key =
        view (feedAll MuxDecoder.new (msgs.filter (ofKey key))).2 key ∧
      ∀ d m f, decodeFrame m = some f → usesSessionOrder f.ftype = false →
        (feed d m).1 = [f] ∧ ∀ k, view (feed d m).2 k = view d k := by
  have hown : ∀ m ∈ msgs.filter (ofKey key), NoAcceptorOpen m :=
    fun m hm => hopen m (List.mem_of_mem_filter hm)
  obtain ⟨hout, hview⟩ := feedAll_view key msgs hopen MuxDecoder.new keyed_new
  obtain ⟨hout', hview'⟩ := feedAll_view key _ hown MuxDecoder.new keyed_new
  simp only [List.filter_filter, Bool.and_self] at hout' hview'
  refine ⟨?_, by rw [hview, hview'], ?_⟩
  · rw [hout, ← hout', List.filter_eq_self]
    intro g hg
    obtain ⟨o, ho, hg⟩ := List.mem_flatten.mp hg
    obtain ⟨m, hm, d, hd, rfl⟩ := Transducer.run_output Keyed _
      (fun d m hm h => keyed_feed h (hown m hm)) _ keyed_new o ho
    have hk := key_of_mem_feed hd (hown m hm) hg
    have hm' := List.of_mem_filter hm
    simp only [ofKey, decide_eq_true_eq] at hk hm' ⊢
    exact Option.some.inj (hk.symm.trans hm')
  · intro d m f hm hf
    rw [feed_unordered d m f hm hf]
    exact ⟨rfl, fun k => rfl⟩

theorem sessions_isolated_gap :
    let frame (t : FrameType) (sid : UInt16) (seq : UInt32) : Bytes :=
  frameBytes ⟨t, sid, seq, 0, []⟩
    let msgs := [frame .open 1 0x01000000, frame .open 2 0x02000000, frame .data 1 0x01000002,
      frame .data 2 0x02000001, frame .fin 2 0x02000002]
    (feedAll MuxDecoder.new msgs).1.filter (·.key = (2, false)) =
        (feedAll MuxDecoder.new (msgs.filter (ofKey (2, false)))).1 ∧
      (feedAll MuxDecoder.new msgs).1.length = 4 := by
  intro frame msgs
  exact ⟨(sessions_isolated msgs (by decide) (2, false)).1, by decide⟩

end SrtVpn.Isolation
