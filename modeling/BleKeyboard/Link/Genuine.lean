import BleKeyboard.Report.Edges
import BleKeyboard.Link.SplitKeyboard

/-!
# No key out of nothing

Words of the left half travel as notifications of four bytes and as read responses of one, and
links come and go in between. Whatever is lost on the way, nothing is added:

- `Genuine.step`: all words of the system have only bits that a scan of their half has found set;
- `presses_genuine`: a press that is dispatched is one of a switch that has been down.
-/

namespace BleKeyboard

open Base

universe u

/-- Every bit of the first word is a bit of the second. -/
def Within (w seen : Word) : Prop := ∀ i, w.getLsbD i = true → seen.getLsbD i = true

theorem within_zero (seen : Word) : Within 0 seen := by
  intro i hi
  have hzero : BitVec.getLsbD (0 : Word) i = false := BitVec.getLsbD_zero
  rw [hzero] at hi
  cases hi

theorem Within.or_left {w seen : Word} (h : Within w seen) (scan : Word) :
    Within w (seen ||| scan) := by
  intro i hi
  rw [BitVec.getLsbD_or, h i hi, Bool.true_or]

theorem within_or_right (seen scan : Word) : Within scan (seen ||| scan) := by
  intro i hi
  rw [BitVec.getLsbD_or, hi, Bool.or_true]

/-! ## Messages -/

/-- The word that the client would store for a message. -/
def Message.stored : Message → Option Word
  | .notification data => loadWord (some data)
  | .readResponse data => readStored 0 (some data)

/-- A message changes the word of the client into the one it carries, or not at all. -/
theorem Message.receive_keystates {kbds kbds' : KbdsClient} {m : Message}
    (h : m.receive kbds = some kbds') :
    kbds'.keystates = kbds.keystates ∨ m.stored = some kbds'.keystates := by
  cases m with
  | notification data =>
    obtain ⟨r, hr, rfl⟩ := Option.map_eq_some_iff.mp h
    obtain ⟨w, hw, hr⟩ := Option.bind_eq_some_iff.mp hr
    rw [← Option.some.inj hr]
    exact .inr hw
  | readResponse data =>
    obtain rfl := Option.some.inj h
    cases hcb : kbds.readCb with
    | none =>
      rw [KbdsClient.readProcess, hcb]
      exact .inl rfl
    | some cb =>
      rw [KbdsClient.readProcess_keystates 0 (some data) kbds hcb]
      show _ ∨ readStored 0 (some data) = _
      cases readStored 0 (some data) with
      | none => exact .inl rfl
      | some w => exact .inr rfl

/-- A notification carries the word that it is made from. -/
theorem within_notification {w seen : Word} (h : Within w seen) :
    ∀ v ∈ (Message.notification (toBytesLE w)).stored, Within v seen := by
  intro v hv
  have hload : (Message.notification (toBytesLE w)).stored = some w := readWordLE_toBytesLE w
  rw [hload] at hv
  exact Option.some.inj hv ▸ h

/-- A read response carries the low byte of the word. -/
theorem within_readButton {s : LeftHalf} {seen : Word} (h : Within s.appKeystate seen) :
    ∀ v ∈ (Message.readResponse s.readButton.2).stored, Within v seen := by
  intro v hv
  unfold LeftHalf.readButton at hv
  by_cases hcb : s.buttonCb = true
  · rw [if_pos hcb] at hv
    -- the first byte of the word
    have hbyte : readStored 0 (some [s.appKeystate.extractLsb' 0 8]) = some v := hv
    rw [readStored, Option.ite_none_right_eq_some] at hbyte
    rw [← Option.some.inj hbyte.2]
    intro i hi
    rw [BitVec.getLsbD_setWidth, BitVec.getLsbD_extractLsb', Nat.zero_add] at hi
    simp only [Bool.and_eq_true] at hi
    exact h i hi.2.2
  · rw [if_neg hcb] at hv
    cases hv

/-! ## The invariant -/

/-- The words of all left scans so far, or-ed together, and those of the right half. -/
abbrev Seen := Word × Word

namespace SplitKeyboard

variable {κ : Type u} {sendErr : Nat → Int} {s t : SplitKeyboard κ} {inStep : Bool} {seen : Seen}

/-- What has been scanned, after an event. -/
def nextSeen (seen : Seen) (s : SplitKeyboard κ) : SplitEvent κ → Seen
  | .leftScan pins _ => (seen.1 ||| readMatrix pins, seen.2)
  | .other (.turn pins) =>
    if s.fw.reporting || s.fw.inPairingMode then (seen.1, seen.2 ||| readMatrix pins) else seen
  | _ => seen

/-- The words of the system have only bits that have been scanned. -/
structure Genuine (s : SplitKeyboard κ) (seen : Seen) : Prop where
  left : Within s.left.appKeystate seen.1
  messages : ∀ m ∈ s.toClient, ∀ w ∈ m.stored, Within w seen.1
  client : s.fw.kbds.keystates = btKbdsValInvalid ∨ Within s.fw.kbds.keystates seen.1
  right : Within s.fw.poll.lastKeystateRight seen.2

theorem genuine_init (buttonState : Word) : Genuine (init buttonState : SplitKeyboard κ) (0, 0) where
  left := within_zero _
  messages := fun _ hm => absurd hm List.not_mem_nil
  client := .inl rfl
  right := within_zero _

/-- A scan of the left half, and the notification that may come of it. -/
theorem Genuine.leftScan (hs : Genuine s seen) (pins : Pins) (gattErr : Int) :
    Genuine (s.moved (.leftScan pins gattErr)) (seen.1 ||| readMatrix pins, seen.2) where
  left := by
    show Within (s.left.getKeystate pins gattErr).1.appKeystate _
    rw [LeftHalf.getKeystate_eq]
    exact within_or_right _ _
  messages := by
    intro m hm
    rcases List.mem_append.mp hm with hm | hm
    · exact fun w hw => (hs.messages m hm w hw).or_left _
    · have hsent :
          m ∈ ((s.left.getKeystate pins gattErr).2.map Message.notification).toList := hm
      rw [LeftHalf.getKeystate_eq] at hsent
      dsimp only at hsent
      by_cases hnotifies : s.left.Notifies pins gattErr
      · rw [if_pos hnotifies] at hsent
        obtain rfl := List.mem_singleton.mp hsent
        exact within_notification (within_or_right _ _)
      · rw [if_neg hnotifies] at hsent
        cases hsent
  client := hs.client.imp_right fun h => h.or_left _
  right := hs.right

/-- A request that arrives at the left half. -/
theorem Genuine.atLeft (hs : Genuine s seen) : Genuine (s.moved .atLeft) seen := by
  unfold moved
  cases s.toLeft with
  | nil => exact hs
  | cons request toLeft =>
    cases request with
    | cccWrite value => exact ⟨hs.left, hs.messages, hs.client, hs.right⟩
    | read =>
      refine ⟨?_, ?_, hs.client, hs.right⟩
      · have hsame : s.left.readButton.1.appKeystate = s.left.appKeystate := by
          unfold LeftHalf.readButton
          split <;> rfl
        show Within s.left.readButton.1.appKeystate seen.1
        exact hsame ▸ hs.left
      · intro m hm
        rcases List.mem_append.mp hm with hm | hm
        · exact hs.messages m hm
        · obtain rfl := List.mem_singleton.mp hm
          exact within_readButton hs.left

/-- The right word after a callback. -/
theorem nextPoll_lastKeystateRight (fw : Firmware κ) (e : Firmware.Event κ) :
    (fw.nextPoll e).lastKeystateRight = fw.poll.lastKeystateRight ∨
      ∃ pins, e = .turn pins ∧ (fw.reporting || fw.inPairingMode) = true ∧
        (fw.nextPoll e).lastKeystateRight = readMatrix pins := by
  cases e with
  | turn pins =>
    rw [Firmware.nextPoll, Firmware.polled]
    by_cases hrep : fw.reporting = true
    · rw [if_pos hrep]
      exact .inr ⟨pins, rfl, by rw [hrep]; rfl, rfl⟩
    · rw [if_neg hrep]
      by_cases hpair : fw.inPairingMode = true
      · rw [if_pos hpair]
        exact .inr ⟨pins, rfl, by rw [hpair, Bool.or_true], rfl⟩
      · rw [if_neg hpair]
        exact .inl rfl
  | _ =>
    refine .inl (fw.nextPoll_right ?_).1
    intro pins heq
    cases heq

/-- A callback that leaves the client with a word that has been scanned. -/
theorem Genuine.callback (hs : Genuine s seen) {fe : Firmware.Event κ} {fw : Firmware κ}
    (hfw : s.fw.step sendErr fe = some fw) (hturn : ∀ pins, fe ≠ .turn pins)
    (hclient : fw.kbds.keystates = s.fw.kbds.keystates ∨ fw.kbds.keystates = btKbdsValInvalid ∨
      Within fw.kbds.keystates seen.1) : Genuine { s with fw } seen where
  left := hs.left
  messages := hs.messages
  client := by
    rcases hclient with hsame | hclient
    · show fw.kbds.keystates = btKbdsValInvalid ∨ Within fw.kbds.keystates seen.1
      rw [hsame]
      exact hs.client
    · exact hclient
  right := by
    show Within fw.poll.lastKeystateRight seen.2
    rw [(Firmware.stepped hfw).poll]
    rcases nextPoll_lastKeystateRight s.fw fe with hsame | ⟨pins, rfl, -⟩
    · exact hsame ▸ hs.right
    · exact absurd rfl (hturn pins)

/-- A turn of the main loop. -/
theorem Genuine.turn (hs : Genuine s seen) {pins : Pins} {fw : Firmware κ}
    (hfw : s.fw.step sendErr (.turn pins) = some fw) :
    Genuine { s with fw } (nextSeen seen s (.other (.turn pins))) := by
  have hkbds : fw.kbds = s.fw.kbds := (Firmware.stepped hfw).kbds
  have hleft : (nextSeen seen s (.other (.turn pins))).1 = seen.1 := by
    rw [nextSeen]
    split <;> rfl
  refine ⟨hleft ▸ hs.left, hleft ▸ hs.messages, ?_, ?_⟩
  · show fw.kbds.keystates = btKbdsValInvalid ∨ Within fw.kbds.keystates _
    rw [hkbds, hleft]
    exact hs.client
  · show Within fw.poll.lastKeystateRight _
    rw [(Firmware.stepped hfw).poll]
    rcases nextPoll_lastKeystateRight s.fw (.turn pins) with hsame | ⟨pins', heq, hscans, hword⟩
    · rw [hsame, nextSeen]
      split
      · exact hs.right.or_left _
      · exact hs.right
    · obtain rfl := Firmware.Event.turn.inj heq
      rw [hword, nextSeen, if_pos hscans]
      exact within_or_right _ _

/-- **One event** keeps the invariant. -/
theorem Genuine.step (hs : Genuine s seen) (hlinked : s.Linked inStep) {e : SplitEvent κ}
    (h : s.step sendErr e = some t) : Genuine t (nextSeen seen s e) := by
  obtain ⟨henabled, fw, hfw, rfl⟩ := step_iff.mp h
  cases e with
  | leftScan pins gattErr =>
    obtain rfl := Option.some.inj hfw
    exact hs.leftScan pins gattErr
  | atLeft =>
    obtain rfl := Option.some.inj hfw
    have hfw : (s.moved .atLeft).fw = s.fw := by
      unfold moved
      dsimp only
      split <;> rfl
    have hatLeft := hs.atLeft
    exact ⟨hatLeft.left, hatLeft.messages, hfw ▸ hatLeft.client, hfw ▸ hatLeft.right⟩
  | atClient =>
    obtain ⟨m, toClient, hq⟩ := List.exists_cons_of_ne_nil henabled
    rw [callbacks, hq] at hfw
    have hone : s.fw.step sendErr m.event = some fw := runFrom_singleton hfw
    have hmem : m ∈ s.toClient := by
      rw [hq]
      exact List.mem_cons_self
    have hturn : ∀ pins, (m.event : Firmware.Event κ) ≠ .turn pins := by
      intro pins heq
      cases m <;> cases heq
    have hcallback := hs.callback hone hturn ?_
    · refine ⟨hcallback.left, fun m' hm' => hs.messages m' (List.mem_of_mem_tail hm'),
        hcallback.client, hcallback.right⟩
    · refine (Message.receive_keystates (Firmware.step_message hone).1).imp_right fun hstored => ?_
      exact .inr (hs.messages m hmem _ hstored)
  | scanConnecting conn =>
    have hone := runFrom_singleton hfw
    have hkbds : fw.kbds = s.fw.kbds := (Firmware.stepped hone).kbds
    have hcallback := hs.callback hone (fun _ heq => by cases heq)
      (.inl (congrArg KbdsClient.keystates hkbds))
    exact ⟨hcallback.left, hcallback.messages, hcallback.client, hcallback.right⟩
  | connected conn err =>
    have hone := runFrom_singleton hfw
    have hkbds : fw.kbds = s.fw.kbds := (Firmware.stepped hone).kbds
    have hcallback := hs.callback hone (fun _ heq => by cases heq)
      (.inl (congrArg KbdsClient.keystates hkbds))
    exact ⟨hcallback.left, hcallback.messages, hcallback.client, hcallback.right⟩
  | discoveryCompleted valueHandle cccHandle subscribeErr readErr =>
    cases hconn : s.link.conn with
    | none =>
      rw [callbacks, hconn] at hfw
      obtain rfl := Option.some.inj hfw
      rw [moved, hconn]
      exact hs
    | some conn =>
      rw [callbacks, hconn] at hfw
      have hone := runFrom_singleton hfw
      have hkeystates : fw.kbds.keystates = btKbdsValInvalid := by
        rw [(Firmware.stepped hone).kbds, Firmware.nextKbds, discoveryCompletedCb_kbdsSvc]
      have hcallback := hs.callback hone (fun _ heq => by cases heq)
        (.inr (.inl hkeystates))
      rw [moved, hconn]
      exact ⟨hcallback.left, hcallback.messages, hcallback.client, hcallback.right⟩
  | readFailed err =>
    have hone := runFrom_singleton hfw
    refine hs.callback hone (fun _ heq => by cases heq) (.inl ?_)
    rw [(Firmware.stepped hone).kbds, Firmware.nextKbds,
      KbdsClient.readProcess_failed henabled.1]
  | disconnected =>
    cases hconn : s.link.conn with
    | none =>
      rw [callbacks, hconn] at hfw
      obtain rfl := Option.some.inj hfw
      exact ⟨hs.left, fun _ hm => absurd hm List.not_mem_nil, hs.client, hs.right⟩
    | some conn =>
      rw [callbacks, hconn] at hfw
      have hone := runFrom_singleton hfw
      have hkeystates : fw.kbds.keystates = s.fw.kbds.keystates ∨
          fw.kbds.keystates = btKbdsValInvalid ∨ Within fw.kbds.keystates seen.1 := by
        rw [(Firmware.stepped hone).kbds, Firmware.nextKbds]
        split
        · exact .inr (.inr (within_zero _))
        · exact .inl rfl
      have hcallback := hs.callback hone (fun _ heq => by cases heq) hkeystates
      exact ⟨hcallback.left, fun _ hm => absurd hm List.not_mem_nil, hcallback.client,
        hcallback.right⟩
  | other fe =>
    have hone : s.fw.step sendErr fe = some fw := runFrom_singleton hfw
    by_cases hturn : ∃ pins, fe = .turn pins
    · obtain ⟨pins, rfl⟩ := hturn
      exact hs.turn hone
    · have hseen : nextSeen seen s (.other fe) = seen := by
        cases fe with
        | turn pins => exact absurd ⟨pins, rfl⟩ hturn
        | _ => rfl
      rw [hseen]
      obtain ⟨hkbds, -⟩ := Firmware.fromElsewhere_frame henabled hlinked.idle hone
      exact hs.callback hone (fun pins heq => hturn ⟨pins, heq⟩)
        (.inl (congrArg KbdsClient.keystates hkbds))

/-- The presses of a call are of switches that have been down. -/
theorem Genuine.down (hs : Genuine s seen) {c : Call}
    (hc : c ∈ s.fw.poll.calls s.fw.kbds.keystates) (hdown : c.down = true) :
    bitAt seen.1 seen.2 c.pos = true := by
  rcases List.mem_append.mp hc with hc | hc
  · obtain ⟨hne, hleft, -, -, hbit⟩ := Poll.mem_leftCalls.mp hc
    have hpos : c.pos = (true, c.position) := Prod.ext hleft rfl
    rw [hpos]
    -- the sentinel has no edges
    rcases hs.client with hinvalid | hwithin
    · exact absurd hinvalid hne
    · exact hwithin c.position (hbit.symm.trans hdown)
  · obtain ⟨hright, -, -, hbit⟩ := Poll.mem_rightCalls.mp hc
    have hpos : c.pos = (false, c.position) := Prod.ext hright rfl
    rw [hpos]
    exact hs.right c.position (hbit.symm.trans hdown)

end SplitKeyboard

/-! ## Runs -/

/-- The split keyboard, with what has been scanned on the side. -/
def scannedKeyboard (κ : Type u) (sendErr : Nat → Int) (buttonState : Word) :
    Machine ((SplitKeyboard κ × Bool) × Seen) (SplitEvent κ) :=
  (splitKeyboard κ sendErr buttonState).recording (0, 0)
    fun seen s e => SplitKeyboard.nextSeen seen s.1 e

/-- **No key out of nothing**: in every run of the whole keyboard, a press that a turn dispatches
is one of a switch that some scan of its half has found down before. -/
theorem presses_genuine {κ : Type u} (sendErr : Nat → Int) (buttonState : Word)
    (es : List (SplitEvent κ)) :
    (scannedKeyboard κ sendErr buttonState).Along (fun s e _ =>
      ∀ pins, e = .other (.turn pins) → s.1.1.fw.reporting = true →
        ∀ c ∈ s.1.1.fw.poll.calls s.1.1.fw.kbds.keystates, c.down = true →
          bitAt s.2.1 s.2.2 c.pos = true) es := by
  refine Machine.alongFrom_of_inv (I := fun s => s.1.1.Linked s.1.2 ∧ s.1.1.Genuine s.2) es
    ⟨SplitKeyboard.linked_init buttonState, SplitKeyboard.genuine_init buttonState⟩ ?_
  rintro s e t ⟨hlinked, hgenuine⟩ ht
  obtain ⟨hsplit, hseen⟩ := Machine.recording_step.mp ht
  obtain ⟨hstep, hnext⟩ := split_step hsplit
  refine ⟨⟨hnext ▸ hlinked.step hstep, hseen ▸ hgenuine.step hlinked hstep⟩, ?_⟩
  rintro pins - - c hc hdown
  exact hgenuine.down hc hdown

end BleKeyboard
