import BleKeyboard.Firmware.ClientCalls
import Mathlib.Data.List.Destutter

/-!
# What periodic reading tells the application

`periodic_read_process` gets the value of the left half again and again, and passes it on when
it is another one than last time. So what the application hears is the values that were read,
each as often as it changes.

`told_changes`: between a call that sets the callback and one that clears it, as long as nothing
but the response to a periodic read stores a key state.
-/

namespace BleKeyboard

open Base

namespace KbdsClient

/-- The call leaves the callback set, if it is, and stores no key state unless it is the response to
a periodic read. -/
def KeepsListening (kbds : KbdsClient) : Op → Prop
  | .readKeystates _ _ | .subscribeKeystates _ _ | .startPerReadKeystates _ _
  | .stopPerReadKeystates | .kbdsReadValueHandler _ | .periodicReadProcess _ _ => True
  -- a single read that nobody waits for, or that brings no value
  | .readProcess err data => kbds.readCb = none ∨ readStored err data = none
  | .handlesAssign dm => dm.isKbds = false
  | .disconnected _ isDefault => isDefault = false
  | .unsubscribeKeystates _ | .notifyProcess _ => False

instance (kbds : KbdsClient) : DecidablePred kbds.KeepsListening
  | .readKeystates _ _ | .subscribeKeystates _ _ | .startPerReadKeystates _ _
  | .stopPerReadKeystates | .kbdsReadValueHandler _ | .periodicReadProcess _ _ => .isTrue trivial
  | .readProcess _ _ => inferInstanceAs (Decidable (_ ∨ _))
  | .handlesAssign _ | .disconnected _ _ => inferInstanceAs (Decidable (_ = _))
  | .unsubscribeKeystates _ | .notifyProcess _ => .isFalse id

/-- The value that the response to a periodic read brings, if it is one that can be stored. -/
def reading (_ : KbdsClient) : Op → List Word
  | .periodicReadProcess err data => (readStored err data).toList
  | _ => []

/-- The value that a call passes to the notification callback. -/
def told (kbds : KbdsClient) : Op → List Word
  | .notifyProcess data =>
    ((kbds.notifyProcess data).bind fun r => r.2.map NotifyReply.keystates).toList
  | .periodicReadProcess err data =>
    ((kbds.periodicReadProcess err data).2.map NotifyReply.keystates).toList
  | _ => []

variable {kbds t : KbdsClient} {op : Op}

/-! ## One call -/

/-- A call that cannot happen brings no value and tells none. -/
theorem silent_of_call_eq_none (h : kbds.call op = none) :
    kbds.reading op = [] ∧ kbds.told op = [] := by
  cases op with
  | notifyProcess data =>
    refine ⟨rfl, ?_⟩
    rw [told, Option.map_eq_none_iff.mp h]
    rfl
  | kbdsReadValueHandler gattErr => exact ⟨rfl, rfl⟩
  | _ => cases h

/-- A response tells the value that it brings if that is a new one. -/
theorem told_periodicReadProcess (err : Byte) (data : Data) {cb : NotifyCb}
    (hcb : kbds.notifyCb = some cb) :
    kbds.told (.periodicReadProcess err data)
      = ((readStored err data).filter fun w => kbds.keystates ≠ w).toList := by
  rw [told, periodicReadProcess, hcb]
  dsimp only
  by_cases herr : err ≠ 0
  · rw [if_pos herr, readStored_of_not_one fun h => herr h.1]
    rfl
  · obtain rfl := not_not.mp herr
    rw [if_neg herr]
    rcases data with _ | _ | ⟨b, _ | _⟩
    · rfl
    · rfl
    · by_cases hmax : (b.setWidth 32 : Word) > btKbdsValMax
      · simp only [if_pos hmax, readStored_of_gt 0 hmax]
        rfl
      · simp only [if_neg hmax, readStored_of_not_gt hmax]
        by_cases hnew : kbds.keystates = b.setWidth 32
        · simp [hnew]
        · simp [hnew, Option.filter]
    · rfl

/-- Such a call tells the value that it brings, if it brings one and that is a new one. -/
theorem KeepsListening.told (hkeeps : kbds.KeepsListening op) (hcb : kbds.notifyCb ≠ none) :
    kbds.reading op = [] ∧ kbds.told op = [] ∨
      ∃ w, kbds.reading op = [w] ∧ kbds.told op = if kbds.keystates ≠ w then [w] else [] := by
  cases op with
  | periodicReadProcess err data =>
    obtain ⟨cb, hsome⟩ := Option.ne_none_iff_exists'.mp hcb
    rw [told_periodicReadProcess err data hsome, reading]
    cases readStored err data with
    | none => exact .inl ⟨rfl, rfl⟩
    | some w =>
      refine .inr ⟨w, rfl, ?_⟩
      by_cases hw : kbds.keystates = w
      · simp [hw]
      · simp [hw, Option.filter]
  | notifyProcess data => cases hkeeps
  | _ => exact .inl ⟨rfl, rfl⟩

/-- Such a call leaves the callback set, and the value that it brings. -/
theorem KeepsListening.call (hkeeps : kbds.KeepsListening op) (hcb : kbds.notifyCb ≠ none)
    (h : kbds.call op = some t) :
    t.notifyCb ≠ none ∧ t.keystates = (kbds.reading op).head?.getD kbds.keystates := by
  have hnext := (called h).notifyCb
  cases op with
  | readKeystates func gattErr =>
    obtain rfl := Option.some.inj h
    refine ⟨hnext ▸ hcb, ?_⟩
    by_cases hr : kbds.Reads
    · rw [kbds.readKeystates_of_reads func gattErr hr]
      rfl
    · obtain ⟨ret, -, heq⟩ := kbds.readKeystates_of_not_reads func gattErr hr
      rw [heq]
      rfl
  | subscribeKeystates func gattErr =>
    obtain rfl := Option.some.inj h
    -- the callback is taken
    have hnot : ¬kbds.Subscribes := fun hs => hcb hs.2.2
    obtain ⟨ret, -, heq⟩ := kbds.subscribeKeystates_of_not_subscribes func gattErr hnot
    rw [heq]
    exact ⟨hcb, rfl⟩
  | startPerReadKeystates interval func =>
    obtain rfl := Option.some.inj h
    by_cases hr : kbds.RefusesPerRead interval
    · obtain ⟨ret, -, heq⟩ := kbds.startPerReadKeystates_of_refuses func hr
      rw [heq]
      exact ⟨hcb, rfl⟩
    · rw [kbds.startPerReadKeystates_of_not_refuses func hr]
      exact ⟨Option.some_ne_none func, rfl⟩
  | stopPerReadKeystates =>
    obtain rfl := Option.some.inj h
    exact ⟨hcb, rfl⟩
  | kbdsReadValueHandler gattErr =>
    obtain ⟨-, heq⟩ := Option.ite_none_right_eq_some.mp h
    obtain rfl := Option.some.inj heq
    refine ⟨hnext ▸ hcb, ?_⟩
    unfold KbdsClient.kbdsReadValueHandler
    dsimp only
    split
    · rfl
    · split <;> rfl
  | periodicReadProcess err data =>
    obtain rfl := Option.some.inj h
    obtain ⟨cb, hsome⟩ := Option.ne_none_iff_exists'.mp hcb
    refine ⟨hnext ▸ hcb, ?_⟩
    rw [kbds.periodicReadProcess_keystates err data hsome, reading]
    cases readStored err data <;> rfl
  | readProcess err data =>
    obtain rfl := Option.some.inj h
    refine ⟨hnext ▸ hcb, ?_⟩
    show (kbds.readProcess err data).1.keystates = kbds.keystates
    cases hread : kbds.readCb with
    | none => rw [readProcess, hread]
    | some cb =>
      have hnone := hkeeps.resolve_left (by rw [hread]; exact Option.some_ne_none cb)
      rw [kbds.readProcess_keystates err data hread, hnone, Option.getD_none]
  | handlesAssign dm =>
    -- another service: nothing is assigned
    have hsame : kbds.handlesAssign dm = (-enotsup, kbds) := by
      rw [KbdsClient.handlesAssign, show dm.isKbds = false from hkeeps]
      rfl
    obtain rfl := Option.some.inj h
    rw [hsame]
    exact ⟨hcb, rfl⟩
  | disconnected conn isDefault =>
    have hother : isDefault = false := hkeeps
    obtain rfl := Option.some.inj h
    rw [hother, if_neg Bool.false_ne_true]
    exact ⟨hcb, rfl⟩
  | unsubscribeKeystates _ | notifyProcess _ => exact hkeeps.elim

end KbdsClient

/-! ## Runs -/

/-- **Every change, once**: from any client whose callback is set, as long as it stays set and
nothing but the responses to periodic reads stores a key state, the callback is told the values
that these bring, one after the other, without those that are no change from the one before; the
first is compared with the key state at the start. -/
theorem told_changes {kbds : KbdsClient} (hcb : kbds.notifyCb ≠ none) {ops : List KbdsClient.Op}
    (hkeep : client.AlongFrom (fun kbds op _ => kbds.KeepsListening op) kbds ops) :
    (client.emitted KbdsClient.reading kbds ops).destutter' (· ≠ ·) kbds.keystates
      = kbds.keystates :: client.emitted KbdsClient.told kbds ops := by
  induction ops generalizing kbds with
  | nil => rfl
  | cons op ops ih =>
    rw [Machine.emitted, Machine.emitted]
    cases hstep : client.step kbds op with
    | none =>
      obtain ⟨hreading, htold⟩ := KbdsClient.silent_of_call_eq_none hstep
      rw [hreading, htold]
      rfl
    | some t =>
      obtain ⟨hop, hrest⟩ := Machine.alongFrom_cons.mp hkeep t hstep
      obtain ⟨hcb', hkeystates⟩ := hop.call hcb hstep
      have hdestutter := ih hcb' hrest
      obtain ⟨hreading, htold⟩ | ⟨w, hreading, htold⟩ := hop.told hcb
      · have hsame : t.keystates = kbds.keystates := by
          rw [hkeystates, hreading]
          rfl
        rw [hsame] at hdestutter
        rw [hreading, htold, List.nil_append, List.nil_append]
        exact hdestutter
      · have hnew : t.keystates = w := by
          rw [hkeystates, hreading]
          rfl
        rw [hnew] at hdestutter
        rw [hreading, htold, List.singleton_append, List.destutter'_cons]
        by_cases hw : kbds.keystates = w
        · rw [if_neg (not_not.mpr hw), if_neg (not_not.mpr hw), hw]
          exact hdestutter
        · rw [if_pos hw, if_pos hw, hdestutter]
          rfl

/-- Five values, one of them of the wrong size and one twice in a row. -/
theorem told_changes_five :
    let kbds := { KbdsClient.clientInit with
      conn := some 1, notifyCb := some .notifyKeystatesCb, periodicRead := ⟨true, 3, 10000⟩ }
    let ops : List KbdsClient.Op := [.kbdsReadValueHandler 0, .periodicReadProcess 0 (some [1]),
      .kbdsReadValueHandler 0, .periodicReadProcess 0 (some [1, 0]),
      .periodicReadProcess 0 (some [1]), .periodicReadProcess 0 (some [2]),
      .periodicReadProcess 0 (some [1])]
    client.emitted KbdsClient.told kbds ops = [1, 2, 1] ∧
      (client.emitted KbdsClient.reading kbds ops).destutter' (· ≠ ·) kbds.keystates
        = kbds.keystates :: client.emitted KbdsClient.told kbds ops :=
  ⟨by decide, told_changes (by decide) (by decide)⟩

end BleKeyboard
