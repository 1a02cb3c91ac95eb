import Hdmi2usbd.Cycle
import Hdmi2usbd.Daemon

/-!
# Stopping — when a process cycle gives up

A cycle counts the listeners that it passes and gives up when it has counted none. It counts a
listener by its flag and not by its state, so that one whose socket failed for good keeps the
daemon running: the result is the one meant if there is no listener at all, if one is not
inactive, or if both results are the same (`stops_iff`).
-/

namespace Hdmi2usbd

open Machine (run)

variable {clock : Nat → UTime}

/-- The devices that a cycle passes, all but the serial device. -/
def ports (app : Hdmi2usb) : List Iodev := app.selector.toList.drop 1

/-- A listener that is open, or still due to be opened. -/
def CanListen (dev : Iodev) : Prop := iodevIsListener dev ∧ dev.state ≠ .iodevInactive

instance (dev : Iodev) : Decidable (CanListen dev) := inferInstanceAs (Decidable (_ ∧ _))

/-- The cycle gives up exactly when the daemon can no longer be reached. -/
def StopsUnreachable (clock : Nat → UTime) (app : Hdmi2usb) (rc : Int) (w : World) : Prop :=
  (hdmi2usbProcess clock app rc w).1 = if ∃ dev ∈ ports app, CanListen dev then rc else exNormal

/-! ## The count -/

theorem SameShell.listeners {devs devs' : List Iodev} {w w' : World}
    (h : SameShell devs w devs' w') : devs'.map iodevIsListener = devs.map iodevIsListener := by
  have hflags := congrArg (List.map iodevIsListener) h.devs
  rw [List.map_map, List.map_map] at hflags
  exact hflags

/-- A turn counts the device at its index if that is a listener. -/
theorem processStep_listenerCount (sBytes : Nat) (s : ProcessState) (index : Nat) :
    (processStep clock sBytes s index).listenerCount = s.listenerCount +
      ((s.app.selector.toList.map iodevIsListener)[index]?.toList).count true := by
  unfold processStep
  simp only [selectorGetDevice_eq, List.getElem?_map]
  cases hserial : s.app.selector.toList[0]? with
  | none =>
    have hempty : s.app.selector.toList = [] :=
      List.length_eq_zero_iff.mp (Nat.le_zero.mp (List.getElem?_eq_none_iff.mp hserial))
    simp [hempty]
  | some serial =>
    cases hdev : s.app.selector.toList[index]? with
    | none => simp
    | some dev =>
      by_cases hl : iodevIsListener dev
      · simp [hl]
      · simp [hl]

/-- Before the turn for `index`, the listeners below it are counted. -/
structure Counted (s : ProcessState) (index : Nat) (t : ProcessState) : Prop where
  shell : SameShell s.app.selector.toList s.world t.app.selector.toList t.world
  count : t.listenerCount =
    (((s.app.selector.toList.map iodevIsListener).drop 1).take (index - 1)).count true

theorem Counted.turn {s t : ProcessState} {index : Nat} (h : Counted s index t) (hpos : 1 ≤ index)
    (sBytes : Nat) : Counted s (index + 1) (processStep clock sBytes t index) := by
  refine ⟨h.shell.trans (processStep_shell clock sBytes t hpos), ?_⟩
  have hslot : ((s.app.selector.toList.map iodevIsListener).drop 1)[index - 1]? =
      (s.app.selector.toList.map iodevIsListener)[index]? := by
    rw [List.getElem?_drop, Nat.add_sub_cancel' hpos]
  rw [processStep_listenerCount, h.shell.listeners, h.count, ← hslot, ← List.count_append,
    ← List.take_add_one, Nat.sub_add_cancel hpos, Nat.add_sub_cancel]

/-- The turns count the listeners of the slots they pass. -/
theorem processTurns_listenerCount (sBytes n : Nat) {s : ProcessState} (hzero : s.listenerCount = 0) :
    (run (processStep clock sBytes) s (List.range' 1 n)).listenerCount =
      (((s.app.selector.toList.map iodevIsListener).drop 1).take n).count true := by
  have hrun : Counted s (1 + n) (run (processStep clock sBytes) s (List.range' 1 n)) :=
    Machine.run_range' (Counted s) (fun index t hpos ht => ht.turn hpos sBytes)
      ⟨⟨rfl, rfl, rfl⟩, by simp [hzero]⟩ n
  rw [hrun.count, Nat.add_sub_cancel_left]

/-- The turns of a cycle count the listeners among the ports. -/
theorem cycle_listenerCount {app : Hdmi2usb} {serial : Iodev}
    (hserial : selectorGetDevice app.selector 0 = some serial) (w : World) :
    (run (processStep clock (hdmi2usbProcessSerialData app.copy serial w).1)
      ⟨{ app with
          selector := app.selector.store 0 (hdmi2usbProcessSerialData app.copy serial w).2.2.1
          copy := (hdmi2usbProcessSerialData app.copy serial w).2.1 },
        (hdmi2usbProcessSerialData app.copy serial w).2.2.2, 0, 0⟩
      (List.range' 1 (selectorDeviceCount app.selector - 1))).listenerCount =
      (ports app).countP iodevIsListener := by
  rcases processSerialData_shape app.copy serial w with ⟨rbuf, evs, hmoved, hworld, -⟩
  rw [selectorGetDevice_eq] at hserial
  -- moving the serial data out of its buffer leaves every flag as it was
  have hshell : SameShell app.selector.toList w
      (app.selector.store 0 { serial with rbuf := rbuf }).toList { w with log := w.log ++ evs } := by
    refine ⟨?_, rfl, rfl⟩
    rw [Selector.store_toList]
    exact map_shell_set hserial rfl
  rw [processTurns_listenerCount _ _ rfl, hmoved, hshell.listeners, ← List.map_drop,
    ← Selector.length_toList, List.take_of_length_le (by simp), List.count, List.countP_map]
  refine List.countP_congr fun dev _ => ?_
  simp

/-- What a cycle returns: it gives up when there is no listener, open or not. -/
theorem hdmi2usbProcess_result {app : Hdmi2usb} {serial : Iodev}
    (hserial : selectorGetDevice app.selector 0 = some serial)
    (hactive : serial.state ≠ .iodevInactive) (rc : Int) (w : World) :
    (hdmi2usbProcess clock app rc w).1 =
      if ∃ dev ∈ ports app, iodevIsListener dev then rc else exNormal := by
  have hcount := @cycle_listenerCount clock app serial hserial w
  have hzero : (ports app).countP iodevIsListener = 0 ↔
      ¬ ∃ dev ∈ ports app, iodevIsListener dev := by
    simp [List.countP_eq_zero]
  unfold hdmi2usbProcess
  rw [hserial]
  dsimp only
  rw [if_neg hactive]
  by_cases hany : ∃ dev ∈ ports app, iodevIsListener dev
  · rw [if_pos hany]
    exact if_neg fun h => hzero.mp (hcount.symm.trans h) hany
  · rw [if_neg hany]
    exact if_pos (hcount.trans (hzero.mpr hany))

/-! ## The result that is meant -/

theorem stops_iff {app : Hdmi2usb} {serial : Iodev}
    (hserial : selectorGetDevice app.selector 0 = some serial)
    (hactive : serial.state ≠ .iodevInactive) (rc : Int) (w : World) :
    StopsUnreachable clock app rc w ↔
      (∀ dev ∈ ports app, ¬ iodevIsListener dev) ∨ (∃ dev ∈ ports app, CanListen dev) ∨
        rc = exNormal := by
  unfold StopsUnreachable
  rw [hdmi2usbProcess_result hserial hactive]
  by_cases hcan : ∃ dev ∈ ports app, CanListen dev
  · rcases hcan with ⟨dev, hdev, hlistens⟩
    rw [if_pos ⟨dev, hdev, hlistens.1⟩, if_pos ⟨dev, hdev, hlistens⟩]
    exact iff_of_true rfl (.inr (.inl ⟨dev, hdev, hlistens⟩))
  · by_cases hany : ∃ dev ∈ ports app, iodevIsListener dev
    · -- every listener has failed for good
      rw [if_pos hany, if_neg hcan]
      constructor
      · intro hrc
        exact .inr (.inr hrc)
      · rintro (hnone | hsome | hrc)
        · rcases hany with ⟨dev, hdev, hl⟩
          exact absurd hl (hnone dev hdev)
        · exact absurd hsome hcan
        · exact hrc
    · rw [if_neg hany, if_neg hcan]
      exact iff_of_true rfl (.inl fun dev hdev hl => hany ⟨dev, hdev, hl⟩)

/-- The daemon with one address, after its first turn. -/
def afterTurn (i : Input) : Daemon :=
  (Daemon.start (fun _ => 0) 64 Daemon.oneAddress).step (fun _ => 0) i

/-- What the open functions get when there is no socket for the listener. -/
def serialOnly (index : Nat) : OpenAnswer :=
  { Daemon.openAll index with fd := if index = 0 then some 3 else none }

/-- A turn in which the listener fails for good. -/
def noSocket : Input := .round ⟨serialOnly, .ready .zero, fun _ => ⟨none, none, none⟩⟩

theorem deaf_daemon_goes_on :
    ¬ ∀ (app : Hdmi2usb) serial rc w, selectorGetDevice app.selector 0 = some serial →
      serial.state ≠ .iodevInactive → StopsUnreachable (fun _ => 0) app rc w := by
  intro h
  have hstops := h (afterTurn noSocket).app _ exSuccess (afterTurn noSocket).world rfl
    (by decide +kernel)
  have hdeaf : ¬ ∃ dev ∈ ports (afterTurn noSocket).app, CanListen dev := by decide +kernel
  rw [StopsUnreachable, if_neg hdeaf] at hstops
  revert hstops
  decide +kernel

theorem listening_daemon_goes_on :
    StopsUnreachable (fun _ => 0) (afterTurn Daemon.quietTurn).app exSuccess
      (afterTurn Daemon.quietTurn).world := by
  refine (stops_iff rfl ?_ exSuccess _).mpr (.inr (.inl ?_))
  · decide +kernel
  · decide +kernel

end Hdmi2usbd
