import Hdmi2usbd.Actions
import Hdmi2usbd.Cycle
import Hdmi2usbd.Daemon

/-!
# Readings — no clock reading is used twice

A round, a turn of a cycle and an initialisation take their clock readings after those that
were taken before them: `World.tick`, the number of the next reading, never goes back.
-/

namespace Hdmi2usbd

/-! ## A turn of the select loop -/

theorem devAct_tick (s : Iodev × World) (a : DevAct) : s.2.tick ≤ (a.apply s).2.tick := by
  cases a with
  | tick => exact Nat.le_succ _
  | _ => exact le_rfl

theorem devReaches_tick {p : Policy} {s s' : Iodev × World} (h : DevReaches p s s') :
    s.2.tick ≤ s'.2.tick :=
  h.preserves (fun t => s.2.tick ≤ t.2.tick) (fun t a ht _ => ht.trans (devAct_tick t a)) le_rfl

theorem netAct_tick (n : Net) (a : NetAct) : n.world.tick ≤ (a.apply n).world.tick := by
  cases a with
  | device index a | lost index a =>
    simp only [NetAct.apply]
    split
    · next dev _ => exact devAct_tick (dev, n.world) a
    · exact le_rfl
  | note ev | accept fd bufsize slot => exact le_rfl

theorem netReaches_tick {p : Policy} {n n' : Net} (h : NetReaches p n n') :
    n.world.tick ≤ n'.world.tick :=
  h.preserves (fun m => n.world.tick ≤ m.world.tick)
    (fun m a hm _ => hm.trans (netAct_tick m a)) le_rfl

variable (clock : Nat → UTime)

theorem selectorRound_tick (a : RoundAnswers) (sets : FdSets) (sel : Selector) (w : World) :
    w.tick ≤ (selectorRound clock a sets sel w).2.2.2.tick :=
  netReaches_tick (selectorRound_any clock a sets sel w)

/-! ## A cycle -/

/-- A command that is handed on takes the reading of the reset after that of the check. -/
theorem clientCommands_tick (lastCommand : Microtimer) (serial dev : Iodev) (w : World) :
    (w.expired clock lastCommand).2.tick ≤
      (hdmi2usbProcessClientCommands clock lastCommand serial dev w).2.2.2.tick := by
  rcases clientCommands_cases clock lastCommand serial dev w with
    ⟨-, heq⟩ | ⟨line, rest, dev', -, -, heq, -, -⟩
  · rw [heq]
  · rw [heq]
    exact Nat.le_succ _

theorem copySerialData_tick (copy : RingBuffer) (sBytes : Nat) (dev : Iodev) (w : World) :
    (copySerialData copy sBytes dev w).2.tick = w.tick := by
  unfold copySerialData
  split
  · rfl
  · rfl

theorem processStep_tick (sBytes : Nat) (s : ProcessState) (index : Nat) :
    s.world.tick ≤ (processStep clock sBytes s index).world.tick := by
  unfold processStep
  split
  · next serial dev _ _ =>
    split
    · exact le_rfl
    · rw [← copySerialData_tick s.app.copy sBytes dev s.world]
      exact (World.tick_le_expired clock s.app.lastCommand _).trans
        (clientCommands_tick clock _ _ _ _)
  · exact le_rfl

/-- A turn that finds the timer running has taken a reading. -/
theorem processStep_reads (sBytes : Nat) {s : ProcessState} {index : Nat} {serial dev : Iodev}
    (hserial : s.app.selector.toList[0]? = some serial)
    (hdev : s.app.selector.toList[index]? = some dev) (hconn : iodevIsListener dev = false)
    (hno : (s.world.expired clock s.app.lastCommand).1 = false) :
    s.world.tick < (processStep clock sBytes s index).world.tick := by
  have hcopy := copySerialData_tick s.app.copy sBytes dev s.world
  simp only [processStep, selectorGetDevice_eq, hserial, hdev, hconn, Bool.false_eq_true, if_false]
  refine lt_of_lt_of_le ?_ (clientCommands_tick clock _ _ _ _)
  rw [← hcopy]
  exact World.tick_lt_expired ((World.expired_tick hcopy _).trans hno)

/-! ## An initialisation -/

/-- The serial device that an initialisation makes takes a reading for its pacer. -/
theorem hdmi2usbInit_tick {a : InitAnswers} {app app' : Hdmi2usb} {rc rc' : Int} {w w' : World}
    (h : hdmi2usbInit clock a app rc w = some (rc', app', w')) : w.tick ≤ w'.tick := by
  rcases hdmi2usbInit_cases h with ⟨-, -, -, rfl⟩ | ⟨_, _, -, -, -, -, rfl⟩
  · exact le_rfl
  · exact Nat.le_succ _

end Hdmi2usbd
