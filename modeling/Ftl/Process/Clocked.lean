/-
  Process/Clocked.lean --- the runners against the clock alone.

  What a runner decides about a timeout depends on the clock readings and on when its polls
  return.  An `Event` is a call with its reply and the time at which it returned; every
  sequence of replies is allowed, as long as the clock does not go back and poll(t) returns 0
  after t ms at the earliest.

      readings_concat    the clock readings so far
      time_le            the clock does not go back
-/
import Ftl.Foundation.Runs
import Ftl.Process.Syscall

set_option autoImplicit false

namespace Ftl.Process

open Foundation (Runs)

/-! ## Events -/

/-- A call of the parent, what it returned, and when (in ns, of which the clock counts 64
bits). -/
structure Event where
  call : Call
  reply : Reply
  time : Nat
  time_lt : time < 9223372036854775808 := by decide

theorem zero_counted : 0 < 9223372036854775808 := by decide

theorem one_counted : 1 < 9223372036854775808 := by decide

theorem million_counted : 1000000 < 9223372036854775808 := by decide

/-- The clock reading that the event is, if it is one. -/
def Event.reading (e : Event) : Option Nat := if e.call = .clock then some e.time else none

/-- The clock readings among the events. -/
def readings (es : List Event) : List Nat := es.filterMap Event.reading

/-- A move of the parent, from a time to another. -/
structure Clocked {X : Type} (Par : X → Call → Reply → X → Prop) (x : X × Nat) (e : Event)
    (y : X × Nat) : Prop where
  moves : Par x.1 e.call e.reply y.1
  time_eq : y.2 = e.time
  later : x.2 ≤ e.time
  reads : ∀ now, e.reply = .time now → now = e.time
  /-- poll returns 0 after its timeout at the earliest -/
  punctual : ∀ fds ms, e.call = .poll fds ms → e.reply = .lapsed →
    0 ≤ ms ∧ x.2 + ms * 1000000 ≤ e.time

theorem Clocked.time_le {X : Type} {Par : X → Call → Reply → X → Prop} {x y : X × Nat}
    {e : Event} (hstep : Clocked Par x e y) : x.2 ≤ y.2 := by
  rw [hstep.time_eq]
  exact hstep.later

theorem clocked_unique {X : Type} {Par : X → Call → Reply → X → Prop}
    (hdet : ∀ x c r y y', Par x c r y → Par x c r y' → y = y') :
    ∀ (x : X × Nat) (e : Event) (y y' : X × Nat), Clocked Par x e y → Clocked Par x e y' →
      y = y' := by
  intro x e y y' h h'
  exact Prod.ext (hdet _ _ _ _ _ h.moves h'.moves) (h.time_eq.trans h'.time_eq.symm)

section Readings

variable {X : Type} {Par : X → Call → Reply → X → Prop} {x y : X × Nat} {es : List Event}
  {e : Event}

theorem readings_concat : readings (es ++ [e]) = readings es ++ e.reading.toList := by
  unfold readings
  rw [List.filterMap_append]
  cases h : e.reading with
  | none => simp [h]
  | some now => simp [h]

@[simp] theorem reading_of_clock (h : e.call = .clock) : e.reading = some e.time := if_pos h

theorem reading_of_other (h : e.call ≠ .clock) : e.reading = none := if_neg h

theorem head?_readings_concat {start : Nat} (h : (readings es).head? = some start) :
    (readings (es ++ [e])).head? = some start := by
  rw [readings_concat, List.head?_append, h]
  rfl

theorem readings_clock (h : e.call = .clock) : readings (es ++ [e]) = readings es ++ [e.time] := by
  rw [readings_concat, reading_of_clock h]
  rfl

theorem readings_other (h : e.call ≠ .clock) : readings (es ++ [e]) = readings es := by
  rw [readings_concat, reading_of_other h, Option.toList_none, List.append_nil]

theorem time_le (hrun : Runs (Clocked Par) x es y) : x.2 ≤ y.2 := by
  induction hrun with
  | refl => exact Nat.le_refl _
  | tail _ hstep ih =>
      exact Nat.le_trans ih hstep.time_le

/-- The clock readings of a run are not before its start, nor after its end. -/
theorem reading_between (hrun : Runs (Clocked Par) x es y) :
    ∀ now ∈ readings es, x.2 ≤ now ∧ now ≤ y.2 := by
  induction hrun with
  | refl => simp [readings]
  | @tail mid z es e hrun hstep ih =>
      intro now hnow
      rw [readings_concat] at hnow
      have hlater := hstep.later
      rw [hstep.time_eq]
      rcases List.mem_append.mp hnow with hbefore | hlast
      · have hbetween := ih now hbefore
        omega
      · have hpassed := time_le hrun
        unfold Event.reading at hlast
        split at hlast
        · rw [List.mem_singleton.mp hlast]
          omega
        · cases hlast

end Readings

end Ftl.Process
