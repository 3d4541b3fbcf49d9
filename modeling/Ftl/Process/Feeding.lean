/-
  Process/Feeding.lean --- the stdin-feeding phase against the deadline.

  `run()` writes the whole payload before it fixes the deadline, so a payload has
  to fit into the stdin pipe for the deadline to mean anything:

      feeding_meets_deadline_iff   no run blocks in `write_all` past the deadline
                                   exactly when the payload fits
      feeding_misses_deadline      a payload one byte longer than the pipe

  One direction is an invariant that counts where the bytes of the payload are
  (`Fed`); the other is a run that fills the pipe of a child that is slow to read.
-/
import Ftl.Process.Collection

set_option autoImplicit false

namespace Ftl.Process

open Foundation (Runs)

/-! ## Blocked in write -/

section Blocked

variable {σ : Type}

/-- A parent in the call `c` waits for the child to make room in the stdin pipe. -/
def World.BlocksWrite (S : Setting) (w : World σ) (c : Option Call) : Prop :=
  ∃ data, c = some (.write data) ∧ data ≠ [] ∧
    w.holds .stdin = true ∧ S.capacity ≤ w.stdinPipe.length

/-- Unless it faults, a write of some bytes is answered by nothing but a signal
exactly when the stdin pipe is full and has a reader. -/
theorem World.blocksWrite_iff {S : Setting} {w : World σ} {data : Bytes}
    (hfaults : S.faults = false) (hdata : data ≠ []) :
    w.BlocksWrite S (some (.write data)) ↔
      ∀ r w', Answers S w (.write data) r w' → r = .failed .eintr := by
  constructor
  · rintro ⟨_, hcall, -, hreader, hfull⟩ r w' hans
    cases hcall
    cases hans with
    | wrote _ hpos _ hroom => omega
    | brokenPipe hnone =>
        rw [hreader] at hnone
        cases hnone
    | interrupted => rfl
    | fault hfault =>
        rw [hfaults] at hfault
        cases hfault
  · intro honly
    refine ⟨data, rfl, hdata, ?_, ?_⟩
    · by_contra hreader
      have h := honly _ _ (.brokenPipe (by simpa using hreader))
      cases h
    · by_contra hroom
      by_cases hreader : w.holds .stdin = true
      · have hlen : 0 < data.length := List.length_pos_iff.mpr hdata
        have h := honly _ _ (.wrote hreader Nat.one_pos hlen (by omega))
        cases h
      · have h := honly _ _ (.brokenPipe (by simpa using hreader))
        cases h

end Blocked

/-! ## The deadline -/

/-- The parent is blocked in `write_all` more than `timeout_ms` after the fork at
`t0`, and the child has not been killed. -/
def Subprocess.FeedingLate (sp : Subprocess) (capacity : Nat) (faults : Bool) (t0 : Nat)
    {σ : Type} (x : Parent × World σ) : Prop :=
  x.2.BlocksWrite (sp.setting capacity faults) (sp.pending x.1) ∧
    x.2.killed = false ∧ (t0 : Int) + sp.timeoutMs * 1000000 < x.2.clock

section Deadline

variable {S : Setting} {B : Behaviour}

/-- The stdin pipe and the runner together hold no more than the payload.  So a pipe that has
room for the payload has room for whatever is unsent. -/
def Fed (payload : Bytes) (x : Runner × World B.State) : Prop :=
  x.2.stdinPipe.length + x.1.unsent.length ≤ payload.length

theorem fed_step {payload : Bytes} {x y : Runner × World B.State} {l : Label}
    (h : Fed payload x) (hstep : Step S B Runner.Step x l y) : Fed payload y := by
  unfold Fed at h ⊢
  cases hstep with
  | parent hrunner hans =>
      cases hans with
      | wrote _ _ hle =>
          cases hrunner
          simp only [World.feed, List.length_append, List.length_take, List.length_drop]
          simp only at h
          omega
      | brokenPipe =>
          cases hrunner
          dsimp only [List.length_nil] at h ⊢
          omega
      | fault =>
          cases hrunner with
          | giveUp =>
              dsimp only [List.length_nil] at h ⊢
              omega
          | _ => exact h
      | interrupted =>
          rw [Runner.eq_of_interrupted hrunner]
          exact h
      | _ => cases hrunner <;> exact h
  | child _ hacts =>
      cases hacts with
      | @read bs rest _ _ hpipe =>
          simp only [hpipe, List.length_append] at h
          simp only [World.become, World.consume]
          omega
      | _ => exact h
  | die => exact h
  | tick => exact h

variable {capacity : Nat} {faults : Bool} {clock : Nat}

/-- The call of a machine in its write loop is a write of all that is unsent. -/
theorem Subprocess.tracks_write {sp : Subprocess} {p : Parent} {v : Runner} {data : Bytes}
    (htracks : sp.Tracks p v) (hcall : sp.pending p = some (.write data)) :
    v.unsent = data := by
  cases p with
  | feeding written =>
      cases htracks
      cases hcall
      rfl
  | _ => simp [pending] at hcall

/-- A payload that fits into the stdin pipe never blocks the parent. -/
theorem Subprocess.never_blocks {sp : Subprocess} {ls : List Label}
    {x : Parent × World B.State} (hfits : sp.stdinData.length ≤ capacity)
    (hrun : Runs (sp.Sys capacity faults B) (sp.initial B clock) ls x) :
    ¬ x.2.BlocksWrite (sp.setting capacity faults) (sp.pending x.1) := by
  obtain ⟨p, w⟩ := x
  rintro ⟨data, hcall, hdata, -, hfull⟩
  obtain ⟨v, hruns, htracks⟩ := Subprocess.abstract_run hrun
  have hfed : Fed sp.stdinData (v, w) :=
    hruns.invariant (by simp [Fed, Runner.fresh, World.initial]) fed_step
  have hunsent := Subprocess.tracks_write htracks hcall
  have hpos : 0 < data.length := List.length_pos_iff.mpr hdata
  simp only [Fed, hunsent] at hfed
  simp only [Subprocess.setting] at hfull
  omega

/-- A payload that does not fit fills the pipe of a child that has not read yet. -/
theorem Subprocess.reaches_full {sp : Subprocess} (faults : Bool) (B : Behaviour) (clock : Nat)
    (hlong : capacity < sp.stdinData.length) :
    ∃ ls w, Runs (sp.Sys capacity faults B) (sp.initial B clock) ls (.feeding capacity, w) ∧
      w.holds .stdin = true ∧ w.stdinPipe.length = capacity ∧ w.killed = false ∧
      w.clock = clock := by
  have hstart : sp.start = .feeding 0 := by
    unfold start writeAll
    rw [if_pos (by omega)]
  by_cases hzero : capacity = 0
  · subst hzero
    refine ⟨[], World.initial B.start clock, ?_, rfl, rfl, rfl, rfl⟩
    rw [← hstart]
    exact .refl _
  · have hmove : sp.Moves (.feeding 0) (.write (sp.stdinData.drop 0)) (.wrote capacity)
        (.feeding capacity) := by
      refine ⟨rfl, ?_⟩
      simp only [advance, writeAll, Nat.zero_add]
      rw [if_pos hlong]
    have hans : Answers (sp.setting capacity faults) (World.initial B.start clock)
        (.write (sp.stdinData.drop 0)) (.wrote capacity) _ :=
      .wrote rfl (by omega) (by simpa using Nat.le_of_lt hlong)
        (by simp [World.initial, Subprocess.setting])
    refine ⟨_, _, .single (.parent ?_ hans), rfl, ?_, rfl, rfl⟩
    · simpa only [initial, hstart] using hmove
    · simp [World.feed, World.initial]
      omega

/-- With such a payload, waiting is all it takes to pass the deadline. -/
theorem Subprocess.reaches_late (sp : Subprocess) (faults : Bool) (B : Behaviour)
    (clock : Nat) (hlong : capacity < sp.stdinData.length) :
    ∃ ls x, Runs (sp.Sys capacity faults B) (sp.initial B clock) ls x ∧
      sp.FeedingLate capacity faults clock x := by
  obtain ⟨ls, w, hrun, hreader, hfull, halive, hclock⟩ :=
    Subprocess.reaches_full faults B clock hlong
  have hlate := hrun.tail (.tick (sp.timeoutMs.toNat * 1000000 + 1))
  refine ⟨_, _, hlate, ⟨_, rfl, ?_, ?_, ?_⟩, ?_, ?_⟩
  · simpa using hlong
  · rw [World.holds_tick]
    exact hreader
  · rw [World.stdinPipe_tick, hfull]
    exact Nat.le_refl capacity
  · rw [World.killed_tick]
    exact halive
  · have hpos := sp.timeout_pos
    rw [World.clock_tick, hclock]
    omega

/-- No run ever blocks in `write_all` past the deadline exactly when the payload
fits into the stdin pipe.  A longer one needs a child that reads, and until `write_all` has
returned nobody looks at the clock. -/
theorem feeding_meets_deadline_iff (sp : Subprocess) (capacity : Nat) (faults : Bool)
    (B : Behaviour) (clock : Nat) :
    (∀ ls x, Runs (sp.Sys capacity faults B) (sp.initial B clock) ls x →
      ¬ sp.FeedingLate capacity faults clock x) ↔ sp.stdinData.length ≤ capacity := by
  constructor
  · intro hnever
    by_contra hlong
    obtain ⟨ls, x, hrun, hlate⟩ :=
      sp.reaches_late faults B clock (Nat.lt_of_not_le hlong)
    exact hnever ls x hrun hlate
  · rintro hfits ls x hrun ⟨hblocks, -, -⟩
    exact Subprocess.never_blocks hfits hrun hblocks

/-- A payload of one byte more than a pipe of 64 KiB. -/
def floodRun : Subprocess := (Subprocess.ofProgram []).setStdinData (List.replicate 65537 0)

/-- A hanging child that does not read its stdin holds `run()` past the deadline:
the deadline is only fixed once the payload is gone. -/
theorem feeding_misses_deadline :
    ∃ ls x, Runs (floodRun.Sys 65536 false (.script []))
        (floodRun.initial (.script []) 0) ls x ∧
      floodRun.FeedingLate 65536 false 0 x := by
  have hlength : floodRun.stdinData.length = 65537 := List.length_replicate
  refine floodRun.reaches_late false (.script []) 0 ?_
  rw [hlength]
  decide

end Deadline

end Ftl.Process
