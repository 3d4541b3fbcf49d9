/-
  Test/Guards.lean --- `thread_snapshot` and the thread leak guard.

  Embedded source: `thread_snapshot` of ftl/thread/thread_count.hpp and `ThreadLeakGuard`
  of ftest/guards.hpp.

  The guard compares two numbers of running threads.  A thread that has exited is gone from
  /proc/self/task whether it was joined or not, so each baseline thread that exits makes up
  for a new one, and a detached thread counts for as long as it runs.

      throws_iff                 what the guard measures
      thread_guard_exact_iff     when that is whether a new thread was left unjoined
-/
import Ftl.Foundation.Runs
import Ftl.Test.FdTrack

set_option autoImplicit false

namespace Ftl.Test

open Foundation (Runs)

/-! ## thread_snapshot -/

/-- `thread_snapshot().count`: the entries of /proc/self/task whose whole name is a positive
number; `none` is an `opendir` that fails. -/
def threadSnapshot (dir : Option (List Dirent)) : Nat :=
  match dir with
  | some entries => (entries.filterMap Dirent.parse).countP (0 < ·)
  | none => 0

/-! ## ThreadLeakGuard -/

/-- `ThreadLeakGuard`. -/
structure ThreadLeakGuard where
  label : String
  baseline : Nat

/-- A turn of the polling loop: the listing, and the clock (in ms) read after it. -/
structure Poll where
  dir : Option (List Dirent)
  clock : Nat

namespace ThreadLeakGuard

/-- The constructor. -/
def construct (label : String) (dir : Option (List Dirent)) : ThreadLeakGuard where
  label := label
  baseline := threadSnapshot dir

/-- The message of the failure. -/
def message (guard : ThreadLeakGuard) (now : Nat) : String :=
  guard.label ++ ": " ++ (now - guard.baseline).repr ++ " thread(s) not joined (baseline " ++
    guard.baseline.repr ++ ", now " ++ now.repr ++ ")"

/-- One turn; `none` is a sleep. -/
def look (guard : ThreadLeakGuard) (expected deadline : Nat) (poll : Poll) :
    Option (Except TestFailure Unit) :=
  let now := threadSnapshot poll.dir
  if now ≤ guard.baseline + expected then some (.ok ())
  else if deadline ≤ poll.clock then some (.error ⟨guard.message now⟩)
  else none

/-- `require_clean(expected_new_threads)` at the time `start`: the loop over its turns. -/
def requireClean (guard : ThreadLeakGuard) (expected start : Nat) (polls : List Poll) :
    Option (Except TestFailure Unit) :=
  polls.findSome? (guard.look expected (start + 500))

end ThreadLeakGuard

/-! ## Threads -/

/-- A thread of the process. -/
structure Thread where
  tid : Nat
  tid_pos : 0 < tid
  /-- created after the construction of the guard -/
  new : Bool
  exited : Bool
  joined : Bool
  detached : Bool
  deriving DecidableEq

namespace Thread

/-- A thread that `pthread_create` has made during the guarded scope. -/
def created (tid : Nat) (pos : 0 < tid) : Thread where
  tid := tid
  tid_pos := pos
  new := true
  exited := false
  joined := false
  detached := false

/-- Its function returns. -/
def exit (t : Thread) : Option Thread :=
  if t.exited then none else some { t with exited := true }

/-- `pthread_join` returns: it waits for the exit. -/
def join (t : Thread) : Option Thread :=
  if t.exited ∧ ¬ t.joined ∧ ¬ t.detached then some { t with joined := true } else none

/-- `pthread_detach`. -/
def detach (t : Thread) : Option Thread :=
  if ¬ t.joined ∧ ¬ t.detached then some { t with detached := true } else none

/-- It still runs. -/
def running (t : Thread) : Bool := !t.exited

end Thread

/-- What happens to the threads of a process; they are numbered by their creation. -/
inductive ThreadOp where
  | create (tid : Nat) (pos : 0 < tid)
  | exit (i : Nat)
  | join (i : Nat)
  | detach (i : Nat)

/-- `f` for the thread `i`. -/
def onThread (f : Thread → Option Thread) (i : Nat) (ts : List Thread) : Option (List Thread) :=
  (ts[i]?.bind f).map (ts.set i)

/-- The threads afterwards; `none` if it cannot happen. -/
def ThreadOp.apply (ts : List Thread) : ThreadOp → Option (List Thread)
  | .create tid pos => some (ts ++ [.created tid pos])
  | .exit i => onThread Thread.exit i ts
  | .join i => onThread Thread.join i ts
  | .detach i => onThread Thread.detach i ts

/-- The entries of /proc/self/task when it shows `shown`. -/
def taskEntries (shown : List Thread) : List Dirent :=
  [.dot, .dotDot] ++ shown.map fun t => .number t.tid

/-- A listing of /proc/self/task shows the threads that run, and may still show some that
have exited until it has settled. -/
def Shows (settled : Prop) (ts : List Thread) (dir : Option (List Dirent)) : Prop :=
  ∃ shown : List Thread, shown.Sublist ts ∧ (ts.filter Thread.running).Sublist shown ∧
    (settled → shown = ts.filter Thread.running) ∧
    dir = some (taskEntries shown)

/-- The listing that has settled. -/
def taskDir (ts : List Thread) : Option (List Dirent) :=
  some (taskEntries (ts.filter Thread.running))

/-! ## A guarded scope -/

/-- The threads, and what `require_clean` has come to. -/
structure Watch where
  threads : List Thread
  verdict : Option (Except TestFailure Unit)

/-- What happens after the construction. -/
inductive Moment where
  | op (op : ThreadOp)
  | poll (poll : Poll)

/-- Threads go their way until `require_clean` ends; it polls in between, and the listing has
settled by the deadline. -/
inductive Watch.Step (guard : ThreadLeakGuard) (expected deadline : Nat) :
    Watch → Moment → Watch → Prop where
  | op {ts ts' : List Thread} {op : ThreadOp} (h : op.apply ts = some ts') :
      Step guard expected deadline ⟨ts, none⟩ (.op op) ⟨ts', none⟩
  | poll {ts : List Thread} {p : Poll} (h : Shows (deadline ≤ p.clock) ts p.dir) :
      Step guard expected deadline ⟨ts, none⟩ (.poll p) ⟨ts, guard.look expected deadline p⟩

/-- The turns of the loop. -/
def polls : List Moment → List Poll
  | [] => []
  | .op _ :: ms => polls ms
  | .poll p :: ms => p :: polls ms

theorem polls_append (ms ms' : List Moment) : polls (ms ++ ms') = polls ms ++ polls ms' := by
  induction ms with
  | nil => rfl
  | cons m ms ih =>
      cases m with
      | op op => exact ih
      | poll p => exact congrArg (p :: ·) ih

section Runs

variable {guard : ThreadLeakGuard} {expected start deadline : Nat} {ts ts' : List Thread}

/-- The verdict of a run is that of `require_clean` on its polls. -/
theorem verdict_eq {ms : List Moment} {w : Watch}
    (hrun : Runs (Watch.Step guard expected (start + 500)) ⟨ts, none⟩ ms w) :
    w.verdict = guard.requireClean expected start (polls ms) := by
  induction hrun with
  | refl => rfl
  | tail _ hlast ih =>
      unfold ThreadLeakGuard.requireClean at ih ⊢
      rw [polls_append, List.findSome?_append, ← ih]
      cases hlast with
      | op h => rfl
      | poll h => simp [polls]

/-! ## Counting -/

/-- Baseline threads that have exited. -/
def exitedOld (ts : List Thread) : Nat := ts.countP fun t => !t.new && t.exited

/-- New threads that still run. -/
def runningNew (ts : List Thread) : Nat := ts.countP fun t => t.new && t.running

/-- New threads that were detached and still run. -/
def runningDetached (ts : List Thread) : Nat :=
  ts.countP fun t => t.new && t.detached && t.running

/-- Some new thread has been neither joined nor detached. -/
def Unreaped (ts : List Thread) : Prop :=
  ∃ t ∈ ts, t.new = true ∧ t.joined = false ∧ t.detached = false

/-- What every history keeps: the number of baseline threads, and that only threads that
have exited are joined. -/
structure Kept (old : Nat) (ts : List Thread) : Prop where
  old_eq : ts.countP (fun t => !t.new) = old
  joined : ∀ t ∈ ts, t.joined = true → t.exited = true

/-- A thread after something has happened to it. -/
structure Thread.After (t t' : Thread) : Prop where
  new : t'.new = t.new
  joined : (t.joined = true → t.exited = true) → t'.joined = true → t'.exited = true

theorem Thread.exit_after {t t' : Thread} (h : t.exit = some t') : t.After t' := by
  unfold Thread.exit at h
  split at h
  · cases h
  · cases h
    exact ⟨rfl, fun _ _ => rfl⟩

theorem Thread.join_after {t t' : Thread} (h : t.join = some t') : t.After t' := by
  unfold Thread.join at h
  split at h
  · rename_i hjoinable
    cases h
    exact ⟨rfl, fun _ _ => hjoinable.1⟩
  · cases h

theorem Thread.detach_after {t t' : Thread} (h : t.detach = some t') : t.After t' := by
  unfold Thread.detach at h
  split at h
  · cases h
    exact ⟨rfl, fun hbefore => hbefore⟩
  · cases h

theorem kept_onThread {f : Thread → Option Thread} (hf : ∀ {t t'}, f t = some t' → t.After t')
    {i old : Nat} (hkept : Kept old ts) (h : onThread f i ts = some ts') : Kept old ts' := by
  obtain ⟨t', ht', rfl⟩ := Option.map_eq_some_iff.mp h
  obtain ⟨t, hat, hft⟩ := Option.bind_eq_some_iff.mp ht'
  obtain ⟨hi, rfl⟩ := List.getElem?_eq_some_iff.mp hat
  have hafter := hf hft
  obtain ⟨front, back, hts, -, hset⟩ := @List.exists_of_set _ i t' ts hi
  obtain ⟨hcount, hjoined⟩ := hkept
  rw [hset]
  rw [hts] at hcount hjoined
  refine ⟨?_, ?_⟩
  · rw [← hcount]
    simp only [List.countP_append, List.countP_cons, hafter.new]
  · intro u hu
    rcases List.mem_append.mp hu with hfront | hrest
    · exact hjoined u (List.mem_append_left _ hfront)
    · rcases List.mem_cons.mp hrest with rfl | hback
      · apply hafter.joined
        exact hjoined _ (List.mem_append_right _ List.mem_cons_self)
      · exact hjoined u (List.mem_append_right _ (List.mem_cons_of_mem _ hback))

theorem kept_apply {old : Nat} {op : ThreadOp} (hkept : Kept old ts)
    (h : op.apply ts = some ts') : Kept old ts' := by
  cases op with
  | create tid pos =>
      cases h
      refine ⟨?_, ?_⟩
      · rw [List.countP_append, hkept.old_eq]
        rfl
      · intro t ht hjoined
        rcases List.mem_append.mp ht with hbefore | hlast
        · exact hkept.joined t hbefore hjoined
        · cases List.mem_singleton.mp hlast
          cases hjoined
  | exit i => exact kept_onThread Thread.exit_after hkept h
  | join i => exact kept_onThread Thread.join_after hkept h
  | detach i => exact kept_onThread Thread.detach_after hkept h

theorem kept_of_runs {old : Nat} {ms : List Moment} {w w' : Watch}
    (hrun : Runs (Watch.Step guard expected deadline) w ms w') (hkept : Kept old w.threads) :
    Kept old w'.threads := by
  apply hrun.invariant hkept
  intro a b m hbefore hstep
  cases hstep with
  | op h => exact kept_apply hbefore h
  | poll _ => exact hbefore

/-- The threads that run are those of the baseline, less the ones that have exited, and the
new ones. -/
theorem length_running (ts : List Thread) :
    (ts.filter Thread.running).length + exitedOld ts =
      ts.countP (fun t => !t.new) + runningNew ts := by
  rw [← List.countP_eq_length_filter]
  unfold exitedOld runningNew
  induction ts with
  | nil => rfl
  | cons t ts ih =>
      obtain ⟨tid, tid_pos, new, exited, joined, detached⟩ := t
      simp only [List.countP_cons, Thread.running] at ih ⊢
      cases new with
      | true => cases exited <;> simp <;> omega
      | false => cases exited <;> simp <;> omega

theorem threadSnapshot_taskEntries (shown : List Thread) :
    threadSnapshot (some (taskEntries shown)) = shown.length := by
  have hnames : (taskEntries shown).filterMap Dirent.parse = shown.map Thread.tid := by
    rw [taskEntries, List.filterMap_append, List.filterMap_map]
    simp only [List.filterMap_cons, Dirent.parse, List.filterMap_nil, List.nil_append]
    exact congrFun List.filterMap_eq_map' shown
  unfold threadSnapshot
  simp only [hnames]
  rw [List.countP_map, List.countP_eq_length]
  intro t _
  exact decide_eq_true t.tid_pos

/-! ## The verdict -/

theorem look_throws_iff {p : Poll} {v : Except TestFailure Unit} {old : Nat}
    (hbaseline : guard.baseline = old) (hkept : Kept old ts)
    (hshows : Shows (deadline ≤ p.clock) ts p.dir) (hlook : guard.look 0 deadline p = some v) :
    (∃ failure, v = .error failure) ↔ exitedOld ts < runningNew ts := by
  obtain ⟨shown, -, hall, hsettled, hdir⟩ := hshows
  have hcount : threadSnapshot p.dir = shown.length := by rw [hdir, threadSnapshot_taskEntries]
  have hrunning := length_running ts
  rw [hkept.old_eq] at hrunning
  unfold ThreadLeakGuard.look at hlook
  simp only [hcount, hbaseline, Nat.add_zero] at hlook
  split at hlook
  · -- the guard returns: no more threads are shown than there were
    rename_i hfew
    cases hlook
    have hless := hall.length_le
    refine ⟨fun ⟨failure, hthrown⟩ => (by cases hthrown), fun hmany => ?_⟩
    omega
  · split at hlook
    · -- the guard throws: the listing has settled
      rename_i hmore hdeadline
      cases hlook
      rw [hsettled hdeadline] at hmore
      exact ⟨fun _ => by omega, fun _ => ⟨_, rfl⟩⟩
    · cases hlook

/-- The threads at the construction: none of them is new, and all of them run, since a task
directory lists no thread that has exited. -/
def Baseline (old : List Thread) : Prop :=
  ∀ t ∈ old, t.new = false ∧ t.exited = false ∧ t.joined = false

theorem Baseline.kept {old : List Thread} (h : Baseline old) : Kept old.length old where
  old_eq := by
    rw [List.countP_eq_length]
    intro t ht
    rw [(h t ht).1]
    rfl
  joined := by
    intro t ht hjoined
    rw [(h t ht).2.2] at hjoined
    cases hjoined

theorem Baseline.baseline {old : List Thread} (h : Baseline old) (label : String) :
    (ThreadLeakGuard.construct label (taskDir old)).baseline = old.length := by
  have hall : old.filter Thread.running = old := by
    rw [List.filter_eq_self]
    intro t ht
    rw [Thread.running, (h t ht).2.1]
    rfl
  rw [ThreadLeakGuard.construct, taskDir, hall]
  exact threadSnapshot_taskEntries old

/-- The guard throws exactly if more new threads still run than baseline threads have
exited. -/
theorem throws_iff {label : String} {old : List Thread} (hold : Baseline old)
    {ms : List Moment} {w : Watch} {v : Except TestFailure Unit}
    (hrun : Runs (Watch.Step (.construct label (taskDir old)) 0 deadline) ⟨old, none⟩ ms w)
    (hverdict : w.verdict = some v) :
    (∃ failure, v = .error failure) ↔ exitedOld w.threads < runningNew w.threads := by
  cases hrun with
  | refl => cases hverdict
  | tail hbefore hlast =>
      have hkept := kept_of_runs hbefore hold.kept
      cases hlast with
      | op h => cases hverdict
      | poll hshows => exact look_throws_iff (hold.baseline label) hkept hshows hverdict

/-- When every new thread is joined or detached, those that still run are detached. -/
theorem runningNew_of_reaped {old : Nat} (hkept : Kept old ts) (h : ¬ Unreaped ts) :
    runningNew ts = runningDetached ts := by
  apply List.countP_congr
  intro t ht
  have hexited := hkept.joined t ht
  have hreaped : t.new = true → t.joined = false → t.detached = true := by
    intro hnew hjoined
    apply Decidable.byContradiction
    intro hdetached
    exact h ⟨t, ht, hnew, hjoined, Bool.eq_false_iff.mpr hdetached⟩
  -- a joined thread has exited, so one that runs was not joined
  unfold Thread.running
  cases hnew : t.new with
  | false => simp
  | true =>
      cases hjoined : t.joined with
      | true => simp [hexited hjoined]
      | false => simp [hreaped hnew hjoined]

/-- For every set of threads at the construction and every history of threads and polls
until `require_clean` ends: the verdict is right if and only if, with a new thread left
unjoined, more new threads still run than baseline threads have exited, and otherwise no
more detached threads do.  The guard counts the threads that run: it can see neither who has
been joined nor whether it is the same threads. -/
theorem thread_guard_exact_iff (label : String) (start : Nat) {old : List Thread}
    (hold : Baseline old) {ms : List Moment} {w : Watch} {v : Except TestFailure Unit}
    (hrun : Runs (Watch.Step (.construct label (taskDir old)) 0 (start + 500)) ⟨old, none⟩ ms w)
    (hverdict : (ThreadLeakGuard.construct label (taskDir old)).requireClean 0 start (polls ms) =
      some v) :
    ((∃ failure, v = .error failure) ↔ Unreaped w.threads) ↔
      (Unreaped w.threads ∧ exitedOld w.threads < runningNew w.threads) ∨
        (¬ Unreaped w.threads ∧ runningDetached w.threads ≤ exitedOld w.threads) := by
  have hkept := kept_of_runs hrun hold.kept
  rw [throws_iff hold hrun ((verdict_eq hrun).trans hverdict)]
  by_cases hunreaped : Unreaped w.threads
  · simp [hunreaped]
  · rw [← runningNew_of_reaped hkept hunreaped]
    simp [hunreaped]

end Runs

/-! ## Three histories -/

theorem shows_taskDir (settled : Prop) (ts : List Thread) : Shows settled ts (taskDir ts) :=
  ⟨ts.filter Thread.running, List.filter_sublist, List.Sublist.refl _, fun _ => rfl, rfl⟩

/-- A process with one thread. -/
def mainThread : Thread where
  tid := 100
  tid_pos := by decide
  new := false
  exited := false
  joined := false
  detached := false

theorem baseline_mainThread : Baseline [mainThread] := by
  intro t ht
  cases List.mem_singleton.mp ht
  exact ⟨rfl, rfl, rfl⟩

/-- A thread of the scope, after `f`. -/
def worker (exited joined detached : Bool) : Thread where
  tid := 101
  tid_pos := by decide
  new := true
  exited := exited
  joined := joined
  detached := detached

/-- A poll when `ts` are the threads, a second after the start. -/
def pollOf (ts : List Thread) : Poll where
  dir := taskDir ts
  clock := 1000

/-- The guard of such a process. -/
def mainGuard : ThreadLeakGuard := .construct "scope" (taskDir [mainThread])

theorem joined_run :
    Runs (Watch.Step mainGuard 0 500) ⟨[mainThread], none⟩
      [.op (.create 101 (by decide)), .op (.exit 1), .op (.join 1),
        .poll (pollOf [mainThread, worker true true false])]
      ⟨[mainThread, worker true true false], some (.ok ())⟩ :=
  .head (.op rfl) <| .head (.op rfl) <| .head (.op rfl) <| .single (.poll (shows_taskDir _ _))

/-- A worker was started and has been joined, and the guard is silent. -/
theorem thread_guard_exact_joined :
    ((∃ failure, (Except.ok () : Except TestFailure Unit) = .error failure) ↔
        Unreaped [mainThread, worker true true false]) ↔
      (Unreaped [mainThread, worker true true false] ∧
          exitedOld [mainThread, worker true true false] <
            runningNew [mainThread, worker true true false]) ∨
        (¬ Unreaped [mainThread, worker true true false] ∧
          runningDetached [mainThread, worker true true false] ≤
            exitedOld [mainThread, worker true true false]) :=
  thread_guard_exact_iff "scope" 0 baseline_mainThread joined_run rfl

/-- A worker that exits and is never joined is not noticed, and one that was detached is
reported. -/
theorem thread_guard_inexact :
    (∃ ms w, Runs (Watch.Step mainGuard 0 500) ⟨[mainThread], none⟩ ms w ∧
      mainGuard.requireClean 0 0 (polls ms) = some (.ok ()) ∧ Unreaped w.threads) ∧
    (∃ ms w failure, Runs (Watch.Step mainGuard 0 500) ⟨[mainThread], none⟩ ms w ∧
      mainGuard.requireClean 0 0 (polls ms) = some (.error failure) ∧ ¬ Unreaped w.threads) := by
  constructor
  · refine ⟨[.op (.create 101 (by decide)), .op (.exit 1),
      .poll (pollOf [mainThread, worker true false false])],
      ⟨[mainThread, worker true false false], some (.ok ())⟩, ?_, rfl, ?_⟩
    · exact .head (.op rfl) <| .head (.op rfl) <| .single (.poll (shows_taskDir _ _))
    · exact ⟨worker true false false, by decide, rfl, rfl, rfl⟩
  · refine ⟨[.op (.create 101 (by decide)), .op (.detach 1),
      .poll (pollOf [mainThread, worker false false true])],
      ⟨[mainThread, worker false false true],
        some (.error ⟨"scope: 1 thread(s) not joined (baseline 1, now 2)"⟩)⟩,
      ⟨"scope: 1 thread(s) not joined (baseline 1, now 2)"⟩, ?_, rfl, ?_⟩
    · exact .head (.op rfl) <| .head (.op rfl) <| .single (.poll (shows_taskDir _ _))
    · unfold Unreaped
      decide

end Ftl.Test
