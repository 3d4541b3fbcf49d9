/-
  Process/Environment.lean --- the environment of the child.

  Embedded source: `Subprocess::env` and `Subprocess::build_child_env` of
  ftl/process/subprocess.hpp.  Both are searches for the first match followed by
  an overwrite or an append, so both are instances of `Foundation.upsert`: `env`
  over the override list, keyed by the first component, and the loop body of
  `build_child_env` over the entries, matched by the prefix "key=".

      buildChildEnv_reference   the list handed to execvpe, against the meaning of
                                the sequence of `env` calls
-/
import Mathlib.Data.List.Induction
import Ftl.Foundation.Upsert
import Ftl.Process.Subprocess

set_option autoImplicit false

namespace Ftl.Process

open Foundation (upsert upsertAll hasKey)

/-! ## The two functions -/

/-- The byte '='. -/
def equals : UInt8 := 61

namespace Subprocess

/-- `env(key, value, replace)`. -/
def env (sp : Subprocess) (key value : Bytes) (replace : Bool) : Subprocess :=
  let cleared : Subprocess :=
    if replace then { sp with envOverrides := [], envReplace := true } else sp
  { cleared with
    envOverrides := upsert (fun entry => decide (entry.1 = key)) (key, value)
      cleared.envOverrides }

/-- `existing.rfind(prefix, 0) == 0` for `prefix = key + "="`. -/
def startsWithKey (key existing : Bytes) : Bool := (key ++ [equals]).isPrefixOf existing

/-- `prefix + value`. -/
def envEntry (key value : Bytes) : Bytes := key ++ [equals] ++ value

/-- The body of the loop over `env_overrides_`. -/
def applyOverride (entries : List Bytes) (overridePair : Bytes × Bytes) : List Bytes :=
  upsert (startsWithKey overridePair.1) (envEntry overridePair.1 overridePair.2) entries

/-- `build_child_env()` in a process whose `environ` is the given list. -/
def buildChildEnv (sp : Subprocess) (environ : List Bytes) : List Bytes :=
  sp.envOverrides.foldl applyOverride (if sp.envReplace then [] else environ)

end Subprocess

/-! ## What the calls mean -/

/-- One call of `env`. -/
structure EnvCall where
  key : Bytes
  value : Bytes
  replace : Bool

/-- The builder after a sequence of `env` calls. -/
def Subprocess.envCalls (program : Bytes) (calls : List EnvCall) : Subprocess :=
  calls.foldl (fun sp c => sp.env c.key c.value c.replace) (.ofProgram program)

/-- The calls from the last one with `replace` on; all of them if there is none. -/
def effective : List EnvCall → List EnvCall
  | [] => []
  | c :: calls => if calls.any EnvCall.replace then effective calls else c :: calls

/-- What the child starts from: nothing once some call replaced the environment. -/
def baseEnv (environ : List Bytes) (calls : List EnvCall) : List Bytes :=
  if calls.any EnvCall.replace then [] else environ

/-- The value of the last call for `k`. -/
def lastValue (k : Bytes) (calls : List EnvCall) : Option Bytes :=
  (calls.reverse.find? fun c => decide (c.key = k)).map EnvCall.value

/-- The first entry starting with "k=". -/
def firstEntry (k : Bytes) (entries : List Bytes) : Option Bytes :=
  entries.find? (Subprocess.startsWithKey k)

/-- No key free of '=' has two entries. -/
def NoDuplicateKeys (entries : List Bytes) : Prop :=
  ∀ k, equals ∉ k → (entries.filter (Subprocess.startsWithKey k)).length ≤ 1

/-! ## Keys -/

/-- The key of an entry: what precedes the first '=', if there is one. -/
def keyOf (entry : Bytes) : Option Bytes :=
  if equals ∈ entry then some (entry.takeWhile (· ≠ equals)) else none

theorem takeWhile_key {k rest : Bytes} (hk : equals ∉ k) :
    (k ++ equals :: rest).takeWhile (· ≠ equals) = k := by
  rw [List.takeWhile_append_of_pos]
  · simp
  · intro b hb
    have hne : b ≠ equals := fun h => hk (h ▸ hb)
    simpa using hne

theorem keyOf_envEntry {k : Bytes} (hk : equals ∉ k) (v : Bytes) :
    keyOf (Subprocess.envEntry k v) = some k := by
  have hmem : equals ∈ Subprocess.envEntry k v := by simp [Subprocess.envEntry]
  rw [keyOf, if_pos hmem, Subprocess.envEntry, List.append_assoc, List.singleton_append,
    takeWhile_key hk]

/-- Matching the prefix "k=" is having the key `k`, as long as `k` itself has no
'=' in it. -/
theorem startsWithKey_eq_hasKey {k : Bytes} (hk : equals ∉ k) :
    Subprocess.startsWithKey k = hasKey keyOf k := by
  funext entry
  rw [Bool.eq_iff_iff, hasKey, decide_eq_true_eq, Subprocess.startsWithKey,
    List.isPrefixOf_iff_prefix]
  constructor
  · rintro ⟨v, rfl⟩
    exact keyOf_envEntry hk v
  · intro hkey
    unfold keyOf at hkey
    split at hkey
    · rename_i hmem
      obtain ⟨k', v, rfl, hk'⟩ := List.eq_append_cons_of_mem hmem
      rw [takeWhile_key hk', Option.some.injEq] at hkey
      exact ⟨v, by simp [hkey]⟩
    · cases hkey

/-! ## The override list -/

theorem effective_append (calls : List EnvCall) (c : EnvCall) :
    effective (calls ++ [c]) = if c.replace then [c] else effective calls ++ [c] := by
  induction calls with
  | nil => simp [effective]
  | cons d calls ih =>
      simp only [List.cons_append, effective, List.any_append, List.any_cons, List.any_nil,
        Bool.or_false]
      cases hc : c.replace with
      | true => simpa [hc] using ih
      | false =>
          cases hcalls : calls.any EnvCall.replace with
          | true => simpa [hc, hcalls] using ih
          | false => simp

theorem lastValue_append (k : Bytes) (calls : List EnvCall) (c : EnvCall) :
    lastValue k (calls ++ [c]) = if c.key = k then some c.value else lastValue k calls := by
  unfold lastValue
  rw [List.reverse_append, List.reverse_singleton, List.singleton_append, List.find?_cons]
  by_cases hk : c.key = k
  · simp [hk]
  · simp [hk]

theorem mem_of_mem_effective {c : EnvCall} {calls : List EnvCall}
    (h : c ∈ effective calls) : c ∈ calls := by
  induction calls with
  | nil => exact h
  | cons d calls ih =>
      unfold effective at h
      split at h
      · exact List.mem_cons_of_mem _ (ih h)
      · exact h

/-- The override list is keyed by its first component. -/
theorem matches_eq_hasKey (key : Bytes) :
    (fun entry : Bytes × Bytes => decide (entry.1 = key)) =
      hasKey (fun entry => some entry.1) key := by
  funext entry
  simp [hasKey]

/-- After any sequence of calls, the override list holds the last effective value
of every key that an effective call names, once, and nothing else. -/
structure Overrides (calls : List EnvCall) (sp : Subprocess) : Prop where
  replace : sp.envReplace = calls.any EnvCall.replace
  nodup : (sp.envOverrides.map fun entry => some entry.1).Nodup
  last : ∀ k, (sp.envOverrides.find? fun entry => decide (entry.1 = k)).map Prod.snd =
    lastValue k (effective calls)

/-- One call of `env`, on a builder whose overrides are those of `calls`, when it
does not replace; or on any builder, when it does. -/
theorem Overrides.env {calls : List EnvCall} {sp : Subprocess} (h : Overrides calls sp)
    (c : EnvCall) : Overrides (calls ++ [c]) (sp.env c.key c.value c.replace) := by
  -- the list that is searched, and what it means
  obtain ⟨cleared, hlist, hnodup, hlast⟩ : ∃ cleared : List (Bytes × Bytes),
      (sp.env c.key c.value c.replace).envOverrides =
        upsert (fun entry => decide (entry.1 = c.key)) (c.key, c.value) cleared ∧
      (cleared.map fun entry => some entry.1).Nodup ∧
      ∀ k, (cleared.find? fun entry => decide (entry.1 = k)).map Prod.snd =
        lastValue k (if c.replace then [] else effective calls) := by
    cases hc : c.replace with
    | true => exact ⟨[], by simp [Subprocess.env], by simp, fun k => by simp [lastValue]⟩
    | false =>
        exact ⟨sp.envOverrides, by simp [Subprocess.env], h.nodup, fun k => by
          simpa using h.last k⟩
  have heffective : effective (calls ++ [c]) =
      (if c.replace then [] else effective calls) ++ [c] := by
    rw [effective_append]
    split <;> rfl
  refine ⟨?_, ?_, ?_⟩
  · have hreplace := h.replace
    cases hc : c.replace <;> simp [Subprocess.env, hc, hreplace]
  · rw [hlist, matches_eq_hasKey]
    exact @Foundation.nodup_key_upsert _ _ _ (fun entry : Bytes × Bytes => some entry.1)
      c.key _ rfl _ hnodup
  · intro k
    rw [hlist, heffective, lastValue_append]
    by_cases hk : c.key = k
    · subst hk
      rw [Foundation.find?_upsert_self (by simp)]
      simp
    · rw [if_neg hk, Foundation.find?_upsert_of_disjoint (by simpa using hk), hlast]
      intro entry hentry
      have hsame : entry.1 = c.key := by simpa using hentry
      simpa [hsame] using hk

theorem overrides_envCalls (program : Bytes) (calls : List EnvCall) :
    Overrides calls (Subprocess.envCalls program calls) := by
  induction calls using List.reverseRecOn with
  | nil => exact ⟨rfl, List.nodup_nil, fun k => rfl⟩
  | append_singleton calls c ih =>
      rw [Subprocess.envCalls, List.foldl_append, ← Subprocess.envCalls]
      exact ih.env c

/-- The override list names a key only if an effective call does. -/
theorem Overrides.mem_key {calls : List EnvCall} {sp : Subprocess} (h : Overrides calls sp)
    {o : Bytes × Bytes} (ho : o ∈ sp.envOverrides) : ∃ c ∈ effective calls, c.key = o.1 := by
  have hfound : (sp.envOverrides.find? fun entry => decide (entry.1 = o.1)).isSome := by
    rw [List.find?_isSome]
    exact ⟨o, ho, by simp⟩
  have hlast := congrArg Option.isSome (h.last o.1)
  rw [Option.isSome_map, hfound, lastValue, Option.isSome_map] at hlast
  obtain ⟨c, hc, hkey⟩ := List.find?_isSome.mp hlast.symm
  exact ⟨c, List.mem_reverse.mp hc, of_decide_eq_true hkey⟩

/-! ## The list handed to execvpe -/

/-- What `build_child_env` has to produce from `base` and the effective calls. -/
structure EnvReference (base : List Bytes) (calls : List EnvCall) (entries : List Bytes) :
    Prop where
  /-- the first entry of a key is that of the last call for it, or the base's -/
  found : ∀ k, equals ∉ k → firstEntry k entries =
    match lastValue k calls with
    | some v => some (Subprocess.envEntry k v)
    | none => firstEntry k base
  /-- an entry that is not the first match of an overridden key stays in place -/
  kept : ∀ i, i < base.length →
    (∀ c ∈ calls, base.findIdx? (Subprocess.startsWithKey c.key) ≠ some i) →
    entries[i]? = base[i]?
  /-- each overridden key adds at most one entry, after those of the base -/
  added : ∃ keys : List Bytes, keys.Nodup ∧ (∀ k ∈ keys, ∃ c ∈ calls, c.key = k) ∧
    entries.map keyOf = base.map keyOf ++ keys.map some
  /-- no key is repeated that was not repeated before -/
  unique : NoDuplicateKeys base → NoDuplicateKeys entries

theorem length_filter_startsWithKey {k : Bytes} (hk : equals ∉ k) (entries : List Bytes) :
    (entries.filter (Subprocess.startsWithKey k)).length =
      (entries.map keyOf).countP fun x => decide (x = some k) := by
  rw [startsWithKey_eq_hasKey hk, ← List.countP_eq_length_filter, List.countP_map]
  rfl

theorem not_mem_override_key {program : Bytes} {calls : List EnvCall}
    (hkeys : ∀ c ∈ calls, equals ∉ c.key) {o : Bytes × Bytes}
    (ho : o ∈ (Subprocess.envCalls program calls).envOverrides) : equals ∉ o.1 := by
  obtain ⟨c, hc, hkey⟩ := (overrides_envCalls program calls).mem_key ho
  exact hkey ▸ hkeys c (mem_of_mem_effective hc)

/-- The loop of `build_child_env` writes the overrides into the base, by key. -/
theorem buildChildEnv_eq_upsertAll {program : Bytes} (environ : List Bytes)
    {calls : List EnvCall} (hkeys : ∀ c ∈ calls, equals ∉ c.key) :
    (Subprocess.envCalls program calls).buildChildEnv environ =
      upsertAll keyOf Subprocess.envEntry (baseEnv environ calls)
        (Subprocess.envCalls program calls).envOverrides := by
  unfold Subprocess.buildChildEnv upsertAll baseEnv
  rw [(overrides_envCalls program calls).replace]
  refine List.foldl_ext _ _ _ fun entries o ho => ?_
  rw [Subprocess.applyOverride, startsWithKey_eq_hasKey (not_mem_override_key hkeys ho)]

/-- The first entry of a key is that of the last call for it, or the base's. -/
theorem firstEntry_buildChildEnv {program : Bytes} (environ : List Bytes)
    {calls : List EnvCall} (hkeys : ∀ c ∈ calls, equals ∉ c.key) {k : Bytes}
    (hk : equals ∉ k) :
    firstEntry k ((Subprocess.envCalls program calls).buildChildEnv environ) =
      match lastValue k (effective calls) with
      | some v => some (Subprocess.envEntry k v)
      | none => firstEntry k (baseEnv environ calls) := by
  have hover := overrides_envCalls program calls
  have hnodup : ((Subprocess.envCalls program calls).envOverrides.map Prod.fst).Nodup := by
    have h := hover.nodup
    rw [← Function.comp_def some Prod.fst, ← List.map_map] at h
    exact List.Nodup.of_map some h
  have hentry : ∀ o ∈ (Subprocess.envCalls program calls).envOverrides,
      keyOf (Subprocess.envEntry o.1 o.2) = some o.1 := fun o ho =>
    keyOf_envEntry (not_mem_override_key hkeys ho) o.2
  rw [buildChildEnv_eq_upsertAll environ hkeys, firstEntry, firstEntry,
    startsWithKey_eq_hasKey hk, Foundation.find?_upsertAll hentry hnodup, ← hover.last k]
  split <;> rename_i hfound <;> simp [hfound]

/-- The environment of the child is what the sequence of calls means.  An entry ends its key at
the first '=', so a key that has one would be read as a shorter key. -/
theorem buildChildEnv_reference (program : Bytes) (environ : List Bytes)
    (calls : List EnvCall) (hkeys : ∀ c ∈ calls, equals ∉ c.key) :
    EnvReference (baseEnv environ calls) (effective calls)
      ((Subprocess.envCalls program calls).buildChildEnv environ) := by
  have hover := overrides_envCalls program calls
  have hentry : ∀ o ∈ (Subprocess.envCalls program calls).envOverrides,
      keyOf (Subprocess.envEntry o.1 o.2) = some o.1 := fun o ho =>
    keyOf_envEntry (not_mem_override_key hkeys ho) o.2
  have hbuild := @buildChildEnv_eq_upsertAll program environ calls hkeys
  obtain ⟨keys, hkeysNodup, hnamed, hnew, hmap⟩ :=
    Foundation.map_key_upsertAll hentry (baseEnv environ calls)
  refine ⟨fun k hk => firstEntry_buildChildEnv environ hkeys hk, ?_,
    ⟨keys, hkeysNodup, ?_, by rw [hbuild]; exact hmap⟩, ?_⟩
  · intro i hi hfirst
    rw [hbuild]
    refine Foundation.getElem?_upsertAll hentry hi ?_
    intro k hk
    obtain ⟨o, ho, rfl⟩ := List.mem_map.mp hk
    obtain ⟨c, hc, hkey⟩ := hover.mem_key ho
    rw [← startsWithKey_eq_hasKey (not_mem_override_key hkeys ho), ← hkey]
    exact hfirst c hc
  · intro k hk
    obtain ⟨o, ho, rfl⟩ := List.mem_map.mp (hnamed k hk)
    exact hover.mem_key ho
  · intro hunique k hk
    have hbase := hunique k hk
    rw [length_filter_startsWithKey hk] at hbase ⊢
    rw [hbuild, hmap, List.countP_append]
    have hcount : (keys.map some).countP (fun x => decide (x = some k)) = keys.count k := by
      rw [List.countP_map, List.count]
      refine List.countP_congr fun x _ => ?_
      simp
    rw [hcount]
    by_cases hadded : k ∈ keys
    · have hzero : ((baseEnv environ calls).map keyOf).countP
          (fun x => decide (x = some k)) = 0 := by
        rw [List.countP_eq_zero]
        intro x hx hxk
        exact hnew k hadded (of_decide_eq_true hxk ▸ hx)
      rw [hzero, Nat.zero_add]
      exact List.nodup_iff_count_le_one.mp hkeysNodup k
    · rw [List.count_eq_zero.mpr hadded]
      exact hbase

/-- "A=1" in place of the parent's environment, then "AB=2", then "A=3": the first
entry of "A" is its last value, and a key that is a prefix of another one does not
touch it. -/
theorem buildChildEnv_reference_prefixes :
    let calls : List EnvCall := [⟨[65], [49], true⟩, ⟨[65, 66], [50], false⟩,
      ⟨[65], [51], false⟩]
    let entries := (Subprocess.envCalls [] calls).buildChildEnv [[65, 61, 48], [66]]
    firstEntry [65] entries = some [65, 61, 51] ∧
      firstEntry [65, 66] entries = some [65, 66, 61, 50] ∧
      firstEntry [67] entries = none := by
  have h := buildChildEnv_reference [] [[65, 61, 48], [66]]
    [⟨[65], [49], true⟩, ⟨[65, 66], [50], false⟩, ⟨[65], [51], false⟩] (by decide)
  exact ⟨h.found [65] (by decide), h.found [65, 66] (by decide), h.found [67] (by decide)⟩

end Ftl.Process
