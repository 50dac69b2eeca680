/-
CoreX/Raft/Versions.lean

The versions of a key over a whole run of `apply`.  A command takes effect if
`apply` comes to write it; `effects` lists those that do, for entries applied one
after the other.  The machine is then a function of that list (`Keeps`): the version
of a key counts the commands on it, and its versions are the newest of them,
numbered from `1`.
-/
import CoreX.Lib.Outputs
import CoreX.Raft.Mvcc

namespace Raft

open Outputs

namespace MVCCStateMachine

variable (sm : MVCCStateMachine)

/-! ### Reads -/

/-- `Get`: the value, the version, and whether the key exists. -/
def get (key : String) : String × Nat × Bool :=
  match sm.latest key with
  | none => ("", 0, false)
  | some ver =>
      match (sm.versions key).getLast? with
      | none => ("", 0, false)
      | some last => if last.deleted then ("", ver, false) else (last.value, ver, true)

/-- `GetVersion`. -/
def getVersion (key : String) (version : Nat) : String × Bool :=
  match (sm.versions key).find? fun v => decide (v.version = version) with
  | none => ("", false)
  | some v => if v.deleted then ("", false) else (v.value, true)

theorem gc_eq (vs : List MVCCVersion) : sm.gc vs = newest sm.retention vs := rfl

/-! ### Commands that take effect -/

variable [Codec]

/-- The command of an entry, if `apply` is going to write it. -/
def effect (e : LogEntry) : Option RaftKVCommand :=
  (Codec.unmarshalCommand e.data).filter fun cmd => !sm.conflicts cmd

/-- `Run`: the entries one after the other. -/
def applyAll (es : List LogEntry) : MVCCStateMachine := es.foldl (fun sm e => sm.apply e) sm

/-- The command of the `i`-th entry, if it takes effect. -/
def effectAt (es : List LogEntry) (i : Nat) : Option RaftKVCommand :=
  outputAt (fun sm e => sm.apply e) (fun sm e => sm.effect e) sm es i

/-- The commands that take effect, in their order. -/
def effects (es : List LogEntry) : List RaftKVCommand :=
  outputs (fun sm e => sm.apply e) (fun sm e => sm.effect e) sm es

variable {sm} {e : LogEntry} {cmd : RaftKVCommand} {key : String}

theorem effect_eq_some : sm.effect e = some cmd ↔
    Codec.unmarshalCommand e.data = some cmd ∧ sm.conflicts cmd = false := by
  rw [effect, Option.filter_eq_some_iff, Bool.not_eq_true']

theorem apply_of_effect (h : sm.effect e = some cmd) : sm.apply e = sm.write cmd e.index := by
  obtain ⟨hcmd, hno⟩ := effect_eq_some.mp h
  unfold apply
  rw [hcmd]
  exact if_neg (by simp [hno])

theorem apply_of_no_effect (h : sm.effect e = none) :
    ∃ conflicts, sm.apply e = { sm with conflictResults := conflicts } := by
  unfold apply
  rcases hcmd : Codec.unmarshalCommand e.data with - | cmd
  · exact ⟨_, rfl⟩
  · have hyes : sm.conflicts cmd = true := by
      by_contra hno
      rw [effect_eq_some.mpr ⟨hcmd, Bool.not_eq_true _ ▸ hno⟩] at h
      cases h
    dsimp only
    rw [if_pos hyes]
    exact ⟨_, rfl⟩

omit [Codec] in
theorem conflicts_of_zero (h : cmd.expectedVersion = 0) : sm.conflicts cmd = false := by
  simp [conflicts, h]

theorem current_of_effect (h : sm.effect e = some cmd) (hpos : 0 < cmd.expectedVersion) :
    sm.current cmd.key = cmd.expectedVersion := by
  have hno := (effect_eq_some.mp h).2
  simpa [conflicts, hpos] using hno

end MVCCStateMachine

/-! ### The machine and the commands -/

/-- The commands on a key. -/
def commandsOn (key : String) (cs : List RaftKVCommand) : List RaftKVCommand :=
  cs.filter fun cmd => decide (cmd.key = key)

/-- The versions that commands on one key leave if all are kept. -/
def numbered (cs : List RaftKVCommand) : List MVCCVersion :=
  cs.mapIdx fun i cmd => ⟨i + 1, cmd.value, decide (cmd.op = "del")⟩

theorem commandsOn_concat_self (cmd : RaftKVCommand) (cs : List RaftKVCommand) :
    commandsOn cmd.key (cs ++ [cmd]) = commandsOn cmd.key cs ++ [cmd] := by
  simp [commandsOn]

theorem commandsOn_concat_of_ne {cmd : RaftKVCommand} {key : String} (h : key ≠ cmd.key)
    (cs : List RaftKVCommand) : commandsOn key (cs ++ [cmd]) = commandsOn key cs := by
  simp [commandsOn, h.symm]

theorem length_numbered (cs : List RaftKVCommand) : (numbered cs).length = cs.length :=
  List.length_mapIdx

theorem numbered_concat (cs : List RaftKVCommand) (cmd : RaftKVCommand) :
    numbered (cs ++ [cmd]) =
      numbered cs ++ [⟨cs.length + 1, cmd.value, decide (cmd.op = "del")⟩] :=
  List.mapIdx_concat

namespace MVCCStateMachine

/-- The machine holds what the commands `cs` have left, in this order. -/
structure Keeps (r : Nat) (sm : MVCCStateMachine) (cs : List RaftKVCommand) : Prop where
  retention : sm.retention = r
  latest : ∀ key, sm.latest key =
    if commandsOn key cs = [] then none else some (commandsOn key cs).length
  versions : ∀ key, sm.versions key = newest r (numbered (commandsOn key cs))

namespace Keeps

variable {r : Nat} {sm : MVCCStateMachine} {cs : List RaftKVCommand} {key : String}

theorem new (r : Nat) : Keeps r (new r) [] where
  retention := rfl
  latest _ := rfl
  versions _ := newest_nil.symm

theorem current (h : Keeps r sm cs) (key : String) :
    sm.current key = (commandsOn key cs).length := by
  rw [MVCCStateMachine.current, h.latest]
  split
  · next hnil => rw [hnil]; rfl
  · rfl

theorem write (h : Keeps r sm cs) (cmd : RaftKVCommand) (index : Int) :
    Keeps r (sm.write cmd index) (cs ++ [cmd]) where
  retention := h.retention
  latest key := by
    show Function.update sm.latest cmd.key (some (sm.current cmd.key + 1)) key = _
    by_cases hkey : key = cmd.key
    · rw [hkey, Function.update_self, commandsOn_concat_self, h.current, List.length_append]
      simp
    · rw [Function.update_of_ne hkey, commandsOn_concat_of_ne hkey, h.latest]
  versions key := by
    show Function.update sm.versions cmd.key _ key = _
    by_cases hkey : key = cmd.key
    · rw [hkey, Function.update_self, gc_eq, h.retention, h.versions, h.current,
        commandsOn_concat_self, numbered_concat, newest_concat]
    · rw [Function.update_of_ne hkey, commandsOn_concat_of_ne hkey, h.versions]

variable [Codec]

theorem apply (h : Keeps r sm cs) (e : LogEntry) :
    Keeps r (sm.apply e) (cs ++ (sm.effect e).toList) := by
  rcases heff : sm.effect e with - | cmd
  · obtain ⟨conflicts, heq⟩ := apply_of_no_effect heff
    rw [heq, Option.toList_none, List.append_nil]
    exact ⟨h.retention, h.latest, h.versions⟩
  · rw [apply_of_effect heff]
    exact h.write cmd e.index

theorem applyAll (r : Nat) (es : List LogEntry) :
    Keeps r ((MVCCStateMachine.new r).applyAll es) ((MVCCStateMachine.new r).effects es) :=
  outputs_rule (P := Keeps r) (new r) (fun _ _ e h => h.apply e) es

end Keeps

/-! ### One success for each version -/

section

variable [Codec] {sm : MVCCStateMachine} {e : LogEntry} {es : List LogEntry}
  {cmd cmd' : RaftKVCommand} {key : String} {i j : Nat}

omit [Codec] in
theorem current_write (sm : MVCCStateMachine) (cmd : RaftKVCommand) (index : Int) :
    (sm.write cmd index).current cmd.key = sm.current cmd.key + 1 := by
  show (Function.update sm.latest cmd.key _ cmd.key).getD 0 = _
  rw [Function.update_self]
  rfl

theorem current_le_apply (sm : MVCCStateMachine) (e : LogEntry) (key : String) :
    sm.current key ≤ (sm.apply e).current key := by
  rcases heff : sm.effect e with - | cmd
  · obtain ⟨conflicts, heq⟩ := apply_of_no_effect heff
    rw [heq]
    exact le_rfl
  · rw [apply_of_effect heff]
    by_cases hkey : key = cmd.key
    · rw [hkey, current_write]
      omega
    · show _ ≤ (Function.update sm.latest cmd.key _ key).getD 0
      rw [Function.update_of_ne hkey]
      exact le_rfl

theorem current_le_applyAll (sm : MVCCStateMachine) (es : List LogEntry) (key : String) :
    sm.current key ≤ (sm.applyAll es).current key := by
  induction es generalizing sm with
  | nil => exact le_rfl
  | cons e es ih => exact (current_le_apply sm e key).trans (ih (sm.apply e))

theorem effectAt_eq_some : sm.effectAt es i = some cmd ↔
    ∃ e, es[i]? = some e ∧ (sm.applyAll (es.take i)).effect e = some cmd :=
  Option.bind_eq_some_iff

theorem current_lt_of_effectAt (h : sm.effectAt es i = some cmd) (hij : i < j) :
    (sm.applyAll (es.take i)).current cmd.key < (sm.applyAll (es.take j)).current cmd.key := by
  obtain ⟨e, he, heff⟩ := effectAt_eq_some.mp h
  have htake : es.take j = es.take i ++ e :: (es.take j).drop (i + 1) := by
    conv_lhs =>
      rw [← List.take_append_drop (i + 1) (es.take j), List.take_take, Nat.min_eq_left hij,
        List.take_add_one, he, List.append_assoc]
    rfl
  have hstep : (sm.applyAll (es.take i)).current cmd.key <
      ((sm.applyAll (es.take i)).apply e).current cmd.key := by
    rw [apply_of_effect heff, current_write]
    omega
  rw [htake, applyAll, applyAll, List.foldl_append]
  exact hstep.trans_le (current_le_applyAll _ ((es.take j).drop (i + 1)) cmd.key)

theorem current_of_effectAt (h : sm.effectAt es i = some cmd) (hpos : 0 < cmd.expectedVersion) :
    (sm.applyAll (es.take i)).current cmd.key = cmd.expectedVersion := by
  obtain ⟨e, _, heff⟩ := effectAt_eq_some.mp h
  exact current_of_effect heff hpos

theorem effectAt_unique (hi : sm.effectAt es i = some cmd) (hj : sm.effectAt es j = some cmd')
    (hkey : cmd.key = cmd'.key) (hver : cmd.expectedVersion = cmd'.expectedVersion)
    (hpos : 0 < cmd.expectedVersion) : i = j := by
  have hci := current_of_effectAt hi hpos
  have hcj := current_of_effectAt hj (hver ▸ hpos)
  rw [← hkey, ← hver] at hcj
  rcases Nat.lt_trichotomy i j with hlt | heq | hgt
  · have hlt' := current_lt_of_effectAt hi hlt
    omega
  · exact heq
  · have hlt' := current_lt_of_effectAt hj hgt
    rw [← hkey] at hlt'
    omega

end

/-! ### Reads -/

section Reads

variable {r : Nat} {sm : MVCCStateMachine} {cs cs' : List RaftKVCommand} {cmd : RaftKVCommand}
  {key : String}

theorem Keeps.get_nil (h : Keeps r sm cs) (hkey : commandsOn key cs = []) :
    sm.get key = ("", 0, false) := by
  rw [get, h.latest, if_pos hkey]

theorem Keeps.get_concat (h : Keeps r sm cs) (hkey : commandsOn key cs = cs' ++ [cmd]) :
    sm.get key = if cmd.op = "del" then ("", cs'.length + 1, false)
      else (cmd.value, cs'.length + 1, true) := by
  have hne : commandsOn key cs ≠ [] := by
    rw [hkey]
    exact List.append_ne_nil_of_right_ne_nil cs' (List.cons_ne_nil cmd [])
  rw [get, h.latest, if_neg hne, h.versions, newest_getLast?, hkey, numbered_concat,
    List.getLast?_concat, List.length_append, List.length_singleton]
  simp only [decide_eq_true_eq]

theorem Keeps.getVersion_kept {i : Nat} (h : Keeps r sm cs)
    (hcmd : (commandsOn key cs)[i]? = some cmd)
    (hkept : r = 0 ∨ (commandsOn key cs).length ≤ i + r) :
    sm.getVersion key (i + 1) = if cmd.op = "del" then ("", false) else (cmd.value, true) := by
  obtain ⟨d, hd, hwindow⟩ : ∃ d ≤ i, newest r (numbered (commandsOn key cs)) =
      (numbered (commandsOn key cs)).drop d := by
    unfold newest
    split
    · exact ⟨0, Nat.zero_le i, rfl⟩
    · exact ⟨_, by rw [length_numbered]; omega, rfl⟩
  have hfind : ((numbered (commandsOn key cs)).drop d).find?
      (fun v => decide (v.version = i + 1)) =
      some ⟨i + 1, cmd.value, decide (cmd.op = "del")⟩ := by
    obtain ⟨hlt, hget⟩ := List.getElem?_eq_some_iff.mp hcmd
    rw [List.find?_eq_some_iff_getElem]
    refine ⟨decide_eq_true rfl, i - d, ?_, ?_, ?_⟩
    · rw [List.length_drop, length_numbered]
      omega
    · simp [numbered, Nat.add_sub_cancel' hd, hget]
    · intro k hk
      simp [numbered]
      omega
  rw [getVersion, h.versions, hwindow, hfind]
  simp only [decide_eq_true_eq]

/-- **A version does not change.**  What `Get` returns with a version is what `GetVersion`
returns for it after any more entries, as long as `gc` keeps it. -/
theorem getVersion_stable [Codec] (r : Nat) (es es' : List LogEntry) (key : String)
    (hpos : 0 < ((new r).applyAll es).current key)
    (hkept : r = 0 ∨
      ((new r).applyAll (es ++ es')).current key < ((new r).applyAll es).current key + r) :
    ((new r).applyAll (es ++ es')).getVersion key (((new r).applyAll es).current key) =
      ((((new r).applyAll es).get key).1, (((new r).applyAll es).get key).2.2) := by
  have h := Keeps.applyAll r es
  have h' := Keeps.applyAll r (es ++ es')
  -- the version is that of the last command on the key so far
  rw [h.current] at hpos hkept ⊢
  obtain ⟨cs, cmd, hcs⟩ : ∃ cs cmd, commandsOn key ((new r).effects es) = cs ++ [cmd] :=
    ⟨_, _, (List.dropLast_append_getLast (List.ne_nil_of_length_pos hpos)).symm⟩
  have hcmd : (commandsOn key ((new r).effects (es ++ es')))[cs.length]? = some cmd := by
    rw [effects, outputs_append, commandsOn, List.filter_append]
    change (commandsOn key ((new r).effects es) ++ _)[cs.length]? = _
    simp [hcs]
  rw [h'.current] at hkept
  rw [hcs, List.length_append, List.length_singleton] at hkept ⊢
  rw [h'.getVersion_kept hcmd (hkept.imp_right (by omega)), h.get_concat hcs]
  split <;> rfl

end Reads

/-! ### Whole runs -/

/-- **Versions and conditional writes over whole runs.** -/
theorem versions_of_commands [Codec] (r : Nat) (es : List LogEntry) :
    -- the version of a key counts the commands on it, the versions are the newest of them
    (∀ key, ((new r).applyAll es).current key = (commandsOn key ((new r).effects es)).length ∧
      ((new r).applyAll es).versions key =
        (numbered (commandsOn key ((new r).effects es))).drop
          (((new r).applyAll es).current key -
            if r = 0 then ((new r).applyAll es).current key
            else min r (((new r).applyAll es).current key))) ∧
    -- a command that expects nothing takes effect
    (∀ i e cmd, es[i]? = some e → Codec.unmarshalCommand e.data = some cmd →
      cmd.expectedVersion = 0 → (new r).effectAt es i = some cmd) ∧
    -- one that expects a version does so at that version, and no other with it
    (∀ key v, 0 < v → ∀ i cmd, (new r).effectAt es i = some cmd → cmd.key = key →
      cmd.expectedVersion = v →
      ((new r).applyAll (es.take i)).current key = v ∧
      ∀ j cmd', (new r).effectAt es j = some cmd' → cmd'.key = key →
        cmd'.expectedVersion = v → j = i) := by
  have hkeeps := Keeps.applyAll r es
  refine ⟨fun key => ⟨hkeeps.current key, ?_⟩, ?_, ?_⟩
  · rw [hkeeps.versions, hkeeps.current, newest_eq, length_numbered]
  · intro i e cmd he hcmd hzero
    exact effectAt_eq_some.mpr ⟨e, he, effect_eq_some.mpr ⟨hcmd, conflicts_of_zero hzero⟩⟩
  · rintro key v hpos i cmd hi rfl rfl
    refine ⟨current_of_effectAt hi hpos, fun j cmd' hj hkey hver => ?_⟩
    exact effectAt_unique hj hi hkey hver (hver ▸ hpos)

/-! ### Machines with the same versions -/

/-- The machines differ at most in the conflicts they remember and in
`lastApplied`. -/
structure Alike (sm sm' : MVCCStateMachine) : Prop where
  versions : sm.versions = sm'.versions
  latest : sm.latest = sm'.latest
  retention : sm.retention = sm'.retention

namespace Alike

variable {sm sm' sm'' : MVCCStateMachine}

theorem refl (sm : MVCCStateMachine) : Alike sm sm := ⟨rfl, rfl, rfl⟩

theorem symm (h : Alike sm sm') : Alike sm' sm := ⟨h.versions.symm, h.latest.symm, h.retention.symm⟩

theorem trans (h : Alike sm sm') (h' : Alike sm' sm'') : Alike sm sm'' :=
  ⟨h.versions.trans h'.versions, h.latest.trans h'.latest, h.retention.trans h'.retention⟩

theorem current (h : Alike sm sm') : sm.current = sm'.current := by
  funext key
  rw [MVCCStateMachine.current, MVCCStateMachine.current, h.latest]

theorem conflicts (h : Alike sm sm') : sm.conflicts = sm'.conflicts := by
  funext cmd
  rw [MVCCStateMachine.conflicts, MVCCStateMachine.conflicts, h.current]

theorem write (h : Alike sm sm') (cmd : RaftKVCommand) (index : Int) :
    Alike (sm.write cmd index) (sm'.write cmd index) := by
  refine ⟨?_, ?_, h.retention⟩
  · show Function.update sm.versions cmd.key _ = Function.update sm'.versions cmd.key _
    rw [gc_eq, gc_eq, h.versions, h.retention, h.current]
  · show Function.update sm.latest cmd.key _ = Function.update sm'.latest cmd.key _
    rw [h.latest, h.current]

variable [Codec]

theorem effect (h : Alike sm sm') (e : LogEntry) : sm.effect e = sm'.effect e := by
  rw [MVCCStateMachine.effect, MVCCStateMachine.effect, h.conflicts]

theorem apply (h : Alike sm sm') (e : LogEntry) : Alike (sm.apply e) (sm'.apply e) := by
  rcases heff : sm.effect e with - | cmd
  · obtain ⟨conflicts, heq⟩ := apply_of_no_effect heff
    obtain ⟨conflicts', heq'⟩ := apply_of_no_effect (h.effect e ▸ heff)
    rw [heq, heq']
    exact ⟨h.versions, h.latest, h.retention⟩
  · rw [apply_of_effect heff, apply_of_effect (h.effect e ▸ heff)]
    exact h.write cmd e.index

end Alike

theorem alike_isCASConflict (sm : MVCCStateMachine) (index : Int) :
    Alike (sm.isCASConflict index).1 sm := ⟨rfl, rfl, rfl⟩

theorem applyAll_concat [Codec] (sm : MVCCStateMachine) (es : List LogEntry) (e : LogEntry) :
    sm.applyAll (es ++ [e]) = (sm.applyAll es).apply e := by
  rw [applyAll, List.foldl_append]
  rfl

end MVCCStateMachine

/-- `k` is set to `a`; it is set to `b` if it has version 1, or version 2. -/
def setK : String := "\x7b\"op\":\"set\",\"key\":\"k\",\"value\":\"a\"\x7d"
def casK1 : String :=
  "\x7b\"op\":\"cas\",\"key\":\"k\",\"value\":\"b\",\"expected_version\":1\x7d"
def casK2 : String :=
  "\x7b\"op\":\"cas\",\"key\":\"k\",\"value\":\"b\",\"expected_version\":2\x7d"

/-- A codec of these three commands. -/
abbrev Codec.conditional : Codec := .ofTexts
  [(setK, ⟨"set", "k", "a", 0⟩), (casK1, ⟨"cas", "k", "b", 1⟩), (casK2, ⟨"cas", "k", "b", 2⟩)] []

section

local instance versionsCodec : Codec := Codec.conditional

open MVCCStateMachine in
theorem getVersion_stable_overwritten :
    let es : List LogEntry := [⟨1, 1, 0, goString setK⟩]
    let es' : List LogEntry := [⟨2, 1, 0, goString casK1⟩]
    ((new 2).applyAll es).get "k" = ("a", 1, true) ∧
      ((new 2).applyAll (es ++ es')).get "k" = ("b", 2, true) ∧
      ((new 2).applyAll (es ++ es')).getVersion "k" (((new 2).applyAll es).current "k") =
        ((((new 2).applyAll es).get "k").1, (((new 2).applyAll es).get "k").2.2) := by
  refine ⟨by decide +kernel, by decide +kernel, ?_⟩
  exact getVersion_stable 2 [⟨1, 1, 0, goString setK⟩] [⟨2, 1, 0, goString casK1⟩] "k"
    (by decide +kernel) (.inr (by decide +kernel))

end

end Raft
