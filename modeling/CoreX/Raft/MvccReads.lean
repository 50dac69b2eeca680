/-
CoreX/Raft/MvccReads.lean

`GET /mvcc/kv/{key}` on a replica that has applied everything up to the read index.
`WaitForIndex` returns at once if `lastApplied` has reached the index or a conflict is
recorded for it, and the handler then checks `lastApplied` once more.

`lastApplied` moves with the commands that take effect only.  If the last entry is a
conflict, it stays below the index, and no later check can tell that the replica is up
to date: the read is refused, or it waits for a notification that has already been
(`caught_up_read_refused`).  So a read is served just if the last entry has taken effect
(`caught_up_reads`).
-/
import CoreX.Raft.Machine
import CoreX.Raft.Versions

namespace Raft

/-! ### The handler -/

/-- What `GET` answers. -/
inductive GetAnswer
  /-- 504: nobody notifies the index before the deadline. -/
  | timedOut
  /-- 503, "state machine lagging". -/
  | lagging
  /-- 404. -/
  | notFound
  | found (value : String) (version : Nat)
  deriving DecidableEq, Repr

/-- The answer from what `Get` returns. -/
def GetAnswer.ofGet : String × Nat × Bool → GetAnswer
  | (_, _, false) => .notFound
  | (value, version, true) => .found value version

namespace MVCCStateMachine

/-- `WaitForIndex` returns on one of its fast paths; the others have their channel
registered. -/
def returnsAtOnce (sm : MVCCStateMachine) (index : Int) : Bool :=
  decide (index ≤ sm.lastApplied) || (sm.conflictResults index).isSome

/-- `ServeHTTP` after `ReadIndex`, on a machine to which nothing is applied meanwhile:
an index that was notified before is not notified again, so a registered channel stays
empty to the deadline. -/
def serveGet (sm : MVCCStateMachine) (readIndex : Int) (key : String) : GetAnswer :=
  if !sm.returnsAtOnce readIndex then .timedOut
  else if sm.lastApplied < readIndex then .lagging
  else .ofGet (sm.get key)

end MVCCStateMachine

/-- The answer that the commands `cs` call for. -/
def latestAnswer (key : String) (cs : List RaftKVCommand) : GetAnswer :=
  match (commandsOn key cs).getLast? with
  | none => .notFound
  | some cmd =>
      if cmd.op = "del" then .notFound else .found cmd.value (commandsOn key cs).length

/-! ### What happens at a replica -/

inductive ReplicaAct
  | apply (entry : LogEntry)
  /-- `IsCASConflict` for an index, by the handler of a write. -/
  | ask (index : Int)
  deriving DecidableEq, Repr

/-- The entry that is applied, if one is. -/
def ReplicaAct.entry : ReplicaAct → Option LogEntry
  | .apply entry => some entry
  | .ask _ => none

namespace MVCCStateMachine

variable [Codec]

def act (sm : MVCCStateMachine) : ReplicaAct → MVCCStateMachine
  | .apply entry => sm.apply entry
  | .ask index => (sm.isCASConflict index).1

def acts (sm : MVCCStateMachine) (as : List ReplicaAct) : MVCCStateMachine := as.foldl act sm

variable {sm : MVCCStateMachine} {as : List ReplicaAct} {es : List LogEntry} {e : LogEntry}
  {cs : List RaftKVCommand} {key : String} {r : Nat}

theorem Alike.lastApplied_apply {sm' : MVCCStateMachine} (h : Alike sm sm')
    (hla : sm.lastApplied = sm'.lastApplied) (e : LogEntry) :
    (sm.apply e).lastApplied = (sm'.apply e).lastApplied := by
  rcases heff : sm.effect e with - | cmd
  · obtain ⟨_, happly⟩ := apply_of_no_effect heff
    obtain ⟨_, happly'⟩ := apply_of_no_effect (h.effect e ▸ heff)
    rw [happly, happly']
    exact hla
  · rw [apply_of_effect heff, apply_of_effect (h.effect e ▸ heff)]
    rfl

theorem acts_alike (sm : MVCCStateMachine) (as : List ReplicaAct) :
    Alike (sm.acts as) (sm.applyAll (as.filterMap ReplicaAct.entry)) ∧
      (sm.acts as).lastApplied = (sm.applyAll (as.filterMap ReplicaAct.entry)).lastApplied := by
  induction as using List.reverseRecOn with
  | nil => exact ⟨.refl sm, rfl⟩
  | append_singleton as a ih =>
    rw [acts, List.foldl_append, List.filterMap_append]
    cases a with
    | apply e =>
      have hentries : [ReplicaAct.apply e].filterMap ReplicaAct.entry = [e] := rfl
      rw [hentries, applyAll_concat]
      exact ⟨ih.1.apply e, ih.1.lastApplied_apply ih.2 e⟩
    | ask index =>
      have hentries : [ReplicaAct.ask index].filterMap ReplicaAct.entry = [] := rfl
      rw [hentries, List.append_nil]
      exact ⟨(alike_isCASConflict _ index).trans ih.1, ih.2⟩

/-! ### The applied index -/

/-- The last of the entries takes effect, or there is none. -/
def lastTakesEffect (sm : MVCCStateMachine) (es : List LogEntry) : Bool :=
  es = [] || (sm.effectAt es (es.length - 1)).isSome

theorem lastTakesEffect_concat :
    sm.lastTakesEffect (es ++ [e]) = ((sm.applyAll es).effect e).isSome := by
  have hat : sm.effectAt (es ++ [e]) es.length = (sm.applyAll es).effect e :=
    Outputs.outputAt_length
  rw [lastTakesEffect, List.length_append, List.length_singleton, Nat.add_sub_cancel, hat]
  simp

theorem lastApplied_applyAll
    (hidx : ∀ (n : Nat) (e : LogEntry), es[n]? = some e → e.index = n + 1) :
    ((new r).applyAll es).lastApplied ≤ es.length ∧
      (es.length ≤ ((new r).applyAll es).lastApplied ↔ (new r).lastTakesEffect es = true) := by
  induction es using List.reverseRecOn with
  | nil => exact ⟨le_rfl, by simp [lastTakesEffect, applyAll, new]⟩
  | append_singleton es e ih =>
    have hlast : e.index = es.length + 1 := hidx es.length e List.getElem?_concat_length
    have hidx' : ∀ (n : Nat) (e' : LogEntry), es[n]? = some e' → e'.index = n + 1 := by
      intro n e' he'
      have hn : n < es.length := (List.getElem?_eq_some_iff.mp he').1
      exact hidx n e' ((List.getElem?_append_left hn).trans he')
    have hbefore := (ih hidx').1
    rw [applyAll_concat, lastTakesEffect_concat, List.length_append, List.length_singleton]
    rcases heff : ((new r).applyAll es).effect e with - | cmd
    · -- `lastApplied` stays, so it is below the index of this entry
      obtain ⟨_, happly⟩ := apply_of_no_effect heff
      rw [happly]
      push_cast
      exact ⟨by omega, by simp; omega⟩
    · rw [apply_of_effect heff]
      show e.index ≤ _ ∧ (_ ≤ e.index ↔ _)
      rw [hlast]
      simp

/-! ### Reads -/

omit [Codec] in
theorem Alike.keeps {sm' : MVCCStateMachine} (h : Alike sm sm') (hkeeps : Keeps r sm' cs) :
    Keeps r sm cs where
  retention := h.retention.trans hkeeps.retention
  latest key := h.latest ▸ hkeeps.latest key
  versions key := h.versions ▸ hkeeps.versions key

omit [Codec] in
theorem Keeps.ofGet (h : Keeps r sm cs) : .ofGet (sm.get key) = latestAnswer key cs := by
  rw [latestAnswer]
  rcases List.eq_nil_or_concat (commandsOn key cs) with hnil | ⟨cs', cmd, hcs⟩
  · rw [h.get_nil hnil, hnil]
    rfl
  · rw [List.concat_eq_append] at hcs
    rw [h.get_concat hcs, hcs, List.getLast?_concat, List.length_append, List.length_singleton]
    by_cases hdel : cmd.op = "del"
    · simp only [hdel, if_true, GetAnswer.ofGet]
    · simp only [hdel, if_false, GetAnswer.ofGet]

omit [Codec] in
theorem latestAnswer_served (key : String) (cs : List RaftKVCommand) :
    latestAnswer key cs ≠ .timedOut ∧ latestAnswer key cs ≠ .lagging := by
  rw [latestAnswer]
  split
  · exact ⟨nofun, nofun⟩
  · split <;> exact ⟨nofun, nofun⟩

omit [Codec] in
theorem Keeps.serveGet_iff {readIndex : Int} (h : Keeps r sm cs) :
    sm.serveGet readIndex key = latestAnswer key cs ↔ readIndex ≤ sm.lastApplied := by
  obtain ⟨htimely, hfresh⟩ := latestAnswer_served key cs
  by_cases hla : readIndex ≤ sm.lastApplied
  · have hreturns : sm.returnsAtOnce readIndex = true := by simp [returnsAtOnce, hla]
    refine iff_of_true ?_ hla
    rw [serveGet, hreturns, Bool.not_true, if_neg Bool.false_ne_true, if_neg hla.not_gt, h.ofGet]
  · -- whichever way the wait ends, the answer is not that of a read
    refine iff_of_false ?_ hla
    rw [serveGet, if_pos (not_le.mp hla)]
    split
    · exact htimely.symm
    · exact hfresh.symm

/-- **Reads of a replica that is up to date** are served if the last entry has taken
effect, and only then. -/
theorem caught_up_reads (C : CommittedLog) (r : Nat) (as : List ReplicaAct)
    (has : as.filterMap ReplicaAct.entry = C.entries) (key : String) :
    ((new r).acts as).serveGet C.entries.length key =
        latestAnswer key ((new r).effects C.entries) ↔
      (new r).lastTakesEffect C.entries = true := by
  obtain ⟨halike, hla⟩ := acts_alike (new r) as
  rw [has] at halike hla
  have hkeeps := halike.keeps (Keeps.applyAll r C.entries)
  rw [hkeeps.serveGet_iff, hla, (lastApplied_applyAll C.index_eq).2]

end MVCCStateMachine

/-! ### A conflict at the end -/

/-- Two writes of `k`; the second expects version `2`, and there is version `1`. -/
def conflictLog : CommittedLog := .ofTexts [setK, casK2]

/-- A third write expects version `1`. -/
def conflictInside : CommittedLog := .ofTexts [setK, casK2, casK1]

/-- The conflict is asked for before the last entry comes. -/
def askedInside : List ReplicaAct :=
  (conflictInside.entries.take 2).map .apply ++ [.ask 2] ++
    (conflictInside.entries.drop 2).map .apply

section

local instance readsCodec : Codec := Codec.conditional

/-- A conflict inside the log does not keep a read from being served. -/
theorem caught_up_reads_inside :
    (MVCCStateMachine.new 0).effectAt conflictInside.entries 1 = none ∧
      ((MVCCStateMachine.new 0).acts askedInside).serveGet 3 "k" = .found "b" 2 := by
  refine ⟨by decide +kernel, ?_⟩
  have hread := (MVCCStateMachine.caught_up_reads conflictInside 0 askedInside (by decide +kernel)
    "k").mpr (by decide +kernel)
  exact hread.trans (by decide +kernel)

/-- With the conflict at the end, the replica refuses the read as long as nobody has asked
for the conflict, and lets it time out after that.  The value is still `"a"`. -/
theorem caught_up_read_refused :
    let as := conflictLog.entries.map ReplicaAct.apply
    ((MVCCStateMachine.new 0).acts as).serveGet 2 "k" = .lagging ∧
      ((MVCCStateMachine.new 0).acts (as ++ [.ask 2])).serveGet 2 "k" = .timedOut ∧
      latestAnswer "k" ((MVCCStateMachine.new 0).effects conflictLog.entries) = .found "a" 1 := by
  decide +kernel

end

end Raft
