/-
CoreX/Raft/CommandJson.lean

The two JSON payloads of log entries, as structs.  `JsonCodec` is a `Codec` whose
commands and configuration changes go through JSON values; only the text of a value is
left open, with the one law that the text of a configuration change is read back.

A configuration change is read back as such, but it can be read as a command, too: the
two structs have no field in common, so it is a command of empty strings
(`unmarshalCommand_marshalConfig`).

`JsonCodec.plain` is such a codec with a text that is easy to evaluate.
-/
import CoreX.Lib.Bytes
import CoreX.Lib.GoJson
import CoreX.Raft.Types

namespace Raft

open GoJson

/-! ### Commands -/

/-- The struct tags of `RaftKVCommand`. -/
def RaftKVCommand.fields : Struct RaftKVCommand :=
  [("op", setString fun s c => { c with op := s }),
    ("key", setString fun s c => { c with key := s }),
    ("value", setString fun s c => { c with value := s }),
    ("expected_version", setUint64 fun n c => { c with expectedVersion := n })]

/-- `var cmd RaftKVCommand`. -/
def RaftKVCommand.zero : RaftKVCommand := ⟨"", "", "", 0⟩

/-- `json.Unmarshal(entry.Data, &cmd)`. -/
def RaftKVCommand.ofJson (v : Json) : Option RaftKVCommand := RaftKVCommand.fields.unmarshal .zero v

-- unknown members are ignored, names may differ in case
example : RaftKVCommand.ofJson (.obj [("OP", .str "set"), ("x", .arr []), ("key", .str "k")]) =
    some ⟨"set", "k", "", 0⟩ := by
  decide +kernel

/-! ### Configuration changes -/

namespace ConfigChangePayload

/-- The struct tags of `ConfigChangePayload`. -/
def fields : Struct ConfigChangePayload :=
  [("phase", setString fun s p => { p with phase := s }),
    ("voters", setStrings fun l p => { p with voters := l }),
    ("new_voters", setStrings fun l p => { p with newVoters := l })]

/-- `json.Unmarshal(entry.Data, &payload)`. -/
def ofJson (v : Json) : Option ConfigChangePayload := fields.unmarshal ⟨"", [], []⟩ v

/-- `json.Marshal(payload)`: the last field is omitted if it is empty. -/
def toJson (p : ConfigChangePayload) : Json :=
  .obj ([("phase", .str p.phase), ("voters", .arr (p.voters.map .str))] ++
    if p.newVoters = [] then [] else [("new_voters", .arr (p.newVoters.map .str))])

variable {p : ConfigChangePayload}

theorem store_phase (s : String) :
    fields.store p ("phase", .str s) = some { p with phase := s } := by
  simp [Struct.store, Struct.field?, fields, setString]

theorem store_voters (l : List Addr) :
    fields.store p ("voters", .arr (l.map .str)) = some { p with voters := l } := by
  simp [Struct.store, Struct.field?, fields, setStrings_strings]

theorem store_newVoters (l : List Addr) :
    fields.store p ("new_voters", .arr (l.map .str)) = some { p with newVoters := l } := by
  simp [Struct.store, Struct.field?, fields, setStrings_strings]

theorem ofJson_toJson (p : ConfigChangePayload) : ofJson p.toJson = some p := by
  obtain ⟨phase, voters, newVoters⟩ := p
  have hfirst : [("phase", Json.str phase), ("voters", .arr (voters.map .str))].foldlM
      fields.store ⟨"", [], []⟩ = some ⟨phase, voters, []⟩ := by
    rw [List.foldlM_cons, store_phase, Option.bind_eq_bind, Option.bind_some, List.foldlM_cons,
      store_voters]
    rfl
  show List.foldlM fields.store _ (_ ++ _) = _
  rw [List.foldlM_append, hfirst, Option.bind_eq_bind, Option.bind_some]
  by_cases hnil : newVoters = []
  · rw [if_pos hnil, hnil]
    rfl
  · rw [if_neg hnil, List.foldlM_cons, store_newVoters]
    rfl

theorem commandOf_toJson (p : ConfigChangePayload) :
    RaftKVCommand.ofJson p.toJson = some .zero := by
  apply Struct.unmarshal_unknown
  intro m hm
  have hname : m.1 = "phase" ∨ m.1 = "voters" ∨ m.1 = "new_voters" := by
    rcases List.mem_append.mp hm with hm | hm
    · rcases List.mem_pair.mp hm with rfl | rfl
      · exact .inl rfl
      · exact .inr (.inl rfl)
    · split at hm
      · cases hm
      · rw [List.mem_singleton.mp hm]
        exact .inr (.inr rfl)
  rcases hname with h | h | h <;> rw [h] <;> decide +kernel

end ConfigChangePayload

/-! ### The text -/

/-- A codec by way of JSON values. -/
class JsonCodec extends Codec where
  /-- The value that a text stands for, if it is one. -/
  parse : Bytes → Option Json
  unmarshalCommand_eq : ∀ data, unmarshalCommand data = (parse data).bind RaftKVCommand.ofJson
  unmarshalConfig_eq : ∀ data, unmarshalConfig data = (parse data).bind ConfigChangePayload.ofJson
  parse_marshalConfig : ∀ p, parse (marshalConfig p) = some p.toJson

section

variable [JsonCodec] (p : ConfigChangePayload)

@[simp] theorem unmarshalConfig_marshalConfig :
    Codec.unmarshalConfig (Codec.marshalConfig p) = some p := by
  rw [JsonCodec.unmarshalConfig_eq, JsonCodec.parse_marshalConfig, Option.bind_some,
    p.ofJson_toJson]

@[simp] theorem unmarshalCommand_marshalConfig :
    Codec.unmarshalCommand (Codec.marshalConfig p) = some .zero := by
  rw [JsonCodec.unmarshalCommand_eq, JsonCodec.parse_marshalConfig, Option.bind_some,
    p.commandOf_toJson]

end

/-! ### A text that is easy to evaluate -/

namespace PlainText

/-- Each character in three bytes with a `1` before it, and a `0` at the end. -/
def putChars : List Char → Bytes
  | [] => [0]
  | c :: cs => 1 :: (Bytes.putLE 3 c.toNat ++ putChars cs)

def readChars : Bytes → Option (List Char × Bytes)
  | 0 :: rest => some ([], rest)
  | _ :: b₀ :: b₁ :: b₂ :: rest =>
      (readChars rest).map fun r => (Char.ofNat (Bytes.getLE [b₀, b₁, b₂]) :: r.1, r.2)
  | _ => none

theorem readChars_putChars (cs : List Char) (rest : Bytes) :
    readChars (putChars cs ++ rest) = some (cs, rest) := by
  induction cs with
  | nil => rfl
  | cons c cs ih =>
    have hchar : Bytes.getLE (Bytes.putLE 3 c.toNat) = c.toNat := by
      apply Bytes.getLE_putLE_of_lt
      rcases c.valid with hlow | ⟨-, hhigh⟩
      · exact hlow.trans (by decide)
      · exact hhigh.trans (by decide)
    have hread : readChars (putChars (c :: cs) ++ rest) = (readChars (putChars cs ++ rest)).map
        fun r => (Char.ofNat (Bytes.getLE (Bytes.putLE 3 c.toNat)) :: r.1, r.2) := rfl
    rw [hread, ih, hchar, Char.ofNat_toNat]
    rfl

/-- Each string with a `1` before it, and a `0` at the end. -/
def putStrings : List String → Bytes
  | [] => [0]
  | s :: l => 1 :: (putChars s.toList ++ putStrings l)

def readStrings : Nat → Bytes → Option (List String × Bytes)
  | _, 0 :: rest => some ([], rest)
  | fuel + 1, _ :: data =>
      (readChars data).bind fun r =>
        (readStrings fuel r.2).map fun r' => (String.ofList r.1 :: r'.1, r'.2)
  | _, _ => none

theorem readStrings_putStrings (l : List String) (rest : Bytes) {fuel : Nat}
    (h : l.length ≤ fuel) : readStrings fuel (putStrings l ++ rest) = some (l, rest) := by
  induction l generalizing fuel with
  | nil => cases fuel <;> rfl
  | cons s l ih =>
    obtain ⟨fuel, rfl⟩ : ∃ k, fuel = k + 1 := Nat.exists_eq_add_of_le' (by simp at h; omega)
    have hread : readStrings (fuel + 1) (putStrings (s :: l) ++ rest) =
        (readChars (putChars s.toList ++ putStrings l ++ rest)).bind fun r =>
          (readStrings fuel r.2).map fun r' => (String.ofList r.1 :: r'.1, r'.2) := rfl
    rw [hread, List.append_assoc, readChars_putChars, Option.bind_some,
      ih (by simpa using h), String.ofList_toList]
    rfl

theorem length_le_putStrings (l : List String) : l.length ≤ (putStrings l).length := by
  induction l with
  | nil => exact Nat.zero_le _
  | cons s l ih =>
    rw [putStrings, List.length_cons, List.length_cons, List.length_append]
    omega

def putConfig (p : ConfigChangePayload) : Bytes :=
  putChars p.phase.toList ++ (putStrings p.voters ++ putStrings p.newVoters)

def readConfig (data : Bytes) : Option ConfigChangePayload :=
  (readChars data).bind fun phase =>
    (readStrings data.length phase.2).bind fun voters =>
      (readStrings data.length voters.2).bind fun newVoters =>
        if newVoters.2 = [] then some ⟨String.ofList phase.1, voters.1, newVoters.1⟩ else none

theorem readConfig_putConfig (p : ConfigChangePayload) : readConfig (putConfig p) = some p := by
  have hvoters : p.voters.length ≤ (putConfig p).length := by
    have := length_le_putStrings p.voters
    rw [putConfig, List.length_append, List.length_append]
    omega
  have hnew : p.newVoters.length ≤ (putConfig p).length := by
    have := length_le_putStrings p.newVoters
    rw [putConfig, List.length_append, List.length_append]
    omega
  have hlast := readStrings_putStrings p.newVoters [] hnew
  rw [List.append_nil] at hlast
  rw [readConfig, putConfig, readChars_putChars, Option.bind_some, ← putConfig,
    readStrings_putStrings p.voters _ hvoters, Option.bind_some, hlast, Option.bind_some,
    if_pos rfl, String.ofList_toList]

end PlainText

/-- Configuration changes are the only values that have a text. -/
abbrev JsonCodec.plain : JsonCodec where
  unmarshalConfig data :=
    ((PlainText.readConfig data).map ConfigChangePayload.toJson).bind ConfigChangePayload.ofJson
  marshalConfig := PlainText.putConfig
  unmarshalCommand data :=
    ((PlainText.readConfig data).map ConfigChangePayload.toJson).bind RaftKVCommand.ofJson
  unmarshalSnapshotData _ := none
  marshalSnapshotData _ _ := []
  parse data := (PlainText.readConfig data).map ConfigChangePayload.toJson
  unmarshalCommand_eq _ := rfl
  unmarshalConfig_eq _ := rfl
  parse_marshalConfig p := by rw [PlainText.readConfig_putConfig, Option.map_some]

end Raft
