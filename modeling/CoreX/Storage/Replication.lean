/-
CoreX/Storage/Replication.lean

The replication of the event file.  The primary's `Streamer` follows the file record by
record, the replica appends the raw bytes it receives, and after a disconnect it asks
for the bytes from the size of its own file on.
-/
import CoreX.Storage.EventStore

namespace Kv

open Places StepSystem Wal

/-! ### The two ends -/

/-- `RawEntry`. -/
structure RawEntry where
  offset : Nat
  rawData : List UInt8
  recordSize : Nat
  deriving DecidableEq, Repr

/-- What `StreamWAL` returns. -/
inductive StreamError
  | unavailable (message : String)
  | canceled
  | openFailed
  | read (e : ReadError)
  | shortRead
  | sendFailed
  deriving DecidableEq, Repr

/-- Where `Stream` is in its loop: at the `select`, after it has opened the new file and
before it asks for the next channel, or about to read. -/
inductive StreamPhase
  | select
  | reopened
  | read
  deriving DecidableEq, Repr

/-- The variables of `Stream`.  Channels are numbered; one is closed when the writer has
a later one. -/
structure WalStream where
  file : Nat
  offset : Nat
  compactionCh : Nat
  phase : StreamPhase
  deriving DecidableEq, Repr

/-- The primary's store, the file that its `Streamer` was created with and the writer's
channel; the stream to the replica and what it has not received yet; the replica's file.
`aligned` records whether every entry started at a record of the file under the path
when it was sent. -/
structure Replication where
  store : EventStore
  walFile : Nat
  compactionCh : Nat
  session : Option WalStream
  inflight : List RawEntry
  replica : List UInt8
  aligned : Bool

inductive ReplicationStep
  | writeEvent (now : UInt64) (e : Event)
  | compact (times : List UInt8 → UInt64) (range range' : MapOrder)
  /-- `runOnce`: `PersistedOffset` and `StreamWAL`. -/
  | connect
  | disconnect
  /-- `Stream`: the `select`. -/
  | poll
  /-- `Stream`: `CompactionNotify` after the file was opened again. -/
  | notify
  /-- `Stream`: `ReadRecordAt`, `ReadAt` and the callback. -/
  | read
  /-- `Append` on the replica. -/
  | receive

section

variable [Crc32]

/-- Where the records of a file start. -/
def boundaries (file : List UInt8) : List Nat := (offsets (scanned file)).map Prod.snd

/-- `ReadRecordAt` at an `int64`; there is nothing to read before the file. -/
def readRecordFrom (file : List UInt8) : Int → Except ReadError Record
  | .ofNat offset => Wal.readRecordAt file offset
  | .negSucc _ => .error .errTruncated

/-- `Stream`: the entry at an offset. -/
def readRawEntry (file : List UInt8) (offset : Int) : Except StreamError RawEntry :=
  match readRecordFrom file offset with
  | .error e => .error (.read e)
  | .ok rec =>
      let recordSize := recordHeaderSize + rec.data.length + recordChecksumSize
      match Wal.readAt file offset.toNat recordSize with
      | none => .error .shortRead
      | some raw => .ok ⟨offset.toNat, raw, recordSize⟩

theorem readRawEntry_of_error {file : List UInt8} {offset : Nat} {e : ReadError}
    (h : Wal.readRecordAt file offset = .error e) :
    readRawEntry file offset = .error (.read e) := by
  have hrec : readRecordFrom file offset = .error e := h
  rw [readRawEntry, hrec]

theorem readRawEntry_of_ok {file raw : List UInt8} {offset : Nat} {r : Record}
    (h : Wal.readRecordAt file offset = .ok r)
    (hraw : Wal.readAt file offset (encode r).length = some raw) :
    readRawEntry file offset = .ok ⟨offset, raw, (encode r).length⟩ := by
  have hrec : readRecordFrom file offset = .ok r := h
  simp only [readRawEntry, hrec, recordSize_eq, Int.toNat_natCast, hraw]

namespace Replication

def initial (maxKeys : Nat) : Replication := ⟨.newStore maxKeys, 0, 0, none, [], [], true⟩

/-- `Stream`, one read. -/
def readEntry (s : Replication) (st : WalStream) : Replication :=
  match readRawEntry (s.store.inodes st.file) st.offset with
  | .error (.read .eof) => { s with session := some { st with phase := .select } }
  | .error _ => { s with session := none }
  | .ok entry =>
      { s with
        session := some { st with offset := st.offset + entry.recordSize, phase := .select }
        inflight := s.inflight ++ [entry]
        aligned := s.aligned && (boundaries s.store.wal).contains st.offset }

def step (s : Replication) : ReplicationStep → Option Replication
  | .writeEvent now e => some { s with store := (s.store.writeEvent now e).1 }
  | .compact times range range' =>
      match s.store.compact times range range' with
      | (store, some _) => some { s with store := store }
      | (store, none) => some { s with store := store, compactionCh := s.compactionCh + 1 }
  | .connect =>
      some { s with
        session := some ⟨s.walFile, s.replica.length, s.compactionCh, .select⟩
        inflight := [] }
  | .disconnect => some { s with session := none, inflight := [] }
  | .poll =>
      match s.session with
      | some ⟨file, offset, ch, .select⟩ =>
          if ch < s.compactionCh then
            some { s with session := some ⟨s.store.path, 0, ch, .reopened⟩ }
          else some { s with session := some ⟨file, offset, ch, .read⟩ }
      | _ => none
  | .notify =>
      match s.session with
      | some ⟨file, offset, _, .reopened⟩ =>
          some { s with session := some ⟨file, offset, s.compactionCh, .select⟩ }
      | _ => none
  | .read =>
      match s.session with
      | some st => if st.phase = .read then some (s.readEntry st) else none
      | none => none
  | .receive =>
      match s.inflight with
      | [] => none
      | entry :: rest => some { s with inflight := rest, replica := s.replica ++ entry.rawData }

/-- What the replica has, and what is on the way to it. -/
def handed (s : Replication) : List UInt8 := s.replica ++ s.inflight.flatMap RawEntry.rawData

/-- No live record of the primary is behind the position of the stream without having
been handed to the replica. -/
def NoneSkipped (s : Replication) : Prop :=
  ∀ st, s.session = some st → st.compactionCh = s.compactionCh →
    ∀ key offset, latest (offsets (scanned s.store.wal)) key = some offset → offset < st.offset →
      latest ((scanned s.handed).map Event.kv) key =
        latest ((scanned s.store.wal).map Event.kv) key

/-- The stream has nothing to send, and nothing is on the way. -/
def CaughtUp (s : Replication) : Prop :=
  ∃ st, s.session = some st ∧ st.compactionCh = s.compactionCh ∧ st.phase ≠ .reopened ∧
    Wal.readRecordAt (s.store.inodes st.file) st.offset = .error .eof ∧ s.inflight = []

/-- The replica's file has the last payload of each source. -/
def Agrees (s : Replication) : Prop :=
  latest ((scanned s.replica).map Event.kv) = latest ((scanned s.store.wal).map Event.kv)

/-- The steps that keep the two files related: an event has lengths of two bytes and
finds room in the index, a compaction finds the stream at its `select`, and a replica
connects only while the file the `Streamer` was created with is the one under the path. -/
def Steady (s : Replication) : ReplicationStep → Prop
  | .writeEvent _ e => e.Proper ∧ s.store.index.hasRoom e.source = true
  | .compact _ _ _ => ∀ st ∈ s.session, st.phase = .select
  | .connect => s.store.path = s.walFile
  | _ => True

instance decidableSteady (s : Replication) (c : ReplicationStep) : Decidable (s.Steady c) := by
  cases c <;> unfold Steady <;> infer_instance

/-! ### The invariant -/

/-- Where a stream is, when the events `hs` have been handed over and the file holds
`es`.  It is past the first `n` events, and what was handed over before the file was
swapped, `X`, has no source that is not in the file.  `first` says that the file was
never swapped. -/
inductive Position (first : Prop) (path ch : Nat) (es hs : List Event) : Option WalStream → Prop
  | closed : Position first path ch es hs none
  | signalled (st : WalStream) (hphase : st.phase = .select) (hch : st.compactionCh < ch)
      (hswap : ¬first) (hsub : ∀ e ∈ hs, e.source ∈ es.map Event.source) :
      Position first path ch es hs (some st)
  | reopened (st : WalStream) (hphase : st.phase = .reopened) (hch : st.compactionCh < ch)
      (hswap : ¬first) (hfile : st.file = path) (hoffset : st.offset = 0)
      (hsub : ∀ e ∈ hs, e.source ∈ es.map Event.source) : Position first path ch es hs (some st)
  | reading (st : WalStream) (X : List Event) (n : Nat) (hphase : st.phase ≠ .reopened)
      (hch : st.compactionCh = ch) (hfirst : first → X = []) (hfile : st.file = path)
      (hoffset : st.offset = (stream (es.take n)).length) (hn : n ≤ es.length)
      (hhs : hs = X ++ es.take n) (hsub : ∀ e ∈ X, e.source ∈ es.map Event.source) :
      Position first path ch es hs (some st)

/-- `es` is in the file, `xs` on the replica and `ys` on the way. -/
structure Inv (s : Replication) (es xs ys : List Event) : Prop where
  stored : s.store.Stored es
  index : s.store.IndexOf es
  bounded : s.store.index.keySet.card ≤ s.store.index.maxKeys
  replica : s.replica = stream xs
  inflight : s.inflight.map RawEntry.rawData = ys.map fun y => encode y.record
  proper : ∀ e ∈ xs ++ ys, e.Proper
  opened : s.walFile ≤ s.store.path
  first : s.store.path = s.walFile → xs ++ ys <+: es
  position : Position (s.store.path = s.walFile) s.store.path s.compactionCh es (xs ++ ys) s.session
  aligned : s.aligned = true

variable {s s' : Replication} {es xs ys : List Event}

theorem Inv.handed_eq (h : s.Inv es xs ys) : s.handed = stream (xs ++ ys) := by
  have hflat : s.inflight.flatMap RawEntry.rawData = stream ys := by
    rw [List.flatMap_def, h.inflight, ← List.flatMap_def, stream, List.flatMap_map]
  rw [handed, h.replica, hflat, stream_append]

theorem Position.sources {first : Prop} {path ch : Nat} {hs : List Event} {st : WalStream}
    (h : Position first path ch es hs (some st)) : ∀ e ∈ hs, e.source ∈ es.map Event.source := by
  cases h with
  | signalled _ _ _ _ hsub => exact hsub
  | reopened _ _ _ _ _ _ hsub => exact hsub
  | reading _ X n _ _ _ _ _ _ hhs hsub =>
    intro e he
    rw [hhs] at he
    rcases List.mem_append.mp he with he | he
    · exact hsub e he
    · exact List.mem_map_of_mem (List.mem_of_mem_take he)

/-! ### The steps -/

theorem Inv.writeEvent (h : s.Inv es xs ys) {e : Event} (he : e.Proper)
    (hroom : s.store.index.hasRoom e.source = true) (now : UInt64) :
    ({ s with store := (s.store.writeEvent now e).1 } : Replication).Inv
      (es ++ [{ e with receivedAt := now }]) xs ys := by
  obtain ⟨store, hwrite, hstored, hidx, hmax⟩ := h.stored.writeEvent h.index he hroom now
  have hpath := EventStore.writeEvent_path s.store now e
  rw [hwrite] at hpath ⊢
  have hsub : ∀ {X : List Event}, (∀ e' ∈ X, e'.source ∈ es.map Event.source) →
      ∀ e' ∈ X, e'.source ∈ (es ++ [{ e with receivedAt := now }]).map Event.source := by
    intro X hX e' he'
    rw [List.map_append]
    exact List.mem_append_left _ (hX e' he')
  refine ⟨hstored, hidx, ?_, h.replica, h.inflight, h.proper, hpath.1 ▸ h.opened, ?_, ?_, h.aligned⟩
  · have hb := EventStore.writeEvent_bounded h.bounded now e
    rwa [hwrite] at hb
  · intro hp
    exact (h.first (hpath.1 ▸ hp)).trans (List.prefix_append _ _)
  · show Position (store.path = s.walFile) store.path s.compactionCh _ _ s.session
    rw [hpath.1]
    have hpos := h.position
    generalize s.session = session at hpos ⊢
    cases hpos with
    | closed => exact .closed
    | signalled st hphase hch hswap hX => exact .signalled st hphase hch hswap (hsub hX)
    | reopened st hphase hch hswap hfile hoffset hX =>
      exact .reopened st hphase hch hswap hfile hoffset (hsub hX)
    | reading st X n hphase hch hfirst hfile hoffset hn hhs hX =>
      have htake : (es ++ [{ e with receivedAt := now }]).take n = es.take n :=
        List.take_append_of_le_length hn
      refine .reading st X n hphase hch hfirst hfile ?_ ?_ ?_ (hsub hX)
      · rw [htake, hoffset]
      · rw [List.length_append]
        omega
      · rw [htake, hhs]

theorem Inv.compact (h : s.Inv es xs ys) (hphase : ∀ st ∈ s.session, st.phase = .select)
    {times : List UInt8 → UInt64} {range range' : MapOrder}
    (hs : s.step (.compact times range range') = some s') : ∃ es', s'.Inv es' xs ys := by
  obtain ⟨store, es', hcompact, hstored, hidx, hlatest, hmax⟩ :=
    h.stored.compact h.index h.bounded times range range'
  simp only [step, hcompact] at hs
  obtain rfl := Option.some.inj hs
  obtain ⟨hpath, hcreated⟩ := EventStore.path_of_compact hcompact
  have hfresh := h.stored.fresh
  have hopened := h.opened
  have hswap : ¬store.path = s.walFile := by omega
  refine ⟨es', hstored, hidx, ?_, h.replica, h.inflight, h.proper, ?_, fun hp =>
    absurd hp hswap, ?_,
    h.aligned⟩
  · show store.index.keySet.card ≤ store.index.maxKeys
    rw [h.index.keySet_eq hidx hlatest, hmax]
    exact h.bounded
  · show s.walFile ≤ store.path
    omega
  · have hsources := sources_of_latest hlatest
    show Position (store.path = s.walFile) store.path (s.compactionCh + 1) es' (xs ++ ys) s.session
    have hpos := h.position
    rcases hses : s.session with - | st
    · exact .closed
    · rw [hses] at hpos
      have hsub : ∀ e ∈ xs ++ ys, e.source ∈ es'.map Event.source := by
        intro e he
        rw [← List.mem_toFinset, hsources, List.mem_toFinset]
        exact hpos.sources e he
      have hle : st.compactionCh ≤ s.compactionCh := by
        cases hpos with
        | signalled _ _ hch => omega
        | reopened _ _ hch => omega
        | reading _ _ _ _ hch => omega
      exact .signalled st (hphase st hses) (by omega) hswap hsub

theorem Inv.connect (h : s.Inv es xs ys) (hpath : s.store.path = s.walFile) :
    ({ s with
        session := some ⟨s.walFile, s.replica.length, s.compactionCh, .select⟩
        inflight := [] } : Replication).Inv es xs [] := by
  have hxs : xs <+: es := (List.prefix_append xs ys).trans (h.first hpath)
  have htake : es.take xs.length = xs := (List.prefix_iff_eq_take.mp hxs).symm
  refine ⟨h.stored, h.index, h.bounded, h.replica, rfl, ?_, h.opened, ?_, ?_, h.aligned⟩
  · rw [List.append_nil]
    exact fun e he => h.proper e (List.mem_append_left _ he)
  · intro _
    rwa [List.append_nil]
  · refine .reading _ [] xs.length (fun hphase => nomatch hphase) rfl (fun _ => rfl) hpath.symm ?_
      hxs.length_le ?_ (fun e he => absurd he List.not_mem_nil)
    · show s.replica.length = _
      rw [htake, h.replica]
    · rw [htake, List.append_nil, List.nil_append]

theorem Inv.disconnect (h : s.Inv es xs ys) :
    ({ s with session := none, inflight := [] } : Replication).Inv es xs [] := by
  refine ⟨h.stored, h.index, h.bounded, h.replica, rfl, ?_, h.opened, ?_, .closed, h.aligned⟩
  · rw [List.append_nil]
    exact fun e he => h.proper e (List.mem_append_left _ he)
  · intro hp
    rw [List.append_nil]
    exact (List.prefix_append xs ys).trans (h.first hp)

theorem Inv.move (h : s.Inv es xs ys) {session : Option WalStream}
    (hpos : Position (s.store.path = s.walFile) s.store.path s.compactionCh es (xs ++ ys) session) :
    ({ s with session := session } : Replication).Inv es xs ys :=
  ⟨h.stored, h.index, h.bounded, h.replica, h.inflight, h.proper, h.opened, h.first, hpos,
    h.aligned⟩

theorem Inv.poll (h : s.Inv es xs ys) (hs : s.step .poll = some s') : s'.Inv es xs ys := by
  simp only [step] at hs
  split at hs
  · next file offset ch hses =>
    have hpos := h.position
    rw [hses] at hpos
    cases hpos with
    | signalled _ _ hch hswap hsub =>
      rw [if_pos hch] at hs
      obtain rfl := Option.some.inj hs
      exact h.move (.reopened _ rfl hch hswap rfl rfl hsub)
    | reopened _ hphase => cases hphase
    | reading _ X n hphase hch hfirst hfile hoffset hn hhs hsub =>
      rw [if_neg (show ¬ch < s.compactionCh from Nat.not_lt.mpr (Nat.le_of_eq hch.symm))] at hs
      obtain rfl := Option.some.inj hs
      exact h.move (.reading _ X n (fun hphase => nomatch hphase) hch hfirst hfile hoffset hn hhs
        hsub)
  · cases hs

theorem Inv.notify (h : s.Inv es xs ys) (hs : s.step .notify = some s') : s'.Inv es xs ys := by
  simp only [step] at hs
  split at hs
  · next file offset ch hses =>
    obtain rfl := Option.some.inj hs
    have hpos := h.position
    rw [hses] at hpos
    refine h.move ?_
    cases hpos with
    | signalled _ hphase => cases hphase
    | reading _ _ _ hphase => exact absurd rfl hphase
    | reopened _ _ _ hswap hfile hoffset hsub =>
      refine .reading _ (xs ++ ys) 0 (fun hphase => nomatch hphase) rfl
        (fun hfirst => absurd hfirst hswap) hfile hoffset (Nat.zero_le _) ?_ hsub
      rw [List.take_zero, List.append_nil]
  · cases hs

theorem Inv.readEntry_end (h : s.Inv es xs ys) {st : WalStream} (hfile : st.file = s.store.path)
    (hoffset : st.offset = (stream es).length) :
    s.readEntry st = { s with session := some { st with phase := .select } } := by
  have hwal : s.store.inodes st.file = stream es := by
    rw [hfile]
    exact h.stored.wal
  have hend : readRawEntry (stream es) st.offset = .error (.read .eof) :=
    readRawEntry_of_error (hoffset ▸ readRecordAt_end _)
  simp only [readEntry, hwal, hend]

theorem Inv.readEntry_event (h : s.Inv es xs ys) {st : WalStream} (hfile : st.file = s.store.path)
    {n : Nat} {e : Event} (he : es[n]? = some e)
    (hoffset : st.offset = (stream (es.take n)).length) :
    s.readEntry st = { s with
      session := some { st with offset := (stream (es.take (n + 1))).length, phase := .select }
      inflight := s.inflight ++ [⟨st.offset, encode e.record, (encode e.record).length⟩] } := by
  have htake : es.take (n + 1) = es.take n ++ [e] := by
    rw [List.take_add_one, he]
    rfl
  have hsplit : es = es.take n ++ ([e] ++ es.drop (n + 1)) := by
    rw [← List.append_assoc, ← htake, List.take_append_drop]
  have hbytes := stream_split he
  have hwal : s.store.inodes st.file = stream es := by
    rw [hfile]
    exact h.stored.wal
  have hrec : Wal.readRecordAt (stream es) st.offset = .ok e.record := by
    rw [hoffset]
    exact readRecordAt_stream h.stored.proper he
  have hraw : Wal.readAt (stream es) st.offset (encode e.record).length = some (encode e.record) :=
    readAt_append _ _ _ hbytes hoffset.symm rfl
  have hnext : st.offset + (encode e.record).length = (stream (es.take (n + 1))).length := by
    rw [htake, stream_concat, List.length_append, hoffset]
  -- the offset is one of those of the file
  have hmem : (boundaries s.store.wal).contains st.offset = true := by
    rw [List.contains_iff_mem, boundaries, h.stored.wal, scanned_stream h.stored.proper]
    refine List.mem_map.mpr ⟨(e.source, st.offset), ?_, rfl⟩
    rw [hsplit, hoffset, ← List.append_assoc, offsets, offsetsFrom_append]
    refine List.mem_append_left _ ?_
    have hconcat := offsets_concat (es.take n) e
    rw [offsets] at hconcat
    rw [hconcat]
    exact List.mem_append_right _ List.mem_cons_self
  simp only [readEntry, hwal, readRawEntry_of_ok hrec hraw, hnext, hmem, h.aligned, Bool.and_self]

theorem Inv.read (h : s.Inv es xs ys) (hs : s.step .read = some s') :
    ∃ ys', s'.Inv es xs ys' := by
  simp only [step] at hs
  split at hs
  · next st hses =>
    split at hs
    · next hphase =>
      obtain rfl := Option.some.inj hs
      have hpos := h.position
      rw [hses] at hpos
      cases hpos with
      | signalled _ hselect => rw [hphase] at hselect; cases hselect
      | reopened _ hreopened => rw [hphase] at hreopened; cases hreopened
      | reading _ X n hne hch hfirst hfile hoffset hn hhs hsub =>
        rcases he : es[n]? with - | e
        · have hlen : n = es.length := Nat.le_antisymm hn (List.getElem?_eq_none_iff.mp he)
          have hall : es.take n = es := by rw [hlen, List.take_length]
          rw [h.readEntry_end hfile (hall ▸ hoffset)]
          exact ⟨ys, h.move (.reading _ X n (fun hphase => nomatch hphase) hch hfirst hfile
            hoffset hn hhs hsub)⟩
        · have hlt : n < es.length := (List.getElem?_eq_some_iff.mp he).1
          have htake : es.take (n + 1) = es.take n ++ [e] := by
            rw [List.take_add_one, he]
            rfl
          have hhs' : xs ++ (ys ++ [e]) = X ++ es.take (n + 1) := by
            rw [← List.append_assoc, hhs, htake, List.append_assoc]
          rw [h.readEntry_event hfile he hoffset]
          refine ⟨ys ++ [e], h.stored, h.index, h.bounded, h.replica, ?_, ?_, h.opened, ?_, ?_,
            h.aligned⟩
          · rw [List.map_append, List.map_append, h.inflight]
            rfl
          · intro x hx
            rw [← List.append_assoc] at hx
            rcases List.mem_append.mp hx with hx | hx
            · exact h.proper x hx
            · rw [List.mem_singleton.mp hx]
              exact h.stored.proper e (List.mem_of_getElem? he)
          · intro hp
            rw [hhs', hfirst hp, List.nil_append]
            exact List.take_prefix _ _
          · exact .reading _ X (n + 1) (fun hphase => nomatch hphase) hch hfirst hfile rfl hlt
              hhs' hsub
    · cases hs
  · cases hs

theorem Inv.receive (h : s.Inv es xs ys) (hs : s.step .receive = some s') :
    ∃ xs' ys', s'.Inv es xs' ys' := by
  simp only [step] at hs
  split at hs
  · cases hs
  · next entry rest hin =>
    obtain rfl := Option.some.inj hs
    have hinflight := h.inflight
    rw [hin] at hinflight
    rcases ys with - | ⟨y, ys⟩
    · cases hinflight
    · obtain ⟨hraw, hrest⟩ := List.cons.inj hinflight
      have hassoc : xs ++ y :: ys = (xs ++ [y]) ++ ys := by
        rw [List.append_assoc]
        rfl
      refine ⟨xs ++ [y], ys, h.stored, h.index, h.bounded, ?_, hrest, hassoc ▸ h.proper, h.opened,
        fun hp => hassoc ▸ h.first hp, hassoc ▸ h.position, h.aligned⟩
      rw [hraw, h.replica, stream_concat]

theorem Inv.step {c : ReplicationStep} (h : ∃ es xs ys, s.Inv es xs ys) (hs : s.step c = some s')
    (hc : s.Steady c) : ∃ es xs ys, s'.Inv es xs ys := by
  obtain ⟨es, xs, ys, h⟩ := h
  cases c with
  | writeEvent now e =>
    obtain rfl := Option.some.inj hs
    exact ⟨_, xs, ys, h.writeEvent hc.1 hc.2 now⟩
  | compact times range range' =>
    obtain ⟨es', h'⟩ := h.compact hc hs
    exact ⟨es', xs, ys, h'⟩
  | connect =>
    obtain rfl := Option.some.inj hs
    exact ⟨es, xs, [], h.connect hc⟩
  | disconnect =>
    obtain rfl := Option.some.inj hs
    exact ⟨es, xs, [], h.disconnect⟩
  | poll => exact ⟨es, xs, ys, h.poll hs⟩
  | notify => exact ⟨es, xs, ys, h.notify hs⟩
  | read =>
    obtain ⟨ys', h'⟩ := h.read hs
    exact ⟨es, xs, ys', h'⟩
  | receive =>
    obtain ⟨xs', ys', h'⟩ := h.receive hs
    exact ⟨es, xs', ys', h'⟩

/-! ### What the invariant says -/

theorem Inv.scanned_wal (h : s.Inv es xs ys) : scanned s.store.wal = es := by
  rw [h.stored.wal, scanned_stream h.stored.proper]

theorem Inv.noneSkipped (h : s.Inv es xs ys) : s.NoneSkipped := by
  intro st hses hch key offset hlast hlt
  rw [h.scanned_wal] at hlast ⊢
  rw [h.handed_eq, scanned_stream h.proper]
  have hpos := h.position
  rw [hses] at hpos
  cases hpos with
  | signalled _ _ hlt' => omega
  | reopened _ _ hlt' => omega
  | reading _ X n _ _ _ _ hoffset _ hhs _ =>
    rw [hoffset] at hlt
    have htake := latest_take_of_lt hlast hlt
    rw [hhs, List.map_append, latest_append, htake]
    -- the live record is in the file
    have hsome : (latest (es.map Event.kv) key).isSome := by
      rw [← (offsets_lead h.stored.proper).isSome_iff, hlast]
      rfl
    obtain ⟨v, hv⟩ := Option.isSome_iff_exists.mp hsome
    rw [hv]
    rfl

theorem Inv.agrees (h : s.Inv es xs ys) (hcaught : s.CaughtUp) : s.Agrees := by
  obtain ⟨st, hses, hch, hphase, heof, hin⟩ := hcaught
  have hys : ys = [] := by
    have hmap := h.inflight
    rw [hin] at hmap
    exact List.map_eq_nil_iff.mp hmap.symm
  have hpos := h.position
  rw [hses] at hpos
  cases hpos with
  | signalled _ _ hlt => omega
  | reopened _ hreopened => exact absurd hreopened hphase
  | reading _ X n _ _ _ hfile hoffset hn hhs hsub =>
    have hwal : s.store.inodes st.file = stream es := by
      rw [hfile]
      exact h.stored.wal
    -- the stream is at the end of the file, since it finds no record
    have hall : es.take n = es := by
      rcases he : es[n]? with - | e
      · exact List.take_of_length_le (List.getElem?_eq_none_iff.mp he)
      · have hread := readRecordAt_stream h.stored.proper he
        rw [hwal, hoffset, hread] at heof
        cases heof
    rw [hys, List.append_nil, hall] at hhs
    have hproper : ∀ e ∈ xs, e.Proper := fun e he => h.proper e (List.mem_append_left _ he)
    show latest ((scanned s.replica).map Event.kv) = latest ((scanned s.store.wal).map Event.kv)
    rw [h.scanned_wal, h.replica, scanned_stream hproper, hhs, List.map_append]
    refine latest_append_of_subset fun k hk => ?_
    rw [List.map_map] at hk ⊢
    obtain ⟨e, he, rfl⟩ := List.mem_map.mp hk
    exact hsub e he

end Replication

/-- **Replication resumes without loss** in every run with steady steps: what is sent
starts at a record of the current file, no live record is skipped, and a replica that
has received everything has the last payload of each source. -/
theorem replication_resumes {maxKeys : Nat} {s : Replication}
    (h : Runs Replication.step Replication.Steady (Replication.initial maxKeys) s) :
    s.aligned = true ∧ s.NoneSkipped ∧ (s.CaughtUp → s.Agrees) := by
  have h0 : ∃ es xs ys, (Replication.initial maxKeys).Inv es xs ys :=
    ⟨[], [], [], EventStore.stored_newStore maxKeys, rfl, Nat.zero_le maxKeys, rfl, rfl,
      fun _ he => absurd he List.not_mem_nil, Nat.le_refl 0, fun _ => List.prefix_refl _, .closed,
        rfl⟩
  obtain ⟨es, xs, ys, hinv⟩ :=
    h.invariant (fun _ _ _ hinv hs hok => Replication.Inv.step hinv hs hok) h0
  exact ⟨hinv.aligned, hinv.noneSkipped, hinv.agrees⟩

end

section

local instance replicationCrc : Crc32 := Crc32.ieee

/-- A source is written twice and the file compacted; then the replica connects, and the
source is written once more. -/
def lateReplica : List ReplicationStep :=
  [.writeEvent 1 ⟨0, [97], [49]⟩, .writeEvent 2 ⟨0, [97], [50, 50]⟩,
    .compact (fun _ => 3) .forward .forward, .connect, .poll, .read, .poll, .read, .receive,
      .receive,
    .writeEvent 4 ⟨0, [97], [51]⟩]

/-- **The replica misses writes.**  The stream follows the file from before the
compaction: it sends a record from a place that is inside a record of the current file,
its position is past a record that it will never send, and when it has nothing more to
send, the replica's payload is not the last one. -/
theorem replica_misses_writes :
    ∃ s, Runs Replication.step (fun _ _ => True) (Replication.initial 10) s ∧
      s.aligned = false ∧ ¬s.NoneSkipped ∧ s.CaughtUp ∧ ¬s.Agrees := by
  obtain ⟨s, hs, haligned, hses, hch, heof, hin, hoff, hwal, hrep⟩ := exists_of_any
    (o := exec Replication.step (fun _ _ => True) (Replication.initial 10) lateReplica)
    (P := fun s => s.aligned = false ∧ s.session = some ⟨0, 53, 1, .select⟩ ∧ s.compactionCh = 1 ∧
      Wal.readRecordAt (s.store.inodes 0) 53 = .error .eof ∧ s.inflight = [] ∧
      latest (offsets (scanned s.store.wal)) [97] = some 27 ∧
      latest ((scanned s.store.wal).map Event.kv) [97] = some [51] ∧
      latest ((scanned s.replica).map Event.kv) [97] = some [50, 50])
    (by decide +kernel)
  have hhanded : s.handed = s.replica := by
    rw [Replication.handed, hin, List.flatMap_nil, List.append_nil]
  refine ⟨s, Runs.of_exec hs, haligned, fun hskip => ?_, ?_, fun hagrees => ?_⟩
  · have h := hskip _ hses hch.symm [97] 27 hoff (by decide)
    rw [hhanded, hrep, hwal] at h
    exact absurd h (by decide)
  · exact ⟨_, hses, hch.symm, fun hphase => (nomatch hphase), heof, hin⟩
  · have h := congrFun hagrees [97]
    rw [hrep, hwal] at h
    exact absurd h (by decide)

/-- The replica loses the connection and what was on the way, connects again, and the
stream survives a compaction. -/
def steadyReplica : List ReplicationStep :=
  [.writeEvent 1 ⟨0, [97], [49]⟩, .connect, .poll, .read, .disconnect, .connect, .poll, .read,
    .receive,
    .writeEvent 2 ⟨0, [97], [50, 50]⟩, .compact (fun _ => 3) .forward .forward, .poll, .notify,
      .poll,
    .read, .receive, .writeEvent 4 ⟨0, [98], [51]⟩, .poll, .read, .receive]

theorem replication_resumes_steady :
    ∃ s, Runs Replication.step Replication.Steady (Replication.initial 10) s ∧
      (s.session = some ⟨1, 53, 1, .select⟩ ∧ s.compactionCh = 1 ∧
        Wal.readRecordAt (s.store.inodes 1) 53 = .error .eof ∧ s.inflight = []) ∧
      s.CaughtUp ∧ s.aligned = true ∧ s.NoneSkipped ∧ s.Agrees := by
  refine Runs.exists_and_of_exec steadyReplica (by decide +kernel) ?_
  rintro s hrun ⟨hses, hch, heof, hin⟩
  have hcaught : s.CaughtUp :=
    ⟨_, hses, hch.symm, fun hphase => (nomatch hphase), heof, hin⟩
  have h := replication_resumes hrun
  exact ⟨hcaught, h.1, h.2.1, h.2.2 hcaught⟩

end

end Kv
