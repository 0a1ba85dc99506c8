import Mathlib.Logic.Relation
import Mathlib.Tactic.Lemma
import Changefeed.Proofs.Assigner
import Changefeed.Proofs.Fetch.Snapshot

/-!
# The snapshot phase of a hand-off

Splits of one table are handed out one after the other, any of them that has been handed out may be
the next one to be read and reported, and what they deliver is delivered in that order.  Each split
meets a server of its own, for the database goes on while it is read, and the layouts that it finds
are shared with the others.

Whatever the order, what has been delivered so far is what the finished splits have captured, split
by split; a split that has been handed out can always be read to its end; and so the incremental
split is handed out in the end.
-/

namespace Changefeed

/-- A hand-off on its way: what has been handed out, the layouts found and the events delivered. -/
structure Handoff where
  assigner : SplitAssigner
  history : SchemaHistory := .empty
  events : List ChangeEvent := []

/-- The one split that a key belongs to. -/
structure Owner (splits : List SnapshotSplit) (k : Int) (s : SnapshotSplit) : Prop where
  mem : s ∈ splits
  contains : s.keyRange.contains (.number (.int k)) = true
  unique : ∀ s' ∈ splits, s'.keyRange.contains (.number (.int k)) = true → s' = s

/-- Splits of a table whose ranges partition its keys, each with what it meets. -/
structure Source.Chunked (src : Source) (splits : List SnapshotSplit)
    (meets : SnapshotSplit → Shared) : Prop where
  ids : (splits.map SnapshotSplit.splitId).Nodup
  tables : ∀ s ∈ splits, s.tableId = src.tableId
  columns : ∀ s ∈ splits, s.keyColumn = src.keyColumn
  partition : ∀ k, src.keys k → ∃ s, Owner splits k s
  meets : ∀ s ∈ splits, src.Meets s (meets s).server

namespace Handoff

variable {src : Source} {config : FetchConfig} {splits : List SnapshotSplit}
  {meets : SnapshotSplit → Shared} {h h' : Handoff} {s : SnapshotSplit}
  {done : List (SnapshotSplit × List ChangeEvent)}

/-- The start of a hand-off: all splits wait. -/
def start (splits : List SnapshotSplit) : Handoff := { assigner := .ofSplits splits }

/-- Reading a split that has been handed out. -/
def read (config : FetchConfig) (meets : SnapshotSplit → Shared) (h : Handoff) (s : SnapshotSplit) :
    Outcome (List ChangeEvent × Session.Stop × Option SplitCompletion) × Task × Shared :=
  Pipeline.readSplit config (.snapshot s) { meets s with history := h.history }

/-- A step of a hand-off. -/
inductive Step (config : FetchConfig) (meets : SnapshotSplit → Shared) :
    Handoff → Handoff → Prop where
  /-- A split is handed out. -/
  | assign {h : Handoff} {split : Split} {a : SplitAssigner}
      (hnext : h.assigner.next h.history = (some split, a)) :
      Step config meets h { h with assigner := a }
  /-- A split that was handed out is read and reported, and its events are delivered. -/
  | complete {h : Handoff} {s : SnapshotSplit} {es : List ChangeEvent} {stop : Session.Stop}
      {c : SplitCompletion} {task : Task} {sh : Shared} {a : SplitAssigner}
      (hflight : h.assigner.inFlight.find? s.splitId = some s)
      (hread : h.read config meets s = (.ok (es, stop, some c), task, sh))
      (hreport : h.assigner.complete c = .ok a) :
      Step config meets h ⟨a, sh.history, h.events ++ es⟩

/-- Any number of steps. -/
abbrev Run (config : FetchConfig) (meets : SnapshotSplit → Shared) : Handoff → Handoff → Prop :=
  Relation.ReflTransGen (Step config meets)

/-- The watermark that a split finishes at. -/
def mark (config : FetchConfig) (meets : SnapshotSplit → Shared) (s : SnapshotSplit) : Offset :=
  if config.exactlyOnce then (meets s).server.nextAnswer else (meets s).server.answer

/-- What has come of a hand-off so far: some splits are finished, each with the events that it has
delivered. -/
structure Progress (src : Source) (config : FetchConfig) (splits : List SnapshotSplit)
    (meets : SnapshotSplit → Shared) (h : Handoff)
    (done : List (SnapshotSplit × List ChangeEvent)) : Prop where
  accounts : h.assigner.Accounts splits (done.map Prod.fst)
  finished : h.assigner.finished = done.map fun d => .ofSplit d.1 (mark config meets d.1)
  tables : h.assigner.tables = SortedMap.keySet (splits.map SnapshotSplit.tableId)
  events : h.events = (done.map Prod.snd).flatten
  captures : ∀ d ∈ done,
    src.Captures d.1 (mark config meets d.1) (meets d.1).server.nextAnswer d.2
  layouts : h.history.records src.tableId = [] ∧ done = [] ∨
    h.history.records src.tableId = [src.layout]
  knows : src.Knows h.history

lemma progress_start (src : Source) (config : FetchConfig) (splits : List SnapshotSplit)
    (meets : SnapshotSplit → Shared) : Progress src config splits meets (start splits) [] where
  accounts := SplitAssigner.accounts_ofSplits splits
  finished := rfl
  tables := rfl
  events := rfl
  captures := by simp
  layouts := .inl ⟨rfl, rfl⟩
  knows := src.knows_empty

lemma Progress.mem_splits (hprogress : Progress src config splits meets h done)
    (hflight : h.assigner.inFlight.find? s.splitId = some s) : s ∈ splits := by
  have hmem : (s.splitId, s) ∈ h.assigner.inFlight :=
    (SortedMap.perm_erase hflight).mem_iff.mpr (.head _)
  have hvalue : s ∈ h.assigner.inFlight.values := List.mem_map_of_mem hmem
  refine hprogress.accounts.places.mem_iff.mp ?_
  simp [hvalue]

/-- A split that is being read can be read to its end. -/
lemma Progress.read_ok (hprogress : Progress src config splits meets h done) (hsrc : src.Regular)
    (hconfig : config.fault? = none) (hchunked : src.Chunked splits meets)
    (hflight : h.assigner.inFlight.find? s.splitId = some s) :
    ∃ es task sh, h.read config meets s =
        (.ok (es, .ended, some ⟨s.splitId, some (mark config meets s)⟩), task, sh) ∧
      sh.history.records src.tableId = [src.layout] ∧ src.Knows sh.history ∧
      src.Captures s (mark config meets s) (meets s).server.nextAnswer es := by
  have hs := hprogress.mem_splits hflight
  have hlayouts : h.history.records src.tableId = [] ∨
      h.history.records src.tableId = [src.layout] := hprogress.layouts.imp_left And.left
  have hmeets : src.Meets s ({ meets s with history := h.history } : Shared).server :=
    hchunked.meets s hs
  obtain ⟨es, task, sh, hread, hhistory, -, hcaptures⟩ :=
    Source.readSplit_captures hsrc hconfig (hchunked.tables s hs) (hchunked.columns s hs) hmeets
      hlayouts
  refine ⟨es, task, sh, hread, ?_, ?_, hcaptures⟩
  · rw [hhistory]
    exact SchemaHistory.records_append_only hlayouts
  · rw [hhistory]
    exact hprogress.knows.append rfl rfl

/-- Handing out a split finishes none. -/
lemma Progress.assigned (hprogress : Progress src config splits meets h done)
    (hids : (splits.map SnapshotSplit.splitId).Nodup) {split : Split} {a : SplitAssigner}
    (hnext : h.assigner.next h.history = (some split, a)) :
    Progress src config splits meets { h with assigner := a } done := by
  have haccounts := hprogress.accounts.next hids hnext
  rcases SplitAssigner.next_cases hnext with ⟨s, rest, -, -, rfl⟩ | ⟨-, -, -, rfl⟩
  · exact ⟨haccounts, hprogress.finished, hprogress.tables, hprogress.events, hprogress.captures,
      hprogress.layouts, hprogress.knows⟩
  · exact ⟨haccounts, hprogress.finished, hprogress.tables, hprogress.events, hprogress.captures,
      hprogress.layouts, hprogress.knows⟩

/-- A split that was being read is finished with what it has captured. -/
lemma Progress.completed (hprogress : Progress src config splits meets h done)
    (hflight : h.assigner.inFlight.find? s.splitId = some s) {history : SchemaHistory}
    (hlayout : history.records src.tableId = [src.layout]) (hknows : src.Knows history)
    {es : List ChangeEvent}
    (hcaptures : src.Captures s (mark config meets s) (meets s).server.nextAnswer es) :
    Progress src config splits meets
      ⟨{ h.assigner with
          inFlight := h.assigner.inFlight.erase s.splitId
          finished := h.assigner.finished ++ [.ofSplit s (mark config meets s)] },
        history, h.events ++ es⟩ (done ++ [(s, es)]) where
  accounts := by
    rw [List.map_append]
    exact hprogress.accounts.complete hflight _
  finished := by
    rw [List.map_append, ← hprogress.finished]
    rfl
  tables := hprogress.tables
  events := by
    rw [List.map_append, List.flatten_append, ← hprogress.events]
    simp
  captures d hd := by
    rcases List.mem_append.mp hd with hd | hd
    · exact hprogress.captures d hd
    · rw [List.mem_singleton.mp hd]
      exact hcaptures
  layouts := .inr hlayout
  knows := hknows

/-- Every step makes progress. -/
lemma Progress.step (hprogress : Progress src config splits meets h done) (hsrc : src.Regular)
    (hconfig : config.fault? = none) (hchunked : src.Chunked splits meets)
    (hstep : Step config meets h h') : ∃ done', Progress src config splits meets h' done' := by
  cases hstep with
  | assign hnext => exact ⟨done, hprogress.assigned hchunked.ids hnext⟩
  | @complete s es stop c task sh a hflight hread hreport =>
    obtain ⟨es', task', sh', hread', hlayout, hknows, hcaptures⟩ :=
      hprogress.read_ok hsrc hconfig hchunked hflight
    obtain ⟨hresult, hstate⟩ := Prod.mk.inj (hread'.symm.trans hread)
    obtain ⟨rfl, hrest⟩ := Prod.mk.inj (Except.ok.inj hresult)
    obtain rfl := Option.some.inj (Prod.mk.inj hrest).2
    obtain ⟨-, rfl⟩ := Prod.mk.inj hstate
    rw [SplitAssigner.complete_ok hflight] at hreport
    obtain rfl := Except.ok.inj hreport
    exact ⟨_, hprogress.completed hflight hlayout hknows hcaptures⟩

lemma progress_run (hsrc : src.Regular) (hconfig : config.fault? = none)
    (hchunked : src.Chunked splits meets) (hrun : Run config meets (start splits) h) :
    ∃ done, Progress src config splits meets h done := by
  induction hrun with
  | refl => exact ⟨[], progress_start src config splits meets⟩
  | tail _ hstep ih =>
    obtain ⟨done, hprogress⟩ := ih
    exact hprogress.step hsrc hconfig hchunked hstep

/-! ## To the incremental split -/

/-- The incremental split is the next one to be handed out. -/
def Ready (h : Handoff) : Prop :=
  h.assigner.pending = [] ∧ h.assigner.inFlight = [] ∧ h.assigner.incrementalAssigned = false

lemma Ready.next (hready : h.Ready) :
    h.assigner.next h.history = (some (.incremental (h.assigner.incremental h.history)),
      { h.assigner with incrementalAssigned := true }) := by
  obtain ⟨hpending, hflight, hassigned⟩ := hready
  simp [SplitAssigner.next, SplitAssigner.snapshotsDone, hpending, hflight, hassigned]

/-- From every state a run can go on until the incremental split is the next one, as long as it has
not been handed out. -/
lemma Progress.run_ready (hprogress : Progress src config splits meets h done)
    (hsrc : src.Regular) (hconfig : config.fault? = none) (hchunked : src.Chunked splits meets)
    (hassigned : h.assigner.incrementalAssigned = false) :
    ∃ h', Run config meets h h' ∧ h'.Ready := by
  -- A split that is being read counts for less than one that waits, and a finished one for nothing.
  generalize hn : 2 * h.assigner.pending.length + h.assigner.inFlight.length = n
  induction n using Nat.strong_induction_on generalizing h done with
  | _ n ih =>
    cases hpending : h.assigner.pending with
    | cons s rest =>
      have hnext : h.assigner.next h.history = (some (.snapshot s), { h.assigner with
          pending := rest, inFlight := h.assigner.inFlight.insert s.splitId s }) := by
        rw [SplitAssigner.next, hpending]
      have hstep : Step config meets h _ := .assign hnext
      obtain ⟨done', hprogress'⟩ := hprogress.step hsrc hconfig hchunked hstep
      have hnew := hprogress.accounts.not_in_flight hchunked.ids (s := s) (hpending ▸ .head _)
      have hlength := (SortedMap.perm_insert hnew s).length_eq
      have hless : 2 * rest.length + (h.assigner.inFlight.insert s.splitId s).length < n := by
        rw [hpending] at hn
        simp only [List.length_cons] at hn hlength
        omega
      obtain ⟨h', hrun, hready⟩ := ih _ hless hprogress' hassigned rfl
      exact ⟨h', .head hstep hrun, hready⟩
    | nil =>
      cases hflight : h.assigner.inFlight with
      | nil => exact ⟨h, .refl, hpending, hflight, hassigned⟩
      | cons e rest =>
        obtain ⟨id, s⟩ := e
        obtain rfl : id = s.splitId := hprogress.accounts.named (id, s) (hflight ▸ .head _)
        have hfind : h.assigner.inFlight.find? s.splitId = some s := by
          rw [hflight, SortedMap.find?, Std.ReflOrd.compare_self]
        obtain ⟨es, task, sh, hread, -⟩ := hprogress.read_ok hsrc hconfig hchunked hfind
        have hstep := Step.complete hfind hread (SplitAssigner.complete_ok hfind _)
        obtain ⟨done', hprogress'⟩ := hprogress.step hsrc hconfig hchunked hstep
        have hlength := (SortedMap.perm_erase hfind).length_eq
        have hless : 2 * h.assigner.pending.length +
            (h.assigner.inFlight.erase s.splitId).length < n := by
          simp only [List.length_cons] at hlength
          omega
        obtain ⟨h', hrun, hready⟩ := ih _ hless hprogress' hassigned rfl
        exact ⟨h', .head hstep hrun, hready⟩

end Handoff
end Changefeed
