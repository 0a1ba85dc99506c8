import Changefeed.Fetch.Task
import Changefeed.Proofs.Fetch.Due
import Changefeed.Proofs.Fetch.Shared
import Changefeed.Proofs.Schema.Blob
import Changefeed.Proofs.Schema.History

/-!
# Configuring an incremental split

The layout of a table comes with the split, or from the place where layouts are kept, or from the
server, and a layout from the server is kept for the next time.  A split that is configured again,
from another position, therefore finds the layouts that it found the first time, with the same
columns if not at the same position.

When a split is configured, its history answers with those layouts and nothing else, and its stream
is one of the records of the log after the start.
-/

namespace Changefeed

/-- What a serialised layout says, when it is one of the table. -/
def Blob.layoutOf (t : TableId) (blob : Blob) : Option SchemaRecord :=
  match SchemaRecord.ofBlob blob with
  | .ok r => if r.tableId = t then some r else none
  | .error _ => none

namespace IncrementalSplit

/-- The layout that a split finds for a table. -/
def layoutOf (s : IncrementalSplit) (sh : Shared) (t : TableId) : Option SchemaRecord :=
  match s.historyRefs.find? t with
  | some blob => blob.layoutOf t
  | none =>
    match sh.backend.bind fun b => SortedMap.find? b t with
    | some blob => blob.layoutOf t
    | none => sh.server.schemas.find? t

/-- What the stream of the split is to do. -/
def job (s : IncrementalSplit) : StreamJob := ⟨⟨s.tableIds⟩, s.endingOffset, s.finishedSplits⟩

end IncrementalSplit

/-- Every layout that is stored is one of the table it is stored under. -/
def Server.Named (s : Server) : Prop := ∀ t r, s.schemas.find? t = some r → r.tableId = t

lemma Blob.layoutOf_tableId {t : TableId} {blob : Blob} {r : SchemaRecord}
    (h : blob.layoutOf t = some r) : r.tableId = t := by
  unfold layoutOf at h
  split at h
  · split at h
    · next ht => rwa [← Option.some.inj h]
    · simp at h
  · simp at h

lemma layoutOf_tableId {s : IncrementalSplit} {sh : Shared} {t : TableId} {r : SchemaRecord}
    (hnamed : sh.server.Named) (h : s.layoutOf sh t = some r) : r.tableId = t := by
  unfold IncrementalSplit.layoutOf at h
  split at h
  · exact Blob.layoutOf_tableId h
  · split at h
    · exact Blob.layoutOf_tableId h
    · exact hnamed t r h

namespace Plan

/-- After it, a split finds no other layouts than before, and the server holds what it held. -/
structure Steady (s : IncrementalSplit) (sh sh' : Shared) : Prop where
  server : sh.server.SameData sh'.server
  layouts : ∀ t r', s.layoutOf sh' t = some r' →
    ∃ r, s.layoutOf sh t = some r ∧ r.columns = r'.columns

lemma steady_chain (s : IncrementalSplit) : Act.Chain (Steady s) where
  refl sh := ⟨.refl _, fun t r hr => ⟨r, hr, rfl⟩⟩
  trans h h' :=
    { server := h.server.trans h'.server
      layouts := fun t r'' hr'' => by
        obtain ⟨r', hr', hcolumns'⟩ := h'.layouts t r'' hr''
        obtain ⟨r, hr, hcolumns⟩ := h.layouts t r' hr'
        exact ⟨r, hr, hcolumns.trans hcolumns'⟩ }

lemma keeps_ask {α : Type} (s : IncrementalSplit) {act : ServerAct α} (h : Server.Keeps act) :
    Act.Keeps (Steady s) (Act.ask act) := fun sh =>
  { server := h sh.server
    layouts := fun t r hr => by
      refine ⟨r, ?_, rfl⟩
      have hschemas := (h sh.server).schemas
      simpa only [IncrementalSplit.layoutOf, Act.ask, hschemas] using hr }

lemma keeps_commit (s : IncrementalSplit) (b : SchemaBatch) :
    Act.Keeps (Steady s) (Act.commit b) := fun _ =>
  ⟨.refl _, fun _ r hr => ⟨r, hr, rfl⟩⟩

lemma Steady.congr {s : IncrementalSplit} {sh sh' sh'' : Shared} (h : Steady s sh sh')
    (hserver : sh''.server = sh'.server) (hbackend : sh''.backend = sh'.backend) :
    Steady s sh sh'' where
  server := hserver ▸ h.server
  layouts t r hr := h.layouts t r (by
    simpa only [IncrementalSplit.layoutOf, hserver, hbackend] using hr)

lemma Steady.of_startingAt {s : IncrementalSplit} {o : Offset} {sh sh' : Shared}
    (h : Steady (s.startingAt o) sh sh') : Steady s sh sh' :=
  ⟨h.server, h.layouts⟩

lemma Steady.reads {s : IncrementalSplit} {sh sh' : Shared} {h : SchemaHistory}
    (hsteady : Steady s sh sh') (hnamed : sh.server.Named)
    (hreads : StreamJob.Reads h (s.layoutOf sh')) : StreamJob.Reads h (s.layoutOf sh) := by
  intro t position schema hschema
  have hnamed' : sh'.server.Named := fun t r hr => hnamed t r (hsteady.server.schemas ▸ hr)
  obtain ⟨r', hr', htable, hcolumns⟩ := hreads t position schema hschema
  obtain ⟨r, hr, hcolumns'⟩ := hsteady.layouts t r' hr'
  have htables : r.tableId = r'.tableId :=
    (layoutOf_tableId hnamed hr).trans (layoutOf_tableId hnamed' hr').symm
  exact ⟨r, hr, htables.trans htable, hcolumns'.trans hcolumns⟩

/-! ## Finding layouts -/

/-- A batch with the layout of a table more. -/
structure Bound (s : IncrementalSplit) (sh : Shared) (t : TableId) (b b' : SchemaBatch)
    (r : SchemaRecord) : Prop where
  pending : b'.pending = b.pending ++ [r]
  table : r.tableId = t
  layout : ∃ found, s.layoutOf sh t = some found ∧ found.columns = r.columns

lemma layoutOf_of_registerBlob {b b' : SchemaBatch} {t : TableId} {blob : Blob}
    (h : b.registerBlob t blob = .ok b') :
    ∃ r, blob.layoutOf t = some r ∧ r.tableId = t ∧ b'.pending = b.pending ++ [r] := by
  obtain ⟨r, hblob, htable, hpending⟩ := SchemaBatch.registerBlob_ok h
  exact ⟨r, by simp [Blob.layoutOf, hblob, htable], htable, hpending⟩

lemma find?_of_querySchema {t : TableId} {server : Server} {schema : SchemaRecord}
    (h : (Server.querySchema t server).1 = .ok schema) :
    server.schemas.find? t = some schema := by
  unfold Server.querySchema Server.call at h
  split at h
  · cases h
  · dsimp only at h
    split at h
    · next found hfound => rw [hfound, Except.ok.inj h]
    · cases h

/-- The layout that the server answers with has the columns of the one it stores. -/
lemma liveLayout_ok {t : TableId} {start : Offset} {sh sh' : Shared} {schema : SchemaRecord}
    (h : liveLayout t start sh = (.ok schema, sh')) :
    sh' = { sh with server := (Server.querySchema t sh.server).2 } ∧
      ∃ found, sh.server.schemas.find? t = some found ∧ schema.tableId = found.tableId ∧
        schema.columns = found.columns := by
  obtain ⟨found, sh₁, hquery, hpure⟩ := Act.bind_eq_ok h
  have hfound := find?_of_querySchema (congrArg Prod.fst hquery)
  have hshared : sh₁ = { sh with server := (Server.querySchema t sh.server).2 } :=
    (congrArg Prod.snd hquery).symm
  refine ⟨(congrArg Prod.snd hpure).symm.trans hshared, found, hfound, ?_⟩
  have hschema := Except.ok.inj (congrArg Prod.fst hpure)
  rw [← hschema]
  split <;> exact ⟨rfl, rfl⟩

lemma keeps_liveLayout (s : IncrementalSplit) (t : TableId) (start : Offset) :
    Act.Keeps (Steady s) (liveLayout t start) :=
  Act.keeps_bind (steady_chain s) (keeps_ask s (Server.counts_querySchema t).keeps) fun _ =>
    Act.keeps_pure (steady_chain s) _

/-- Keeping the layout that was found is steady. -/
lemma keepLayout_steady {s : IncrementalSplit} {sh : Shared} {t : TableId}
    {schema found : SchemaRecord} (href : s.historyRefs.find? t = none)
    (hfound : s.layoutOf sh t = some found) (hcolumns : schema.columns = found.columns) :
    Steady s sh (keepLayout t schema sh).2 := by
  refine ⟨.refl _, fun t' r' hr' => ?_⟩
  simp only [IncrementalSplit.layoutOf, keepLayout] at hr'
  cases hbackend : sh.backend with
  | none =>
    refine ⟨r', ?_, rfl⟩
    simpa only [IncrementalSplit.layoutOf, hbackend, Option.map_none] using hr'
  | some backend =>
    simp only [hbackend, Option.map_some, Option.bind_some] at hr'
    by_cases ht : t' = t
    · subst ht
      simp only [href, SortedMap.find?_insert_self, Blob.layoutOf] at hr'
      split at hr'
      · next r hblob =>
        split at hr'
        · obtain rfl := Option.some.inj hr'
          exact ⟨found, hfound, hcolumns.symm.trans (SchemaRecord.columns_of_ofBlob hblob).symm⟩
        · simp at hr'
      · simp at hr'
    · rw [SortedMap.find?_insert_of_ne _ _ ht] at hr'
      refine ⟨r', ?_, rfl⟩
      simpa only [IncrementalSplit.layoutOf, hbackend, Option.bind_some] using hr'

/-- Adds the layout that the server has for a table to a batch. -/
def bindLive (s : IncrementalSplit) (batch : SchemaBatch) (t : TableId) : Act SchemaBatch := do
  let schema ← liveLayout t s.startingOffset
  keepLayout t schema
  Act.ofOutcome (batch.register schema)

/-- The layout that is found for a table comes serialised, or else from the server. -/
lemma bindTable_found (s : IncrementalSplit) (b : SchemaBatch) (t : TableId) (sh : Shared) :
    (∃ blob, s.layoutOf sh t = blob.layoutOf t ∧
        bindTable s b t sh = Act.ofOutcome (b.registerBlob t blob) sh) ∨
      s.historyRefs.find? t = none ∧ s.layoutOf sh t = sh.server.schemas.find? t ∧
        bindTable s b t sh = bindLive s b t sh := by
  unfold bindTable
  cases href : s.historyRefs.find? t with
  | some blob => exact .inl ⟨blob, by simp [IncrementalSplit.layoutOf, href], rfl⟩
  | none =>
    have hrun : keptLayout t sh = (.ok (sh.backend.bind fun b => SortedMap.find? b t), sh) := rfl
    dsimp only
    rw [Act.bind_of_ok hrun]
    cases hkept : sh.backend.bind fun b => SortedMap.find? b t with
    | some blob => exact .inl ⟨blob, by simp [IncrementalSplit.layoutOf, href, hkept], rfl⟩
    | none => exact .inr ⟨rfl, by simp [IncrementalSplit.layoutOf, href, hkept], rfl⟩

/-- What a split finds for one table. -/
lemma bindTable_bound {s : IncrementalSplit} {sh : Shared}
    (hnamed : sh.server.Named) (b : SchemaBatch) (t : TableId) :
    Steady s sh (bindTable s b t sh).2 ∧
      ∀ b', (bindTable s b t sh).1 = .ok b' → ∃ r, Bound s sh t b b' r := by
  rcases bindTable_found s b t sh with ⟨blob, hlayout, hbind⟩ | ⟨href, hlayout, hbind⟩
  · rw [hbind]
    refine ⟨(steady_chain s).refl sh, fun b' hb' => ?_⟩
    obtain ⟨r, hfound, htable, hpending⟩ := layoutOf_of_registerBlob hb'
    exact ⟨r, hpending, htable, r, hlayout.trans hfound, rfl⟩
  · rw [hbind, bindLive]
    have hsteady := keeps_liveLayout s t s.startingOffset sh
    cases hlive : liveLayout t s.startingOffset sh with
    | mk result sh₁ =>
      rw [hlive] at hsteady
      cases result with
      | error f =>
        rw [Act.bind_of_error hlive]
        exact ⟨hsteady, by simp⟩
      | ok schema =>
        obtain ⟨hshared, found, hfound, htable, hcolumns⟩ := liveLayout_ok hlive
        have hlayout₁ : s.layoutOf sh₁ t = some found := by
          have hschemas := ((Server.counts_querySchema t).keeps sh.server).schemas
          rw [← hfound, ← hlayout, hshared]
          simp only [IncrementalSplit.layoutOf, hschemas]
        have hkeep := keepLayout_steady href hlayout₁ hcolumns
        rw [Act.bind_of_ok hlive]
        refine ⟨(steady_chain s).trans hsteady hkeep, fun b' hb' => ?_⟩
        exact ⟨schema, SchemaBatch.register_ok hb', htable.trans (hnamed t found hfound), found,
          hlayout.trans hfound, hcolumns.symm⟩

/-- What a split finds for its tables: for each record that the batch takes, the layout that was
found for its table. -/
lemma bindTables_bound {s : IncrementalSplit} (tables : List TableId)
    {sh : Shared} (hnamed : sh.server.Named) (b : SchemaBatch) :
    Steady s sh (bindTables s b tables sh).2 ∧
      ∀ b', (bindTables s b tables sh).1 = .ok b' → ∀ r ∈ b'.pending,
        r ∈ b.pending ∨
          ∃ found, s.layoutOf sh r.tableId = some found ∧ found.columns = r.columns := by
  induction tables generalizing sh b with
  | nil =>
    refine ⟨(steady_chain s).refl sh, fun b' hb' r hr => .inl ?_⟩
    rwa [← Except.ok.inj hb'] at hr
  | cons t tables ih =>
    obtain ⟨hsteady, hbound⟩ := bindTable_bound (s := s) hnamed b t
    rw [bindTables]
    cases hbind : bindTable s b t sh with
    | mk result sh₁ =>
      rw [hbind] at hsteady hbound
      cases result with
      | error f =>
        rw [Act.bind_of_error hbind]
        exact ⟨hsteady, by simp⟩
      | ok b₁ =>
        obtain ⟨r₁, hpending, rfl, found₁, hfound₁, hcolumns₁⟩ := hbound b₁ rfl
        have hnamed₁ : sh₁.server.Named := fun t r hr => hnamed t r (hsteady.server.schemas ▸ hr)
        obtain ⟨hsteady', hrest⟩ := ih hnamed₁ b₁
        rw [Act.bind_of_ok hbind]
        refine ⟨(steady_chain s).trans hsteady hsteady', fun b' hb' r hr => ?_⟩
        rcases hrest b' hb' r hr with hr | ⟨found, hfound, hcolumns⟩
        · rw [hpending, List.mem_append, List.mem_singleton] at hr
          rcases hr with hr | rfl
          · exact .inl hr
          · exact .inr ⟨found₁, hfound₁, hcolumns₁⟩
        · obtain ⟨found', hfound', hcolumns'⟩ := hsteady.layouts _ _ hfound
          exact .inr ⟨found', hfound', hcolumns'.trans hcolumns⟩

/-- A history that was empty answers with the layouts of the batch that was added. -/
lemma reads_commit {s : IncrementalSplit} {sh : Shared} {b : SchemaBatch}
    (hbatch : ∀ r ∈ b.pending, ∃ found, s.layoutOf sh r.tableId = some found ∧
      found.columns = r.columns) (hnamed : sh.server.Named) :
    StreamJob.Reads (b.commit .empty) (s.layoutOf sh) := by
  intro t position schema hschema
  have hmem := (SchemaHistory.schemaAt?_some hschema).1
  rcases SchemaHistory.mem_records_appendAll hmem with hnone | ⟨hpending, ht⟩
  · simp at hnone
  · subst ht
    obtain ⟨found, hfound, hcolumns⟩ := hbatch schema hpending
    exact ⟨found, hfound, layoutOf_tableId hnamed hfound, hcolumns⟩

/-! ## The plan -/

/-- Finding layouts leaves the history alone. -/
lemma history_bindTables (s : IncrementalSplit) (tables : List TableId) (b : SchemaBatch) :
    Act.Keeps (fun sh sh' => sh'.history = sh.history) (bindTables s b tables) := by
  have hchain : Act.Chain fun sh sh' => sh'.history = sh.history :=
    ⟨fun _ => rfl, fun h h' => h'.trans h⟩
  induction tables generalizing b with
  | nil => exact fun _ => rfl
  | cons t tables ih =>
    refine Act.keeps_bind hchain ?_ ih
    unfold bindTable
    cases s.historyRefs.find? t with
    | some blob => exact fun _ => rfl
    | none =>
      refine Act.keeps_bind hchain (fun _ => rfl) fun kept => ?_
      cases kept with
      | some blob => exact fun _ => rfl
      | none =>
        refine Act.keeps_bind hchain ?_ fun schema => ?_
        · exact Act.keeps_bind hchain (fun _ => rfl) fun _ _ => rfl
        exact Act.keeps_bind hchain (fun _ => rfl) fun _ _ => rfl

lemma openStream_ok {o : Offset} {server : Server} {log : LogStream}
    (h : (Server.openStream o server).1 = .ok log) : log.records = recordsAfter server.log o := by
  unfold Server.openStream Server.call at h
  split at h
  · cases h
  · rw [← Except.ok.inj h]
    rfl

/-- What comes of configuring a split. -/
structure Configured (s : IncrementalSplit) (sh : Shared) (plan : Plan) (sh' : Shared) : Prop where
  mode : plan.mode = .passThrough
  start : plan.start = s.startingOffset
  producer : ∃ log : LogStream, plan.producer = .stream s.job log ∧
    log.records = recordsAfter sh.server.log s.startingOffset
  reads : sh.history = .empty → StreamJob.Reads sh'.history (s.layoutOf sh)

/-- What is left to be done once the layouts have been found. -/
def openLog (s : IncrementalSplit) (batch : SchemaBatch) : Act Plan := do
  Act.commit batch
  Act.ask (Server.ensureResumable s.startingOffset)
  Act.ofOutcome (match encodingFault s with
    | some f => .error f
    | none => .ok ())
  Act.ask Server.resetListeners
  let log ← Act.ask (Server.openStream s.startingOffset)
  return { producer := .stream s.job log, mode := .passThrough, start := s.startingOffset }

lemma incremental_eq (s : IncrementalSplit) :
    incremental s = bindTables s {} s.tableIds >>= openLog s :=
  rfl

lemma keeps_openLog (s : IncrementalSplit) (batch : SchemaBatch) :
    Act.Keeps (Steady s) (openLog s batch) := by
  have hchain := steady_chain s
  refine Act.keeps_bind hchain (keeps_commit s batch) fun _ => ?_
  refine Act.keeps_bind hchain (keeps_ask s (Server.counts_ensureResumable _).keeps) fun _ => ?_
  refine Act.keeps_bind hchain (Act.keeps_ofOutcome hchain _) fun _ => ?_
  refine Act.keeps_bind hchain (keeps_ask s Server.counts_resetListeners.keeps) fun _ => ?_
  refine Act.keeps_bind hchain (keeps_ask s (Server.keeps_openStream _)) fun _ => ?_
  exact Act.keeps_pure hchain _

/-- A stream is opened on the log, and the history has the layouts of the batch more. -/
lemma openLog_ok {s : IncrementalSplit} {batch : SchemaBatch} {sh sh' : Shared} {plan : Plan}
    (h : openLog s batch sh = (.ok plan, sh')) :
    sh'.history = batch.commit sh.history ∧ ∃ log : LogStream,
      plan = { producer := .stream s.job log, mode := .passThrough, start := s.startingOffset } ∧
        log.records = recordsAfter sh.server.log s.startingOffset := by
  obtain ⟨_, sh₁, hcommit, h⟩ := Act.bind_eq_ok h
  obtain rfl := Act.commit_eq_ok hcommit
  obtain ⟨_, sh₂, hresumable, h⟩ := Act.bind_eq_ok h
  obtain ⟨-, rfl⟩ := Act.ask_eq_ok hresumable
  obtain ⟨_, sh₃, hencoding, h⟩ := Act.bind_eq_ok h
  obtain ⟨-, rfl⟩ := Act.ofOutcome_eq_ok hencoding
  obtain ⟨_, sh₄, hreset, h⟩ := Act.bind_eq_ok h
  obtain ⟨-, rfl⟩ := Act.ask_eq_ok hreset
  obtain ⟨log, sh₅, hopen, h⟩ := Act.bind_eq_ok h
  obtain ⟨hlog, rfl⟩ := Act.ask_eq_ok hopen
  obtain ⟨rfl, rfl⟩ := Act.pure_eq_ok h
  refine ⟨rfl, log, rfl, ?_⟩
  have hresumable := (Server.counts_ensureResumable s.startingOffset).keeps sh.server
  have hreset :=
    Server.counts_resetListeners.keeps (Server.ensureResumable s.startingOffset sh.server).2
  rw [openStream_ok hlog, hreset.log, hresumable.log]

/-- Configuring a split is steady, and when it succeeds the split streams the log after its start,
read with the layouts that it found. -/
lemma incremental_configured (s : IncrementalSplit) {sh : Shared}
    (hnamed : sh.server.Named) :
    Steady s sh (incremental s sh).2 ∧
      ∀ plan, (incremental s sh).1 = .ok plan → Configured s sh plan (incremental s sh).2 := by
  obtain ⟨hsteady, hbound⟩ := bindTables_bound (s := s) s.tableIds hnamed {}
  have hhistory := history_bindTables s s.tableIds {} sh
  rw [incremental_eq]
  cases hbind : bindTables s {} s.tableIds sh with
  | mk result sh₁ =>
    rw [hbind] at hsteady hbound hhistory
    cases result with
    | error f =>
      rw [Act.bind_of_error hbind]
      exact ⟨hsteady, by simp⟩
    | ok batch =>
      rw [Act.bind_of_ok hbind]
      have hopen := keeps_openLog s batch sh₁
      generalize hrun : openLog s batch sh₁ = ran at hopen ⊢
      obtain ⟨result, sh'⟩ := ran
      refine ⟨(steady_chain s).trans hsteady hopen, fun plan hplan => ?_⟩
      obtain rfl : result = .ok plan := hplan
      obtain ⟨hcommit, log, rfl, hlog⟩ := openLog_ok hrun
      refine ⟨rfl, rfl, ⟨log, rfl, by rw [hlog, hsteady.server.log]⟩, fun hempty => ?_⟩
      have hbatch := fun r hr => (hbound batch rfl r hr).resolve_left List.not_mem_nil
      rw [hcommit, hhistory, hempty]
      exact reads_commit hbatch hnamed

end Plan
end Changefeed
