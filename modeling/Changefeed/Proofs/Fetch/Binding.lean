import Changefeed.Proofs.Fetch.Continuation
import Changefeed.Proofs.Fetch.Replaying
import Changefeed.Proofs.Fetch.Tally

/-!
# Binding a split

A task that is configured for a split either binds it or binds nothing.  It binds the split when the
layouts of all its tables are found, the server can serve its start, and its end goes with the
start: then the layouts are in the history, and an incremental split has its stream at its start.
Else no stream is opened and the task is of no more use; and where layouts were not found, none of
them has reached the history.
-/

namespace Changefeed

/-! ## Layouts -/

namespace SchemaHistory

variable {h : SchemaHistory} {r : SchemaRecord} {t : TableId}

lemma contains_append (hr : t = r.tableId ∨ h.contains t = true) :
    (h.append r).contains t = true := by
  by_cases ht : t = r.tableId
  · subst ht
    obtain ⟨x, hx, -⟩ := r.exists_mem_addTo (h.records r.tableId)
    rw [contains, records_append_self, Bool.not_eq_true', List.isEmpty_eq_false_iff]
    exact List.ne_nil_of_mem hx
  · rw [contains, records_append_of_ne h ht]
    exact hr.resolve_left ht

lemma contains_appendAll {rs : List SchemaRecord}
    (hrs : t ∈ rs.map SchemaRecord.tableId ∨ h.contains t = true) :
    (h.appendAll rs).contains t = true := by
  induction rs generalizing h with
  | nil => exact hrs.resolve_left List.not_mem_nil
  | cons r rs ih =>
    refine ih ?_
    rcases hrs with hin | hcontains
    · rcases List.mem_cons.mp hin with ht | hrest
      · exact .inr (contains_append (.inl ht))
      · exact .inl hrest
    · exact .inr (contains_append (.inr hcontains))

end SchemaHistory

namespace SchemaBatch

variable {b b' : SchemaBatch} {r : SchemaRecord} {t : TableId} {blob : Blob}

/-- The tables of the records of the batch. -/
def tables (b : SchemaBatch) : List TableId := b.pending.map SchemaRecord.tableId

lemma register_eq_ok : b.register r = .ok b' ↔ r.tableId ∉ b.tables ∧ b' = ⟨b.pending ++ [r]⟩ := by
  have hany : b.pending.any (·.tableId = r.tableId) = true ↔ r.tableId ∈ b.tables := by
    simp [tables]
  unfold register
  by_cases hr : r.tableId ∈ b.tables
  · rw [if_pos (hany.mpr hr)]
    simp [hr]
  · rw [if_neg (mt hany.mp hr)]
    simp [hr, eq_comm]

/-- A batch takes a serialised record when it is one of the table, and of another table than those
that it has. -/
lemma registerBlob_eq_ok : b.registerBlob t blob = .ok b' ↔
    t ∉ b.tables ∧ ∃ r, blob.layoutOf t = some r ∧ r.tableId = t ∧ b' = ⟨b.pending ++ [r]⟩ := by
  unfold registerBlob Blob.layoutOf
  cases SchemaRecord.ofBlob blob with
  | error f => simp
  | ok r =>
    dsimp only
    by_cases ht : r.tableId = t
    · subst ht
      simp [register_eq_ok]
    · simp [ht]

end SchemaBatch

/-! ## Splits whose layouts are found -/

/-- The layouts of all tables of a split are found: they are there, of the right tables, and no
table comes twice. -/
def Split.Resolves (sh : Shared) : Split → Prop
  | .snapshot s => ∃ layout, sh.server.schemas.find? s.tableId = some layout ∧
      (layout.column? s.keyColumn).isSome = true
  | .incremental s => s.tableIds.Nodup ∧ ∀ t ∈ s.tableIds, (s.layoutOf sh t).isSome = true

/-- Where a split is read from. -/
def Split.start : Split → Offset
  | .snapshot _ => .initial
  | .incremental s => s.startingOffset

/-- The fault of an end that does not go with the start. -/
def Split.encodingFault : Split → Option Fault
  | .snapshot _ => none
  | .incremental s => Plan.encodingFault s

namespace Plan

variable {s : IncrementalSplit} {sh sh' : Shared} {b b' : SchemaBatch} {t : TableId}

/-- A table whose layout is bound was not in the batch, and is the last one in it then. -/
lemma bindTable_tables (hnamed : sh.server.Named)
    (h : bindTable s b t sh = (.ok b', sh')) :
    t ∉ b.tables ∧ b'.tables = b.tables ++ [t] ∧ (s.layoutOf sh t).isSome = true := by
  rcases bindTable_found s b t sh with ⟨blob, hlayout, hbind⟩ | ⟨-, hlayout, hbind⟩
  · rw [hbind] at h
    obtain ⟨hnew, r, hfound, rfl, rfl⟩ :=
      SchemaBatch.registerBlob_eq_ok.mp (Act.ofOutcome_eq_ok h).1
    exact ⟨hnew, by simp [SchemaBatch.tables], by simp [hlayout, hfound]⟩
  · rw [hbind] at h
    obtain ⟨layout, sh₁, hlive, h⟩ := Act.bind_eq_ok h
    obtain ⟨-, found, hfound, htable, -⟩ := liveLayout_ok hlive
    obtain ⟨_, sh₂, -, h⟩ := Act.bind_eq_ok h
    obtain ⟨hnew, rfl⟩ := SchemaBatch.register_eq_ok.mp (Act.ofOutcome_eq_ok h).1
    rw [htable, hnamed t found hfound] at hnew
    refine ⟨hnew, ?_, by simp [hlayout, hfound]⟩
    simp [SchemaBatch.tables, htable, hnamed t found hfound]

/-- Tables whose layouts are bound are different, and their layouts are found. -/
lemma bindTables_tables {tables : List TableId} (hnamed : sh.server.Named)
    (h : bindTables s b tables sh = (.ok b', sh')) :
    b'.tables = b.tables ++ tables ∧ (b.tables.Nodup → b'.tables.Nodup) ∧
      ∀ t ∈ tables, (s.layoutOf sh t).isSome = true := by
  induction tables generalizing sh b with
  | nil =>
    obtain ⟨rfl, rfl⟩ := Act.pure_eq_ok h
    exact ⟨(List.append_nil _).symm, id, by simp⟩
  | cons t tables ih =>
    obtain ⟨b₁, sh₁, hbind, h⟩ := Act.bind_eq_ok h
    obtain ⟨hnew, htables, hlayout⟩ := bindTable_tables hnamed hbind
    have hsteady := (bindTable_bound (s := s) hnamed b t).1
    rw [hbind] at hsteady
    obtain ⟨hall, hnodup, hlayouts⟩ :=
      ih (fun t r hr => hnamed t r (hsteady.server.schemas ▸ hr)) h
    refine ⟨by rw [hall, htables, List.append_assoc]; rfl, fun hb => hnodup ?_, ?_⟩
    · rw [htables]
      exact List.nodup_append.mpr ⟨hb, by simp, fun x hx y hy =>
        fun heq => hnew (List.mem_singleton.mp hy ▸ heq ▸ hx)⟩
    · refine List.forall_mem_cons.mpr ⟨hlayout, fun t' ht' => ?_⟩
      obtain ⟨r', hr'⟩ := Option.isSome_iff_exists.mp (hlayouts t' ht')
      obtain ⟨r, hr, -⟩ := hsteady.layouts t' r' hr'
      rw [hr]
      rfl

/-- A server that fails no call has a layout bound that it stores. -/
lemma bindLive_quiet {found : SchemaRecord} (hquiet : sh.server.Quiet) (hnamed : sh.server.Named)
    (hnew : t ∉ b.tables) (hfound : sh.server.schemas.find? t = some found) :
    ∃ b' sh', bindLive s b t sh = (.ok b', sh') ∧
      sh'.server.uncounted = sh.server.uncounted ∧
      ∀ t', t' ≠ t → s.layoutOf sh' t' = s.layoutOf sh t' := by
  have hasked := Act.ask_of_ok (Server.querySchema_quiet hquiet hfound)
  obtain ⟨layout, hlive, htable⟩ : ∃ layout, liveLayout t s.startingOffset sh =
      (.ok layout, { sh with server := (Server.querySchema t sh.server).2 }) ∧
        layout.tableId = t := by
    refine ⟨_, Act.bind_of_ok hasked, ?_⟩
    split <;> exact hnamed t found hfound
  have hregister : b.register layout = .ok ⟨b.pending ++ [layout]⟩ :=
    SchemaBatch.register_eq_ok.mpr ⟨htable ▸ hnew, rfl⟩
  have hcounted := Server.counts_querySchema t sh.server
  generalize (Server.querySchema t sh.server).2 = server at hlive hcounted
  let backend := sh.backend.map fun b => SortedMap.insert b t layout.toBlob
  have hkeep : keepLayout t layout { sh with server } =
      (.ok (), { sh with server, backend }) := rfl
  refine ⟨⟨b.pending ++ [layout]⟩, { sh with server, backend }, ?_, hcounted, fun t' ht' => ?_⟩
  · rw [bindLive, Act.bind_of_ok hlive, Act.bind_of_ok hkeep, hregister]
    rfl
  · have hschemas := (Server.SameData.of_uncounted_eq hcounted).schemas
    simp only [IncrementalSplit.layoutOf, hschemas, backend]
    cases sh.backend with
    | none => rfl
    | some backend => simp only [Option.map_some, Option.bind_some,
        SortedMap.find?_insert_of_ne _ _ ht']

/-- A server that fails no call lets a table be bound whose layout is found. -/
lemma bindTable_quiet (hquiet : sh.server.Quiet) (hnamed : sh.server.Named)
    (hnew : t ∉ b.tables) (hlayout : (s.layoutOf sh t).isSome = true) :
    ∃ b' sh', bindTable s b t sh = (.ok b', sh') ∧
      sh'.server.uncounted = sh.server.uncounted ∧
      ∀ t', t' ≠ t → s.layoutOf sh' t' = s.layoutOf sh t' := by
  obtain ⟨found, hfound⟩ := Option.isSome_iff_exists.mp hlayout
  rcases bindTable_found s b t sh with ⟨blob, hsame, hbind⟩ | ⟨-, hsame, hbind⟩
  · have hblob : blob.layoutOf t = some found := hsame.symm.trans hfound
    have hregister : b.registerBlob t blob = .ok ⟨b.pending ++ [found]⟩ :=
      SchemaBatch.registerBlob_eq_ok.mpr ⟨hnew, found, hblob, Blob.layoutOf_tableId hblob, rfl⟩
    refine ⟨⟨b.pending ++ [found]⟩, sh, ?_, rfl, fun _ _ => rfl⟩
    rw [hbind, hregister]
    rfl
  · rw [hbind]
    exact bindLive_quiet hquiet hnamed hnew (hsame.symm.trans hfound)

/-- A server that fails no call lets different tables be bound whose layouts are found. -/
lemma bindTables_quiet {tables : List TableId} (hquiet : sh.server.Quiet)
    (hnamed : sh.server.Named) (hnodup : (b.tables ++ tables).Nodup)
    (hlayouts : ∀ t ∈ tables, (s.layoutOf sh t).isSome = true) :
    ∃ b' sh', bindTables s b tables sh = (.ok b', sh') ∧
      sh'.server.uncounted = sh.server.uncounted := by
  induction tables generalizing sh b with
  | nil => exact ⟨b, sh, rfl, rfl⟩
  | cons t tables ih =>
    obtain ⟨hlayout, hrest⟩ := List.forall_mem_cons.mp hlayouts
    have hnew : t ∉ b.tables := fun hin =>
      (List.nodup_append.mp hnodup).2.2 t hin t (.head _) rfl
    have hother : ∀ t' ∈ tables, t' ≠ t := fun t' ht' heq =>
      (List.nodup_cons.mp (List.nodup_append.mp hnodup).2.1).1 (heq ▸ ht')
    obtain ⟨b₁, sh₁, hbind, hcounted, hsame⟩ := bindTable_quiet hquiet hnamed hnew hlayout
    have hnamed₁ : sh₁.server.Named := fun t r hr =>
      hnamed t r ((Server.SameData.of_uncounted_eq hcounted).schemas ▸ hr)
    obtain ⟨b₂, sh₂, hbinds, hcounted₂⟩ := ih (hquiet.congr hcounted) hnamed₁
      (by rw [(bindTable_tables hnamed hbind).2.1, List.append_assoc]; exact hnodup)
      (fun t' ht' => by rw [hsame t' (hother t' ht')]; exact hrest t' ht')
    exact ⟨b₂, sh₂, (Act.bind_of_ok hbind).trans hbinds, hcounted₂.trans hcounted⟩

/-! ## Plans -/

variable {config : FetchConfig} {split : Split} {batch : SchemaBatch} {plan : Plan} {f : Fault}

/-- The first part of a plan: the layouts of the split's tables are found. -/
def findLayouts : Split → Act SchemaBatch
  | .snapshot s => do
    let layout ← Act.ask (Server.querySchema s.tableId)
    Act.require (layout.column? s.keyColumn).isSome
      (.schema (.keyNotAColumn s.keyColumn s.tableId.text))
    Act.ofOutcome (SchemaBatch.register {} layout)
  | .incremental s => bindTables s {} s.tableIds

/-- To find layouts leaves the history alone. -/
lemma history_findLayouts (split : Split) (sh : Shared) :
    (findLayouts split sh).2.history = sh.history := by
  have hchain : Act.Chain fun sh sh' => sh'.history = sh.history :=
    ⟨fun _ => rfl, fun h h' => h'.trans h⟩
  cases split with
  | snapshot s =>
    have hkeeps : Act.Keeps (fun sh sh' => sh'.history = sh.history) (findLayouts (.snapshot s)) :=
      Act.keeps_bind hchain (fun _ => rfl) fun _ =>
        Act.keeps_bind hchain (fun _ => rfl) fun _ _ => rfl
    exact hkeeps sh
  | incremental s => exact history_bindTables s s.tableIds {} sh

/-- Layouts are found for the tables of the split, each of them once. -/
lemma findLayouts_ok (hnamed : sh.server.Named) (h : findLayouts split sh = (.ok batch, sh')) :
    split.Resolves sh ∧ batch.tables = split.tableIds := by
  cases split with
  | snapshot s =>
    obtain ⟨layout, sh₁, hquery, h⟩ := Act.bind_eq_ok h
    obtain ⟨hlayout, -⟩ := Act.ask_eq_ok hquery
    obtain ⟨_, sh₂, hrequire, h⟩ := Act.bind_eq_ok h
    have hkey : (layout.column? s.keyColumn).isSome = true := by
      by_contra hnone
      rw [Act.require, if_neg hnone] at hrequire
      cases (Act.ofOutcome_eq_ok hrequire).1
    obtain ⟨-, rfl⟩ := SchemaBatch.register_eq_ok.mp (Act.ofOutcome_eq_ok h).1
    have hfound := find?_of_querySchema hlayout
    exact ⟨⟨layout, hfound, hkey⟩, by simp [SchemaBatch.tables, Split.tableIds, hnamed _ _ hfound]⟩
  | incremental s =>
    obtain ⟨htables, hnodup, hlayouts⟩ := bindTables_tables hnamed h
    have htables : batch.tables = s.tableIds := htables
    exact ⟨⟨htables ▸ hnodup .nil, hlayouts⟩, htables⟩

/-- A split whose layouts are not found is refused with the same fault, and the history stays as it
was. -/
lemma make_of_unfound (h : findLayouts split sh = (.error f, sh')) :
    make config split sh = (.error f, sh') ∧ sh'.history = sh.history := by
  refine ⟨?_, by rw [← history_findLayouts split sh, h]⟩
  cases split with
  | incremental s =>
    show incremental s sh = _
    rw [incremental_eq]
    exact Act.bind_of_error h
  | snapshot s =>
    show snapshot config s sh = _
    unfold snapshot
    rcases Act.bind_eq_error h with hquery | ⟨layout, sh₁, hquery, h⟩
    · exact Act.bind_of_error hquery
    · rw [Act.bind_of_ok hquery]
      rcases Act.bind_eq_error h with hrequire | ⟨_, sh₂, -, h⟩
      · exact Act.bind_of_error hrequire
      · cases (Prod.mk.inj h).1

/-- What comes of a plan that could be made. -/
structure Made (split : Split) (sh : Shared) (plan : Plan) (sh' : Shared) : Prop where
  resolves : split.Resolves sh
  served : Resume.check split.start sh.server.retained = none
  encoded : split.encodingFault = none
  start : plan.start = split.start
  layouts : ∀ t ∈ split.tableIds, sh'.history.contains t = true

lemma make_made (hnamed : sh.server.Named) (h : make config split sh = (.ok plan, sh')) :
    Made split sh plan sh' := by
  cases split with
  | snapshot s =>
    have h : snapshot config s sh = (.ok plan, sh') := h
    obtain ⟨layout, sh₁, hquery, h⟩ := Act.bind_eq_ok h
    obtain ⟨_, sh₂, hrequire, h⟩ := Act.bind_eq_ok h
    obtain ⟨batch, sh₃, hregister, h⟩ := Act.bind_eq_ok h
    have hfound : findLayouts (.snapshot s) sh = (.ok batch, sh₃) :=
      (Act.bind_of_ok hquery).trans ((Act.bind_of_ok hrequire).trans hregister)
    obtain ⟨hresolves, htables⟩ := findLayouts_ok hnamed hfound
    obtain ⟨_, sh₄, hcommit, h⟩ := Act.bind_eq_ok h
    obtain rfl := Act.commit_eq_ok hcommit
    obtain ⟨_, sh₅, hserved, h⟩ := Act.bind_eq_ok h
    obtain ⟨-, rfl⟩ := Act.ask_eq_ok hserved
    obtain ⟨_, sh₆, hreset, h⟩ := Act.bind_eq_ok h
    obtain ⟨-, rfl⟩ := Act.ask_eq_ok hreset
    obtain ⟨rfl, rfl⟩ := Act.pure_eq_ok h
    refine ⟨hresolves, rfl, rfl, rfl, fun t ht => ?_⟩
    exact SchemaHistory.contains_appendAll (.inl (htables ▸ ht : t ∈ batch.tables))
  | incremental s =>
    have h : incremental s sh = (.ok plan, sh') := h
    rw [incremental_eq] at h
    obtain ⟨batch, sh₁, hbind, h⟩ := Act.bind_eq_ok h
    have hfound : findLayouts (.incremental s) sh = (.ok batch, sh₁) := hbind
    obtain ⟨hresolves, htables⟩ := findLayouts_ok hnamed hfound
    obtain ⟨hhistory, log, rfl, -⟩ := openLog_ok h
    have hretained : sh₁.server.retained = sh.server.retained := by
      have hsteady := (bindTables_bound (s := s) s.tableIds hnamed {}).1
      rw [hbind] at hsteady
      exact hsteady.server.retained
    obtain ⟨_, sh₂, hcommit, h⟩ := Act.bind_eq_ok h
    obtain rfl := Act.commit_eq_ok hcommit
    obtain ⟨_, sh₃, hresumable, h⟩ := Act.bind_eq_ok h
    obtain ⟨hserved, rfl⟩ := Act.ask_eq_ok hresumable
    obtain ⟨_, sh₄, hencoded, h⟩ := Act.bind_eq_ok h
    refine ⟨hresolves, ?_, ?_, rfl, fun t ht => ?_⟩
    · rw [← hretained]
      exact Server.check_of_ensureResumable hserved
    · show encodingFault s = none
      cases hfault : encodingFault s with
      | none => rfl
      | some f =>
        rw [hfault] at hencoded
        cases (Act.ofOutcome_eq_ok hencoded).1
    · rw [hhistory]
      exact SchemaHistory.contains_appendAll (.inl (htables ▸ ht : t ∈ batch.tables))

/-- Where the server fails no call, the log is opened for an incremental split whose layouts are
found, whose start can be served and whose end goes with its start. -/
lemma incremental_quiet (hquiet : sh.server.Quiet) (hnamed : sh.server.Named)
    (hresolves : Split.Resolves sh (.incremental s))
    (hserved : Resume.check s.startingOffset sh.server.retained = none)
    (hencoded : encodingFault s = none) :
    ∃ sh', incremental s sh =
      (.ok { producer := .stream s.job { records := recordsAfter sh.server.log s.startingOffset
                                         endsWhenDrained := sh.server.endsWhenDrained }
             mode := .passThrough
             start := s.startingOffset }, sh') := by
  obtain ⟨hnodup, hlayouts⟩ := hresolves
  obtain ⟨batch, sh₁, hbind, hcounted⟩ := bindTables_quiet (b := {}) hquiet hnamed hnodup hlayouts
  have hretained := (Server.SameData.of_uncounted_eq hcounted).retained
  have hresumable :=
    Server.ensureResumable_quiet (hquiet.congr hcounted) (hretained.symm ▸ hserved)
  obtain ⟨sh', hopen, -⟩ := openLog_quiet sh₁ (hquiet.congr hcounted) hresumable hencoded batch
  have hplan := (Act.bind_of_ok hbind).trans hopen
  have hdrained : sh₁.server.endsWhenDrained = sh.server.endsWhenDrained := by
    have hsame := congrArg Server.endsWhenDrained hcounted
    exact hsame
  rw [← incremental_eq, Server.log_congr hcounted, hdrained] at hplan
  exact ⟨sh', hplan⟩

/-- Where the server fails no call, a plan is made for a split whose layouts are found, whose start
can be served and whose end goes with its start. -/
lemma make_quiet (config : FetchConfig) (hquiet : sh.server.Quiet) (hnamed : sh.server.Named)
    (hresolves : split.Resolves sh) (hserved : Resume.check split.start sh.server.retained = none)
    (hencoded : split.encodingFault = none) :
    ∃ plan sh', make config split sh = (.ok plan, sh') := by
  cases split with
  | snapshot s =>
    obtain ⟨layout, hlayout, hkey⟩ := hresolves
    obtain ⟨sh', hplan, -⟩ := snapshot_ok config sh hquiet hlayout hkey
    exact ⟨_, sh', hplan⟩
  | incremental s =>
    obtain ⟨sh', hplan⟩ := incremental_quiet hquiet hnamed hresolves hserved hencoded
    exact ⟨_, sh', hplan⟩

end Plan

/-! ## Tasks -/

namespace Task

variable {config : FetchConfig} {split : Split} {sh sh' : Shared} {t : Task} {f : Fault}

/-- A task has bound its split: the layouts of all tables were found and are in the history, the
server can serve the start, and the streams of the split, and no others, are open. -/
structure Binds (split : Split) (sh : Shared) (t : Task) (sh' : Shared) : Prop where
  resolves : split.Resolves sh
  served : Resume.check split.start sh.server.retained = none
  encoded : split.encodingFault = none
  layouts : ∀ tableId ∈ split.tableIds, sh'.history.contains tableId = true
  opened : sh'.server.opened = sh.server.opened ++ split.streams
  state : t.state? = some .opened
  offset : t.offset = split.start

/-- A task has refused its split: no stream was opened and the task cannot be read.  Where not all
layouts were found that is its fault, and the history is as it was. -/
structure Refuses (split : Split) (sh : Shared) (f : Fault) (t : Task) (sh' : Shared) : Prop where
  unopened : sh'.server.opened = sh.server.opened
  state : t.state? = some .failed
  offset : t.offset = .initial
  unread : ∃ f', t.read = (.error f', t)
  unfound : ∀ f' sh₁,
    Plan.findLayouts split { sh with metrics := sh.metrics.recordSplitStarted } = (.error f', sh₁) →
      f' = f ∧ sh'.history = sh.history
  unresolved : ¬ split.Resolves sh → sh'.history = sh.history

lemma resolves_started :
    split.Resolves { sh with metrics := sh.metrics.recordSplitStarted } ↔ split.Resolves sh := by
  cases split <;> exact Iff.rfl

lemma binds_of_make {plan : Plan} (hnamed : sh.server.Named)
    (h : Plan.make config split { sh with metrics := sh.metrics.recordSplitStarted } =
      (.ok plan, sh')) :
    Binds split sh { config, stage := .prepared split (plan.session config split) } sh' := by
  let started : Shared := { sh with metrics := sh.metrics.recordSplitStarted }
  have hnamed : started.server.Named := hnamed
  have hmade := Plan.make_made hnamed h
  have hopened := (Plan.opens_make config split started).2
  rw [h] at hopened
  exact
    { resolves := resolves_started.mp hmade.resolves
      served := hmade.served
      encoded := hmade.encoded
      layouts := hmade.layouts
      opened := hopened
      state := rfl
      offset := hmade.start }

lemma refuses_of_make (hnamed : sh.server.Named)
    (h : Plan.make config split { sh with metrics := sh.metrics.recordSplitStarted } =
      (.error f, sh')) :
    Refuses split sh f { config, stage := .refused split }
      { sh' with metrics := countRefusal sh'.metrics f } := by
  let started : Shared := { sh with metrics := sh.metrics.recordSplitStarted }
  have hnamed : started.server.Named := hnamed
  have hopened := (Plan.opens_make config split started).2
  rw [h] at hopened
  have hunfound : ∀ f' sh₁, Plan.findLayouts split started = (.error f', sh₁) →
      f' = f ∧ sh'.history = sh.history := by
    intro f' sh₁ hfind
    obtain ⟨hmake, hhistory⟩ : Plan.make config split started = (.error f', sh₁) ∧
        sh₁.history = started.history := Plan.make_of_unfound hfind
    obtain ⟨hfault, rfl⟩ := Prod.mk.inj (h.symm.trans hmake)
    exact ⟨(Except.error.inj hfault).symm, hhistory⟩
  refine ⟨hopened, rfl, rfl, ⟨_, rfl⟩, hunfound, fun hunresolved => ?_⟩
  cases hfind : Plan.findLayouts split started with
  | mk result sh₁ =>
    cases result with
    | error f' => exact (hunfound f' sh₁ hfind).2
    | ok batch =>
      have hresolves := (Plan.findLayouts_ok hnamed hfind).1
      exact absurd (resolves_started.mp hresolves) hunresolved

/-- A task that is configured for a split binds it or refuses it.  Where the server fails no call,
it binds every split whose layouts are found, whose start can be served and whose end goes with its
start. -/
theorem configure_binds_or_refuses (config : FetchConfig) (split : Split) {sh : Shared}
    (hnamed : sh.server.Named) :
    (match ({ config } : Task).configure split sh with
      | (.ok (), t, sh') => Binds split sh t sh'
      | (.error f, t, sh') => Refuses split sh f t sh') ∧
    (sh.server.Quiet →
      ((({ config } : Task).configure split sh).1 = .ok () ↔
        split.Resolves sh ∧ Resume.check split.start sh.server.retained = none ∧
          split.encodingFault = none)) := by
  rw [configure_fresh]
  cases hmake : Plan.make config split { sh with metrics := sh.metrics.recordSplitStarted } with
  | mk result sh' =>
    cases result with
    | ok plan =>
      have hbinds := binds_of_make hnamed hmake
      exact ⟨hbinds, fun _ => ⟨fun _ => ⟨hbinds.resolves, hbinds.served, hbinds.encoded⟩,
        fun _ => rfl⟩⟩
    | error f =>
      refine ⟨refuses_of_make hnamed hmake, fun hquiet => ⟨nofun, ?_⟩⟩
      rintro ⟨hresolves, hserved, hencoded⟩
      let started : Shared := { sh with metrics := sh.metrics.recordSplitStarted }
      have hquiet : started.server.Quiet := hquiet
      obtain ⟨plan, sh₁, hplan⟩ :=
        Plan.make_quiet config hquiet hnamed (resolves_started.mpr hresolves) hserved hencoded
      cases (Prod.mk.inj (hmake.symm.trans hplan)).1

/-- Accounts as the server has them. -/
def accounts : SchemaRecord :=
  .make ⟨"bank", "accounts"⟩
    [{ name := "id", typeName := "int", position := 1, primaryKey := true }] .initial

/-- A server that has accounts. -/
def bankServer : Server :=
  { schemas := [(accounts.tableId, accounts)], retained := { logFiles := ["log.1"] } }

/-- The changes of some tables, from a file that is retained on. -/
def bankSplit (tableIds : List TableId) : Split :=
  .incremental { splitIndex := 0, tableIds, startingOffset := .binlog "log.1" 4 }

lemma named_bankServer : bankServer.Named := by
  intro t r hr
  simp only [bankServer, SortedMap.find?] at hr
  split at hr
  · cases hr
  · next h =>
    rw [← Option.some.inj hr, Std.LawfulEqOrd.eq_of_compare h]
  · cases hr

/-- The accounts are bound once, and refused when they come twice. -/
theorem configure_accounts :
    bankServer.Named ∧
    (∃ t sh', ({ config := {} } : Task).configure (bankSplit [accounts.tableId])
        { server := bankServer } = (.ok (), t, sh') ∧
      Binds (bankSplit [accounts.tableId]) { server := bankServer } t sh' ∧
      sh'.server.opened = #[.binlog "log.1" 4]) ∧
    ∃ f t sh', ({ config := {} } : Task).configure (bankSplit [accounts.tableId, accounts.tableId])
        { server := bankServer } = (.error f, t, sh') ∧
      Refuses (bankSplit [accounts.tableId, accounts.tableId]) { server := bankServer } f t sh' ∧
      sh'.history = .empty := by
  have hnamed : ({ server := bankServer } : Shared).server.Named := named_bankServer
  have hbinds := (configure_binds_or_refuses {} (bankSplit [accounts.tableId]) hnamed).1
  have hrefuses :=
    (configure_binds_or_refuses {} (bankSplit [accounts.tableId, accounts.tableId]) hnamed).1
  refine ⟨named_bankServer, ⟨_, _, rfl, hbinds, rfl⟩, _, _, _, rfl, hrefuses, ?_⟩
  have htwice : ¬ (bankSplit [accounts.tableId, accounts.tableId]).Resolves
      { server := bankServer } := fun h => by
    have hnodup : [accounts.tableId, accounts.tableId].Nodup := h.1
    simp at hnodup
  exact hrefuses.unresolved htwice

end Task
end Changefeed
