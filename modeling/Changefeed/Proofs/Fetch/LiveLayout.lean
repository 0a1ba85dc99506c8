import Changefeed.Proofs.Fetch.Binding
import Changefeed.Proofs.Schema.Covering

/-!
# Layouts asked of the server

A table whose layout neither comes with an incremental split nor was kept has its layout asked of
the server.  The server reports it at a position of its own, which may lie behind the start of the
split or not be comparable with it; then the layout is taken to hold from the start on.  So the
start has reached it in any case, and no row from the start on is without a layout, whatever the
history held before and whatever is added to it later.

Binding one table either takes a serialised layout and changes nothing that is shared, or takes the
server's layout and keeps it (`Plan.bindTable_cases`).  A layout that was kept is found from then on
and not replaced, so what is kept for a table when the split is configured is what was asked for it.
-/

namespace Changefeed

open SplitAssigner (layoutFrom)

/-- The layout that was kept for a table, as it was serialised. -/
def Shared.keptFor (sh : Shared) (t : TableId) : Option Blob :=
  sh.backend.bind fun b => SortedMap.find? b t

lemma SplitAssigner.reached_layoutFrom (live : SchemaRecord) (start : Offset) :
    start.reached (layoutFrom live start).position = true := by
  unfold layoutFrom
  split
  · next hreached => exact hreached
  · exact Offset.reached_self start

lemma SplitAssigner.normal_layoutFrom {live : SchemaRecord} {start : Offset}
    (hlive : live.position.Normal) (hstart : start.Normal) :
    (layoutFrom live start).position.Normal := by
  unfold layoutFrom
  split
  · exact hlive
  · exact hstart

namespace Plan

variable {s : IncrementalSplit} {sh sh' : Shared} {b b' : SchemaBatch} {t t' : TableId}

/-! ## Binding one table -/

lemma liveLayout_eq_ok {start : Offset} {schema : SchemaRecord}
    (h : liveLayout t start sh = (.ok schema, sh')) :
    ∃ live, sh.server.schemas.find? t = some live ∧ schema = layoutFrom live start ∧
      sh' = { sh with server := (Server.querySchema t sh.server).2 } := by
  obtain ⟨live, sh₁, hquery, hpure⟩ := Act.bind_eq_ok h
  obtain ⟨hlive, rfl⟩ := Act.ask_eq_ok hquery
  obtain ⟨rfl, rfl⟩ := Act.pure_eq_ok hpure
  exact ⟨live, find?_of_querySchema hlive, rfl, rfl⟩

/-- A table is bound by a serialised layout, and nothing that is shared changes, or by the one that
the server stores, which is kept. -/
lemma bindTable_cases (h : bindTable s b t sh = (.ok b', sh')) :
    ((s.historyRefs.find? t).or (sh.keptFor t) ≠ none ∧ b.pending <+: b'.pending ∧ sh' = sh) ∨
      s.historyRefs.find? t = none ∧ sh.keptFor t = none ∧
        ∃ live, sh.server.schemas.find? t = some live ∧
          b'.pending = b.pending ++ [layoutFrom live s.startingOffset] ∧
          sh' = { sh with
            server := (Server.querySchema t sh.server).2
            backend := sh.backend.map fun kept =>
              SortedMap.insert kept t (layoutFrom live s.startingOffset).toBlob } := by
  have hserialised : ∀ {blob : Blob}, Act.ofOutcome (b.registerBlob t blob) sh = (.ok b', sh') →
      b.pending <+: b'.pending ∧ sh' = sh := by
    intro blob h
    obtain ⟨hregister, rfl⟩ := Act.ofOutcome_eq_ok h
    obtain ⟨r, -, -, hpending⟩ := SchemaBatch.registerBlob_ok hregister
    exact ⟨hpending ▸ List.prefix_append .., rfl⟩
  unfold bindTable at h
  cases href : s.historyRefs.find? t with
  | some blob =>
    rw [href] at h
    exact .inl ⟨by simp, hserialised h⟩
  | none =>
    rw [href] at h
    obtain ⟨found, sh₁, hfound, h⟩ := Act.bind_eq_ok h
    obtain ⟨rfl, rfl⟩ : found = sh.keptFor t ∧ sh₁ = sh :=
      ⟨(Except.ok.inj (congrArg Prod.fst hfound)).symm, (congrArg Prod.snd hfound).symm⟩
    cases hkept : sh₁.keptFor t with
    | some blob =>
      rw [hkept] at h
      exact .inl ⟨by simp, hserialised h⟩
    | none =>
      rw [hkept] at h
      obtain ⟨schema, sh₂, hlive, h⟩ := Act.bind_eq_ok h
      obtain ⟨live, hstored, rfl, rfl⟩ := liveLayout_eq_ok hlive
      obtain ⟨_, sh₃, hkeep, h⟩ := Act.bind_eq_ok h
      obtain ⟨hregister, rfl⟩ := Act.ofOutcome_eq_ok h
      refine .inr ⟨rfl, rfl, live, hstored, SchemaBatch.register_ok hregister, ?_⟩
      exact (congrArg Prod.snd hkeep).symm

section Keeping

variable {blob : Blob}
  (hbackend : sh'.backend = sh.backend.map fun kept => SortedMap.insert kept t blob)

include hbackend

lemma keptFor_insert_self (hbacked : sh.backend.isSome = true) : sh'.keptFor t = some blob := by
  obtain ⟨kept, hkept⟩ := Option.isSome_iff_exists.mp hbacked
  rw [Shared.keptFor, hbackend, hkept]
  exact SortedMap.find?_insert_self kept t blob

lemma keptFor_insert_of_ne (ht : t' ≠ t) : sh'.keptFor t' = sh.keptFor t' := by
  rw [Shared.keptFor, Shared.keptFor, hbackend]
  cases sh.backend with
  | none => rfl
  | some kept => exact SortedMap.find?_insert_of_ne kept blob ht

end Keeping

/-- After it, the server stores the same layouts, and what was kept is still found. -/
structure Preserves (sh sh' : Shared) : Prop where
  schemas : sh'.server.schemas = sh.server.schemas
  backed : sh'.backend.isSome = sh.backend.isSome
  kept : ∀ t blob, sh.keptFor t = some blob → sh'.keptFor t = some blob

lemma Preserves.trans {sh'' : Shared} (h : Preserves sh sh') (h' : Preserves sh' sh'') :
    Preserves sh sh'' :=
  ⟨h'.schemas.trans h.schemas, h'.backed.trans h.backed,
    fun t blob hkept => h'.kept t blob (h.kept t blob hkept)⟩

lemma preserves_bindTable (h : bindTable s b t sh = (.ok b', sh')) : Preserves sh sh' := by
  rcases bindTable_cases h with ⟨-, -, rfl⟩ | ⟨-, hnone, live, -, -, rfl⟩
  · exact ⟨rfl, rfl, fun _ _ hkept => hkept⟩
  · refine ⟨((Server.counts_querySchema t).keeps sh.server).schemas, Option.isSome_map .., ?_⟩
    intro t' blob hkept
    -- Nothing was kept for the table that is bound, so this is another one.
    have ht : t' ≠ t := by
      rintro rfl
      rw [hnone] at hkept
      contradiction
    rw [keptFor_insert_of_ne rfl ht]
    exact hkept

lemma pending_bindTable (h : bindTable s b t sh = (.ok b', sh')) : b.pending <+: b'.pending := by
  rcases bindTable_cases h with ⟨-, hearlier, -⟩ | ⟨-, -, live, -, hpending, -⟩
  · exact hearlier
  · rw [hpending]
    exact List.prefix_append ..

lemma keptFor_bindTable (h : bindTable s b t sh = (.ok b', sh')) (ht : t' ≠ t) :
    sh'.keptFor t' = sh.keptFor t' := by
  rcases bindTable_cases h with ⟨-, -, rfl⟩ | ⟨-, -, live, -, -, rfl⟩
  · rfl
  · exact keptFor_insert_of_ne rfl ht

/-! ## Binding all tables -/

lemma bindTables_preserves {tables : List TableId}
    (h : bindTables s b tables sh = (.ok b', sh')) :
    b.pending <+: b'.pending ∧ Preserves sh sh' := by
  induction tables generalizing sh b with
  | nil =>
    obtain ⟨rfl, rfl⟩ := Act.pure_eq_ok h
    exact ⟨List.prefix_refl _, rfl, rfl, fun _ _ hkept => hkept⟩
  | cons t tables ih =>
    obtain ⟨b₁, sh₁, hbind, h⟩ := Act.bind_eq_ok h
    obtain ⟨hearlier, hpreserves⟩ := ih h
    exact ⟨(pending_bindTable hbind).trans hearlier, (preserves_bindTable hbind).trans hpreserves⟩

/-- A table that has no serialised layout is bound by the one that the server stores, counted from
the start on, and where layouts are kept this one is. -/
lemma bindTables_live {tables : List TableId} (h : bindTables s b tables sh = (.ok b', sh'))
    (ht : t ∈ tables) (href : s.historyRefs.find? t = none) (hkept : sh.keptFor t = none) :
    ∃ live, sh.server.schemas.find? t = some live ∧
      layoutFrom live s.startingOffset ∈ b'.pending ∧
      (sh.backend.isSome = true →
        sh'.keptFor t = some (layoutFrom live s.startingOffset).toBlob) := by
  induction tables generalizing sh b with
  | nil => contradiction
  | cons t₁ tables ih =>
    obtain ⟨b₁, sh₁, hbind, hrest⟩ := Act.bind_eq_ok h
    by_cases hfirst : t = t₁
    · subst hfirst
      obtain ⟨hearlier, hpreserves⟩ := bindTables_preserves hrest
      rcases bindTable_cases hbind with ⟨hsome, -, -⟩ | ⟨-, -, live, hlive, hpending, rfl⟩
      · exact absurd (by rw [href, hkept]; rfl) hsome
      · refine ⟨live, hlive, hearlier.subset ?_, fun hbacked => ?_⟩
        · rw [hpending]
          exact List.mem_append_right _ (List.mem_singleton.mpr rfl)
        · exact hpreserves.kept t _ (keptFor_insert_self rfl hbacked)
    · have hpreserves := preserves_bindTable hbind
      have hlater : t ∈ tables := (List.mem_cons.mp ht).resolve_left hfirst
      obtain ⟨live, hlive, hpending, hlast⟩ :=
        ih hrest hlater ((keptFor_bindTable hbind hfirst).trans hkept)
      refine ⟨live, hpreserves.schemas ▸ hlive, hpending, fun hbacked => ?_⟩
      exact hlast (hpreserves.backed.trans hbacked)

lemma backend_openLog (s : IncrementalSplit) (batch : SchemaBatch) :
    Act.Keeps (fun sh sh' => sh'.backend = sh.backend) (openLog s batch) := by
  have hchain : Act.Chain fun sh sh' => sh'.backend = sh.backend :=
    ⟨fun _ => rfl, fun h h' => h'.trans h⟩
  refine Act.keeps_bind hchain (fun _ => rfl) fun _ => ?_
  refine Act.keeps_bind hchain (fun _ => rfl) fun _ => ?_
  refine Act.keeps_bind hchain (fun _ => rfl) fun _ => ?_
  refine Act.keeps_bind hchain (fun _ => rfl) fun _ => ?_
  exact Act.keeps_bind hchain (fun _ => rfl) fun _ _ => rfl

/-- The plan for a split with such a table has the layout of the server in the history, and where
layouts are kept this one is. -/
lemma incremental_live {plan : Plan} (h : incremental s sh = (.ok plan, sh'))
    (ht : t ∈ s.tableIds) (href : s.historyRefs.find? t = none) (hkept : sh.keptFor t = none) :
    ∃ live rs, sh.server.schemas.find? t = some live ∧
      layoutFrom live s.startingOffset ∈ rs ∧ sh'.history = sh.history.appendAll rs ∧
      (sh.backend.isSome = true →
        sh'.keptFor t = some (layoutFrom live s.startingOffset).toBlob) := by
  rw [incremental_eq] at h
  obtain ⟨batch, sh₁, hbind, h⟩ := Act.bind_eq_ok h
  have hbound := history_bindTables s s.tableIds {} sh
  rw [hbind] at hbound
  have hbackend := backend_openLog s batch sh₁
  rw [h] at hbackend
  obtain ⟨live, hlive, hpending, hlast⟩ := bindTables_live hbind ht href hkept
  refine ⟨live, batch.pending, hlive, hpending, ?_, fun hbacked => ?_⟩
  · rw [(openLog_ok h).1, SchemaBatch.commit, hbound]
  · rw [Shared.keptFor, hbackend]
    exact hlast hbacked

end Plan

/-! ## Rows from the start on -/

/-- Where the history has an answer, a row is not without a layout. -/
lemma Dispatcher.dispatch_ne_schemaUnknown {d : Dispatcher} {h : SchemaHistory} {c : RowChange}
    {r : SchemaRecord} (hanswer : h.schemaAt c.tableId c.position = .ok r)
    (table position : String) :
    d.dispatch h (.change c) ≠ .error (.schemaUnknown table position) := by
  have hdecode : decode h c = c.decodeWith r := by rw [decode, hanswer]
  intro hunknown
  rw [dispatch] at hunknown
  split at hunknown
  · rcases decodeWith_cases r c with ⟨e, hread, -⟩ | ⟨cause, hmalformed⟩
    · rw [hdecode, hread] at hunknown
      cases hunknown
    · rw [hdecode, hmalformed] at hunknown
      cases hunknown
  · cases hunknown

namespace Task

variable {task task' : Task} {sh sh' : Shared}

/-- A task is configured when a plan is made for its split. -/
lemma make_of_configure {split : Split} (h : task.configure split sh = (.ok (), task', sh')) :
    ∃ plan, Plan.make task.config split { sh with metrics := sh.metrics.recordSplitStarted } =
      (.ok plan, sh') := by
  unfold configure at h
  split at h
  · split at h
    · cases h
    · split at h
      · next plan sh₁ hmake =>
        obtain ⟨-, hrest⟩ := Prod.mk.inj h
        exact ⟨plan, (Prod.mk.inj hrest).2 ▸ hmake⟩
      · cases h
  · cases h

/-- A task that was configured for an incremental split has bound every table that has no serialised
layout to the layout that the server stores, at a position that the start has reached.  A layout
that states the same is in the history.  However the history grows, it has an answer wherever the
start was reached, and no row there is without a layout.  Where layouts are kept, the one that was
bound is what is read back for the table. -/
theorem configure_covers_live_layout {s : IncrementalSplit} {t : TableId}
    (hnamed : sh.server.Named)
    (hconfigure : task.configure (.incremental s) sh = (.ok (), task', sh'))
    (ht : t ∈ s.tableIds) (href : s.historyRefs.find? t = none) (hkept : sh.keptFor t = none)
    (hstart : s.startingOffset.Normal)
    (hstored : ∀ live, sh.server.schemas.find? t = some live → live.position.Normal) :
    ∃ live bound, sh.server.schemas.find? t = some live ∧
      bound = { live with position := bound.position } ∧
      s.startingOffset.reached bound.position = true ∧
      (∃ x ∈ sh'.history.records t, x.sameLayoutAt bound = true) ∧
      (∀ (later : List SchemaRecord) (q : Offset), q.Normal →
        q.reached s.startingOffset = true →
          (∃ r, (sh'.history.appendAll later).schemaAt t q = .ok r) ∧
          ∀ c : RowChange, c.tableId = t → c.position = q → ∀ table position,
            Dispatcher.dispatch ⟨s.tableIds⟩ (sh'.history.appendAll later) (.change c) ≠
              .error (.schemaUnknown table position)) ∧
      (sh.backend.isSome = true → live.Writable → s.startingOffset.Writable →
        ∃ blob, sh'.keptFor t = some blob ∧ SchemaRecord.ofBlob blob = .ok bound) := by
  obtain ⟨plan, hplan⟩ := make_of_configure hconfigure
  obtain ⟨live, rs, hlive, hbound, hhistory, hlast⟩ := Plan.incremental_live hplan ht href hkept
  have htable : (layoutFrom live s.startingOffset).tableId = t := by
    rw [SplitAssigner.layoutFrom_tableId]
    exact hnamed t live hlive
  have hreached := SplitAssigner.reached_layoutFrom live s.startingOffset
  have hnormal := SplitAssigner.normal_layoutFrom (hstored live hlive) hstart
  obtain ⟨x, hx, hsame⟩ : ∃ x ∈ sh'.history.records t,
      x.sameLayoutAt (layoutFrom live s.startingOffset) = true := by
    rw [hhistory, ← htable]
    exact SchemaHistory.exists_same_mem_appendAll hbound
  have hposition : x.position = (layoutFrom live s.startingOffset).position := by
    simp only [SchemaRecord.sameLayoutAt, Bool.and_eq_true, decide_eq_true_eq] at hsame
    exact hsame.1.1
  have hcovers : sh'.history.Covers t s.startingOffset :=
    ⟨x, hx, hposition ▸ hnormal, hposition ▸ hreached⟩
  refine ⟨live, layoutFrom live s.startingOffset, hlive, ?_, hreached, ⟨x, hx, hsame⟩,
    fun later q hq hfrom => ?_, fun hbacked hwritable hwritten => ?_⟩
  · unfold layoutFrom
    split <;> rfl
  · obtain ⟨r, hanswer⟩ := (hcovers.appendAll later).schemaAt hstart hq hfrom
    refine ⟨⟨r, hanswer⟩, fun c htable hposition => ?_⟩
    subst htable hposition
    exact Dispatcher.dispatch_ne_schemaUnknown hanswer
  · have hlegible := SplitAssigner.legible_layoutFrom hwritable.legible hwritten.legible
    exact ⟨_, hlast hbacked, SchemaRecord.ofBlob_toBlob hlegible⟩

/-- Accounts as a server reports them that counts transactions. -/
def reportedAccounts : SchemaRecord :=
  { accounts with position := .gtid ⟨[("a", [⟨1, 3⟩])]⟩ }

/-- A history that knows the accounts from a later file on, and a place where layouts are kept, with
nothing in it. -/
def reportedShared : Shared :=
  { server := { bankServer with schemas := [(reportedAccounts.tableId, reportedAccounts)] }
    history := SchemaHistory.empty.append { accounts with position := .binlog "log.2" 4 }
    backend := some [] }

lemma named_reportedShared : reportedShared.server.Named := by
  intro t r hr
  simp only [reportedShared, SortedMap.find?] at hr
  split at hr
  · cases hr
  · next h =>
    rw [← Option.some.inj hr, Std.LawfulEqOrd.eq_of_compare h]
  · cases hr

/-- The layout that the server reports at transactions covers a stream of files from its start on,
and it is kept. -/
theorem configure_covers_live_layout_reported :
    ∃ task' sh' bound, ({ config := {} } : Task).configure (bankSplit [accounts.tableId])
        reportedShared = (.ok (), task', sh') ∧
      bound.columns = accounts.columns ∧
      (∃ r, sh'.history.schemaAt accounts.tableId (.binlog "log.1" 5) = .ok r) ∧
      ∃ blob, sh'.keptFor accounts.tableId = some blob ∧ SchemaRecord.ofBlob blob = .ok bound := by
  have hconfigure : ({ config := {} } : Task).configure (bankSplit [accounts.tableId])
      reportedShared = (.ok (), _, _) := rfl
  have hstored : reportedShared.server.schemas.find? accounts.tableId = some reportedAccounts := rfl
  have hreported : reportedAccounts.position.Writable :=
    ⟨.parse (show GtidSet.parse "a:1-3" = _ by decide +kernel), by decide⟩
  have hwritable : reportedAccounts.Writable :=
    ⟨⟨by decide, by decide, by decide⟩, by decide, hreported, by decide⟩
  have hnormal : ∀ live, reportedShared.server.schemas.find? accounts.tableId = some live →
      live.position.Normal := by
    intro live hlive
    rw [← Option.some.inj (hstored.symm.trans hlive)]
    exact hreported.normal
  obtain ⟨live, bound, hlive, hbound, -, -, hanswers, hkept⟩ :=
    configure_covers_live_layout named_reportedShared hconfigure (.head _) rfl rfl trivial hnormal
  obtain rfl := Option.some.inj (hstored.symm.trans hlive)
  have hcolumns : bound.columns = accounts.columns := by
    rw [hbound]
    rfl
  have hanswer := (hanswers [] (.binlog "log.1" 5) trivial (by decide +kernel)).1
  exact ⟨_, _, bound, hconfigure, hcolumns, hanswer, hkept rfl hwritable trivial⟩

end Task
end Changefeed
