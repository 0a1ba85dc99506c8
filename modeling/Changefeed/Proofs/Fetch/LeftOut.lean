import Changefeed.Proofs.Fetch.Evolution
import Changefeed.Proofs.Fetch.Steps
import Changefeed.Proofs.Key

/-!
# The changes that a stream leaves out

A stream leaves a change out, and pushes a heartbeat in its place, when the finished split that
covers the row of the change has reached the position of the change.  Where no row belongs to two
splits it does not matter which of them is asked, and a split that has reached a change has its
effect on the rows it covers.

The row of an update is the one after it.  An update that moves a row from one split to another one
is left out when the split that the row has come to has reached it, also when the split that the row
has left ended before: that split has delivered the row where it was, and nothing takes it away.
There is no other way for a stream to leave out what a finished split lacks.
-/

namespace Changefeed

namespace FinishedSplit

variable {f g : FinishedSplit} {t : TableId}

/-- The row of a table belongs to the split. -/
def coversRow (f : FinishedSplit) (t : TableId) (row : Json.Object) : Bool :=
  (row.find? f.keyColumn).any (f.covers t)

/-- The image of a row is there, and the row belongs to the split. -/
def coversImage (f : FinishedSplit) (t : TableId) (image : Option Json.Object) : Bool :=
  image.any (f.coversRow t)

lemma isSome_of_coversImage {image : Option Json.Object} (h : f.coversImage t image = true) :
    image.isSome := by
  cases image with
  | none => cases h
  | some row => rfl

/-- No row belongs to both splits. -/
def Apart (f g : FinishedSplit) : Prop :=
  ∀ t row, f.coversRow t row = true → g.coversRow t row = false

lemma Apart.symm (h : f.Apart g) : g.Apart f := by
  intro t row hg
  by_contra hf
  rw [Bool.not_eq_false] at hf
  rw [h t row hf] at hg
  cases hg

/-- Splits of one key column are apart when no key lies in both ranges. -/
lemma apart_of_ranges (hcolumn : f.keyColumn = g.keyColumn)
    (hranges : ∀ key, f.keyRange.contains key = true → g.keyRange.contains key = false) :
    f.Apart g := by
  intro t row hf
  unfold coversRow at hf ⊢
  rw [← hcolumn]
  cases hkey : row.find? f.keyColumn with
  | none => rfl
  | some key =>
    rw [hkey, Option.any_some, covers, Bool.and_eq_true] at hf
    rw [Option.any_some, covers, hranges key hf.2, Bool.and_false]

/-- Of splits that are apart one alone covers a row. -/
lemma eq_of_covers {finished : List FinishedSplit} (hapart : finished.Pairwise Apart)
    (hf : f ∈ finished) (hg : g ∈ finished) {image : Option Json.Object}
    (hfrow : f.coversImage t image = true) (hgrow : g.coversImage t image = true) : f = g := by
  by_contra hne
  have : Std.Symm Apart := ⟨fun _ _ => Apart.symm⟩
  cases image with
  | none => cases hfrow
  | some row =>
    have hother := hapart.forall hf hg hne t row hfrow
    rw [coversImage, Option.any_some, hother] at hgrow
    cases hgrow

lemma isPast_eq_false_iff {position : Offset} (hmark : f.watermark.Normal)
    (hposition : position.Normal) :
    f.isPast position = false ↔ f.watermark.reached position = true := by
  rw [Offset.reached_iff, Offset.after_iff_before hposition hmark]
  simp only [isPast, Offset.before, Bool.not_eq_eq_eq_not, Bool.not_false, Bool.or_eq_true,
    decide_eq_true_eq, Offset.compare?_eq_iff]
  rw [or_comm, eq_comm]

/-- A split that covers an image of a change, and not its row, covers the image before an update. -/
lemma update_of_covers {e : ChangeEvent} (himaged : e.Imaged)
    (hrow : f.coversImage t e.row = false)
    (hcovers : f.coversImage t e.before = true ∨ f.coversImage t e.after = true) :
    e.kind = .update ∧ f.coversImage t e.before = true ∧ f.coversImage t e.after = false := by
  have hafter : f.coversImage t e.after = false := by
    by_contra hafter
    rw [Bool.not_eq_false] at hafter
    rw [himaged.row_of_after (isSome_of_coversImage hafter), hafter] at hrow
    cases hrow
  have hbefore : f.coversImage t e.before = true := by
    rcases hcovers with hbefore | hcovered
    · exact hbefore
    · exact absurd (hafter.symm.trans hcovered) Bool.false_ne_true
  refine ⟨?_, hbefore, hafter⟩
  by_contra hkind
  rw [himaged.row_of_before (isSome_of_coversImage hbefore) hkind, hbefore] at hrow
  cases hrow

/-- An update takes a row out of the split, which ended before the update. -/
def Loses (g : FinishedSplit) (e : ChangeEvent) : Prop :=
  e.kind = .update ∧ g.coversImage e.tableId e.before = true ∧
    g.coversImage e.tableId e.after = false ∧ g.watermark.before e.position = true

end FinishedSplit

namespace StreamJob

variable {job : StreamJob} {e : ChangeEvent}

/-! ## The filter -/

lemma covering_eq (job : StreamJob) (e : ChangeEvent) :
    job.covering e = job.finished.find? fun f => f.coversImage e.tableId e.row := by
  unfold covering FinishedSplit.coversImage FinishedSplit.coversRow ChangeEvent.keyValue
  cases e.row <;> rfl

/-- A change is left out exactly when a split that covers its row has reached it. -/
lemma shouldEmit_eq_false_iff (hapart : job.finished.Pairwise FinishedSplit.Apart)
    (hmarks : ∀ f ∈ job.finished, f.watermark.Normal) (hposition : e.position.Normal) :
    job.shouldEmit e = false ↔
      ∃ f ∈ job.finished, f.coversImage e.tableId e.row = true ∧
        f.watermark.reached e.position = true := by
  rw [shouldEmit, covering_eq]
  cases hfind : job.finished.find? fun f => f.coversImage e.tableId e.row with
  | none =>
    have hnone := List.find?_eq_none.mp hfind
    constructor
    · intro h
      cases h
    · rintro ⟨f, hf, hcovers, -⟩
      exact absurd hcovers (hnone f hf)
  | some f =>
    have hf := List.mem_of_find?_eq_some hfind
    have hcovers := List.find?_some hfind
    dsimp only
    rw [FinishedSplit.isPast_eq_false_iff (hmarks f hf) hposition]
    constructor
    · intro hreached
      exact ⟨f, hf, hcovers, hreached⟩
    · rintro ⟨g, hg, hgcovers, hreached⟩
      rwa [FinishedSplit.eq_of_covers hapart hf hg hcovers hgcovers]

/-- A split that covers a row of a change that is left out, and ended before it, has lost the row to
an update. -/
lemma loses_of_left_out (hapart : job.finished.Pairwise FinishedSplit.Apart)
    (hmarks : ∀ f ∈ job.finished, f.watermark.Normal) (hposition : e.position.Normal)
    (himaged : e.Imaged) (hleft : job.shouldEmit e = false) {g : FinishedSplit}
    (hg : g ∈ job.finished)
    (hcovers : g.coversImage e.tableId e.before = true ∨ g.coversImage e.tableId e.after = true)
    (hbefore : g.watermark.before e.position = true) : g.Loses e := by
  obtain ⟨f, hf, hfrow, hreached⟩ := (shouldEmit_eq_false_iff hapart hmarks hposition).mp hleft
  -- the split that covers the row has reached the change, so it is not the one that ended before
  have hrow : g.coversImage e.tableId e.row = false := by
    by_contra hgrow
    rw [Bool.not_eq_false] at hgrow
    obtain rfl := FinishedSplit.eq_of_covers hapart hf hg hfrow hgrow
    rw [Offset.not_reached_of_before (hmarks f hf) hposition hbefore] at hreached
    cases hreached
  obtain ⟨hkind, hgbefore, hgafter⟩ := FinishedSplit.update_of_covers himaged hrow hcovers
  exact ⟨hkind, hgbefore, hgafter, hbefore⟩

/-! ## The records of the log -/

/-- What a trace has in a place is made of the record in that place of the log, with what the
history has learnt of those before it. -/
lemma streamed_of_trace {h : SchemaHistory} {records : List LogRecord} {n : Nat}
    {q : QueueRecord} (hq : (job.trace h records).1[n]? = some q) :
    ∃ r d h', records[n]? = some r ∧
      job.dispatcher.dispatch (job.dispatcher.learnAll h (records.take n)) r = .ok (d, h') ∧
      q = Producer.streamed job r.position d := by
  induction records generalizing h n with
  | nil => simp [trace] at hq
  | cons r rest ih =>
    rw [trace] at hq
    split at hq
    · simp at hq
    · cases hdispatch : job.dispatcher.dispatch h r with
      | error f => simp [hdispatch] at hq
      | ok result =>
        obtain ⟨d, h'⟩ := result
        have hlearnt := Dispatcher.history_of_dispatch hdispatch
        simp only [hdispatch] at hq
        cases n with
        | zero =>
          refine ⟨r, d, h', rfl, hdispatch, ?_⟩
          split at hq <;> exact (Option.some.inj hq).symm
        | succ n =>
          split at hq
          · simp at hq
          · rw [List.getElem?_cons_succ] at hq
            rw [List.getElem?_cons_succ, List.take_succ_cons, Dispatcher.learnAll, List.foldl_cons,
              ← hlearnt]
            exact ih hq

/-- A stream that has come to a change has read it, with the layouts that the history has learnt
before it, and has pushed it or left it out. -/
lemma decoded_of_output {log : LogStream} {sh : Shared} {n : Nat} {c : RowChange}
    {q : QueueRecord} (hc : log.records[n]? = some (.change c))
    (hcaptured : job.dispatcher.captures c.tableId = true)
    (hq : ((Producer.stream job log).output sh).records[n]? = some q) :
    ∃ e, Dispatcher.decode (job.dispatcher.learnAll sh.history (log.records.take n)) c = .ok e ∧
      e.Imaged ∧ e.position = c.position ∧
      q = if job.shouldEmit e then .change e else .heartbeat e.position := by
  have hfollows := (Producer.output_stream_follows job log sh).1
  have htrace : (job.trace sh.history log.records).1[n]? = some q := by
    obtain ⟨hn, rfl⟩ := List.getElem?_eq_some_iff.mp hq
    exact List.prefix_iff_getElem?.mp hfollows.records n hn
  obtain ⟨r, d, h', hr, hdispatch, rfl⟩ := streamed_of_trace htrace
  obtain rfl : .change c = r := Option.some.inj (hc.symm.trans hr)
  have hdecode := hdispatch
  simp only [Dispatcher.dispatch, if_pos hcaptured] at hdecode
  cases he : Dispatcher.decode (job.dispatcher.learnAll sh.history (log.records.take n)) c with
  | error f => simp [he, Except.map] at hdecode
  | ok e =>
    simp only [he, Except.map, Except.ok.injEq, Prod.mk.injEq] at hdecode
    obtain ⟨rfl, -⟩ := hdecode
    have hposition := position_of_decode he
    refine ⟨e, rfl, imaged_of_dispatch hdispatch, hposition, ?_⟩
    rw [Producer.streamed, hposition]
    rfl

/-- A stream leaves a change out exactly when a finished split that covers its row has reached it.
No split that covers the row before the change or the row after it has then ended before the
change, unless the change is an update that takes the row out of such a split. -/
theorem left_out_iff (job : StreamJob) (hapart : job.finished.Pairwise FinishedSplit.Apart)
    (hmarks : ∀ f ∈ job.finished, f.watermark.Normal) (log : LogStream) (sh : Shared) {n : Nat}
    {c : RowChange} (hc : log.records[n]? = some (.change c)) (hposition : c.position.Normal)
    (hcaptured : job.dispatcher.captures c.tableId = true) {q : QueueRecord}
    (hq : ((Producer.stream job log).output sh).records[n]? = some q) :
    ∃ e, Dispatcher.decode (job.dispatcher.learnAll sh.history (log.records.take n)) c = .ok e ∧
      (q = .change e ∨ q = .heartbeat e.position) ∧
      (q ≠ .change e ↔ ∃ f ∈ job.finished, f.coversImage e.tableId e.row = true ∧
        f.watermark.reached e.position = true) ∧
      (q ≠ .change e →
        ((∀ g ∈ job.finished,
            g.coversImage e.tableId e.before = true ∨ g.coversImage e.tableId e.after = true →
              g.watermark.before e.position = false) ↔
          ∀ g ∈ job.finished, ¬g.Loses e)) := by
  obtain ⟨e, hdecode, himaged, hat, rfl⟩ := decoded_of_output hc hcaptured hq
  rw [← hat] at hposition
  have hleft : (if job.shouldEmit e then QueueRecord.change e else .heartbeat e.position) ≠
      .change e ↔ job.shouldEmit e = false := by
    cases job.shouldEmit e <;> simp
  refine ⟨e, hdecode, ?_, ?_, fun hout => ?_⟩
  · cases job.shouldEmit e
    · exact .inr rfl
    · exact .inl rfl
  · exact hleft.trans (shouldEmit_eq_false_iff hapart hmarks hposition)
  · constructor
    · intro hheld g hg hloses
      obtain ⟨-, hbefore, -, hended⟩ := hloses
      exact Bool.false_ne_true ((hheld g hg (.inl hbefore)).symm.trans hended)
    · intro hkept g hg hcovers
      by_contra hended
      rw [Bool.not_eq_false] at hended
      exact hkept g hg
        (loses_of_left_out hapart hmarks hposition himaged (hleft.mp hout) hg hcovers hended)

/-! ## An order that gets another number -/

/-- Orders in two splits: those below ten were read up to a later position than the others. -/
def ordersJob : StreamJob where
  dispatcher := ⟨[⟨"shop", "orders"⟩]⟩
  ending := none
  finished :=
    [{ tableId := ⟨"shop", "orders"⟩, keyColumn := "id", keyRange := .ofInts none (some 10)
       watermark := .binlog "log.1" 300 },
     { tableId := ⟨"shop", "orders"⟩, keyColumn := "id", keyRange := .ofInts (some 10) none
       watermark := .binlog "log.1" 100 }]

/-- The layout of the orders. -/
def ordersLayout : SchemaRecord :=
  .make ⟨"shop", "orders"⟩ [{ name := "id", typeName := "int", position := 1, primaryKey := true }]
    (.binlog "log.1" 4)

/-- The fifteenth order gets the fifth number, between the two positions. -/
def renumbered : RowChange :=
  .update (.binlog "log.1" 200) ⟨"shop", "orders"⟩ [.number (.int 15)] [.number (.int 5)]

lemma apart_orders : ordersJob.finished.Pairwise FinishedSplit.Apart := by
  refine List.pairwise_pair.mpr (FinishedSplit.apart_of_ranges rfl fun key hkey => ?_)
  exact KeyRange.not_contains_of_below hkey

/-- The change is left out, as the split that the new number belongs to has it.  The order stays
under the old number: the split that this one belongs to ended before. -/
theorem left_out_iff_renumbered :
    let log : LogStream := { records := [.change renumbered], endsWhenDrained := false }
    let sh : Shared := { server := {}, history := .append .empty ordersLayout }
    ((Producer.stream ordersJob log).output sh).records[0]? =
        some (.heartbeat (.binlog "log.1" 200)) ∧
      ∃ e, Dispatcher.decode sh.history renumbered = .ok e ∧
        (∃ f ∈ ordersJob.finished, f.coversImage e.tableId e.row = true ∧
          f.watermark.reached e.position = true) ∧
        ¬∀ g ∈ ordersJob.finished,
          g.coversImage e.tableId e.before = true ∨ g.coversImage e.tableId e.after = true →
            g.watermark.before e.position = false := by
  intro log sh
  have hq : ((Producer.stream ordersJob log).output sh).records[0]? =
      some (.heartbeat (.binlog "log.1" 200)) := by
    rw [(Producer.output_stream_uninterrupted ordersJob ⟨rfl, rfl⟩ sh).1]
    rfl
  have hmarks : ∀ f ∈ ordersJob.finished, f.watermark.Normal := by
    simp [ordersJob, Offset.Normal]
  obtain ⟨e, hdecode, -, hleft, hheld⟩ :=
    left_out_iff ordersJob apart_orders hmarks log sh (n := 0) rfl trivial rfl hq
  refine ⟨hq, e, hdecode, hleft.mp nofun, fun h => ?_⟩
  obtain rfl := Except.ok.inj (hdecode.symm.trans rfl)
  exact (hheld nofun).mp h _ (.tail _ (.head _)) ⟨rfl, rfl, rfl, rfl⟩

end StreamJob
end Changefeed
