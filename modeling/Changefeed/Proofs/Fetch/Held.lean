import Changefeed.Proofs.Fetch.Normalizer
import Changefeed.Proofs.Fetch.Reading

/-!
# Reading what is held

A reader that holds changes delivers nothing until the watermark, however the output is cut into
batches.  At the watermark it turns into a reader that lets changes pass and has the held rows
ready, so what it delivers in the end are the rows that its normalizer gives out.
-/

namespace Changefeed

namespace Reader

variable {r : Reader} {n n' : Normalizer} {es : List ChangeEvent}

/-- The reader holds changes, has nothing ready and has not come to an end. -/
structure Holding (r : Reader) (n : Normalizer) : Prop where
  mode : r.mode = .normalize n
  ongoing : r.done = false
  reading : r.lifecycle.state = .reading
  pending : r.pending = []

/-- Changes that are held go to the normalizer. -/
lemma absorbAll_held (h : r.mode = .normalize n) (m : Metrics) (happly : n.applyAll es = .ok n')
    (rs : List QueueRecord) :
    r.absorbAll m (es.map .change ++ rs) = absorbAll { r with mode := .normalize n' } m rs := by
  induction es generalizing r n with
  | nil =>
    obtain rfl := Except.ok.inj happly
    rw [← h]
    rfl
  | cons e es ih =>
    rw [Normalizer.applyAll] at happly
    cases hn : n.apply e with
    | error f =>
      rw [hn] at happly
      cases happly
    | ok n₁ =>
      rw [hn] at happly
      have habsorb : r.absorb (.change e) = .ok ([], { r with mode := .normalize n₁ }) := by
        simp [absorb, absorbChange, h, hn]
      rw [List.map_cons, List.cons_append, absorbAll, habsorb]
      dsimp only [countRecord]
      rw [ih rfl happly]
      generalize absorbAll _ m rs = result
      obtain ⟨_ | out, r', m'⟩ := result <;> rfl

lemma absorbAll_released (h : r.mode = .normalize n) (m : Metrics)
    (happly : n.applyAll es = .ok n') (w : Offset) :
    r.absorbAll m (es.map .change ++ [.watermark w]) =
      (.ok [], { r with
        mode := .passThrough, pending := r.pending ++ n'.finish w, offset := w,
        watermark := some w }, m) := by
  rw [absorbAll_held h m happly]
  rfl

end Reader

namespace Session

variable {s : Session} {sh : Shared} {n n' : Normalizer} {es : List ChangeEvent} {w : Offset}
  {source : Shared}

/-- What is held has been made ready: the reader lets changes pass, and nothing more will come. -/
structure Released (s : Session) (rows : List ChangeEvent) (w : Offset) (source : Shared)
    (s' : Session) (sh' : Shared) : Prop where
  attached : s'.Attached
  passing : s'.reader.Passing
  pending : s'.reader.pending = rows
  watermark : s'.reader.watermark = some w
  splitId : s'.reader.splitId = s.reader.splitId
  output : s'.output sh' = ⟨[], .ends, source⟩

/-- Records taken off the front of changes with a watermark behind them are some of the changes, or
all of them and the watermark. -/
lemma taken_cases {rs rest : List QueueRecord}
    (h : rs ++ rest = es.map .change ++ [.watermark w]) :
    (∃ es₁ es₂, es = es₁ ++ es₂ ∧ rs = es₁.map .change ∧ rest = es₂.map .change ++ [.watermark w]) ∨
      rs = es.map .change ++ [.watermark w] ∧ rest = [] := by
  rcases List.append_eq_append_iff.mp h with ⟨mid, hes, hrest⟩ | ⟨mid, hrs, hmark⟩
  · obtain ⟨es₁, es₂, rfl, hes₁, hes₂⟩ := List.map_eq_append_iff.mp hes
    exact .inl ⟨es₁, es₂, rfl, hes₁.symm, by rw [hrest, ← hes₂]⟩
  · cases mid with
    | nil =>
      exact .inl
        ⟨es, [], (List.append_nil es).symm, by simpa using hrs, by simpa using hmark.symm⟩
    | cons r mid =>
      obtain ⟨rfl, hnil⟩ := List.cons.inj hmark
      obtain ⟨rfl, rfl⟩ := List.append_eq_nil_iff.mp hnil.symm
      exact .inr ⟨hrs, rfl⟩

/-- What becomes of records that a reader that holds changes has taken: it holds more of them, or
it has released them all. -/
lemma absorbAll_taken {s₁ : Session} {sh₁ : Shared} (hr : s.reader.Holding n)
    (happly : n.applyAll es = .ok n') (hattached : s₁.Attached) (hreader : s₁.reader = s.reader)
    {rs : List QueueRecord}
    (hout : (s₁.output sh₁).after rs = ⟨es.map .change ++ [.watermark w], .ends, source⟩) :
    ∃ reader m, s₁.reader.absorbAll sh₁.metrics rs = (.ok [], reader, m) ∧
      ((∃ n₁ es₂, reader.Holding n₁ ∧ reader.splitId = s.reader.splitId ∧
          n₁.applyAll es₂ = .ok n' ∧
          s₁.output sh₁ = ⟨es₂.map .change ++ [.watermark w], .ends, source⟩) ∨
        Released s (n'.finish w) w source { s₁ with reader } { sh₁ with metrics := m }) := by
  obtain ⟨hrecords, hfinish, hsource⟩ := Output.mk.inj hout
  rcases taken_cases hrecords with ⟨es₁, es₂, rfl, rfl, hrest⟩ | ⟨rfl, hrest⟩
  · obtain ⟨n₁, happly₁, happly₂⟩ := Normalizer.applyAll_append_ok happly
    have habsorb := Reader.absorbAll_held hr.mode sh₁.metrics happly₁ []
    rw [List.append_nil, ← hreader] at habsorb
    refine ⟨{ s₁.reader with mode := .normalize n₁ }, sh₁.metrics, habsorb, .inl ?_⟩
    rw [hreader]
    refine ⟨n₁, es₂, ⟨rfl, hr.ongoing, hr.reading, hr.pending⟩, rfl, happly₂, ?_⟩
    rw [← hrest, ← hfinish, ← hsource]
  · refine ⟨_, _, by rw [hreader, Reader.absorbAll_released hr.mode _ happly], .inr ?_⟩
    refine ⟨hattached, ⟨rfl, hr.ongoing, hr.reading⟩, ?_, rfl, rfl, ?_⟩
    · simp [hr.pending]
    · have hempty : s₁.output sh₁ = ⟨[], .ends, source⟩ := by
        rw [← hrest, ← hfinish, ← hsource]
      exact (output_metrics ..).trans hempty

/-- The reader that holds changes reads until it has released them. -/
lemma nextBatch_holding (hs : s.Attached) (hr : s.reader.Holding n)
    (happly : n.applyAll es = .ok n')
    (hout : s.output sh = ⟨es.map .change ++ [.watermark w], .ends, source⟩) :
    ∃ s' sh', Released s (n'.finish w) w source s' sh' ∧
      (s.nextBatch sh = s'.nextBatch sh' ∨ s.nextBatch sh = (.events [], s', sh')) := by
  have hmore : ∀ es : List ChangeEvent, es.map QueueRecord.change ++ [.watermark w] ≠ [] := by simp
  fun_induction nextBatch s sh generalizing n es with
  | case1 s sh hpending => exact absurd hr.pending hpending
  | case2 s sh _ hdone => simp [hr.ongoing] at hdone
  | case3 s sh _ _ s₁ sh₁ hpoll =>
    cases hs.polls hpoll with
    | nothing _ _ hnone => exact absurd (congrArg Output.records (hout.symm.trans hnone)) (hmore es)
  | case4 s sh _ _ s₁ sh₁ hpoll =>
    cases hs.polls hpoll with
    | ended _ _ hnone => exact absurd (congrArg Output.records (hout.symm.trans hnone)) (hmore es)
  | case5 s sh _ _ f s₁ sh₁ hpoll =>
    cases hs.polls hpoll with
    | failed _ hnone => exact absurd (congrArg Output.records (hout.symm.trans hnone)) (hmore es)
  | case6 s sh _ _ s₁ sh₁ hpoll =>
    cases hs.polls hpoll with
    | records hrs => exact absurd rfl hrs
  | case7 s sh _ _ s₁ sh₁ rs hpoll hrs f reader m habsorb =>
    cases hs.polls hpoll with
    | records _ hattached hreader hrest =>
      obtain ⟨_, _, hok, -⟩ := absorbAll_taken hr happly hattached hreader (hrest.trans hout)
      cases hok.symm.trans habsorb
  | case8 s sh _ _ s₁ sh₁ rs hpoll hrs e out reader m habsorb =>
    cases hs.polls hpoll with
    | records _ hattached hreader hrest =>
      obtain ⟨_, _, hok, -⟩ := absorbAll_taken hr happly hattached hreader (hrest.trans hout)
      cases hok.symm.trans habsorb
  | case9 s sh _ _ s₁ sh₁ rs hpoll hrs reader m habsorb hpass =>
    cases hs.polls hpoll with
    | records _ hattached hreader hrest =>
      obtain ⟨reader', m', hok, hcases⟩ :=
        absorbAll_taken hr happly hattached hreader (hrest.trans hout)
      obtain ⟨-, hrm⟩ := Prod.mk.inj (hok.symm.trans habsorb)
      obtain ⟨rfl, rfl⟩ := Prod.mk.inj hrm
      rcases hcases with ⟨n₁, es₂, hholding, -⟩ | hreleased
      · simp [hholding.mode, ReadMode.isPassThrough] at hpass
      · exact ⟨_, _, hreleased, .inr rfl⟩
  | case10 s sh _ _ s₁ sh₁ rs hpoll hrs reader m habsorb hpass ih =>
    cases hs.polls hpoll with
    | records _ hattached hreader hrest =>
      obtain ⟨reader', m', hok, hcases⟩ :=
        absorbAll_taken hr happly hattached hreader (hrest.trans hout)
      obtain ⟨-, hrm⟩ := Prod.mk.inj (hok.symm.trans habsorb)
      obtain ⟨rfl, rfl⟩ := Prod.mk.inj hrm
      rcases hcases with ⟨n₁, es₂, hholding, hid, happly₂, hout₂⟩ | hreleased
      · obtain ⟨s', sh', hreleased, hnext⟩ :=
          ih hattached hholding happly₂ ((output_metrics ..).trans hout₂)
        exact ⟨s', sh', { hreleased with splitId := hreleased.splitId.trans hid }, hnext⟩
      · exact ⟨_, _, hreleased, .inl rfl⟩

lemma drain_eq (s : Session) (sh : Shared) :
    s.drain sh = match s.nextBatch sh with
      | (.events es, s, sh) =>
        (es :: (s.drain sh).1, (s.drain sh).2)
      | (.idle, s, sh) => ([], .idle, s, sh)
      | (.ended, s, sh) => ([], .ended, s, sh)
      | (.failed f, s, sh) => ([], .failed f, s, sh) := by
  rw [drain]
  rcases s.nextBatch sh with ⟨_ | _ | _ | _, _, _⟩ <;> rfl

/-- A reader that holds changes delivers the final rows, and completes its split at the watermark.
-/
lemma drain_holding (hs : s.Attached) (hr : s.reader.Holding n) (happly : n.applyAll es = .ok n')
    (hout : s.output sh = ⟨es.map .change ++ [.watermark w], .ends, source⟩) :
    (s.drain sh).1.flatten = n'.finish w ∧ (s.drain sh).2.1 = .ended ∧
      (s.drain sh).2.2.1.reader.completion = some ⟨s.reader.splitId, some w⟩ ∧
      (s.drain sh).2.2.2.source = source := by
  obtain ⟨s', sh', hreleased, hnext⟩ := nextBatch_holding hs hr happly hout
  have hdrained := drain_drained s' sh' hreleased.attached hreleased.passing
  have hsame : (s.drain sh).1.flatten = (s'.drain sh').1.flatten ∧
      (s.drain sh).2 = (s'.drain sh').2 := by
    rcases hnext with hnext | hnext
    · rw [drain_eq s, hnext, ← drain_eq]
      exact ⟨rfl, rfl⟩
    · rw [drain_eq s, hnext]
      exact ⟨rfl, rfl⟩
  rw [hsame.1, hsame.2, hdrained.events, hdrained.stop_eq, hdrained.source, hreleased.output,
    hdrained.completion (by rw [hreleased.output])]
  rw [hreleased.output]
  refine ⟨by simp [hreleased.pending], rfl, ?_, rfl⟩
  simp [Reader.report, hreleased.watermark, hreleased.splitId]

/-- A reader that lets changes pass delivers those before the watermark, and completes its split at
the watermark. -/
lemma drain_passing (hs : s.Attached) (hr : s.reader.Passing) (hpending : s.reader.pending = [])
    (hout : s.output sh = ⟨es.map .change ++ [.watermark w], .ends, source⟩) :
    (s.drain sh).1.flatten = es ∧ (s.drain sh).2.1 = .ended ∧
      (s.drain sh).2.2.1.reader.completion = some ⟨s.reader.splitId, some w⟩ ∧
      (s.drain sh).2.2.2.source = source := by
  have hdrained := drain_drained s sh hs hr
  have hchanges : changesOf (es.map .change ++ [.watermark w]) = es := by
    rw [changesOf_append, changesOf, List.filterMap_map]
    simp [Function.comp_def, QueueRecord.change?, changesOf]
  rw [hdrained.events, hdrained.stop_eq, hdrained.source, hdrained.completion (by rw [hout]), hout,
    hpending, hchanges]
  refine ⟨rfl, rfl, ?_, rfl⟩
  have hid : (s.reader.passAll (es.map .change)).splitId = s.reader.splitId :=
    congrArg Lifecycle.splitId (Reader.passAll_lifecycle s.reader (es.map .change))
  rw [Reader.passAll_append, ← hid]
  rfl

end Session
end Changefeed
