import Changefeed.Proofs.Fetch.Steps
import Changefeed.Proofs.Fetch.Turns

/-!
# What a reader makes of its records

The events of a split are told by the records of its producer alone: in one mode every change is an
event, in the other the changes are held and the watermark turns them into rows.  A reader gives out
these events in order, however the turns interleave.  What has been given out and what is ready are
the events of the records that were taken, and what is in the queue and what the producer goes on to
make are the records that are left.

This needs one thing of a producer: nothing comes behind its watermark.  A batch that had rows and
changes behind them would be given out in the wrong order.
-/

namespace Changefeed

/-- The last watermark among some records. -/
def lastMark (rs : List QueueRecord) : Option Offset := (rs.filterMap QueueRecord.mark?).getLast?

lemma lastMark_append (rs ss : List QueueRecord) :
    lastMark (rs ++ ss) = (lastMark ss).or (lastMark rs) := by
  rw [lastMark, List.filterMap_append, List.getLast?_append]
  rfl

/-! ## Events of records -/

namespace ReadMode

/-- What becomes of a record: the events that it makes, and the mode after it. -/
def take : ReadMode → QueueRecord → Outcome (List ChangeEvent × ReadMode)
  | .passThrough, r => .ok (changesOf [r], .passThrough)
  | .normalize n, .change e => (n.apply e).map fun n => ([], .normalize n)
  | .normalize n, .heartbeat _ => .ok ([], .normalize n)
  | .normalize n, .watermark position => .ok (n.finish position, .passThrough)

/-- What becomes of records, one after the other. -/
def takeAll (mode : ReadMode) : List QueueRecord → Outcome (List ChangeEvent × ReadMode)
  | [] => .ok ([], mode)
  | r :: rest =>
    match mode.take r with
    | .error f => .error f
    | .ok (es, mode) =>
      match mode.takeAll rest with
      | .error f => .error f
      | .ok (more, mode) => .ok (es ++ more, mode)

variable {mode mode' mode'' : ReadMode} {r : QueueRecord} {rs ss : List QueueRecord}
  {es more : List ChangeEvent}

lemma eq_passThrough (h : mode.isPassThrough = true) : mode = .passThrough := by
  cases mode with
  | passThrough => rfl
  | normalize n => cases h

lemma takeAll_cons (h : mode.take r = .ok (es, mode'))
    (hrest : mode'.takeAll rs = .ok (more, mode'')) :
    mode.takeAll (r :: rs) = .ok (es ++ more, mode'') := by
  rw [takeAll, h]
  dsimp only
  rw [hrest]

/-- What becomes of records and of those behind them. -/
lemma takeAll_append_eq (mode : ReadMode) (rs ss : List QueueRecord) :
    mode.takeAll (rs ++ ss) = (mode.takeAll rs).bind fun (es, mode') =>
      (mode'.takeAll ss).map fun (more, mode'') => (es ++ more, mode'') := by
  induction rs generalizing mode with
  | nil =>
    show mode.takeAll ss = (mode.takeAll ss).map fun (more, mode'') => ([] ++ more, mode'')
    cases mode.takeAll ss <;> rfl
  | cons r rs ih =>
    simp only [List.cons_append, takeAll]
    cases mode.take r with
    | error f => rfl
    | ok taken =>
      simp only [ih]
      cases taken.2.takeAll rs with
      | error f => rfl
      | ok rest =>
        show _ = (rest.2.takeAll ss).map _
        simp only [Except.bind]
        cases rest.2.takeAll ss with
        | error f => rfl
        | ok last => simp only [Except.map, List.append_assoc]

lemma takeAll_append (h : mode.takeAll rs = .ok (es, mode'))
    (hrest : mode'.takeAll ss = .ok (more, mode'')) :
    mode.takeAll (rs ++ ss) = .ok (es ++ more, mode'') := by
  rw [takeAll_append_eq, h]
  show (mode'.takeAll ss).map _ = _
  rw [hrest]
  rfl

lemma takeAll_append_error {f : Fault} (h : mode.takeAll rs = .ok (es, mode'))
    (hrest : mode'.takeAll ss = .error f) : mode.takeAll (rs ++ ss) = .error f := by
  rw [takeAll_append_eq, h]
  show (mode'.takeAll ss).map _ = _
  rw [hrest]
  rfl

lemma takeAll_append_of_error {f : Fault} (h : mode.takeAll rs = .error f)
    (ss : List QueueRecord) : mode.takeAll (rs ++ ss) = .error f := by
  rw [takeAll_append_eq, h]
  rfl

lemma takeAll_passThrough (rs : List QueueRecord) :
    passThrough.takeAll rs = .ok (changesOf rs, .passThrough) := by
  induction rs with
  | nil => rfl
  | cons r rs ih =>
    rw [takeAll_cons rfl ih, ← changesOf_append]
    rfl

/-- A record that is not a watermark makes no events where changes are held. -/
lemma take_unmarked {n : Normalizer} (hr : r.mark? = none)
    (h : (normalize n).take r = .ok (es, mode)) : es = [] ∧ ∃ n', mode = .normalize n' := by
  cases r with
  | change e =>
    cases happly : n.apply e with
    | error f => simp [take, happly, Except.map] at h
    | ok n' =>
      simp only [take, happly, Except.map, Except.ok.injEq, Prod.mk.injEq] at h
      exact ⟨h.1.symm, n', h.2.symm⟩
  | heartbeat position =>
    obtain ⟨rfl, rfl⟩ := Prod.mk.inj (Except.ok.inj h)
    exact ⟨rfl, n, rfl⟩
  | watermark position => simp [QueueRecord.mark?] at hr

/-- Where changes are held, there are no events before a watermark. -/
lemma takeAll_unmarked {n : Normalizer} (hrs : lastMark rs = none)
    (h : (normalize n).takeAll rs = .ok (es, mode)) : es = [] := by
  induction rs generalizing n es with
  | nil => exact (Prod.mk.inj (Except.ok.inj h)).1.symm
  | cons r rs ih =>
    rw [← List.singleton_append, lastMark_append, Option.or_eq_none_iff] at hrs
    have hmark : r.mark? = none := by
      have hlast := hrs.2
      cases r <;> first | rfl | cases hlast
    rw [takeAll] at h
    split at h
    · cases h
    · next es₁ mode₁ htake =>
      split at h
      · cases h
      · next es₂ mode₂ hrest =>
        obtain ⟨rfl, rfl⟩ := Prod.mk.inj (Except.ok.inj h)
        obtain ⟨rfl, n', rfl⟩ := take_unmarked hmark htake
        rw [ih hrs.1 hrest]
        rfl

end ReadMode

/-! ## Records that a reader takes -/

namespace Reader

variable {r r' : Reader} {rs : List QueueRecord} {out : List ChangeEvent} {m m' : Metrics}
  {f : Fault}

/-- What a reader makes of records: rows that are ready then, and events that it gives out at once.
-/
structure Absorbed (r : Reader) (rs : List QueueRecord) (rows out : List ChangeEvent)
    (r' : Reader) : Prop where
  taken : r.mode.takeAll rs = .ok (rows ++ out, r'.mode)
  pending : r'.pending = r.pending ++ rows
  watermark : r'.watermark = (lastMark rs).or r.watermark
  lifecycle : r'.lifecycle = r.lifecycle
  completion : r'.completion = r.completion
  done : r'.done = r.done
  maxBatchSize : r'.maxBatchSize = r.maxBatchSize
  apart : rows = [] ∨ out = []
  held : r'.mode.isPassThrough = false → rows = []
  short : out.length ≤ rs.length

lemma passAll_eq (r : Reader) (rs : List QueueRecord) :
    r.passAll rs =
      { r with
        offset := (rs.getLast?.map QueueRecord.position).getD r.offset,
        watermark := (lastMark rs).or r.watermark } := by
  induction rs using List.reverseRecOn with
  | nil => rfl
  | append_singleton rs record ih =>
    rw [passAll_append, ih, lastMark_append, List.getLast?_concat]
    cases record <;> rfl

lemma absorbed_passing (hr : r.Passing) (h : r.absorbAll m rs = (.ok out, r', m')) :
    Absorbed r rs [] out r' := by
  obtain ⟨m₁, hpass⟩ := absorbAll_passing hr m rs
  rw [hpass, Prod.mk.injEq, Prod.mk.injEq, Except.ok.injEq] at h
  obtain ⟨rfl, rfl, -⟩ := h
  rw [passAll_eq]
  refine ⟨?_, (List.append_nil _).symm, rfl, rfl, rfl, rfl, rfl, .inl rfl, fun _ => rfl,
    List.length_filterMap_le ..⟩
  rw [hr.mode]
  exact ReadMode.takeAll_passThrough rs

/-- A reader that holds changes takes a record that is not a watermark in, or refuses it. -/
lemma absorb_unmarked {n : Normalizer} {record : QueueRecord} (hr : r.mode = .normalize n)
    (hmark : record.mark? = none) :
    (∃ n' o, r.absorb record = .ok ([], { r with mode := .normalize n', offset := o }) ∧
        r.mode.take record = .ok ([], .normalize n')) ∨
      ∃ f, r.absorb record = .error f ∧ r.mode.take record = .error f := by
  rw [hr]
  cases record with
  | change e =>
    cases happly : n.apply e with
    | error f =>
      refine .inr ⟨f, by simp [absorb, absorbChange, hr, happly], ?_⟩
      simp [ReadMode.take, happly, Except.map]
    | ok n' =>
      refine .inl ⟨n', r.offset, by simp [absorb, absorbChange, hr, happly], ?_⟩
      simp [ReadMode.take, happly, Except.map]
  | heartbeat position => exact .inl ⟨n, position, by rw [← hr]; rfl, rfl⟩
  | watermark position => simp [QueueRecord.mark?] at hmark

lemma unmarked_or_only {record : QueueRecord} (hrs : MarkedLast (record :: rs)) :
    record.mark? = none ∨ ∃ w, record = .watermark w ∧ rs = [] := by
  cases rs with
  | cons next rs => exact .inl ((List.pairwise_cons.mp hrs).1 next (.head _))
  | nil =>
    cases record with
    | change e => exact .inl rfl
    | heartbeat position => exact .inl rfl
    | watermark w => exact .inr ⟨w, rfl, rfl⟩

/-- A reader that holds changes gives out nothing: at the watermark, its rows are ready. -/
lemma absorbed_holding {n : Normalizer} (hr : r.mode = .normalize n) (hrs : MarkedLast rs)
    (h : r.absorbAll m rs = (.ok out, r', m')) : ∃ rows, Absorbed r rs rows out r' := by
  induction rs generalizing r n m out with
  | nil =>
    obtain ⟨rfl, rfl⟩ : [] = out ∧ r = r' := by
      simpa [absorbAll] using And.intro (congrArg Prod.fst h) (congrArg (·.2.1) h)
    exact ⟨[], rfl, (List.append_nil _).symm, rfl, rfl, rfl, rfl, rfl, .inl rfl, fun _ => rfl,
      Nat.le_refl _⟩
  | cons record rs ih =>
    rw [absorbAll] at h
    rcases unmarked_or_only hrs with hmark | ⟨w, rfl, rfl⟩
    · rcases absorb_unmarked hr hmark with ⟨n', o, habsorb, htake⟩ | ⟨f, habsorb, -⟩
      · rw [habsorb] at h
        dsimp only at h
        split at h
        · next more r₁ m₁ hrest =>
          rw [Prod.mk.injEq, Prod.mk.injEq, Except.ok.injEq] at h
          obtain ⟨rfl, rfl, rfl⟩ := h
          obtain ⟨rows, hrows⟩ := ih rfl (List.pairwise_cons.mp hrs).2 hrest
          have htaken := ReadMode.takeAll_cons htake hrows.taken
          refine ⟨rows, htaken, hrows.pending, ?_, hrows.lifecycle,
            hrows.completion, hrows.done, hrows.maxBatchSize, hrows.apart, hrows.held,
            Nat.le_succ_of_le hrows.short⟩
          rw [hrows.watermark, ← List.singleton_append, lastMark_append, lastMark, lastMark,
            List.filterMap_cons_none hmark]
          simp
        · cases congrArg Prod.fst h
      · rw [habsorb] at h
        cases congrArg Prod.fst h
    · have hrows : r.absorbWatermark w =
          { r with
            mode := .passThrough, pending := r.pending ++ n.finish w, offset := w,
            watermark := some w } := by
        rw [absorbWatermark, hr]
      simp only [absorb, absorbAll, Prod.mk.injEq, Except.ok.injEq, hrows] at h
      obtain ⟨rfl, rfl, -⟩ := h
      refine ⟨n.finish w, ?_, rfl, rfl, rfl, rfl, rfl, rfl, .inr rfl, ?_, Nat.zero_le _⟩
      · rw [hr]
        exact ReadMode.takeAll_cons rfl rfl
      · simp [ReadMode.isPassThrough]

/-- Records are refused only before the watermark, and then nothing has become ready. -/
lemma absorbAll_refused {n : Normalizer} (hr : r.mode = .normalize n) (hrs : MarkedLast rs)
    (h : r.absorbAll m rs = (.error f, r', m')) :
    r.mode.takeAll rs = .error f ∧
      ∃ n' o, r' = { r with mode := .normalize n', offset := o } := by
  induction rs generalizing r n m with
  | nil => cases congrArg Prod.fst h
  | cons record rs ih =>
    rw [absorbAll] at h
    rcases unmarked_or_only hrs with hmark | ⟨w, rfl, rfl⟩
    · rw [ReadMode.takeAll]
      rcases absorb_unmarked hr hmark with ⟨n', o, habsorb, htake⟩ | ⟨f, habsorb, htake⟩
      · rw [habsorb] at h
        dsimp only at h
        split at h
        · cases congrArg Prod.fst h
        · next f₁ r₁ m₁ hrest =>
          rw [Prod.mk.injEq, Prod.mk.injEq, Except.error.injEq] at h
          obtain ⟨rfl, rfl, rfl⟩ := h
          obtain ⟨htaken, n'', o', rfl⟩ := ih rfl (List.pairwise_cons.mp hrs).2 hrest
          refine ⟨?_, n'', o', rfl⟩
          rw [htake]
          dsimp only at htaken ⊢
          rw [htaken]
      · rw [habsorb] at h
        obtain ⟨hf, hrm⟩ := Prod.mk.inj h
        obtain rfl := Except.error.inj hf
        obtain ⟨rfl, -⟩ := Prod.mk.inj hrm
        rw [htake]
        exact ⟨rfl, n, r.offset, by rw [← hr]⟩
    · simp [absorb, absorbAll] at h

end Reader
end Changefeed
