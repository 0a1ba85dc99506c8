import Mathlib.Data.List.TakeWhile
import Changefeed.Proofs.Fetch.Due
import Changefeed.Proofs.Schema.History

/-!
# Layouts that change on the way

A history that is extended by the layout changes of a log, in the order of their positions, holds
for each table the layout it began with and behind it the changes of that table, in order.  The
first of them may stand at the very position of the layout it began with and state it once more; it
is passed over then, and a row is read alike with either, as they have the same columns.

What matters for a row is the last change of its table before it, and the first layout when there is
none.  The changes behind the row do not matter even when the history has learnt them: they stand at
positions that the row has not reached.
-/

namespace Changefeed

/-- The layout changes of a table among some records. -/
def layoutChanges (t : TableId) (records : List LogRecord) : List SchemaRecord :=
  records.filterMap fun
    | .schemaChange r => if r.tableId = t then some r else none
    | .change _ | .heartbeat _ => none

lemma layoutChanges_append (t : TableId) (records more : List LogRecord) :
    layoutChanges t (records ++ more) = layoutChanges t records ++ layoutChanges t more :=
  List.filterMap_append

lemma mem_layoutChanges {t : TableId} {records : List LogRecord} {r : SchemaRecord} :
    r ∈ layoutChanges t records ↔ .schemaChange r ∈ records ∧ r.tableId = t := by
  unfold layoutChanges
  rw [List.mem_filterMap]
  constructor
  · rintro ⟨x, hx, hr⟩
    cases x with
    | schemaChange s =>
      dsimp only at hr
      split at hr
      · next ht => exact Option.some.inj hr ▸ ⟨hx, ht⟩
      · cases hr
    | change c => cases hr
    | heartbeat position => cases hr
  · rintro ⟨hr, ht⟩
    exact ⟨.schemaChange r, hr, if_pos ht⟩

/-- The layout of a table behind some records: its last change, or the one before all of them. -/
def layoutBehind (first : SchemaRecord) (records : List LogRecord) (t : TableId) : SchemaRecord :=
  (layoutChanges t records).getLast?.getD first

lemma layoutBehind_append (first : SchemaRecord) (records more : List LogRecord) (t : TableId) :
    layoutBehind first (records ++ more) t =
      layoutBehind (layoutBehind first records t) more t := by
  unfold layoutBehind
  rw [layoutChanges_append, List.getLast?_append]
  cases (layoutChanges t more).getLast? <;> rfl

lemma layoutBehind_of_changed {first first' : SchemaRecord} {records : List LogRecord}
    {t : TableId} (h : layoutChanges t records ≠ []) :
    layoutBehind first records t = layoutBehind first' records t := by
  unfold layoutBehind
  rw [List.getLast?_eq_some_getLast h]
  rfl

lemma layoutBehind_of_unchanged {first : SchemaRecord} {records : List LogRecord} {t : TableId}
    (h : layoutChanges t records = []) : layoutBehind first records t = first := by
  rw [layoutBehind, h]
  rfl

/-! ## Histories -/

namespace SchemaRecord

variable {first r : SchemaRecord} {rs : List SchemaRecord}

/-- A layout later than all others is added behind them. -/
lemma addTo_of_later (h : ∀ s ∈ rs, s.position.before r.position = true) : r.addTo rs = rs ++ [r] := by
  have hnew : rs.any (·.sameLayoutAt r) = false := by
    rw [List.any_eq_false]
    intro s hs hsame
    have hbefore := h s hs
    have hposition : s.position = r.position := by
      simp only [sameLayoutAt, Bool.and_eq_true, decide_eq_true_eq] at hsame
      exact hsame.1.1
    rw [hposition] at hbefore
    simp at hbefore
  have hinsert : r.insertByPosition rs = rs ++ [r] := by
    clear hnew
    induction rs with
    | nil => rfl
    | cons s rs ih =>
      have hs : s.position.after r.position = false := by
        simpa using Offset.not_after_of_before (h s List.mem_cons_self)
      rw [insertByPosition, hs, ih fun x hx => h x (List.mem_cons_of_mem _ hx)]
      rfl
  rw [addTo, hnew, hinsert]
  rfl

lemma addTo_singleton (hfirst : first.position.Normal) (hr : r.position.Normal)
    (hreached : r.position.reached first.position = true) :
    r.addTo [first] = first :: [r].dropWhile first.sameLayoutAt := by
  by_cases hsame : first.sameLayoutAt r = true
  · rw [addTo_of_mem (.inr ⟨first, List.mem_singleton_self first, hsame⟩)]
    simp [hsame]
  · have hafter := Offset.not_after_of_reached hfirst hr hreached
    simp [addTo, insertByPosition, hsame, hafter]

/-- A layout that is later than the others, and at or behind the first one, is added behind them,
unless it is the first one once more. -/
lemma addTo_dropWhile (hfirst : first.position.Normal)
    (hn : ∀ s ∈ rs ++ [r], s.position.Normal)
    (hreached : ∀ s ∈ rs ++ [r], s.position.reached first.position = true)
    (hlater : ∀ s ∈ rs, s.position.before r.position = true) :
    r.addTo (first :: rs.dropWhile first.sameLayoutAt) =
      first :: (rs ++ [r]).dropWhile first.sameLayoutAt := by
  have hr : r ∈ rs ++ [r] := by simp
  rw [List.dropWhile_append]
  cases hrest : rs.dropWhile first.sameLayoutAt with
  | nil => simpa using addTo_singleton hfirst (hn r hr) (hreached r hr)
  | cons kept rest =>
    have hsub : ∀ s ∈ kept :: rest, s ∈ rs := fun s hs =>
      (List.dropWhile_sublist _).subset (hrest ▸ hs)
    have hkept : kept ∈ rs ++ [r] := List.mem_append_left _ (hsub kept (.head _))
    refine addTo_of_later fun s hs => ?_
    rcases List.mem_cons.mp hs with rfl | hs
    · exact Offset.before_of_reached hfirst (hn kept hkept) (hn r hr) (hreached kept hkept)
        (hlater kept (hsub kept (.head _)))
    · exact hlater s (hsub s hs)

lemma dropWhile_append (p : SchemaRecord → Bool) (rs more : List SchemaRecord) :
    ∃ kept, kept.Sublist more ∧ (rs ++ more).dropWhile p = rs.dropWhile p ++ kept := by
  rw [List.dropWhile_append]
  cases hrs : rs.dropWhile p with
  | nil => exact ⟨more.dropWhile p, List.dropWhile_sublist p, rfl⟩
  | cons r rest => exact ⟨more, .refl more, rfl⟩

/-- Whether the first layout is once more among the later ones or not, the last one of all is of the
same table and has the same columns. -/
lemma getLast?_dropWhile_alike (hrs : ∀ s ∈ rs, s.tableId = first.tableId) :
    ∃ last, (first :: rs.dropWhile first.sameLayoutAt).getLast? = some last ∧
      last.tableId = (rs.getLast?.getD first).tableId ∧
      last.columns = (rs.getLast?.getD first).columns := by
  cases hrest : rs.dropWhile first.sameLayoutAt with
  | nil =>
    refine ⟨first, rfl, ?_⟩
    cases hlast : rs.getLast? with
    | none => exact ⟨rfl, rfl⟩
    | some last =>
      have hmem := List.mem_of_getLast? hlast
      have hsame := List.dropWhile_eq_nil_iff.mp hrest last hmem
      simp only [sameLayoutAt, Bool.and_eq_true, decide_eq_true_eq] at hsame
      exact ⟨(hrs last hmem).symm, hsame.1.2⟩
  | cons kept rest =>
    have hlast : rs.getLast? = (kept :: rest).getLast? := by
      rw [← List.takeWhile_append_dropWhile (p := first.sameLayoutAt) (l := rs), hrest]
      exact List.getLast?_append_of_ne_nil _ (List.cons_ne_nil kept rest)
    refine ⟨(kept :: rest).getLast (List.cons_ne_nil kept rest), rfl, ?_⟩
    rw [hlast]
    exact ⟨rfl, rfl⟩

end SchemaRecord

namespace SchemaHistory

lemma schemaAt?_of_last {h : SchemaHistory} {t : TableId} {rs : List SchemaRecord}
    {r : SchemaRecord} {position : Offset} (hrecords : h.records t = rs ++ [r])
    (hreached : position.reached r.position = true) : h.schemaAt? t position = some r := by
  rw [schemaAt?, hrecords, List.reverse_append]
  exact List.find?_cons_of_pos hreached

/-- Records that the position has not reached do not matter to what is looked up. -/
lemma schemaAt?_of_reached {h : SchemaHistory} {t : TableId} {q : Offset}
    {older newer : List SchemaRecord} (hrecords : h.records t = older ++ newer)
    (holder : ∀ x ∈ older, q.reached x.position = true)
    (hnewer : ∀ x ∈ newer, q.reached x.position = false) :
    h.schemaAt? t q = older.getLast? := by
  have hpassed : newer.reverse.find? (fun x => q.reached x.position) = none := by
    simpa using hnewer
  rw [schemaAt?, hrecords, List.reverse_append, List.find?_append, hpassed, Option.none_or,
    List.getLast?_eq_head?_reverse]
  cases hlast : older.reverse with
  | nil => rfl
  | cons last rest =>
    have hmem : last ∈ older := List.mem_reverse.mp (hlast ▸ .head _)
    exact List.find?_cons_of_pos (holder last hmem)

end SchemaHistory

namespace Dispatcher

variable {d : Dispatcher} {h : SchemaHistory} {t : TableId} {first : SchemaRecord}

/-- The history after a record. -/
def learn (d : Dispatcher) (h : SchemaHistory) : LogRecord → SchemaHistory
  | .schemaChange r => if d.captures r.tableId then h.append r else h
  | .change _ | .heartbeat _ => h

/-- The history after some records. -/
def learnAll (d : Dispatcher) (h : SchemaHistory) (records : List LogRecord) : SchemaHistory :=
  records.foldl d.learn h

lemma learnAll_append (d : Dispatcher) (h : SchemaHistory) (records more : List LogRecord) :
    d.learnAll h (records ++ more) = d.learnAll (d.learnAll h records) more :=
  List.foldl_append

/-- Dispatching a record leaves what is learnt of it. -/
lemma history_of_dispatch {r : LogRecord} {x : Dispatched} {h' : SchemaHistory}
    (hdispatch : d.dispatch h r = .ok (x, h')) : h' = d.learn h r := by
  cases r with
  | change c =>
    simp only [dispatch] at hdispatch
    split at hdispatch
    · cases hdecode : decode h c with
      | error f => simp [hdecode, Except.map] at hdispatch
      | ok e =>
        simp only [hdecode, Except.map, Except.ok.injEq, Prod.mk.injEq] at hdispatch
        exact hdispatch.2.symm
    · exact (Prod.mk.inj (Except.ok.inj hdispatch)).2.symm
  | schemaChange r =>
    simp only [dispatch] at hdispatch
    rw [learn]
    split at hdispatch
    · next hcaptured =>
      rw [if_pos hcaptured]
      exact (Prod.mk.inj (Except.ok.inj hdispatch)).2.symm
    · next hskipped =>
      rw [if_neg hskipped]
      exact (Prod.mk.inj (Except.ok.inj hdispatch)).2.symm
  | heartbeat position => exact (Prod.mk.inj (Except.ok.inj hdispatch)).2.symm

/-- The layouts that a history holds for a table: the first one, and the changes behind it, without
those that state it once more. -/
lemma records_learnAll (hcaptured : d.captures t = true)
    (hfirst : h.records t = [first]) (hnormal : first.position.Normal) {records : List LogRecord}
    (hreached : ∀ r ∈ records, r.position.reached first.position = true)
    (hordered : Ordered records) :
    (d.learnAll h records).records t =
      first :: (layoutChanges t records).dropWhile first.sameLayoutAt := by
  induction records using List.reverseRecOn with
  | nil => exact hfirst
  | append_singleton records r ih =>
    have hbefore := ih (fun x hx => hreached x (List.mem_append_left _ hx))
      (hordered.sublist (List.sublist_append_left ..))
    have hascending := (List.pairwise_append.mp hordered.ascending).2.2
    rw [learnAll_append, layoutChanges_append]
    change (d.learn (d.learnAll h records) r).records t = _
    cases r with
    | change c =>
      rw [learn, hbefore]
      exact congrArg _ (by rw [layoutChanges, layoutChanges]; simp)
    | heartbeat position =>
      rw [learn, hbefore]
      exact congrArg _ (by rw [layoutChanges, layoutChanges]; simp)
    | schemaChange r =>
      rw [learn]
      by_cases ht : r.tableId = t
      · subst ht
        have hr : layoutChanges r.tableId [.schemaChange r] = [r] := by
          simp [layoutChanges]
        have hmem : ∀ s ∈ layoutChanges r.tableId records ++ [r],
            .schemaChange s ∈ records ++ [.schemaChange r] := by
          intro s hs
          rcases List.mem_append.mp hs with hs | hs
          · exact List.mem_append_left _ (mem_layoutChanges.mp hs).1
          · rw [List.mem_singleton.mp hs]
            simp
        rw [if_pos hcaptured, SchemaHistory.records_append_self, hbefore, hr]
        exact SchemaRecord.addTo_dropWhile hnormal
          (fun s hs => hordered.normal (.schemaChange s) (hmem s hs))
          (fun s hs => hreached (.schemaChange s) (hmem s hs))
          fun s hs => hascending (.schemaChange s) (mem_layoutChanges.mp hs).1 (.schemaChange r)
            (by simp)
      · have hr : layoutChanges t [.schemaChange r] = [] := by
          simp [layoutChanges, ht]
        rw [hr, List.append_nil, ← hbefore]
        split
        · exact SchemaHistory.records_append_of_ne _ (Ne.symm ht)
        · rfl

/-- A row is read with the last layout of its table before it, also when the history has learnt what
comes behind it. -/
lemma decode_learnAll {before after : List LogRecord} {c : RowChange}
    (hcaptured : d.captures c.tableId = true) (hfirst : h.records c.tableId = [first])
    (htable : first.tableId = c.tableId) (hnormal : first.position.Normal)
    (hreached : ∀ r ∈ before ++ .change c :: after, r.position.reached first.position = true)
    (hordered : Ordered (before ++ .change c :: after)) {learnt : List LogRecord}
    (hlearnt : learnt.Sublist (.change c :: after)) :
    decode (d.learnAll h (before ++ learnt)) c =
      c.decodeWith (layoutBehind first before c.tableId) := by
  have hpart : (before ++ learnt).Sublist (before ++ .change c :: after) :=
    hlearnt.append_left before
  have hrow : c.position.Normal := hordered.normal (.change c) (by simp)
  obtain ⟨-, hafter, hbefore⟩ := List.pairwise_append.mp hordered.ascending
  obtain ⟨newer, hnewer, hkept⟩ := SchemaRecord.dropWhile_append first.sameLayoutAt
    (layoutChanges c.tableId before) (layoutChanges c.tableId learnt)
  have hrecords := records_learnAll hcaptured hfirst hnormal
    (fun r hr => hreached r (hpart.subset hr)) (hordered.sublist hpart)
  rw [layoutChanges_append, hkept, ← List.cons_append] at hrecords
  have holder : ∀ s ∈ first :: (layoutChanges c.tableId before).dropWhile first.sameLayoutAt,
      c.position.reached s.position = true := by
    intro s hmem
    rcases List.mem_cons.mp hmem with rfl | hmem
    · exact hreached (.change c) (by simp)
    · have hs := (mem_layoutChanges.mp ((List.dropWhile_sublist _).subset hmem)).1
      have hsc := hbefore (.schemaChange s) hs (.change c) (.head _)
      exact Offset.reached_iff.mpr (.inr ((Offset.after_iff_before
        (hordered.normal (.schemaChange s) (List.mem_append_left _ hs)) hrow).mpr hsc))
  have hnot : ∀ s ∈ newer, c.position.reached s.position = false := by
    intro s hmem
    have hs : .schemaChange s ∈ .change c :: after :=
      hlearnt.subset (mem_layoutChanges.mp (hnewer.subset hmem)).1
    have hbehind : .schemaChange s ∈ after := by simpa using hs
    exact Offset.not_reached_of_before hrow
      (hordered.normal (.schemaChange s) (List.mem_append_right _ hs))
      ((List.pairwise_cons.mp hafter).1 _ hbehind)
  have htables : ∀ s ∈ layoutChanges c.tableId before, s.tableId = first.tableId :=
    fun s hmem => (mem_layoutChanges.mp hmem).2.trans htable.symm
  obtain ⟨last, hlast, hsame, hcolumns⟩ := SchemaRecord.getLast?_dropWhile_alike htables
  rw [decode, SchemaHistory.schemaAt, SchemaHistory.schemaAt?_of_reached hrecords holder hnot, hlast]
  exact decodeWith_congr hsame hcolumns c

end Dispatcher
end Changefeed
