import Changefeed.Proofs.Gtid.Built
import Changefeed.Proofs.Offset
import Changefeed.Proofs.Schema.History

/-!
# The order of a table's records

A record is added before the first one that is strictly later.  Positions are ordered only in part,
so two neighbours may not compare at all, and the records behind the new one need not be later than
it.  What adding keeps is that no record is followed by one that is strictly earlier: all that
stands behind the new record stands behind one that is later than it, and a record cannot be earlier
than the new one without being earlier than that one too.

The records at one position stay in the order in which they came.  Both together say which record
the last one is that a position has reached: none that is reached is later, and of those at its own
position it is the one that came last.
-/

namespace Changefeed

/-! ## The records of one table -/

/-- No record is followed by one that is strictly earlier. -/
def InOrder (rs : List SchemaRecord) : Prop :=
  rs.Pairwise fun s s' => s'.position.before s.position = false

/-- The records of a list at one position, in order. -/
def recordsAt (p : Offset) (rs : List SchemaRecord) : List SchemaRecord :=
  rs.filter fun r => r.position = p

lemma mem_recordsAt {p : Offset} {rs : List SchemaRecord} {r : SchemaRecord} :
    r ∈ recordsAt p rs ↔ r ∈ rs ∧ r.position = p := by
  simp [recordsAt]

lemma recordsAt_append (p : Offset) (rs more : List SchemaRecord) :
    recordsAt p (rs ++ more) = recordsAt p rs ++ recordsAt p more :=
  List.filter_append ..

namespace InOrder

variable {r s : SchemaRecord} {rs : List SchemaRecord}

/-- What stands behind a record that is later than another one is not earlier than that one. -/
lemma not_before_of_later (h : InOrder (s :: rs)) (hr : r.position.Normal)
    (hn : ∀ x ∈ s :: rs, x.position.Normal) (hlater : r.position.before s.position = true)
    {x : SchemaRecord} (hx : x ∈ s :: rs) : x.position.before r.position = false := by
  have hs := hn s List.mem_cons_self
  by_contra hbefore
  rw [Bool.not_eq_false] at hbefore
  have hxs : x.position.before s.position = true :=
    Offset.before_trans (hn x hx) hr hs hbefore hlater
  rcases List.mem_cons.mp hx with rfl | hx
  · simp at hxs
  · have hnot := (List.pairwise_cons.mp h).1 x hx
    rw [hxs] at hnot
    contradiction

lemma recordsAt_of_later (h : InOrder (s :: rs)) (hlater : r.position.before s.position = true) :
    recordsAt r.position (s :: rs) = [] := by
  refine List.filter_eq_nil_iff.mpr fun x hx => ?_
  rw [decide_eq_true_eq]
  intro hposition
  rcases List.mem_cons.mp hx with rfl | hx
  · simp [hposition] at hlater
  · have hnot := (List.pairwise_cons.mp h).1 x hx
    rw [hposition, hlater] at hnot
    contradiction

/-- A record is added without coming before a strictly earlier one or behind a strictly later
one. -/
lemma insertByPosition (h : InOrder rs) (hr : r.position.Normal)
    (hn : ∀ x ∈ rs, x.position.Normal) : InOrder (r.insertByPosition rs) := by
  induction rs with
  | nil => exact List.pairwise_singleton ..
  | cons s rest ih =>
    obtain ⟨hhead, htail⟩ := List.pairwise_cons.mp h
    rw [SchemaRecord.insertByPosition]
    split
    · next hafter =>
      have hlater := (Offset.after_iff_before hr (hn s List.mem_cons_self)).mp hafter
      exact List.pairwise_cons.mpr ⟨fun x hx => h.not_before_of_later hr hn hlater hx, h⟩
    · next hafter =>
      refine List.pairwise_cons.mpr ⟨fun x hx => ?_, ih htail fun x hx => hn x (.tail _ hx)⟩
      rcases SchemaRecord.mem_insertByPosition.mp hx with rfl | hx
      · rw [Offset.after_iff_before hr (hn s List.mem_cons_self)] at hafter
        simpa using hafter
      · exact hhead x hx

/-- A record is added behind those at its position. -/
lemma recordsAt_insertByPosition (h : InOrder rs) (hr : r.position.Normal)
    (hn : ∀ x ∈ rs, x.position.Normal) (p : Offset) :
    recordsAt p (r.insertByPosition rs) = recordsAt p rs ++ recordsAt p [r] := by
  induction rs with
  | nil => rfl
  | cons s rest ih =>
    rw [SchemaRecord.insertByPosition]
    split
    · next hafter =>
      have hlater := (Offset.after_iff_before hr (hn s List.mem_cons_self)).mp hafter
      have hcons : recordsAt p (r :: s :: rest) = recordsAt p [r] ++ recordsAt p (s :: rest) :=
        recordsAt_append p [r] (s :: rest)
      rw [hcons]
      by_cases hp : r.position = p
      · subst hp
        rw [h.recordsAt_of_later hlater, List.append_nil, List.nil_append]
      · have hnone : recordsAt p [r] = [] := by simp [recordsAt, hp]
        rw [hnone, List.nil_append, List.append_nil]
    · have hcons : ∀ l, recordsAt p (s :: l) = recordsAt p [s] ++ recordsAt p l :=
        recordsAt_append p [s]
      rw [hcons, hcons rest, ih (List.pairwise_cons.mp h).2 fun x hx => hn x (.tail _ hx),
        List.append_assoc]

end InOrder

/-! ## What was inserted -/

namespace SchemaHistory

/-- The records that a history takes when some are added, in order: those that are not there yet. -/
def taken (h : SchemaHistory) : List SchemaRecord → List SchemaRecord
  | [] => []
  | r :: rs =>
    if (h.records r.tableId).any (·.sameLayoutAt r) then (h.append r).taken rs
    else r :: (h.append r).taken rs

/-- The histories that come of the empty one, with the records they took in order. -/
inductive Grown : SchemaHistory → List SchemaRecord → Prop
  | empty : Grown empty []
  | append {h ins} (r : SchemaRecord) : Grown h ins → Grown (h.append r) (ins ++ h.taken [r])
  | register {h h' ins t rs} : Grown h ins → h.register t rs = .ok h' →
      Grown h' (ins ++ h.taken rs)
  | commit {h ins} (b : SchemaBatch) : Grown h ins →
      Grown (b.commit h) (ins ++ h.taken b.pending)

variable {h h' : SchemaHistory} {ins : List SchemaRecord} {r : SchemaRecord} {t : TableId}

/-- What a history holds of the records that were inserted into it. -/
structure Holds (h : SchemaHistory) (ins : List SchemaRecord) : Prop where
  inOrder : ∀ t, InOrder (h.records t)
  recordsAt : ∀ t p, recordsAt p (h.records t) = recordsAt p (ins.filter (·.tableId = t))

namespace Holds

lemma empty : Holds empty [] where
  inOrder _ := List.Pairwise.nil
  recordsAt _ _ := rfl

lemma mem_records (hh : Holds h ins) : r ∈ h.records t ↔ r ∈ ins ∧ r.tableId = t := by
  have hat := hh.recordsAt t r.position
  have hmem : r ∈ Changefeed.recordsAt r.position (h.records t) ↔
      r ∈ Changefeed.recordsAt r.position (ins.filter (·.tableId = t)) := by rw [hat]
  simpa [mem_recordsAt] using hmem

lemma congr (hh : Holds h ins) (heq : ∀ t, h'.records t = h.records t) : Holds h' ins where
  inOrder t := heq t ▸ hh.inOrder t
  recordsAt t p := heq t ▸ hh.recordsAt t p

/-- Adding one record. -/
lemma append (hh : Holds h ins) (r : SchemaRecord)
    (hn : ∀ x ∈ ins ++ h.taken [r], x.position.Normal) :
    Holds (h.append r) (ins ++ h.taken [r]) := by
  have hold : ∀ {t x}, x ∈ h.records t → x.position.Normal := fun hx =>
    hn _ (List.mem_append_left _ (hh.mem_records.mp hx).1)
  by_cases hthere : (h.records r.tableId).any (·.sameLayoutAt r) = true
  · have hsame : ∀ t, (h.append r).records t = h.records t := by
      intro t
      by_cases ht : t = r.tableId
      · rw [ht, records_append_self, SchemaRecord.addTo, if_pos hthere]
      · exact records_append_of_ne h ht
    have hnone : h.taken [r] = [] := by simp [taken, hthere]
    rw [hnone, List.append_nil]
    exact hh.congr hsame
  · have hone : h.taken [r] = [r] := by simp [taken, hthere]
    rw [hone] at hn ⊢
    have hr : r.position.Normal := hn r (by simp)
    have hself : (h.append r).records r.tableId = r.insertByPosition (h.records r.tableId) := by
      rw [records_append_self, SchemaRecord.addTo, if_neg hthere]
    constructor
    · intro t
      by_cases ht : t = r.tableId
      · rw [ht, hself]
        exact (hh.inOrder _).insertByPosition hr fun x hx => hold hx
      · rw [records_append_of_ne h ht]
        exact hh.inOrder t
    · intro t p
      rw [List.filter_append, recordsAt_append, ← hh.recordsAt t p]
      by_cases ht : t = r.tableId
      · subst ht
        rw [hself, (hh.inOrder _).recordsAt_insertByPosition hr (fun x hx => hold hx)]
        simp
      · have hother : [r].filter (·.tableId = t) = [] := by simp [Ne.symm ht]
        rw [records_append_of_ne h ht, hother]
        exact (List.append_nil _).symm

/-- Adding several records, one after the other. -/
lemma appendAll {rs : List SchemaRecord} (hh : Holds h ins)
    (hn : ∀ x ∈ ins ++ h.taken rs, x.position.Normal) :
    Holds (h.appendAll rs) (ins ++ h.taken rs) := by
  induction rs generalizing h ins with
  | nil => simpa [taken, SchemaHistory.appendAll] using hh
  | cons r rs ih =>
    have hsplit : h.taken (r :: rs) = h.taken [r] ++ (h.append r).taken rs := by
      simp only [taken]
      split <;> rfl
    rw [hsplit, ← List.append_assoc] at hn ⊢
    exact ih (hh.append r fun x hx => hn x (List.mem_append_left _ hx)) hn

end Holds

lemma records_appendAll_own {rs : List SchemaRecord} (hown : ∀ r ∈ rs, r.tableId = t) :
    (h.appendAll rs).records t = rs.foldl (fun acc r => r.addTo acc) (h.records t) := by
  induction rs generalizing h with
  | nil => rfl
  | cons r rs ih =>
    obtain rfl := hown r List.mem_cons_self
    have hrest := ih (h := h.append r) fun x hx => hown x (List.mem_cons_of_mem _ hx)
    rw [records_append_self] at hrest
    exact hrest

/-- Registering records is adding them one after the other. -/
lemma records_of_register {rs : List SchemaRecord} (hreg : h.register t rs = .ok h')
    (u : TableId) : h'.records u = (h.appendAll rs).records u := by
  unfold register at hreg
  split at hreg
  · cases hreg
  · next hnone =>
    have hown : ∀ r ∈ rs, r.tableId = t := by
      simpa using hnone
    obtain rfl := Except.ok.inj hreg
    by_cases hu : u = t
    · subst hu
      rw [records_appendAll_own hown]
      simp [records]
    · rw [records_appendAll_of_ne fun r hr => hown r hr ▸ hu]
      simp only [records]
      rw [SortedMap.find?_insert_of_ne _ _ hu]

/-- A history that has grown holds what was inserted. -/
lemma Grown.holds (hg : Grown h ins) (hn : ∀ r ∈ ins, r.position.Normal) : Holds h ins := by
  induction hg with
  | empty => exact Holds.empty
  | append r _ ih => exact (ih fun x hx => hn x (List.mem_append_left _ hx)).append r hn
  | register _ hreg ih =>
    have hh := (ih fun x hx => hn x (List.mem_append_left _ hx)).appendAll hn
    exact hh.congr (records_of_register hreg)
  | commit b _ ih => exact (ih fun x hx => hn x (List.mem_append_left _ hx)).appendAll hn

/-! ## What is looked up -/

lemma split_of_schemaAt? {q : Offset} (hr : h.schemaAt? t q = some r) :
    ∃ older newer, h.records t = older ++ r :: newer ∧ q.reached r.position = true ∧
      ∀ x ∈ newer, q.reached x.position = false := by
  rw [schemaAt?, List.find?_eq_some_iff_append] at hr
  obtain ⟨hreached, passed, rest, hsplit, hpassed⟩ := hr
  refine ⟨rest.reverse, passed.reverse, ?_, hreached, ?_⟩
  · rw [← List.reverse_reverse (h.records t), hsplit]
    simp
  · intro x hx
    simpa using hpassed x (List.mem_reverse.mp hx)

lemma schemaAt?_eq_none_iff {q : Offset} :
    h.schemaAt? t q = none ↔ ∀ r ∈ h.records t, q.reached r.position = false := by
  simp [schemaAt?]

lemma schemaAt_eq_error_iff {q : Offset} :
    h.schemaAt t q = .error (.schemaUnknown t.text q.text) ↔ h.schemaAt? t q = none := by
  rw [schemaAt]
  cases h.schemaAt? t q with
  | none => simp
  | some r => simp

/-- In order, no record that was reached is later than the answer. -/
lemma reached_eq_false_of_before {q : Offset} (horder : InOrder (h.records t))
    (hr : h.schemaAt? t q = some r) {x : SchemaRecord} (hx : x ∈ h.records t)
    (hbefore : r.position.before x.position = true) : q.reached x.position = false := by
  obtain ⟨older, newer, hsplit, -, hnewer⟩ := split_of_schemaAt? hr
  rw [hsplit] at horder hx
  rcases List.mem_append.mp hx with hx | hx
  · have hnot := (List.pairwise_append.mp horder).2.2 x hx r List.mem_cons_self
    rw [hbefore] at hnot
    contradiction
  · rcases List.mem_cons.mp hx with rfl | hx
    · simp at hbefore
    · exact hnewer x hx

/-- The answer is the last one of the records at its position. -/
lemma getLast?_recordsAt {q : Offset} (hr : h.schemaAt? t q = some r) :
    (recordsAt r.position (h.records t)).getLast? = some r := by
  obtain ⟨older, newer, hsplit, hreached, hnewer⟩ := split_of_schemaAt? hr
  have hnone : recordsAt r.position newer = [] := by
    refine List.filter_eq_nil_iff.mpr fun x hx => ?_
    rw [decide_eq_true_eq]
    intro hposition
    rw [← hposition, hnewer x hx] at hreached
    contradiction
  have hself : recordsAt r.position (r :: newer) = [r] := by
    rw [recordsAt, List.filter_cons_of_pos (by simp)]
    exact congrArg (r :: ·) hnone
  rw [hsplit, recordsAt_append, hself, List.getLast?_concat]

/-- However a history has come about, no record of a table is followed by one that is strictly
earlier.  A lookup fails exactly when the position has reached none of the table's records.
Otherwise its answer is one that the position has reached, none that is later was reached too, and
of those that were inserted at its position it is the last one. -/
theorem schemaAt_newest_reached (hg : Grown h ins) (hn : ∀ r ∈ ins, r.position.Normal)
    (t : TableId) :
    (h.records t).Pairwise (fun r later => later.position.before r.position = false) ∧
      ∀ q : Offset,
        (h.schemaAt t q = .error (.schemaUnknown t.text q.text) ↔
          ∀ r ∈ h.records t, q.reached r.position = false) ∧
        ((∃ r ∈ h.records t, q.reached r.position = true) →
          ∃ r, h.schemaAt t q = .ok r ∧ r ∈ h.records t ∧ q.reached r.position = true ∧
            (¬ ∃ x ∈ h.records t, r.position.before x.position = true ∧
              q.reached x.position = true) ∧
            (ins.filter fun x => x.tableId = t ∧ x.position = r.position).getLast? = some r) := by
  have hh := hg.holds hn
  refine ⟨hh.inOrder t, fun q => ⟨schemaAt_eq_error_iff.trans schemaAt?_eq_none_iff, ?_⟩⟩
  rintro ⟨x, hx, hreached⟩
  cases hr : h.schemaAt? t q with
  | none =>
    have hnot := schemaAt?_eq_none_iff.mp hr x hx
    rw [hreached] at hnot
    contradiction
  | some r =>
    obtain ⟨hmem, hreached⟩ := schemaAt?_some hr
    have hlater : ¬ ∃ x ∈ h.records t, r.position.before x.position = true ∧
        q.reached x.position = true := by
      rintro ⟨x, hx, hbefore, hreached⟩
      rw [reached_eq_false_of_before (hh.inOrder t) hr hx hbefore] at hreached
      contradiction
    have hlast : (ins.filter fun x => x.tableId = t ∧ x.position = r.position).getLast? =
        some r := by
      rw [← getLast?_recordsAt hr, hh.recordsAt, recordsAt, List.filter_filter]
      congr 2
      funext x
      rw [Bool.and_comm, Bool.decide_and]
    exact ⟨r, by rw [schemaAt, hr], hmem, hreached, hlater, hlast⟩

/-- A layout of the orders at some transactions. -/
def ordersAt (position : Offset) (ddl : Option String) : SchemaRecord :=
  { tableId := ⟨"shop", "orders"⟩, columns := [], position, ddl }

/-- The first layout, and two at positions of which neither has reached the other one. -/
def apart : List SchemaRecord :=
  [ordersAt .initial none, ordersAt (.gtid ⟨[("a", [⟨1, 2⟩])]⟩) none,
    ordersAt (.gtid ⟨[("b", [⟨1, 3⟩])]⟩) none]

/-- Two layouts at a position that one of those two has reached. -/
def twice : List SchemaRecord :=
  [ordersAt (.gtid ⟨[("a", [⟨1, 1⟩])]⟩) none, ordersAt (.gtid ⟨[("a", [⟨1, 1⟩])]⟩) (some "ALTER")]

/-- Where the first transaction of one source alone has been reached, the second layout there is the
answer, although records stand behind it. -/
theorem schemaAt_newest_reached_twice :
    ∃ h q r, Grown h (apart ++ twice) ∧ (∀ x ∈ apart ++ twice, x.position.Normal) ∧
      (∃ x ∈ h.records ⟨"shop", "orders"⟩, q.reached x.position = true) ∧
      h.records ⟨"shop", "orders"⟩ = ordersAt .initial none :: twice ++ apart.tail ∧
      h.schemaAt ⟨"shop", "orders"⟩ q = .ok r ∧
      (¬ ∃ x ∈ h.records ⟨"shop", "orders"⟩, r.position.before x.position = true ∧
        q.reached x.position = true) ∧
      ((apart ++ twice).filter fun x =>
        x.tableId = ⟨"shop", "orders"⟩ ∧ x.position = r.position).getLast? = some r := by
  let began := (SchemaBatch.commit ⟨[apart[0]]⟩ empty).append apart[1] |>.append apart[2]
  let grown : SchemaHistory :=
    ⟨[(⟨"shop", "orders"⟩, ordersAt .initial none :: twice ++ apart.tail)]⟩
  have hbegan : Grown began apart := .append _ (.append _ (.commit ⟨[apart[0]]⟩ .empty))
  have hregister : began.register ⟨"shop", "orders"⟩ twice = .ok grown := by decide +kernel
  have htaken : began.taken twice = twice := by decide +kernel
  have hgrown : Grown grown (apart ++ twice) := htaken ▸ hbegan.register hregister
  have hparsed : ∀ text {s}, GtidSet.parse text = .ok s → (Offset.gtid s).Normal :=
    fun _ _ hs => (GtidSet.Built.parse hs).normal
  have hone : (Offset.gtid ⟨[("a", [⟨1, 1⟩])]⟩).Normal := hparsed "a:1" (by decide +kernel)
  have hnormal : ∀ x ∈ apart ++ twice, x.position.Normal := by
    intro x hx
    simp only [apart, twice, List.cons_append, List.nil_append, List.mem_cons, List.not_mem_nil,
      or_false] at hx
    rcases hx with rfl | rfl | rfl | rfl | rfl
    · exact Offset.normal_initial
    · exact hparsed "a:1-2" (by decide +kernel)
    · exact hparsed "b:1-3" (by decide +kernel)
    · exact hone
    · exact hone
  let q : Offset := .gtid ⟨[("a", [⟨1, 1⟩])]⟩
  have hreached : ∃ x ∈ grown.records ⟨"shop", "orders"⟩, q.reached x.position = true := by
    decide +kernel
  obtain ⟨r, hr, -, -, hlater, hlast⟩ :=
    ((schemaAt_newest_reached hgrown hnormal ⟨"shop", "orders"⟩).2 q).2 hreached
  exact ⟨grown, q, r, hgrown, hnormal, hreached, by decide +kernel, hr, hlater, hlast⟩

end SchemaHistory
end Changefeed
